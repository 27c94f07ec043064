import EDDTs.Library.Flex
import EDDTs.Pan.Reporter

/-!
# The lexer of `scan.l`

The rules with their patterns in the order of the source, and their actions on
the tables of the test that is being read.

## Implementation notes

All actions return a token other than zero, so `scanner` calls `yylex` until the
end of its input. The names of the tokens are those the rules return, apart from
the three rules that return `SPACE`.
-/

namespace EDDTs.Pan

open Library

/-- The start conditions: `INITIAL`, and those of `%Start`, which are inclusive. -/
inductive Cond where
  | initial
  | key
  | out
  | cuts
  deriving DecidableEq, Repr

/-- The rules, in the order of the source. -/
inductive Token where
  | kwStart
  | kwEnd
  | testStart
  | testOutput
  | execStatus
  | testEnd
  | keywordQuoted
  | keyword
  /-- `<KEY>[ \t\n]*` -/
  | keySpace
  | textLine
  | cutsResult
  | cutsResultR
  /-- `.` -/
  | other
  | newline
  deriving DecidableEq, Repr

namespace Scan

/-- `[a-zA-Z_-]` -/
def isKeyChar (c : Char) : Bool := c.isAlpha || c = '_' || c = '-'

/-- `[^"\n]` -/
def isQuotable (c : Char) : Bool := c ≠ '"' ∧ c ≠ '\n'

/-- `[ \t\n]` -/
def isSpace (c : Char) : Bool := c = ' ' ∨ c = '\t' ∨ c = '\n'

/-- `[^\t \n]` -/
def isPlain (c : Char) : Bool := !isSpace c

def one (c : Char) : Regex Char := .cls fun d => decide (d = c)

/-- `UI`, `A`, `W` and `S` of the definitions. -/
def UI : Regex Char := (Regex.cls Char.isDigit).plus
def A : Regex Char := (Regex.cls Char.isAlpha).plus
def W : Regex Char := (Regex.cls fun c => c.isAlphanum || c = '_' || c = '-').plus
def S : Regex Char := (Regex.cls fun c => c = ' ' || c = '\t').plus

/-- The rule of a line that holds nothing but a marker. -/
def markerRule (marker : String) : FlexRule Cond :=
  { conds := [], bol := true, regex := .word (txt marker), eol := true }

/-- The pattern of a rule. -/
def rule : Token → FlexRule Cond
  | .kwStart => markerRule "<<<rts_keyword_start>>>"
  | .kwEnd => markerRule "<<<rts_keyword_end>>>"
  | .testStart => markerRule "<<<test_start>>>"
  | .testOutput => markerRule "<<<test_output>>>"
  | .execStatus => markerRule "<<<execution_status>>>"
  | .testEnd => markerRule "<<<test_end>>>"
  | .keywordQuoted =>
      { conds := [.key], bol := false, eol := false
        regex := (Regex.cls isKeyChar).plus.seq ((one '=').seq ((one '"').seq
          ((Regex.cls isQuotable).plus.seq (one '"')))) }
  | .keyword =>
      { conds := [.key], bol := false, eol := false
        regex := (Regex.cls isKeyChar).plus.seq ((one '=').seq (Regex.cls isPlain).plus) }
  | .keySpace =>
      { conds := [.key], bol := false, eol := false, regex := (Regex.cls isSpace).star }
  | .textLine =>
      { conds := [.out], bol := true, eol := true
        regex := (Regex.cls fun c => decide (c ≠ '\n')).plus }
  | .cutsResult =>
      { conds := [.cuts], bol := true, eol := false
        regex := W.seq (S.seq (UI.seq (S.seq (A.seq (S.seq (one ':')))))) }
  | .cutsResultR =>
      { conds := [.cuts], bol := true, eol := false
        regex := W.seq (S.seq (UI.seq ((one '-').seq (UI.seq
          (S.seq (A.seq (S.seq (one ':')))))))) }
  | .other =>
      { conds := [], bol := false, eol := false, regex := .cls fun c => decide (c ≠ '\n') }
  | .newline => { conds := [], bol := false, eol := false, regex := one '\n' }

def order : List Token :=
  [.kwStart, .kwEnd, .testStart, .testOutput, .execStatus, .testEnd, .keywordQuoted, .keyword,
    .keySpace, .textLine, .cutsResult, .cutsResultR, .other, .newline]

end Scan

/-- `scan_mode`. -/
inductive ScanMode where
  | outside
  | rtsKey
  | tstKey
  | output
  deriving DecidableEq, Repr

/-- The name and the number of a mode, as `check_mode` prints them. -/
def ScanMode.name : ScanMode → Text
  | .outside => txt "outside"
  | .rtsKey => txt "rts_keyword_start"
  | .tstKey => txt "test_start | execution_status"
  | .output => txt "test_output"

def ScanMode.number : ScanMode → Nat
  | .outside => 10
  | .rtsKey => 20
  | .tstKey => 21
  | .output => 30

/-- The state of the lexer between two actions. -/
structure Scanner where
  cond : Cond
  mode : ScanMode
  yylineno : Nat
  keys : Option Table
  ctag : Option Table
  reports : Reports
  yytextIs : YyText
  /-- history: the tables that `test_end` was called with -/
  ended : List (Table × Table)

/-- The lexer at the start of its input. With `nolex-compat` flex makes `yytext` a pointer. -/
def Scanner.initial : Scanner :=
  { cond := .initial, mode := .outside, yylineno := 1, keys := none, ctag := none, ended := []
    yytextIs := .pointer
    reports := { alltags := .dir [], notag := 0, stdout := [], stderr := [] } }

namespace Scanner

/-- `check_mode`, followed by the assignment of the new mode. The error is only
printed. -/
def checkMode (s : Scanner) (yytext : Text) (expected : List ScanMode) (mode : ScanMode) :
    Scanner :=
  let err := if s.mode ∈ expected then [] else
    txt "PARSE ERROR -- Line " ++ natText s.yylineno ++ txt " found " ++ cString yytext ++
      txt " in mode " ++ s.mode.name ++ txt "[" ++ natText s.mode.number ++
      txt "] expected \x7b " ++ (txt ", ").intercalate (expected.map ScanMode.name) ++
      txt " \x7d\n"
  { s with mode := mode, reports := { s.reports with stderr := s.reports.stderr ++ err } }

/-- `sym_put(keys, key, strdup(value), 0)`; nothing happens without a table. -/
def put (s : Scanner) (key value : Text) : Scanner :=
  { s with keys := s.keys.map fun t => putText t key value }

/-- `test_output`, in the condition that `BEGIN` has set. -/
def testOutput (s : Scanner) : Scanner :=
  match s.keys.bind fun t => symText t (txt "analysis") with
  | some at_ =>
      if (at_.take 4).map Char.toLower = txt "cuts" then { s with cond := .cuts } else s
  | none => s

/-- What `test_end` is called with, if neither table is null. -/
def endCall (s : Scanner) : List (Table × Table) :=
  match s.ctag, s.keys with
  | some ctag, some keys => [(ctag, keys)]
  | _, _ => []

/-- `yylineno` moves on by the newlines of a text. -/
def countLines (s : Scanner) (yytext : Text) : Scanner :=
  { s with yylineno := s.yylineno + yytext.count '\n' }

/-- The action of a rule; `none` ends the process. -/
def action (mode : ReporterMode) (extended : Bool) (s : Scanner) (yytext : Text) :
    Token → Option Scanner
  | .kwStart =>
      some { s.checkMode yytext [.outside] .rtsKey with cond := .key, keys := some (.dir []) }
  | .kwEnd =>
      let s := s.checkMode yytext [.rtsKey] .outside
      let rts := s.keys.getD (.leaf none)
      let alltags := (treePut s.reports.alltags (keyPath (txt "_RTS")) rts true).2
      some { s with cond := .initial, keys := none, reports := { s.reports with alltags } }
  | .testStart =>
      let s := s.checkMode yytext [.outside] .tstKey
      let keys := putText (.dir []) (txt "_Start_line") (natText s.yylineno)
      some { s with cond := .key, keys := some keys, ctag := some (.dir []) }
  | .testOutput =>
      some { s.checkMode yytext [.tstKey] .output with cond := .out }.testOutput
  | .execStatus => some { s.checkMode yytext [.tstKey, .output] .tstKey with cond := .key }
  | .testEnd =>
      let s := s.checkMode yytext [.tstKey] .outside
      let s := s.put (txt "_End_line") (natText s.yylineno)
      (testEnd mode extended s.reports s.ctag s.keys).map fun reports =>
        { s with cond := .initial, keys := none, ctag := none, reports
                 ended := s.ended ++ s.endCall }
  | .keywordQuoted =>
      let key := yytext.takeWhile (· ≠ '=')
      let cont := (yytext.dropWhile (· ≠ '=')).drop 1
      let cont := if cont.head? = some '"' then cont.drop 1 else cont
      let cont := if cont.getLast? = some '"' then cont.dropLast else cont
      some (s.put key (cString cont))
  | .keyword =>
      let key := yytext.takeWhile (· ≠ '=')
      let cont := (yytext.dropWhile (· ≠ '=')).drop 1
      some (s.put key (cString cont))
  | .cutsResult | .cutsResultR =>
      (cutsTestcase s.yytextIs s.ctag (cString yytext)).map fun ctag => { s with ctag }
  | .keySpace | .textLine | .other | .newline => some s

end Scanner

/-- The lexer as a scanner over states; `none` is a process that has ended. Flex
counts the newlines of the text before the action. -/
def lexer (mode : ReporterMode) (extended : Bool) : Flex Cond Token (Option Scanner) where
  rule := Scan.rule
  order := Scan.order
  cond s := (s.map Scanner.cond).getD .initial
  act s token yytext := s.bind fun s =>
    match token with
    | some token => (s.countLines yytext).action mode extended yytext token
    -- the default rule only echoes
    | none => some (s.countLines yytext)

/-- The calls of `yylex` that are left, with the input that is left. -/
def scanFrom (mode : ReporterMode) (extended : Bool) (s : Option Scanner) (bol : Bool)
    (input : Text) : Option Scanner := ((lexer mode extended).scan s bol input).join

/-- `scanner`: the state at the end of the input, or none if the process ends
before. -/
def scanner (mode : ReporterMode) (extended : Bool) (input : Text) : Option Scanner :=
  scanFrom mode extended (some .initial) true input

end EDDTs.Pan
