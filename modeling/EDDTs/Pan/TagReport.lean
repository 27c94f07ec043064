import EDDTs.Pan.Collection
import EDDTs.Pan.SymbolRefinement

/-!
# The report of a tag

`tag_report.c` over the tables that `symbol.c` keeps. A table is the tree that
its chains denote; the data of a node is a string, a null pointer or a table.

## Implementation notes

`test_result` replaces the blanks of its result in place. Where the result is a
string literal with a blank the write goes to memory that is not writable, and
where it is a stored string, later reads of that string see the change.
-/

namespace EDDTs.Pan

open Library

/-- A symbol table with strings as data; `none` is the null pointer. -/
abbrev Table := OrderedTree Text (Option Text)

/-- `KEYSIZE`, the size of the buffers for keys. -/
def keySize : Nat := 255

/-- The string that a data pointer points to. -/
def stringAt : Table → Option Text
  | .leaf v => v
  | .dir _ => none

/-- `sym_get` where the data is a string. -/
def symText (t : Table) (key : Text) : Option Text := (t.get (keyPath key)).bind stringAt

/-- `sym_put` of a string with flags zero. -/
def putText (t : Table) (key value : Text) : Table :=
  (treePut t (keyPath key) (.leaf (some value)) false).2

/-- A line of the report, before it is put into columns. -/
structure ReportLine where
  tag : Text
  tcid : Text
  tc : Text
  result : Text
  contact : Text
  deriving DecidableEq, Repr

/-- `FORMAT`. -/
def ReportLine.text (l : ReportLine) : Text :=
  padRight 20 (l.tag.take 20) ++ txt " " ++ padRight 15 (l.tcid.take 15) ++ txt " " ++
    padLeft 10 (l.tc.take 10) ++ txt " " ++ padRight 20 (l.result.take 20) ++ txt " " ++
    l.contact ++ txt "\n"

/-- The result that a caller passes to `test_result`. -/
inductive ResultArg where
  | literal (t : Text)
  | stored (t : Text)

/-- `tr " " "_"`. -/
def blanksToUnderscores (t : Text) : Text := t.map fun c => if c = ' ' then '_' else c

/-- The result as `test_result` leaves it; writing to a literal ends the process. -/
def ResultArg.translated : ResultArg → Option Text
  | .literal t => if ' ' ∈ t then none else some t
  | .stored t => some (blanksToUnderscores t)

/-- `test_result`: the lines it prints, unless it ends the process. -/
def testResult (tag : Text) (tcid tc : Option Text) (result : ResultArg) (keys : Table) :
    Option (List ReportLine) :=
  match result.translated with
  | none => none
  | some res =>
      let expert := (symText keys (txt "contacts")).getD (txt "UNKNOWN")
      some ((splitstr expert [',']).map fun contact =>
        { tag := tag, tcid := tcid.getD (txt "-"), tc := tc.getD (txt "-")
          result := if res = [] then txt "?" else res, contact := contact })

/-- The table of `worst_case`, from worst to best. -/
def worst : List Text :=
  [txt "FAIL", txt "BROK", txt "PASS", txt "CONF", txt "WARN", txt "INFO"]

/-- `worst_case`; a status that is not in the table comes after all others. -/
def worstCase (t1 t2 : Text) : Text := if worst.idxOf t1 < worst.idxOf t2 then t1 else t2

/-- How the generated lexer defines `yytext`, which `cuts_testcase` declares as an array. -/
inductive YyText where
  | array
  | pointer
  deriving DecidableEq, Repr

/-- `cuts_testcase`: the table of the current tag after one result line, or
none where the key does not fit its buffer, or where the bytes of a pointer are taken
for the text. -/
def cutsTestcase (yytextIs : YyText) (tag : Option Table) (yytext : Text) :
    Option (Option Table) :=
  match yytextIs, tag, splitstr yytext ['\t', ' '] with
  | .pointer, _, _ => none
  | .array, some tag, tcid :: tc :: result :: _ =>
      let key := tcid ++ txt "," ++ tc
      if keySize ≤ key.length then none
      else
        match symText tag key with
        | some oldresult =>
            let newresult := worstCase oldresult result
            some (some (treePut tag (keyPath key) (.leaf (some newresult)) true).2)
        | none => some (some (putText tag key result))
  -- the rules that call this let no other text through
  | .array, tag, _ => some tag

/-- The inner loop of `cuts_report` over the testcases of a tcid: the worst
result, the number of testcases that are counted, and the lines. -/
def cutsCases (tag tcid : Text) (keys : Table) :
    List (Text × Table) → Text × Nat → Option ((Text × Nat) × List ReportLine)
  | [], acc => some (acc, [])
  | (tc, data) :: rest, (result, tcnum) =>
      match stringAt data with
      | none => none
      | some res =>
          match testResult tag (some tcid) (some tc) (.stored res) keys,
            cutsCases tag tcid keys rest
              (worstCase result res, if atoi tc = 0 then tcnum else tcnum + 1) with
          | some lines, some (acc, more) => some (acc, lines ++ more)
          | _, _ => none

/-- The outer loop of `cuts_report` over the tcids. -/
def cutsTcids (tag : Text) (keys : Table) :
    List (Text × Table) → Text × Nat → Option ((Text × Nat) × List ReportLine)
  | [], acc => some (acc, [])
  | (tcid, data) :: rest, acc =>
      if tcid = txt "_keys" then cutsTcids tag keys rest acc
      else if keySize ≤ tcid.length then none
      else
        match data with
        -- without a testcase the loop would read the key and data of another place
        | .leaf _ => none
        | .dir [] => none
        | .dir cases =>
            match cutsCases tag tcid keys cases acc with
            | none => none
            | some (acc, lines) =>
                match cutsTcids tag keys rest acc with
                | none => none
                | some (acc, more) => some (acc, lines ++ more)

/-- `cuts_report`. A tag without tcids has the empty result, which is a literal. -/
def cutsReport (tags keys : Table) (at_ tag : Text) : Option (List ReportLine) :=
  let tccount : Int :=
    match splitstr at_ [':'] with
    | _ :: n :: _ => atoi n
    | _ => 0
  match tags with
  | .leaf _ => none
  | .dir [] => none
  | .dir entries =>
      match cutsTcids tag keys entries ([], 0) with
      | none => none
      | some ((result, tcnum), lines) =>
          match testResult tag (some (txt "*")) (some (txt "*")) (.stored result) keys with
          | none => none
          | some total =>
              if tccount ≠ 0 ∧ tccount ≠ tcnum then
                match testResult tag (some (txt "-")) (some (txt "-"))
                    (.literal (txt "TC count wrong")) keys with
                | none => none
                | some wrong => some (lines ++ total ++ wrong)
              else some (lines ++ total)

/-- What `tag_report` prints. -/
inductive Printed where
  | line (l : ReportLine)
  /-- the tab separated line of the extended format -/
  | extended (fields : List Text)
  deriving DecidableEq, Repr

/-- The extended line, if it is asked for. `is` and `tt` are the strings as
`test_result` has left them. -/
def extendedLine (extended : Bool) (tag is : Text) (tt : Option Text) (keys : Table) :
    List Printed :=
  let field (key missing : String) := (symText keys (txt key)).getD (txt missing)
  if extended then
    [.extended [tag, txt "!", txt "!", is, field "contacts" "No_Contacts",
      field "stime" "No_stime", field "duration" "No_Duration",
      field "termination_id" "No_Termination_ID", tt.getD (txt "No_Termination_Type"),
      field "_Start_line" "No_Start_line", field "_End_line" "No_End_line"]]
  else []

/-- The verdict of a test that was started and has ended, by its analysis. -/
def verdict (ctag keys : Table) (tag tt info : Text) : Option (List ReportLine) :=
  if (txt "none").isPrefixOf info then testResult tag none none (.literal (txt "pass")) keys
  else if (txt "cuts").isPrefixOf info then cutsReport ctag keys info tag
  else if tt = txt "timeout" then some []
  else
    match symText keys (txt "termination_id") with
    | none => testResult tag none none (.literal (txt "no_Term_Id")) keys
    | some ti =>
        if ti = txt "0" then testResult tag none none (.literal (txt "pass")) keys
        else testResult tag none none (.literal (txt "fail")) keys

/-- `tag_report` for a test whose initiation status is `ok`. -/
def okReport (extended : Bool) (ctag keys : Table) (tag : Text) :
    Option (List Printed × Int) := do
  let core ←
    match symText keys (txt "corefile") with
    | some info =>
        if info = txt "no" then some []
        else testResult tag none none (.literal (txt "coredump")) keys
    | none => some []
  match symText keys (txt "termination_type") with
  | none =>
      let lines ← testResult tag none none (.literal (txt "no Term Type")) keys
      some ((core ++ lines).map .line, -1)
  | some tt =>
      let term ←
        if tt = txt "exited" then some [] else testResult tag none none (.stored tt) keys
      let tt := if tt = txt "exited" then tt else blanksToUnderscores tt
      match symText keys (txt "analysis") with
      | none =>
          let lines ← testResult tag none none (.literal (txt "no Analysis Type")) keys
          some ((core ++ term ++ lines).map .line, -1)
      | some info =>
          let lines ← verdict ctag keys tag tt info
          some ((core ++ term ++ lines).map .line ++
            extendedLine extended tag (txt "ok") (some tt) keys, 0)

/-- `tag_report`: what it prints and returns, unless it ends the process. -/
def tagReport (extended : Bool) (ctag keys : Table) : Option (List Printed × Int) :=
  match symText keys (txt "tag") with
  | none => some ([], -1)
  | some tag =>
      match symText keys (txt "initiation_status") with
      | none => do
          let lines ← testResult tag none none (.literal (txt "no init status")) keys
          some (lines.map .line, -1)
      | some is =>
          if is = txt "ok" then okReport extended ctag keys tag
          else do
            let lines ← testResult tag none none (.stored is) keys
            some (lines.map .line ++ extendedLine extended tag (blanksToUnderscores is)
              (symText keys (txt "termination_type")) keys, 0)

end EDDTs.Pan
