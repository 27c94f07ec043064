import EDDTs.Library.AutoBase
import EDDTs.Library.Strtok
import EDDTs.LtpLib.RandomRange
import EDDTs.Pan.CLibrary

/-!
# Parsing ranges

`parse_ranges` counts the commas of its argument to know how many ranges there can be, takes the
tokens between them apart at their colons and lets a function parse the numbers.

## Implementation notes

Memory is given to `strdup` and `malloc`. Beyond the range of an `int`, the number of commas has
no defined value; beyond `errmsg` and the array of ranges, nothing may be stored.
-/

namespace EDDTs.LtpLib

open Library
open Pan (isspace isspace_of_isDigit)

/-! ### The functions -/

/-- `struct range` -/
structure Range where
  min : ℤ
  max : ℤ
  mult : ℤ
  deriving DecidableEq, Repr

/-- `parse_func`: what it returns for a text, and the value of the integer it is given. -/
abbrev ParseFunc := Text → ℤ → ℤ × ℤ

/-- The value of a `long` for a number that was read. -/
def toLongRange (model : DataModel) (minus : Bool) (n : ℕ) : ℤ :=
  if minus then max (-2 ^ (model.longBits - 1)) (-n) else min (2 ^ (model.longBits - 1) - 1) n

/-- `str_to_int`: `sscanf` stores one value if the number is all of the text. -/
def strToInt (model : DataModel) : ParseFunc := fun str ip =>
  match autoNumeral isspace str with
  | none => (-1, ip)
  | some (minus, n, rest) =>
      (if rest = [] then 0 else -1, Int.bmod (toLongRange model minus n) (2 ^ 32))

/-- Why the function ends early. -/
inductive ParseEnd where
  | undefined
  | failed (errmsg : Text)
  deriving DecidableEq, Repr

/-- `strchr` and the cut: the text in front of the character, and the one behind it. -/
def cutAt (c : Char) (t : Text) : Text × Option Text :=
  (t.takeWhile (· ≠ c), if c ∈ t then some ((t.dropWhile (· ≠ c)).drop 1) else none)

/-- The message in `errmsg`, which has 256 bytes. -/
def parseError (str : Text) : ParseEnd :=
  let errmsg := txt "error parsing string " ++ str ++ txt " into an integer"
  if errmsg.length < 256 then .failed errmsg else .undefined

/-- `(int)strlen(str)` -/
def intLength (str : Text) : ℤ := Int.bmod str.length (2 ^ 32)

/-- A field keeps its default if it is not there or has no length. -/
def parseField (parseFunc : ParseFunc) (field : Option Text) (default : ℤ) :
    Except ParseEnd ℤ :=
  match field with
  | none => .ok default
  | some str =>
      if 0 < intLength str then
        if (parseFunc str default).1 < 0 then .error (parseError str)
        else .ok (parseFunc str default).2
      else .ok default

/-- `n1str`, `n2str` and `multstr` of a token. -/
def tokenFields (tok : Text) : Text × Option Text × Option Text :=
  match cutAt ':' tok with
  | (n1str, none) => (n1str, none, none)
  | (n1str, some t) => (n1str, some (cutAt ':' t).1, (cutAt ':' t).2)

/-- The maximum is the minimum if there is no second field. -/
def parseMax (parseFunc : ParseFunc) (n2str : Option Text) (default min : ℤ) :
    Except ParseEnd ℤ :=
  match n2str with
  | none => .ok min
  | some str => parseField parseFunc (some str) default

/-- The range of one token. -/
def parseToken (parseFunc : ParseFunc) (default : Range) (tok : Text) : Except ParseEnd Range :=
  let (n1str, n2str, multstr) := tokenFields tok
  (parseField parseFunc (some n1str) default.min).bind fun min =>
    (parseMax parseFunc n2str default.max min).bind fun max =>
      (parseField parseFunc multstr default.mult).map fun mult => ⟨min, max, mult⟩

/-- The body of the loop, with room for a number of ranges. An early end is told with the number
of ranges that something was stored in. -/
def storeRange (parseFunc : ParseFunc) (default : Range) (room : ℕ) (tok : Text)
    (ranges : List Range) : Except (ParseEnd × ℕ) (List Range) :=
  if ranges.length < room then
    match parseToken parseFunc default tok with
    | .ok range => .ok (ranges ++ [range])
    | .error e => .error (e, ranges.length + 1)
  else .error (.undefined, ranges.length + 1)

/-- `parse_ranges`: the number that is returned, and the ranges. -/
def parseRanges (model : DataModel) (parseFunc : Option ParseFunc) (default : Range)
    (str : Text) : Except (ParseEnd × ℕ) (ℤ × List Range) :=
  let ncommas := str.count ','
  if 2 ^ 31 ≤ ncommas + 1 then .error (.undefined, 0)
  else
    let room := (ncommas + 1) * 12 % 2 ^ model.longBits / 12
    (strtokLoop (· == ',') (storeRange (parseFunc.getD (strToInt model)) default room) str
      []).map fun ranges => (ranges.length, ranges)

/-- The number of ranges in which something was stored. -/
def storedRanges : Except (ParseEnd × ℕ) (ℤ × List Range) → ℕ
  | .ok (_, ranges) => ranges.length
  | .error (_, count) => count

/-! ### The number of ranges -/

section Stored

variable {parseFunc : ParseFunc} {default : Range} {room : ℕ}

/-- A token is stored, or the loop ends with it. -/
theorem storeRange_cases (tok : Text) (ranges : List Range) :
    (∃ range, storeRange parseFunc default room tok ranges = .ok (ranges ++ [range])) ∨
      ∃ e, storeRange parseFunc default room tok ranges = .error (e, ranges.length + 1) := by
  unfold storeRange
  split_ifs
  · cases parseToken parseFunc default tok with
    | ok range => exact .inl ⟨range, rfl⟩
    | error e => exact .inr ⟨e, rfl⟩
  · exact .inr ⟨_, rfl⟩

/-- Every token is stored once, up to an early end. -/
theorem storedRanges_foldlM (toks : List Text) (ranges : List Range) :
    storedRanges ((toks.foldlM (fun r tok => storeRange parseFunc default room tok r) ranges).map
        fun ranges => (ranges.length, ranges)) ≤ ranges.length + toks.length := by
  induction toks generalizing ranges with
  | nil => exact le_rfl
  | cons tok toks ih =>
      rw [List.foldlM_cons, List.length_cons]
      obtain ⟨range, hstore⟩ | ⟨e, hstore⟩ := storeRange_cases tok ranges
      · rw [hstore]
        refine (ih (ranges ++ [range])).trans ?_
        rw [List.length_append, List.length_singleton]
        omega
      · rw [hstore]
        show ranges.length + 1 ≤ _
        omega

/-- There is at most one range more than there are commas. -/
theorem storedRanges_le (model : DataModel) (parseFunc : Option ParseFunc) (default : Range)
    (str : Text) :
    storedRanges (parseRanges model parseFunc default str) ≤ str.count ',' + 1 := by
  unfold parseRanges
  dsimp only
  split_ifs
  · exact Nat.zero_le _
  · rw [strtokLoop_eq]
    refine (storedRanges_foldlM _ []).trans ?_
    rw [List.length_nil, Nat.zero_add]
    exact length_runs_le _ str

end Stored

/-! ### Ranges that are printed -/

/-- The values of an `int`. -/
abbrev CInt := {x : ℤ // Fits 32 x}

/-- The forms of a token; what is left blank is none. -/
inductive RangeToken where
  | single (n : CInt)
  | pair (n m : Option CInt)
  | triple (n m k : Option CInt)

/-- A number, or a blank. -/
def printField : Option CInt → Text
  | none => []
  | some n => intText n.val

def RangeToken.print : RangeToken → Text
  | .single n => intText n.val
  | .pair n m => printField n ++ ':' :: printField m
  | .triple n m k => printField n ++ ':' :: (printField m ++ ':' :: printField k)

/-- A field with its default. -/
def fieldValue (n : Option CInt) (default : ℤ) : ℤ := (n.map Subtype.val).getD default

/-- The range that a token stands for. -/
def RangeToken.range (default : Range) : RangeToken → Range
  | .single n => ⟨n.val, n.val, default.mult⟩
  | .pair n m => ⟨fieldValue n default.min, fieldValue m default.max, default.mult⟩
  | .triple n m k =>
      ⟨fieldValue n default.min, fieldValue m default.max, fieldValue k default.mult⟩

section Printed

variable {model : DataModel} {default : Range} {c : Char}

theorem isspace_of_sign (h : c = '-' ∨ c.isDigit = true) : isspace c = false := by
  rcases h with rfl | h
  · decide
  · exact isspace_of_isDigit h

/-- An `int` that is printed is parsed. -/
theorem strToInt_intText (model : DataModel) (n : CInt) (ip : ℤ) :
    strToInt model (intText n.val) ip = (0, n.val) := by
  obtain ⟨n, hlow, hhigh⟩ := n
  have hlong : (2 : ℤ) ^ 31 ≤ 2 ^ (model.longBits - 1) := by cases model <;> decide
  have hvalue : toLongRange model (decide (n < 0)) n.natAbs = n := by
    unfold toLongRange
    by_cases hneg : n < 0
    · rw [decide_eq_true hneg, if_pos rfl]
      omega
    · rw [decide_eq_false hneg, if_neg Bool.false_ne_true]
      omega
  rw [strToInt, autoNumeral_intText (fun c => isspace_of_sign)]
  dsimp only
  rw [hvalue, if_pos rfl, Int.bmod_eq_of_le_mul_two (by omega) (by omega)]

theorem length_intText_le (n : CInt) : (intText n.val).length ≤ 11 := by
  obtain ⟨n, hlow, hhigh⟩ := n
  have hlength {k : ℕ} (hk : k < 10 ^ 10) : (natText k).length ≤ 10 :=
    (Nat.length_toDigits_le_iff (by decide) (by decide)).mpr hk
  cases n with
  | ofNat k => exact (hlength (by rw [Int.ofNat_eq_natCast] at hhigh; omega)).trans (by decide)
  | negSucc k => exact Nat.succ_le_succ (hlength (by omega))

theorem intText_ne_nil (i : ℤ) : intText i ≠ [] := by
  cases i with
  | ofNat k => exact Nat.toDigits_ne_nil
  | negSucc k => exact List.cons_ne_nil _ _

theorem intLength_eq {str : Text} (h : str.length < 2 ^ 31) : intLength str = str.length :=
  Int.bmod_eq_of_le_mul_two (by omega) (by omega)

/-- A field that is printed has its value, one that is blank its default. -/
theorem parseField_printField (model : DataModel) (n : Option CInt) (default : ℤ) :
    parseField (strToInt model) (some (printField n)) default = .ok (fieldValue n default) := by
  cases n with
  | none =>
      have hblank : ¬0 < intLength [] := by
        rw [intLength_eq (by decide)]
        decide
      rw [parseField, printField.eq_def]
      exact if_neg hblank
  | some n =>
      have hle := length_intText_le n
      have hpos := List.length_pos_of_ne_nil (intText_ne_nil n.val)
      rw [parseField, printField, strToInt_intText, intLength_eq (by omega), if_pos (by omega)]
      exact if_neg (Int.lt_irrefl 0)

theorem not_mem_printField (hsign : c ≠ '-') (hdigit : c.isDigit = false) (n : Option CInt) :
    c ∉ printField n := by
  cases n with
  | none => exact List.not_mem_nil
  | some n => exact not_mem_intText hsign hdigit n.val

theorem cutAt_append {t : Text} (h : c ∉ t) (u : Text) : cutAt c (t ++ c :: u) = (t, some u) := by
  have hne : ∀ d ∈ t, decide (d ≠ c) = true := fun d hd =>
    decide_eq_true fun heq => h (heq ▸ hd)
  rw [cutAt, List.takeWhile_append_of_pos hne, List.dropWhile_append_of_pos hne,
    List.takeWhile_cons_of_neg (by simp), List.dropWhile_cons_of_neg (by simp), List.append_nil,
    if_pos (by simp)]
  rfl

theorem cutAt_of_not_mem {t : Text} (h : c ∉ t) : cutAt c t = (t, none) := by
  have hne : ∀ d ∈ t, decide (d ≠ c) = true := fun d hd =>
    decide_eq_true fun heq => h (heq ▸ hd)
  rw [cutAt, List.takeWhile_eq_self_iff.mpr hne, if_neg h]

/-- The fields of a token that is printed. -/
theorem tokenFields_print (token : RangeToken) :
    tokenFields token.print =
      match token with
      | .single n => (printField (some n), none, none)
      | .pair n m => (printField n, some (printField m), none)
      | .triple n m k => (printField n, some (printField m), some (printField k)) := by
  have hcolon (n : Option CInt) : ':' ∉ printField n :=
    not_mem_printField (by decide) (by decide) n
  unfold tokenFields
  cases token with
  | single n =>
      have hcut : cutAt ':' (intText n.val) = (intText n.val, none) :=
        cutAt_of_not_mem (hcolon (some n))
      rw [RangeToken.print, hcut]
      rfl
  | pair n m =>
      rw [RangeToken.print, cutAt_append (hcolon n)]
      dsimp only
      rw [cutAt_of_not_mem (hcolon m)]
  | triple n m k =>
      rw [RangeToken.print, cutAt_append (hcolon n)]
      dsimp only
      rw [cutAt_append (hcolon m)]

theorem bind_of_eq_ok {ε α β : Type*} {x : Except ε α} {a : α} (h : x = .ok a)
    (f : α → Except ε β) : x.bind f = f a := by
  rw [h]
  rfl

/-- The range of a token whose fields are parsed. -/
theorem parseToken_eq {parseFunc : ParseFunc} {tok n1str : Text} {n2str multstr : Option Text}
    {min max mult : ℤ} (hfields : tokenFields tok = (n1str, n2str, multstr))
    (hmin : parseField parseFunc (some n1str) default.min = .ok min)
    (hmax : parseMax parseFunc n2str default.max min = .ok max)
    (hmult : parseField parseFunc multstr default.mult = .ok mult) :
    parseToken parseFunc default tok = .ok ⟨min, max, mult⟩ := by
  rw [parseToken, hfields]
  refine (bind_of_eq_ok hmin _).trans ((bind_of_eq_ok hmax _).trans ?_)
  rw [hmult]
  rfl

theorem parseField_none (parseFunc : ParseFunc) (default : ℤ) :
    parseField parseFunc none default = .ok default := rfl

/-- A token that is printed is parsed. -/
theorem parseToken_print (model : DataModel) (default : Range) (token : RangeToken) :
    parseToken (strToInt model) default token.print = .ok (token.range default) := by
  have hfield (n : Option CInt) (value : ℤ) := parseField_printField model n value
  cases token with
  | single n =>
      exact parseToken_eq (tokenFields_print (.single n)) (hfield (some n) default.min) rfl
        (parseField_none _ _)
  | pair n m =>
      exact parseToken_eq (tokenFields_print (.pair n m)) (hfield n default.min)
        (hfield m default.max) (parseField_none _ _)
  | triple n m k =>
      exact parseToken_eq (tokenFields_print (.triple n m k)) (hfield n default.min)
        (hfield m default.max) (hfield k default.mult)

theorem print_ne_nil (token : RangeToken) : token.print ≠ [] := by
  cases token with
  | single n => exact intText_ne_nil n.val
  | pair | triple => simp [RangeToken.print]

theorem comma_not_mem_print (token : RangeToken) : ',' ∉ token.print := by
  have hfield (n : Option CInt) : ',' ∉ printField n :=
    not_mem_printField (by decide) (by decide) n
  cases token with
  | single n => exact hfield (some n)
  | pair | triple => simp [RangeToken.print, hfield]

/-- The loop stores the range of every token. -/
theorem foldlM_print {room : ℕ} (tokens : List RangeToken) (ranges : List Range)
    (hroom : ranges.length + tokens.length ≤ room) :
    (tokens.map RangeToken.print).foldlM
        (fun r tok => storeRange (strToInt model) default room tok r) ranges =
      .ok (ranges ++ tokens.map (RangeToken.range default)) := by
  induction tokens generalizing ranges with
  | nil => simp [pure, Except.pure]
  | cons token tokens ih =>
      rw [List.length_cons] at hroom
      rw [List.map_cons, List.foldlM_cons, storeRange, if_pos (by omega), parseToken_print]
      refine (ih (ranges ++ [token.range default]) ?_).trans ?_
      · rw [List.length_append, List.length_singleton]
        omega
      · rw [List.map_cons, List.append_assoc]
        rfl

/-- There is a comma between two tokens. -/
theorem count_intercalate {pieces : List Text} (h : ∀ p ∈ pieces, c ∉ p) (hne : pieces ≠ []) :
    ([c].intercalate pieces).count c + 1 = pieces.length := by
  induction pieces with
  | nil => exact absurd rfl hne
  | cons p pieces ih =>
      have hp : p.count c = 0 := List.count_eq_zero.mpr (h p List.mem_cons_self)
      cases pieces with
      | nil => simpa [List.intercalate] using hp
      | cons q pieces =>
          have hrest := ih (fun r hr => h r (List.mem_cons_of_mem p hr)) (by simp)
          rw [List.intercalate_cons_cons, List.count_append, List.count_append, hp,
            List.count_singleton_self, List.length_cons]
          omega

end Printed

/-- The list of ranges as it is written. -/
def printRanges (tokens : List RangeToken) : Text := [','].intercalate (tokens.map RangeToken.print)

section List

variable {tokens : List RangeToken}

theorem count_printRanges (hne : tokens ≠ []) :
    (printRanges tokens).count ',' + 1 = tokens.length := by
  have hpieces : ∀ p ∈ tokens.map RangeToken.print, ',' ∉ p := by
    simpa using fun t _ => comma_not_mem_print t
  rw [printRanges, count_intercalate hpieces (by simpa using hne), List.length_map]

theorem runs_printRanges (tokens : List RangeToken) :
    runs (· == ',') (printRanges tokens) = tokens.map RangeToken.print := by
  refine runs_intercalate (by decide) ?_ ?_
  · simpa using fun t _ => print_ne_nil t
  · rintro p hp d hd
    obtain ⟨t, -, rfl⟩ := List.mem_map.mp hp
    exact beq_false_of_ne fun heq => comma_not_mem_print t (heq ▸ hd)

/-- The list is parsed if the array has room for it. -/
theorem parseRanges_print (model : DataModel) (default : Range)
    (hcount : (printRanges tokens).count ',' + 1 < 2 ^ 31)
    (hroom : tokens.length ≤
      ((printRanges tokens).count ',' + 1) * 12 % 2 ^ model.longBits / 12) :
    parseRanges model none default (printRanges tokens) =
      .ok (tokens.length, tokens.map (RangeToken.range default)) := by
  unfold parseRanges
  dsimp only
  rw [if_neg (by omega), strtokLoop_eq, runs_printRanges, Option.getD_none,
    foldlM_print tokens [] (by simpa using hroom)]
  simp [Except.map]

theorem parseRanges_undefined (model : DataModel) (parseFunc : Option ParseFunc)
    (default : Range) {str : Text} (h : 2 ^ 31 ≤ str.count ',' + 1) :
    parseRanges model parseFunc default str = .error (.undefined, 0) :=
  if_pos h

/-- A size that wraps around to less than one range leaves no room. -/
theorem parseRanges_no_room (model : DataModel) (default : Range) {token : RangeToken}
    (hcount : (printRanges (token :: tokens)).count ',' + 1 < 2 ^ 31)
    (hroom : ((printRanges (token :: tokens)).count ',' + 1) * 12 % 2 ^ model.longBits / 12 = 0) :
    parseRanges model none default (printRanges (token :: tokens)) =
      .error (.undefined, 1) := by
  unfold parseRanges
  dsimp only
  rw [if_neg (by omega), strtokLoop_eq, runs_printRanges, hroom]
  rfl

end List

/-- For every list of fewer than `2 ^ 31` ranges whose array has a size: all of them are returned,
with the defaults where the list has blanks; and for every text, whatever parses its numbers,
something is stored in at most one range more than the text has commas. -/
theorem parseRanges_right (model : DataModel) (default : Range) (tokens : List RangeToken)
    (hcount : tokens.length < 2 ^ 31) (hsize : 12 * tokens.length < 2 ^ model.longBits) :
    parseRanges model none default (printRanges tokens) =
        .ok (tokens.length, tokens.map (RangeToken.range default)) ∧
      ∀ parseFunc str,
        storedRanges (parseRanges model parseFunc default str) ≤ str.count ',' + 1 := by
  refine ⟨?_, fun parseFunc str => storedRanges_le model parseFunc default str⟩
  have hcommas : (printRanges tokens).count ',' + 1 = max 1 tokens.length := by
    cases tokens with
    | nil => rfl
    | cons token tokens =>
        rw [count_printRanges (List.cons_ne_nil token tokens), List.length_cons]
        omega
  have hlong : 2 ^ 32 ≤ 2 ^ model.longBits := by cases model <;> decide
  refine parseRanges_print model default (by omega) ?_
  rw [hcommas, Nat.mod_eq_of_lt (by omega)]
  omega

/-- One range of each form, with blanks. -/
def threeRanges : List RangeToken :=
  [.single ⟨7, by decide⟩, .pair none (some ⟨9, by decide⟩),
    .triple (some ⟨-3, by decide⟩) none (some ⟨2, by decide⟩)]

theorem parseRanges_right_three :
    parseRanges .ilp32 none ⟨1, 100, 5⟩ (txt "7,:9,-3::2") =
      .ok (3, [⟨7, 7, 5⟩, ⟨1, 9, 5⟩, ⟨-3, 100, 2⟩]) := by
  have hprint : printRanges threeRanges = txt "7,:9,-3::2" := by decide
  rw [← hprint]
  exact (parseRanges_right .ilp32 ⟨1, 100, 5⟩ threeRanges (by decide) (by decide)).1

theorem count_zeros (n : ℕ) :
    (printRanges (List.replicate (n + 1) (.single ⟨0, by decide⟩))).count ',' + 1 = n + 1 := by
  rw [count_printRanges (by simp [List.replicate_succ]), List.length_replicate]

theorem parseRanges_zeros_no_room (model : DataModel) {n : ℕ} (hcount : n + 1 < 2 ^ 31)
    (hroom : (n + 1) * 12 % 2 ^ model.longBits / 12 = 0) :
    parseRanges model none ⟨0, 0, 1⟩
        (printRanges (List.replicate (n + 1) (.single ⟨0, by decide⟩))) =
      .error (.undefined, 1) := by
  have hzeros := count_zeros n
  rw [List.replicate_succ] at hzeros ⊢
  refine parseRanges_no_room model ⟨0, 0, 1⟩ ?_ ?_
  · rwa [hzeros]
  · rwa [hzeros]

/-- The commas of `2 ^ 31` ranges are not counted by an `int`; and where a `size_t` has 32 bits,
the size of the array wraps around for 357913942 ranges. -/
theorem parseRanges_overflow :
    parseRanges .lp64 none ⟨0, 0, 1⟩
        (printRanges (List.replicate (2 ^ 31) (.single ⟨0, by decide⟩))) =
          .error (.undefined, 0) ∧
      parseRanges .ilp32 none ⟨0, 0, 1⟩
        (printRanges (List.replicate 357913942 (.single ⟨0, by decide⟩))) =
          .error (.undefined, 1) := by
  constructor
  · exact parseRanges_undefined _ _ _ (count_zeros (2 ^ 31 - 1)).ge
  · exact parseRanges_zeros_no_room .ilp32 (n := 357913941) (by decide) (by decide)

end EDDTs.LtpLib
