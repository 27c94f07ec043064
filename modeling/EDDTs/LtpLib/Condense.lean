import EDDTs.Library.Checked
import EDDTs.LtpLib.TstPrint
import Mathlib.Data.List.Destutter

/-!
# Condensed results

The results of a test in the mode NOPASS (`lib/tst_res.c`): `tst_condense` keeps one result back
and drops those that repeat it; `tst_exit` prints the last one. The mode is that of the
environment from the first result on, TCID does not change, and the output is not coloured.
-/

namespace EDDTs.LtpLib

open Library Boards

/-- A call of `tst_resm`; `errnoText` is what the flags `TERRNO`, `TTERRNO` and `TRERRNO` would
add to its line. -/
structure Resm where
  file : Text
  lineno : ℤ
  ttype : TType
  mesg : Text
  errnoText : Text := []

/-- Whether the result goes past the buffer, without a number. -/
def Resm.direct (r : Resm) : Bool := r.ttype = .warn || r.ttype = .info

/-- The place of the call, in front of the message of most types. -/
def Resm.location (r : Resm) : Text :=
  if r.ttype ≠ .pass ∧ r.ttype ≠ .info then r.file ++ txt ":" ++ intText r.lineno ++ txt ": "
  else []

/-- The text of the result. -/
def Resm.tmesg (r : Resm) : Text := r.location ++ r.mesg

/-- The bit of a type in the exit value. -/
def exitBit : TType → BitVec 32
  | .pass => 0
  | .fail => 1
  | .brok => 2
  | .warn => 4
  | .info => 16
  | .conf => 32

/-- A line that was printed, with its type. -/
structure PrintedLine where
  ttype : TType
  text : Text
  deriving DecidableEq

/-- The variables of `tst_res.c`, and what was printed. -/
structure ResState where
  exitval : BitVec 32 := 0
  passedCnt : ℤ := 0
  last : Option TstResult := none
  tstCount : ℤ := 0
  printed : List PrintedLine := []

/-- The line of a result in this mode. -/
def nopassLine (r : TstResult) : Text :=
  padRight 8 r.tcid ++ txt " " ++ padLeft 4 (intText r.tnum) ++ txt "       " ++ strttype r.ttype ++
    txt "  :  " ++ r.tmesg

/-- `tst_print`; none if it aborts because the line is too long. -/
def printNopass (r : TstResult) (errnoText : Text) (s : ResState) : Option ResState :=
  let s := { s with exitval := s.exitval ||| exitBit r.ttype }
  if r.ttype ≠ .fail ∧ r.ttype ≠ .brok ∧ r.ttype ≠ .warn then some s
  else
    let line := nopassLine r ++ errnoText
    if line.length + 1 < userMesg then
      some { s with printed := s.printed ++ [⟨r.ttype, line⟩] }
    else none

/-- `tst_condense`; what it keeps has no flags. -/
def tstCondense (r : TstResult) (s : ResState) : Option ResState :=
  match s.last with
  | none => some { s with last := some r }
  | some last =>
      if last.tcid = r.tcid ∧ last.ttype = r.ttype ∧ last.tmesg = r.tmesg then some s
      else do
        let s ← printNopass last [] s
        some { s with last := some r }

/-- What `EXPAND_VAR_ARGS` puts into a buffer of this size; none if the assertion on its length
fails. -/
def expandVarArgs (size : ℕ) (mesg : Text) : Option Text :=
  let text := mesg.take (size - 1)
  if text = [] then none else some text

/-- `passed_cnt` after a result. -/
def countPassed (r : Resm) (passedCnt : ℤ) : Option ℤ :=
  if r.ttype = .pass then checked 32 (passedCnt + 1) else some passedCnt

/-- `tst_res__`, called by `tst_resm_`; none if it aborts, or a counter overflows. -/
def tstRes (tcid : Text) (r : Resm) (s : ResState) : Option ResState := do
  let mesg ← expandVarArgs userMesg r.mesg
  let mesg ← expandVarArgs (userMesg - r.location.length) mesg
  let tmesg := r.location ++ mesg
  let s := { s with exitval := s.exitval ||| exitBit r.ttype }
  let passedCnt ← countPassed r s.passedCnt
  let s := { s with passedCnt }
  if r.direct then printNopass ⟨tcid, 0, r.ttype, tmesg⟩ r.errnoText s
  else
    let tnum ← checked 32 (s.tstCount + 1)
    let s ← tstCondense ⟨tcid, tnum, r.ttype, tmesg⟩ s
    some { s with tstCount := tnum }

/-- `tst_old_flush` -/
def tstOldFlush (s : ResState) : Option ResState :=
  match s.last with
  | none => some s
  | some last => do
      let s ← printNopass last [] s
      some { s with last := none }

/-- `tst_exit`: the exit value, and what was printed in all. -/
def tstExit (s : ResState) : Option (BitVec 32 × List PrintedLine) := do
  let s ← tstOldFlush s
  let exitval := s.exitval &&& ~~~ exitBit .info
  let exitval :=
    if exitval = exitBit .conf ∧ s.passedCnt ≠ 0 then exitval &&& ~~~ exitBit .conf else exitval
  some (exitval, s.printed)

/-- The results of a test, one after the other. -/
def resmAll (tcid : Text) : List Resm → ResState → Option ResState
  | [], s => some s
  | r :: rs, s => do resmAll tcid rs (← tstRes tcid r s)

/-- A test that reports these results and exits. -/
def resmRun (tcid : Text) (rs : List Resm) : Option (BitVec 32 × List PrintedLine) := do
  tstExit (← resmAll tcid rs {})

/-! ### What should come out -/

/-- The results that have a number, from `count` on. -/
def numbered (tcid : Text) : ℤ → List Resm → List TstResult
  | _, [] => []
  | count, r :: rs =>
      if r.direct then numbered tcid count rs
      else ⟨tcid, count + 1, r.ttype, r.tmesg⟩ :: numbered tcid (count + 1) rs

/-- They differ in type or text. -/
def Differ (a b : TstResult) : Prop := ¬ (a.ttype = b.ttype ∧ a.tmesg = b.tmesg)

instance : DecidableRel Differ := fun _ _ => inferInstanceAs (Decidable (¬ _))

/-- A failure or a broken test. -/
def isFailure (t : TType) : Bool := t = .fail || t = .brok

/-- The types that are printed in this mode. -/
def isPrinted (t : TType) : Bool := isFailure t || t = .warn

/-- The lines of these results that report a failure or a broken test. -/
def failureLines (rs : List TstResult) : List PrintedLine :=
  (rs.filter (isFailure ·.ttype)).map fun r => ⟨r.ttype, nopassLine r⟩

/-- The bits of all types. -/
def orTypes (types : List TType) : BitVec 32 := types.foldr (exitBit · ||| ·) 0

/-- The OR of all types without TINFO, and without TCONF where it is the only one and
something passed. -/
def expectedExit (rs : List Resm) : BitVec 32 :=
  let all := orTypes ((rs.map (·.ttype)).filter (· ≠ .info))
  if all = exitBit .conf ∧ ∃ r ∈ rs, r.ttype = .pass then 0 else all

/-- The messages are not empty, and all that is printed fits its buffer. -/
structure Fitting (tcid : Text) (count : ℤ) (rs : List Resm) : Prop where
  nonempty : ∀ r ∈ rs, r.mesg ≠ []
  text : ∀ r ∈ rs, r.tmesg.length < userMesg
  line : ∀ r ∈ numbered tcid count rs, isPrinted r.ttype →
    (nopassLine r).length + 1 < userMesg
  warning : ∀ r ∈ rs, r.ttype = .warn →
    (nopassLine ⟨tcid, 0, r.ttype, r.tmesg⟩ ++ r.errnoText).length + 1 < userMesg

/-! ### One result -/

/-- The failures among the lines. -/
def failures (lines : List PrintedLine) : List PrintedLine := lines.filter (isFailure ·.ttype)

/-- What is left of these results when one is kept back. -/
def pending : Option TstResult → List TstResult → List TstResult
  | none, rs => rs.destutter Differ
  | some last, rs => rs.destutter' Differ last

/-- The failures that will have been printed once these results are reported and flushed. -/
def outcome (s : ResState) (rs : List TstResult) : List PrintedLine :=
  failures s.printed ++ failureLines (pending s.last rs)

/-- The result that is kept back can be printed, and its type is in the exit value. -/
def Held (tcid : Text) (s : ResState) : Prop :=
  ∀ last ∈ s.last, last.tcid = tcid ∧
    (isPrinted last.ttype → (nopassLine last).length + 1 < userMesg) ∧
    s.exitval ||| exitBit last.ttype = s.exitval

section Print

variable {tcid : Text} {s : ResState} {r : TstResult}

/-- More bits in the exit value do no harm. -/
theorem Held.of_or {s' : ResState} {bits : BitVec 32} (h : Held tcid s) (hlast : s'.last = s.last)
    (hexit : s'.exitval = s.exitval ||| bits) : Held tcid s' := by
  intro last hmem
  obtain ⟨htcid, hfits, hbit⟩ := h last (hlast ▸ hmem)
  refine ⟨htcid, hfits, ?_⟩
  rw [hexit, BitVec.or_assoc, BitVec.or_comm bits, ← BitVec.or_assoc, hbit]

/-- A type that is reported is in the exit value. -/
theorem or_bits_idem (exitval bits : BitVec 32) : exitval ||| bits ||| bits = exitval ||| bits := by
  rw [BitVec.or_assoc, BitVec.or_self]

theorem printNopass_info (h : r.ttype = .info) (errnoText : Text) (s : ResState) :
    printNopass r errnoText s = some { s with exitval := s.exitval ||| exitBit r.ttype } := by
  simp [printNopass, h]

theorem printNopass_warn {errnoText : Text} (h : r.ttype = .warn)
    (hfits : (nopassLine r ++ errnoText).length + 1 < userMesg) (s : ResState) :
    printNopass r errnoText s =
      some { s with
        exitval := s.exitval ||| exitBit r.ttype
        printed := s.printed ++ [⟨r.ttype, nopassLine r ++ errnoText⟩] } := by
  rw [printNopass, if_neg (by simp [h]), if_pos hfits]

/-- Printing a numbered result adds its line if it is a failure. -/
theorem printNopass_failures (hfits : isPrinted r.ttype → (nopassLine r).length + 1 < userMesg)
    (s : ResState) :
    ∃ s', printNopass r [] s = some s' ∧ s'.exitval = s.exitval ||| exitBit r.ttype ∧
      s'.passedCnt = s.passedCnt ∧
      failures s'.printed = failures s.printed ++ failureLines [r] := by
  have hline : nopassLine r ++ [] = nopassLine r := List.append_nil _
  unfold printNopass
  dsimp only
  split_ifs with hquiet hlong
  · refine ⟨_, rfl, rfl, rfl, ?_⟩
    simp [failureLines, isFailure, hquiet.1, hquiet.2.1]
  · refine ⟨_, rfl, rfl, rfl, ?_⟩
    rw [failures, List.filter_append, hline]
    refine congrArg _ ?_
    cases hfail : isFailure r.ttype <;> simp [failureLines, hfail]
  · rw [hline] at hlong
    refine absurd (hfits ?_) hlong
    by_contra hnot
    exact hquiet (by simpa [isPrinted, isFailure, and_assoc] using hnot)

/-- A message that fits is taken as it is. -/
theorem expandVarArgs_eq {size : ℕ} {mesg : Text} (hne : mesg ≠ []) (h : mesg.length < size) :
    expandVarArgs size mesg = some mesg := by
  have htake : mesg.take (size - 1) = mesg := List.take_of_length_le (by omega)
  rw [expandVarArgs, htake, if_neg hne]

/-- `tst_condense` prints nothing that would not be printed, and drops nothing but a repetition. -/
theorem tstCondense_spec (hheld : Held tcid s) (htcid : r.tcid = tcid)
    (hfits : isPrinted r.ttype → (nopassLine r).length + 1 < userMesg)
    (hbit : s.exitval ||| exitBit r.ttype = s.exitval) :
    ∃ s', tstCondense r s = some s' ∧ Held tcid s' ∧ s'.exitval = s.exitval ∧
      s'.passedCnt = s.passedCnt ∧ ∀ rs, outcome s' rs = outcome s (r :: rs) := by
  unfold tstCondense
  cases hlast : s.last with
  | none =>
      refine ⟨_, rfl, ?_, rfl, rfl, fun rs => ?_⟩
      · rintro last ⟨⟩
        exact ⟨htcid, hfits, hbit⟩
      · simp [outcome, pending, hlast, List.destutter]
  | some last =>
      obtain ⟨hltcid, hlfits, hlbit⟩ := hheld last hlast
      dsimp only
      by_cases hsame : last.ttype = r.ttype ∧ last.tmesg = r.tmesg
      · rw [if_pos ⟨hltcid.trans htcid.symm, hsame⟩]
        refine ⟨s, rfl, hheld, rfl, rfl, fun rs => ?_⟩
        rw [outcome, outcome, hlast, pending, pending,
          List.destutter'_cons_neg _ (not_not_intro hsame)]
      · obtain ⟨s', hprint, hexit, hpassed, hlines⟩ := printNopass_failures hlfits s
        rw [if_neg fun h => hsame h.2, hprint]
        refine ⟨_, rfl, ?_, hexit.trans hlbit, hpassed, fun rs => ?_⟩
        · rintro kept ⟨⟩
          refine ⟨htcid, hfits, ?_⟩
          rw [hexit, hlbit, hbit]
        · rw [outcome, outcome, hlast, pending, pending, List.destutter'_cons_pos _ hsame, hlines,
            List.append_assoc]
          refine congrArg _ ?_
          rw [failureLines, failureLines, failureLines, ← List.map_append, ← List.filter_append]
          rfl

end Print

/-! ### All results -/

/-- The results that passed. -/
def passes (rs : List Resm) : ℕ := rs.countP (·.ttype = .pass)

section Run

variable {tcid : Text} {s : ResState} {r : Resm} {rs : List Resm}

/-- The place and a message that fits are the text of the result. -/
theorem tstRes_eq (h : Fitting tcid s.tstCount (r :: rs)) :
    tstRes tcid r s = (countPassed r s.passedCnt).bind fun passedCnt =>
      let s := { s with exitval := s.exitval ||| exitBit r.ttype, passedCnt }
      if r.direct then printNopass ⟨tcid, 0, r.ttype, r.tmesg⟩ r.errnoText s
      else (checked 32 (s.tstCount + 1)).bind fun tnum =>
        (tstCondense ⟨tcid, tnum, r.ttype, r.tmesg⟩ s).bind fun s =>
          some { s with tstCount := tnum } := by
  have hne : r.mesg ≠ [] := h.nonempty r List.mem_cons_self
  have htext : r.tmesg.length < userMesg := h.text r List.mem_cons_self
  have hlength : r.tmesg.length = r.location.length + r.mesg.length := List.length_append
  have houter : expandVarArgs userMesg r.mesg = some r.mesg := expandVarArgs_eq hne (by omega)
  have hinner : expandVarArgs (userMesg - r.location.length) r.mesg = some r.mesg :=
    expandVarArgs_eq hne (by omega)
  simp only [tstRes, houter, hinner, Option.bind_eq_bind, Option.bind_some]
  rfl

/-- A result without a number leaves the failures and what is kept back as they are. -/
theorem tstRes_direct (hdirect : r.direct = true) (hfitting : Fitting tcid s.tstCount (r :: rs)) :
    ∃ s', tstRes tcid r s = some s' ∧ s'.exitval = s.exitval ||| exitBit r.ttype ∧
      s'.passedCnt = s.passedCnt ∧ s'.tstCount = s.tstCount ∧ s'.last = s.last ∧
      failures s'.printed = failures s.printed := by
  have htype : r.ttype = .warn ∨ r.ttype = .info := by simpa [Resm.direct] using hdirect
  have hpass : r.ttype ≠ .pass := by rcases htype with h | h <;> simp [h]
  simp only [tstRes_eq hfitting, countPassed, if_neg hpass, hdirect, if_true, Option.bind_some]
  rcases htype with hwarn | hinfo
  · rw [printNopass_warn hwarn (hfitting.warning r List.mem_cons_self hwarn)]
    refine ⟨_, rfl, or_bits_idem _ _, rfl, rfl, rfl, ?_⟩
    simp [failures, List.filter_append, hwarn, isFailure]
  · rw [printNopass_info hinfo]
    exact ⟨_, rfl, or_bits_idem _ _, rfl, rfl, rfl, rfl⟩

/-- A result with a number is the next that is kept back, unless it repeats the one there is. -/
theorem tstRes_numbered (hdirect : r.direct = false)
    (hfitting : Fitting tcid s.tstCount (r :: rs)) (hheld : Held tcid s)
    (hcount : 0 ≤ s.tstCount ∧ s.tstCount + 1 < 2 ^ 31)
    (hpassed : 0 ≤ s.passedCnt ∧ s.passedCnt ≤ s.tstCount) :
    ∃ s', tstRes tcid r s = some s' ∧ Held tcid s' ∧ s'.exitval = s.exitval ||| exitBit r.ttype ∧
      s'.passedCnt = s.passedCnt + passes [r] ∧ s'.tstCount = s.tstCount + 1 ∧
      ∀ l, outcome s' l = outcome s (⟨tcid, s.tstCount + 1, r.ttype, r.tmesg⟩ :: l) := by
  have hpassedCnt : countPassed r s.passedCnt = some (s.passedCnt + passes [r]) := by
    by_cases hpass : r.ttype = .pass
    · rw [countPassed, if_pos hpass, checked_of_fits ⟨by omega, by omega⟩]
      simp [passes, hpass]
    · simp [countPassed, passes, hpass]
  have htnum : checked 32 (s.tstCount + 1) = some (s.tstCount + 1) :=
    checked_of_fits ⟨by omega, hcount.2⟩
  -- the state in which `tst_condense` is called
  let called : ResState :=
    { s with exitval := s.exitval ||| exitBit r.ttype, passedCnt := s.passedCnt + passes [r] }
  have hcalled : Held tcid called := hheld.of_or rfl rfl
  have hline := hfitting.line ⟨tcid, s.tstCount + 1, r.ttype, r.tmesg⟩ (by simp [numbered, hdirect])
  have hbit : called.exitval ||| exitBit r.ttype = called.exitval := or_bits_idem _ _
  obtain ⟨s', hcondense, hheld', hexit, hpassed', houtcome⟩ :=
    tstCondense_spec hcalled rfl hline hbit
  refine ⟨{ s' with tstCount := s.tstCount + 1 }, ?_, hheld', hexit, hpassed', rfl, houtcome⟩
  simp only [tstRes_eq hfitting, hpassedCnt, hdirect, Bool.false_eq_true, if_false, htnum,
    Option.bind_some]
  exact congrArg (Option.bind · _) hcondense

/-- The results still to come can be reported from here. -/
structure Ready (tcid : Text) (rs : List Resm) (s : ResState) : Prop where
  held : Held tcid s
  fitting : Fitting tcid s.tstCount rs
  count : 0 ≤ s.tstCount
  length : s.tstCount + (numbered tcid s.tstCount rs).length < 2 ^ 31
  passed : 0 ≤ s.passedCnt ∧ s.passedCnt ≤ s.tstCount

theorem Fitting.tail {count count' : ℤ} (h : Fitting tcid count (r :: rs))
    (hnumbered : numbered tcid count' rs ⊆ numbered tcid count (r :: rs)) :
    Fitting tcid count' rs where
  nonempty x hx := h.nonempty x (List.mem_cons_of_mem _ hx)
  text x hx := h.text x (List.mem_cons_of_mem _ hx)
  line x hx := h.line x (hnumbered hx)
  warning x hx := h.warning x (List.mem_cons_of_mem _ hx)

/-- One result: the failures to come do not change. -/
theorem tstRes_step (h : Ready tcid (r :: rs) s) :
    ∃ s', tstRes tcid r s = some s' ∧ Ready tcid rs s' ∧
      s'.exitval = s.exitval ||| exitBit r.ttype ∧ s'.passedCnt = s.passedCnt + passes [r] ∧
      outcome s' (numbered tcid s'.tstCount rs) =
        outcome s (numbered tcid s.tstCount (r :: rs)) := by
  obtain ⟨hheld, hfitting, hcount, hlength, hpassed⟩ := h
  cases hdirect : r.direct with
  | true =>
      have hnumbered (count : ℤ) : numbered tcid count (r :: rs) = numbered tcid count rs := by
        rw [numbered, if_pos hdirect]
      have hpass : passes [r] = 0 := by
        have hne : r.ttype ≠ .pass := fun h => by simp [Resm.direct, h] at hdirect
        simp [passes, hne]
      obtain ⟨s', hres, hexit, hpassed', hcount', hlast, hprinted⟩ := tstRes_direct hdirect hfitting
      rw [hnumbered] at hlength ⊢
      refine ⟨s', hres, ⟨hheld.of_or hlast hexit, ?_, ?_, ?_, ?_⟩, hexit, ?_, ?_⟩
      · exact hcount' ▸ hfitting.tail (hnumbered _ ▸ List.Subset.refl _)
      · exact hcount' ▸ hcount
      · exact hcount' ▸ hlength
      · omega
      · omega
      · rw [hcount', outcome, outcome, hprinted, hlast]
  | false =>
      have hnumbered : numbered tcid s.tstCount (r :: rs) =
          ⟨tcid, s.tstCount + 1, r.ttype, r.tmesg⟩ :: numbered tcid (s.tstCount + 1) rs := by
        rw [numbered, if_neg (by simp [hdirect])]
      have hone : passes [r] ≤ 1 := List.countP_le_length
      rw [hnumbered, List.length_cons] at hlength
      push_cast at hlength
      obtain ⟨s', hres, hheld', hexit, hpassed', hcount', hstep⟩ :=
        tstRes_numbered hdirect hfitting hheld ⟨hcount, by omega⟩ hpassed
      refine ⟨s', hres, ⟨hheld', ?_, ?_, ?_, ?_⟩, hexit, hpassed', ?_⟩
      · exact hcount' ▸ hfitting.tail (hnumbered ▸ List.subset_cons_self _ _)
      · omega
      · rw [hcount']
        omega
      · omega
      · rw [hstep, hcount', hnumbered]

/-- All results. -/
theorem resmAll_spec (h : Ready tcid rs s) :
    ∃ s', resmAll tcid rs s = some s' ∧ Held tcid s' ∧
      s'.exitval = s.exitval ||| orTypes (rs.map (·.ttype)) ∧
      s'.passedCnt = s.passedCnt + passes rs ∧
      outcome s' [] = outcome s (numbered tcid s.tstCount rs) := by
  induction rs generalizing s with
  | nil => exact ⟨s, rfl, h.held, BitVec.or_zero.symm, (Int.add_zero _).symm, rfl⟩
  | cons r rs ih =>
      obtain ⟨s₁, hres, hready, hexit, hpassed, hstep⟩ := tstRes_step h
      obtain ⟨s', hall, hheld, hexit', hpassed', houtcome⟩ := ih hready
      have hpasses : passes (r :: rs) = passes [r] + passes rs := by
        simp only [passes, ← List.countP_append, List.singleton_append]
      refine ⟨s', ?_, hheld, ?_, ?_, houtcome.trans hstep⟩
      · rw [resmAll, hres]
        exact hall
      · rw [hexit', hexit, BitVec.or_assoc]
        rfl
      · omega

/-- The flush prints what is kept back, and nothing new. -/
theorem tstOldFlush_spec (hheld : Held tcid s) :
    ∃ s', tstOldFlush s = some s' ∧ s'.exitval = s.exitval ∧ s'.passedCnt = s.passedCnt ∧
      failures s'.printed = outcome s [] := by
  unfold tstOldFlush
  cases hlast : s.last with
  | none =>
      refine ⟨s, rfl, rfl, rfl, ?_⟩
      simp [outcome, hlast, pending, failureLines]
  | some last =>
      obtain ⟨-, hfits, hbit⟩ := hheld last hlast
      obtain ⟨s', hprint, hexit, hpassed, hlines⟩ := printNopass_failures hfits s
      refine ⟨{ s' with last := none }, ?_, hexit.trans hbit, hpassed, ?_⟩
      · dsimp only
        rw [hprint]
        rfl
      · rw [outcome, hlast]
        exact hlines

theorem exitBit_without_info (t : TType) :
    exitBit t &&& ~~~ exitBit .info = if t = .info then 0 else exitBit t := by
  cases t <;> decide

theorem orTypes_without_info (types : List TType) :
    orTypes types &&& ~~~ exitBit .info = orTypes (types.filter (· ≠ .info)) := by
  induction types with
  | nil => exact BitVec.zero_and
  | cons t types ih =>
      have hor : orTypes (t :: types) &&& ~~~ exitBit .info =
          (exitBit t &&& ~~~ exitBit .info) ||| (orTypes types &&& ~~~ exitBit .info) :=
        BitVec.and_or_distrib_right ..
      rw [hor, ih, exitBit_without_info]
      by_cases ht : t = .info
      · simp [ht]
      · simp [ht, orTypes]

end Run

/-- The failures that a test reports in this mode are those of its results without repetitions,
each under the number of the first, and its exit value is that of all types. -/
theorem resmRun_spec (tcid : Text) (rs : List Resm) (hfitting : Fitting tcid 0 rs)
    (hlength : (numbered tcid 0 rs).length < 2 ^ 31) :
    ∃ exitval printed, resmRun tcid rs = some (exitval, printed) ∧
      printed.filter (isFailure ·.ttype) = failureLines ((numbered tcid 0 rs).destutter Differ) ∧
      exitval = expectedExit rs := by
  have hready : Ready tcid rs {} :=
    ⟨by rintro _ ⟨⟩, hfitting, le_rfl, by simpa using by exact_mod_cast hlength, le_rfl, le_rfl⟩
  obtain ⟨s, hall, hheld, hexit, hpassed, houtcome⟩ := resmAll_spec hready
  obtain ⟨s', hflush, hexit', hpassed', hlines⟩ := tstOldFlush_spec hheld
  have hrun : resmRun tcid rs = some
      (let exitval := s'.exitval &&& ~~~ exitBit .info
      (if exitval = exitBit .conf ∧ s'.passedCnt ≠ 0 then exitval &&& ~~~ exitBit .conf
        else exitval, s'.printed)) := by
    simp only [resmRun, hall, tstExit, hflush, Option.bind_eq_bind, Option.bind_some]
  refine ⟨_, _, hrun, hlines.trans houtcome, ?_⟩
  have hzero : s.exitval = orTypes (rs.map (·.ttype)) := hexit.trans BitVec.zero_or
  have hsome : s'.passedCnt ≠ 0 ↔ ∃ r ∈ rs, r.ttype = .pass := by
    have hcast : s'.passedCnt = passes rs := by rw [hpassed', hpassed]; exact Int.zero_add _
    rw [hcast, Int.natCast_ne_zero, ← Nat.pos_iff_ne_zero, passes, List.countP_pos_iff]
    simp
  dsimp only [expectedExit]
  rw [hexit', hzero, orTypes_without_info]
  by_cases hconf : orTypes ((rs.map (·.ttype)).filter (· ≠ .info)) = exitBit .conf
  · simp only [hconf, true_and, hsome]
    rfl
  · rw [if_neg fun h => hconf h.1, if_neg fun h => hconf h.1]

/-- Two failures with one text, a warning between them, then something else. -/
def reported : List Resm :=
  let failed : Resm := ⟨txt "t.c", 7, .fail, txt "bad", txt ": errno=EIO(5): Input/output error"⟩
  [failed, ⟨txt "t.c", 8, .warn, txt "slow", []⟩, failed, ⟨txt "t.c", 9, .pass, txt "ok", []⟩]

theorem resmRun_spec_reported :
    ∃ exitval printed, resmRun (txt "t01") reported = some (exitval, printed) ∧
      printed.filter (isFailure ·.ttype) =
        [⟨.fail, txt "t01         1       TFAIL  :  t.c:7: bad"⟩] ∧
      exitval = 5 := by
  have hfitting : Fitting (txt "t01") 0 reported :=
    ⟨by decide, by decide, by decide, by decide⟩
  obtain ⟨exitval, printed, hrun, hprinted, hexit⟩ := resmRun_spec (txt "t01") reported hfitting
    (by decide)
  exact ⟨exitval, printed, hrun, hprinted.trans (by decide), hexit.trans (by decide)⟩

/-! ### What stops a test -/

/-- A number is given only while it is an `int`. -/
theorem tstRes_tstCount {tcid : Text} {r : Resm} {s s' : ResState} (h : tstRes tcid r s = some s')
    (hdirect : r.direct = false) : s'.tstCount = s.tstCount + 1 ∧ s'.tstCount < 2 ^ 31 := by
  simp only [tstRes, hdirect, Option.bind_eq_bind, Option.bind_eq_some_iff, checked_eq_some_iff,
    Bool.false_eq_true, if_false] at h
  obtain ⟨_, -, _, -, _, -, tnum, ⟨hfits, htnum⟩, _, -, hs⟩ := h
  cases hs
  exact ⟨htnum.symm, htnum ▸ hfits.2⟩

/-- There is no end of a test whose results are more than an `int` can number. -/
theorem resmAll_replicate (tcid : Text) (r : Resm) (n : ℕ) (s : ResState)
    (hdirect : r.direct = false) (hn : 0 < n) (hbound : 2 ^ 31 ≤ s.tstCount + n) :
    resmAll tcid (List.replicate n r) s = none := by
  induction n generalizing s with
  | zero => exact absurd hn (Nat.lt_irrefl 0)
  | succ n ih =>
      rw [List.replicate_succ, resmAll]
      cases hres : tstRes tcid r s with
      | none => rfl
      | some s₁ =>
          obtain ⟨hcount, hlt⟩ := tstRes_tstCount hres hdirect
          exact ih s₁ (by omega) (by omega)

/-- An empty message fits every buffer and ends the test, and so do more results than an `int`
can number. -/
theorem resmRun_stops :
    resmRun (txt "t01") [⟨txt "t.c", 7, .fail, [], []⟩] = none ∧
      resmRun (txt "t01") (List.replicate (2 ^ 31) ⟨txt "t.c", 7, .fail, txt "bad", []⟩) =
        none := by
  refine ⟨by decide, ?_⟩
  have hall := resmAll_replicate (txt "t01") ⟨txt "t.c", 7, .fail, txt "bad", []⟩ (2 ^ 31) {} rfl
    (Nat.two_pow_pos 31) (by simp)
  rw [resmRun, hall]
  rfl

end EDDTs.LtpLib
