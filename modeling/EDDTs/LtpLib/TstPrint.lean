import EDDTs.Boards.Resm
import Mathlib.Data.Int.Notation

/-!
# The result lines of `tst_res.c`

## Implementation notes

The mode is verbose and the output is not coloured, as it is for a file. The texts that
`TERRNO`, `TTERRNO` and `TRERRNO` add stand behind the message and are taken as part of it.
-/

namespace EDDTs.LtpLib

open Library Boards

/-- `strttype` -/
def strttype : TType → Text
  | .pass => txt "TPASS"
  | .fail => txt "TFAIL"
  | .brok => txt "TBROK"
  | .conf => txt "TCONF"
  | .warn => txt "TWARN"
  | .info => txt "TINFO"

/-- `USERMESG` -/
def userMesg : Nat := 2048

/-- The arguments of `tst_print`. -/
structure TstResult where
  tcid : Text
  tnum : ℤ
  ttype : TType
  tmesg : Text
  deriving DecidableEq, Repr

/-- The part of the line up to the colon. -/
def TstResult.head (r : TstResult) : Text :=
  padRight 8 r.tcid ++ txt " " ++ padLeft 4 (intText r.tnum) ++ txt "  " ++ strttype r.ttype ++
    txt "  :"

/-- The line of a result. -/
def TstResult.line (r : TstResult) : Text := r.head ++ txt "  " ++ r.tmesg

/-- `tst_print`; it aborts for a line that does not fit its buffer. -/
def tstPrint (r : TstResult) : Option Text :=
  if r.line.length + 1 < userMesg then some (r.line ++ txt "\n") else none

/-- The line of a result fits the buffer. -/
def TstResult.Printed (r : TstResult) : Prop := r.line.length + 1 < userMesg

instance (r : TstResult) : Decidable r.Printed := inferInstanceAs (Decidable (_ < _))

theorem tstPrint_eq {r : TstResult} (h : r.Printed) : tstPrint r = some (r.line ++ txt "\n") :=
  if_pos h

theorem TstResult.head_prefix (r : TstResult) : r.head <+: r.line := by
  rw [TstResult.line, List.append_assoc]
  exact List.prefix_append _ _

theorem TstResult.head_no_newline {r : TstResult} (h : '\n' ∉ r.tcid) : '\n' ∉ r.head := by
  have htype : '\n' ∉ strttype r.ttype := by cases r.ttype <;> decide
  have hnum : '\n' ∉ intText r.tnum := not_mem_intText (by decide) (by decide) r.tnum
  simp [TstResult.head, padRight, padLeft, txt, h, htype, hnum]

end EDDTs.LtpLib
