import EDDTs.Library.Text

/-!
# Wait statuses

The macros of `sys/wait.h` on the integer that `wait` stores, and the chain of
tests on them that `run_child` and `check_pids` share.
-/

namespace EDDTs.Pan

open Library

/-- `TCONF` of `tst_res_flags.h`. -/
def TCONF : Nat := 32

@[simp] theorem tconf_ne_zero : TCONF ≠ 0 := by decide

@[simp] theorem zero_ne_tconf : 0 ≠ TCONF := by decide

/-- `WTERMSIG`. -/
def wtermsig (status : Nat) : Nat := status % 128

/-- `WEXITSTATUS`, which is also `WSTOPSIG`. -/
def wexitstatus (status : Nat) : Nat := status / 256 % 256

/-- `WIFEXITED`. -/
def wifexited (status : Nat) : Bool := wtermsig status = 0

/-- `WIFSIGNALED`: the low seven bits are neither all zero nor all one. -/
def wifsignaled (status : Nat) : Bool := 0 < wtermsig status && wtermsig status < 127

/-- `WIFSTOPPED`. -/
def wifstopped (status : Nat) : Bool := status % 256 = 127

/-- `stat_loc & 0200`, printed. -/
def coreText (status : Nat) : Text := if status / 128 % 2 = 1 then txt "yes" else txt "no"

/-- The values of `status` in `check_pids` and of `termtype` in `run_child`. -/
inductive TermType
  | signaled
  | exited
  | stopped
  | unknown
  | driverInterrupt
  deriving DecidableEq, Repr

def TermType.text : TermType → Text
  | .signaled => txt "signaled"
  | .exited => txt "exited"
  | .stopped => txt "stopped"
  | .unknown => txt "unknown"
  | .driverInterrupt => txt "driver_interrupt"

/-- The type of a termination and its number. -/
def termination (status : Nat) : TermType × Nat :=
  if wifsignaled status then (.signaled, wtermsig status)
  else if wifexited status then (.exited, wexitstatus status)
  else if wifstopped status then (.stopped, wexitstatus status)
  else (.unknown, 0)

/-- What `wait` without `WUNTRACED` reports: a child that is gone. -/
def terminated (status : Nat) : Bool := wifsignaled status || wifexited status

/-- A child that is gone was signaled, with a number other than zero, or exited. -/
theorem termination_of_terminated {status : Nat} (h : terminated status = true) :
    (termination status = (.signaled, wtermsig status) ∧ wtermsig status ≠ 0) ∨
      termination status = (.exited, wexitstatus status) := by
  unfold termination
  by_cases hs : wifsignaled status = true
  · refine Or.inl ⟨if_pos hs, ?_⟩
    simp only [wifsignaled, Bool.and_eq_true, decide_eq_true_eq] at hs
    omega
  · have he : wifexited status = true := by simpa [terminated, hs] using h
    exact Or.inr (by rw [if_neg hs, if_pos he])

end EDDTs.Pan
