import EDDTs.Library.Interleaving

/-!
# The two-thread wait of the fuzzy synchronisation library

`tst_fzsync_pair_wait` of `tst_fuzzy_sync.h` as a machine whose steps are the
single atomic accesses of the C code. Thread A calls it with `our_cntr =
&a_cntr` and `other_cntr = &b_cntr`, thread B the other way round, so each
counter is written by one thread only: the one whose waits it counts.

## Implementation notes

C leaves open which operand of `load(our_cntr) < load(other_cntr)` is read
first, so every action carries that choice. The number of waits a thread has
entered is recorded beside the counters; no step reads it.
-/

namespace EDDTs.FuzzySync

open Library.Interleaving

/-- `INT_MAX` of the 32-bit `int` counters. -/
def intMax : Int := 2147483647

/-- `tst_atomic_inc`: the new value, wrapping as the atomic builtins do. -/
def atomicInc (v : Int) : Int := if v = intMax then -intMax - 1 else v + 1

inductive Thread
  | A
  | B
  deriving DecidableEq, Repr

/-- The thread a thread synchronises with. -/
def Thread.other : Thread → Thread
  | .A => .B
  | .B => .A

@[simp] theorem Thread.other_other (t : Thread) : t.other.other = t := by
  cases t <;> rfl

@[simp] theorem Thread.other_ne (t : Thread) : t.other ≠ t := by
  cases t <;> decide

@[simp] theorem Thread.ne_other (t : Thread) : t ≠ t.other := by
  cases t <;> decide

theorem Thread.eq_or_eq_other (t u : Thread) : u = t ∨ u = t.other := by
  cases t <;> cases u <;> simp [Thread.other]

/-- Where a thread is in `tst_fzsync_pair_wait`; a constructor stands before
the atomic access it is named after. -/
inductive WaitPc
  /-- not in a wait; the next access is `tst_atomic_inc(other_cntr)` -/
  | outside
  /-- `tst_atomic_load(our_cntr) > 0` -/
  | resetPositive
  /-- `tst_atomic_load(our_cntr) < INT_MAX` -/
  | resetBelowMax
  /-- `tst_atomic_store(0, other_cntr)` -/
  | resetStore
  /-- `tst_atomic_load(our_cntr) > 1` -/
  | resetRestored
  /-- neither operand of `our < other` is loaded -/
  | compare
  /-- `our_cntr` was loaded as `r` -/
  | compareOther (r : Int)
  /-- `other_cntr` was loaded as `r` -/
  | compareOur (r : Int)
  deriving DecidableEq, Repr

/-- One atomic access of `tst_fzsync_pair_wait`: the next location and the
value left in `other_cntr`. -/
def pairWaitStep (ourFirst : Bool) (pc : WaitPc) (our other : Int) : WaitPc × Int :=
  match pc with
  | .outside =>
      let v := atomicInc other
      (if v = intMax then .resetPositive else .compare, v)
  | .resetPositive => (if our > 0 then .resetBelowMax else .resetStore, other)
  | .resetBelowMax => (if our < intMax then .resetPositive else .resetStore, other)
  | .resetStore => (.resetRestored, 0)
  | .resetRestored => (if our > 1 then .resetRestored else .outside, other)
  | .compare => (if ourFirst then .compareOther our else .compareOur other, other)
  | .compareOther r => (if r < other then .compare else .outside, other)
  | .compareOur r => (if our < r then .compare else .outside, other)

/-- The shared counters, the location of each thread, and how many waits each
thread has entered. `cntr t` is the counter that is `our_cntr` for `t`. -/
structure PairState where
  cntr : Thread → Int
  pc : Thread → WaitPc
  entered : Thread → Nat

/-- Both counters zero and no thread in a wait. -/
def PairState.init : PairState where
  cntr := fun _ => 0
  pc := fun _ => .outside
  entered := fun _ => 0

/-- An action: the thread that moves and the operand order it uses. -/
structure Action where
  thread : Thread
  ourFirst : Bool
  deriving DecidableEq, Repr

/-- `tst_fzsync_wait_a` and `tst_fzsync_wait_b`: a thread passes its own
counter as `our_cntr` and its partner's as `other_cntr`. -/
def waitStep (a : Action) (s : PairState) : PairState :=
  let t := a.thread
  let r := pairWaitStep a.ourFirst (s.pc t) (s.cntr t) (s.cntr t.other)
  { cntr := Function.update s.cntr t.other r.2
    pc := Function.update s.pc t r.1
    entered := if s.pc t = .outside then
        Function.update s.entered t (s.entered t + 1) else s.entered }

/-- How many waits a thread has returned from. -/
def PairState.returned (s : PairState) (t : Thread) : Nat :=
  if s.pc t = .outside then s.entered t else s.entered t - 1

/-- The thread is inside its `k`-th wait. -/
def PairState.InWait (s : PairState) (t : Thread) (k : Nat) : Prop :=
  s.pc t ≠ .outside ∧ s.entered t = k

/-- Every thread moves infinitely often. -/
def Fair (sched : ℕ → Action) : Prop :=
  ∀ t, InfinitelyOften sched fun a => a.thread = t

/-- What an action of a larger program does to the pair: an access of the
wait, or nothing while the thread is not in a wait. -/
def Moves (a : Action) (s s' : PairState) : Prop :=
  s' = waitStep a s ∨ (s' = s ∧ s.pc a.thread = .outside)

section Update

variable (a : Action) (s : PairState)

/-- The counter written by a thread is its partner's `our_cntr`. -/
@[simp] theorem waitStep_cntr_other :
    (waitStep a s).cntr a.thread.other =
      (pairWaitStep a.ourFirst (s.pc a.thread) (s.cntr a.thread)
        (s.cntr a.thread.other)).2 := by
  simp [waitStep]

@[simp] theorem waitStep_cntr_self :
    (waitStep a s).cntr a.thread = s.cntr a.thread := by
  simp [waitStep]

@[simp] theorem waitStep_pc_self :
    (waitStep a s).pc a.thread =
      (pairWaitStep a.ourFirst (s.pc a.thread) (s.cntr a.thread)
        (s.cntr a.thread.other)).1 := by
  simp [waitStep]

@[simp] theorem waitStep_pc_other :
    (waitStep a s).pc a.thread.other = s.pc a.thread.other := by
  simp [waitStep]

@[simp] theorem waitStep_entered_other :
    (waitStep a s).entered a.thread.other = s.entered a.thread.other := by
  by_cases h : s.pc a.thread = .outside <;> simp [waitStep, h]

theorem waitStep_entered_self :
    (waitStep a s).entered a.thread =
      if s.pc a.thread = .outside then s.entered a.thread + 1
      else s.entered a.thread := by
  by_cases h : s.pc a.thread = .outside <;> simp [waitStep, h]

/-- A thread that does not move keeps its location and its count. -/
theorem waitStep_frame {t : Thread} (h : t ≠ a.thread) :
    (waitStep a s).pc t = s.pc t ∧ (waitStep a s).entered t = s.entered t := by
  rcases Thread.eq_or_eq_other a.thread t with rfl | rfl
  · exact absurd rfl h
  · exact ⟨waitStep_pc_other a s, waitStep_entered_other a s⟩

end Update

end EDDTs.FuzzySync
