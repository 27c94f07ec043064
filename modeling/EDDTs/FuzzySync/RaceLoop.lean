import EDDTs.FuzzySync.WaitProgress

/-!
# The race loops of the two threads

Thread A runs `while (tst_fzsync_run_a(pair)) { start_race_a; ...; end_race_a }`
and thread B the matching loop. Everything that does not synchronise (the
statistics of `tst_fzsync_pair_update`, the delays, the time stamps and the
spin counts) is local to a thread or read by A only, and decides nothing
here. The decision of the `k`-th `tst_fzsync_run_a` depends on the clock and
the loop limit; it is a parameter.

## Implementation notes

The decisions A has stored, the values `tst_fzsync_run_b` has returned and the
number of race bodies each thread has finished are recorded for the statements
below; no step reads them except to find the number of the next decision.
-/

namespace EDDTs.FuzzySync

open Library.Interleaving

/-- Where thread A is in its loop. -/
inductive LocA
  /-- `tst_fzsync_run_a`: decide, then store the decision in `pair->exit` -/
  | runStore
  /-- `tst_fzsync_run_a`: in or about to enter `tst_fzsync_wait_a` -/
  | runWait
  /-- `tst_fzsync_start_race_a`: in or about to enter the wait -/
  | startWait
  /-- between `tst_fzsync_start_race_a` and `tst_fzsync_end_race_a` -/
  | race
  /-- `tst_fzsync_end_race_a`: in or about to enter the wait -/
  | endWait
  /-- `tst_fzsync_pair_cleanup`: about to read `pair->exit` -/
  | cleanup
  /-- `SAFE_PTHREAD_JOIN(pair->thread_b, NULL)` -/
  | join
  /-- `tst_fzsync_run_a` has returned zero -/
  | done
  deriving DecidableEq, Repr

/-- Where thread B is in its loop. -/
inductive LocB
  /-- `tst_fzsync_run_b`: in or about to enter `tst_fzsync_wait_b` -/
  | runWait
  /-- `tst_fzsync_run_b`: about to load `pair->exit` -/
  | runLoad
  | startWait
  | race
  | endWait
  /-- `tst_fzsync_run_b` has returned zero, or the thread was cancelled -/
  | done
  deriving DecidableEq, Repr

structure RaceState where
  pair : PairState
  exit : Bool
  /-- the local `exit` of `tst_fzsync_run_a` -/
  localExit : Bool
  locA : LocA
  locB : LocB
  /-- the decisions A has stored, oldest first -/
  stored : List Bool
  /-- the values `tst_fzsync_run_b` has returned, oldest first -/
  returnsB : List Bool
  /-- how many race bodies each thread has finished -/
  bodies : Thread → Nat

/-- The state `tst_fzsync_pair_reset` leaves, with both threads before their
first loop test. -/
def RaceState.init : RaceState where
  pair := PairState.init
  exit := false
  localExit := false
  locA := .runStore
  locB := .runWait
  stored := []
  returnsB := []
  bodies := fun _ => 0

/-- One access of the wait A is in; on return A goes on at `next`. -/
def RaceState.waitA (a : Action) (next : LocA) (s : RaceState) : RaceState :=
  let pair := waitStep a s.pair
  { s with pair := pair, locA := if pair.pc .A = .outside then next else s.locA }

/-- One access of the wait B is in; on return B goes on at `next`. -/
def RaceState.waitB (a : Action) (next : LocB) (s : RaceState) : RaceState :=
  let pair := waitStep a s.pair
  { s with pair := pair, locB := if pair.pc .B = .outside then next else s.locB }

/-- A thread has finished one more race body. -/
def RaceState.finishBody (t : Thread) (s : RaceState) : RaceState :=
  { s with bodies := Function.update s.bodies t (s.bodies t + 1) }

/-- A step of thread A. `exits k` is the decision of the `k`-th call of
`tst_fzsync_run_a`, true for exit; `threadB` says that `pair->thread_b` is set. -/
def stepA (exits : Nat → Bool) (threadB : Bool) (a : Action) (s : RaceState) : RaceState :=
  match s.locA with
  | .runStore =>
      let decision := exits s.stored.length
      { s with exit := decision, localExit := decision,
               stored := s.stored ++ [decision], locA := .runWait }
  | .runWait => s.waitA a (if s.localExit then .cleanup else .startWait)
  | .startWait => s.waitA a .race
  | .race => { s.finishBody .A with locA := .endWait }
  | .endWait => s.waitA a .runStore
  | .cleanup =>
      if !threadB then { s with locA := .done }
      -- the revoke of an accidental break: request the exit and cancel the thread
      else if !s.exit then { s with exit := true, locB := .done, locA := .join }
      else { s with locA := .join }
  | .join => if s.locB = .done then { s with locA := .done } else s
  | .done => s

/-- A step of thread B. -/
def stepB (a : Action) (s : RaceState) : RaceState :=
  match s.locB with
  | .runWait => s.waitB a .runLoad
  | .runLoad =>
      { s with returnsB := s.returnsB ++ [!s.exit],
               locB := if s.exit then .done else .startWait }
  | .startWait => s.waitB a .race
  | .race => { s.finishBody .B with locB := .endWait }
  | .endWait => s.waitB a .runWait
  | .done => s

/-- A step of the two loops. -/
def raceStep (exits : Nat → Bool) (threadB : Bool) (a : Action) (s : RaceState) : RaceState :=
  match a.thread with
  | .A => stepA exits threadB a s
  | .B => stepB a s

/-- The thread is in its `k`-th race region, counting from zero. -/
def RaceState.InRace (s : RaceState) (t : Thread) (k : Nat) : Prop :=
  s.bodies t = k ∧ match t with
    | .A => s.locA = .race
    | .B => s.locB = .race

/-- The thread has left its loop: its last `run` call has returned zero, or
does so without waiting for the partner's counter again. -/
def RaceState.Left (s : RaceState) : Thread → Prop
  | .A => s.locA = .cleanup ∨ s.locA = .join ∨ s.locA = .done
  | .B => s.locB = .done

end EDDTs.FuzzySync
