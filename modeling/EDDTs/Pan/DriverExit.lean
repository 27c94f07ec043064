import EDDTs.Pan.DriverCalm
import Mathlib.Data.List.Nodup

/-!
# The exit status of ltp-pan

With `-e` and without signals `exit_stat` counts the commands that were
executed and did not exit with zero or `TCONF`. A command that could not be
executed is not counted, and the parent of ltp-pan sees the low eight bits.
-/

namespace EDDTs.Pan

open Library

open scoped List

namespace Outcome

/-- The command was executed and exited with zero or `TCONF`. -/
def passed (e : Outcome) : Bool :=
  match e.ending with
  | .reaped statLoc _ _ _ _ =>
      (termination statLoc).1 = .exited &&
        ((termination statLoc).2 = 0 || (termination statLoc).2 = TCONF)
  | _ => false

/-- The command was executed and ended otherwise. -/
def failed (e : Outcome) : Bool := e.executed && !e.passed

end Outcome

/-- Every command that was attempted was executed and exited with zero or
`TCONF`. -/
def EveryCommandPassed (s : PanState) : Prop :=
  ∀ k < s.attempts.length, ∃ e ∈ s.ledger, e.attempt = k ∧ e.passed = true

/-- The status that the parent of ltp-pan sees. -/
def PanState.exitStatus (s : PanState) : Option Int :=
  match s.pc with
  | .finished => some (s.exitStat % 256)
  | .aborted => if s.overran then none else some 1
  | _ => none

/-- The commands that were executed and failed. -/
def PanState.failures (s : PanState) : Nat := s.ledger.countP Outcome.failed

/-- The attempts whose command was not executed. -/
def PanState.unexecuted (s : PanState) : Nat := s.ledger.countP fun e => !e.executed

/-- An error of `check_pids` that is not counted yet. -/
def Pc.pendingError : Pc → Nat
  | .checked err => if err ≠ 0 then 1 else 0
  | _ => 0

/-- One for a failure to clear the active file at the end. -/
def PanState.clearError (s : PanState) : Nat :=
  if s.pc = .finished ∧ s.selfCleared = false then 1 else 0

/-- `exit_stat` counts the failures. -/
def ExitOk (s : PanState) : Prop :=
  s.pc ≠ .aborted → s.exitStat + s.pc.pendingError = s.failures + s.clearError

/-- `check_pids` reports a child that was not stopped unless it passed. -/
theorem childRet_ne_zero_iff (o : Options) {slot : Slot} (hslot : slot.stopping = false)
    (statLoc : Nat) (a : Answer) :
    childRet statLoc slot.stopping ≠ 0 ↔ (childOutcome o slot statLoc a).failed = true := by
  rw [hslot]
  simp only [childRet, Outcome.failed, Outcome.passed, Outcome.executed, childOutcome]
  cases (termination statLoc).1 with
  | exited =>
      by_cases hz : (termination statLoc).2 = 0
      · simp [hz]
      · by_cases hc : (termination statLoc).2 = TCONF <;> simp [hz, hc]
  | signaled | stopped | unknown | driverInterrupt => simp

section Steps

variable {o : Options} {coll : List CollEntry} {s s' : PanState} {e : Event}

theorem failures_childRun {colle : CollEntry} {i attempt : Nat} {a : Answer} {slot : Slot}
    (hrun : ChildRun o colle i attempt a slot s s') : s'.failures = s.failures := by
  unfold PanState.failures
  rcases hrun.ledger.2.2.2 with hledger | ⟨x, hledger, hx, -⟩
  · rw [hledger]
  · rw [hledger, List.countP_append, List.countP_singleton, Outcome.failed, hx]
    rfl

theorem exitOk_loop_step (htrack : o.trackExitStats = true) (hcalm : CalmLoop s)
    (hok : ExitOk s) (hmove : CalmMove o coll s e s') : ExitOk s' := by
  intro hpc'
  have hclear : s.clearError = 0 := by
    refine if_neg fun h => ?_
    have hloop := hcalm.pc
    rw [h.1] at hloop
    cases hloop
  have hexit : ∀ p, s.pc = p → p ≠ .aborted → s.exitStat + p.pendingError = s.failures := by
    rintro _ rfl hpc
    have hcount := hok hpc
    rw [hclear] at hcount
    omega
  cases hmove with
  | output attempt text event eq =>
      subst eq
      exact hok hpc'
  | idle a event pc full eq =>
      subst eq
      exact (hexit _ pc nofun :)
  | run a i c colle event pc room starts stop index slot entry control run =>
      have hbefore := hexit _ pc nofun
      rcases run.place with habort | ⟨cpid, hran⟩
      · exact absurd habort hpc'
      · have hfailures : s'.failures = s.failures :=
          failures_childRun (s := s.choose c) run
        have hclear' : s'.clearError = 0 := if_neg (by simp [hran])
        rw [hran, hfailures, hclear', run.ledger.1]
        exact hbefore
  | ran a cpid event pc eq =>
      subst eq
      exact (hexit _ pc nofun :)
  | launched a event pc eq =>
      subst eq
      obtain ⟨hbooks, -, -, hpc⟩ := launched_calm o a s
      rw [PanState.failures, PanState.clearError, hpc, hbooks]
      exact (hexit _ pc nofun :)
  | tested a event pc eq =>
      subst eq
      exact (hexit _ pc nofun :)
  | childless a event pc live eq =>
      subst eq
      exact (hexit _ pc nofun :)
  | reap a cpid statLoc i event pc mem gone slot pgrp pos control reaped =>
      have hbefore : s.exitStat + 0 = s.failures := hexit _ pc nofun
      have hstopping : (s.running.getD i {}).stopping = false :=
        hcalm.slots _ (List.mem_of_getElem? slot) (pgrp ▸ pos)
      obtain ⟨hledger, -, hexit', -⟩ := reaped.ledger
      obtain ⟨hchecked, -⟩ := reaped.slots hpc'
      have hclear' : s'.clearError = 0 := if_neg (by simp [hchecked])
      have hret := childRet_ne_zero_iff o hstopping statLoc a
      generalize childOutcome o (s.running.getD i {}) statLoc a = x at hledger hret
      have hfailures : s'.failures = s.failures + if x.failed then 1 else 0 := by
        rw [PanState.failures, hledger, List.countP_append, List.countP_singleton]
        rfl
      have hstat : s'.exitStat = s.exitStat := hexit'
      rw [hchecked, hfailures, hclear', hstat, Pc.pendingError]
      by_cases hx : x.failed = true
      · rw [if_pos hx, if_pos (hret.mpr hx)]
        omega
      · rw [if_neg hx, if_neg fun h => hx (hret.mp h)]
        omega
  | checked a err event pc eq =>
      subst eq
      have hbefore := hexit _ pc nofun
      rw [Pc.pendingError] at hbefore
      obtain ⟨hbooks, -, -, hplace⟩ := s.checked_cases o err
      have hzero : (s.checked o err).pc.pendingError = 0 ∧ (s.checked o err).clearError = 0 := by
        rcases hplace with h | h <;> rw [PanState.clearError, h] <;> exact ⟨rfl, rfl⟩
      rw [hzero.1, hzero.2, PanState.failures, hbooks]
      change (if err ≠ 0 ∧ o.trackExitStats then s.exitStat + 1 else s.exitStat) + (0 : Nat) =
        (s.failures : Int) + (0 : Nat)
      by_cases herr : err = 0
      · simp only [herr, ne_eq, not_true_eq_false, if_false, false_and] at hbefore ⊢
        omega
      · simp only [herr, ne_eq, not_false_eq_true, if_true, htrack, and_self] at hbefore ⊢
        omega

theorem exitOk_left_step (hleft : s.pc.left = true) (hok : ExitOk s)
    (hpc : s.pc ≠ .finished ∧ s.pc ≠ .aborted) (hmove : LeftMove o coll s e s') : ExitOk s' := by
  intro _
  have hclear : s.clearError = 0 := if_neg fun h => hpc.1 h.1
  have hpending : ∀ p : Pc, p.left = true → p.pendingError = 0 := by
    intro p hp
    cases p <;> first | rfl | cases hp
  have hbefore := hok hpc.2
  rw [hclear, hpending _ hleft] at hbefore
  cases hmove with
  | output attempt text event eq =>
      subst eq
      exact hok hpc.2
  | drain books pc =>
      have hclear' : s'.clearError = 0 := if_neg fun h => pc.2 h.1
      rw [hclear', hpending _ pc.1, PanState.failures, books]
      exact hbefore
  | finish a event pc eq =>
      subst eq
      change (if a.zooOk then s.exitStat else s.exitStat + 1) + (0 : Nat) =
        (s.failures : Int) + (if (Pc.finished = .finished ∧ a.zooOk = false) then 1 else 0 : Nat)
      cases a.zooOk with
      | true => simpa using hbefore
      | false =>
          simp only [Bool.false_eq_true, if_false, and_self, if_true]
          omega

theorem exitOk_panRun (coll : List CollEntry) (htrack : o.trackExitStats = true)
    (hbrakes : o.hasBrakes = false) {evs : List Event} (hevs : ∀ e ∈ evs, e.isSignal = false) :
    ExitOk (panRun o coll evs) := by
  refine (panRun_invariant (fun s => CalmOk s ∧ ExitOk s) hevs ⟨calmOk_init, fun _ => rfl⟩ ?_).2
  rintro s e s' he hslots ⟨hcalm, hok⟩ hnext
  obtain ⟨hpc, -⟩ := panNext_cases hnext
  refine ⟨calmOk_step hbrakes hslots hcalm he hnext, ?_⟩
  rcases hcalm.place with habort | hloop | ⟨hleft, hlive⟩
  · exact absurd habort hpc.2
  · exact exitOk_loop_step htrack hloop hok (calm_cases hslots hloop he hnext)
  · exact exitOk_left_step hleft hok hpc (left_cases hslots hleft hlive he hnext)

end Steps

/-- With every attempt in the ledger, every command passed if none failed and
all were executed. -/
theorem everyCommandPassed_iff {s : PanState}
    (hnumbers : s.ledger.map Outcome.attempt ~ List.range s.attempts.length) :
    EveryCommandPassed s ↔ s.failures = 0 ∧ s.unexecuted = 0 := by
  have hall : EveryCommandPassed s ↔ ∀ e ∈ s.ledger, e.passed = true := by
    constructor
    · intro h e he
      have hmem := hnumbers.mem_iff.mp (List.mem_map_of_mem he)
      obtain ⟨e', he', hattempt, hpassed⟩ := h e.attempt (List.mem_range.mp hmem)
      -- the numbers of the attempts are distinct, so this is the same outcome
      have hnodup : (s.ledger.map Outcome.attempt).Nodup := hnumbers.nodup_iff.mpr List.nodup_range
      rw [List.inj_on_of_nodup_map hnodup he he' hattempt.symm]
      exact hpassed
    · intro h k hk
      obtain ⟨e, he, hattempt⟩ :=
        List.mem_map.mp (hnumbers.mem_iff.mpr (List.mem_range.mpr hk))
      exact ⟨e, he, hattempt, h e he⟩
  have hkind : ∀ e : Outcome, e.passed = true ↔ e.failed = false ∧ e.executed = true := by
    intro e
    obtain ⟨attempt, cmd, mystime, endTime, ending⟩ := e
    cases ending with
    | refused | execFailed => simp [Outcome.passed, Outcome.executed]
    | reaped statLoc stopping cutime cstime captured => simp [Outcome.failed, Outcome.executed]
  rw [hall, PanState.failures, PanState.unexecuted, List.countP_eq_zero, List.countP_eq_zero,
    ← forall₂_and]
  refine forall₂_congr fun e _ => ?_
  rw [hkind]
  simp

/-- When the exit status tells whether every command passed. After a regular
end it has to be zero when no command failed and all were executed, and
otherwise the failures must not add up to a multiple of 256; after an exit with
an error some command must not have passed. -/
theorem exitStatus_tells_iff (o : Options) (coll : List CollEntry) (evs : List Event)
    (htrack : o.trackExitStats = true) (hbrakes : o.hasBrakes = false)
    (hevs : ∀ e ∈ evs, e.isSignal = false) (status : Int)
    (hstatus : (panRun o coll evs).exitStatus = some status) :
    let s := panRun o coll evs
    (status = 0 ↔ EveryCommandPassed s) ↔
      if s.pc = .finished then
        if s.failures = 0 ∧ s.unexecuted = 0 then s.selfCleared = true
        else (s.failures + if s.selfCleared then 0 else 1) % 256 ≠ 0
      else ¬ EveryCommandPassed s := by
  intro s
  have hexit : ExitOk s := exitOk_panRun coll htrack hbrakes hevs
  have hcalm : CalmOk s := calmOk_panRun coll hbrakes hevs
  have hstatus' : s.exitStatus = some status := hstatus
  unfold PanState.exitStatus at hstatus'
  split at hstatus'
  next hpc =>
    have hlive : s.live = [] := by
      rcases hcalm.place with habort | hloop | ⟨-, hlive⟩
      · rw [hpc] at habort
        cases habort
      · have := hloop.pc
        rw [hpc] at this
        cases this
      · exact hlive
    have hnumbers : s.ledger.map Outcome.attempt ~ List.range s.attempts.length :=
      (accountsOk_panRun o coll evs (by rw [hpc]; nofun)).all_ended
        ((slotsOk_panRun o coll evs).2 (by rw [hpc]; nofun)) hlive
    have hcount : s.exitStat = s.failures + if s.selfCleared then 0 else 1 := by
      have hcount := hexit (by rw [hpc]; nofun)
      rw [hpc, PanState.clearError, hpc] at hcount
      cases hcleared : s.selfCleared <;> simp [hcleared, Pc.pendingError] at hcount ⊢ <;> exact hcount
    have hzero : status = 0 ↔ (s.failures + if s.selfCleared then 0 else 1) % 256 = 0 := by
      rw [← Option.some.inj hstatus', hcount]
      split <;> omega
    rw [if_pos hpc, everyCommandPassed_iff hnumbers, hzero]
    by_cases hgood : s.failures = 0 ∧ s.unexecuted = 0
    · rw [if_pos hgood]
      cases s.selfCleared <;> simp [hgood]
    · rw [if_neg hgood]
      exact iff_false_right hgood
  next hpc =>
    obtain ⟨-, hstatus'⟩ := Option.ite_none_left_eq_some.mp hstatus'
    rw [if_neg (by rw [hpc]; nofun), ← Option.some.inj hstatus']
    exact iff_false_left (by decide)
  next => cases hstatus'

/-- One command that exits with 1. -/
def oneFailure : List Event :=
  [.step { start := .started 7 }, .step {}, .step {}, .step {}, .step {},
    .step { wait := .child 7 256 }, .step {}, .step {}]

theorem exitStatus_tells_one_failure :
    let s := panRun { trackExitStats := true } [⟨txt "t", txt "false", false⟩] oneFailure
    s.exitStatus = some 1 ∧ ((1 : Int) = 0 ↔ EveryCommandPassed s) := by
  refine ⟨rfl, (exitStatus_tells_iff _ _ _ rfl rfl (by decide) 1 rfl).mpr ?_⟩
  rw [if_pos (by rfl)]
  decide

/-- One command that cannot be executed. -/
def oneFailedExec : List Event :=
  [.step { start := .reported (noSuchFile (txt "t")) 512 0 },
    .step {}, .step {}, .step {}, .step {}, .step {}, .step {}, .step {}]

/-- The status is zero although the only command was not executed. -/
theorem exitStatus_zero_failed_exec :
    let s := panRun { sequential := true, trackExitStats := true }
      [⟨txt "t", txt "nosuch", false⟩] oneFailedExec
    s.exitStatus = some 0 ∧ ¬ EveryCommandPassed s := by
  intro s
  refine ⟨rfl, fun h => ?_⟩
  obtain ⟨e, he, -, hpassed⟩ := h 0 (by decide)
  have hnone : ∀ e ∈ s.ledger, e.passed = false := by decide
  rw [hnone e he] at hpassed
  cases hpassed

end EDDTs.Pan
