import EDDTs.Pan.DriverAccounts

/-!
# Runs of ltp-pan without signals

While no signal arrives and the brakes are off, the main loop goes through its
six points in order, no child is marked as stopping, and the loop is left with
no child alive. After it only the orphaned process groups are signaled.
-/

namespace EDDTs.Pan

open Library

open scoped List

/-- The points of the main loop that are reached without a signal. -/
def Pc.looping : Pc → Bool
  | .launch | .ranChild _ | .launched | .testSignal | .check | .checked _ => true
  | _ => false

/-- The points after the main loop. -/
def Pc.left : Pc → Bool
  | .drain | .propagate true | .propagateTo true _ | .finished => true
  | _ => false

def Event.isSignal : Event → Bool
  | .signal _ => true
  | _ => false

/-- The child of the attempt was not marked as stopping. -/
def Outcome.undisturbed (e : Outcome) : Bool :=
  match e.ending with
  | .reaped _ stopping _ _ _ => !stopping
  | _ => true

/-- In the main loop, and no signal has arrived. -/
structure CalmLoop (s : PanState) : Prop where
  pc : s.pc.looping = true
  recSignal : s.signals.recSignal = none
  waitHit : s.waitHit = false
  slots : ∀ slot ∈ s.running, slot.pgrp ≠ 0 → slot.stopping = false

/-- All that an event other than a signal can do in the main loop. -/
inductive CalmMove (o : Options) (coll : List CollEntry) (s : PanState) (e : Event)
    (s' : PanState) : Prop
  | output (attempt : Nat) (text : Text) (event : e = .output attempt text)
      (eq : s' = s.print (.output attempt) text)
  | idle (a : Answer) (event : e = .step a) (pc : s.pc = .launch)
      (full : ¬ (s.numActive < o.keepActive ∧ s.starts ≠ 0) ∨ s.stop ≠ 0 ∨ s.goIdle ≠ 0)
      (eq : s' = { s with pc := .launched })
  | run (a : Answer) (i c : Nat) (colle : CollEntry) (event : e = .step a) (pc : s.pc = .launch)
      (room : s.numActive < o.keepActive) (starts : s.starts ≠ 0) (stop : s.stop = 0)
      (index : c = if o.sequential then s.c else a.rand % coll.length)
      (slot : s.running.findIdx? (fun r => r.pgrp = 0) = some i) (entry : coll[c]? = some colle)
      (control : s'.toControl = (s.choose c).toControl)
      (run : ChildRun o colle i s.attempts.length a
        ((s.choose c).attemptSlot i a.now colle s.attempts.length) (s.choose c) s')
  | ran (a : Answer) (cpid : Option Pid) (event : e = .step a) (pc : s.pc = .ranChild cpid)
      (eq : s' = s.ranChild o coll.length cpid)
  | launched (a : Answer) (event : e = .step a) (pc : s.pc = .launched) (eq : s' = s.launched o a)
  | tested (a : Answer) (event : e = .step a) (pc : s.pc = .testSignal)
      (eq : s' = { s with pc := .check })
  | childless (a : Answer) (event : e = .step a) (pc : s.pc = .check) (live : s.live = [])
      (eq : s' = { s.checkOrphans a.emptied none with waitHit := false, pc := .checked 0 })
  | reap (a : Answer) (cpid : Pid) (statLoc i : Nat) (event : e = .step a) (pc : s.pc = .check)
      (mem : cpid ∈ s.live) (gone : terminated statLoc = true)
      (slot : s.running[i]? = some (s.running.getD i {}))
      (pgrp : (s.running.getD i {}).pgrp = cpid) (pos : cpid ≠ 0)
      (control : s'.toControl = { s.toControl with waitHit := false })
      (reaped : ChildReaped o statLoc a i (s.running.getD i {}) (s.waited a.emptied cpid) s')
  | checked (a : Answer) (err : Int) (event : e = .step a) (pc : s.pc = .checked err)
      (eq : s' = s.checked o err)

/-- All that an event other than a signal can do after the main loop. -/
inductive LeftMove (o : Options) (coll : List CollEntry) (s : PanState) (e : Event)
    (s' : PanState) : Prop
  | output (attempt : Nat) (text : Text) (event : e = .output attempt text)
      (eq : s' = s.print (.output attempt) text)
  | drain (books : s'.toBooks = s.toBooks) (pc : s'.pc.left = true ∧ s'.pc ≠ .finished)
  | finish (a : Answer) (event : e = .step a) (pc : s.pc = .drain)
      (eq : s' = s.finish o coll.length a)

section Moves

variable {o : Options} {coll : List CollEntry} {s s' : PanState} {e : Event}

theorem calm_output {attempt : Nat} {text : Text}
    (h : panNext o coll s (.output attempt text) = some s') :
    s' = s.print (.output attempt) text := by
  simp only [panNext, Option.ite_none_right_eq_some, Option.some.injEq] at h
  exact h.2.symm

theorem calm_cases (hslots : SlotsOk o s) (hcalm : CalmLoop s) (he : e.isSignal = false)
    (h : panNext o coll s e = some s') : CalmMove o coll s e s' := by
  have hloop := hcalm.pc
  have hinv : s.pc ≠ .aborted → SlotInv o s.pc.pending s.toBooks := hslots.2
  cases e with
  | signal sig => cases he
  | output attempt text => exact .output attempt text rfl (calm_output h)
  | step a =>
      simp only [panNext] at h
      cases hpc : s.pc with
      | launch =>
          cases launch_moves (by simpa only [hpc] using h) with
          | idle full eq =>
              refine .idle a rfl hpc ?_ eq
              simpa [hcalm.recSignal] using full
          | noSlot room slot eq =>
              exact absurd slot ((hinv (by simp [hpc])).find_free (by rw [hpc]; rfl) room)
          | run i c colle room starts stop index slot entry call =>
              obtain ⟨control, run⟩ := call_cases hpc call
              exact .run a i c colle rfl hpc room starts stop index slot entry control run
      | ranChild cpid =>
          simp only [hpc, Option.some.injEq] at h
          exact .ran a cpid rfl hpc h.symm
      | launched =>
          simp only [hpc, Option.some.injEq] at h
          exact .launched a rfl hpc h.symm
      | testSignal =>
          simp only [hpc, Option.some.injEq] at h
          refine .tested a rfl hpc ?_
          rw [← h, PanState.testSignal, if_neg (by simp [hcalm.recSignal])]
      | check =>
          rcases checkPids_moves (by simpa only [hpc] using h) with
            ⟨hnone, rfl⟩ | ⟨cpid, statLoc, hmem, hgone, heq⟩
          · refine .childless a rfl hpc ?_ rfl
            simpa [hcalm.waitHit] using hnone
          · obtain ⟨i, hget, hpgrp, hpos, hcontrol, hreaped⟩ :=
              (hinv (by simp [hpc])).reaped hpc hmem hgone heq
            exact .reap a cpid statLoc i rfl hpc hmem hgone hget hpgrp hpos hcontrol hreaped
      | checked err =>
          simp only [hpc, Option.some.injEq] at h
          exact .checked a err rfl hpc h.symm
      | testUsr2 | testUsr1 | propagate | propagateTo | propagated | drain | finished | aborted =>
          simp [hpc, Pc.looping] at hloop

theorem left_cases (hslots : SlotsOk o s) (hleft : s.pc.left = true) (hlive : s.live = [])
    (he : e.isSignal = false) (h : panNext o coll s e = some s') : LeftMove o coll s e s' := by
  have hinv : s.pc ≠ .aborted → SlotInv o s.pc.pending s.toBooks := hslots.2
  cases e with
  | signal sig => cases he
  | output attempt text => exact .output attempt text rfl (calm_output h)
  | step a =>
      simp only [panNext] at h
      cases hpc : s.pc with
      | drain =>
          simp only [hpc, Option.some.injEq] at h
          subst h
          unfold PanState.drain
          split
          · exact .finish a rfl hpc rfl
          · exact .drain rfl ⟨rfl, by rintro ⟨⟩⟩
      | propagate draining =>
          obtain rfl : draining = true := by
            cases draining <;> simp_all [Pc.left]
          simp only [hpc, Option.some.injEq] at h
          subst h
          refine .drain ?_ ⟨rfl, by rintro ⟨⟩⟩
          unfold PanState.propagate
          split <;> rfl
      | propagateTo draining i =>
          obtain rfl : draining = true := by
            cases draining <;> simp_all [Pc.left]
          simp only [hpc, Option.some.injEq] at h
          subst h
          have inv := hinv (by simp [hpc])
          unfold PanState.propagateTo
          split
          next hi =>
            have hlt : i < s.running.length := by rw [inv.length]; exact hi
            have hfree : (s.running.getD i {}).pgrp = 0 :=
              inv.free_of_live hlive (List.mem_of_getElem? (getElem?_eq_getD hlt))
            simp only [if_pos hfree]
            exact .drain rfl ⟨rfl, by rintro ⟨⟩⟩
          next => exact .drain rfl ⟨rfl, by rintro ⟨⟩⟩
      | finished => simp [hpc] at h
      | launch | ranChild | launched | testSignal | testUsr2 | testUsr1 | propagated | check
      | checked | aborted => simp [hpc, Pc.left] at hleft

end Moves

/-- What holds in a run without signals: the brakes are off, and the run is in
the main loop, has left it without children, or has exited with an error. -/
structure CalmOk (s : PanState) : Prop where
  ledger : ∀ e ∈ s.ledger, e.undisturbed = true
  place : s.pc = .aborted ∨ CalmLoop s ∨ (s.pc.left = true ∧ s.live = [])

section Steps

variable {o : Options} {coll : List CollEntry} {s s' : PanState} {e : Event}

theorem undisturbed_childRun {colle : CollEntry} {i attempt : Nat} {a : Answer} {slot : Slot}
    (h : ∀ e ∈ s.ledger, e.undisturbed = true) (hrun : ChildRun o colle i attempt a slot s s') :
    ∀ e ∈ s'.ledger, e.undisturbed = true := by
  rcases hrun.ledger.2.2.2 with hledger | ⟨x, hledger, hx, -⟩
  · rw [hledger]; exact h
  · rw [hledger]
    refine List.forall_mem_append.mpr ⟨h, List.forall_mem_singleton.mpr ?_⟩
    obtain ⟨attempt', cmd, mystime, endTime, ending⟩ := x
    cases ending with
    | refused | execFailed => rfl
    | reaped statLoc stopping cutime cstime captured => cases hx

/-- No slot is marked by a start. -/
theorem unmarked_childRun {colle : CollEntry} {i attempt : Nat} {a : Answer}
    (h : ∀ slot ∈ s.running, slot.pgrp ≠ 0 → slot.stopping = false)
    (hi : s.running.findIdx? (fun r => r.pgrp = 0) = some i)
    (hrun : ChildRun o colle i attempt a (s.attemptSlot i a.now colle attempt) s s') :
    ∀ slot ∈ s'.running, slot.pgrp ≠ 0 → slot.stopping = false := by
  obtain ⟨-, hfree⟩ := getElem?_of_findIdx? hi
  have hfree' : (s.attemptSlot i a.now colle attempt).pgrp = 0 := by
    simpa [PanState.attemptSlot] using hfree
  generalize s.attemptSlot i a.now colle attempt = new at hrun hfree'
  have hset : ∀ slot ∈ s.running.set i new, slot.pgrp ≠ 0 → slot.stopping = false := by
    intro slot hslot hpos
    rcases List.mem_or_eq_of_mem_set hslot with hmem | rfl
    · exact h slot hmem hpos
    · exact absurd hfree' hpos
  cases hrun with
  | refused why b entered start books pc =>
      rw [books]
      rcases entered with rfl | rfl
      · exact h
      · exact hset
  | aborted cause books pc => rw [books]; exact hset
  | failed errbuf status endTime start gone books pc rts =>
      rw [books, Books.failedStart_eq]
      exact hset
  | started pid start pos fresh books pc rts =>
      rw [books]
      intro slot hslot hpos
      rcases List.mem_or_eq_of_mem_set hslot with hmem | rfl
      · exact h slot hmem hpos
      · rfl

/-- The end of the loop's body with the brakes off. -/
theorem checked_calm (hbrakes : o.hasBrakes = false) (err : Int) (s : PanState) :
    (s.checked o err).signals.recSignal = s.signals.recSignal ∧
      (s.checked o err).waitHit = s.waitHit ∧
      (((s.checked o err).pc = .drain ∧ s.stop ≠ 0 ∧ s.numActive = 0) ∨
        ((s.checked o err).pc = .launch ∧ ¬ (s.stop ≠ 0 ∧ s.numActive = 0))) := by
  have herror : (s.noteError o err).signals = s.signals ∧
      (s.noteError o err).waitHit = s.waitHit ∧ (s.noteError o err).stop = s.stop ∧
      (s.noteError o err).numActive = s.numActive := by
    unfold PanState.noteError
    split
    · simp [hbrakes]
    · exact ⟨rfl, rfl, rfl, rfl⟩
  obtain ⟨hsignals, hhit, hstop, hactive⟩ := herror
  unfold PanState.checked
  generalize s.noteError o err = t at hsignals hhit hstop hactive
  rw [← hsignals, ← hhit, ← hstop, ← hactive]
  unfold PanState.loopEnd
  split
  next hleave => exact ⟨rfl, rfl, Or.inl ⟨rfl, hleave⟩⟩
  next hstay => split <;> exact ⟨rfl, rfl, Or.inr ⟨rfl, hstay⟩⟩

theorem launched_calm (o : Options) (a : Answer) (s : PanState) :
    (s.launched o a).toBooks = s.toBooks ∧ (s.launched o a).signals = s.signals ∧
      (s.launched o a).waitHit = s.waitHit ∧ (s.launched o a).pc = .testSignal := by
  unfold PanState.launched
  split
  · split <;> exact ⟨rfl, rfl, rfl, rfl⟩
  · split <;> exact ⟨rfl, rfl, rfl, rfl⟩

theorem calmLoop_step (hbrakes : o.hasBrakes = false) (hslots : SlotsOk o s)
    (hledger : ∀ e ∈ s.ledger, e.undisturbed = true) (hcalm : CalmLoop s)
    (hmove : CalmMove o coll s e s') : CalmOk s' := by
  obtain ⟨hpc, hrec, hhit, hunmarked⟩ := hcalm
  cases hmove with
  | output attempt text event eq =>
      subst eq
      exact ⟨hledger, Or.inr (Or.inl ⟨hpc, hrec, hhit, hunmarked⟩)⟩
  | idle a event pc full eq =>
      subst eq
      exact ⟨hledger, Or.inr (Or.inl ⟨rfl, hrec, hhit, hunmarked⟩)⟩
  | run a i c colle event pc room starts stop index slot entry control run =>
      refine ⟨undisturbed_childRun (s := s.choose c) hledger run, ?_⟩
      rcases run.place with habort | ⟨cpid, hran⟩
      · exact Or.inl habort
      · refine Or.inr (Or.inl ⟨by rw [hran]; rfl, ?_, ?_, ?_⟩)
        · rw [control]; exact hrec
        · rw [control]; exact hhit
        · exact unmarked_childRun (s := s.choose c) hunmarked slot run
  | ran a cpid event pc eq =>
      subst eq
      exact ⟨hledger, Or.inr (Or.inl ⟨rfl, hrec, hhit, hunmarked⟩)⟩
  | launched a event pc eq =>
      subst eq
      obtain ⟨hbooks, hsignals, hhit', hpc'⟩ := launched_calm o a s
      refine ⟨by rw [hbooks]; exact hledger, Or.inr (Or.inl ⟨by rw [hpc']; rfl, ?_, ?_, ?_⟩)⟩
      · rw [hsignals]; exact hrec
      · rw [hhit']; exact hhit
      · rw [hbooks]; exact hunmarked
  | tested a event pc eq =>
      subst eq
      exact ⟨hledger, Or.inr (Or.inl ⟨rfl, hrec, hhit, hunmarked⟩)⟩
  | childless a event pc live eq =>
      subst eq
      exact ⟨hledger, Or.inr (Or.inl ⟨rfl, hrec, rfl, hunmarked⟩)⟩
  | reap a cpid statLoc i event pc mem gone slot pgrp pos control reaped =>
      have hstopping : (s.running.getD i {}).stopping = false :=
        hunmarked _ (List.mem_of_getElem? slot) (pgrp ▸ pos)
      constructor
      · rw [reaped.ledger.1]
        refine List.forall_mem_append.mpr ⟨hledger, List.forall_mem_singleton.mpr ?_⟩
        rw [childOutcome, Outcome.undisturbed, hstopping]
        rfl
      · by_cases habort : s'.pc = .aborted
        · exact Or.inl habort
        · obtain ⟨hpc', hrunning, -⟩ := reaped.slots habort
          refine Or.inr (Or.inl
            ⟨by rw [hpc']; rfl, by rw [control]; exact hrec, by rw [control], ?_⟩)
          · rw [hrunning]
            intro r hr hpos
            rcases List.mem_or_eq_of_mem_set hr with hmem | rfl
            · exact hunmarked r hmem hpos
            · exact absurd rfl hpos
  | checked a err event pc eq =>
      subst eq
      obtain ⟨hbooks, -⟩ := s.checked_cases o err
      obtain ⟨hrec', hhit', hplace⟩ := checked_calm hbrakes err s
      refine ⟨by rw [hbooks]; exact hledger, ?_⟩
      rcases hplace with ⟨hdrain, -, hactive⟩ | ⟨hlaunch, -⟩
      · have hcount : s.numActive + s.pc.pending = s.live.length := (hslots.2 (by simp [pc])).count
        have hpending : s.pc.pending = 0 := by rw [pc]; rfl
        have hlive : s.live = [] := List.eq_nil_of_length_eq_zero (by omega)
        exact Or.inr (Or.inr ⟨by rw [hdrain]; rfl, by rw [hbooks]; exact hlive⟩)
      · refine Or.inr (Or.inl ⟨by rw [hlaunch]; rfl, hrec'.trans hrec, hhit'.trans hhit, ?_⟩)
        rw [hbooks]
        exact hunmarked

theorem calmOk_step (hbrakes : o.hasBrakes = false) (hslots : SlotsOk o s) (hok : CalmOk s)
    (he : e.isSignal = false) (h : panNext o coll s e = some s') : CalmOk s' := by
  obtain ⟨hledger, habort | hcalm | ⟨hleft, hlive⟩⟩ := hok
  · exact absurd habort (panNext_cases h).1.2
  · exact calmLoop_step hbrakes hslots hledger hcalm (calm_cases hslots hcalm he h)
  · cases left_cases hslots hleft hlive he h with
    | output attempt text event eq =>
        subst eq
        exact ⟨hledger, Or.inr (Or.inr ⟨hleft, hlive⟩)⟩
    | drain books pc =>
        refine ⟨by rw [books]; exact hledger, Or.inr (Or.inr ⟨pc.1, ?_⟩)⟩
        rw [books]
        exact hlive
    | finish a event pc eq =>
        subst eq
        exact ⟨hledger, Or.inr (Or.inr ⟨rfl, hlive⟩)⟩

theorem calmOk_init : CalmOk (PanState.init o coll) := by
  refine ⟨nofun, Or.inr (Or.inl ⟨rfl, rfl, rfl, ?_⟩)⟩
  intro slot hslot _
  obtain ⟨-, rfl⟩ := List.mem_replicate.mp hslot
  rfl

theorem calmOk_panRun (coll : List CollEntry) (hbrakes : o.hasBrakes = false) {evs : List Event}
    (hevs : ∀ e ∈ evs, e.isSignal = false) : CalmOk (panRun o coll evs) :=
  panRun_invariant CalmOk hevs calmOk_init fun _ _ _ he hslots hok h =>
    calmOk_step hbrakes hslots hok he h

end Steps

end EDDTs.Pan
