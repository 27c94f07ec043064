import EDDTs.Pan.DriverGroups
import EDDTs.Pan.DriverLedger

/-!
# The ends of the attempts

A move of the driver puts at most one attempt into the ledger: one that it makes and that
starts no child, or that of the child which `check_pids` reaps. The main loop is left
when there are no children.
-/

namespace EDDTs.Pan

open Library Library.Interleaving

open scoped List

section Ends

variable {o : Options} {coll : List CollEntry} {s s' : PanState} {e : Event} {n : Nat}

/-- A move ends no attempt, or the one that it makes, or that of the child it reaps. -/
inductive LedgerMove (coll : List CollEntry) (s s' : PanState) : Prop
  | same (ledger : s'.ledger = s.ledger) (attempts : s'.attempts = s.attempts)
  | attempt (c : Nat) (x : Option Outcome) (ledger : s'.ledger = s.ledger ++ x.toList)
      (number : ∀ y ∈ x, y.attempt = s.attempts.length ∧ y.cmd ∈ coll)
      (attempts : s'.attempts = s.attempts ++ [c])
  | reap (x : Outcome) (pc : s.pc = .check) (active : s'.numActive = s.numActive - 1)
      (ledger : s'.ledger = s.ledger ++ [x]) (executed : x.executed = true)
      (slot : ∃ r ∈ s.running, r.pgrp ≠ 0 ∧ x.cmd = r.cmd) (attempts : s'.attempts = s.attempts)

theorem LedgerMove.length_attempts (h : LedgerMove coll s s') :
    s.attempts.length ≤ s'.attempts.length := by
  cases h with
  | same ledger attempts => rw [attempts]
  | attempt c x ledger number attempts => simp [attempts]
  | reap x pc active ledger executed slot attempts => rw [attempts]

theorem LedgerMove.mem (h : LedgerMove coll s s') {x : Outcome} (hx : x ∈ s.ledger) :
    x ∈ s'.ledger := by
  cases h with
  | same ledger attempts => exact ledger ▸ hx
  | attempt c y ledger number attempts => exact ledger ▸ List.mem_append_left _ hx
  | reap y pc active ledger executed slot attempts => exact ledger ▸ List.mem_append_left _ hx

variable {a : Answer}

theorem ChildRun.ledgerMove {colle : CollEntry} {i c : Nat} {slot : Slot}
    (hrun : ChildRun o colle i s.attempts.length a slot (s.choose c) s')
    (hslot : slot.attempt = s.attempts.length ∧ slot.cmd = colle) (hcmd : colle ∈ coll) :
    LedgerMove coll s s' := by
  have hattempts : s'.attempts = s.attempts ++ [c] := hrun.ledger.2.1
  have hnone : s'.ledger = s.ledger → LedgerMove coll s s' := fun h =>
    .attempt c none (by simpa using h) nofun hattempts
  have hsome : ∀ x : Outcome, x.attempt = s.attempts.length ∧ x.cmd = colle →
      s'.ledger = s.ledger ++ [x] → LedgerMove coll s s' := by
    intro x hx h
    refine .attempt c (some x) h ?_ hattempts
    rintro y ⟨⟩
    exact ⟨hx.1, hx.2 ▸ hcmd⟩
  cases hrun with
  | refused why b entered start books pc =>
      refine hsome ⟨s.attempts.length, colle, a.now, a.now, .refused why⟩ ⟨rfl, rfl⟩ ?_
      rw [books]
      rcases entered with rfl | rfl <;> rfl
  | aborted cause books pc =>
      apply hnone
      rw [books]
      rfl
  | failed errbuf status endTime start gone books pc rts =>
      refine hsome ⟨slot.attempt, slot.cmd, slot.mystime, endTime, .execFailed errbuf status⟩
        hslot ?_
      rw [books, Books.failedStart_eq]
      rfl
  | started pid start pos fresh books pc rts =>
      apply hnone
      rw [books]
      rfl

theorem PanMove.ledgerMove (hslots : SlotsOk o s) (hpc : s.pc ≠ .aborted)
    (hmove : PanMove o coll s e s') : LedgerMove coll s s' := by
  have hslot := hslots.2 hpc
  cases hmove with
  | steer books rts abort pending pc => exact .same (by rw [books]) (by rw [books])
  | output attempt text event direct started eq =>
      subst eq
      exact .same rfl rfl
  | mark i slot occupied books control rts pending pc =>
      exact .same (by rw [books]; rfl) (by rw [books]; rfl)
  | noSlot room pending slot => exact absurd slot (hslot.find_free pending room)
  | run a i c colle event pc slot entry control run =>
      exact run.ledgerMove ⟨rfl, rfl⟩ (List.mem_of_getElem? entry)
  | ran cpid pc eq =>
      subst eq
      exact .same rfl rfl
  | reap a cpid statLoc event pc mem gone eq =>
      obtain ⟨i, hget, hpgrp, hpos, -, hreaped⟩ := hslot.reaped pc mem gone eq
      obtain ⟨hledger, hattempts, -, hactive⟩ := hreaped.ledger
      have hcmd : ∃ r ∈ s.running, r.pgrp ≠ 0 ∧ (childOutcome o (s.running.getD i {}) statLoc
          a).cmd = r.cmd := ⟨_, List.mem_of_getElem? hget, hpgrp ▸ hpos, rfl⟩
      exact .reap _ pc hactive hledger rfl hcmd hattempts
  | checked err pc books rts abort pc' => exact .same (by rw [books]) (by rw [books])
  | finish a event pc eq =>
      subst eq
      exact .same rfl rfl

/-- Only `check_pids` takes a command out of its slot, and it counts it once. -/
theorem number_leaves (hslots : SlotsOk o s) (hok : AccountsOk coll s) (hpc : s.pc ≠ .aborted)
    (hmove : PanMove o coll s e s') (hpc' : s'.pc ≠ .aborted)
    (hn : n ∈ items Slot.number s.running) (hgone : n ∉ items Slot.number s'.running) :
    s.pc = .check ∧ s'.numActive = s.numActive - 1 ∧
      ∃ x, s'.ledger = s.ledger ++ [x] ∧ x.attempt = n ∧ x.executed = true := by
  have hinv := hok hpc
  have hinv' := accountsOk_step hslots hok hpc hmove hpc'
  have hlt : n < s.attempts.length :=
    List.mem_range.mp (hinv.numbers.mem_iff.mp (List.mem_append_right _ hn))
  have hnew : n ∉ s.ledger.map Outcome.attempt := by
    have hnodup := hinv.numbers.nodup_iff.mpr List.nodup_range
    exact fun hold => (List.nodup_append.mp hnodup).2.2 n hold n hn rfl
  have hledger := hmove.ledgerMove hslots hpc
  have hended : n ∈ s'.ledger.map Outcome.attempt := by
    have hlt' : n ∈ List.range s'.attempts.length :=
      List.mem_range.mpr (Nat.lt_of_lt_of_le hlt hledger.length_attempts)
    exact (List.mem_append.mp (hinv'.numbers.mem_iff.mpr hlt')).resolve_right hgone
  have hlast : ∀ x : List Outcome, s'.ledger = s.ledger ++ x → n ∈ x.map Outcome.attempt := by
    intro x hx
    rw [hx, List.map_append] at hended
    exact (List.mem_append.mp hended).resolve_left hnew
  cases hledger with
  | same ledger attempts => exact absurd (ledger ▸ hended) hnew
  | attempt c x ledger number attempts =>
      obtain ⟨y, hy, rfl⟩ := List.mem_map.mp (hlast _ ledger)
      exact absurd (number y (Option.mem_toList.mp hy)).1 (Nat.ne_of_lt hlt)
  | reap x pc active ledger executed slot attempts =>
      have hx : x.attempt = n := by simpa using (List.mem_map.mp (hlast _ ledger))
      exact ⟨pc, active, x, ledger, hx, executed⟩

/-- Every attempt that has ended was made for a command of the collection. -/
theorem ledger_cmd_mem (o : Options) (coll : List CollEntry) (evs : List Event) :
    ∀ x ∈ (panRun o coll evs).ledger, x.cmd ∈ coll := by
  refine (panRun_invariant (P := fun _ => True)
    (fun s => AccountsOk coll s ∧ ∀ x ∈ s.ledger, x.cmd ∈ coll) (fun _ _ => trivial)
    ⟨accountsOk_init, nofun⟩ ?_).2
  rintro s e s' - hslots ⟨hok, hmem⟩ hnext
  obtain ⟨hpc, hmove⟩ := panNext_cases hnext
  refine ⟨accountsOk_step hslots hok hpc.2 hmove, ?_⟩
  cases hmove.ledgerMove hslots hpc.2 with
  | same ledger attempts => rwa [ledger]
  | attempt c y ledger number attempts =>
      rw [ledger]
      refine List.forall_mem_append.mpr ⟨hmem, ?_⟩
      exact fun x hx => (number x (Option.mem_toList.mp hx)).2
  | reap y pc active ledger executed slot attempts =>
      obtain ⟨r, hr, hpos, hcmd⟩ := slot
      obtain ⟨c, -, hentry⟩ := (hok hpc.2).active r hr hpos
      rw [ledger]
      refine List.forall_mem_append.mpr ⟨hmem, List.forall_mem_singleton.mpr ?_⟩
      rw [hcmd]
      exact List.mem_of_getElem? hentry

theorem launch_not_left (hpc : s.pc = .launch) (h : s.launch o coll a = some s') :
    s'.pc.left = false := by
  rcases PanState.launch_inversion h with ⟨-, -, hpc'⟩ | ⟨i, c, colle, -, -, hrun⟩
  · rw [hpc']
    rfl
  · exact (call_cases hpc hrun).2.not_left

theorem checkPids_not_left (hinv : SlotInv o 0 s.toBooks) (hpc : s.pc = .check)
    (h : s.checkPids o a = some s') : s'.pc.left = false := by
  rcases checkPids_moves h with ⟨-, rfl⟩ | ⟨cpid, statLoc, hmem, hgone, hs'⟩
  · rfl
  · obtain ⟨i, -, -, -, -, hreaped⟩ := hinv.reaped hpc hmem hgone hs'
    exact hreaped.not_left

/-- The main loop is left from its end, with no child counted. -/
theorem left_entered (hslots : SlotsOk o s) (h : panNext o coll s e = some s')
    (hleft : s'.pc.left = true) : s.pc.left = true ∨ (s.numActive = 0 ∧ s.pc.pending = 0) := by
  cases e with
  | signal sig =>
      simp only [panNext, Option.ite_none_right_eq_some, Option.some.injEq] at h
      obtain ⟨-, rfl⟩ := h
      exact Or.inl hleft
  | output attempt text =>
      simp only [panNext, Option.ite_none_right_eq_some, Option.some.injEq] at h
      obtain ⟨-, rfl⟩ := h
      exact Or.inl hleft
  | step a =>
      simp only [panNext] at h
      cases hpc : s.pc with
      | launch =>
          simp only [hpc] at h
          rw [launch_not_left hpc h] at hleft
          cases hleft
      | check =>
          have hinv := hslots.2 (by rw [hpc]; rintro ⟨⟩)
          rw [hpc] at hinv
          simp only [hpc] at h
          rw [checkPids_not_left hinv hpc h] at hleft
          cases hleft
      | propagated =>
          simp only [hpc, Option.some.injEq] at h
          subst h
          cases hleft
      | ranChild | launched | testSignal | testUsr2 | testUsr1 =>
          simp only [hpc, Option.some.injEq, PanState.ranChild, PanState.launched,
            PanState.testSignal, PanState.testUsr2, PanState.testUsr1] at h
          subst h
          revert hleft
          split_ifs <;> simp [Pc.left]
      | propagate draining =>
          simp only [hpc, Option.some.injEq] at h
          subst h
          cases draining with
          | true => exact Or.inl rfl
          | false => cases hleft
      | propagateTo draining =>
          simp only [hpc, Option.some.injEq, PanState.propagateTo] at h
          subst h
          cases draining with
          | true => exact Or.inl rfl
          | false =>
              simp only [Bool.false_eq_true, if_false] at hleft
              revert hleft
              split_ifs <;> simp [Pc.left]
      | checked err =>
          simp only [hpc, Option.some.injEq] at h
          subst h
          exact Or.inr ⟨checked_left hleft, rfl⟩
      | drain => exact Or.inl rfl
      | finished | aborted => simp [hpc] at h

theorem PanMove.live_of_left (hslots : SlotsOk o s) (hpc : s.pc ≠ .aborted)
    (hmove : PanMove o coll s e s') (hleft : s'.pc.left = true) : s'.live = s.live := by
  have hslot := hslots.2 hpc
  cases hmove with
  | steer books rts abort pending pc => rw [books]
  | output attempt text event direct started eq => rw [eq]; rfl
  | mark i slot occupied books control rts pending pc => rw [books]; rfl
  | noSlot room pending slot => exact absurd slot (hslot.find_free pending room)
  | run a i c colle event pc slot entry control run =>
      rw [run.not_left] at hleft
      cases hleft
  | ran cpid pc eq => rw [eq]; rfl
  | reap a cpid statLoc event pc mem gone eq =>
      obtain ⟨i, -, -, -, -, hreaped⟩ := hslot.reaped pc mem gone eq
      rw [hreaped.not_left] at hleft
      cases hleft
  | checked err pc books rts abort pc' => rw [books]
  | finish a event pc eq => rw [eq]; rfl

/-- After the main loop there are no children. -/
theorem live_of_left (o : Options) (coll : List CollEntry) (evs : List Event)
    (hleft : (panRun o coll evs).pc.left = true) : (panRun o coll evs).live = [] := by
  refine panRun_invariant (P := fun _ => True) (fun s => s.pc.left = true → s.live = [])
    (fun _ _ => trivial) nofun ?_ hleft
  intro s e s' _ hslots hempty hnext hleft'
  obtain ⟨hpc, hmove⟩ := panNext_cases hnext
  rw [hmove.live_of_left hslots hpc.2 hleft']
  rcases left_entered hslots hnext hleft' with hleft | ⟨hactive, hpending⟩
  · exact hempty hleft
  · have hcount := (hslots.2 hpc.2).count
    rw [hactive, hpending] at hcount
    apply List.eq_nil_of_length_eq_zero
    omega

end Ends

end EDDTs.Pan
