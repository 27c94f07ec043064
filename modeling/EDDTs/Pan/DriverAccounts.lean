import EDDTs.Pan.DriverLedger

/-!
# The attempts of ltp-pan

Every attempt is accounted for once: it has ended and is in the ledger, or its
child is in a slot. Both name the command that the attempt was made for.
-/

namespace EDDTs.Pan

open Library

open scoped List

/-- The attempt in a slot. -/
def Slot.number (slot : Slot) : Option Nat := if slot.pgrp = 0 then none else some slot.attempt

/-- The attempt was made for the command. -/
def AttemptOf (coll : List CollEntry) (attempts : List Nat) (attempt : Nat) (cmd : CollEntry) :
    Prop :=
  ∃ c, attempts[attempt]? = some c ∧ coll[c]? = some cmd

/-- Every attempt is in the ledger or in a slot, once. -/
structure AccountInv (coll : List CollEntry) (b : Books) : Prop where
  numbers : b.ledger.map Outcome.attempt ++ items Slot.number b.running ~
    List.range b.attempts.length
  ended : ∀ e ∈ b.ledger, AttemptOf coll b.attempts e.attempt e.cmd
  active : ∀ slot ∈ b.running, slot.pgrp ≠ 0 → AttemptOf coll b.attempts slot.attempt slot.cmd

variable {coll : List CollEntry}

theorem AttemptOf.snoc {attempts : List Nat} {attempt : Nat} {cmd : CollEntry}
    (h : AttemptOf coll attempts attempt cmd) (c : Nat) :
    AttemptOf coll (attempts ++ [c]) attempt cmd := by
  obtain ⟨d, hd, hcmd⟩ := h
  exact ⟨d, List.getElem?_append_left (List.getElem?_eq_some_iff.mp hd).1 ▸ hd, hcmd⟩

theorem AttemptOf.last (attempts : List Nat) {c : Nat} {cmd : CollEntry} (h : coll[c]? = some cmd) :
    AttemptOf coll (attempts ++ [c]) attempts.length cmd :=
  ⟨c, by simp, h⟩

namespace AccountInv

variable {coll : List CollEntry} {b b' : Books} (inv : AccountInv coll b)

include inv

theorem congr (hledger : b'.ledger = b.ledger) (hrunning : b'.running = b.running)
    (hattempts : b'.attempts = b.attempts) : AccountInv coll b' := by
  constructor
  · rw [hledger, hrunning, hattempts]
    exact inv.numbers
  · rw [hledger, hattempts]
    exact inv.ended
  · rw [hrunning, hattempts]
    exact inv.active

/-- What a slot without a child holds does not matter. -/
theorem setSlot_free {i : Nat} {old slot : Slot} (hi : b.running[i]? = some old)
    (hold : old.pgrp = 0) (hslot : slot.pgrp = 0) :
    AccountInv coll (b.setSlot i slot) where
  numbers := by
    have hnumber : slot.number = old.number := by simp [Slot.number, hold, hslot]
    simp only [Books.setSlot]
    rw [items_set_same Slot.number hi hnumber]
    exact inv.numbers
  ended := inv.ended
  active := by
    intro r hr hpgrp
    rcases List.mem_or_eq_of_mem_set hr with hmem | rfl
    · exact inv.active r hmem hpgrp
    · exact absurd hslot hpgrp

/-- The next attempt is in the ledger or in a slot. -/
theorem numbers_next {c : Nat} (hattempts : b'.attempts = b.attempts ++ [c]) {numbers : List Nat}
    (h : numbers ~ b.attempts.length ::
      (b.ledger.map Outcome.attempt ++ items Slot.number b.running)) :
    numbers ~ List.range b'.attempts.length := by
  rw [hattempts, List.length_append, List.length_singleton, List.range_succ]
  exact h.trans ((List.perm_append_singleton ..).symm.trans (inv.numbers.append_right _))

/-- An attempt that ends without a child in a slot. -/
theorem attempted {c : Nat} {e : Outcome} (hnumber : e.attempt = b.attempts.length)
    (hcmd : coll[c]? = some e.cmd) (hledger : b'.ledger = b.ledger ++ [e])
    (hrunning : b'.running = b.running) (hattempts : b'.attempts = b.attempts ++ [c]) :
    AccountInv coll b' where
  numbers := by
    rw [hledger, hrunning, List.map_append, List.map_singleton, List.append_assoc, hnumber]
    exact inv.numbers_next hattempts List.perm_middle
  ended := by
    rw [hledger, hattempts]
    refine List.forall_mem_append.mpr ⟨fun x hx => (inv.ended x hx).snoc c,
      List.forall_mem_singleton.mpr ?_⟩
    rw [hnumber]
    exact .last b.attempts hcmd
  active := by
    rw [hrunning, hattempts]
    exact fun r hr hpgrp => (inv.active r hr hpgrp).snoc c

/-- An attempt whose child is put into a free slot. -/
theorem started {c i : Nat} {old : Slot} (slot : Slot) (hi : b.running[i]? = some old)
    (hold : old.pgrp = 0) (hslot : slot.pgrp ≠ 0) (hnumber : slot.attempt = b.attempts.length)
    (hcmd : coll[c]? = some slot.cmd) (hledger : b'.ledger = b.ledger)
    (hrunning : b'.running = b.running.set i slot) (hattempts : b'.attempts = b.attempts ++ [c]) :
    AccountInv coll b' where
  numbers := by
    have hfill : items Slot.number (b.running.set i slot) ~
        b.attempts.length :: items Slot.number b.running :=
      items_set_fill Slot.number hi (if_pos hold) (by rw [Slot.number, if_neg hslot, hnumber])
    rw [hledger, hrunning]
    exact inv.numbers_next hattempts ((hfill.append_left _).trans List.perm_middle)
  ended := by
    rw [hledger, hattempts]
    exact fun x hx => (inv.ended x hx).snoc c
  active := by
    rw [hrunning, hattempts]
    intro r hr hpgrp
    rcases List.mem_or_eq_of_mem_set hr with hmem | rfl
    · exact (inv.active r hmem hpgrp).snoc c
    · rw [hnumber]
      exact .last b.attempts hcmd

/-- The attempt of a reaped child moves from its slot to the ledger. -/
theorem reaped {i : Nat} {slot : Slot} {e : Outcome} (hi : b.running[i]? = some slot)
    (hslot : slot.pgrp ≠ 0) (hnumber : e.attempt = slot.attempt) (hcmd : e.cmd = slot.cmd)
    (hledger : b'.ledger = b.ledger ++ [e])
    (hrunning : b'.running = b.running.set i { slot with pgrp := 0 })
    (hattempts : b'.attempts = b.attempts) : AccountInv coll b' where
  numbers := by
    have hempty : slot.attempt :: items Slot.number (b.running.set i { slot with pgrp := 0 }) ~
        items Slot.number b.running :=
      items_set_empty Slot.number hi (if_neg hslot) rfl
    rw [hledger, hrunning, hattempts, List.map_append, List.map_singleton, List.append_assoc,
      hnumber]
    exact (hempty.append_left _).trans inv.numbers
  ended := by
    rw [hledger, hattempts]
    refine List.forall_mem_append.mpr ⟨inv.ended, List.forall_mem_singleton.mpr ?_⟩
    rw [hnumber, hcmd]
    exact inv.active slot (List.mem_of_getElem? hi) hslot
  active := by
    rw [hrunning, hattempts]
    intro r hr hpgrp
    rcases List.mem_or_eq_of_mem_set hr with hmem | rfl
    · exact inv.active r hmem hpgrp
    · exact absurd rfl hpgrp

end AccountInv

/-- A child was forked for the attempt. -/
def Outcome.forked (e : Outcome) : Bool :=
  match e.ending with
  | .refused _ => false
  | _ => true

/-- The command of the attempt was executed. -/
def Outcome.executed (e : Outcome) : Bool :=
  match e.ending with
  | .reaped .. => true
  | _ => false

section Ends

variable {o : Options} {s s' : PanState} {a : Answer} {slot : Slot} {colle : CollEntry}

/-- The ledger, the attempts and the children after a child has been started or not. -/
theorem ChildRun.ledger {i attempt : Nat} (hrun : ChildRun o colle i attempt a slot s s') :
    s'.exitStat = s.exitStat ∧ s'.attempts = s.attempts ∧
      s'.live.length ≤ s.live.length + 1 ∧ (s'.ledger = s.ledger ∨
        ∃ x, s'.ledger = s.ledger ++ [x] ∧ x.executed = false ∧ (x.forked = true ∨
          a.start = .openFails ∨ a.start = .pipeFails ∨ a.start = .forkFails)) := by
  cases hrun with
  | refused why b entered start books pc =>
      rw [books]
      rcases entered with rfl | rfl <;>
        exact ⟨rfl, rfl, Nat.le_succ _, Or.inr ⟨_, rfl, rfl, Or.inr start⟩⟩
  | aborted cause books pc =>
      rw [books]
      exact ⟨rfl, rfl, Nat.le_succ _, Or.inl rfl⟩
  | failed errbuf status endTime start gone books pc rts =>
      rw [books, Books.failedStart_eq]
      exact ⟨rfl, rfl, Nat.le_succ _, Or.inr ⟨_, rfl, rfl, Or.inl rfl⟩⟩
  | started pid start pos fresh books pc rts =>
      rw [books]
      exact ⟨rfl, rfl, by simp, Or.inl rfl⟩

theorem ChildReaped.ledger {statLoc i : Nat} (h : ChildReaped o statLoc a i slot s s') :
    s'.ledger = s.ledger ++ [childOutcome o slot statLoc a] ∧ s'.attempts = s.attempts ∧
      s'.exitStat = s.exitStat ∧ s'.numActive = s.numActive - 1 := by
  cases h with
  | aborted cause books pc =>
      rcases books with books | books <;> rw [books, Books.noteChild_eq] <;>
        exact ⟨rfl, rfl, rfl, rfl⟩
  | checked books pc rts =>
      rw [books, Books.noteChild_eq]
      exact ⟨rfl, rfl, rfl, rfl⟩

/-- The slots and the children after a child has been reaped. -/
theorem ChildReaped.slots {statLoc i : Nat} (h : ChildReaped o statLoc a i slot s s')
    (hpc : s'.pc ≠ .aborted) :
    s'.pc = .checked (childRet statLoc slot.stopping) ∧
      s'.running = s.running.set i { slot with pgrp := 0 } ∧ s'.live = s.live := by
  cases h with
  | aborted cause books pc => exact absurd pc hpc
  | checked books pc rts =>
      rw [books, Books.noteChild_eq]
      exact ⟨pc, rfl, rfl⟩

end Ends

section Steps

variable {o : Options} {coll : List CollEntry} {s s' : PanState}

theorem accountInv_childRun {colle : CollEntry} {i c : Nat} {a : Answer}
    (inv : AccountInv coll s.toBooks) (hi : s.running.findIdx? (fun r => r.pgrp = 0) = some i)
    (hentry : coll[c]? = some colle)
    (hrun : ChildRun o colle i s.attempts.length a
      ((s.choose c).attemptSlot i a.now colle s.attempts.length) (s.choose c) s')
    (hpc : s'.pc ≠ .aborted) : AccountInv coll s'.toBooks := by
  obtain ⟨hget, hfree⟩ := getElem?_of_findIdx? hi
  have hfree' : (s.running.getD i {}).pgrp = 0 := by simpa using hfree
  generalize hslot : (s.choose c).attemptSlot i a.now colle s.attempts.length = slot at hrun
  have hslotfree : slot.pgrp = 0 := by rw [← hslot]; exact hfree'
  have hnumber : slot.attempt = s.attempts.length := by rw [← hslot]; rfl
  have hcmd : slot.cmd = colle := by rw [← hslot]; rfl
  have hentered := inv.setSlot_free hget hfree' hslotfree
  cases hrun with
  | refused why b entered start books pc =>
      rcases entered with rfl | rfl
      · exact inv.attempted (e := ⟨s.attempts.length, colle, a.now, a.now, .refused why⟩) rfl
          hentry (by rw [books]; rfl) (by rw [books]; rfl) (by rw [books]; rfl)
      · exact hentered.attempted (e := ⟨s.attempts.length, colle, a.now, a.now, .refused why⟩) rfl
          hentry (by rw [books]; rfl) (by rw [books]; rfl) (by rw [books]; rfl)
  | aborted cause books pc => exact absurd pc hpc
  | failed errbuf status endTime start gone books pc rts =>
      rw [Books.failedStart_eq] at books
      exact hentered.attempted
        (e := ⟨slot.attempt, slot.cmd, slot.mystime, endTime, .execFailed errbuf status⟩) hnumber
        (by rw [hcmd]; exact hentry) (by rw [books]; rfl) (by rw [books]; rfl) (by rw [books]; rfl)
  | started pid start pos fresh books pc rts =>
      exact inv.started { slot with pgrp := pid, stopping := false } hget hfree' pos hnumber
        (by rw [hcmd]; exact hentry) (by rw [books]; rfl) (by rw [books]; rfl) (by rw [books]; rfl)

theorem accountInv_reaped {cpid : Pid} {statLoc i : Nat} {a : Answer}
    (inv : AccountInv coll s.toBooks) (hget : s.running[i]? = some (s.running.getD i {}))
    (hpos : (s.running.getD i {}).pgrp ≠ 0)
    (hreaped : ChildReaped o statLoc a i (s.running.getD i {}) (s.waited a.emptied cpid) s')
    (hpc' : s'.pc ≠ .aborted) : AccountInv coll s'.toBooks := by
  cases hreaped with
  | aborted cause books pc => exact absurd pc hpc'
  | checked books pc rts =>
      rw [Books.noteChild_eq] at books
      exact inv.reaped (e := childOutcome o (s.running.getD i {}) statLoc a) hget hpos rfl rfl
        (by rw [books]; rfl) (by rw [books]; rfl) (by rw [books]; rfl)

/-- What holds of the attempts before the program exits with an error. -/
def AccountsOk (coll : List CollEntry) (s : PanState) : Prop :=
  s.pc ≠ .aborted → AccountInv coll s.toBooks

theorem accountsOk_step {e : Event} (hslots : SlotsOk o s) (hok : AccountsOk coll s)
    (hpc : s.pc ≠ .aborted) (hmove : PanMove o coll s e s') : AccountsOk coll s' := by
  have inv := hok hpc
  have hslot := hslots.2 hpc
  cases hmove with
  | steer books rts abort pending pc => exact fun _ => books ▸ inv
  | output attempt text event direct started eq =>
      subst eq
      exact fun _ => inv
  | mark i slot occupied books control rts pending pc =>
      intro _
      have hget := getElem?_eq_getD (hslot.length ▸ slot : i < s.running.length)
      rw [books]
      refine ⟨?_, inv.ended, ?_⟩
      · have hsame := items_set_same Slot.number hget
          (show Slot.number { s.running.getD i {} with stopping := true } = _ from rfl)
        simp only [Books.setSlot, hsame]
        exact inv.numbers
      · intro r hr hpgrp
        rcases List.mem_or_eq_of_mem_set hr with hmem | rfl
        · exact inv.active r hmem hpgrp
        · exact inv.active (s.running.getD i {}) (List.mem_of_getElem? hget) hpgrp
  | noSlot room pending slot => exact absurd slot (hslot.find_free pending room)
  | run a i c colle event pc slot entry control run =>
      exact accountInv_childRun inv slot entry run
  | ran cpid pc eq =>
      subst eq
      exact fun _ => inv.congr rfl rfl rfl
  | reap a cpid statLoc event pc mem gone eq =>
      obtain ⟨i, hget, hpgrp, hpos, -, hreaped⟩ := hslot.reaped pc mem gone eq
      exact accountInv_reaped inv hget (hpgrp ▸ hpos) hreaped
  | checked err pc books rts abort pc' =>
      intro _
      rw [books]
      exact inv.congr rfl rfl rfl
  | finish a event pc eq =>
      subst eq
      exact fun _ => inv.congr rfl rfl rfl

theorem accountsOk_init : AccountsOk coll (PanState.init o coll) := by
  intro _
  refine ⟨?_, nofun, ?_⟩
  · simp [PanState.init, items, Slot.number]
  · intro slot hslot hpgrp
    obtain ⟨-, rfl⟩ := List.mem_replicate.mp hslot
    exact absurd rfl hpgrp

theorem accountsOk_panRun (o : Options) (coll : List CollEntry) (evs : List Event) :
    AccountsOk coll (panRun o coll evs) := by
  refine panRun_invariant (P := fun _ => True) _ (fun _ _ => trivial) accountsOk_init ?_
  intro s e s' _ hslots hok h
  exact accountsOk_step hslots hok (panNext_cases h).1.2 (panNext_cases h).2

end Steps

/-- Without children every attempt has ended. -/
theorem AccountInv.all_ended {o : Options} {pending : Nat} {b : Books} (inv : AccountInv coll b)
    (hslots : SlotInv o pending b) (hlive : b.live = []) :
    b.ledger.map Outcome.attempt ~ List.range b.attempts.length := by
  have hnumbers : items Slot.number b.running = [] :=
    List.filterMap_eq_nil_iff.mpr fun slot hslot => if_pos (hslots.free_of_live hlive hslot)
  simpa [hnumbers] using inv.numbers

end EDDTs.Pan
