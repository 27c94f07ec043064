import EDDTs.Pan.DriverSteps
import EDDTs.Library.SlotTable

/-!
# The slots of ltp-pan and their count

The process groups in `running` are the children that were forked and not yet
reaped, each in one slot, and `num_active` is their number, except for the
child that `run_child` has just returned and that is about to be counted.
-/

namespace EDDTs.Pan

open Library

open scoped List

/-- The child in a slot. -/
def Slot.child (slot : Slot) : Option Pid := if slot.pgrp = 0 then none else some slot.pgrp

theorem Slot.child_eq_some {slot : Slot} {pid : Pid} :
    slot.child = some pid ↔ slot.pgrp = pid ∧ pid ≠ 0 := by
  unfold Slot.child
  split
  next h =>
    simp only [h, reduceCtorEq, false_iff, not_and, not_not]
    exact fun he => he.symm
  next h =>
    simp only [Option.some.injEq]
    exact ⟨fun he => ⟨he, he ▸ h⟩, fun he => he.1⟩

/-- The slots, the children and their count. -/
structure SlotInv (o : Options) (pending : Nat) (b : Books) : Prop where
  length : b.running.length = o.keepActive
  live : items Slot.child b.running ~ b.live
  nodup : b.live.Nodup
  count : b.numActive + pending = b.live.length
  nonneg : 0 ≤ b.numActive

/-- The parts of the books that the slots are about. -/
def Books.slots (b : Books) : List Slot × List Pid × Int := (b.running, b.live, b.numActive)

namespace SlotInv

variable {o : Options} {pending : Nat} {b b' : Books} {i : Nat} {slot : Slot}

theorem congr (inv : SlotInv o pending b) (h : b'.slots = b.slots) : SlotInv o pending b' := by
  simp only [Books.slots, Prod.mk.injEq] at h
  obtain ⟨hrunning, hlive, hactive⟩ := h
  exact ⟨hrunning ▸ inv.length, hrunning ▸ hlive ▸ inv.live, hlive ▸ inv.nodup,
    hactive ▸ hlive ▸ inv.count, hactive ▸ inv.nonneg⟩

/-- Writing to a slot without changing its child. -/
theorem setSlot_same (inv : SlotInv o pending b) {old : Slot} (hi : b.running[i]? = some old)
    (hchild : slot.child = old.child) : SlotInv o pending (b.setSlot i slot) where
  length := by simpa [Books.setSlot] using inv.length
  live := by
    simp only [Books.setSlot]
    rw [items_set_same Slot.child hi hchild]
    exact inv.live
  nodup := inv.nodup
  count := inv.count
  nonneg := inv.nonneg

/-- A new child in a free slot, not counted yet. -/
theorem start (inv : SlotInv o 0 b) {old : Slot} (hi : b.running[i]? = some old)
    (hfree : old.child = none) {pid : Pid} (hslot : slot.child = some pid)
    (hfresh : pid ∉ b.live) :
    SlotInv o 1 { b.setSlot i slot with live := b.live ++ [pid] } where
  length := by simpa [Books.setSlot] using inv.length
  live := by
    calc
      items Slot.child (b.running.set i slot)
        ~ pid :: items Slot.child b.running := items_set_fill Slot.child hi hfree hslot
      _ ~ pid :: b.live := inv.live.cons pid
      _ ~ b.live ++ [pid] := (List.perm_append_singleton pid b.live).symm
  nodup := by
    refine List.nodup_append.mpr ⟨inv.nodup, by simp, ?_⟩
    rintro x hx y hy rfl
    exact hfresh (List.mem_singleton.mp hy ▸ hx)
  count := by
    have hcount := inv.count
    simp only [Books.setSlot, List.length_append, List.length_singleton]
    omega
  nonneg := inv.nonneg

/-- The slot of a reaped child is freed. -/
theorem reap (inv : SlotInv o 0 b) {old : Slot} (hi : b.running[i]? = some old) {cpid : Pid}
    (hold : old.child = some cpid) (hfree : slot.child = none) :
    SlotInv o 0 { b.setSlot i slot with
      live := b.live.erase cpid, numActive := b.numActive - 1 } := by
  have hexchange := (items_set_empty Slot.child hi hold hfree).trans inv.live
  obtain ⟨hmem, hlive⟩ := List.cons_perm_iff_perm_erase.mp hexchange
  have hlength := List.length_erase_of_mem hmem
  have hpos := List.length_pos_of_mem hmem
  have hcount := inv.count
  exact ⟨by simpa [Books.setSlot] using inv.length, hlive, inv.nodup.erase cpid,
    by simp only [hlength]; omega, by simp only; omega⟩

/-- The slot of a child that is not reaped. -/
theorem find_child (inv : SlotInv o pending b) {cpid : Pid} (hmem : cpid ∈ b.live) :
    ∃ i, b.running.findIdx? (fun r => r.pgrp = cpid) = some i ∧ cpid ≠ 0 := by
  obtain ⟨slot, hslot, hchild⟩ := List.mem_filterMap.mp (inv.live.mem_iff.mpr hmem)
  obtain ⟨hpgrp, hpos⟩ := Slot.child_eq_some.mp hchild
  cases hfind : b.running.findIdx? fun r => r.pgrp = cpid with
  | some i => exact ⟨i, rfl, hpos⟩
  | none =>
      have hnot := List.findIdx?_eq_none_iff.mp hfind slot hslot
      simp [hpgrp] at hnot

/-- With room for another child there is a free slot. -/
theorem find_free {p : Nat} (inv : SlotInv o p b) (hp : p = 0)
    (hroom : b.numActive < o.keepActive) : b.running.findIdx? (fun r => r.pgrp = 0) ≠ none := by
  intro hnone
  have hfull : ∀ slot ∈ b.running, Slot.child slot ≠ none := by
    intro slot hslot
    have hne := List.findIdx?_eq_none_iff.mp hnone slot hslot
    simp_all [Slot.child]
  have hitems := length_items_of_full Slot.child hfull
  have hlive := inv.live.length_eq
  have hcount := inv.count
  have hlength := inv.length
  omega

end SlotInv

theorem getElem?_eq_getD {running : List Slot} {i : Nat} (h : i < running.length) :
    running[i]? = some (running.getD i {}) := by
  simp [List.getD_eq_getElem?_getD, List.getElem?_eq_getElem h]

/-- The slot that `findIdx?` finds. -/
theorem getElem?_of_findIdx? {running : List Slot} {p : Slot → Bool} {i : Nat}
    (h : running.findIdx? p = some i) :
    running[i]? = some (running.getD i {}) ∧ p (running.getD i {}) = true := by
  obtain ⟨hlt, hp, -⟩ := List.findIdx?_eq_some_iff_getElem.mp h
  refine ⟨getElem?_eq_getD hlt, ?_⟩
  simpa [List.getD_eq_getElem?_getD, List.getElem?_eq_getElem hlt] using hp

section Steps

variable {o : Options} {coll : List CollEntry} {s s' : PanState}

theorem slotInv_childRun {colle : CollEntry} {i attempt : Nat} {a : Answer}
    (inv : SlotInv o 0 s.toBooks) (hi : s.running.findIdx? (fun r => r.pgrp = 0) = some i)
    (hrun : ChildRun o colle i attempt a (s.attemptSlot i a.now colle attempt) s s')
    (hpc : s'.pc ≠ .aborted) : SlotInv o s'.pc.pending s'.toBooks := by
  obtain ⟨hget, hfree⟩ := getElem?_of_findIdx? hi
  have hfree' : (s.running.getD i {}).child = none := if_pos (by simpa using hfree)
  have hentered : SlotInv o 0 (s.toBooks.setSlot i (s.attemptSlot i a.now colle attempt)) :=
    inv.setSlot_same hget rfl
  cases hrun with
  | refused why b entered start books pc =>
      rw [pc, books]
      rcases entered with rfl | rfl
      · exact inv.congr rfl
      · exact hentered.congr rfl
  | aborted cause books pc => exact absurd pc hpc
  | failed errbuf status endTime start gone books pc rts =>
      rw [pc, books, Books.failedStart_eq]
      exact hentered.congr rfl
  | started pid start pos fresh books pc rts =>
      have hzoo : a.zooOk = true := by
        by_contra hz
        rw [if_neg hz] at pc
        exact hpc pc
      rw [pc, books, if_pos hzoo]
      exact inv.start hget hfree' (Slot.child_eq_some.mpr ⟨rfl, pos⟩) fresh

/-- A child that `wait` returns is found in its slot. -/
theorem SlotInv.reaped {cpid : Pid} {statLoc : Nat} {a : Answer}
    {p : Nat} (inv : SlotInv o p s.toBooks) (hpc : s.pc = .check) (hmem : cpid ∈ s.live)
    (hgone : terminated statLoc = true)
    (hs' : s' = (s.waited a.emptied cpid).reapChild o cpid statLoc a) :
    ∃ i, s.running[i]? = some (s.running.getD i {}) ∧ (s.running.getD i {}).pgrp = cpid ∧
      cpid ≠ 0 ∧ s'.toControl = { s.toControl with waitHit := false } ∧
      ChildReaped o statLoc a i (s.running.getD i {}) (s.waited a.emptied cpid) s' := by
  obtain ⟨i, hi, hpos⟩ := inv.find_child hmem
  obtain ⟨hget, hpgrp⟩ := getElem?_of_findIdx? hi
  have hpc' : (s.waited a.emptied cpid).pc ≠ .aborted := by
    simp [PanState.waited, PanState.checkOrphans, hpc]
  obtain ⟨hcontrol, hreaped⟩ := PanState.reapChild_cases (o := o) (a := a) hpc' hgone hi
  subst hs'
  exact ⟨i, hget, by simpa using hpgrp, hpos, hcontrol, hreaped⟩

theorem slotInv_reaped {cpid : Pid} {statLoc i : Nat} {a : Answer}
    (inv : SlotInv o 0 s.toBooks) (hget : s.running[i]? = some (s.running.getD i {}))
    (hpgrp : (s.running.getD i {}).pgrp = cpid) (hpos : cpid ≠ 0)
    (hreaped : ChildReaped o statLoc a i (s.running.getD i {}) (s.waited a.emptied cpid) s')
    (hpc' : s'.pc ≠ .aborted) : SlotInv o s'.pc.pending s'.toBooks := by
  cases hreaped with
  | aborted cause books pc => exact absurd pc hpc'
  | checked books pc rts =>
      rw [pc, books, Books.noteChild_eq]
      have hfree : Slot.child { s.running.getD i {} with pgrp := 0 } = none := rfl
      exact (inv.reap hget (Slot.child_eq_some.mpr ⟨hpgrp, hpos⟩) hfree).congr rfl

/-- What holds of the slots in every state before the program exits with an error. -/
def SlotsOk (o : Options) (s : PanState) : Prop :=
  s.slotAbort = false ∧ (s.pc ≠ .aborted → SlotInv o s.pc.pending s.toBooks)

theorem slotsOk_step {e : Event} (hok : SlotsOk o s) (hpc : s.pc ≠ .aborted)
    (hmove : PanMove o coll s e s') : SlotsOk o s' := by
  obtain ⟨habort, hinv⟩ := hok
  have inv := hinv hpc
  cases hmove with
  | steer books rts abort pending pc =>
      refine ⟨abort.trans habort, fun _ => ?_⟩
      rw [books, pending]
      exact inv
  | output attempt text event direct started eq =>
      subst eq
      exact ⟨habort, fun _ => inv⟩
  | mark i slot occupied books control rts pending pc =>
      refine ⟨by rw [control]; exact habort, fun _ => ?_⟩
      have hlt : i < s.running.length := by rw [inv.length]; exact slot
      rw [books, pending.2]
      rw [pending.1] at inv
      exact inv.setSlot_same (getElem?_eq_getD hlt) rfl
  | noSlot room pending slot => exact absurd slot (inv.find_free pending room)
  | run a i c colle event pc slot entry control run =>
      rw [pc] at inv
      have hchosen : SlotInv o 0 (s.choose c).toBooks := inv.congr rfl
      exact ⟨by rw [control]; exact habort, slotInv_childRun hchosen slot run⟩
  | ran cpid pc eq =>
      subst eq
      refine ⟨habort, fun _ => ?_⟩
      rw [pc] at inv
      have hcount := inv.count
      have hnonneg := inv.nonneg
      refine ⟨inv.length, inv.live, inv.nodup, ?_, ?_⟩
      · cases cpid <;> simpa [PanState.ranChild, Pc.pending] using hcount
      · cases cpid <;> simp [PanState.ranChild] <;> omega
  | reap a cpid statLoc event pc mem gone eq =>
      rw [pc] at inv
      obtain ⟨i, hget, hpgrp, hpos, hcontrol, hreaped⟩ := inv.reaped pc mem gone eq
      exact ⟨by rw [hcontrol]; exact habort, slotInv_reaped inv hget hpgrp hpos hreaped⟩
  | checked err pc books rts abort pc' =>
      rw [pc] at inv
      refine ⟨abort.trans habort, fun _ => ?_⟩
      rw [books]
      rcases pc' with pc' | pc' <;> rw [pc'] <;> exact inv.congr rfl
  | finish a event pc eq =>
      subst eq
      rw [pc] at inv
      exact ⟨habort, fun _ => inv.congr rfl⟩

theorem slotsOk_init : SlotsOk o (PanState.init o coll) := by
  refine ⟨rfl, fun _ => ⟨by simp [PanState.init], ?_, List.nodup_nil, rfl, Int.le_refl 0⟩⟩
  simp [PanState.init, items, Slot.child]

theorem slotsOk_panRun (o : Options) (coll : List CollEntry) (evs : List Event) :
    SlotsOk o (panRun o coll evs) :=
  panRun_induction (P := fun _ => True) (SlotsOk o) (fun _ _ => trivial) slotsOk_init
    fun _ _ _ _ hok h => slotsOk_step hok (panNext_cases h).1.2 (panNext_cases h).2

/-- The rule for runs, with the table in every state. -/
theorem panRun_invariant {coll : List CollEntry} (Inv : PanState → Prop) {P : Event → Prop}
    {evs : List Event} (hevs : ∀ e ∈ evs, P e) (hinit : Inv (PanState.init o coll))
    (hstep : ∀ s e s', P e → SlotsOk o s → Inv s → panNext o coll s e = some s' → Inv s') :
    Inv (panRun o coll evs) := by
  refine (panRun_induction (fun s => SlotsOk o s ∧ Inv s) hevs ⟨slotsOk_init, hinit⟩ ?_).2
  intro s e s' he hok h
  exact ⟨slotsOk_step hok.1 (panNext_cases h).1.2 (panNext_cases h).2,
    hstep s e s' he hok.1 hok.2 h⟩

end Steps

/-- Without children no slot is occupied. -/
theorem SlotInv.free_of_live {o : Options} {pending : Nat} {b : Books}
    (inv : SlotInv o pending b) (hlive : b.live = []) {slot : Slot}
    (hslot : slot ∈ b.running) : slot.pgrp = 0 := by
  have hchildren : items Slot.child b.running = [] := (hlive ▸ inv.live).eq_nil
  have hchild := List.filterMap_eq_nil_iff.mp hchildren slot hslot
  by_contra hpos
  rw [Slot.child, if_neg hpos] at hchild
  cases hchild

theorem items_child_eq (running : List Slot) :
    items Slot.child running = (running.map Slot.pgrp).filter (· ≠ 0) := by
  induction running with
  | nil => rfl
  | cons slot running ih =>
      rw [items_cons, ih]
      by_cases hfree : slot.pgrp = 0 <;> simp [Slot.child, hfree]

theorem length_items_child (running : List Slot) :
    (items Slot.child running).length = running.countP fun r => r.pgrp ≠ 0 := by
  rw [items_child_eq, ← List.countP_eq_length_filter, List.countP_map]
  rfl

/-- The points of the main loop; `run_child` and `check_pids` have no points in
between. -/
def Pc.inMainLoop : Pc → Bool
  | .drain | .finished | .aborted => false
  | .propagate draining | .propagateTo draining _ => !draining
  | _ => true

/-- In every state of every run, `num_active` is the number of occupied slots,
short by one exactly where `run_child` has returned a child that is not counted
yet; the process groups in the slots are distinct, and the search for a slot
never fails. -/
theorem slotTable_consistent (o : Options) (coll : List CollEntry) (evs : List Event) :
    let s := panRun o coll evs
    s.slotAbort = false ∧
    (s.pc ≠ .aborted →
      s.running.length = o.keepActive ∧
      s.numActive + s.pc.pending = (s.running.countP fun r => r.pgrp ≠ 0) ∧
      ((s.running.map Slot.pgrp).filter (· ≠ 0)).Nodup ∧
      0 ≤ s.numActive ∧ s.numActive ≤ o.keepActive) := by
  intro s
  obtain ⟨habort, hinv⟩ := slotsOk_panRun o coll evs
  refine ⟨habort, fun hpc => ?_⟩
  have inv := hinv hpc
  have hlength := inv.live.length_eq
  have hle := length_items_le Slot.child s.running
  have hcount : s.numActive + s.pc.pending = s.live.length := inv.count
  refine ⟨inv.length, ?_, ?_, inv.nonneg, ?_⟩
  · rw [← length_items_child, hlength]
    exact hcount
  · rw [← items_child_eq]
    exact inv.live.nodup_iff.mpr inv.nodup
  · have hkeep : s.running.length = o.keepActive := inv.length
    have hlength' : (items Slot.child s.running).length = s.live.length := hlength
    omega

/-- Right after `run_child` has returned a pid, the count is one behind. -/
theorem slotTable_count_behind :
    ¬ ∀ (o : Options) (coll : List CollEntry) (evs : List Event), 1 ≤ o.keepActive →
      (panRun o coll evs).pc.inMainLoop = true →
      (panRun o coll evs).numActive = ((panRun o coll evs).running.countP fun r => r.pgrp ≠ 0) := by
  intro h
  have hone := h {} [⟨txt "t", txt "true", false⟩] [.step { start := .started 7 }]
    (by decide) (by decide)
  exact absurd hone (by decide)

/-- The program exits with an error only after the kernel log or the active file
failed it, if no buffer is overrun. -/
theorem aborted_cause (o : Options) (coll : List CollEntry) (evs : List Event)
    (hfits : ∀ e ∈ evs, e.fits o coll = true) (habort : (panRun o coll evs).pc = .aborted) :
    ∃ a, .step a ∈ evs ∧ (a.kmsgOk = false ∨ a.zooOk = false ∨ a.zooMarkOk = false) := by
  refine panRun_invariant (P := (· ∈ evs)) (fun s => s.pc = .aborted →
    ∃ a, .step a ∈ evs ∧ (a.kmsgOk = false ∨ a.zooOk = false ∨ a.zooMarkOk = false))
    (fun _ he => he) nofun ?_ habort
  intro s e s' he hok _ hnext habort'
  obtain ⟨hpc, hmove⟩ := panNext_cases hnext
  have hinv := hok.2 hpc.2
  cases hmove with
  | steer books rts abort pending pc => exact absurd habort' pc.2
  | output attempt text event direct started eq =>
      subst eq
      exact absurd habort' hpc.2
  | mark i slot occupied books control rts pending pc => exact absurd habort' pc.2
  | noSlot room pending slot => exact absurd slot (hinv.find_free pending room)
  | run a i c colle event pc slot entry control run =>
      refine ⟨a, event ▸ he, ?_⟩
      cases run with
      | refused why b entered start books pc => simp [pc] at habort'
      | aborted cause books pc =>
          obtain ⟨hname, hreport⟩ :=
            Answer.fits_spec (hfits (.step a) (event ▸ he)) (List.mem_of_getElem? entry)
          simp only [hreport, hname, Bool.false_eq_true, or_false] at cause
          exact Or.inl cause
      | failed errbuf status endTime start gone books pc rts => simp [pc] at habort'
      | started pid start pos fresh books pc rts =>
          refine Or.inr (Or.inl ?_)
          by_contra hzoo
          simp [pc, hzoo] at habort'
  | ran cpid pc eq => simp [eq, PanState.ranChild] at habort'
  | reap a cpid statLoc event pc mem gone eq =>
      obtain ⟨i, -, -, -, -, hreaped⟩ := hinv.reaped pc mem gone eq
      refine ⟨a, event ▸ he, ?_⟩
      cases hreaped with
      | aborted cause books pc => exact cause
      | checked books pc rts => simp [pc] at habort'
  | checked err pc books rts abort pc' => rcases pc' with pc' | pc' <;> simp [pc'] at habort'
  | finish a event pc eq => simp [eq, PanState.finish] at habort'

end EDDTs.Pan
