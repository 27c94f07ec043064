import EDDTs.Pan.DriverSlots

/-!
# The ledger of ltp-pan

The log, the command files and their counters are functions of the ledger: of
how the attempts ended, in the order of their ends. And the attempts that have
not ended are those in the slots.
-/

namespace EDDTs.Pan

open Library

open scoped List

/-- The log and the command files as functions of the ledger. -/
structure LedgerInv (o : Options) (b : Books) : Prop where
  log : b.log = b.ledger.flatMap (Outcome.logLines o)
  failcnt : b.failcnt =
    if o.logfile && o.fmtPrint then (b.ledger.countP fun e => e.verdict = some .fail : Nat) else 0
  tconfcnt : b.tconfcnt =
    if o.logfile && o.fmtPrint then (b.ledger.countP fun e => e.verdict = some .conf : Nat) else 0
  failCmds : b.failCmds = b.ledger.filterMap (Outcome.failCmd o)
  tconfCmds : b.tconfCmds = b.ledger.filterMap (Outcome.tconfCmd o)

namespace LedgerInv

variable {o : Options} {b : Books} {slot : Slot} (inv : LedgerInv o b)

include inv

theorem setSlot (i : Nat) (slot : Slot) : LedgerInv o (b.setSlot i slot) :=
  ⟨inv.log, inv.failcnt, inv.tconfcnt, inv.failCmds, inv.tconfCmds⟩

theorem account (e : Outcome) : LedgerInv o (b.account o e) where
  log := by simp [Books.account, inv.log]
  failcnt := by
    simp only [Books.account, inv.failcnt]
    by_cases hv : e.verdict = some .fail <;> cases o.logfile && o.fmtPrint <;> simp [hv]
  tconfcnt := by
    simp only [Books.account, inv.tconfcnt]
    by_cases hv : e.verdict = some .conf <;> cases o.logfile && o.fmtPrint <;> simp [hv]
  failCmds := by
    simp only [Books.account, inv.failCmds, List.filterMap_append]
    cases h : e.failCmd o <;> simp [h]
  tconfCmds := by
    simp only [Books.account, inv.tconfCmds, List.filterMap_append]
    cases h : e.tconfCmd o <;> simp [h]

end LedgerInv

/-- The totals, once the program has finished. -/
def PanState.closing (o : Options) (coll : List CollEntry) (s : PanState) : List LogLine :=
  if s.pc = .finished ∧ o.logfile ∧ o.fmtPrint then [.totals coll.length s.tconfcnt s.failcnt]
  else []

/-- The log and the command files in any state of a run. -/
def LedgerOk (o : Options) (coll : List CollEntry) (s : PanState) : Prop :=
  ∃ results, s.log = results ++ s.closing o coll ∧ LedgerInv o { s.toBooks with log := results }

section LedgerSteps

variable {o : Options} {coll : List CollEntry} {s s' : PanState}

theorem ledgerOk_of_inv (hpc : s.pc ≠ .finished) (inv : LedgerInv o s.toBooks) :
    LedgerOk o coll s :=
  ⟨s.log, by simp [PanState.closing, hpc], inv⟩

theorem LedgerOk.inv (hok : LedgerOk o coll s) (hpc : s.pc ≠ .finished) :
    LedgerInv o s.toBooks := by
  obtain ⟨results, hlog, hinv⟩ := hok
  obtain rfl : results = s.log := by simpa [PanState.closing, hpc] using hlog.symm
  exact hinv

theorem ledgerInv_childRun {colle : CollEntry} {i attempt : Nat} {a : Answer} {slot : Slot}
    (inv : LedgerInv o s.toBooks) (hrun : ChildRun o colle i attempt a slot s s') :
    LedgerInv o s'.toBooks := by
  cases hrun with
  | refused why b entered start books pc =>
      rw [books, Books.close_refused o]
      rcases entered with rfl | rfl
      · exact inv.account _
      · exact (inv.setSlot i slot).account _
  | aborted cause books pc => exact books ▸ inv.setSlot i slot
  | failed errbuf status endTime start gone books pc rts =>
      rw [books, Books.failedStart_eq]
      exact (inv.setSlot i slot).account _
  | started pid start pos fresh books pc rts =>
      rw [books]
      exact ⟨inv.log, inv.failcnt, inv.tconfcnt, inv.failCmds, inv.tconfCmds⟩

theorem ledgerInv_reaped {statLoc : Nat} {a : Answer} {i : Nat} {slot : Slot}
    (inv : LedgerInv o s.toBooks) (hreaped : ChildReaped o statLoc a i slot s s') :
    LedgerInv o s'.toBooks := by
  have hcounted : LedgerInv o { s.toBooks with numActive := s.numActive - 1 } :=
    ⟨inv.log, inv.failcnt, inv.tconfcnt, inv.failCmds, inv.tconfCmds⟩
  have hnoted := hcounted.account (childOutcome o slot statLoc a)
  rw [← Books.noteChild_eq] at hnoted
  cases hreaped with
  | aborted cause books pc =>
      rcases books with books | books
      · exact books ▸ hnoted
      · exact books ▸ hnoted.setSlot i _
  | checked books pc rts => exact books ▸ hnoted.setSlot i _

theorem ledgerOk_step {e : Event} (hslots : SlotsOk o s) (hok : LedgerOk o coll s)
    (hpc : s.pc ≠ .finished ∧ s.pc ≠ .aborted) (hmove : PanMove o coll s e s') :
    LedgerOk o coll s' := by
  have inv := hok.inv hpc.1
  have slots := hslots.2 hpc.2
  cases hmove with
  | steer books rts abort pending pc => exact ledgerOk_of_inv pc.1 (books ▸ inv)
  | output attempt text event direct started eq =>
      subst eq
      exact ledgerOk_of_inv hpc.1 inv
  | mark i slot occupied books control rts pending pc =>
      exact ledgerOk_of_inv pc.1 (books ▸ inv.setSlot i _)
  | noSlot room pending slot => exact absurd slot (slots.find_free pending room)
  | run a i c colle event pc slot entry control run =>
      have hchosen : LedgerInv o (s.choose c).toBooks :=
        ⟨inv.log, inv.failcnt, inv.tconfcnt, inv.failCmds, inv.tconfCmds⟩
      refine ledgerOk_of_inv ?_ (ledgerInv_childRun hchosen run)
      rcases run.place with h | ⟨_, h⟩ <;> simp [h]
  | ran cpid pc eq =>
      subst eq
      exact ledgerOk_of_inv (by simp [PanState.ranChild])
        ⟨inv.log, inv.failcnt, inv.tconfcnt, inv.failCmds, inv.tconfCmds⟩
  | reap a cpid statLoc event pc mem gone eq =>
      obtain ⟨i, -, -, -, -, hreaped⟩ := slots.reaped pc mem gone eq
      have hwaited : LedgerInv o (s.waited a.emptied cpid).toBooks :=
        ⟨inv.log, inv.failcnt, inv.tconfcnt, inv.failCmds, inv.tconfCmds⟩
      exact ledgerOk_of_inv hreaped.pc_ne_finished (ledgerInv_reaped hwaited hreaped)
  | checked err pc books rts abort pc' =>
      refine ledgerOk_of_inv (by rcases pc' with h | h <;> simp [h]) ?_
      rw [books]
      exact ⟨inv.log, inv.failcnt, inv.tconfcnt, inv.failCmds, inv.tconfCmds⟩
  | finish a event pc eq =>
      subst eq
      refine ⟨s.log, ?_, ⟨inv.log, inv.failcnt, inv.tconfcnt, inv.failCmds, inv.tconfCmds⟩⟩
      cases hl : o.logfile <;> cases hp : o.fmtPrint <;>
        simp [PanState.closing, PanState.finish, hl, hp]

theorem ledgerOk_init : LedgerOk o coll (PanState.init o coll) := by
  refine ledgerOk_of_inv (by simp [PanState.init]) ⟨rfl, ?_, ?_, rfl, rfl⟩ <;>
    simp [PanState.init]

theorem ledgerOk_panRun (o : Options) (coll : List CollEntry) (evs : List Event) :
    LedgerOk o coll (panRun o coll evs) := by
  refine panRun_invariant (P := fun _ => True) _ (fun _ _ => trivial) ledgerOk_init ?_
  intro s e s' _ hslots hok h
  exact ledgerOk_step hslots hok (panNext_cases h).1 (panNext_cases h).2

end LedgerSteps

end EDDTs.Pan
