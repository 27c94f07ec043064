import EDDTs.FuzzySync.PairWait

/-!
# The barrier invariant across counter resets

Only the thread that counts its waits in a counter writes it, so the value of
the counter is a function of that thread's location and of the number of
waits it has entered: the number modulo `INT_MAX`, except that a wait whose
number is a multiple of `INT_MAX` shows `INT_MAX` until the thread stores zero.
The invariant pairs this with what a thread has learnt about its partner.
-/

namespace EDDTs.FuzzySync

open Library.Interleaving

/-- The value a thread's counter has between its waits. -/
def cyclePos (n : Nat) : Int := (n : Int) % intMax

@[simp] theorem cyclePos_zero : cyclePos 0 = 0 := by simp [cyclePos]

theorem cyclePos_nonneg (n : Nat) : 0 ≤ cyclePos n := by
  unfold cyclePos intMax; omega

theorem cyclePos_lt (n : Nat) : cyclePos n < intMax := by
  unfold cyclePos intMax; omega

/-- The count goes up by one, or wraps to zero after `INT_MAX - 1`. -/
theorem cyclePos_succ (n : Nat) :
    (cyclePos (n + 1) = cyclePos n + 1 ∧ cyclePos n + 1 ≠ intMax) ∨
      (cyclePos (n + 1) = 0 ∧ cyclePos n + 1 = intMax) := by
  unfold cyclePos intMax; omega

/-- The thread has reached `INT_MAX` and has not yet stored zero. -/
def WaitPc.BeforeStore : WaitPc → Prop
  | .resetPositive | .resetBelowMax | .resetStore => True
  | _ => False

/-- The value of the counter a thread writes, from its own location. -/
def WriterOk (pc : WaitPc) (n : Nat) (own : Int) : Prop :=
  match pc with
  | .outside => own = cyclePos n
  | .resetPositive | .resetBelowMax | .resetStore =>
      0 < n ∧ cyclePos n = 0 ∧ own = intMax
  | .resetRestored => 0 < n ∧ cyclePos n = 0 ∧ own = 0
  | .compare | .compareOther _ | .compareOur _ =>
      0 < n ∧ cyclePos n ≠ 0 ∧ own = cyclePos n

/-- What holds of a thread at `pc` with `n` waits entered and counter `own`,
when its partner is at `pc'` with `n'` waits entered. -/
structure SideInv (pc pc' : WaitPc) (n n' : Nat) (own : Int) : Prop where
  writer : WriterOk pc n own
  ahead : n ≤ n' + 1
  passed : pc = .outside → n ≤ n'
  loadedOur : ∀ r, pc = .compareOther r → r < own ∨ n ≤ n'
  loadedOther : ∀ r, pc = .compareOur r → r = own
  met : pc = .resetStore ∨ pc = .resetRestored → n ≤ n'
  blocks : pc.BeforeStore → n' ≤ n ∧ (n' = n → pc' ≠ .outside)

/-- Both threads satisfy their side of the invariant. -/
def PairInv (s : PairState) : Prop :=
  ∀ t, SideInv (s.pc t) (s.pc t.other) (s.entered t) (s.entered t.other) (s.cntr t.other)

variable {s : PairState}

theorem PairInv.partner (h : PairInv s) (t : Thread) :
    SideInv (s.pc t.other) (s.pc t) (s.entered t.other) (s.entered t) (s.cntr t) := by
  simpa using h t.other

theorem pairInv_init : PairInv PairState.init := by
  intro t
  constructor <;> simp [PairState.init, WriterOk, WaitPc.BeforeStore]

section Side

variable {pc pc' : WaitPc} {n n' : Nat} {own own' : Int}

/-- Before it stores zero a thread shows `INT_MAX`, in a wait whose number is
a multiple of it. -/
theorem WriterOk.beforeStore (h : WriterOk pc n own) (hb : pc.BeforeStore) :
    cyclePos n = 0 ∧ own = intMax := by
  cases pc <;> first | exact h.2 | exact hb.elim

/-- A partner that is one wait behind shows the count of that wait. -/
theorem SideInv.behind (h' : SideInv pc' pc n' n own') (hlt : n' < n) :
    own' = cyclePos n' := by
  have hb : ¬ pc'.BeforeStore := fun hb => by
    have := (h'.blocks hb).1
    omega
  have hw := h'.writer
  cases pc' with
  | outside => exact hw
  | resetPositive | resetBelowMax | resetStore => exact absurd trivial hb
  | resetRestored => exact hw.2.2.trans hw.2.1.symm
  | compare | compareOther | compareOur => exact hw.2.2

/-- In a comparing wait the partner's counter is lower while it is behind. -/
theorem SideInv.behind_lt (h : SideInv pc pc' n n' own) (h' : SideInv pc' pc n' n own')
    (hpos : cyclePos n ≠ 0) (hown : own = cyclePos n) (hlt : n' < n) : own' < own := by
  have hn : n = n' + 1 := by
    have := h.ahead
    omega
  have hval := h'.behind hlt
  subst hn
  rcases cyclePos_succ n' with ⟨hs, _⟩ | ⟨hz, _⟩
  · omega
  · exact absurd hz hpos

/-- In a resetting wait the partner's counter is strictly between the two
values that end the first loop while the partner is behind. -/
theorem SideInv.behind_reset (h : SideInv pc pc' n n' own) (h' : SideInv pc' pc n' n own')
    (hz : cyclePos n = 0) (hlt : n' < n) : 0 < own' ∧ own' < intMax := by
  have hn : n = n' + 1 := by
    have := h.ahead
    omega
  have hval := h'.behind hlt
  have hnn := cyclePos_nonneg n'
  subst hn
  rcases cyclePos_succ n' with ⟨hs, _⟩ | ⟨_, hmax⟩
  · omega
  · unfold intMax at hmax ⊢
    omega

/-- The partner's side does not depend on where the thread is, unless the
partner is about to store zero. -/
theorem SideInv.move (h' : SideInv pc' pc n' n own') {q : WaitPc}
    (hq : pc'.BeforeStore → n = n' → q ≠ .outside) : SideInv pc' q n' n own' where
  writer := h'.writer
  ahead := h'.ahead
  passed := h'.passed
  loadedOur := h'.loadedOur
  loadedOther := h'.loadedOther
  met := h'.met
  blocks := fun hb => ⟨(h'.blocks hb).1, hq hb⟩

/-- A thread leaving a comparing wait finds no partner of the same wait that
is about to store zero. -/
theorem SideInv.leave (h' : SideInv pc' pc n' n own') (hne : cyclePos n ≠ 0) :
    SideInv pc' .outside n' n own' :=
  h'.move fun hb he => absurd (he ▸ (h'.writer.beforeStore hb).1) hne

/-- The partner's side survives the thread entering its next wait. -/
theorem SideInv.enter_partner (h' : SideInv pc' .outside n' n own') {q : WaitPc}
    (hq : q ≠ .outside) : SideInv pc' q n' (n + 1) own' where
  writer := h'.writer
  ahead := by have := h'.ahead; omega
  passed := fun hp => by have := h'.passed hp; omega
  loadedOur := fun r hr => (h'.loadedOur r hr).imp_right fun h => by omega
  loadedOther := h'.loadedOther
  met := fun hm => by have := h'.met hm; omega
  blocks := fun hb => by
    obtain ⟨hle, hne⟩ := h'.blocks hb
    have : n ≠ n' := fun he => hne he rfl
    exact ⟨by omega, fun _ => hq⟩

/-- Entering a wait: the counter goes up, and reaches `INT_MAX` exactly in the
waits whose number is a multiple of it. -/
theorem SideInv.enter (h : SideInv .outside pc' n n' own)
    (h' : SideInv pc' .outside n' n own') :
    SideInv (if atomicInc own = intMax then .resetPositive else .compare) pc'
      (n + 1) n' (atomicInc own) := by
  have hown : own = cyclePos n := h.writer
  have hlt := cyclePos_lt n
  have hnn := cyclePos_nonneg n
  have hle := h.passed rfl
  have hinc : atomicInc own = own + 1 := by
    have : own ≠ intMax := by omega
    simp [atomicInc, this]
  have hclose : n' ≤ n + 1 := h'.ahead
  rw [hinc, hown]
  rcases cyclePos_succ n with ⟨hs, hne⟩ | ⟨hz, hmax⟩
  · rw [if_neg hne]
    constructor <;> simp [WriterOk, WaitPc.BeforeStore]
    · omega
    · omega
  · rw [if_pos hmax]
    -- a partner outside has entered no more waits than this thread had
    have hout : n' = n + 1 → pc' ≠ .outside := by
      intro he hp
      have := h'.passed hp
      omega
    constructor <;> simp [WriterOk, WaitPc.BeforeStore]
    · exact ⟨hz, hmax⟩
    · omega
    · exact ⟨hclose, hout⟩

/-- A thread that has not stored zero goes on in the first loop, or leaves it when it has met its
partner. -/
theorem SideInv.resets (h : SideInv pc pc' n n' own) (hpc : pc.BeforeStore) {q : WaitPc}
    (hq : q.BeforeStore) (hmet : q = .resetStore → n ≤ n') : SideInv q pc' n n' own := by
  have hwriter : 0 < n ∧ cyclePos n = 0 ∧ own = intMax := by
    have hw := h.writer
    cases pc <;> first | exact hw | exact hpc.elim
  have hblocks := h.blocks hpc
  cases q with
  | resetPositive | resetBelowMax | resetStore =>
      exact ⟨hwriter, h.ahead, by simp, by simp, by simp,
        fun hm => hm.elim hmet (by simp), fun _ => hblocks⟩
  | _ => exact hq.elim

/-- A comparing thread begins the loop again. -/
theorem SideInv.compares (h : SideInv pc pc' n n' own)
    (hw : 0 < n ∧ cyclePos n ≠ 0 ∧ own = cyclePos n) : SideInv .compare pc' n n' own :=
  ⟨hw, h.ahead, by simp, by simp, by simp, by simp, by simp [WaitPc.BeforeStore]⟩

/-- A thread that has met its partner leaves its wait. -/
theorem SideInv.leaves (h : SideInv pc pc' n n' own) (hown : own = cyclePos n) (hmet : n ≤ n') :
    SideInv .outside pc' n n' own :=
  ⟨hown, h.ahead, fun _ => hmet, by simp, by simp, by simp, by simp [WaitPc.BeforeStore]⟩

end Side

/-- The two sides after one atomic access of the thread at `pc`. -/
theorem sideInv_step (f : Bool) {pc pc' : WaitPc} {n n' : Nat} {own own' : Int}
    (h : SideInv pc pc' n n' own) (h' : SideInv pc' pc n' n own') :
    SideInv (pairWaitStep f pc own' own).1 pc'
        (if pc = .outside then n + 1 else n) n' (pairWaitStep f pc own' own).2 ∧
      SideInv pc' (pairWaitStep f pc own' own).1 n'
        (if pc = .outside then n + 1 else n) own' := by
  cases pc with
  | outside =>
      refine ⟨h.enter h', h'.enter_partner ?_⟩
      simp only [pairWaitStep]
      split <;> simp
  | resetPositive =>
      simp only [pairWaitStep, reduceCtorEq, if_false]
      by_cases hgt : own' > 0
      · simp only [if_pos hgt]
        exact ⟨h.resets trivial trivial (by simp), h'.move (by simp)⟩
      · simp only [if_neg hgt]
        have hmet : n ≤ n' := by
          by_contra hlt
          exact hgt (h.behind_reset h' h.writer.2.1 (by omega)).1
        exact ⟨h.resets trivial trivial fun _ => hmet, h'.move (by simp)⟩
  | resetBelowMax =>
      simp only [pairWaitStep, reduceCtorEq, if_false]
      by_cases hlt : own' < intMax
      · simp only [if_pos hlt]
        exact ⟨h.resets trivial trivial (by simp), h'.move (by simp)⟩
      · simp only [if_neg hlt]
        have hmet : n ≤ n' := by
          by_contra hbehind
          exact hlt (h.behind_reset h' h.writer.2.1 (by omega)).2
        exact ⟨h.resets trivial trivial fun _ => hmet, h'.move (by simp)⟩
  | resetStore =>
      obtain ⟨hpos, hz, _⟩ := h.writer
      have hmet := h.met (Or.inl rfl)
      simp only [pairWaitStep, reduceCtorEq, if_false]
      exact ⟨⟨⟨hpos, hz, rfl⟩, h.ahead, by simp, by simp, by simp, fun _ => hmet,
        by simp [WaitPc.BeforeStore]⟩, h'.move (by simp)⟩
  | resetRestored =>
      obtain ⟨hpos, hz, hzero⟩ := h.writer
      have hmet := h.met (Or.inr rfl)
      simp only [pairWaitStep, reduceCtorEq, if_false]
      by_cases hgt : own' > 1
      · simp only [if_pos hgt]
        exact ⟨h, h'⟩
      · simp only [if_neg hgt]
        refine ⟨h.leaves (hzero.trans hz.symm) hmet, h'.move ?_⟩
        -- a partner that has not stored zero still shows `INT_MAX`
        intro hb _
        rw [(h'.writer.beforeStore hb).2] at hgt
        exact absurd (by decide) hgt
  | compare =>
      obtain ⟨hpos, hne, hown⟩ := h.writer
      simp only [pairWaitStep, reduceCtorEq, if_false]
      cases f with
      | true =>
          have hload : own' < own ∨ n ≤ n' := by
            by_cases hlt : n' < n
            · exact Or.inl (h.behind_lt h' hne hown hlt)
            · exact Or.inr (by omega)
          refine ⟨⟨⟨hpos, hne, hown⟩, h.ahead, by simp, ?_, by simp, by simp,
            by simp [WaitPc.BeforeStore]⟩, h'.move (by simp)⟩
          intro r hr
          simp only [if_true, WaitPc.compareOther.injEq] at hr
          exact hr ▸ hload
      | false =>
          refine ⟨⟨⟨hpos, hne, hown⟩, h.ahead, by simp, by simp, ?_, by simp,
            by simp [WaitPc.BeforeStore]⟩, h'.move (by simp)⟩
          intro r hr
          simpa using hr.symm
  | compareOther r =>
      have hload := h.loadedOur r rfl
      simp only [pairWaitStep, reduceCtorEq, if_false]
      by_cases hlt : r < own
      · simp only [if_pos hlt]
        exact ⟨h.compares h.writer, h'.move (by simp)⟩
      · simp only [if_neg hlt]
        exact ⟨h.leaves h.writer.2.2 (hload.resolve_left hlt), h'.leave h.writer.2.1⟩
  | compareOur r =>
      obtain ⟨-, hne, hown⟩ := h.writer
      have hr := h.loadedOther r rfl
      subst hr
      simp only [pairWaitStep, reduceCtorEq, if_false]
      by_cases hlt : own' < r
      · simp only [if_pos hlt]
        exact ⟨h.compares h.writer, h'.move (by simp)⟩
      · simp only [if_neg hlt]
        have hmet : n ≤ n' := by
          by_contra hbehind
          exact hlt (h.behind_lt h' hne hown (by omega))
        exact ⟨h.leaves hown hmet, h'.leave hne⟩

theorem pairInv_step (a : Action) (h : PairInv s) : PairInv (waitStep a s) := by
  obtain ⟨hself, hother⟩ := sideInv_step a.ourFirst (h a.thread) (h.partner a.thread)
  intro t
  rcases Thread.eq_or_eq_other a.thread t with rfl | rfl
  · simpa [waitStep_entered_self] using hself
  · simpa [waitStep_entered_self] using hother

/-- The invariant holds after every interleaving of waits. -/
theorem pairInv_reachable (h : Reachable waitStep PairState.init s) : PairInv s :=
  h.invariant pairInv_init fun _ a => pairInv_step a

/-- A thread has returned from no more waits than its partner has entered. -/
theorem PairInv.returned_le (h : PairInv s) (t : Thread) : s.returned t ≤ s.entered t.other := by
  have ht := h t
  unfold PairState.returned
  split
  · exact ht.passed ‹_›
  · have := ht.ahead
    omega

end EDDTs.FuzzySync
