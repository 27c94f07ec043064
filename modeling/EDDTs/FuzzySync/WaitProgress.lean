import EDDTs.FuzzySync.WaitInvariant
import Mathlib.Data.Int.Order.Basic

/-!
# Every wait that both threads have entered is left by both

Progress is stated for any sequence of states whose steps are accesses of the
wait or steps of the surrounding program that leave the pair alone, so that
it applies both to the bare waits and to the race loops built on them.

A comparing wait is left by a thread on its own. A resetting wait has two
stages: each thread leaves the first loop on its own and stores zero; the
second loop ends once both have.
-/

namespace EDDTs.FuzzySync

open Library.Interleaving

section Side

variable {pc pc' : WaitPc} {n n' : Nat} {own own' : Int}

/-- The thread is in the loop of a wait that does not reset the counters. -/
def WaitPc.Comparing : WaitPc → Prop
  | .compare | .compareOther _ | .compareOur _ => True
  | _ => False

theorem WaitPc.Comparing.ne_outside (h : pc.Comparing) : pc ≠ .outside := by
  rintro rfl
  exact h

theorem WaitPc.BeforeStore.ne_outside (h : pc.BeforeStore) : pc ≠ .outside := by
  rintro rfl
  exact h

theorem WriterOk.comparing (h : WriterOk pc n own) (hc : pc.Comparing) :
    cyclePos n ≠ 0 ∧ own = cyclePos n := by
  cases pc <;> first | exact h.2 | exact hc.elim

/-- Once the partner has entered a comparing wait its counter is no lower. -/
theorem SideInv.met_le (h : SideInv pc pc' n n' own) (h' : SideInv pc' pc n' n own')
    (hc : pc.Comparing) (hmet : n ≤ n') : own ≤ own' := by
  obtain ⟨hne, hown⟩ := h.writer.comparing hc
  have hw' := h'.writer
  have hahead := h'.ahead
  have hlt := cyclePos_lt n
  rcases (by omega : n' = n ∨ n' = n + 1) with rfl | rfl
  · cases pc' <;> simp only [WriterOk] at hw' <;> omega
  · have hsucc := cyclePos_succ n
    cases pc' with
    | outside => have := h'.passed rfl; omega
    | resetRestored => have := h'.met (Or.inr rfl); omega
    | _ => simp only [WriterOk] at hw'; omega

/-- Before a thread stores zero its partner shows `INT_MAX` or has stored zero. -/
theorem SideInv.beforeStore_partner (h : SideInv pc pc' n n' own)
    (h' : SideInv pc' pc n' n own') (hb : pc.BeforeStore) (hmet : n ≤ n') :
    pc' ≠ .outside ∧ (own' = intMax ∨ own' = 0) := by
  obtain ⟨hle, hout⟩ := h.blocks hb
  have hn : n' = n := by omega
  have hz := (h.writer.beforeStore hb).1
  have hw' := h'.writer
  refine ⟨hout hn, ?_⟩
  subst hn
  cases pc' <;> simp only [WriterOk] at hw' <;> first | exact Or.inl hw'.2.2 | omega

/-- After both threads have stored zero neither keeps the other in the
second loop: the partner shows zero, or one if it is already a wait ahead. -/
theorem SideInv.restored_partner (h : SideInv .resetRestored pc' n n' own)
    (h' : SideInv pc' .resetRestored n' n own')
    (hs : n' = n → ¬ pc'.BeforeStore) : own' ≤ 1 := by
  obtain ⟨_, hz, _⟩ := h.writer
  have hmet := h.met (Or.inr rfl)
  have hahead := h'.ahead
  have hw' := h'.writer
  rcases (by omega : n' = n ∨ n' = n + 1) with rfl | rfl
  · have hb := hs rfl
    cases pc' <;> simp only [WriterOk] at hw' <;>
      first | exact absurd trivial hb | omega
  · have hsucc := cyclePos_succ n
    unfold intMax at hsucc
    cases pc' <;> simp only [WriterOk] at hw' <;> omega

/-- Inside a wait the counter of the moving thread keeps its value or is
set to zero. -/
theorem pairWaitStep_snd (f : Bool) (our other : Int) (hpc : pc ≠ .outside) :
    (pairWaitStep f pc our other).2 = other ∨ (pairWaitStep f pc our other).2 = 0 := by
  cases pc <;> simp_all [pairWaitStep]

end Side

section Moves

variable {a : Action} {s s' : PairState} {t : Thread} (h : Moves a s s')

include h

/-- A thread that does not move keeps its location, its count and the counter
it writes. -/
theorem Moves.frame (ha : a.thread ≠ t) :
    s'.pc t = s.pc t ∧ s'.entered t = s.entered t ∧
      s'.cntr t.other = s.cntr t.other := by
  rcases h with rfl | ⟨rfl, _⟩
  · obtain ⟨hpc, hn⟩ := waitStep_frame a s ha.symm
    refine ⟨hpc, hn, ?_⟩
    rcases Thread.eq_or_eq_other t a.thread with he | he
    · exact absurd he ha
    · rw [← he]
      exact waitStep_cntr_self a s
  · exact ⟨rfl, rfl, rfl⟩

/-- A thread inside a wait moves by an access of the wait. -/
theorem Moves.self (ha : a.thread = t) (hpc : s.pc t ≠ .outside) :
    s'.pc t = (pairWaitStep a.ourFirst (s.pc t) (s.cntr t) (s.cntr t.other)).1 ∧
      s'.cntr t.other = (pairWaitStep a.ourFirst (s.pc t) (s.cntr t) (s.cntr t.other)).2 ∧
      s'.entered t = s.entered t := by
  subst ha
  rcases h with rfl | ⟨_, hout⟩
  · exact ⟨waitStep_pc_self a s, waitStep_cntr_other a s,
      by rw [waitStep_entered_self, if_neg hpc]⟩
  · exact absurd hout hpc

theorem Moves.entered_le (t : Thread) : s.entered t ≤ s'.entered t := by
  by_cases ha : a.thread = t
  · subst ha
    rcases h with rfl | ⟨rfl, _⟩
    · rw [waitStep_entered_self]
      split <;> omega
    · exact le_rfl
  · exact (h.frame ha).2.1.ge

/-- A thread that has left its `k`-th wait never goes back to it. -/
theorem Moves.returned_le (t : Thread) : s.returned t ≤ s'.returned t := by
  by_cases ha : a.thread = t
  · by_cases hpc : s.pc t = .outside
    · rcases h with rfl | ⟨rfl, _⟩
      · subst ha
        simp only [PairState.returned, hpc, if_true, waitStep_entered_self]
        split <;> omega
      · exact le_rfl
    · obtain ⟨_, _, hn⟩ := h.self ha hpc
      simp only [PairState.returned, hpc, if_false, hn]
      split <;> omega
  · obtain ⟨hpc, hn, _⟩ := h.frame ha
    simp [PairState.returned, hpc, hn]

/-- The thread has entered its `k`-th wait and is past the store of zero in it. -/
def PairState.Stored (s : PairState) (t : Thread) (k : Nat) : Prop :=
  k ≤ s.entered t ∧ (s.entered t = k → ¬ (s.pc t).BeforeStore)

theorem Moves.stored {k : Nat} (hs : s.Stored t k) : s'.Stored t k := by
  obtain ⟨hk, hb⟩ := hs
  refine ⟨hk.trans (h.entered_le t), fun hn => ?_⟩
  by_cases ha : a.thread = t
  · rcases h with rfl | ⟨rfl, _⟩
    · subst ha
      rw [waitStep_entered_self] at hn
      have hpc : s.pc a.thread ≠ .outside := fun hpc => by
        rw [if_pos hpc] at hn
        omega
      rw [if_neg hpc] at hn
      have hb' := hb hn
      rw [waitStep_pc_self]
      -- no access inside a wait leads back to the first loop of the reset
      generalize s.pc a.thread = pc at hpc hb' ⊢
      cases pc <;> simp only [pairWaitStep] <;> (try split) <;>
        simp_all [WaitPc.BeforeStore]
    · exact hb hn
  · obtain ⟨hpc, hn', _⟩ := h.frame ha
    rw [hpc]
    exact hb (hn' ▸ hn)

/-- How far a thread is from leaving the loop of a comparing wait. -/
def compareRank (s : PairState) (t : Thread) : Nat :=
  match s.pc t with
  | .compareOther r => if r < s.cntr t.other then 3 else 1
  | .compare => 2
  | _ => 1

/-- How far a thread is from storing zero in a resetting wait. -/
def resetRank (s : PairState) (t : Thread) : Nat :=
  match s.pc t with
  | .resetPositive => if s.cntr t > 0 then 4 else 2
  | .resetBelowMax => 3
  | _ => 1

/-- With an access of its own a thread leaves a comparing wait that its partner has entered, or
comes nearer to that. -/
theorem Moves.compare_self (hinv : PairInv s) (ha : a.thread = t) (hc : (s.pc t).Comparing)
    (hmet : s.entered t ≤ s.entered t.other) :
    s.entered t ≤ s'.returned t ∨
      (s'.pc t).Comparing ∧ compareRank s' t < compareRank s t := by
  have hle := (hinv t).met_le (hinv.partner t) hc hmet
  obtain ⟨hpc', hc', hn'⟩ := h.self ha hc.ne_outside
  cases hp : s.pc t with
  | compare =>
      right
      rw [hp] at hpc' hc'
      cases hf : a.ourFirst with
      | true =>
          simp only [pairWaitStep, hf, if_true] at hpc' hc'
          refine ⟨by rw [hpc']; trivial, ?_⟩
          simp [compareRank, hp, hpc', hc', not_lt.mpr hle]
      | false =>
          simp only [pairWaitStep, hf, Bool.false_eq_true, if_false] at hpc'
          refine ⟨by rw [hpc']; trivial, ?_⟩
          simp [compareRank, hp, hpc']
  | compareOther r =>
      rw [hp] at hpc'
      by_cases hr : r < s.cntr t.other
      · right
        simp only [pairWaitStep, if_pos hr] at hpc'
        refine ⟨by rw [hpc']; trivial, ?_⟩
        simp [compareRank, hp, hpc', hr]
      · left
        simp only [pairWaitStep, if_neg hr] at hpc'
        simp [PairState.returned, hpc', hn']
  | compareOur r =>
      left
      rw [hp] at hpc'
      have hr : ¬ s.cntr t < r := by
        rw [(hinv t).loadedOther r hp]
        exact not_lt.mpr hle
      simp only [pairWaitStep, if_neg hr] at hpc'
      simp [PairState.returned, hpc', hn']
  | _ => rw [hp] at hc; exact hc.elim

/-- With an access of its own a thread stores zero in a resetting wait that its partner has
entered, or comes nearer to that. -/
theorem Moves.reset_self (hinv : PairInv s) (ha : a.thread = t) (hb : (s.pc t).BeforeStore)
    (hmet : s.entered t ≤ s.entered t.other) :
    ¬ (s'.pc t).BeforeStore ∨
      (s'.pc t).BeforeStore ∧ resetRank s' t < resetRank s t := by
  obtain ⟨-, hval⟩ := (hinv t).beforeStore_partner (hinv.partner t) hb hmet
  obtain ⟨hpc', -, -⟩ := h.self ha hb.ne_outside
  have hcn : s'.cntr t = s.cntr t := by
    rcases h with rfl | ⟨rfl, _⟩
    · rw [← ha, waitStep_cntr_self]
    · rfl
  cases hp : s.pc t with
  | resetPositive =>
      right
      rw [hp] at hpc'
      by_cases hpos : s.cntr t > 0
      · simp only [pairWaitStep, if_pos hpos] at hpc'
        exact ⟨by rw [hpc']; trivial, by simp [resetRank, hp, hpc', hpos]⟩
      · simp only [pairWaitStep, if_neg hpos] at hpc'
        exact ⟨by rw [hpc']; trivial, by simp [resetRank, hp, hpc', hpos]⟩
  | resetBelowMax =>
      right
      rw [hp] at hpc'
      by_cases hlt : s.cntr t < intMax
      · simp only [pairWaitStep, if_pos hlt] at hpc'
        -- the partner stored zero between the two loads
        have hzero : s.cntr t = 0 := hval.resolve_left hlt.ne
        exact ⟨by rw [hpc']; trivial, by simp [resetRank, hp, hpc', hcn, hzero]⟩
      · simp only [pairWaitStep, if_neg hlt] at hpc'
        exact ⟨by rw [hpc']; trivial, by simp [resetRank, hp, hpc']⟩
  | resetStore =>
      left
      rw [hp] at hpc'
      simp only [pairWaitStep] at hpc'
      rw [hpc']
      exact id
  | _ => rw [hp] at hb; exact hb.elim

/-- The partner does not hold it up: it keeps its counter or sets it to zero. -/
theorem Moves.reset_partner (hinv : PairInv s) (ha : a.thread ≠ t) (hb : (s.pc t).BeforeStore)
    (hmet : s.entered t ≤ s.entered t.other) : resetRank s' t ≤ resetRank s t := by
  obtain ⟨hout, -⟩ := (hinv t).beforeStore_partner (hinv.partner t) hb hmet
  have hcn : s'.cntr t = s.cntr t ∨ s'.cntr t = 0 := by
    rcases Thread.eq_or_eq_other t a.thread with he | he
    · exact absurd he ha
    · obtain ⟨_, hc, _⟩ := h.self he hout
      rw [Thread.other_other] at hc
      rw [hc]
      exact pairWaitStep_snd _ _ _ hout
  simp only [resetRank, (h.frame ha).1]
  cases s.pc t <;> simp only [le_refl]
  rcases hcn with hcn | hcn
  · rw [hcn]
  · rw [hcn, if_neg (lt_irrefl (0 : Int))]
    split <;> simp

end Moves

/-- What each thread reaches and keeps, both have reached at one position. -/
theorem eventually_both {σ : Type*} {x : ℕ → σ} {P : Thread → σ → Prop}
    (hstable : ∀ t i, P t (x i) → P t (x (i + 1))) {n : ℕ} (h : ∀ t, ∃ m, n ≤ m ∧ P t (x m)) :
    ∃ m, n ≤ m ∧ ∀ t, P t (x m) := by
  obtain ⟨mA, hA, hPA⟩ := h .A
  obtain ⟨mB, hB, hPB⟩ := h .B
  refine ⟨max mA mB, hA.trans (le_max_left _ _), ?_⟩
  rintro (_ | _)
  · exact stable_of_succ (hstable .A) hPA (le_max_left _ _)
  · exact stable_of_succ (hstable .B) hPB (le_max_right _ _)

section Sequence

variable {x : ℕ → PairState} {sched : ℕ → Action} {t : Thread} {k : Nat} (hinv : ∀ n, PairInv (x n))
  (hmoves : ∀ n, Moves (sched n) (x n) (x (n + 1))) (hfair : Fair sched)

include hfair in
/-- A thread reaches a goal when each of its own accesses brings it nearer and no access of the
partner holds it up. -/
theorem eventually_of_own_rank (t : Thread) (P Q : PairState → Prop) (rank : PairState → ℕ)
    (hown : ∀ m, P (x m) → (sched m).thread = t →
      Q (x (m + 1)) ∨ P (x (m + 1)) ∧ rank (x (m + 1)) < rank (x m))
    (hother : ∀ m, P (x m) → (sched m).thread ≠ t →
      P (x (m + 1)) ∧ rank (x (m + 1)) ≤ rank (x m))
    (n : ℕ) (h : P (x n)) : ∃ m, n ≤ m ∧ Q (x m) := by
  refine eventually_of_rank (hfair t) P Q rank ?_ n h
  intro m hm _
  by_cases ha : (sched m).thread = t
  · rcases hown m hm ha with hgoal | ⟨hstays, hlt⟩
    · exact Or.inl hgoal
    · exact Or.inr ⟨hstays, hlt.le, fun _ => hlt⟩
  · obtain ⟨hstays, hle⟩ := hother m hm ha
    exact Or.inr ⟨hstays, hle, fun he => absurd he ha⟩

include hinv hmoves hfair

/-- A comparing wait that the partner has entered is left. -/
theorem eventually_returned_comparing (n : ℕ) (hk : (x n).entered t = k)
    (hc : ((x n).pc t).Comparing) (hmet : k ≤ (x n).entered t.other) :
    ∃ m, n ≤ m ∧ k ≤ (x m).returned t := by
  refine eventually_of_own_rank hfair t
    (fun s => s.entered t = k ∧ (s.pc t).Comparing ∧ k ≤ s.entered t.other)
    (fun s => k ≤ s.returned t) (fun s => compareRank s t) ?_ ?_ n ⟨hk, hc, hmet⟩
  · rintro m ⟨rfl, hc, hmet⟩ ha
    have hmet' := hmet.trans ((hmoves m).entered_le t.other)
    refine ((hmoves m).compare_self (hinv m) ha hc hmet).imp_right fun ⟨hstays, hlt⟩ => ?_
    exact ⟨⟨((hmoves m).self ha hc.ne_outside).2.2, hstays, hmet'⟩, hlt⟩
  · rintro m ⟨rfl, hc, hmet⟩ ha
    obtain ⟨hpc, hn, hcn⟩ := (hmoves m).frame ha
    refine ⟨⟨hn, hpc ▸ hc, hmet.trans ((hmoves m).entered_le t.other)⟩, ?_⟩
    simp [compareRank, hpc, hcn]

/-- In a resetting wait that the partner has entered a thread stores zero. -/
theorem eventually_stored (n : ℕ) (hk : (x n).entered t = k) (hb : ((x n).pc t).BeforeStore)
    (hmet : k ≤ (x n).entered t.other) : ∃ m, n ≤ m ∧ (x m).Stored t k := by
  refine eventually_of_own_rank hfair t
    (fun s => s.entered t = k ∧ (s.pc t).BeforeStore ∧ k ≤ s.entered t.other)
    (fun s => s.Stored t k) (fun s => resetRank s t) ?_ ?_ n ⟨hk, hb, hmet⟩
  · rintro m ⟨rfl, hb, hmet⟩ ha
    have hmet' := hmet.trans ((hmoves m).entered_le t.other)
    have hn := ((hmoves m).self ha hb.ne_outside).2.2
    rcases (hmoves m).reset_self (hinv m) ha hb hmet with hstored | ⟨hstays, hlt⟩
    · exact Or.inl ⟨hn.ge, fun _ => hstored⟩
    · exact Or.inr ⟨⟨hn, hstays, hmet'⟩, hlt⟩
  · rintro m ⟨rfl, hb, hmet⟩ ha
    obtain ⟨hpc, hn, -⟩ := (hmoves m).frame ha
    exact ⟨⟨hn, hpc ▸ hb, hmet.trans ((hmoves m).entered_le t.other)⟩,
      (hmoves m).reset_partner (hinv m) ha hb hmet⟩

/-- Once both threads have stored zero a thread leaves the resetting wait. -/
theorem eventually_returned_restored (n : ℕ) (hk : (x n).entered t = k)
    (hp : (x n).pc t = .resetRestored) (hs : (x n).Stored t.other k) :
    ∃ m, n ≤ m ∧ k ≤ (x m).returned t := by
  refine eventually_of_own_rank hfair t
    (fun s : PairState => s.entered t = k ∧ s.pc t = .resetRestored ∧ s.Stored t.other k)
    (fun s => k ≤ s.returned t) (fun _ => 1) ?_ ?_ n ⟨hk, hp, hs⟩
  · rintro m ⟨hk, hp, hs⟩ ha
    left
    obtain ⟨hpc', _, hn'⟩ := (hmoves m).self ha (by rw [hp]; simp)
    have ht := hinv m t
    have ho := (hinv m).partner t
    rw [hp] at ht ho hpc'
    have hle := ht.restored_partner ho fun he => hs.2 (he.trans hk)
    simp only [pairWaitStep, if_neg (not_lt.mpr hle)] at hpc'
    simp [PairState.returned, hpc', hn', hk]
  · rintro m ⟨hk, hp, hs⟩ ha
    obtain ⟨hpc, hn, _⟩ := (hmoves m).frame ha
    exact ⟨⟨hn.trans hk, hpc.trans hp, (hmoves m).stored hs⟩, le_rfl⟩

/-- Under a fair sequence a wait that both threads have entered is left. -/
theorem eventually_returned (n : ℕ) (hk : k ≤ (x n).entered t)
    (hmet : k ≤ (x n).entered t.other) : ∃ m, n ≤ m ∧ k ≤ (x m).returned t := by
  have hstored : ∀ u, k ≤ (x n).entered u → k ≤ (x n).entered u.other →
      ∃ m, n ≤ m ∧ (x m).Stored u k := by
    intro u hu ho
    by_cases hb : (x n).entered u = k ∧ ((x n).pc u).BeforeStore
    · exact eventually_stored hinv hmoves hfair n hb.1 hb.2 ho
    · exact ⟨n, le_rfl, hu, fun he hp => hb ⟨he, hp⟩⟩
  obtain ⟨m₁, hm₁, hs₁⟩ := hstored t hk hmet
  obtain ⟨m₂, hm₂, hs₂⟩ := hstored t.other hmet (by rwa [Thread.other_other])
  -- from here on both threads are past the store, and stay so
  let m := max m₁ m₂
  have hstable (u : Thread) (i : ℕ) (h : (x i).Stored u k) : (x (i + 1)).Stored u k :=
    (hmoves i).stored h
  have hst : (x m).Stored t k :=
    stable_of_succ (P := fun s : PairState => s.Stored t k) (hstable t) hs₁ (le_max_left _ _)
  have hso : (x m).Stored t.other k :=
    stable_of_succ (P := fun s : PairState => s.Stored t.other k)
      (hstable t.other) hs₂ (le_max_right _ _)
  have hnm : n ≤ m := hm₁.trans (le_max_left _ _)
  by_cases hdone : k ≤ (x m).returned t
  · exact ⟨m, hnm, hdone⟩
  · have hpc : (x m).pc t ≠ .outside := fun he =>
      hdone (by simpa [PairState.returned, he] using hst.1)
    have hn : (x m).entered t = k := by
      have hge := hst.1
      simp only [PairState.returned, hpc, if_false] at hdone
      omega
    have hb := hst.2 hn
    have hleave : ∃ j, m ≤ j ∧ k ≤ (x j).returned t := by
      cases hp : (x m).pc t with
      | outside => exact absurd hp hpc
      | resetPositive | resetBelowMax | resetStore => rw [hp] at hb; exact absurd trivial hb
      | resetRestored => exact eventually_returned_restored hinv hmoves hfair m hn hp hso
      | compare | compareOther r | compareOur r =>
          exact eventually_returned_comparing hinv hmoves hfair m hn (by rw [hp]; trivial) hso.1
    obtain ⟨j, hj, hr⟩ := hleave
    exact ⟨j, hnm.trans hj, hr⟩

/-- The same for both threads at one position. -/
theorem eventually_both_returned (n : ℕ) (hk : ∀ t, k ≤ (x n).entered t) :
    ∃ m, n ≤ m ∧ ∀ t, k ≤ (x m).returned t := by
  refine eventually_both (P := fun t s => k ≤ PairState.returned s t) ?_ ?_
  · exact fun t i h => h.trans ((hmoves i).returned_le t)
  · exact fun t => eventually_returned hinv hmoves hfair n (hk t) (hk t.other)

end Sequence

/-- The two threads take turns. -/
def alternate (n : ℕ) : Action := ⟨if n % 2 = 0 then .A else .B, true⟩

theorem alternate_fair : Fair alternate := by
  intro t n
  cases t with
  | A => exact ⟨2 * n, by omega, by simp [alternate]⟩
  | B =>
      refine ⟨2 * n + 1, by omega, ?_⟩
      have : (2 * n + 1) % 2 = 1 := by omega
      simp [alternate, this]

/-- `tst_fzsync_wait_a` and `tst_fzsync_wait_b` form a barrier under every
interleaving, however often the counters were reset: a thread returns from its
`k`-th wait only after its partner has entered its own `k`-th, and when both
are inside their `k`-th wait every fair continuation, of which there is one,
takes both of them out of it. -/
theorem pairWait_barrier (acts : List Action) :
    (∀ t k, k ≤ (exec waitStep PairState.init acts).returned t →
      k ≤ (exec waitStep PairState.init acts).entered t.other) ∧
    (∀ k, (∀ t, (exec waitStep PairState.init acts).InWait t k) →
      (∀ sched, Fair sched → ∃ n, ∀ t,
        k ≤ (trace waitStep sched (exec waitStep PairState.init acts) n).returned t) ∧
      (∃ more, ∀ t, k ≤ (exec waitStep PairState.init (acts ++ more)).returned t)) := by
  have hr : Reachable waitStep PairState.init (exec waitStep PairState.init acts) := ⟨acts, rfl⟩
  generalize hs : exec waitStep PairState.init acts = s at hr
  refine ⟨fun t k hk => hk.trans ((pairInv_reachable hr).returned_le t), ?_⟩
  intro k hin
  have hleave (sched : ℕ → Action) (hfair : Fair sched) :
      ∃ n, ∀ t, k ≤ (trace waitStep sched s n).returned t := by
    obtain ⟨n, _, hn⟩ := eventually_both_returned (k := k) (x := trace waitStep sched s)
      (fun n => pairInv_reachable (hr.trace sched n)) (fun n => Or.inl rfl) hfair 0
      (fun t => (hin t).2.ge)
    exact ⟨n, hn⟩
  refine ⟨hleave, ?_⟩
  obtain ⟨n, hn⟩ := hleave alternate alternate_fair
  refine ⟨(List.range n).map alternate, ?_⟩
  rw [exec_append, hs, ← trace_eq_exec]
  exact hn

end EDDTs.FuzzySync
