import EDDTs.FuzzySync.RaceLoopInvariant

/-!
# The race loops stay in step, get on and end together
-/

namespace EDDTs.FuzzySync

open Library.Interleaving

variable {exits : Nat → Bool} {threadB : Bool} {s : RaceState}

section Counts

variable (h : RaceInv exits s)

include h

variable {k : Nat}

/-- In its `k`-th race region a thread has passed the first two waits of that
iteration, and its partner cannot have passed the third. -/
theorem RaceInv.inRace {t : Thread} (hr : s.InRace t k) :
    s.pair.returned t = 3 * k + 2 ∧ s.pair.entered t = 3 * k + 2 ∧
      3 * k + 2 ≤ s.pair.entered t.other ∧ s.pair.returned t.other ≤ 3 * k + 2 := by
  have hn := h.pair.entered_eq t
  have hle := h.pair.returned_le t
  have hle' := h.pair.returned_le t.other
  rw [Thread.other_other] at hle'
  obtain ⟨hb, hloc⟩ := hr
  cases t with
  | A =>
      have hp := h.progA.passed
      have hout := h.progA.outside (by simp [hloc])
      simp only [hloc, passedA, hb] at hp
      simp only [hout, if_true] at hn
      omega
  | B =>
      have hp := h.progB.passed
      have hout := h.progB.outside (by simp [hloc]) (by simp [hloc]) (by simp [hloc])
      simp only [hloc, passedB, hb] at hp
      simp only [hout, if_true] at hn
      omega

/-- A thread that has left its loop has passed the first wait of the iteration
it did not run. -/
theorem RaceInv.left_counts {t : Thread} (hl : s.Left t) :
    s.pair.returned t = 3 * s.bodies t + 1 ∧ s.pair.entered t = 3 * s.bodies t + 1 := by
  have hn := h.pair.entered_eq t
  cases t with
  | A =>
      have hp := h.progA.passed
      rcases hl with hl | hl | hl <;>
        (have hout := h.progA.outside (by simp [hl])
         simp only [hl, passedA] at hp
         simp only [hout, if_true] at hn
         omega)
  | B =>
      have hp := h.progB.passed
      have hl' : s.locB = .done := hl
      have hout := h.progB.outside (by simp [hl']) (by simp [hl']) (by simp [hl'])
      simp only [hl', passedB] at hp
      simp only [hout, if_true] at hn
      omega

/-- The numbers of finished race bodies are never more than one apart. -/
theorem RaceInv.bodies_close (t : Thread) : s.bodies t ≤ s.bodies t.other + 1 := by
  have hA := h.progA.passed
  have hB := h.progB.passed
  have hAB := h.pair.bounds .A
  have hBA := h.pair.bounds .B
  have hAb := h.progA.body
  have hBb := h.progB.body
  simp only [Thread.other] at hAB hBA
  have hA' : 3 * s.bodies .A ≤ s.pair.returned .A + 1 ∧
      s.pair.returned .A ≤ 3 * s.bodies .A + 2 := by
    cases hl : s.locA <;> simp [hl, passedA] at hA hAb <;> omega
  have hB' : 3 * s.bodies .B ≤ s.pair.returned .B + 1 ∧
      s.pair.returned .B ≤ 3 * s.bodies .B + 2 := by
    cases hl : s.locB <;> simp [hl, passedB] at hB hBb <;> omega
  cases t <;> simp only [Thread.other] <;> omega

theorem RaceInv.bodies_eq (hA : s.Left .A) (hB : s.Left .B) : s.bodies .A = s.bodies .B := by
  obtain ⟨hAr, hAe⟩ := h.left_counts hA
  obtain ⟨hBr, hBe⟩ := h.left_counts hB
  have hAB := h.pair.returned_le .A
  have hBA := h.pair.returned_le .B
  simp only [Thread.other] at hAB hBA
  omega

/-- B's `k`-th loop test returns the negation of A's `k`-th decision. -/
theorem RaceInv.returnsB_get (hk : k < s.returnsB.length) :
    s.stored[k]? = some (exits k) ∧ s.returnsB[k]? = some (!exits k) := by
  have hlt : k < s.stored.length := hk.trans_le h.short
  have hst : s.stored[k]? = some (exits k) := by
    rw [h.decided]
    simp [hlt]
  refine ⟨hst, ?_⟩
  rw [h.agree, List.getElem?_map, List.getElem?_take_of_lt hk, hst]
  rfl

/-- After `k + 1` stores the flag and A's local copy hold the `k`-th decision. -/
theorem RaceInv.last_stored (hk : s.stored.length = k + 1) :
    s.exit = exits k ∧ s.localExit = exits k := by
  refine h.progA.flag _ ?_
  rw [h.decided, hk, List.range_succ, List.map_append]
  simp

/-- After `k + 1` loop tests the last value B returned negates the `k`-th decision. -/
theorem RaceInv.last_returned (hk : s.returnsB.length = k + 1) {d : Bool}
    (hd : s.returnsB.getLast? = some d) : exits k = !d := by
  rw [List.getLast?_eq_getElem?, hk, Nat.add_sub_cancel,
    (h.returnsB_get (by omega)).2] at hd
  rw [← Option.some.inj hd, Bool.not_not]

/-- Once B has left, A has left too or is still inside the wait of the same
loop test, which B has passed. -/
theorem RaceInv.partner_of_leftB (hl : s.Left .B) :
    s.Left .A ∨ s.pair.returned .A = 3 * s.bodies .B := by
  obtain ⟨hBr, hBe⟩ := h.left_counts hl
  have hloc : s.locB = .done := hl
  have hexit : exits (s.bodies .B) = true :=
    h.last_returned (by simpa [hloc] using h.progB.count) (h.progB.exits hloc)
  have hAB := h.pair.bounds .A
  have hBA := h.pair.bounds .B
  have hp := h.progA.passed
  have hc := h.progA.count
  simp only [Thread.other] at hAB hBA
  by_cases hleft : s.Left .A
  · exact Or.inl hleft
  · right
    cases hA : s.locA with
    | runStore | runWait => simp only [hA, passedA] at hp; omega
    | race | endWait => simp only [hA, passedA] at hp; omega
    | cleanup => exact absurd (Or.inl hA) hleft
    | join => exact absurd (Or.inr (Or.inl hA)) hleft
    | done => exact absurd (Or.inr (Or.inr hA)) hleft
    | startWait =>
        -- A would have read its own exit decision as a decision to continue
        simp only [hA, passedA] at hp
        have hb : s.bodies .A = s.bodies .B := by omega
        have hst : s.stored.length = s.bodies .B + 1 := by simpa [hA, hb] using hc
        have hlocal := h.progA.continues (Or.inl hA)
        rw [(h.last_stored hst).2, hexit] at hlocal
        cases hlocal

/-- Once A has left, B has left too, is about to read the exit request, or is
still inside the wait of the same loop test, which A has passed. -/
theorem RaceInv.partner_of_leftA (hl : s.Left .A) :
    s.Left .B ∨ s.locB = .runLoad ∨ s.pair.returned .B = 3 * s.bodies .A := by
  obtain ⟨hAr, hAe⟩ := h.left_counts hl
  have hst : s.stored.length = s.bodies .A + 1 := by
    have hc := h.progA.count
    rcases hl with he | he | he <;> simpa [he] using hc
  have hexit : exits (s.bodies .A) = true := by
    rw [← (h.last_stored hst).2]
    exact h.progA.exits hl
  have hAB := h.pair.bounds .A
  have hBA := h.pair.bounds .B
  have hp := h.progB.passed
  have hc := h.progB.count
  simp only [Thread.other] at hAB hBA
  cases hB : s.locB with
  | done => exact Or.inl hB
  | runLoad => exact Or.inr (Or.inl rfl)
  | runWait => right; right; simp only [hB, passedB] at hp; omega
  | race | endWait => right; right; simp only [hB, passedB] at hp; omega
  | startWait =>
      -- B would have read the exit request as a request to continue
      simp only [hB, passedB] at hp
      have hb : s.bodies .B = s.bodies .A := by omega
      have hret : s.returnsB.length = s.bodies .A + 1 := by simpa [hB, hb] using hc
      have hcont := h.last_returned hret (h.progB.continues (Or.inl hB))
      rw [hexit] at hcont
      cases hcont

/-- Once a thread has left, its partner has left too or has entered no wait beyond. -/
theorem RaceInv.partner_of_left {t : Thread} (hl : s.Left t) :
    s.Left t.other ∨ s.pair.entered t.other ≤ s.pair.entered t := by
  have hcounts := h.left_counts hl
  have hbounds := h.pair.bounds t.other
  rw [Thread.other_other] at hbounds
  cases t with
  | A =>
      rcases h.partner_of_leftA hl with hB | hB | hB
      · exact Or.inl hB
      · have hcount := h.pair.entered_eq .B
        rw [if_pos (h.progB.outside (by simp [hB]) (by simp [hB]) (by simp [hB]))] at hcount
        exact Or.inr (hcount ▸ hbounds.2)
      · exact Or.inr (hbounds.1.trans (by simp only [Thread.other]; omega))
  | B =>
      rcases h.partner_of_leftB hl with hA | hA
      · exact Or.inl hA
      · exact Or.inr (hbounds.1.trans (by simp only [Thread.other]; omega))

/-- A thread that has left stays out of its loop. -/
theorem RaceInv.left_step {t : Thread} (hl : s.Left t) (threadB : Bool) (a : Action) :
    (raceStep exits threadB a s).Left t ∧
      (raceStep exits threadB a s).bodies t = s.bodies t := by
  cases ha : a.thread with
  | A =>
      simp only [raceStep, ha]
      cases t with
      | A =>
          obtain ⟨loc, hloc, he⟩ := stepA_left exits threadB a h.progA hl
          rw [he]
          exact ⟨hloc, rfl⟩
      | B =>
          obtain ⟨_, _, hloc, hb, _⟩ := stepA_frame exits threadB h.progA ha
          exact ⟨hloc.trans hl, hb⟩
  | B =>
      simp only [raceStep, ha]
      cases t with
      | A =>
          obtain ⟨_, _, hloc, hb, _⟩ := stepB_frame (s := s) ha
          exact ⟨by simpa only [RaceState.Left, hloc] using hl, hb⟩
      | B =>
          have hloc : s.locB = .done := hl
          simp [stepB, hloc, RaceState.Left]

end Counts

/-- The steps that a thread makes from one wait to the next. -/
def RaceState.toWait (s : RaceState) : Thread → Nat
  | .A => if s.locA = .runStore ∨ s.locA = .race then 1 else 0
  | .B => if s.locB = .runLoad ∨ s.locB = .race then 1 else 0

/-- A thread between two waits enters the next one or leaves, or comes nearer to that. -/
theorem RaceState.goes_on {a : Action} {t : Thread} (ha : a.thread = t)
    (hout : s.pair.pc t = .outside) (hl : ¬ s.Left t) :
    s.pair.entered t < (raceStep exits threadB a s).pair.entered t ∨
      (raceStep exits threadB a s).Left t ∨
        (raceStep exits threadB a s).toWait t < s.toWait t := by
  have henters : s.pair.entered t < (waitStep a s.pair).entered t := by
    subst ha
    rw [waitStep_entered_self, if_pos hout]
    exact Nat.lt_succ_self _
  cases t with
  | A =>
      simp only [raceStep, ha]
      cases hloc : s.locA with
      | runWait | startWait | endWait =>
          exact Or.inl (by simpa only [stepA, hloc, RaceState.waitA] using henters)
      | runStore | race =>
          simp [stepA, hloc, RaceState.toWait]
      | cleanup | join | done => simp [RaceState.Left, hloc] at hl
  | B =>
      simp only [raceStep, ha]
      cases hloc : s.locB with
      | runWait | startWait | endWait =>
          exact Or.inl (by simpa only [stepB, hloc, RaceState.waitB] using henters)
      | runLoad => cases he : s.exit <;> simp [stepB, hloc, he, RaceState.toWait, RaceState.Left]
      | race => simp [stepB, hloc, RaceState.toWait]
      | done => exact absurd hloc hl

/-- The partner does not hold it up. -/
theorem RaceInv.toWait_other (h : RaceInv exits s) {a : Action} {t : Thread}
    (ha : a.thread ≠ t) : (raceStep exits threadB a s).toWait t = s.toWait t := by
  cases hmoved : a.thread with
  | A =>
      have hloc := (stepA_frame exits threadB h.progA hmoved).2.2.1
      cases t with
      | A => exact absurd hmoved ha
      | B => simp only [raceStep, hmoved, RaceState.toWait, hloc]
  | B =>
      have hloc := (stepB_frame (s := s) hmoved).2.2.1
      cases t with
      | A => simp only [raceStep, hmoved, RaceState.toWait, hloc]
      | B => exact absurd hmoved ha

/-- The waits that a thread has passed count its race bodies. -/
theorem RaceInv.bodies_of_returned (h : RaceInv exits s) {t : Thread} {k : Nat}
    (hk : 3 * k ≤ s.pair.returned t) : k ≤ s.bodies t := by
  cases t with
  | A =>
      rw [h.progA.passed] at hk
      cases hloc : s.locA <;> simp only [hloc, passedA] at hk <;> omega
  | B =>
      rw [h.progB.passed] at hk
      cases hloc : s.locB <;> simp only [hloc, passedB] at hk <;> omega

theorem RaceInv.along (h : RaceInv exits s) (threadB : Bool) (sched : ℕ → Action) (n : ℕ) :
    RaceInv exits (trace (raceStep exits threadB) sched s n) := by
  induction n with
  | zero => exact h
  | succ n ih => exact raceInv_step ih (sched n)

section Fair

variable {sched : ℕ → Action} {y : ℕ → RaceState} {t : Thread} {n k : ℕ}
  (hinv : ∀ n, RaceInv exits (y n))
  (hstep : ∀ n, y (n + 1) = raceStep exits threadB (sched n) (y n)) (hfair : Fair sched)

include hinv hstep

theorem moves_of_run (n : ℕ) : Moves (sched n) (y n).pair (y (n + 1)).pair := by
  rw [hstep]
  exact (hinv n).moves (sched n)

theorem left_of_le (hl : (y n).Left t) {m : ℕ} (hm : n ≤ m) :
    (y m).Left t ∧ (y m).bodies t = (y n).bodies t := by
  refine stable_of_succ (P := fun s : RaceState => s.Left t ∧ s.bodies t = (y n).bodies t) ?_
    ⟨hl, rfl⟩ hm
  rintro i ⟨hi, hb⟩
  rw [hstep]
  obtain ⟨hi', hb'⟩ := (hinv i).left_step hi threadB (sched i)
  exact ⟨hi', hb'.trans hb⟩

include hfair

/-- After a wait a thread enters the next one or leaves. -/
theorem eventually_entered (hk : k ≤ (y n).pair.returned t) :
    ∃ m, n ≤ m ∧ ((y m).Left t ∨ k < (y m).pair.entered t) := by
  refine eventually_of_rank (hfair t) (fun s : RaceState => k ≤ s.pair.returned t)
    (fun s => s.Left t ∨ k < s.pair.entered t) (fun s => s.toWait t) ?_ n hk
  intro m hm hnot
  obtain ⟨hl, hentered⟩ := not_or.mp hnot
  have hcount := (hinv m).pair.entered_eq t
  have hout : (y m).pair.pc t = .outside := by
    by_contra hin
    rw [if_neg hin] at hcount
    omega
  have hm' := hm.trans ((moves_of_run hinv hstep m).returned_le t)
  by_cases ha : (sched m).thread = t
  · rw [hstep] at hm' ⊢
    rcases @RaceState.goes_on exits threadB _ _ _ ha hout hl with henters | hleft | hlt
    · exact Or.inl (Or.inr (by omega))
    · exact Or.inl (Or.inl hleft)
    · exact Or.inr ⟨hm', hlt.le, fun _ => hlt⟩
  · refine Or.inr ⟨hm', ?_, fun he => absurd he ha⟩
    rw [hstep, (hinv m).toWait_other ha]

/-- Unless a thread leaves, both get through any number of waits. -/
theorem eventually_through (k : ℕ) :
    ∃ n, (∃ t, (y n).Left t) ∨ ∀ t, k ≤ (y n).pair.returned t := by
  induction k with
  | zero => exact ⟨0, Or.inr fun _ => Nat.zero_le _⟩
  | succ k ih =>
      obtain ⟨n, hleft | hk⟩ := ih
      · exact ⟨n, Or.inl hleft⟩
      have hmoves := moves_of_run hinv hstep
      obtain ⟨m, -, hm⟩ := eventually_both
        (P := fun t s => RaceState.Left s t ∨ k < s.pair.entered t)
        (fun t i hi => hi.imp (fun hl => (left_of_le hinv hstep hl i.le_succ).1)
          fun hlt => hlt.trans_le ((hmoves i).entered_le t))
        fun t => eventually_entered hinv hstep hfair (hk t)
      by_cases hleft : ∃ t, (y m).Left t
      · exact ⟨m, Or.inl hleft⟩
      obtain ⟨m', -, hm'⟩ := eventually_both_returned (x := fun n => (y n).pair)
        (fun i => (hinv i).pair) hmoves hfair m fun t => (hm t).resolve_left fun h => hleft ⟨t, h⟩
      exact ⟨m', Or.inr hm'⟩

/-- Once a thread has left its loop, its partner leaves too. -/
theorem eventually_left (hl : (y n).Left t) : ∃ m, (y m).Left t.other := by
  obtain ⟨hret, hent⟩ := (hinv n).left_counts hl
  -- the partner passes the wait of the last loop test, and could enter one more at most
  obtain ⟨m, hm, hpassed⟩ := eventually_returned (x := fun n => (y n).pair) (t := t.other)
    (k := 3 * (y n).bodies t + 1) (fun n => (hinv n).pair) (moves_of_run hinv hstep) hfair n
    (hret ▸ (hinv n).pair.returned_le t) (by rw [Thread.other_other]; exact hent.ge)
  obtain ⟨m', hm', hleft | hentered⟩ := eventually_entered hinv hstep hfair hpassed
  · exact ⟨m', hleft⟩
  obtain ⟨hl', hb⟩ := left_of_le hinv hstep hl (hm.trans hm')
  have hcounts := (hinv m').left_counts hl'
  rcases (hinv m').partner_of_left hl' with hleft | hle
  · exact ⟨m', hleft⟩
  · omega

end Fair

/-- The race loops under every interleaving and every sequence of exit
decisions. B's `k`-th loop test returns what A's `k`-th decided; the threads
finish the same race bodies; while a thread is in its `k`-th race region its
partner is between entering the second and leaving the third wait of the same
iteration; and when a thread has left its loop its partner waits for nothing
that is still to come, and leaves as well. Until then both go on to finish race
bodies. -/
theorem raceLoop_synchronised (exits : Nat → Bool) (threadB : Bool) (acts : List Action) :
    let s := exec (raceStep exits threadB) RaceState.init acts
    (∀ k, k < s.returnsB.length →
      s.stored[k]? = some (exits k) ∧ s.returnsB[k]? = some (!exits k)) ∧
    ((∀ t, s.Left t) → s.bodies .A = s.bodies .B) ∧
    (∀ t, s.bodies t ≤ s.bodies t.other + 1) ∧
    (∀ t k, s.InRace t k →
      s.pair.returned t = 3 * k + 2 ∧ s.pair.entered t = 3 * k + 2 ∧
      3 * k + 2 ≤ s.pair.entered t.other ∧ s.pair.returned t.other ≤ 3 * k + 2) ∧
    (∀ t, s.Left t.other →
      (∀ k, s.pair.InWait t k → k ≤ s.pair.entered t.other) ∧
      ∀ sched, Fair sched → ∃ n, (trace (raceStep exits threadB) sched s n).Left t) ∧
    ∀ sched, Fair sched → ∀ k, ∃ n, (∃ t, (trace (raceStep exits threadB) sched s n).Left t) ∨
      ∀ t, k ≤ (trace (raceStep exits threadB) sched s n).bodies t := by
  intro s
  have h : RaceInv exits s := raceInv_reachable ⟨acts, rfl⟩
  refine ⟨fun k hk => h.returnsB_get hk, fun hl => h.bodies_eq (hl .A) (hl .B),
    h.bodies_close, fun t k hr => h.inRace hr, ?_, ?_⟩
  · intro t hl
    constructor
    · rintro k ⟨hin, rfl⟩
      rcases h.partner_of_left hl with hleft | hle
      · rw [Thread.other_other] at hleft
        have hcount := h.pair.entered_eq t
        have hcounts := h.left_counts hleft
        rw [if_neg hin] at hcount
        omega
      · rwa [Thread.other_other] at hle
    · intro sched hfair
      have hleave := eventually_left (n := 0) (h.along threadB sched) (fun _ => rfl) hfair hl
      rwa [Thread.other_other] at hleave
  · intro sched hfair k
    have hinv := h.along threadB sched
    obtain ⟨n, hleft | hk⟩ := eventually_through hinv (fun _ => rfl) hfair (3 * k)
    · exact ⟨n, Or.inl hleft⟩
    · exact ⟨n, Or.inr fun t => (hinv n).bodies_of_returned (hk t)⟩

/-- Both threads finish one race body and leave. -/
theorem raceLoop_synchronised_once :
    let s := exec (raceStep (· == 1) true) RaceState.init
      (List.replicate 17 [⟨.A, true⟩, ⟨.B, true⟩]).flatten
    s.bodies .A = 1 ∧ s.locA = .done ∧ s.locB = .done ∧ s.bodies .A = s.bodies .B := by
  refine ⟨by decide, by decide, by decide, (raceLoop_synchronised _ true _).2.1 ?_⟩
  rintro (_ | _)
  · exact Or.inr (Or.inr (by decide))
  · change _ = LocB.done
    decide

end EDDTs.FuzzySync
