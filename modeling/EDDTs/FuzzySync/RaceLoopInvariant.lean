import EDDTs.FuzzySync.RaceLoop

/-!
# The exit decision and the race regions

A thread's location and the number of race bodies it has finished determine
how many waits it has returned from: three for every finished iteration. The
barrier then confines the partner to the matching part of its own iteration,
so `pair->exit` is never rewritten between A's store and B's load.
-/

namespace EDDTs.FuzzySync

open Library.Interleaving

/-- How many waits A has returned from at a location, after `b` race bodies. -/
def passedA (b : Nat) : LocA → Nat
  | .runStore | .runWait => 3 * b
  | .startWait | .cleanup | .join | .done => 3 * b + 1
  | .race => 3 * b + 2
  | .endWait => 3 * b - 1

/-- How many waits B has returned from at a location, after `b` race bodies. -/
def passedB (b : Nat) : LocB → Nat
  | .runWait => 3 * b
  | .runLoad | .startWait | .done => 3 * b + 1
  | .race => 3 * b + 2
  | .endWait => 3 * b - 1

/-- Thread A's own part of the invariant. -/
structure ProgA (s : RaceState) : Prop where
  passed : s.pair.returned .A = passedA (s.bodies .A) s.locA
  inside : s.pair.pc .A ≠ .outside → s.locA = .runWait ∨ s.locA = .startWait ∨ s.locA = .endWait
  body : s.locA = .endWait → 0 < s.bodies .A
  count : s.stored.length =
    if s.locA = .runStore ∨ s.locA = .endWait then s.bodies .A else s.bodies .A + 1
  flag : ∀ d, s.stored.getLast? = some d → s.exit = d ∧ s.localExit = d
  continues : s.locA = .startWait ∨ s.locA = .race → s.localExit = false
  exits : s.Left .A → s.localExit = true

/-- Thread B's own part of the invariant. -/
structure ProgB (s : RaceState) : Prop where
  passed : s.pair.returned .B = passedB (s.bodies .B) s.locB
  inside : s.pair.pc .B ≠ .outside → s.locB = .runWait ∨ s.locB = .startWait ∨ s.locB = .endWait
  body : s.locB = .endWait → 0 < s.bodies .B
  count : s.returnsB.length =
    if s.locB = .startWait ∨ s.locB = .race ∨ s.locB = .done then s.bodies .B + 1
    else s.bodies .B
  continues : s.locB = .startWait ∨ s.locB = .race → s.returnsB.getLast? = some true
  exits : s.locB = .done → s.returnsB.getLast? = some false

structure RaceInv (exits : Nat → Bool) (s : RaceState) : Prop where
  pair : PairInv s.pair
  progA : ProgA s
  progB : ProgB s
  decided : s.stored = (List.range s.stored.length).map exits
  agree : s.returnsB = (s.stored.take s.returnsB.length).map (!·)
  short : s.returnsB.length ≤ s.stored.length

section Counts

/-- One access of a wait completes it exactly when it ends outside. -/
theorem PairInv.returned_waitStep {s : PairState} (h : PairInv s) (a : Action) :
    (waitStep a s).returned a.thread =
      s.returned a.thread + if (waitStep a s).pc a.thread = .outside then 1 else 0 := by
  by_cases hpc : s.pc a.thread = .outside
  · have hin : (waitStep a s).pc a.thread ≠ .outside := by
      rw [waitStep_pc_self, hpc]
      simp only [pairWaitStep]
      split <;> simp
    simp only [PairState.returned, if_neg hin, if_pos hpc, waitStep_entered_self]
    omega
  · have hpos : 0 < s.entered a.thread := by
      have hw := (h a.thread).writer
      cases hp : s.pc a.thread <;> simp_all [WriterOk]
    simp only [PairState.returned, hpc, if_false, waitStep_entered_self]
    split <;> omega

/-- Entered and returned counts differ by the wait the thread is in. -/
theorem PairInv.entered_eq {s : PairState} (h : PairInv s) (t : Thread) :
    s.entered t = s.returned t + if s.pc t = .outside then 0 else 1 := by
  unfold PairState.returned
  split
  · simp
  · have hw := (h t).writer
    have hpos : 0 < s.entered t := by
      cases hp : s.pc t <;> simp_all [WriterOk]
    omega

/-- A thread is in one wait at most, and has returned from no wait that its partner has not
entered. -/
theorem PairInv.bounds {s : PairState} (h : PairInv s) (t : Thread) :
    s.entered t ≤ s.returned t + 1 ∧ s.returned t ≤ s.entered t.other := by
  have hn := h.entered_eq t
  exact ⟨by split at hn <;> omega, h.returned_le t⟩

end Counts

theorem raceInv_init (exits : Nat → Bool) : RaceInv exits RaceState.init where
  pair := pairInv_init
  progA := by
    constructor <;>
      simp [RaceState.init, PairState.init, PairState.returned, passedA, RaceState.Left]
  progB := by
    constructor <;> simp [RaceState.init, PairState.init, PairState.returned, passedB]
  decided := rfl
  agree := rfl
  short := le_rfl

section Frame

variable {s s' : RaceState}

/-- A's part of the invariant reads nothing that B writes. -/
theorem ProgA.congr (h : ProgA s) (hr : s'.pair.returned .A = s.pair.returned .A)
    (hpc : s'.pair.pc .A = s.pair.pc .A) (hloc : s'.locA = s.locA)
    (hb : s'.bodies .A = s.bodies .A) (hst : s'.stored = s.stored)
    (he : s'.exit = s.exit) (hl : s'.localExit = s.localExit) : ProgA s' where
  passed := by rw [hr, hb, hloc]; exact h.passed
  inside := by rw [hpc, hloc]; exact h.inside
  body := by rw [hloc, hb]; exact h.body
  count := by rw [hst, hloc, hb]; exact h.count
  flag := by rw [hst, he, hl]; exact h.flag
  continues := by rw [hloc, hl]; exact h.continues
  exits := by simpa only [RaceState.Left, hloc, hl] using h.exits

/-- B's part of the invariant reads nothing that A writes. -/
theorem ProgB.congr (h : ProgB s) (hr : s'.pair.returned .B = s.pair.returned .B)
    (hpc : s'.pair.pc .B = s.pair.pc .B) (hloc : s'.locB = s.locB)
    (hb : s'.bodies .B = s.bodies .B) (hret : s'.returnsB = s.returnsB) : ProgB s' where
  passed := by rw [hr, hb, hloc]; exact h.passed
  inside := by rw [hpc, hloc]; exact h.inside
  body := by rw [hloc, hb]; exact h.body
  count := by rw [hret, hloc, hb]; exact h.count
  continues := by rw [hloc, hret]; exact h.continues
  exits := by rw [hloc, hret]; exact h.exits

theorem waitStep_returned_frame (a : Action) (s : PairState) {t : Thread} (h : t ≠ a.thread) :
    (waitStep a s).returned t = s.returned t := by
  obtain ⟨hpc, hn⟩ := waitStep_frame a s h
  simp [PairState.returned, hpc, hn]

end Frame

section WaitA

variable {s : RaceState} {a : Action} {next : LocA}

/-- A wait of A that ends moves A to the next location, one wait further. -/
theorem ProgA.wait (h : ProgA s) (hp : PairInv s.pair) (ha : a.thread = .A)
    (hloc : s.locA = .runWait ∨ s.locA = .startWait ∨ s.locA = .endWait)
    (hpass : passedA (s.bodies .A) next = passedA (s.bodies .A) s.locA + 1)
    (hnext : next ≠ .endWait)
    (hcount : s.stored.length =
      if next = .runStore ∨ next = .endWait then s.bodies .A else s.bodies .A + 1)
    (hcont : next = .startWait ∨ next = .race → s.localExit = false)
    (hexit : next = .cleanup ∨ next = .join ∨ next = .done → s.localExit = true) :
    ProgA (s.waitA a next) := by
  have hret := hp.returned_waitStep a
  rw [ha] at hret
  by_cases hout : (waitStep a s.pair).pc .A = .outside
  · rw [if_pos hout, h.passed] at hret
    refine ⟨?_, ?_, ?_, ?_, h.flag, ?_, ?_⟩ <;> simp only [RaceState.waitA, RaceState.Left, if_pos hout]
    · exact hret.trans hpass.symm
    · exact fun hin => absurd hout hin
    · exact fun he => absurd he hnext
    · exact hcount
    · exact hcont
    · exact hexit
  · rw [if_neg hout] at hret
    refine ⟨?_, ?_, ?_, ?_, h.flag, ?_, ?_⟩ <;> simp only [RaceState.waitA, RaceState.Left, if_neg hout]
    · exact hret.trans h.passed
    · exact fun _ => hloc
    · exact h.body
    · exact h.count
    · exact h.continues
    · exact h.exits

end WaitA

section WaitB

variable {s : RaceState} {a : Action} {next : LocB}

/-- A wait of B that ends moves B to the next location, one wait further. -/
theorem ProgB.wait (h : ProgB s) (hp : PairInv s.pair) (ha : a.thread = .B)
    (hloc : s.locB = .runWait ∨ s.locB = .startWait ∨ s.locB = .endWait)
    (hpass : passedB (s.bodies .B) next = passedB (s.bodies .B) s.locB + 1)
    (hnext : next ≠ .endWait)
    (hcount : s.returnsB.length =
      if next = .startWait ∨ next = .race ∨ next = .done then s.bodies .B + 1
      else s.bodies .B)
    (hcont : next = .startWait ∨ next = .race → s.returnsB.getLast? = some true)
    (hexit : next ≠ .done) : ProgB (s.waitB a next) := by
  have hret := hp.returned_waitStep a
  rw [ha] at hret
  by_cases hout : (waitStep a s.pair).pc .B = .outside
  · rw [if_pos hout, h.passed] at hret
    refine ⟨?_, ?_, ?_, ?_, ?_, ?_⟩ <;> simp only [RaceState.waitB, if_pos hout]
    · exact hret.trans hpass.symm
    · exact fun hin => absurd hout hin
    · exact fun he => absurd he hnext
    · exact hcount
    · exact hcont
    · exact fun he => absurd he hexit
  · rw [if_neg hout] at hret
    refine ⟨?_, ?_, ?_, ?_, ?_, ?_⟩ <;> simp only [RaceState.waitB, if_neg hout]
    · exact hret.trans h.passed
    · exact fun _ => hloc
    · exact h.body
    · exact h.count
    · exact h.continues
    · exact h.exits

end WaitB

section StepA

variable {exits : Nat → Bool} {threadB : Bool} {a : Action} {s : RaceState}

/-- A location of A outside its three waits is reached with A outside. -/
theorem ProgA.outside (h : ProgA s)
    (hloc : ¬ (s.locA = .runWait ∨ s.locA = .startWait ∨ s.locA = .endWait)) :
    s.pair.pc .A = .outside :=
  not_imp_comm.mp h.inside hloc

/-- When A cleans up, the exit request is set. -/
theorem ProgA.exit_of_left (h : ProgA s) (hl : s.Left .A) : s.exit = true := by
  have hne : s.stored ≠ [] := by
    intro he
    have hc := h.count
    rcases hl with hl | hl | hl <;> simp [hl, he] at hc
  obtain ⟨he, hle⟩ := h.flag _ (List.getLast?_eq_some_getLast hne)
  exact (he.trans hle.symm).trans (h.exits hl)

/-- After its loop A only moves on towards its return. -/
theorem stepA_left (exits : Nat → Bool) (threadB : Bool) (a : Action)
    (h : ProgA s) (hl : s.Left .A) : ∃ loc,
    (loc = .cleanup ∨ loc = .join ∨ loc = .done) ∧
      stepA exits threadB a s = { s with locA := loc } := by
  have hexit := h.exit_of_left hl
  rcases hl with hloc | hloc | hloc
  · cases threadB with
    | true => exact ⟨.join, by simp, by simp [stepA, hloc, hexit]⟩
    | false => exact ⟨.done, by simp, by simp [stepA, hloc]⟩
  · by_cases hB : s.locB = .done
    · exact ⟨.done, by simp, by simp [stepA, hloc, hB]⟩
    · have hstay : stepA exits threadB a s = s := by simp [stepA, hloc, hB]
      exact ⟨s.locA, by simp [hloc], hstay⟩
  · have hstay : stepA exits threadB a s = s := by simp [stepA, hloc]
    exact ⟨s.locA, by simp [hloc], hstay⟩

theorem ProgA.relocate (h : ProgA s) (hl : s.Left .A) {loc : LocA}
    (hloc : loc = .cleanup ∨ loc = .join ∨ loc = .done) : ProgA { s with locA := loc } := by
  have hout : s.pair.pc .A = .outside := by
    rcases hl with he | he | he <;> exact h.outside (by simp [he])
  have hpassed : s.pair.returned .A = 3 * s.bodies .A + 1 := by
    rcases hl with he | he | he <;> simpa [he, passedA] using h.passed
  have hcount : s.stored.length = s.bodies .A + 1 := by
    rcases hl with he | he | he <;> simpa [he] using h.count
  rcases hloc with rfl | rfl | rfl <;>
    exact ⟨hpassed, fun hin => absurd hout hin, by simp, by simpa using hcount, h.flag,
      by simp, fun _ => h.exits hl⟩

theorem progA_stepA (h : ProgA s) (hp : PairInv s.pair) (ha : a.thread = .A) :
    ProgA (stepA exits threadB a s) := by
  cases hloc : s.locA with
  | runStore =>
      have hcount := h.count
      simp only [stepA, hloc]
      refine ⟨by simpa [hloc, passedA] using h.passed, by simp, by simp, ?_, ?_, by simp,
        by simp [RaceState.Left]⟩
      · simp [hcount, hloc]
      · intro d hd
        simpa using hd
  | runWait =>
      simp only [stepA, hloc]
      have hcount := h.count
      rw [hloc] at hcount
      cases hexit : s.localExit with
      | true =>
          exact h.wait hp ha (Or.inl hloc) (by simp [hloc, passedA]) (by simp) (by simpa using hcount)
            (by simp) (fun _ => hexit)
      | false =>
          exact h.wait hp ha (Or.inl hloc) (by simp [hloc, passedA]) (by simp) (by simpa using hcount)
            (fun _ => hexit) (by simp)
  | startWait =>
      simp only [stepA, hloc]
      have hcount := h.count
      rw [hloc] at hcount
      exact h.wait hp ha (Or.inr (Or.inl hloc)) (by simp [hloc, passedA]) (by simp)
        (by simpa using hcount) (fun _ => h.continues (Or.inl hloc)) (by simp)
  | race =>
      have hcount := h.count
      have hpassed := h.passed
      rw [hloc] at hcount hpassed
      simp only [stepA, hloc, RaceState.finishBody]
      refine ⟨?_, by simp, by simp, ?_, h.flag, by simp, by simp [RaceState.Left]⟩
      · simp only [passedA, Function.update_self] at hpassed ⊢
        omega
      · simpa using hcount
  | endWait =>
      simp only [stepA, hloc]
      have hcount := h.count
      rw [hloc] at hcount
      have hbody := h.body hloc
      refine h.wait hp ha (Or.inr (Or.inr hloc)) ?_ (by simp) (by simpa using hcount)
        (by simp) (by simp)
      simp only [hloc, passedA]
      omega
  | cleanup =>
      obtain ⟨loc, hl, he⟩ := stepA_left exits threadB a h (Or.inl hloc)
      exact he ▸ h.relocate (Or.inl hloc) hl
  | join =>
      have hleft : s.Left .A := Or.inr (Or.inl hloc)
      obtain ⟨loc, hl, he⟩ := stepA_left exits threadB a h hleft
      exact he ▸ h.relocate hleft hl
  | done => simpa only [stepA, hloc] using h

/-- A step of A leaves everything of B as it is. -/
theorem stepA_frame (exits : Nat → Bool) (threadB : Bool) (h : ProgA s) (ha : a.thread = .A) :
    (stepA exits threadB a s).pair.returned .B = s.pair.returned .B ∧
      (stepA exits threadB a s).pair.pc .B = s.pair.pc .B ∧
      (stepA exits threadB a s).locB = s.locB ∧
      (stepA exits threadB a s).bodies .B = s.bodies .B ∧
      (stepA exits threadB a s).returnsB = s.returnsB := by
  have hne : Thread.B ≠ a.thread := by rw [ha]; decide
  have hr := waitStep_returned_frame a s.pair hne
  have hpc := (waitStep_frame a s.pair hne).1
  cases hloc : s.locA with
  | cleanup =>
      obtain ⟨loc, _, he⟩ := stepA_left exits threadB a h (Or.inl hloc)
      simp [he]
  | join => simp only [stepA, hloc]; split <;> simp
  | _ => simp [stepA, hloc, RaceState.waitA, RaceState.finishBody, hr, hpc]

end StepA

section StepB

variable {exits : Nat → Bool} {a : Action} {s : RaceState}

theorem ProgB.outside (h : ProgB s) (h₁ : s.locB ≠ .runWait) (h₂ : s.locB ≠ .startWait)
    (h₃ : s.locB ≠ .endWait) : s.pair.pc .B = .outside := by
  by_contra hin
  rcases h.inside hin with he | he | he
  · exact h₁ he
  · exact h₂ he
  · exact h₃ he

theorem progB_stepB (h : ProgB s) (hp : PairInv s.pair) (ha : a.thread = .B) :
    ProgB (stepB a s) := by
  have hcount := h.count
  have hpassed := h.passed
  cases hloc : s.locB with
  | runWait =>
      rw [hloc] at hcount
      simp only [stepB, hloc]
      exact h.wait hp ha (Or.inl hloc) (by simp [hloc, passedB]) (by simp) (by simpa using hcount)
        (by simp) (by simp)
  | runLoad =>
      rw [hloc] at hcount hpassed
      have hout := h.outside (by simp [hloc]) (by simp [hloc]) (by simp [hloc])
      simp only [stepB, hloc]
      cases hexit : s.exit with
      | true =>
          exact ⟨hpassed, fun hin => absurd hout hin, by simp, by simpa using hcount, by simp,
            by simp⟩
      | false =>
          exact ⟨hpassed, fun hin => absurd hout hin, by simp, by simpa using hcount, by simp,
            by simp⟩
  | startWait =>
      rw [hloc] at hcount
      simp only [stepB, hloc]
      exact h.wait hp ha (Or.inr (Or.inl hloc)) (by simp [hloc, passedB]) (by simp)
        (by simpa using hcount) (fun _ => h.continues (Or.inl hloc)) (by simp)
  | race =>
      rw [hloc] at hcount hpassed
      simp only [stepB, hloc, RaceState.finishBody]
      refine ⟨?_, by simp, by simp, by simpa using hcount, by simp, by simp⟩
      simp only [passedB, Function.update_self] at hpassed ⊢
      omega
  | endWait =>
      rw [hloc] at hcount
      have hbody := h.body hloc
      simp only [stepB, hloc]
      refine h.wait hp ha (Or.inr (Or.inr hloc)) ?_ (by simp) (by simpa using hcount)
        (by simp) (by simp)
      simp only [hloc, passedB]
      omega
  | done => simpa only [stepB, hloc] using h

/-- A step of B leaves everything of A as it is. -/
theorem stepB_frame (ha : a.thread = .B) :
    (stepB a s).pair.returned .A = s.pair.returned .A ∧
      (stepB a s).pair.pc .A = s.pair.pc .A ∧ (stepB a s).locA = s.locA ∧
      (stepB a s).bodies .A = s.bodies .A ∧ (stepB a s).stored = s.stored ∧
      (stepB a s).exit = s.exit ∧ (stepB a s).localExit = s.localExit := by
  have hne : Thread.A ≠ a.thread := by rw [ha]; decide
  have hr := waitStep_returned_frame a s.pair hne
  have hpc := (waitStep_frame a s.pair hne).1
  cases hloc : s.locB <;>
    simp [stepB, hloc, RaceState.waitB, RaceState.finishBody, hr, hpc]

/-- When B is about to load the flag, A has stored exactly one decision more
than B has read, and has not stored the next one. -/
theorem RaceInv.stored_of_runLoad (h : RaceInv exits s) (hloc : s.locB = .runLoad) :
    s.stored.length = s.returnsB.length + 1 := by
  have hAn := h.pair.entered_eq .A
  have hBn := h.pair.entered_eq .B
  have hAB := h.pair.returned_le .A
  have hBA := h.pair.returned_le .B
  have hout := h.progB.outside (by simp [hloc]) (by simp [hloc]) (by simp [hloc])
  have hB := h.progB.passed
  have hBc := h.progB.count
  have hA := h.progA.passed
  have hAc := h.progA.count
  have hAi := h.progA.inside
  have hAb := h.progA.body
  simp only [Thread.other] at hAB hBA
  simp only [hloc, passedB, hout] at hB hBn hBc
  simp only [if_true, reduceCtorEq, or_self, if_false] at hBn hBc
  by_cases hin : s.pair.pc .A = .outside
  · simp only [hin, if_true] at hAn
    cases hl : s.locA <;> simp [hl, passedA] at hA hAc hAb <;> omega
  · simp only [hin, if_false] at hAn
    rcases hAi hin with hl | hl | hl <;> simp [hl, passedA] at hA hAc hAb <;> omega

end StepB

section Step

variable {exits : Nat → Bool} {threadB : Bool} {a : Action} {s : RaceState}

/-- Every action is an access of the wait or leaves the pair alone. -/
theorem RaceInv.moves (h : RaceInv exits s) (a : Action) :
    Moves a s.pair (raceStep exits threadB a s).pair := by
  cases ha : a.thread with
  | A =>
      simp only [raceStep, ha]
      cases hloc : s.locA with
      | runWait | startWait | endWait =>
          exact Or.inl (by simp [stepA, hloc, RaceState.waitA])
      | _ =>
          refine Or.inr ⟨?_, ?_⟩
          · simp only [stepA, hloc, RaceState.finishBody]
            repeat' split
            all_goals rfl
          · rw [ha]
            exact h.progA.outside (by simp [hloc])
  | B =>
      simp only [raceStep, ha]
      cases hloc : s.locB with
      | runWait | startWait | endWait =>
          exact Or.inl (by simp [stepB, hloc, RaceState.waitB])
      | _ =>
          refine Or.inr ⟨by simp [stepB, hloc, RaceState.finishBody], ?_⟩
          rw [ha]
          exact h.progB.outside (by simp [hloc]) (by simp [hloc]) (by simp [hloc])

theorem Moves.pairInv {s s' : PairState} (h : Moves a s s') (hs : PairInv s) : PairInv s' := by
  rcases h with rfl | ⟨rfl, _⟩
  · exact pairInv_step a hs
  · exact hs

/-- A's decisions are those of the parameter, in order. -/
theorem stepA_stored (exits : Nat → Bool) (threadB : Bool) (a : Action) (s : RaceState) :
    (stepA exits threadB a s).stored = s.stored ∨
    (stepA exits threadB a s).stored = s.stored ++ [exits s.stored.length] := by
  cases hloc : s.locA <;>
    simp only [stepA, hloc, RaceState.waitA, RaceState.finishBody] <;>
    (repeat' split) <;> simp

/-- Only the load of `pair->exit` extends what B has returned. -/
theorem stepB_returnsB (hloc : s.locB ≠ .runLoad) : (stepB a s).returnsB = s.returnsB := by
  cases hl : s.locB <;> simp_all [stepB, RaceState.waitB, RaceState.finishBody]

theorem raceInv_step (h : RaceInv exits s) (a : Action) :
    RaceInv exits (raceStep exits threadB a s) := by
  have hpair : PairInv (raceStep exits threadB a s).pair := (h.moves a).pairInv h.pair
  cases ha : a.thread with
  | A =>
      simp only [raceStep, ha] at hpair ⊢
      obtain ⟨hr, hpc, hloc, hb, hret⟩ := stepA_frame exits threadB h.progA ha
      have hA : ProgA (stepA exits threadB a s) := progA_stepA h.progA h.pair ha
      have hB := h.progB.congr hr hpc hloc hb hret
      have hshort := h.short
      rcases stepA_stored exits threadB a s with hst | hst
      · exact ⟨hpair, hA, hB, by rw [hst]; exact h.decided, by rw [hret, hst]; exact h.agree,
          by rw [hret, hst]; exact hshort⟩
      · refine ⟨hpair, hA, hB, ?_, ?_, ?_⟩
        · rw [hst, List.length_append, List.length_singleton, List.range_succ, List.map_append,
            ← h.decided]
          rfl
        · rw [hret, hst, List.take_append_of_le_length hshort]
          exact h.agree
        · rw [hret, hst, List.length_append]
          omega
  | B =>
      simp only [raceStep, ha] at hpair ⊢
      obtain ⟨hr, hpc, hloc, hb, hst, he, hl⟩ := stepB_frame (s := s) ha
      have hA := h.progA.congr hr hpc hloc hb hst he hl
      have hB := progB_stepB h.progB h.pair ha
      by_cases hload : s.locB = .runLoad
      · have hlen := h.stored_of_runLoad hload
        have hret : (stepB a s).returnsB = s.returnsB ++ [!s.exit] := by simp [stepB, hload]
        -- the decision B reads is the last one A stored
        have hlast : s.stored[s.returnsB.length]? = some s.exit := by
          have hne : s.stored ≠ [] := by
            intro hnil
            simp [hnil] at hlen
          have hd := List.getLast?_eq_some_getLast hne
          rw [(h.progA.flag _ hd).1, ← hd, List.getLast?_eq_getElem?, hlen]
          rfl
        refine ⟨hpair, hA, hB, by rw [hst]; exact h.decided, ?_, ?_⟩
        · rw [hret, hst, List.length_append, List.length_singleton, List.take_add_one, hlast,
            List.map_append, ← h.agree]
          rfl
        · rw [hret, hst, List.length_append, List.length_singleton, hlen]
      · have hret := stepB_returnsB (a := a) hload
        exact ⟨hpair, hA, hB, by rw [hst]; exact h.decided, by rw [hret, hst]; exact h.agree,
          by rw [hret, hst]; exact h.short⟩

theorem raceInv_reachable (h : Reachable (raceStep exits threadB) RaceState.init s) :
    RaceInv exits s :=
  h.invariant (raceInv_init exits) fun _ a hs => raceInv_step hs a

end Step

end EDDTs.FuzzySync
