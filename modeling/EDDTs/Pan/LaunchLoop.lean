import EDDTs.Pan.DriverGroups

/-!
# The launch loop

The inner loop of `main` calls `run_child` until `keep_active` commands run or no
start is left. A call that fails counts as a start in sequential mode only, and in
neither mode when the number of starts is not limited: the two variables in the
guard of the loop then keep their values.
-/

namespace EDDTs.Pan

open Library Library.Interleaving

/-- `run_child` returns the pid of a child. -/
def Answer.starts (a : Answer) : Bool :=
  match a.start with
  | .started _ => true
  | _ => false

/-! ### The two variables of the guard -/

/-- `num_active` and `starts`. -/
abbrev LoopVars := Int × Int

/-- The guard of the loop. -/
def LoopVars.Guard (o : Options) (x : LoopVars) : Prop := x.1 < o.keepActive ∧ x.2 ≠ 0

/-- A turn of the loop. -/
def LoopVars.turn (o : Options) (started : Bool) (x : LoopVars) : LoopVars :=
  (if started then x.1 + 1 else x.1,
    if (started ∨ o.sequential) ∧ 0 < x.2 then x.2 - 1 else x.2)

/-- The variables before the turn `k`, with the outcomes of the turns. -/
def LoopVars.at (o : Options) (started : ℕ → Bool) (x : LoopVars) : ℕ → LoopVars
  | 0 => x
  | k + 1 => (LoopVars.at o started x k).turn o (started k)

/-- How many of the first `k` attempts start a child. -/
def successes (started : ℕ → Bool) (k : ℕ) : ℕ := (List.range k).countP started

theorem successes_succ (started : ℕ → Bool) (k : ℕ) :
    successes started (k + 1) = successes started k + if started k then 1 else 0 := by
  simp [successes, List.range_succ, List.countP_append, List.countP_singleton]

theorem successes_le (started : ℕ → Bool) (k : ℕ) : successes started k ≤ k := by
  simpa [successes] using List.countP_le_length (p := started) (l := List.range k)

section Vars

variable (o : Options) (started : ℕ → Bool) (x : LoopVars)

theorem at_fst (k : ℕ) : (LoopVars.at o started x k).1 = x.1 + successes started k := by
  induction k with
  | zero => simp [LoopVars.at, successes]
  | succ k ih =>
      rw [successes_succ, LoopVars.at, LoopVars.turn, ih]
      cases started k
      · simp
      · simp only [if_true]
        push_cast
        omega

/-- The attempts that count as starts. -/
def counted (k : ℕ) : ℕ := if o.sequential then k else successes started k

theorem at_snd (k : ℕ) : (LoopVars.at o started x k).2 =
    if x.2 < 0 then x.2 else max 0 (x.2 - counted o started k) := by
  induction k with
  | zero =>
      simp only [LoopVars.at, counted, successes, List.range_zero, List.countP_nil, ite_self]
      split <;> omega
  | succ k ih =>
      rw [LoopVars.at, LoopVars.turn, ih]
      by_cases hcounts : started k = true ∨ o.sequential = true
      · have hcounted : counted o started (k + 1) = counted o started k + 1 := by
          rw [counted, counted, successes_succ]
          cases hmode : o.sequential with
          | true => rfl
          | false => simp_all
        rw [hcounted]
        push_cast
        simp only [hcounts, true_and]
        split_ifs <;> omega
      · have hcounted : counted o started (k + 1) = counted o started k := by
          obtain ⟨hstarted, hmode⟩ := not_or.mp hcounts
          rw [counted, counted, successes_succ, if_neg hstarted, if_neg hmode, if_neg hmode]
          rfl
        rw [hcounted]
        simp only [hcounts, false_and, if_false]

/-- The guard fails at some turn: in sequential mode with a limited number of starts, or
when enough attempts start a child. -/
theorem exists_not_guard_iff :
    (∃ k, ¬ (LoopVars.at o started x k).Guard o) ↔
      (o.sequential = true ∧ 0 ≤ x.2) ∨
        ∃ k, (o.keepActive : Int) ≤ x.1 + successes started k ∨
          (0 ≤ x.2 ∧ x.2 ≤ successes started k) := by
  have hguard : ∀ k, (¬ (LoopVars.at o started x k).Guard o) ↔
      (o.keepActive : Int) ≤ x.1 + successes started k ∨
        (0 ≤ x.2 ∧ x.2 ≤ counted o started k) := by
    intro k
    rw [LoopVars.Guard, at_fst, at_snd]
    split_ifs <;> omega
  simp only [hguard]
  constructor
  · rintro ⟨k, hfull | hspent⟩
    · exact Or.inr ⟨k, Or.inl hfull⟩
    · cases hmode : o.sequential with
      | true => exact Or.inl ⟨rfl, hspent.1⟩
      | false =>
          rw [counted, hmode] at hspent
          exact Or.inr ⟨k, Or.inr hspent⟩
  · rintro (⟨hmode, hlimit⟩ | ⟨k, hfull | hspent⟩)
    · refine ⟨x.2.toNat, Or.inr ⟨hlimit, ?_⟩⟩
      rw [counted, if_pos hmode]
      omega
    · exact ⟨k, Or.inl hfull⟩
    · have hle := successes_le started k
      refine ⟨k, Or.inr ⟨hspent.1, ?_⟩⟩
      rw [counted]
      split_ifs <;> omega

end Vars

/-! ### The loop -/

section Loop

variable {o : Options} {coll : List CollEntry} {s s' : PanState} {a : Answer}

/-- The variables of the guard in a state. -/
def PanState.loopVars (s : PanState) : LoopVars := (s.numActive, s.starts)

/-- Nothing but its guard ends the loop. -/
structure Unstopped (s : PanState) : Prop where
  stop : s.stop = 0
  goIdle : s.goIdle = 0
  recSignal : s.signals.recSignal = none

theorem ChildRun.outcome {colle : CollEntry} {i attempt : Nat} {slot : Slot}
    (hrun : ChildRun o colle i attempt a slot s s') (hpc : s'.pc ≠ .aborted) :
    (∃ cpid, s'.pc = .ranChild cpid ∧ cpid.isSome = a.starts) ∧ s'.numActive = s.numActive ∧
      (a.starts = false → s'.live = s.live) := by
  cases hrun with
  | refused why b entered start books pc =>
      have hstarts : a.starts = false := by
        unfold Answer.starts
        rcases start with h | h | h <;> rw [h]
      refine ⟨⟨none, pc, hstarts.symm⟩, ?_⟩
      rw [books]
      rcases entered with rfl | rfl <;> exact ⟨rfl, fun _ => rfl⟩
  | aborted cause books pc => exact absurd pc hpc
  | failed errbuf status endTime start gone books pc rts =>
      have hstarts : a.starts = false := by rw [Answer.starts, start]
      rw [books, Books.failedStart_eq]
      exact ⟨⟨none, pc, hstarts.symm⟩, rfl, fun _ => rfl⟩
  | started pid start pos fresh books pc rts =>
      have hstarts : a.starts = true := by rw [Answer.starts, start]
      rw [books]
      refine ⟨⟨some pid, ?_, hstarts.symm⟩, rfl, fun h => absurd h (by simp [hstarts])⟩
      rw [pc] at hpc ⊢
      split
      · rfl
      · rename_i hzoo
        rw [if_neg hzoo] at hpc
        exact absurd rfl hpc

/-- Without room or starts the loop ends. -/
theorem launch_leaves (hpc : s.pc = .launch) (hguard : ¬ s.loopVars.Guard o) :
    panNext o coll s (.step a) = some { s with pc := .launched } := by
  simp only [panNext, hpc, PanState.launch]
  exact if_neg hguard

/-- With room and starts `run_child` is called, and the loop goes on. -/
theorem launch_turn (hok : SlotsOk o s) (hpc : s.pc = .launch) (hgo : Unstopped s)
    (hguard : s.loopVars.Guard o) (h : panNext o coll s (.step a) = some s')
    (hpc' : s'.pc ≠ .aborted) (a' : Answer) :
    (∃ cpid, s'.pc = .ranChild cpid) ∧
      (panStep o coll (.step a') s').pc = .launch ∧
      Unstopped (panStep o coll (.step a') s') ∧
      (panStep o coll (.step a') s').loopVars = s.loopVars.turn o a.starts ∧
      (panStep o coll (.step a') s').orphans = s.orphans ∧
      (a.starts = false → (panStep o coll (.step a') s').live = s.live) := by
  have hnext : s.launch o coll a = some s' := by simpa only [panNext, hpc] using h
  have hinv := hok.2 (by simp [hpc])
  rw [hpc] at hinv
  have horphans := PanState.launch_orphans hnext
  cases launch_moves hnext with
  | idle full eq =>
      rcases full with hfull | hstop | hsignal | hidle
      · exact absurd hguard hfull
      · exact absurd hgo.stop hstop
      · exact absurd hgo.recSignal hsignal
      · exact absurd hgo.goIdle hidle
  | noSlot room slot eq => exact absurd slot (hinv.find_free rfl room)
  | run i c colle room starts stop index slot entry call =>
      obtain ⟨control, run⟩ := call_cases hpc call
      obtain ⟨⟨cpid, hran, hstarts⟩, hactive, hlive⟩ := run.outcome hpc'
      have hstep : panStep o coll (.step a') s' = s'.ranChild o coll.length cpid := by
        simp [panStep, panNext, hran]
      rw [hstep]
      refine ⟨⟨cpid, hran⟩, rfl, ?_, ?_, horphans, hlive⟩
      · constructor
        · exact (congrArg Control.stop control).trans hgo.stop
        · exact (congrArg Control.goIdle control).trans hgo.goIdle
        · exact (congrArg (fun c => c.signals.recSignal) control).trans hgo.recSignal
      · have hleft : s'.starts = (s.choose c).starts := congrArg Control.starts control
        simp only [PanState.loopVars, PanState.ranChild, LoopVars.turn, hstarts, hactive, hleft]
        rfl

theorem slotsOk_panStep {e : Event} (hok : SlotsOk o s) : SlotsOk o (panStep o coll e s) := by
  unfold panStep
  cases hnext : panNext o coll s e with
  | none => exact hok
  | some s' =>
      obtain ⟨hpc, hmove⟩ := panNext_cases hnext
      exact slotsOk_step hok hpc.2 hmove

/-- The loop runs from `s` on with these answers. -/
def loopRun (o : Options) (coll : List CollEntry) (answers : ℕ → Answer) (s : PanState) : ℕ → PanState :=
  trace (panStep o coll) (fun n => .step (answers n)) s

variable {answers : ℕ → Answer}

theorem loopRun_succ {n : ℕ}
    (h : panNext o coll (loopRun o coll answers s n) (.step (answers n)) = some s') :
    loopRun o coll answers s (n + 1) = s' := by
  have hstep : loopRun o coll answers s (n + 1) =
      (panNext o coll (loopRun o coll answers s n) (.step (answers n))).getD
        (loopRun o coll answers s n) := rfl
  rw [hstep, h]
  rfl

/-- Every call of `run_child` returns. -/
def ChildrenReturn (o : Options) (coll : List CollEntry) (answers : ℕ → Answer) (s : PanState) :
    Prop :=
  ∀ n, (loopRun o coll answers s n).pc = .launch →
    ∃ s', panNext o coll (loopRun o coll answers s n) (.step (answers n)) = some s' ∧
      s'.pc ≠ .aborted

/-- The outcomes of the attempts: the loop takes two steps for each. -/
def outcomes (answers : ℕ → Answer) (k : ℕ) : Bool := (answers (2 * k)).starts

/-- The state before the turn `k`. -/
structure AtTurn (o : Options) (answers : ℕ → Answer) (s : PanState) (k : ℕ) (t : PanState) :
    Prop where
  slots : SlotsOk o t
  pc : t.pc = .launch
  go : Unstopped t
  vars : t.loopVars = LoopVars.at o (outcomes answers) s.loopVars k
  orphans : t.orphans = s.orphans
  live : (∀ j, (answers j).starts = false) → t.live = s.live

/-- As long as the guard holds, the loop makes its turns. -/
theorem loopRun_turn (hok : SlotsOk o s) (hpc : s.pc = .launch) (hgo : Unstopped s)
    (hreturn : ChildrenReturn o coll answers s) {k : ℕ}
    (hguard : ∀ j < k, (LoopVars.at o (outcomes answers) s.loopVars j).Guard o) :
    AtTurn o answers s k (loopRun o coll answers s (2 * k)) ∧
      ∀ j < k, ∃ cpid, (loopRun o coll answers s (2 * j + 1)).pc = .ranChild cpid := by
  induction k with
  | zero => exact ⟨⟨hok, hpc, hgo, rfl, rfl, fun _ => rfl⟩, by simp⟩
  | succ k ih =>
      obtain ⟨hturn, hodd⟩ := ih fun j hj => hguard j (Nat.lt_succ_of_lt hj)
      obtain ⟨s', hnext, hpc'⟩ := hreturn (2 * k) hturn.pc
      have hguard' : (loopRun o coll answers s (2 * k)).loopVars.Guard o := by
        rw [hturn.vars]
        exact hguard k (Nat.lt_succ_self k)
      obtain ⟨hran, hlaunch, hgo', hvars, horphans, hlive⟩ :=
        launch_turn hturn.slots hturn.pc hturn.go hguard' hnext hpc' (answers (2 * k + 1))
      have hone := loopRun_succ hnext
      have htwo : loopRun o coll answers s (2 * (k + 1)) =
          panStep o coll (.step (answers (2 * k + 1))) s' := by
        rw [← hone]
        rfl
      have hslots : SlotsOk o (loopRun o coll answers s (2 * (k + 1))) :=
        slotsOk_panStep (slotsOk_panStep hturn.slots)
      refine ⟨?_, ?_⟩
      · refine ⟨hslots, htwo ▸ hlaunch, htwo ▸ hgo', ?_, ?_, ?_⟩
        · rw [htwo, hvars, hturn.vars]
          rfl
        · rw [htwo, horphans, hturn.orphans]
        · intro hfail
          rw [htwo, hlive (hfail (2 * k)), hturn.live hfail]
      · intro j hj
        rcases Nat.lt_succ_iff_lt_or_eq.mp hj with hj | rfl
        · exact hodd j hj
        · rw [hone]
          exact hran

/-- A stop ends the loop at once. -/
theorem launch_stopped (hpc : s.pc = .launch) (hstop : s.stop ≠ 0 ∨ s.goIdle ≠ 0) :
    panNext o coll s (.step a) = some { s with pc := .launched } := by
  have hbreak : s.stop ≠ 0 ∨ s.signals.recSignal ≠ none ∨ s.goIdle ≠ 0 :=
    hstop.imp_right Or.inr
  simp only [panNext, hpc, PanState.launch, if_pos hbreak, ite_self]

/-- With a guard that always holds, the run stays in the loop. -/
theorem loopRun_stays (hok : SlotsOk o s) (hpc : s.pc = .launch) (hgo : Unstopped s)
    (hreturn : ChildrenReturn o coll answers s)
    (hguard : ∀ k, (LoopVars.at o (outcomes answers) s.loopVars k).Guard o) (n : ℕ) :
    (loopRun o coll answers s n).pc = .launch ∨
      ∃ cpid, (loopRun o coll answers s n).pc = .ranChild cpid := by
  have hturns : ∀ k, _ := fun k => loopRun_turn (k := k) hok hpc hgo hreturn fun j _ => hguard j
  obtain ⟨m, rfl | rfl⟩ : ∃ m, n = 2 * m ∨ n = 2 * m + 1 := ⟨n / 2, by omega⟩
  · exact Or.inl (hturns m).1.pc
  · exact Or.inr ((hturns (m + 1)).2 m (Nat.lt_succ_self m))

/-- The loop ends when the guard fails. -/
theorem loopRun_leaves (hok : SlotsOk o s) (hpc : s.pc = .launch) (hgo : Unstopped s)
    (hreturn : ChildrenReturn o coll answers s) :
    (∃ n, (loopRun o coll answers s n).pc = .launched) ↔
      ∃ k, ¬ (LoopVars.at o (outcomes answers) s.loopVars k).Guard o := by
  constructor
  · rintro ⟨n, hn⟩
    by_contra hno
    have hguard : ∀ k, (LoopVars.at o (outcomes answers) s.loopVars k).Guard o := fun k =>
      not_not.mp fun hk => hno ⟨k, hk⟩
    rcases loopRun_stays hok hpc hgo hreturn hguard n with hpc' | ⟨cpid, hpc'⟩
    · cases hn.symm.trans hpc'
    · cases hn.symm.trans hpc'
  · intro hex
    classical
    -- the first turn at which the guard fails
    obtain ⟨hturn, -⟩ := loopRun_turn hok hpc hgo hreturn (k := Nat.find hex)
      fun j hj => not_not.mp (Nat.find_min hex hj)
    have hguard : ¬ (loopRun o coll answers s (2 * Nat.find hex)).loopVars.Guard o := by
      rw [hturn.vars]
      exact Nat.find_spec hex
    refine ⟨2 * Nat.find hex + 1, ?_⟩
    rw [loopRun_succ (launch_leaves hturn.pc hguard)]

/-- No start is left, and no child. -/
structure Over (s : PanState) : Prop where
  numActive : s.numActive = 0
  starts : s.starts = 0
  live : s.live = []
  orphans : s.orphans = [0]
  recSignal : s.signals.recSignal = none

theorem checked_zero_of_stop (hstop : s.stop ≠ 0) (hactive : s.numActive = 0) :
    s.checked o 0 = { s with pc := .drain } := by
  have hnote : s.noteError o 0 = s := if_neg (by simp)
  rw [PanState.checked, hnote, PanState.loopEnd, if_pos ⟨hstop, hactive⟩]

/-- When it is over in the loop, the run ends after six more steps. -/
theorem Over.finishes (hwait : ∀ n, (answers n).wait = .noChild) (hpc : s.pc = .launch)
    (hover : Over s) : (loopRun o coll answers s 6).pc = .finished := by
  have hguard : ¬ s.loopVars.Guard o := fun hguard => hguard.2 hover.starts
  have hlaunched : loopRun o coll answers s 1 = { s with pc := .launched } :=
    loopRun_succ (launch_leaves hpc hguard)
  obtain ⟨t, ht, hpc₂, hover₂, hstop⟩ : ∃ t, loopRun o coll answers s 2 = t ∧ t.pc = .testSignal ∧
      Over t ∧ t.stop ≠ 0 := by
    refine ⟨_, loopRun_succ (by rw [hlaunched]; rfl), ?_⟩
    rw [PanState.launched, if_pos hover.starts]
    split <;> exact ⟨rfl, ⟨hover.1, hover.2, hover.3, hover.4, hover.5⟩, Nat.succ_ne_zero _⟩
  have htested : loopRun o coll answers s 3 = { t with pc := .check } := by
    apply loopRun_succ
    rw [ht]
    simp [panNext, hpc₂, PanState.testSignal, hover₂.recSignal]
  have hchecked : loopRun o coll answers s 4 =
      { t.checkOrphans (answers 3).emptied none with waitHit := false, pc := .checked 0 } := by
    apply loopRun_succ
    rw [htested]
    simp only [panNext, PanState.checkPids, hwait]
    exact if_pos hover₂.live
  have hdrain : (loopRun o coll answers s 5).pc = .drain ∧
      (loopRun o coll answers s 5).orphans.all (· = 0) = true := by
    have hnext : loopRun o coll answers s 5 = PanState.checked o 0
        { t.checkOrphans (answers 3).emptied none with waitHit := false, pc := .checked 0 } := by
      apply loopRun_succ
      rw [hchecked]
      rfl
    have horphans : (t.checkOrphans (answers 3).emptied none).orphans.all (· = 0) = true := by
      simp [PanState.checkOrphans, hover₂.orphans]
    rw [hnext, checked_zero_of_stop]
    · exact ⟨rfl, horphans⟩
    · exact hstop
    · exact hover₂.numActive
  have hfinished : loopRun o coll answers s 6 = (loopRun o coll answers s 5).drain o coll.length
      (answers 5) := by
    apply loopRun_succ
    simp [panNext, hdrain.1]
  rw [hfinished, PanState.drain, if_pos hdrain.2]
  rfl

theorem successes_eq_zero (hfail : ∀ n, (answers n).starts = false) (k : ℕ) :
    successes (outcomes answers) k = 0 := by
  apply List.countP_eq_zero.mpr
  intro m _
  rw [outcomes, hfail]
  nofun

/-- A run in which no command can be started ends in sequential mode only. -/
theorem loopRun_failing (hkeep : 1 ≤ o.keepActive) (hlimit : 0 < o.initialStarts coll.length)
    (hfail : ∀ n, (answers n).starts = false) (hwait : ∀ n, (answers n).wait = .noChild)
    (hreturn : ChildrenReturn o coll answers (PanState.init o coll)) :
    (∃ n, (loopRun o coll answers (PanState.init o coll) n).pc = .finished) ↔
      o.sequential = true := by
  have hok : SlotsOk o (PanState.init o coll) := slotsOk_init
  have hgo : Unstopped (PanState.init o coll) := ⟨rfl, rfl, rfl⟩
  have hvars : (PanState.init o coll).loopVars = (0, o.initialStarts coll.length) := rfl
  have hroom : (0 : Int) < o.keepActive := by omega
  have hzero := successes_eq_zero hfail
  have hat : ∀ k, LoopVars.at o (outcomes answers) (PanState.init o coll).loopVars k =
      (0, max 0 (o.initialStarts coll.length - counted o (outcomes answers) k)) := by
    intro k
    apply Prod.ext
    · rw [at_fst, hvars, hzero]
      rfl
    · rw [at_snd, hvars]
      exact if_neg (Int.not_lt.mpr (Int.le_of_lt hlimit))
  constructor
  · rintro ⟨n, hn⟩
    by_contra hmode
    have hguard : ∀ k, (LoopVars.at o (outcomes answers) (PanState.init o coll).loopVars k).Guard o := by
      intro k
      rw [hat, counted, if_neg hmode, hzero]
      exact ⟨hroom, by simp only; omega⟩
    rcases loopRun_stays hok rfl hgo hreturn hguard n with hpc | ⟨cpid, hpc⟩
    · cases hn.symm.trans hpc
    · cases hn.symm.trans hpc
  · intro hmode
    have hcounted : ∀ k, counted o (outcomes answers) k = k := fun k => if_pos hmode
    set k := (o.initialStarts coll.length).toNat with hk
    have hguard : ∀ j < k,
        (LoopVars.at o (outcomes answers) (PanState.init o coll).loopVars j).Guard o := by
      intro j hj
      rw [hat, hcounted]
      exact ⟨hroom, by simp only; omega⟩
    obtain ⟨hturn, -⟩ := loopRun_turn hok rfl hgo hreturn hguard
    have hspent := hturn.vars
    rw [hat, hcounted, hk] at hspent
    have hover : Over (loopRun o coll answers (PanState.init o coll) (2 * k)) := by
      constructor
      · exact congrArg Prod.fst hspent
      · exact (congrArg Prod.snd hspent).trans (by simp only; omega)
      · exact hturn.live hfail
      · exact hturn.orphans
      · exact hturn.go.recSignal
    refine ⟨2 * k + 6, ?_⟩
    rw [loopRun, trace_add]
    exact hover.finishes (fun n => hwait _) hturn.pc

theorem runChild_returns {colle : CollEntry} {i attempt : Nat} {errbuf : Text} {status : Nat}
    {endTime : Int} (hstart : a.start = .reported errbuf status endTime)
    (hgone : terminated status = true) (hkmsg : a.kmsgOk = true)
    (hfits : a.nameOverruns o colle = false ∧ a.reportOverruns = false)
    (hpc : s.pc ≠ .aborted) :
    ∃ s', s.runChild o colle i attempt a = some s' ∧ s'.pc ≠ .aborted := by
  obtain ⟨s', hs'⟩ : ∃ s', s.runChild o colle i attempt a = some s' := by
    simp only [PanState.runChild, hfits, hstart, if_pos hgone]
    exact ⟨_, rfl⟩
  refine ⟨s', hs', ?_⟩
  cases (PanState.runChild_cases hpc hs').2 with
  | refused why b entered start books pc => simp [pc]
  | aborted cause books pc => simp [hkmsg, hfits] at cause
  | failed errbuf status endTime start gone books pc rts => simp [pc]
  | started pid start pos fresh books pc rts => simp [hstart] at start

/-- At random a command is always found, and a child that reports a failure is waited for. -/
theorem childrenReturn_reported (hmode : o.sequential = false) (hcoll : coll ≠ [])
    (hkmsg : ∀ n, (answers n).kmsgOk = true) (hfits : ∀ n, (answers n).fits o coll = true)
    (hstart : ∀ n, ∃ errbuf status endTime, (answers n).start = .reported errbuf status endTime ∧
      terminated status = true) :
    ChildrenReturn o coll answers s := by
  intro n hpc
  obtain ⟨errbuf, status, endTime, hreported, hgone⟩ := hstart n
  set t := loopRun o coll answers s n
  have hleaves : ∃ s', some { t with pc := .launched } = some s' ∧ s'.pc ≠ .aborted :=
    ⟨_, rfl, by rintro ⟨⟩⟩
  simp only [panNext, hpc, PanState.launch, hmode, Bool.false_eq_true, if_false]
  split_ifs with hguard hbreak
  · exact hleaves
  · cases hslot : t.running.findIdx? fun r => r.pgrp = 0 with
    | none => exact ⟨_, rfl, by rintro ⟨⟩⟩
    | some i =>
        have hindex : (answers n).rand % coll.length < coll.length :=
          Nat.mod_lt _ (List.length_pos_iff.mpr hcoll)
        simp only [List.getElem?_eq_getElem hindex]
        apply runChild_returns hreported hgone (hkmsg n)
          (Answer.fits_spec (hfits n) (List.getElem_mem hindex))
        simp
  · exact hleaves

/-- The launch loop ends, whatever `run_child` returns, unless every attempt fails from some
point on and does not count as a start; and when nothing can be started the whole run ends
in sequential mode only. -/
theorem launchLoop_ends_iff (hkeep : 1 ≤ o.keepActive) (answers : ℕ → Answer) :
    (∀ evs : List Event, (panRun o coll evs).pc = .launch →
      (panRun o coll evs).signals.recSignal = none →
      ChildrenReturn o coll answers (panRun o coll evs) →
      ((∃ n, (loopRun o coll answers (panRun o coll evs) n).pc = .launched) ↔
        (panRun o coll evs).stop ≠ 0 ∨ (panRun o coll evs).goIdle ≠ 0 ∨
          (o.sequential = true ∧ 0 ≤ (panRun o coll evs).starts) ∨
          ∃ k, (o.keepActive : Int) ≤
              (panRun o coll evs).numActive + successes (outcomes answers) k ∨
            (0 ≤ (panRun o coll evs).starts ∧
              (panRun o coll evs).starts ≤ successes (outcomes answers) k))) ∧
    (0 < o.initialStarts coll.length → (∀ n, (answers n).starts = false) →
      (∀ n, (answers n).wait = .noChild) →
      ChildrenReturn o coll answers (PanState.init o coll) →
      ((∃ n, (loopRun o coll answers (PanState.init o coll) n).pc = .finished) ↔
        o.sequential = true)) := by
  constructor
  · intro evs hpc hsignal hreturn
    by_cases hstop : (panRun o coll evs).stop ≠ 0 ∨ (panRun o coll evs).goIdle ≠ 0
    · have hleft : ∃ n, (loopRun o coll answers (panRun o coll evs) n).pc = .launched := by
        have hone : loopRun o coll answers (panRun o coll evs) 1 =
            { panRun o coll evs with pc := .launched } := loopRun_succ (launch_stopped hpc hstop)
        exact ⟨1, congrArg PanState.pc hone⟩
      exact iff_of_true hleft (or_assoc.mp (Or.inl hstop))
    · obtain ⟨hstop', hidle⟩ := not_or.mp hstop
      have hgo : Unstopped (panRun o coll evs) := ⟨not_not.mp hstop', not_not.mp hidle, hsignal⟩
      rw [loopRun_leaves (slotsOk_panRun o coll evs) hpc hgo hreturn, exists_not_guard_iff,
        or_iff_right hstop', or_iff_right hidle]
      rfl
  · intro hlimit hfail hwait hreturn
    exact loopRun_failing hkeep hlimit hfail hwait hreturn

/-- A command that is not there. -/
def missingCommand : List CollEntry := [⟨txt "t", txt "/no/such/test", false⟩]

/-- The child reports that it could not be executed, and is waited for. -/
def notExecuted (_ : ℕ) : Answer :=
  { start := .reported (txt "execvp") 0x100 0, wait := .noChild }

theorem notExecuted_return {starts : Int} (s : PanState) :
    ChildrenReturn { starts := starts } missingCommand notExecuted s :=
  childrenReturn_reported rfl nofun (fun _ => rfl)
    (fun _ => rfl) fun _ => ⟨_, _, _, rfl, by decide⟩

theorem launchLoop_ends_iff_missing :
    (¬ ∃ n, (loopRun { starts := 1 } missingCommand notExecuted
        (panRun { starts := 1 } missingCommand []) n).pc = .launched) ∧
      ¬ ∃ n, (loopRun { starts := 1 } missingCommand notExecuted
        (PanState.init { starts := 1 } missingCommand) n).pc = .finished := by
  have hfail : ∀ n, (notExecuted n).starts = false := fun _ => rfl
  obtain ⟨hloop, hrun⟩ := @launchLoop_ends_iff { starts := 1 } missingCommand (by decide) notExecuted
  constructor
  · rw [hloop [] rfl rfl (notExecuted_return _)]
    simp only [successes_eq_zero hfail, exists_const]
    decide
  · rw [hrun (by decide) hfail (fun _ => rfl) (notExecuted_return _)]
    decide

/-- With one start and a command that cannot be executed, the program tries to start it for
ever. -/
theorem launchLoop_missing_never_ends :
    (PanState.init { starts := 1 } missingCommand).starts = 1 ∧
      ∀ n, (loopRun { starts := 1 } missingCommand notExecuted
        (PanState.init { starts := 1 } missingCommand) n).pc ≠ .launched := by
  refine ⟨rfl, fun n hpc => ?_⟩
  have hguard : ∀ k, (LoopVars.at { starts := 1 } (outcomes notExecuted)
      (PanState.init { starts := 1 } missingCommand).loopVars k).Guard { starts := 1 } := by
    intro k
    have hzero : counted { starts := 1 } (outcomes notExecuted) k = 0 :=
      successes_eq_zero (fun _ => rfl) k
    rw [LoopVars.Guard, at_fst, at_snd, hzero, successes_eq_zero (fun _ => rfl) k]
    decide
  rcases loopRun_stays slotsOk_init rfl ⟨rfl, rfl, rfl⟩ (notExecuted_return _) hguard n with
    hpc' | ⟨cpid, hpc'⟩
  · cases hpc.symm.trans hpc'
  · cases hpc.symm.trans hpc'

end Loop

end EDDTs.Pan
