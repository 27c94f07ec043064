import EDDTs.TstTest.LibraryProcess

/-!
# What the library process knows

In every run the value of `ret` in the library process says how the test processes ended, and
the counters say what was reported to them.
-/

namespace EDDTs.TstTest

/-- A process with this end was broken. -/
def End.Broken : End → Prop
  | .signaled _ => True
  | .exited code => code = TType.brok.code

/-- The end of a process by `tst_brk(TCONF)`. -/
def confEnd : End := .exited TType.conf.code

/-- A test process ended broken. -/
def TestBroken (log : List Note) : Prop := ∃ last e, .testEnded last e ∈ log ∧ e.Broken

/-- The library process or a test process ended broken. -/
def Broken (log : List Note) : Prop := .libBroke .brok ∈ log ∨ TestBroken log

/-- The library process ended with `TCONF`, or the last test process of a variant did. -/
def RetConf (log : List Note) : Prop := .libBroke .conf ∈ log ∨ .testEnded true confEnd ∈ log

/-- `ret` in the loops, when the test process of the turn ends with `e`. -/
structure Pending (ret : Status) (last : Bool) (e : End) (log : List Note) : Prop where
  notBroke : ∀ t, .libBroke t ∉ log
  usual : e.Usual
  values : ret = 0 ∨ ret = TType.conf.code
  broken : TestBroken log ↔ e.Broken
  conf : .testEnded true confEnd ∈ log ↔ ret = TType.conf.code ∨ (last = true ∧ e = confEnd)

/-- The argument of `do_exit`. -/
structure Final (ret : Status) (log : List Note) : Prop where
  values : ret = 0 ∨ ret = 2 ∨ ret = 32 ∨ ret = 34
  broken : ret &&& TType.brok.code ≠ 0 ↔ Broken log
  conf : ¬ Broken log → (ret = TType.conf.code ↔ RetConf log)

/-! ### Notes that do not matter -/

/-- The note is of an end that `ret` depends on. -/
def Note.isEnd : Note → Bool
  | .testEnded _ _ | .libBroke _ => true
  | .reported _ _ | .cleanupBroke | .read _ => false

section Aside

variable {n m : Note} {log : List Note} {ret : Status} {last : Bool} {e : End}

theorem mem_cons_aside (hn : n.isEnd = false) (hm : m.isEnd = true) : m ∈ n :: log ↔ m ∈ log := by
  rw [List.mem_cons]
  refine or_iff_right ?_
  rintro rfl
  exact absurd (hm.symm.trans hn) (by decide)

theorem testBroken_aside (hn : n.isEnd = false) : TestBroken (n :: log) ↔ TestBroken log := by
  refine exists_congr fun last => exists_congr fun e => ?_
  rw [mem_cons_aside hn rfl]

theorem broken_aside (hn : n.isEnd = false) : Broken (n :: log) ↔ Broken log := by
  rw [Broken, Broken, mem_cons_aside hn rfl, testBroken_aside hn]

theorem retConf_aside (hn : n.isEnd = false) : RetConf (n :: log) ↔ RetConf log := by
  rw [RetConf, RetConf, mem_cons_aside hn rfl, mem_cons_aside hn rfl]

theorem Pending.aside (h : Pending ret last e log) (hn : n.isEnd = false) :
    Pending ret last e (n :: log) where
  notBroke t := by
    rw [mem_cons_aside hn rfl]
    exact h.notBroke t
  usual := h.usual
  values := h.values
  broken := (testBroken_aside hn).trans h.broken
  conf := (mem_cons_aside hn rfl).trans h.conf

theorem Final.aside (h : Final ret log) (hn : n.isEnd = false) : Final ret (n :: log) where
  values := h.values
  broken := by
    rw [broken_aside hn]
    exact h.broken
  conf := by
    rw [broken_aside hn, retConf_aside hn]
    exact h.conf

end Aside

/-! ### The loops -/

section Loops

variable {log : List Note} {ret code : Status} {last : Bool} {e : End}

theorem not_broken_exited_zero : ¬ (End.exited 0).Broken := by
  unfold End.Broken
  decide

theorem not_broken_confEnd : ¬ confEnd.Broken := by
  unfold End.Broken confEnd
  decide

theorem broken_iff_of_pending (h : Pending ret last e log) : Broken log ↔ e.Broken :=
  (or_iff_right (h.notBroke .brok)).trans h.broken

theorem retConf_iff_of_pending (h : Pending ret last e log) :
    RetConf log ↔ ret = TType.conf.code ∨ (last = true ∧ e = confEnd) :=
  (or_iff_right (h.notBroke .conf)).trans h.conf

/-- A test process that returned leaves `ret` as it is. -/
theorem Pending.returned (h : Pending ret last e log) (hbroken : ¬ e.Broken)
    (hconf : ¬ (last = true ∧ e = confEnd)) (last' : Bool) : Pending ret last' (.exited 0) log where
  notBroke := h.notBroke
  usual := .returned
  values := h.values
  broken := iff_of_false (fun hlog => hbroken (h.broken.mp hlog)) not_broken_exited_zero
  conf := by
    have hzero : ¬ (last' = true ∧ End.exited 0 = confEnd) := fun h => absurd h.2 (by decide)
    rw [h.conf, or_iff_left hconf, or_iff_left hzero]

/-- A test process that ended with `TCONF` and is the last one. -/
theorem Pending.skipped (h : Pending ret true confEnd log) (last' : Bool) :
    Pending TType.conf.code last' (.exited 0) log where
  notBroke := h.notBroke
  usual := .returned
  values := Or.inr rfl
  broken := iff_of_false (fun hlog => not_broken_confEnd (h.broken.mp hlog)) not_broken_exited_zero
  conf := h.conf.trans (iff_of_true (Or.inr ⟨rfl, rfl⟩) (Or.inl rfl))

theorem Pending.final (h : Pending ret last (.exited 0) log) : Final ret log where
  values := h.values.imp id fun hret => Or.inr (Or.inl hret)
  broken := by
    rw [broken_iff_of_pending h]
    refine iff_of_false ?_ not_broken_exited_zero
    rcases h.values with rfl | rfl <;> decide
  conf _ := by
    have hzero : ¬ (last = true ∧ End.exited 0 = confEnd) := fun h => absurd h.2 (by decide)
    rw [retConf_iff_of_pending h, or_iff_left hzero]

/-- A test process that was broken. -/
theorem Pending.final_broken (h : Pending ret last (.exited TType.brok.code) log) {ret' : Status}
    (hret : ret' = 0 ∨ ret' = TType.conf.code) : Final (ret' ||| TType.brok.code) log := by
  have hbroken : Broken log := (broken_iff_of_pending h).mpr rfl
  refine ⟨?_, iff_of_true ?_ hbroken, fun hnot => absurd hbroken hnot⟩
  · rcases hret with rfl | rfl <;> decide
  · rcases hret with rfl | rfl <;> decide

/-- `tst_brk(TBROK)` in the library process. -/
theorem final_libBroke_brok (log : List Note) : Final BrkType.brok.code (.libBroke .brok :: log) := by
  have hbroken : Broken (.libBroke .brok :: log) := Or.inl List.mem_cons_self
  exact ⟨by decide, iff_of_true (by decide) hbroken, fun hnot => absurd hbroken hnot⟩

/-- `tst_brk(TCONF)` in the library process while no test process runs. -/
theorem Pending.final_libBroke_conf (h : Pending ret last (.exited 0) log) :
    Final BrkType.conf.code (.libBroke .conf :: log) := by
  have hbroken : ¬ Broken (.libBroke .conf :: log) := by
    have hlog : ¬ Broken log := fun hlog =>
      not_broken_exited_zero ((broken_iff_of_pending h).mp hlog)
    simpa [Broken, TestBroken] using hlog
  exact ⟨by decide, iff_of_false (by decide) hbroken,
    fun _ => iff_of_true rfl (Or.inl List.mem_cons_self)⟩

/-- The test process that is waited for ends. -/
theorem Pending.ended (h : Pending ret last (.exited 0) log) (he : e.Usual) :
    Pending ret last e (.testEnded last e :: log) where
  notBroke t := by
    have := h.notBroke t
    simpa using this
  usual := he
  values := h.values
  broken := by
    have hlog : ¬ TestBroken log := fun hlog => not_broken_exited_zero (h.broken.mp hlog)
    constructor
    · rintro ⟨last', e', hmem, hbroken⟩
      rcases List.mem_cons.mp hmem with heq | hmem
      · cases heq
        exact hbroken
      · exact absurd ⟨last', e', hmem, hbroken⟩ hlog
    · intro hbroken
      exact ⟨last, e, List.mem_cons_self, hbroken⟩
  conf := by
    have hzero : ¬ (last = true ∧ End.exited 0 = confEnd) := fun h => absurd h.2 (by decide)
    rw [List.mem_cons, h.conf, or_iff_left hzero, or_comm, Note.testEnded.injEq]
    exact or_congr_right (and_congr eq_comm eq_comm)

/-- After `tst_brk(TBROK)` in the library process it does not matter how a test process ends. -/
theorem Final.ended (h : Final ret log) (hbroke : .libBroke .brok ∈ log) :
    Final ret (.testEnded last e :: log) := by
  have hbroken : Broken (.testEnded last e :: log) := Or.inl (List.mem_cons_of_mem _ hbroke)
  exact ⟨h.values, iff_of_true (h.broken.mpr (Or.inl hbroke)) hbroken,
    fun hnot => absurd hbroken hnot⟩

end Loops

end EDDTs.TstTest
