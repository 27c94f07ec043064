import EDDTs.TstTest.ExitStatus

/-!
# The verdict of a test

The exit status should say what was reported and how the processes ended. It does so in the
runs where `do_exit` reads the counters after everything that matters was counted. What the
library process reports before `setup_ipc` or in `do_cleanup` is not counted in time, nor is
what a process reports that outlives the test process.
-/

namespace EDDTs.TstTest

open Library.Interleaving

/-- A result of this type was reported in the run. -/
def Reported (t : TType) (log : List Note) : Prop := ∃ mapped, .reported mapped t ∈ log

/-- A warning was reported, or a cleanup broke. -/
def Warned (log : List Note) : Prop := Reported .warn log ∨ .cleanupBroke ∈ log

/-- The library process or a test process ended with `TCONF`. -/
def EndedConf (log : List Note) : Prop :=
  .libBroke .conf ∈ log ∨ ∃ last, .testEnded last confEnd ∈ log

/-- The exit status says what happened. -/
structure Verdict (ret : Status) (log : List Note) : Prop where
  fail : ret &&& TType.fail.code ≠ 0 ↔ Reported .fail log
  warn : ret &&& TType.warn.code ≠ 0 ↔ Warned log
  brok : ret &&& TType.brok.code ≠ 0 ↔ Broken log
  zero : ret = 0 ↔ ¬ Reported .fail log ∧ ¬ Warned log ∧ ¬ Broken log ∧
    (Reported .pass log ∨ (¬ Reported .conf log ∧ ¬ EndedConf log))

/-- Nothing went wrong in the run. -/
def Clean (log : List Note) : Prop := ¬ Reported .fail log ∧ ¬ Warned log ∧ ¬ Broken log

/-- What was reported was counted when the counters were read, as far as it matters. -/
structure InTime (log : List Note) : Prop where
  fail : Reported .fail log → readNonzero log .failed = true
  warn : Warned log → readNonzero log .warnings = true
  pass : Clean log → Reported .pass log →
    (RetConf log → readNonzero log .passedFirst = true) ∧
      (readNonzero log .skipped = true → readNonzero log .passedAgain = true)
  conf : Clean log → ¬ Reported .pass log → Reported .conf log ∨ EndedConf log →
    RetConf log ∨ readNonzero log .skipped = true

section Verdict

variable {log : List Note} {ret : Status} {r : Read} {t : TType}

/-- The bits of the exit status, and when it is zero. -/
theorem exitStatus_bits (hret : ret = 0 ∨ ret = 2 ∨ ret = 32 ∨ ret = 34) (nonzero : Read → Bool) :
    (exitStatus ret nonzero &&& TType.fail.code ≠ 0 ↔ nonzero .failed = true) ∧
      (exitStatus ret nonzero &&& TType.warn.code ≠ 0 ↔ nonzero .warnings = true) ∧
      (exitStatus ret nonzero &&& TType.brok.code ≠ 0 ↔ ret &&& TType.brok.code ≠ 0) ∧
      (exitStatus ret nonzero = 0 ↔
        nonzero .failed = false ∧ nonzero .warnings = false ∧
          (ret = 0 ∨ (ret = TType.conf.code ∧ nonzero .passedFirst = true)) ∧
          (nonzero .skipped = true → nonzero .passedAgain = true)) := by
  simp only [exitStatus, statusBefore]
  generalize nonzero .passedFirst = p
  generalize nonzero .failed = f
  generalize nonzero .skipped = s
  generalize nonzero .passedAgain = a
  generalize nonzero .warnings = w
  rcases hret with rfl | rfl | rfl | rfl <;> revert p f s a w <;> decide

/-- What is read was reported. -/
theorem reported_of_readNonzero (ht : ∀ t', counterOf t' = some r.counter → t' = t)
    (h : readNonzero log r = true) : Reported t log := by
  have hseen : seen r log ≠ 0 := by
    intro hzero
    rw [readNonzero, hzero] at h
    exact absurd h (by decide)
  obtain ⟨t', hcounter, hmem⟩ := exists_of_seen hseen
  rw [ht t' hcounter] at hmem
  exact ⟨true, hmem⟩

theorem endedConf_of_retConf (h : RetConf log) : EndedConf log := h.imp id fun h => ⟨true, h⟩

/-- When nothing went wrong `do_exit` was called with zero or with `TCONF`. -/
theorem Final.ret_of_clean (h : Final ret log) (hbroken : ¬ Broken log) :
    (ret = 0 ∨ (ret = TType.conf.code ∧ readNonzero log .passedFirst = true)) ↔
      (RetConf log → readNonzero log .passedFirst = true) := by
  have hbit : ¬ (ret &&& TType.brok.code ≠ 0) := fun hbit => hbroken (h.broken.mp hbit)
  rw [← h.conf hbroken]
  rcases h.values with rfl | rfl | rfl | rfl
  · exact iff_of_true (Or.inl rfl) fun hconf => absurd hconf (by decide)
  · exact absurd (by decide) hbit
  · constructor
    · rintro (hzero | hread) _
      · exact absurd hzero (by decide)
      · exact hread.2
    · intro hread
      exact Or.inr ⟨rfl, hread rfl⟩
  · exact absurd (by decide) hbit

theorem readNonzero_fail (h : readNonzero log .failed = true) : Reported .fail log :=
  reported_of_readNonzero (by rintro ⟨⟩ <;> decide) h

theorem readNonzero_warn (h : readNonzero log .warnings = true) : Warned log :=
  Or.inl (reported_of_readNonzero (by rintro ⟨⟩ <;> decide) h)

theorem readNonzero_conf (h : readNonzero log .skipped = true) : Reported .conf log :=
  reported_of_readNonzero (by rintro ⟨⟩ <;> decide) h

theorem readNonzero_pass (hr : r.counter = .passed) (h : readNonzero log r = true) :
    Reported .pass log := by
  refine reported_of_readNonzero ?_ h
  rw [hr]
  rintro ⟨⟩ <;> decide

theorem Final.exitStatus_of_clean (h : Final ret log) (hclean : Clean log) :
    exitStatus ret (readNonzero log) = 0 ↔
      (RetConf log → readNonzero log .passedFirst = true) ∧
        (readNonzero log .skipped = true → readNonzero log .passedAgain = true) := by
  obtain ⟨-, -, -, hzero⟩ := exitStatus_bits h.values (readNonzero log)
  have hfailed : readNonzero log .failed = false :=
    Bool.eq_false_iff.mpr fun hread => hclean.1 (readNonzero_fail hread)
  have hwarnings : readNonzero log .warnings = false :=
    Bool.eq_false_iff.mpr fun hread => hclean.2.1 (readNonzero_warn hread)
  rw [hzero, h.ret_of_clean hclean.2.2]
  exact ⟨fun hall => hall.2.2, fun hall => ⟨hfailed, hwarnings, hall⟩⟩

theorem Final.zero_of_unskipped (h : Final ret log) (hclean : Clean log)
    (hskipped : ¬ Reported .conf log) (hconf : ¬ EndedConf log) :
    exitStatus ret (readNonzero log) = 0 :=
  (h.exitStatus_of_clean hclean).mpr ⟨fun hret => absurd (endedConf_of_retConf hret) hconf,
    fun hread => absurd (readNonzero_conf hread) hskipped⟩

/-- The reports were counted in time when the exit status is right. -/
theorem inTime_of_verdict (hfinal : Final ret log)
    (h : Verdict (exitStatus ret (readNonzero log)) log) : InTime log := by
  obtain ⟨hfail, hwarn, -, -⟩ := exitStatus_bits hfinal.values (readNonzero log)
  refine ⟨fun hreport => hfail.mp (h.fail.mpr hreport), fun hwarned => hwarn.mp (h.warn.mpr hwarned),
    fun hclean hpass => ?_, fun hclean hpass hskipped => ?_⟩
  · have hzero := h.zero.mpr ⟨hclean.1, hclean.2.1, hclean.2.2, Or.inl hpass⟩
    exact (hfinal.exitStatus_of_clean hclean).mp hzero
  · by_contra hunseen
    rw [not_or] at hunseen
    have hzero := (hfinal.exitStatus_of_clean hclean).mpr
      ⟨fun hconf => absurd hconf hunseen.1, fun hread => absurd hread hunseen.2⟩
    rcases (h.zero.mp hzero).2.2.2 with hpass' | hnone
    · exact hpass hpass'
    · exact hskipped.elim hnone.1 hnone.2

/-- Without a zero from a counter that wrapped around or was read too early, an exit status of
zero is right. -/
theorem zero_iff_of_inTime (hfinal : Final ret log) (h : InTime log) :
    exitStatus ret (readNonzero log) = 0 ↔
      ¬ Reported .fail log ∧ ¬ Warned log ∧ ¬ Broken log ∧
        (Reported .pass log ∨ (¬ Reported .conf log ∧ ¬ EndedConf log)) := by
  obtain ⟨hfail, hwarn, hbrok, -⟩ := exitStatus_bits hfinal.values (readNonzero log)
  constructor
  · intro hzero
    rw [hzero] at hfail hwarn hbrok
    have hclean : Clean log :=
      ⟨fun hreport => hfail.mpr (h.fail hreport) rfl,
        fun hwarned => hwarn.mpr (h.warn hwarned) rfl,
        fun hbroken => hbrok.mpr (hfinal.broken.mpr hbroken) rfl⟩
    obtain ⟨hfirst, hagain⟩ := (hfinal.exitStatus_of_clean hclean).mp hzero
    refine ⟨hclean.1, hclean.2.1, hclean.2.2, ?_⟩
    by_cases hpass : Reported .pass log
    · exact Or.inl hpass
    · have hunseen : ¬ (RetConf log ∨ readNonzero log .skipped = true) := by
        rintro (hconf | hread)
        · exact hpass (readNonzero_pass rfl (hfirst hconf))
        · exact hpass (readNonzero_pass rfl (hagain hread))
      exact Or.inr (not_or.mp fun hskipped => hunseen (h.conf hclean hpass hskipped))
  · rintro ⟨hreport, hwarned, hbroken, hpass | ⟨hskipped, hconf⟩⟩
    · have hclean : Clean log := ⟨hreport, hwarned, hbroken⟩
      exact (hfinal.exitStatus_of_clean hclean).mpr (h.pass hclean hpass)
    · exact hfinal.zero_of_unskipped ⟨hreport, hwarned, hbroken⟩ hskipped hconf

theorem verdict_of_inTime (hfinal : Final ret log) (h : InTime log) :
    Verdict (exitStatus ret (readNonzero log)) log := by
  obtain ⟨hfail, hwarn, hbrok, -⟩ := exitStatus_bits hfinal.values (readNonzero log)
  exact ⟨hfail.trans ⟨readNonzero_fail, h.fail⟩, hwarn.trans ⟨readNonzero_warn, h.warn⟩,
    hbrok.trans hfinal.broken, zero_iff_of_inTime hfinal h⟩

/-- The exit status of a run is right exactly when the reports were counted in time. -/
theorem verdict_iff_inTime (cfg : Config) (s : System) (ret : Status) (hrun : Runs cfg s)
    (hexit : s.lib = .exited ret) : Verdict ret s.log ↔ InTime s.log := by
  have hlib := (inv_of_runs hrun).lib
  rw [hexit] at hlib
  obtain ⟨ret', hfinal, rfl⟩ := hlib
  exact ⟨inTime_of_verdict hfinal, verdict_of_inTime hfinal⟩

end Verdict

/-- One test function that is called once. -/
def oneTest : Config := ⟨1, none, 1, false, 1⟩

/-- An option is passed twice, of which `parse_topt` warns before `setup_ipc`. Then the test
passes. -/
def optionTwice : List Action :=
  [.lib (.res .warn)] ++ List.replicate 4 (.lib .next) ++ List.replicate 4 (.proc 0 .next) ++
    [.proc 0 (.res .pass)] ++ List.replicate 6 (.proc 0 .next) ++ List.replicate 8 (.lib .next)

theorem verdict_iff_inTime_optionTwice :
    ¬ Verdict 0 (exec (step oneTest) System.init optionTwice).log := by
  have hexit : (exec (step oneTest) System.init optionTwice).lib = .exited 0 := by decide +kernel
  have hwarned : Warned (exec (step oneTest) System.init optionTwice).log :=
    Or.inl ⟨false, by decide +kernel⟩
  have hread : readNonzero (exec (step oneTest) System.init optionTwice).log .warnings = false := by
    decide +kernel
  rw [verdict_iff_inTime oneTest _ 0 ⟨optionTwice, rfl⟩ hexit]
  intro hintime
  rw [hintime.warn hwarned] at hread
  cases hread

/-- A warning is reported and the exit status is zero. -/
theorem optionTwice_exits_zero :
    (exec (step oneTest) System.init optionTwice).lib = .exited 0 ∧
      Note.reported false .warn ∈ (exec (step oneTest) System.init optionTwice).log := by
  decide +kernel

end EDDTs.TstTest
