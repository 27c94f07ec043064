import EDDTs.Pan.DriverLedger

/-!
# The command files of ltp-pan

The commands in the fail and tconf command files, against the commands that the
formatted log calls `FAIL` and `CONF`. The log decides by the type and the
number of a termination, the command files by the number alone, and a command
that could not be executed is logged but never recorded.
-/

namespace EDDTs.Pan

open Library

open scoped List

/-- The commands with a given word in the formatted log. -/
def loggedCmds (v : Verdict) (log : List LogLine) : List CollEntry :=
  log.filterMap fun line =>
    match line with
    | .result _ cmd v' _ => if v' = v then some cmd else none
    | _ => none

/-- The command files hold what the log says they should. -/
def CommandFilesAgree (o : Options) (s : PanState) : Prop :=
  s.failCmds ~ loggedCmds .fail s.log ∧
    (o.tconfcmdfile = true → s.tconfCmds ~ loggedCmds .conf s.log)

namespace Outcome

/-- The command could not be executed, and the child's status was not zero. -/
def startFailures (e : Outcome) : List CollEntry :=
  match e.ending with
  | .execFailed _ status => if (termination status).2 ≠ 0 then [e.cmd] else []
  | _ => []

/-- The command exited with `TCONF`. -/
def confs (e : Outcome) : List CollEntry :=
  match e.ending with
  | .reaped statLoc stopping _ _ _ =>
      if (termination statLoc).1 = .exited ∧ childW statLoc stopping = TCONF then [e.cmd] else []
  | _ => []

/-- The command was killed by the signal whose number is `TCONF`. -/
def confSignals (e : Outcome) : List CollEntry :=
  match e.ending with
  | .reaped statLoc stopping _ _ _ =>
      if (termination statLoc).1 ≠ .exited ∧ childW statLoc stopping = TCONF then [e.cmd] else []
  | _ => []

/-- The command ended with any other number than zero. -/
def failures (e : Outcome) : List CollEntry :=
  match e.ending with
  | .reaped statLoc stopping _ _ _ =>
      if childW statLoc stopping ≠ 0 ∧ childW statLoc stopping ≠ TCONF then [e.cmd] else []
  | _ => []

/-- What is logged of an outcome, and what goes to the command files: with a tconf
file only the failures go to the fail file, without one everything but zero. -/
structure Filed (o : Options) (e : Outcome) : Prop where
  fail : loggedCmds .fail (e.logLines o) = e.startFailures ++ (e.confSignals ++ e.failures)
  conf : loggedCmds .conf (e.logLines o) = e.confs
  failCmd : (e.failCmd o).toList =
    if o.tconfcmdfile then e.failures else e.confs ++ (e.confSignals ++ e.failures)
  tconfCmd : (e.tconfCmd o).toList =
    if o.tconfcmdfile then e.confs ++ e.confSignals else []

theorem filed {o : Options} (hl : o.logfile = true) (hp : o.fmtPrint = true)
    (hc : o.failcmdfile = true) (e : Outcome) : e.Filed o := by
  obtain ⟨attempt, cmd, mystime, endTime, ending⟩ := e
  constructor
  all_goals
    simp only [loggedCmds, logLines, verdict, result, failCmd, tconfCmd, startFailures, confs,
      confSignals, failures, hl, hp, hc]
    cases ending with
    | refused why => simp
    | execFailed errbuf status => by_cases hw : (termination status).2 = 0 <;> simp [hw]
    | reaped statLoc stopping cutime cstime captured =>
        -- the log asks for the type and the number, the files for the number alone
        by_cases hw : childW statLoc stopping = TCONF
        · by_cases ht : (termination statLoc).1 = .exited <;> cases o.tconfcmdfile <;>
            simp [hw, ht]
        · by_cases hz : childW statLoc stopping = 0 <;> cases o.tconfcmdfile <;> simp [hw, hz]

end Outcome

section Agreement

variable {o : Options}

/-- The commands logged in a run, from the outcomes; the totals name no command. -/
theorem loggedCmds_panRun (v : Verdict) (o : Options) (coll : List CollEntry) (evs : List Event) :
    let s := panRun o coll evs
    loggedCmds v s.log = s.ledger.flatMap fun e => loggedCmds v (e.logLines o) := by
  intro s
  obtain ⟨results, hlog, hinv⟩ := ledgerOk_panRun o coll evs
  have hclosing : loggedCmds v (s.closing o coll) = [] := by
    unfold PanState.closing
    split <;> rfl
  have hresults : results = s.ledger.flatMap (Outcome.logLines o) := hinv.log
  calc
    loggedCmds v s.log
      = loggedCmds v results ++ loggedCmds v (s.closing o coll) := by
        rw [hlog]
        exact List.filterMap_append
    _ = s.ledger.flatMap fun e => loggedCmds v (e.logLines o) := by
        rw [hclosing, List.append_nil, hresults]
        exact List.filterMap_flatMap

/-- The command files of a run, from the outcomes. -/
theorem commandFiles_panRun (o : Options) (coll : List CollEntry) (evs : List Event) :
    let s := panRun o coll evs
    s.failCmds = s.ledger.flatMap (fun e => (e.failCmd o).toList) ∧
      s.tconfCmds = s.ledger.flatMap (fun e => (e.tconfCmd o).toList) := by
  obtain ⟨results, -, hinv⟩ := ledgerOk_panRun o coll evs
  exact ⟨hinv.failCmds.trans (List.filterMap_eq_flatMap_toList _ _),
    hinv.tconfCmds.trans (List.filterMap_eq_flatMap_toList _ _)⟩

/-- With a tconf file, the files agree with the log unless a command could not
be executed, or was killed by the signal with the number of `TCONF`. -/
theorem agree_iff_of_tconf (ledger : List Outcome) :
    (ledger.flatMap Outcome.failures ~
        ledger.flatMap (fun e => e.startFailures ++ (e.confSignals ++ e.failures)) ∧
      ledger.flatMap (fun e => e.confs ++ e.confSignals) ~ ledger.flatMap Outcome.confs) ↔
    ∀ e ∈ ledger, e.startFailures = [] ∧ e.confSignals = [] := by
  have hsplit := List.flatMap_append_perm ledger Outcome.confSignals Outcome.failures
  constructor
  · rintro ⟨hfail, -⟩
    have hlogged := List.flatMap_append_perm ledger Outcome.startFailures
      fun e => e.confSignals ++ e.failures
    have hlength := (hfail.trans (hlogged.symm.trans (hsplit.symm.append_left _))).length_eq
    simp only [List.length_append] at hlength
    have hstart : ledger.flatMap Outcome.startFailures = [] :=
      List.eq_nil_of_length_eq_zero (by omega)
    have hconf : ledger.flatMap Outcome.confSignals = [] :=
      List.eq_nil_of_length_eq_zero (by omega)
    intro e he
    exact ⟨List.flatMap_eq_nil_iff.mp hstart e he, List.flatMap_eq_nil_iff.mp hconf e he⟩
  · intro h
    have hfail : ledger.flatMap (fun e => e.startFailures ++ (e.confSignals ++ e.failures)) =
        ledger.flatMap Outcome.failures :=
      List.flatMap_congr fun e he => by simp [h e he]
    have hconf : ledger.flatMap (fun e => e.confs ++ e.confSignals) =
        ledger.flatMap Outcome.confs :=
      List.flatMap_congr fun e he => by simp [h e he]
    rw [hfail, hconf]
    exact ⟨.refl _, .refl _⟩

/-- Without a tconf file, the commands that exit with `TCONF` are recorded and
those that could not be executed are logged. -/
theorem agree_iff_of_not_tconf (ledger : List Outcome) :
    ledger.flatMap (fun e => e.confs ++ (e.confSignals ++ e.failures)) ~
        ledger.flatMap (fun e => e.startFailures ++ (e.confSignals ++ e.failures)) ↔
      ledger.flatMap Outcome.confs ~ ledger.flatMap Outcome.startFailures := by
  have hrecorded := List.flatMap_append_perm ledger Outcome.confs
    fun e => e.confSignals ++ e.failures
  have hlogged := List.flatMap_append_perm ledger Outcome.startFailures
    fun e => e.confSignals ++ e.failures
  constructor
  · intro h
    exact (List.perm_append_right_iff _).mp (hrecorded.trans (h.trans hlogged.symm))
  · intro h
    exact hrecorded.symm.trans ((h.append_right _).trans hlogged)

end Agreement

/-- When the command files agree with the log. With `-T` this is so unless a
command could not be executed or was killed by the signal with the number of
`TCONF`; without `-T` the commands that exit with `TCONF` have to be the ones
that could not be executed. -/
theorem commandFiles_agree_iff (o : Options) (coll : List CollEntry) (evs : List Event)
    (hl : o.logfile = true) (hp : o.fmtPrint = true) (hc : o.failcmdfile = true) :
    let s := panRun o coll evs
    CommandFilesAgree o s ↔
      if o.tconfcmdfile then ∀ e ∈ s.ledger, e.startFailures = [] ∧ e.confSignals = []
      else s.ledger.flatMap Outcome.confs ~ s.ledger.flatMap Outcome.startFailures := by
  intro s
  obtain ⟨hfails, htconfs⟩ := commandFiles_panRun o coll evs
  have hfail : loggedCmds .fail s.log = _ := loggedCmds_panRun .fail o coll evs
  have hconf : loggedCmds .conf s.log = _ := loggedCmds_panRun .conf o coll evs
  have hfiled := Outcome.filed hl hp hc
  simp only [(hfiled _).fail] at hfail
  simp only [(hfiled _).conf] at hconf
  unfold CommandFilesAgree
  rw [hfail, hconf, hfails, htconfs]
  simp only [(hfiled _).failCmd, (hfiled _).tconfCmd]
  cases o.tconfcmdfile with
  | true =>
      simp only [forall_const, if_true]
      exact agree_iff_of_tconf s.ledger
  | false =>
      simp only [Bool.false_eq_true, false_implies, and_true, if_false]
      exact agree_iff_of_not_tconf s.ledger

/-- The events of a run in which one command exits with a status. -/
def oneCommand (status : Nat) : List Event :=
  [.step { start := .started 7 }, .step {}, .step {}, .step {}, .step {},
    .step { wait := .child 7 (status * 256) }]

/-- A command that exits with 1 is in the fail file and logged `FAIL`. -/
theorem commandFiles_agree_one_failure :
    CommandFilesAgree { logfile := true, fmtPrint := true, failcmdfile := true, tconfcmdfile := true }
      (panRun { logfile := true, fmtPrint := true, failcmdfile := true, tconfcmdfile := true }
        [⟨txt "t", txt "false", false⟩] (oneCommand 1)) :=
  (commandFiles_agree_iff _ _ _ rfl rfl rfl).mpr (by decide)

/-- A command that could not be executed is logged `FAIL` and is not in the
fail file. -/
theorem commandFiles_miss_failed_exec :
    ¬ CommandFilesAgree { logfile := true, fmtPrint := true, failcmdfile := true }
      (panRun { logfile := true, fmtPrint := true, failcmdfile := true }
        [⟨txt "t", txt "nosuch", false⟩]
        [.step { start := .reported (noSuchFile (txt "t")) 512 0 }]) :=
  fun h => absurd h.1.length_eq (by decide)

end EDDTs.Pan
