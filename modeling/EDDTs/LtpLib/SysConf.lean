import EDDTs.Boards.Resm
import EDDTs.Library.UndoLog
import EDDTs.Pan.CLibrary

/-!
# Saving and restoring system settings

`tst_sys_conf_save` and `tst_sys_conf_restore` (`lib/tst_sys_conf.c`). A path names a file of
the type `F`, several paths may name one file. The list of saved lines is an undo log of the
files, whose notes keep what `fgets` reads into a buffer of `PATH_MAX` bytes.
-/

namespace EDDTs.LtpLib

open Library Boards Pan

/-- `PATH_MAX` -/
def pathMax : ℕ := 4096

/-- `struct tst_sys_conf` -/
structure SysConf where
  path : Text
  value : Text

/-- What the system calls answer: the file that a path names, and whether it can be opened
for reading. -/
structure SysFiles (F : Type*) where
  file : Text → Option F
  opens : Text → Bool

/-- The contents of the files, the list `save_restore_data`, and what was reported. -/
structure SysState (F : Type*) where
  content : F → Text
  saved : List SysConf := []
  messages : List Message := []
  ended : Bool := false

variable {F : Type*} [DecidableEq F]

namespace SysState

/-- `tst_res` -/
def res (s : SysState F) (m : Message) : SysState F := { s with messages := s.messages ++ [m] }

/-- `tst_brk`: it reports and does not return. -/
def brk (s : SysState F) (m : Message) : SysState F := { s.res m with ended := true }

end SysState

/-- `strncpy` of a C string into a field of `n` bytes. -/
def strncpy (n : ℕ) (t : Text) : Text := t.take n

/-- `tst_sys_conf_save_str` -/
def tstSysConfSaveStr (path value : Text) (s : SysState F) : SysState F :=
  { s with saved := ⟨strncpy pathMax path, strncpy pathMax value⟩ :: s.saved }

/-- The path without the flag in front of it. -/
def confPath (arg : Text) : Text :=
  if arg.head? = some '?' ∨ arg.head? = some '!' then arg.tail else arg

/-- `tst_sys_conf_save`: the result and the new state. -/
def tstSysConfSave (fs : SysFiles F) (arg : Option Text) (s : SysState F) : ℤ × SysState F :=
  match arg with
  | none => (1, s.brk ⟨.brok, txt "path is empty", false⟩)
  | some arg =>
      let flag := arg.head?
      let path := confPath arg
      match fs.file path with
      | none =>
          let text := txt "Path not found: '" ++ path ++ txt "'"
          if flag = some '?' then (1, s.res ⟨.info, text, false⟩)
          else if flag = some '!' then (1, s.brk ⟨.brok, text, true⟩)
          else (1, s.brk ⟨.conf, text, true⟩)
      | some file =>
          if fs.opens path = false then
            if flag = some '?' then (1, s)
            else
              (1, s.brk ⟨.brok, txt "Failed to open FILE '" ++ path ++ txt "' for reading", true⟩)
          else
            -- a NULL result of `fgets` is one that stores nothing
            let line := (fgets (pathMax - 1) (s.content file)).1
            if line = [] then
              if flag = some '?' then (1, s)
              else
                (1, s.brk ⟨.brok, txt "Failed to read anything from '" ++ path ++ txt "'", true⟩)
            else (0, tstSysConfSaveStr path (cString line) s)

/-- `FILE_PRINTF(path, "%s", value)` that succeeds. -/
def filePrintf (fs : SysFiles F) (path value : Text) (content : F → Text) : F → Text :=
  match fs.file path with
  | some file => Function.update content file value
  | none => content

/-- The body of the loop of `tst_sys_conf_restore`. -/
def restoreConf (fs : SysFiles F) (verbose : Bool) (s : SysState F) (conf : SysConf) :
    SysState F :=
  let s :=
    if verbose then
      s.res ⟨.info, txt "Restoring conf.: " ++ conf.path ++ txt " -> " ++ conf.value ++ ['\n'],
        false⟩
    else s
  { s with content := filePrintf fs conf.path conf.value s.content }

/-- `tst_sys_conf_restore` -/
def tstSysConfRestore (fs : SysFiles F) (verbose : Bool) (s : SysState F) : SysState F :=
  s.saved.foldl (restoreConf fs verbose) s

/-- What a test does before the restoring. When `tst_brk` ends its function, the cleanup goes on
with operations of its own. -/
inductive SysOp (F : Type*)
  | save (arg : Option Text)
  | write (file : F) (line : Text)

/-- One operation. -/
def SysOp.exec (fs : SysFiles F) (s : SysState F) : SysOp F → SysState F
  | .save arg => (tstSysConfSave fs arg s).2
  | .write file line => { s with content := Function.update s.content file line }

def runOps (fs : SysFiles F) (ops : List (SysOp F)) (s : SysState F) : SysState F :=
  ops.foldl (SysOp.exec fs) s

/-- The file that an operation saves in this state, if it is a call that succeeds. -/
def savedFile (fs : SysFiles F) (s : SysState F) : SysOp F → Option F
  | .save (some arg) =>
      if (tstSysConfSave fs (some arg) s).1 = 0 then fs.file (confPath arg) else none
  | .save none => none
  | .write _ _ => none

/-- The line of a file at its first successful save. -/
def firstSaved (fs : SysFiles F) (file : F) : List (SysOp F) → SysState F → Option Text
  | [], _ => none
  | op :: ops, s =>
      if savedFile fs s op = some file then some (s.content file)
      else firstSaved fs file ops (op.exec fs s)

/-- One line of text, with or without the newline at its end. -/
def IsLine (t : Text) : Prop :=
  t ≠ [] ∧ '\x00' ∉ t ∧ '\n' ∉ t.dropLast

instance (t : Text) : Decidable (IsLine t) :=
  inferInstanceAs (Decidable (t ≠ [] ∧ '\x00' ∉ t ∧ '\n' ∉ t.dropLast))

/-- An operation as the tests use it: the path is shorter than `PATH_MAX`, and one line is
written. -/
def SysOp.Proper : SysOp F → Prop
  | .save none => True
  | .save (some arg) => (confPath arg).length < pathMax
  | .write _ line => IsLine line

instance (op : SysOp F) : Decidable op.Proper :=
  match op with
  | .save none => isTrue trivial
  | .save (some arg) => inferInstanceAs (Decidable ((confPath arg).length < pathMax))
  | .write _ line => inferInstanceAs (Decidable (IsLine line))

section Lines

/-- `fgets` reads as much of a line as its buffer holds. -/
theorem fgets_of_newline_last {t : Text} (h : '\n' ∉ t.dropLast) (room : ℕ) :
    (fgets room t).1 = t.take room := by
  induction t generalizing room with
  | nil => cases room <;> simp [fgets]
  | cons c t ih =>
      cases room with
      | zero => simp [fgets]
      | succ room =>
          cases t with
          | nil => by_cases hc : c = '\n' <;> simp [fgets, hc, ih]
          | cons d t =>
              rw [List.dropLast_cons_cons, List.mem_cons, not_or] at h
              rw [fgets, if_neg (Ne.symm h.1), List.take_succ_cons, ih h.2]

/-- What a save keeps of the content of a file. -/
def keptLine (t : Text) : Text := strncpy pathMax (cString (fgets (pathMax - 1) t).1)

theorem keptLine_eq {t : Text} (h : IsLine t) : keptLine t = t.take (pathMax - 1) := by
  have hnul : '\x00' ∉ t.take (pathMax - 1) := fun hmem => h.2.1 (List.mem_of_mem_take hmem)
  rw [keptLine, fgets_of_newline_last h.2.2, cString_eq hnul, strncpy, List.take_take]
  rfl

/-- It is the whole line when this is shorter than the buffer. -/
theorem keptLine_eq_self_iff {t : Text} (h : IsLine t) : keptLine t = t ↔ t.length < pathMax := by
  rw [keptLine_eq h]
  constructor
  · intro heq
    have hlength := congrArg List.length heq
    rw [List.length_take, pathMax] at hlength
    rw [pathMax]
    omega
  · intro hlt
    exact List.take_of_length_le (Nat.le_sub_one_of_lt hlt)

end Lines

section Refinement

variable {fs : SysFiles F} {s : SysState F}

omit [DecidableEq F] in
/-- A call of `tst_sys_conf_save` fails and changes neither a file nor the list, or it puts
what it keeps of the file in front of the list. -/
theorem tstSysConfSave_cases (fs : SysFiles F) (arg : Option Text) (s : SysState F) :
    ((tstSysConfSave fs arg s).1 = 1 ∧ (tstSysConfSave fs arg s).2.content = s.content ∧
      (tstSysConfSave fs arg s).2.saved = s.saved) ∨
    ∃ path file, arg = some path ∧ fs.file (confPath path) = some file ∧
      tstSysConfSave fs arg s =
        (0, { s with saved := ⟨strncpy pathMax (confPath path), keptLine (s.content file)⟩ ::
          s.saved }) := by
  cases arg with
  | none => exact Or.inl ⟨rfl, rfl, rfl⟩
  | some path =>
      simp only [tstSysConfSave]
      cases hfile : fs.file (confPath path) with
      | none =>
          left
          dsimp only
          split_ifs <;> exact ⟨rfl, rfl, rfl⟩
      | some file =>
          dsimp only
          split_ifs with hopens hflag hline hflag
          · exact Or.inl ⟨rfl, rfl, rfl⟩
          · exact Or.inl ⟨rfl, rfl, rfl⟩
          · exact Or.inl ⟨rfl, rfl, rfl⟩
          · exact Or.inl ⟨rfl, rfl, rfl⟩
          · exact Or.inr ⟨path, file, rfl, hfile, rfl⟩

omit [DecidableEq F] in
/-- A file that can be read is saved. -/
theorem tstSysConfSave_of_readable {path : Text} {file : F}
    (hfile : fs.file (confPath path) = some file) (hopens : fs.opens (confPath path) = true)
    (hread : (fgets (pathMax - 1) (s.content file)).1 ≠ []) :
    (tstSysConfSave fs (some path) s).1 = 0 := by
  simp [tstSysConfSave, hfile, hopens, hread]

/-- The files and the list as a map with its undo log. -/
def undoLog (fs : SysFiles F) (s : SysState F) : UndoLog F Text where
  now := s.content
  log := s.saved.filterMap fun conf => (fs.file conf.path).map (·, conf.value)

/-- The operations on the undo log that one operation amounts to. -/
def undoOps (fs : SysFiles F) (s : SysState F) : SysOp F → List (UndoOp F Text)
  | .write file line => [.set file line]
  | .save arg =>
      match savedFile fs s (.save arg) with
      | some file => [.note file]
      | none => []

omit [DecidableEq F] in
theorem savedFile_save {path : Text} {file : F} (hfile : fs.file (confPath path) = some file)
    (h : (tstSysConfSave fs (some path) s).1 = 0) :
    savedFile fs s (.save (some path)) = some file := by
  rw [savedFile, if_pos h, hfile]

omit [DecidableEq F] in
theorem savedFile_of_fails {arg : Option Text} (h : (tstSysConfSave fs arg s).1 = 1) :
    savedFile fs s (.save arg) = none := by
  cases arg with
  | none => rfl
  | some path => rw [savedFile, h, if_neg (by decide)]

/-- One operation of the test is the one on the undo log. -/
theorem undoLog_exec {op : SysOp F} (hop : op.Proper) :
    undoLog fs (op.exec fs s) = (undoLog fs s).run keptLine (undoOps fs s op) := by
  cases op with
  | write file line => rfl
  | save arg =>
      rcases tstSysConfSave_cases fs arg s with
        ⟨hfails, hcontent, hsaved⟩ | ⟨path, file, rfl, hfile, heq⟩
      · rw [SysOp.exec, undoOps, savedFile_of_fails hfails, undoLog, hcontent, hsaved]
        rfl
      · have hpath : strncpy pathMax (confPath path) = confPath path :=
          List.take_of_length_le (Nat.le_of_lt hop)
        have hzero : (tstSysConfSave fs (some path) s).1 = 0 := by rw [heq]
        rw [SysOp.exec, undoOps, savedFile_save hfile hzero, heq, hpath]
        simp only [undoLog, List.filterMap_cons, hfile, Option.map_some]
        rfl

/-- The operations on the undo log that a whole run amounts to. -/
def undoRun (fs : SysFiles F) : List (SysOp F) → SysState F → List (UndoOp F Text)
  | [], _ => []
  | op :: ops, s => undoOps fs s op ++ undoRun fs ops (op.exec fs s)

/-- A run of the test is a run of the undo log. -/
theorem undoLog_runOps (fs : SysFiles F) {ops : List (SysOp F)} (hops : ∀ op ∈ ops, op.Proper)
    (s : SysState F) :
    undoLog fs (runOps fs ops s) = (undoLog fs s).run keptLine (undoRun fs ops s) := by
  induction ops generalizing s with
  | nil => rfl
  | cons op ops ih =>
      obtain ⟨hop, hops⟩ := List.forall_mem_cons.mp hops
      rw [undoRun, UndoLog.run_append, ← undoLog_exec hop]
      exact ih hops (op.exec fs s)

/-- What is noted first on the undo log is what is saved first. -/
theorem firstNoted_undoRun (file : F) (ops : List (SysOp F)) (s : SysState F) :
    UndoLog.firstNoted file (undoRun fs ops s) s.content = firstSaved fs file ops s := by
  induction ops generalizing s with
  | nil => rfl
  | cons op ops ih =>
      have hnext := ih (op.exec fs s)
      rw [undoRun, firstSaved]
      cases op with
      | write other line =>
          rw [savedFile, if_neg (by simp)]
          exact hnext
      | save arg =>
          rw [undoOps]
          have hcontent : (SysOp.exec fs s (.save arg)).content = s.content := by
            rcases tstSysConfSave_cases fs arg s with ⟨-, h, -⟩ | ⟨path, file, rfl, -, heq⟩
            · exact h
            · rw [SysOp.exec, heq]
          rw [hcontent] at hnext
          cases hsaved : savedFile fs s (.save arg) with
          | none =>
              rw [if_neg (by simp)]
              exact hnext
          | some other =>
              by_cases hother : other = file
              · subst hother
                simp [UndoLog.firstNoted]
              · rw [if_neg (by simp [hother])]
                simpa [UndoLog.firstNoted, hother] using hnext

/-- The restoring replays the undo log. -/
theorem tstSysConfRestore_content (verbose : Bool) (s : SysState F) :
    (tstSysConfRestore fs verbose s).content = (undoLog fs s).replay := by
  have hlist : ∀ (confs : List SysConf) (s : SysState F),
      (confs.foldl (restoreConf fs verbose) s).content =
        (confs.filterMap fun conf => (fs.file conf.path).map (·, conf.value)).foldl
          (fun m entry => Function.update m entry.1 entry.2) s.content := by
    intro confs
    induction confs with
    | nil => exact fun s => rfl
    | cons conf confs ih =>
        intro s
        have hone : (restoreConf fs verbose s conf).content =
            filePrintf fs conf.path conf.value s.content := by
          cases verbose <;> rfl
        rw [List.foldl_cons, ih, hone, filePrintf, List.filterMap_cons]
        cases fs.file conf.path <;> rfl
  exact hlist s.saved s

end Refinement

section Restored

variable {fs : SysFiles F} {ops : List (SysOp F)}

/-- After the restoring a saved file holds what its first save kept, and the other files are
as they were. -/
theorem restored_content (fs : SysFiles F) (verbose : Bool) (content : F → Text)
    (hops : ∀ op ∈ ops, op.Proper) (file : F) :
    (tstSysConfRestore fs verbose (runOps fs ops { content })).content file =
      ((firstSaved fs file ops { content }).map keptLine).getD
        ((runOps fs ops { content }).content file) := by
  have hrun := undoLog_runOps fs hops { content }
  have hnow : ((undoLog fs { content }).run keptLine (undoRun fs ops { content })).now =
      (runOps fs ops { content }).content := by
    rw [← hrun]
    rfl
  rw [tstSysConfRestore_content, hrun, ← hnow, ← firstNoted_undoRun]
  exact UndoLog.replay_run keptLine (undoRun fs ops { content }) content file

/-- The files hold lines throughout, so a line is saved. -/
theorem isLine_of_firstSaved {s : SysState F} (hlines : ∀ file, IsLine (s.content file))
    (hops : ∀ op ∈ ops, op.Proper) {file : F} {line : Text}
    (h : firstSaved fs file ops s = some line) : IsLine line := by
  induction ops generalizing s with
  | nil => cases h
  | cons op ops ih =>
      obtain ⟨hop, hops⟩ := List.forall_mem_cons.mp hops
      rw [firstSaved] at h
      split at h
      · cases h
        exact hlines file
      · refine ih (fun other => ?_) hops h
        cases op with
        | write written line =>
            by_cases hother : other = written
            · subst hother
              have hline : IsLine line := hop
              simpa [SysOp.exec] using hline
            · simpa [SysOp.exec, Function.update_of_ne hother] using hlines other
        | save arg =>
            rcases tstSysConfSave_cases fs arg s with ⟨-, hcontent, -⟩ | ⟨path, file, rfl, -, heq⟩
            · rw [SysOp.exec, hcontent]
              exact hlines other
            · rw [SysOp.exec, heq]
              exact hlines other

end Restored

/-- The restoring brings every saved file back to its line at the first save, and changes no
other, exactly when all these lines are shorter than `PATH_MAX`. -/
theorem tstSysConfRestore_iff (fs : SysFiles F) (ops : List (SysOp F)) (content : F → Text)
    (verbose : Bool) (hlines : ∀ file, IsLine (content file)) (hops : ∀ op ∈ ops, op.Proper) :
    ((∀ file line, firstSaved fs file ops { content } = some line →
        (tstSysConfRestore fs verbose (runOps fs ops { content })).content file = line) ∧
      ∀ file, firstSaved fs file ops { content } = none →
        (tstSysConfRestore fs verbose (runOps fs ops { content })).content file =
          (runOps fs ops { content }).content file) ↔
    ∀ file line, firstSaved fs file ops { content } = some line → line.length < pathMax := by
  have hrestored := restored_content fs verbose content hops
  constructor
  · rintro ⟨hsaved, -⟩ file line hfirst
    have hline := isLine_of_firstSaved hlines hops hfirst
    have hkept := hsaved file line hfirst
    rw [hrestored, hfirst] at hkept
    exact (keptLine_eq_self_iff hline).mp hkept
  · intro hshort
    constructor
    · intro file line hfirst
      have hline := isLine_of_firstSaved hlines hops hfirst
      rw [hrestored, hfirst]
      exact (keptLine_eq_self_iff hline).mpr (hshort file line hfirst)
    · intro file hfirst
      rw [hrestored, hfirst]
      rfl

/-- A system with the one file `/proc/sys/a`. -/
def oneSetting : SysFiles Unit where
  file path := if path = txt "/proc/sys/a" then some () else none
  opens _ := true

/-- Saved twice, before and after the test changed the file. -/
def savedTwice : List (SysOp Unit) :=
  [.save (some (txt "?/proc/sys/a")), .write () (txt "0\n"), .save (some (txt "/proc/sys/a")),
    .write () (txt "7\n")]

theorem tstSysConfRestore_iff_savedTwice :
    firstSaved oneSetting () savedTwice { content := fun _ => txt "1\n" } = some (txt "1\n") ∧
    (tstSysConfRestore oneSetting false
      (runOps oneSetting savedTwice { content := fun _ => txt "1\n" })).content () =
        txt "1\n" := by
  have hfirst : firstSaved oneSetting () savedTwice { content := fun _ => txt "1\n" } =
      some (txt "1\n") := by decide
  have hall := (tstSysConfRestore_iff oneSetting savedTwice (fun _ => txt "1\n") false
    (fun _ => by decide) (by decide)).mpr fun file line h => by
      rw [hfirst] at h
      cases h
      decide
  exact ⟨hfirst, hall.1 () _ hfirst⟩

/-- The one file is saved once, and restored. -/
theorem oneSetting_restored {t : Text} (h : IsLine t) :
    firstSaved oneSetting () [.save (some (txt "/proc/sys/a"))] { content := fun _ => t } =
      some t ∧
    (tstSysConfRestore oneSetting false
      (runOps oneSetting [.save (some (txt "/proc/sys/a"))] { content := fun _ => t })).content () =
        t.take (pathMax - 1) := by
  have hread : (fgets (pathMax - 1) t).1 ≠ [] := by
    rw [fgets_of_newline_last h.2.2]
    intro hnil
    exact h.1 ((List.take_eq_nil_iff.mp hnil).resolve_left (by decide))
  have hfirst : firstSaved oneSetting () [.save (some (txt "/proc/sys/a"))]
      { content := fun _ => t } = some t := by
    have hzero : (tstSysConfSave oneSetting (some (txt "/proc/sys/a"))
        { content := fun _ => t }).1 = 0 := tstSysConfSave_of_readable rfl rfl hread
    rw [firstSaved, savedFile_save rfl hzero, if_pos rfl]
  rw [restored_content oneSetting false _ (by decide), hfirst, ← keptLine_eq h]
  exact ⟨rfl, rfl⟩

/-- A line of `PATH_MAX` characters comes back one character short. -/
theorem tstSysConfRestore_long :
    firstSaved oneSetting () [.save (some (txt "/proc/sys/a"))]
        { content := fun _ => List.replicate 4096 'a' } = some (List.replicate 4096 'a') ∧
    (tstSysConfRestore oneSetting false
      (runOps oneSetting [.save (some (txt "/proc/sys/a"))]
        { content := fun _ => List.replicate 4096 'a' })).content () = List.replicate 4095 'a' := by
  have hline : ∀ n, IsLine (List.replicate (n + 1) 'a') := by
    intro n
    refine ⟨by simp, by simp, ?_⟩
    rw [List.dropLast_replicate]
    simp
  obtain ⟨hfirst, hrestored⟩ := oneSetting_restored (hline 4095)
  rw [List.take_replicate] at hrestored
  exact ⟨hfirst, hrestored⟩

end EDDTs.LtpLib
