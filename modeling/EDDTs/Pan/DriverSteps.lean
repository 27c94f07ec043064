import EDDTs.Pan.Driver

/-!
# What the steps of ltp-pan do

For each function of the driver, what it leaves of the books, of the control
variables and of the rts output; and from these, all that an event can do.
-/

namespace EDDTs.Pan

open Library Library.Interleaving

/-- The standard output without the notices of ltp-pan. -/
def PanState.rtsOut (s : PanState) : List Piece := s.out.filter fun p => p.origin ≠ .pan

/-- The piece that `write_test_start` prints. -/
def startPieces (o : Options) (slot : Slot) : List Piece :=
  if o.rts then [⟨.start slot.attempt, testStartText slot.cmd slot.mystime⟩] else []

/-- What `run_child` prints before the fork. -/
def forkPieces (o : Options) (slot : Slot) : List Piece :=
  if !o.testOutDir && !o.quietMode then startPieces o slot else []

/-- The piece that `run_child` prints for a child that was not executed. -/
def failedPieces (o : Options) (slot : Slot) (errbuf : Text) (status : Nat) (endTime : Int) :
    List Piece :=
  if !o.quietMode && o.rts then
    [⟨.finish slot.attempt, testEndText errbuf (endTime - slot.mystime)
      (termination status).1.text (termination status).2 status 0 0⟩]
  else []

/-- The value of `w` in `check_pids` after the compensation. -/
def childW (statLoc : Nat) (stopping : Bool) : Nat :=
  if (termination statLoc).2 = 130 ∧ stopping ∧ (termination statLoc).1 = .exited then 0
  else (termination statLoc).2

/-- What `check_pids` returns for a child in a slot. -/
def childRet (statLoc : Nat) (stopping : Bool) : Int :=
  let status := (termination statLoc).1
  let w := (termination statLoc).2
  let ret : Int :=
    match status with
    | .signaled => 0
    | .exited => if w ≠ 0 ∧ w ≠ TCONF then 1 else 0
    | _ => 1
  let ret := if w = 130 ∧ stopping ∧ status = .exited then ret - 1 else ret
  if status = .signaled ∧ !stopping then ret + 1 else ret

/-- What `check_pids` prints for a child. -/
def childPieces (o : Options) (slot : Slot) (statLoc : Nat) (a : Answer) : List Piece :=
  (if o.testOutDir then
    (if o.quietMode then [] else startPieces o slot) ++
      [⟨.output slot.attempt, copyBufferedOutput a.bufferFile a.byteBefore⟩]
  else []) ++
  if !o.quietMode && o.rts then
    [⟨.finish slot.attempt, testEndText (txt "ok") (a.now - slot.mystime)
      (if slot.stopping then TermType.driverInterrupt else (termination statLoc).1).text
      (childW statLoc slot.stopping) statLoc a.cutime a.cstime⟩]
  else []

namespace PanState

variable {o : Options} {s s' : PanState} {slot : Slot}

theorem rtsOut_print (s : PanState) (origin : Origin) (text : Text) :
    (s.print origin text).rtsOut =
      s.rtsOut ++ if origin ≠ .pan then [⟨origin, text⟩] else [] := by
  by_cases h : origin = .pan <;> simp [rtsOut, print, h]

theorem rtsOut_notice (s : PanState) (text : Text) : (s.print .pan text).rtsOut = s.rtsOut := by
  simp [rtsOut_print]

theorem rtsOut_append {pieces : List Piece} (h : ∀ p ∈ pieces, p.origin ≠ .pan) (s : PanState)
    (b : Books) (pc : Pc) :
    { s with toBooks := b, out := s.out ++ pieces, pc := pc }.rtsOut = s.rtsOut ++ pieces := by
  simpa [rtsOut] using h

theorem writeTestStart_eq (o : Options) (s : PanState) (slot : Slot) (kmsgOk : Bool) :
    s.writeTestStart o slot kmsgOk =
      { s with
        out := s.out ++ startPieces o slot
        pc := if o.noKmsg || kmsgOk then s.pc else .aborted } := by
  unfold writeTestStart startPieces
  cases o.rts <;> cases (o.noKmsg || kmsgOk) <;> simp [print]

theorem writeTestEnd_eq (o : Options) (s : PanState) (slot : Slot) (initStatus : Text)
    (exitTime : Int) (termType : TermType) (statLoc termId : Nat) (cutime cstime : Int) :
    s.writeTestEnd o slot initStatus exitTime termType statLoc termId cutime cstime =
      { s with
        out := s.out ++ if o.rts then
          [⟨.finish slot.attempt, testEndText initStatus (exitTime - slot.mystime) termType.text
            termId statLoc cutime cstime⟩]
        else [] } := by
  unfold writeTestEnd
  split <;> simp [print]

section EnterFork

variable (o slot) (i : Nat) (kmsgOk : Bool) (s)

theorem enterFork_eq :
    s.enterFork o i slot kmsgOk =
      { s with
        toBooks := s.toBooks.setSlot i slot
        out := s.out ++ forkPieces o slot
        pc := if !o.testOutDir && !o.quietMode && !(o.noKmsg || kmsgOk) then .aborted
          else s.pc } := by
  unfold enterFork forkPieces
  cases !o.testOutDir && !o.quietMode <;> cases hk : (o.noKmsg || kmsgOk) <;>
    simp [writeTestStart_eq, hk]

theorem enterFork_pc :
    (s.enterFork o i slot kmsgOk).pc = s.pc ∨
      ((s.enterFork o i slot kmsgOk).pc = .aborted ∧ kmsgOk = false) := by
  rw [enterFork_eq]
  dsimp only
  split
  next hk => exact Or.inr ⟨rfl, by simp_all⟩
  next => exact Or.inl rfl

theorem forkPieces_origin {p : Piece} (hp : p ∈ forkPieces o slot) :
    p.origin = .start slot.attempt := by
  unfold forkPieces startPieces at hp
  split at hp
  · split at hp
    · rw [List.mem_singleton.mp hp]
    · cases hp
  · cases hp

end EnterFork

end PanState

/-- The ways in which a call of `run_child` can end. -/
inductive ChildRun (o : Options) (colle : CollEntry) (i attempt : Nat) (a : Answer)
    (slot : Slot) (s s' : PanState) : Prop
  /-- no child was forked; the slot was entered before a failing `fork` only -/
  | refused (why : Refusal) (b : Books)
      (entered : b = s.toBooks ∨ b = s.toBooks.setSlot i slot)
      (start : a.start = .openFails ∨ a.start = .pipeFails ∨ a.start = .forkFails)
      (books : s'.toBooks = b.close ⟨attempt, colle, a.now, a.now, .refused why⟩)
      (pc : s'.pc = .ranChild none)
  /-- the kernel log could not be opened, or a buffer was overrun -/
  | aborted (cause : a.kmsgOk = false ∨ a.nameOverruns o colle = true ∨ a.reportOverruns = true)
      (books : s'.toBooks = s.toBooks.setSlot i slot)
      (pc : s'.pc = .aborted)
  | failed (errbuf : Text) (status : Nat) (endTime : Int)
      (start : a.start = .reported errbuf status endTime) (gone : terminated status = true)
      (books : s'.toBooks =
        ((s.toBooks.setSlot i slot).logFailedStart o slot status endTime).close
          ⟨slot.attempt, slot.cmd, slot.mystime, endTime, .execFailed errbuf status⟩)
      (pc : s'.pc = .ranChild none)
      (rts : s'.rtsOut = s.rtsOut ++ (forkPieces o slot ++
        failedPieces o slot errbuf status endTime))
  | started (pid : Pid) (start : a.start = .started pid) (pos : pid ≠ 0) (fresh : pid ∉ s.live)
      (books : s'.toBooks =
        { s.toBooks.setSlot i { slot with pgrp := pid, stopping := false } with
          live := s.live ++ [pid] })
      (pc : s'.pc = if a.zooOk then .ranChild (some pid) else .aborted)
      (rts : s'.rtsOut = s.rtsOut ++ forkPieces o slot)

variable {o : Options}

/-- Where `run_child` goes on. -/
theorem ChildRun.place {colle : CollEntry} {i attempt : Nat} {a : Answer} {slot : Slot}
    {s s' : PanState} (h : ChildRun o colle i attempt a slot s s') :
    s'.pc = .aborted ∨ ∃ cpid, s'.pc = .ranChild cpid := by
  cases h with
  | refused why b entered start books pc => exact Or.inr ⟨none, pc⟩
  | aborted cause books pc => exact Or.inl pc
  | failed errbuf status endTime start gone books pc rts => exact Or.inr ⟨none, pc⟩
  | started pid start pos fresh books pc rts =>
      rw [pc]
      split
      · exact Or.inr ⟨some pid, rfl⟩
      · exact Or.inl rfl

namespace PanState

variable {coll : List CollEntry} {s s' : PanState} {colle : CollEntry} {i attempt : Nat}
  {a : Answer}

theorem noteFailedStart_eq (o : Options) (s : PanState) (slot : Slot) (errbuf : Text)
    (status : Nat) (endTime : Int) :
    s.noteFailedStart o slot errbuf status endTime =
      { s with
        toBooks := (s.toBooks.logFailedStart o slot status endTime).close
          ⟨slot.attempt, slot.cmd, slot.mystime, endTime, .execFailed errbuf status⟩
        out := s.out ++ failedPieces o slot errbuf status endTime
        pc := .ranChild none } := by
  unfold noteFailedStart failedPieces
  cases o.quietMode <;> simp [writeTestEnd_eq]

theorem runChild_cases (hpc : s.pc ≠ .aborted)
    (h : s.runChild o colle i attempt a = some s') :
    s'.toControl = s.toControl ∧
      ChildRun o colle i attempt a (s.attemptSlot i a.now colle attempt) s s' := by
  unfold runChild at h
  dsimp only at h
  generalize s.attemptSlot i a.now colle attempt = slot at h ⊢
  have hfork := enterFork_pc o s slot i a.kmsgOk
  have ht := enterFork_eq o s slot i a.kmsgOk
  generalize s.enterFork o i slot a.kmsgOk = t at h hfork ht
  have hbooks : t.toBooks = s.toBooks.setSlot i slot := by rw [ht]
  have hcontrol : t.toControl = s.toControl := by rw [ht]
  have hrts : t.rtsOut = s.rtsOut ++ forkPieces o slot := by
    rw [ht]
    exact rtsOut_append (fun p hp => by simp [forkPieces_origin o slot hp]) s _ _
  have habort : ∀ f, t.pc = .aborted → s' = t.unlessAborted f →
      s'.toControl = s.toControl ∧ ChildRun o colle i attempt a slot s s' := by
    intro f hp hs'
    have hst : s' = t := by rw [hs', unlessAborted, if_pos hp]
    subst hst
    rcases hfork with he | ⟨-, hkmsg⟩
    · exact absurd (he ▸ hp) hpc
    · exact ⟨hcontrol, .aborted (Or.inl hkmsg) hbooks hp⟩
  split at h
  next hover =>
    obtain rfl := Option.some.inj h
    by_cases hp : t.pc = .aborted
    · exact habort _ hp rfl
    · rw [unlessAborted, if_neg hp]
      exact ⟨hcontrol, .aborted (Or.inr (Bool.or_eq_true_iff.mp hover)) hbooks rfl⟩
  cases hstart : a.start with
  | openFails =>
      simp only [hstart, Option.ite_none_right_eq_some, Option.some.injEq] at h
      obtain ⟨-, rfl⟩ := h
      exact ⟨rfl, .refused .openFails _ (Or.inl rfl) (by simp [hstart]) rfl rfl⟩
  | pipeFails =>
      simp only [hstart, Option.some.injEq] at h
      subst h
      exact ⟨rfl, .refused .pipeFails _ (Or.inl rfl) (by simp [hstart]) rfl rfl⟩
  | forkFails =>
      simp only [hstart, Option.some.injEq] at h
      by_cases hp : t.pc = .aborted
      · exact habort _ hp h.symm
      · rw [unlessAborted, if_neg hp] at h
        subst h
        exact ⟨hcontrol, .refused .forkFails _ (Or.inr rfl) (by simp [hstart])
          (by rw [refuse, hbooks]) rfl⟩
  | reported errbuf status endTime =>
      simp only [hstart, Option.ite_none_right_eq_some, Option.some.injEq] at h
      obtain ⟨hgone, h⟩ := h
      by_cases hp : t.pc = .aborted
      · exact habort _ hp h.symm
      · rw [unlessAborted, if_neg hp] at h
        subst h
        rw [noteFailedStart_eq]
        refine ⟨hcontrol, .failed errbuf status endTime hstart hgone (by rw [hbooks]) rfl ?_⟩
        rw [← List.append_assoc, ← hrts]
        refine rtsOut_append (fun p hp => ?_) t _ _
        unfold failedPieces at hp
        split at hp <;> simp_all
  | started pid =>
      simp only [hstart, Option.ite_none_right_eq_some, Option.some.injEq] at h
      obtain ⟨⟨hpos, hfresh⟩, h⟩ := h
      by_cases hp : t.pc = .aborted
      · exact habort _ hp h.symm
      · rw [unlessAborted, if_neg hp, noteStarted] at h
        cases hzoo : a.zooOk with
        | true =>
            simp only [hzoo, if_true] at h
            subst h
            exact ⟨hcontrol, .started pid hstart hpos hfresh (by simp [hbooks, Books.setSlot])
              (by simp [hzoo]) hrts⟩
        | false =>
            simp only [hzoo, Bool.false_eq_true, if_false] at h
            subst h
            exact ⟨hcontrol, .started pid hstart hpos hfresh (by simp [hbooks, Books.setSlot])
              (by simp [hzoo]) hrts⟩

theorem unlessAborted_frame {β : Type} (g : PanState → β) {f : PanState → PanState}
    (hf : ∀ t, g (f t) = g t) (s : PanState) : g (s.unlessAborted f) = g s := by
  unfold unlessAborted
  split
  · rfl
  · exact hf s

section ReportChild

variable (o) (slot : Slot) (w statLoc : Nat) (a) (s)

/-- The report of a child is written to the standard output. -/
theorem reportChild_frame {β : Type} (g : PanState → β) (status : TermType)
    (hg : ∀ t out pc, g { t with out := out, pc := pc } = g t) :
    g (s.reportChild o slot status w statLoc a) = g s := by
  have hprint : ∀ t q x, g (print t q x) = g t := fun t _ _ => hg t _ t.pc
  have hend : ∀ t termType, g (writeTestEnd o slot (txt "ok") a.now termType statLoc w a.cutime
      a.cstime t) = g t := fun t _ => by rw [writeTestEnd_eq]; exact hg t _ t.pc
  have hstart : ∀ t, g (writeTestStart o slot a.kmsgOk t) = g t := fun t => by
    rw [writeTestStart_eq]
    exact hg t _ _
  unfold reportChild
  cases o.testOutDir <;> cases o.quietMode <;>
    simp [unlessAborted_frame g (hend · _), unlessAborted_frame g (hprint · _ _), hstart]

/-- A child is reported in full unless the kernel log cannot be opened. -/
theorem reportChild_cases (hpc : s.pc ≠ .aborted) :
    ((s.reportChild o slot (termination statLoc).1 (childW statLoc slot.stopping) statLoc a).pc =
        .aborted ∧ a.kmsgOk = false) ∨
      ((s.reportChild o slot (termination statLoc).1 (childW statLoc slot.stopping) statLoc a).pc =
        s.pc ∧
      (s.reportChild o slot (termination statLoc).1 (childW statLoc slot.stopping) statLoc
        a).rtsOut = s.rtsOut ++ childPieces o slot statLoc a) := by
  unfold reportChild childPieces unlessAborted rtsOut
  cases hdir : o.testOutDir with
  | false =>
      right
      cases hq : o.quietMode <;> cases hr : o.rts <;> simp [hpc, writeTestEnd_eq, hr]
  | true =>
      cases hq : o.quietMode with
      | true =>
          right
          simp [hpc, print]
      | false =>
          cases hk : (o.noKmsg || a.kmsgOk) with
          | true =>
              right
              cases hr : o.rts <;>
                simp [writeTestStart_eq, startPieces, hk, hpc, print, writeTestEnd_eq, hr]
          | false =>
              left
              simp [writeTestStart_eq, hk]
              simpa using (Bool.or_eq_false_iff.mp hk).2

end ReportChild

/-- Freeing a slot fails only on the active file. -/
theorem releaseSlot_cases (i : Nat) (slot : Slot) (cpid : Pid) (ret : Int) (a : Answer)
    (s : PanState) :
    (s.releaseSlot i slot cpid ret a).toBooks = s.toBooks.setSlot i { slot with pgrp := 0 } ∧
      (s.releaseSlot i slot cpid ret a).toControl = s.toControl ∧
      (s.releaseSlot i slot cpid ret a).rtsOut = s.rtsOut ∧
      ((s.releaseSlot i slot cpid ret a).pc = .checked ret ∨
        ((s.releaseSlot i slot cpid ret a).pc = .aborted ∧
          (a.zooOk = false ∨ a.zooMarkOk = false))) := by
  unfold releaseSlot
  cases hz : a.zooOk with
  | false => exact ⟨rfl, rfl, rfl, Or.inr ⟨rfl, Or.inl rfl⟩⟩
  | true =>
      cases a.groupAlive with
      | false => exact ⟨rfl, rfl, rfl, Or.inl rfl⟩
      | true =>
          cases hm : a.zooMarkOk with
          | false => exact ⟨rfl, rfl, rfl, Or.inr ⟨rfl, Or.inr rfl⟩⟩
          | true => exact ⟨rfl, rfl, rfl, Or.inl rfl⟩

end PanState

/-- What happened to the attempt in a slot whose child is reaped. -/
def childOutcome (o : Options) (slot : Slot) (statLoc : Nat) (a : Answer) : Outcome :=
  ⟨slot.attempt, slot.cmd, slot.mystime, a.now, .reaped statLoc slot.stopping a.cutime a.cstime
    (if o.testOutDir then copyBufferedOutput a.bufferFile a.byteBefore else [])⟩

/-- The books after the log line, the command file and the ledger have been
written for a child. -/
def Books.noteChild (o : Options) (slot : Slot) (statLoc : Nat) (a : Answer) (b : Books) : Books :=
  let w := childW statLoc slot.stopping
  ((b.logChild o slot a.now (termination statLoc).1 w statLoc a.cutime a.cstime).recordCommand
    o slot w).close (childOutcome o slot statLoc a)

namespace Outcome

/-- The termination type and number that are logged, if a child was forked. -/
def result (e : Outcome) : Option (TermType × Nat) :=
  match e.ending with
  | .refused _ => none
  | .execFailed _ status => some (termination status)
  | .reaped statLoc stopping _ _ _ => some ((termination statLoc).1, childW statLoc stopping)

/-- The word for the result in the formatted log. -/
def verdict (e : Outcome) : Option Verdict :=
  match e.ending with
  | .refused _ => none
  | .execFailed _ status => some (if (termination status).2 ≠ 0 then .fail else .pass)
  | .reaped statLoc stopping _ _ _ =>
      some (if (termination statLoc).1 = .exited ∧ childW statLoc stopping = TCONF then .conf
        else if childW statLoc stopping ≠ 0 then .fail else .pass)

/-- The log lines of an attempt. -/
def logLines (o : Options) (e : Outcome) : List LogLine :=
  if o.logfile then
    if o.fmtPrint then
      match e.verdict, e.result with
      | some v, some (_, w) => [.result e.attempt e.cmd v w]
      | _, _ => []
    else
      match e.ending with
      | .refused _ => []
      | .execFailed _ status =>
          [.plain e.attempt e.cmd e.mystime (e.endTime - e.mystime) (termination status).1
            (termination status).2 status 0 0]
      | .reaped statLoc stopping cutime cstime _ =>
          [.plain e.attempt e.cmd e.mystime (e.endTime - e.mystime) (termination statLoc).1
            (childW statLoc stopping) statLoc cutime cstime]
  else []

/-- The command that goes to the fail command file. -/
def failCmd (o : Options) (e : Outcome) : Option CollEntry :=
  match e.ending with
  | .reaped statLoc stopping _ _ _ =>
      if childW statLoc stopping ≠ 0 ∧ ¬ (o.tconfcmdfile ∧ childW statLoc stopping = TCONF) ∧
        o.failcmdfile then some e.cmd else none
  | _ => none

/-- The command that goes to the tconf command file. -/
def tconfCmd (o : Options) (e : Outcome) : Option CollEntry :=
  match e.ending with
  | .reaped statLoc stopping _ _ _ =>
      if childW statLoc stopping ≠ 0 ∧ o.tconfcmdfile ∧ childW statLoc stopping = TCONF then
        some e.cmd
      else none
  | _ => none

end Outcome

/-- The books after the end of an attempt has been noted. -/
def Books.account (o : Options) (e : Outcome) (b : Books) : Books :=
  { b with
    log := b.log ++ e.logLines o
    failcnt := b.failcnt + if o.logfile && o.fmtPrint && e.verdict = some .fail then 1 else 0
    tconfcnt := b.tconfcnt + if o.logfile && o.fmtPrint && e.verdict = some .conf then 1 else 0
    failCmds := b.failCmds ++ (e.failCmd o).toList
    tconfCmds := b.tconfCmds ++ (e.tconfCmd o).toList
    ledger := b.ledger ++ [e] }

namespace Books

variable (o : Options) (slot : Slot) (b : Books)

theorem close_refused (attempt : Nat) (cmd : CollEntry) (mystime endTime : Int) (why : Refusal) :
    b.close ⟨attempt, cmd, mystime, endTime, .refused why⟩ =
      b.account o ⟨attempt, cmd, mystime, endTime, .refused why⟩ := by
  simp [close, account, Outcome.logLines, Outcome.verdict, Outcome.failCmd, Outcome.tconfCmd]

/-- A child that was not executed has ended its attempt. -/
theorem failedStart_eq (errbuf : Text) (status : Nat) (endTime : Int) :
    (b.logFailedStart o slot status endTime).close
        ⟨slot.attempt, slot.cmd, slot.mystime, endTime, .execFailed errbuf status⟩ =
      b.account o ⟨slot.attempt, slot.cmd, slot.mystime, endTime, .execFailed errbuf status⟩ := by
  unfold logFailedStart close account
  cases hl : o.logfile <;> cases hp : o.fmtPrint <;>
    by_cases hw : (termination status).2 = 0 <;>
    simp [Outcome.logLines, Outcome.verdict, Outcome.result, Outcome.failCmd, Outcome.tconfCmd,
      hl, hp, hw]

theorem logChild_eq (statLoc : Nat) (a : Answer) :
    let e := childOutcome o slot statLoc a
    b.logChild o slot a.now (termination statLoc).1 (childW statLoc slot.stopping) statLoc
        a.cutime a.cstime =
      { b with
        log := b.log ++ e.logLines o
        failcnt := b.failcnt + if o.logfile && o.fmtPrint && e.verdict = some .fail then 1 else 0
        tconfcnt := b.tconfcnt +
          if o.logfile && o.fmtPrint && e.verdict = some .conf then 1 else 0 } := by
  intro e
  simp only [e, logChild, childOutcome, Outcome.logLines, Outcome.verdict, Outcome.result]
  cases hl : o.logfile with
  | false => simp
  | true =>
      cases hp : o.fmtPrint with
      | false => simp
      | true =>
          by_cases hconf : (termination statLoc).1 = .exited ∧ childW statLoc slot.stopping = TCONF
          · simp [hconf]
          · by_cases hw : childW statLoc slot.stopping = 0
            · simp [hw, TCONF]
            · simp [hconf, hw]

theorem recordCommand_eq (statLoc : Nat) (a : Answer) :
    let e := childOutcome o slot statLoc a
    b.recordCommand o slot (childW statLoc slot.stopping) =
      { b with
        failCmds := b.failCmds ++ (e.failCmd o).toList
        tconfCmds := b.tconfCmds ++ (e.tconfCmd o).toList } := by
  intro e
  simp only [e, recordCommand, childOutcome, Outcome.failCmd, Outcome.tconfCmd]
  by_cases hw : childW statLoc slot.stopping = 0
  · simp [hw]
  · by_cases ht : o.tconfcmdfile = true ∧ childW statLoc slot.stopping = TCONF
    · simp [ht, TCONF]
    · cases hf : o.failcmdfile <;> simp [hw, ht]

/-- A reaped child has ended its attempt. -/
theorem noteChild_eq (statLoc : Nat) (a : Answer) :
    b.noteChild o slot statLoc a = b.account o (childOutcome o slot statLoc a) := by
  rw [noteChild, logChild_eq, recordCommand_eq]
  rfl

end Books

/-- The ways in which `check_pids` can end for a child in the slot `i`. -/
inductive ChildReaped (o : Options) (statLoc : Nat) (a : Answer) (i : Nat) (slot : Slot)
    (s s' : PanState) : Prop
  | aborted (cause : a.kmsgOk = false ∨ a.zooOk = false ∨ a.zooMarkOk = false)
      (books : s'.toBooks =
          { s.toBooks with numActive := s.numActive - 1 }.noteChild o slot statLoc a ∨
        s'.toBooks = ({ s.toBooks with numActive := s.numActive - 1 }.noteChild o slot statLoc
          a).setSlot i { slot with pgrp := 0 })
      (pc : s'.pc = .aborted)
  | checked
      (books : s'.toBooks = ({ s.toBooks with numActive := s.numActive - 1 }.noteChild o slot
        statLoc a).setSlot i { slot with pgrp := 0 })
      (pc : s'.pc = .checked (childRet statLoc slot.stopping))
      (rts : s'.rtsOut = s.rtsOut ++ childPieces o slot statLoc a)

theorem ChildReaped.pc_ne_finished {statLoc : Nat} {a : Answer} {i : Nat} {slot : Slot}
    {s s' : PanState} (h : ChildReaped o statLoc a i slot s s') : s'.pc ≠ .finished := by
  cases h with
  | aborted cause books pc => simp [pc]
  | checked books pc rts => simp [pc]

namespace PanState

variable {cpid : Pid} {statLoc : Nat} {a : Answer} {s : PanState} {i : Nat}

/-- `check_pids` for a child in a slot, in its three parts. -/
theorem reapChild_eq (hgone : terminated statLoc = true)
    (hi : s.running.findIdx? (fun r => r.pgrp = cpid) = some i) :
    s.reapChild o cpid statLoc a =
      ({ s with
        toBooks := { s.toBooks with numActive := s.numActive - 1 }.noteChild o
          (s.running.getD i {}) statLoc a }.reportChild o (s.running.getD i {})
          (termination statLoc).1 (childW statLoc (s.running.getD i {}).stopping) statLoc
          a).unlessAborted
        (releaseSlot i (s.running.getD i {}) cpid
          (childRet statLoc (s.running.getD i {}).stopping) a) := by
  have hdown : (termination statLoc).1 = .signaled ∨ (termination statLoc).1 = .exited := by
    rcases termination_of_terminated hgone with ⟨h, -⟩ | h
    · exact Or.inl (by rw [h])
    · exact Or.inr (by rw [h])
  unfold reapChild
  simp only [if_pos hdown, hi, decide_eq_true_eq]
  rfl

theorem reapChild_cases (hpc : s.pc ≠ .aborted) (hgone : terminated statLoc = true)
    (hi : s.running.findIdx? (fun r => r.pgrp = cpid) = some i) :
    (s.reapChild o cpid statLoc a).toControl = s.toControl ∧
      ChildReaped o statLoc a i (s.running.getD i {}) s (s.reapChild o cpid statLoc a) := by
  rw [reapChild_eq hgone hi]
  generalize s.running.getD i {} = slot
  generalize hb : { s.toBooks with numActive := s.numActive - 1 }.noteChild o slot statLoc a = b
  have hframe := reportChild_frame o { s with toBooks := b } a slot
    (childW statLoc slot.stopping) statLoc (fun t => (t.toBooks, t.toControl))
    (termination statLoc).1 fun _ _ _ => rfl
  have hcases := reportChild_cases o { s with toBooks := b } a slot statLoc hpc
  generalize { s with toBooks := b }.reportChild o slot (termination statLoc).1
    (childW statLoc slot.stopping) statLoc a = t at hframe hcases ⊢
  obtain ⟨hbooks, hcontrol⟩ := Prod.mk.inj hframe
  obtain ⟨hrb, hrc, hrr, hrp⟩ :=
    releaseSlot_cases i slot cpid (childRet statLoc slot.stopping) a t
  unfold unlessAborted
  rcases hcases with ⟨hp, hkmsg⟩ | ⟨hp, hrts⟩
  · rw [if_pos hp]
    exact ⟨hcontrol, .aborted (Or.inl hkmsg) (Or.inl (hbooks.trans hb.symm)) hp⟩
  · rw [if_neg (by rw [hp]; exact hpc)]
    refine ⟨hrc.trans hcontrol, ?_⟩
    have hbooks' : (t.releaseSlot i slot cpid (childRet statLoc slot.stopping) a).toBooks =
        b.setSlot i { slot with pgrp := 0 } := by rw [hrb, hbooks]
    rcases hrp with hp' | ⟨hp', hzoo⟩
    · exact .checked (hb ▸ hbooks') hp' (hrr.trans hrts)
    · exact .aborted (Or.inr hzoo) (Or.inr (hb ▸ hbooks')) hp'

end PanState

namespace PanState

theorem loopEnd_cases (s : PanState) :
    s.loopEnd.toBooks = s.toBooks ∧ s.loopEnd.rtsOut = s.rtsOut ∧
      s.loopEnd.slotAbort = s.slotAbort ∧ (s.loopEnd.pc = .launch ∨ s.loopEnd.pc = .drain) := by
  unfold loopEnd
  split
  · exact ⟨rfl, rfl, rfl, Or.inr rfl⟩
  · split <;> exact ⟨rfl, rfl, rfl, Or.inl rfl⟩

/-- The end of the main loop's body changes one counter of the books. -/
theorem checked_cases (o : Options) (err : Int) (s : PanState) :
    (s.checked o err).toBooks = { s.toBooks with
        exitStat := if err ≠ 0 ∧ o.trackExitStats then s.exitStat + 1 else s.exitStat } ∧
      (s.checked o err).rtsOut = s.rtsOut ∧ (s.checked o err).slotAbort = s.slotAbort ∧
      ((s.checked o err).pc = .launch ∨ (s.checked o err).pc = .drain) := by
  obtain ⟨hbooks, hrts, habort, hpc⟩ := (s.noteError o err).loopEnd_cases
  unfold checked
  rw [hbooks, hrts, habort]
  refine ⟨?_, ?_, ?_, hpc⟩ <;> unfold noteError <;> split
  · cases o.trackExitStats <;> simp_all
  · simp_all
  · rfl
  · rfl
  · rfl
  · rfl

end PanState

/-- A started child that `num_active` does not count yet. -/
def Pc.pending : Pc → Nat
  | .ranChild (some _) => 1
  | _ => 0

/-- The state in which `run_child` is called for the command index `c`. -/
def PanState.choose (s : PanState) (c : Nat) : PanState :=
  { s with c := c, attempts := s.attempts ++ [c] }

/-- The state in which `check_pids` treats the child `cpid`. -/
def PanState.waited (s : PanState) (emptied : List Pid) (cpid : Pid) : PanState :=
  { s.checkOrphans emptied none with waitHit := false, live := s.live.erase cpid }

/-- All that an event can do. -/
inductive PanMove (o : Options) (coll : List CollEntry) (s : PanState) (e : Event)
    (s' : PanState) : Prop
  /-- nothing but control variables, notices and calls outside the books -/
  | steer (books : s'.toBooks = s.toBooks) (rts : s'.rtsOut = s.rtsOut)
      (abort : s'.slotAbort = s.slotAbort) (pending : s'.pc.pending = s.pc.pending)
      (pc : s'.pc ≠ .finished ∧ s'.pc ≠ .aborted)
  | output (attempt : Nat) (text : Text) (event : e = .output attempt text)
      (direct : o.testOutDir = false) (started : s.hasStarted attempt = true)
      (eq : s' = s.print (.output attempt) text)
  /-- a slot is marked in `propagate_signal` -/
  | mark (i : Nat) (slot : i < o.keepActive) (occupied : (s.running.getD i {}).pgrp ≠ 0)
      (books : s'.toBooks = s.toBooks.setSlot i { s.running.getD i {} with stopping := true })
      (control : s'.toControl = s.toControl) (rts : s'.rtsOut = s.rtsOut)
      (pending : s.pc.pending = 0 ∧ s'.pc.pending = 0)
      (pc : s'.pc ≠ .finished ∧ s'.pc ≠ .aborted)
  /-- no slot is free -/
  | noSlot (room : s.numActive < o.keepActive) (pending : s.pc.pending = 0)
      (slot : s.running.findIdx? (fun r => r.pgrp = 0) = none)
  | run (a : Answer) (i c : Nat) (colle : CollEntry) (event : e = .step a) (pc : s.pc = .launch)
      (slot : s.running.findIdx? (fun r => r.pgrp = 0) = some i) (entry : coll[c]? = some colle)
      (control : s'.toControl = (s.choose c).toControl)
      (run : ChildRun o colle i s.attempts.length a
        ((s.choose c).attemptSlot i a.now colle s.attempts.length) (s.choose c) s')
  | ran (cpid : Option Pid) (pc : s.pc = .ranChild cpid) (eq : s' = s.ranChild o coll.length cpid)
  | reap (a : Answer) (cpid : Pid) (statLoc : Nat) (event : e = .step a) (pc : s.pc = .check)
      (mem : cpid ∈ s.live) (gone : terminated statLoc = true)
      (eq : s' = (s.waited a.emptied cpid).reapChild o cpid statLoc a)
  | checked (err : Int) (pc : s.pc = .checked err)
      (books : s'.toBooks = { s.toBooks with
        exitStat := if err ≠ 0 ∧ o.trackExitStats then s.exitStat + 1 else s.exitStat })
      (rts : s'.rtsOut = s.rtsOut) (abort : s'.slotAbort = s.slotAbort)
      (pc' : s'.pc = .launch ∨ s'.pc = .drain)
  | finish (a : Answer) (event : e = .step a) (pc : s.pc = .drain)
      (eq : s' = s.finish o coll.length a)

section Moves

variable {coll : List CollEntry} {s s' : PanState} {e : Event}

/-- What the launch loop does at its head: it ends, finds no slot or calls `run_child`. -/
inductive LaunchMove (o : Options) (coll : List CollEntry) (s : PanState) (a : Answer)
    (s' : PanState) : Prop
  | idle (full : ¬ (s.numActive < o.keepActive ∧ s.starts ≠ 0) ∨ s.stop ≠ 0 ∨
        s.signals.recSignal ≠ none ∨ s.goIdle ≠ 0)
      (eq : s' = { s with pc := .launched })
  | noSlot (room : s.numActive < o.keepActive)
      (slot : s.running.findIdx? (fun r => r.pgrp = 0) = none)
      (eq : s' = { s with
        c := if o.sequential then s.c else a.rand % coll.length
        signals := waitHandler .int s.signals
        exitStat := s.exitStat + 1
        slotAbort := true
        pc := .launched })
  | run (i c : Nat) (colle : CollEntry) (room : s.numActive < o.keepActive) (starts : s.starts ≠ 0)
      (stop : s.stop = 0) (index : c = if o.sequential then s.c else a.rand % coll.length)
      (slot : s.running.findIdx? (fun r => r.pgrp = 0) = some i) (entry : coll[c]? = some colle)
      (call : (s.choose c).runChild o colle i s.attempts.length a = some s')

variable {a : Answer}

theorem launch_moves (h : s.launch o coll a = some s') : LaunchMove o coll s a s' := by
  unfold PanState.launch at h
  split at h
  next hroom =>
    split at h
    next hstop => exact .idle (Or.inr hstop) (Option.some.inj h).symm
    next hstop =>
      have hstop' : s.stop = 0 := Decidable.not_not.mp (not_or.mp hstop).1
      cases hslot : s.running.findIdx? fun r => r.pgrp = 0 with
      | none =>
          simp only [hslot, Option.some.injEq] at h
          exact .noSlot hroom.1 hslot h.symm
      | some i =>
          simp only [hslot] at h
          cases hentry : coll[if o.sequential then s.c else a.rand % coll.length]? with
          | none => simp [hentry] at h
          | some colle =>
              simp only [hentry] at h
              exact .run i _ colle hroom.1 hroom.2 hstop' rfl hslot hentry h
  next hroom => exact .idle (Or.inl hroom) (Option.some.inj h).symm

/-- The call of `run_child` in the launch loop. -/
theorem call_cases (hpc : s.pc = .launch) {i c attempt : Nat} {colle : CollEntry}
    (h : (s.choose c).runChild o colle i attempt a = some s') :
    s'.toControl = (s.choose c).toControl ∧ ChildRun o colle i attempt a
      ((s.choose c).attemptSlot i a.now colle attempt) (s.choose c) s' := by
  refine PanState.runChild_cases ?_ h
  change s.pc ≠ .aborted
  simp [hpc]

theorem launch_cases (hpc : s.pc = .launch) (h : s.launch o coll a = some s') :
    PanMove o coll s (.step a) s' := by
  cases launch_moves h with
  | idle full eq => exact eq ▸ .steer rfl rfl rfl (by rw [hpc]; rfl) ⟨nofun, nofun⟩
  | noSlot room slot eq => exact .noSlot room (by rw [hpc]; rfl) slot
  | run i c colle room starts stop index slot entry call =>
      obtain ⟨control, run⟩ := call_cases hpc call
      exact .run a i c colle rfl hpc slot entry control run

/-- `check_pids` returns without a child, or treats one. -/
theorem checkPids_moves (h : s.checkPids o a = some s') :
    ((s.waitHit = true ∨ s.live = []) ∧
        s' = { s.checkOrphans a.emptied none with waitHit := false, pc := .checked 0 }) ∨
      ∃ cpid statLoc, cpid ∈ s.live ∧ terminated statLoc = true ∧
        s' = (s.waited a.emptied cpid).reapChild o cpid statLoc a := by
  unfold PanState.checkPids at h
  cases hwait : a.wait with
  | interrupted =>
      simp only [hwait, Option.ite_none_right_eq_some, Option.some.injEq] at h
      exact Or.inl ⟨Or.inl h.1, h.2.symm⟩
  | noChild =>
      simp only [hwait, Option.ite_none_right_eq_some, Option.some.injEq] at h
      exact Or.inl ⟨Or.inr h.1, h.2.symm⟩
  | child cpid statLoc =>
      simp only [hwait, Option.ite_none_right_eq_some, Option.some.injEq] at h
      exact Or.inr ⟨cpid, statLoc, h.1.1, h.1.2, h.2.symm⟩

theorem checkPids_cases (hpc : s.pc = .check) (h : s.checkPids o a = some s') :
    PanMove o coll s (.step a) s' := by
  rcases checkPids_moves h with ⟨-, rfl⟩ | ⟨cpid, statLoc, hmem, hgone, rfl⟩
  · exact .steer rfl rfl rfl (by rw [hpc]; rfl) ⟨nofun, nofun⟩
  · exact .reap a cpid statLoc rfl hpc hmem hgone rfl

theorem idleOrStop_books (s : PanState) :
    s.idleOrStop.toBooks = s.toBooks ∧ s.idleOrStop.rtsOut = s.rtsOut ∧
      s.idleOrStop.slotAbort = s.slotAbort := by
  unfold PanState.idleOrStop
  split <;> exact ⟨rfl, rfl, rfl⟩

theorem launched_cases (hpc : s.pc = .launched) : PanMove o coll s (.step a) (s.launched o a) := by
  unfold PanState.launched
  split <;> split <;> refine .steer rfl ?_ rfl (by rw [hpc]; rfl) ⟨nofun, nofun⟩
  all_goals first | rfl | exact s.rtsOut_notice _

theorem propagate_cases {draining : Bool} (hpc : s.pc = .propagate draining) :
    PanMove o coll s (.step a) (s.propagate draining) := by
  unfold PanState.propagate
  split
  · exact .steer rfl (s.rtsOut_notice _) rfl (by rw [hpc]; rfl) ⟨nofun, nofun⟩
  · exact .steer rfl rfl rfl (by rw [hpc]; rfl) ⟨nofun, nofun⟩

theorem propagateTo_cases {draining : Bool} {i : Nat} (hpc : s.pc = .propagateTo draining i) :
    PanMove o coll s (.step a) (s.propagateTo o draining i a) := by
  have hpending : s.pc.pending = 0 := by rw [hpc]; rfl
  unfold PanState.propagateTo
  split
  next hi =>
    by_cases hfree : (s.running.getD i {}).pgrp = 0
    · simp only [if_pos hfree]
      exact .steer rfl rfl rfl (by rw [hpending]; rfl) ⟨nofun, nofun⟩
    · simp only [if_neg hfree]
      exact .mark i hi hfree rfl rfl rfl ⟨hpending, rfl⟩ ⟨nofun, nofun⟩
  next =>
    refine .steer rfl rfl rfl ?_ ?_
    · rw [hpending]
      cases draining <;> rfl
    · cases draining <;> exact ⟨nofun, nofun⟩

theorem exited_iff (pc : Pc) : pc.exited = true ↔ pc = .finished ∨ pc = .aborted := by
  simp [Pc.exited]

theorem step_cases (h : panNext o coll s (.step a) = some s') : PanMove o coll s (.step a) s' := by
  simp only [panNext] at h
  cases hpc : s.pc with
  | launch => exact launch_cases hpc (by simpa only [hpc] using h)
  | ranChild cpid => exact .ran cpid hpc (by simpa [hpc] using h.symm)
  | launched =>
      simp only [hpc, Option.some.injEq] at h
      exact h ▸ launched_cases hpc
  | testSignal =>
      simp only [hpc, Option.some.injEq] at h
      subst h
      refine .steer rfl rfl rfl ?_ ?_ <;> unfold PanState.testSignal <;> split <;>
        simp [hpc, Pc.pending]
  | testUsr2 =>
      simp only [hpc, Option.some.injEq] at h
      subst h
      obtain ⟨hbooks, hrts, habort⟩ := idleOrStop_books s
      unfold PanState.testUsr2
      split
      · exact .steer hbooks hrts habort (by rw [hpc]; rfl) ⟨nofun, nofun⟩
      · exact .steer rfl rfl rfl (by rw [hpc]; rfl) ⟨nofun, nofun⟩
  | testUsr1 =>
      simp only [hpc, Option.some.injEq] at h
      subst h
      exact .steer rfl rfl rfl (by rw [hpc]; rfl) ⟨nofun, nofun⟩
  | propagate draining =>
      simp only [hpc, Option.some.injEq] at h
      exact h ▸ propagate_cases hpc
  | propagateTo draining i =>
      simp only [hpc, Option.some.injEq] at h
      exact h ▸ propagateTo_cases hpc
  | propagated =>
      simp only [hpc, Option.some.injEq] at h
      subst h
      obtain ⟨hbooks, hrts, habort⟩ := idleOrStop_books s
      exact .steer hbooks hrts habort (by rw [hpc]; rfl) ⟨nofun, nofun⟩
  | check => exact checkPids_cases hpc (by simpa only [hpc] using h)
  | checked err =>
      simp only [hpc, Option.some.injEq] at h
      subst h
      obtain ⟨hbooks, hrts, habort, hpc'⟩ := s.checked_cases o err
      exact .checked err hpc hbooks hrts habort hpc'
  | drain =>
      simp only [hpc, Option.some.injEq] at h
      subst h
      unfold PanState.drain
      split
      · exact .finish a rfl hpc rfl
      · exact .steer rfl rfl rfl (by rw [hpc]; rfl) ⟨nofun, nofun⟩
  | finished | aborted => simp [hpc] at h

/-- Every event that can happen is one of the moves, and happens before the exit. -/
theorem panNext_cases (h : panNext o coll s e = some s') :
    (s.pc ≠ .finished ∧ s.pc ≠ .aborted) ∧ PanMove o coll s e s' := by
  have hexit : s.pc.exited = false → s.pc ≠ .finished ∧ s.pc ≠ .aborted := fun hx =>
    not_or.mp fun hor => by simp [(exited_iff s.pc).mpr hor] at hx
  cases e with
  | signal sig =>
      simp only [panNext, Option.ite_none_right_eq_some, Option.some.injEq] at h
      obtain ⟨⟨-, hx⟩, rfl⟩ := h
      have hpc := hexit (by simpa using hx)
      exact ⟨hpc, .steer rfl rfl rfl rfl hpc⟩
  | output attempt text =>
      simp only [panNext, Option.ite_none_right_eq_some, Option.some.injEq] at h
      obtain ⟨⟨hdir, hstarted, hx⟩, rfl⟩ := h
      exact ⟨hexit (by simpa using hx), .output attempt text rfl (by simpa using hdir) hstarted rfl⟩
  | step a =>
      refine ⟨?_, step_cases h⟩
      constructor <;> intro hpc <;> simp [panNext, hpc] at h

/-- After an exit with an error, or an overrun, nothing happens. -/
theorem exec_aborted (hpc : s.pc = .aborted) (evs : List Event) :
    exec (panStep o coll) s evs = s := by
  induction evs with
  | nil => rfl
  | cons e evs ih =>
      have hnone : panNext o coll s e = none :=
        Option.eq_none_iff_forall_ne_some.mpr fun s' hs' => (panNext_cases hs').1.2 hpc
      rw [exec_cons, panStep, hnone]
      exact ih

end Moves

/-- A property that the events of a run preserve wherever they can happen holds
in the state that the run reaches. -/
theorem panRun_induction {coll : List CollEntry} (Inv : PanState → Prop) {P : Event → Prop}
    {evs : List Event} (hevs : ∀ e ∈ evs, P e) (hinit : Inv (PanState.init o coll))
    (hstep : ∀ s e s', P e → Inv s → panNext o coll s e = some s' → Inv s') :
    Inv (panRun o coll evs) := by
  refine exec_invariant hevs hinit fun s e he hs => ?_
  unfold panStep
  cases hnext : panNext o coll s e with
  | none => exact hs
  | some s' => exact hstep s e s' he hs hnext

end EDDTs.Pan
