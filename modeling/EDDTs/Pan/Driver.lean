import EDDTs.Pan.DriverState
import EDDTs.Library.Interleaving

/-!
# The main loop of ltp-pan

`run_child`, `check_pids`, `propagate_signal` and the loop of `main` as steps.
A step takes the answers of the operating system to the calls that it makes;
answers that the system does not give (a pid that is taken, a child that is not
there) are refused. Signals arrive between steps, and tests that are not
buffered write to the standard output between steps.

## Implementation notes

The child between `fork` and `exec` belongs to the environment: the parent sees
the report it reads from the pipe, or that there is none. Blocking calls other
than `wait` are not interrupted. A notice stands in the output where it is
printed, not where the buffer of `stdout` is flushed.
-/

namespace EDDTs.Pan

open Library Library.Interleaving

/-- How the calls of `run_child` go. -/
inductive Start
  | openFails
  | pipeFails
  | forkFails
  /-- the child reports that it could not go through with the exec -/
  | reported (errbuf : Text) (status : Nat) (endTime : Int)
  | started (pid : Pid)
  deriving DecidableEq, Repr

/-- How `wait` returns. -/
inductive Wait
  /-- `EINTR` -/
  | interrupted
  /-- `ECHILD` -/
  | noChild
  | child (cpid : Pid) (statLoc : Nat)
  deriving DecidableEq, Repr

/-- The answers to the calls of one step. -/
structure Answer where
  /-- `lrand48()` -/
  rand : Nat := 0
  start : Start := .pipeFails
  /-- the value of `cmdno` in the name of the buffer file -/
  cmdno : Nat := 0
  wait : Wait := .noChild
  /-- `time()` -/
  now : Int := 0
  /-- `PAN_STOP_FILE` can be opened -/
  stopFile : Bool := false
  /-- the orphaned process groups for which `kill` fails with `ESRCH` -/
  emptied : List Pid := []
  /-- the differences of the two `times()` around `wait` -/
  cutime : Int := 0
  cstime : Int := 0
  /-- the buffer file and the byte in memory before it, for `copy_buffered_output` -/
  bufferFile : Option Text := some []
  byteBefore : Char := '\n'
  /-- `kill(-cpid, 0)` finds the process group of a reaped child alive -/
  groupAlive : Bool := false
  /-- the first call of the step on the active file succeeds -/
  zooOk : Bool := true
  /-- `zoo_mark_cmdline` for an orphaned process group succeeds -/
  zooMarkOk : Bool := true
  /-- `/dev/kmsg` can be opened -/
  kmsgOk : Bool := true
  deriving DecidableEq, Repr

/-- The sizes of `output` in `struct tag_pgrp` and of `errbuf` in `run_child`. -/
def pathMax : Nat := 4096
def errbufSize : Nat := 1024

/-- The name of a buffer file. -/
def Options.bufferName (o : Options) (colle : CollEntry) (cmdno : Nat) : Text :=
  o.outputDirectory.getD [] ++ txt "/" ++ colle.name ++ txt "." ++ natText cmdno

namespace Answer

/-- `sprintf(active->output, ...)` writes beyond the end of `output`. -/
def nameOverruns (o : Options) (colle : CollEntry) (a : Answer) : Bool :=
  o.testOutDir && pathMax ≤ (o.bufferName colle a.cmdno).length

/-- `errbuf[errlen] = '\0'` or the `read` before it writes beyond the end of `errbuf`. -/
def reportOverruns (a : Answer) : Bool :=
  match a.start with
  | .reported errbuf _ _ => errbufSize ≤ errbuf.length
  | _ => false

/-- Whatever command it is asked for, the step overruns no buffer. -/
def fits (o : Options) (coll : List CollEntry) (a : Answer) : Bool :=
  !a.reportOverruns && coll.all fun colle => !a.nameOverruns o colle

theorem fits_spec {o : Options} {coll : List CollEntry} {colle : CollEntry} {a : Answer}
    (h : a.fits o coll = true) (hmem : colle ∈ coll) :
    a.nameOverruns o colle = false ∧ a.reportOverruns = false := by
  simp only [fits, Bool.and_eq_true, Bool.not_eq_true', List.all_eq_true] at h
  exact ⟨h.2 colle hmem, h.1⟩

end Answer

namespace Books

/-- `run_child`: the log line of a child that was not executed. -/
def logFailedStart (o : Options) (slot : Slot) (status : Nat) (endTime : Int) (b : Books) : Books :=
  let termid := (termination status).2
  if o.logfile then
    if o.fmtPrint then
      { b with
        failcnt := if termid ≠ 0 then b.failcnt + 1 else b.failcnt
        log := b.log ++
          [.result slot.attempt slot.cmd (if termid ≠ 0 then .fail else .pass) termid] }
    else
      { b with
        log := b.log ++ [.plain slot.attempt slot.cmd slot.mystime (endTime - slot.mystime)
          (termination status).1 termid status 0 0] }
  else b

/-- `check_pids`: the log line of a child. -/
def logChild (o : Options) (slot : Slot) (t : Int) (status : TermType) (w statLoc : Nat)
    (cutime cstime : Int) (b : Books) : Books :=
  if o.logfile then
    if o.fmtPrint then
      if status = .exited ∧ w = TCONF then
        { b with
          tconfcnt := b.tconfcnt + 1
          log := b.log ++ [.result slot.attempt slot.cmd .conf w] }
      else if w ≠ 0 then
        { b with
          failcnt := b.failcnt + 1
          log := b.log ++ [.result slot.attempt slot.cmd .fail w] }
      else { b with log := b.log ++ [.result slot.attempt slot.cmd .pass w] }
    else
      { b with
        log := b.log ++ [.plain slot.attempt slot.cmd slot.mystime (t - slot.mystime) status w
          statLoc cutime cstime] }
  else b

/-- `check_pids`: the command of a child in one of the command files. -/
def recordCommand (o : Options) (slot : Slot) (w : Nat) (b : Books) : Books :=
  if w ≠ 0 then
    if o.tconfcmdfile ∧ w = TCONF then { b with tconfCmds := b.tconfCmds ++ [slot.cmd] }
    else if o.failcmdfile then { b with failCmds := b.failCmds ++ [slot.cmd] }
    else b
  else b

/-- Record the end of an attempt. -/
def close (e : Outcome) (b : Books) : Books := { b with ledger := b.ledger ++ [e] }

/-- Write to a slot of `running`. -/
def setSlot (i : Nat) (slot : Slot) (b : Books) : Books :=
  { b with running := b.running.set i slot }

end Books

namespace PanState

def print (s : PanState) (origin : Origin) (text : Text) : PanState :=
  { s with out := s.out ++ [⟨origin, text⟩] }

/-- `write_test_start`; it exits when the kernel log cannot be opened. -/
def writeTestStart (o : Options) (slot : Slot) (kmsgOk : Bool) (s : PanState) : PanState :=
  let s :=
    if o.rts then s.print (.start slot.attempt) (testStartText slot.cmd slot.mystime) else s
  if o.noKmsg || kmsgOk then s else { s with pc := .aborted }

/-- `write_test_end`. -/
def writeTestEnd (o : Options) (slot : Slot) (initStatus : Text) (exitTime : Int)
    (termType : TermType) (statLoc termId : Nat) (cutime cstime : Int) (s : PanState) : PanState :=
  if o.rts then
    s.print (.finish slot.attempt) (testEndText initStatus (exitTime - slot.mystime) termType.text
      termId statLoc cutime cstime)
  else s

/-- Go on unless the program has exited. -/
def unlessAborted (s : PanState) (f : PanState → PanState) : PanState :=
  if s.pc = .aborted then s else f s

/-- `run_child` returns `-1` without a child. -/
def refuse (attempt : Nat) (colle : CollEntry) (now : Int) (why : Refusal) (s : PanState) :
    PanState :=
  { s with
    toBooks := s.toBooks.close ⟨attempt, colle, now, now, .refused why⟩
    pc := .ranChild none }

/-- `run_child` after the child has reported that it was not executed. -/
def noteFailedStart (o : Options) (slot : Slot) (errbuf : Text) (status : Nat) (endTime : Int)
    (s : PanState) : PanState :=
  let s := { s with
    toBooks := (s.toBooks.logFailedStart o slot status endTime).close
      ⟨slot.attempt, slot.cmd, slot.mystime, endTime, .execFailed errbuf status⟩
    pc := .ranChild none }
  if o.quietMode then s
  else
    s.writeTestEnd o slot errbuf endTime (termination status).1 status (termination status).2 0 0

/-- `run_child` after the child has been executed. -/
def noteStarted (i : Nat) (slot : Slot) (pid : Pid) (zooOk : Bool) (s : PanState) : PanState :=
  let b := s.toBooks.setSlot i { slot with pgrp := pid, stopping := false }
  let s := { s with toBooks := { b with live := b.live ++ [pid] } }
  if zooOk then
    { s with zoo := s.zoo ++ [.mark pid slot.cmd.name slot.cmd.cmdline], pc := .ranChild (some pid) }
  else { s with pc := .aborted }

/-- `run_child` between `pipe` and `fork`. -/
def enterFork (o : Options) (i : Nat) (slot : Slot) (kmsgOk : Bool) (s : PanState) : PanState :=
  let s := { s with toBooks := s.toBooks.setSlot i slot }
  if !o.testOutDir && !o.quietMode then s.writeTestStart o slot kmsgOk else s

/-- `running[i]` with the time and the command of an attempt. -/
def attemptSlot (s : PanState) (i : Nat) (now : Int) (colle : CollEntry) (attempt : Nat) : Slot :=
  { s.running.getD i {} with mystime := now, cmd := colle, attempt := attempt }

/-- The memory behind a buffer has been written. -/
def overrun (s : PanState) : PanState := { s with pc := .aborted, overran := true }

/-- `run_child(colle, running + i, ...)`. -/
def runChild (o : Options) (colle : CollEntry) (i attempt : Nat) (a : Answer) (s : PanState) :
    Option PanState :=
  let slot := s.attemptSlot i a.now colle attempt
  let forking := s.enterFork o i slot a.kmsgOk
  if a.nameOverruns o colle || a.reportOverruns then some (forking.unlessAborted overrun)
  else match a.start with
  | .openFails => if o.testOutDir then some (s.refuse attempt colle a.now .openFails) else none
  | .pipeFails => some (s.refuse attempt colle a.now .pipeFails)
  | .forkFails => some (forking.unlessAborted (refuse attempt colle a.now .forkFails))
  | .reported errbuf status endTime =>
      if terminated status then
        some (forking.unlessAborted (noteFailedStart o slot errbuf status endTime))
      else none
  | .started pid =>
      if pid ≠ 0 ∧ pid ∉ s.live then
        some (forking.unlessAborted (noteStarted i slot pid a.zooOk))
      else none

/-- The head and the first half of the body of the launch loop. -/
def launch (o : Options) (coll : List CollEntry) (a : Answer) (s : PanState) : Option PanState :=
  if s.numActive < o.keepActive ∧ s.starts ≠ 0 then
    if s.stop ≠ 0 ∨ s.signals.recSignal ≠ none ∨ s.goIdle ≠ 0 then
      some { s with pc := .launched }
    else
      let c := if o.sequential then s.c else a.rand % coll.length
      -- find a slot for the child
      match s.running.findIdx? fun r => r.pgrp = 0 with
      | none => some { s with
          c := c
          signals := waitHandler .int s.signals
          exitStat := s.exitStat + 1
          slotAbort := true
          pc := .launched }
      | some i =>
          match coll[c]? with
          | none => none
          | some colle =>
              runChild o colle i s.attempts.length a
                { s with c := c, attempts := s.attempts ++ [c] }
  else some { s with pc := .launched }

/-- The second half of the body of the launch loop. -/
def ranChild (o : Options) (cnt : Nat) (cpid : Option Pid) (s : PanState) : PanState :=
  { s with
    numActive := if cpid.isSome then s.numActive + 1 else s.numActive
    starts := if (cpid.isSome ∨ o.sequential) ∧ 0 < s.starts then s.starts - 1 else s.starts
    c := if o.sequential then if cnt ≤ s.c + 1 then 0 else s.c + 1 else s.c
    pc := .launch }

/-- Between the launch loop and the test of `rec_signal`. -/
def launched (o : Options) (a : Answer) (s : PanState) : PanState :=
  if s.starts = 0 then
    let s := if o.quietMode then s else s.print .pan (txt "incrementing stop\n")
    { s with stop := s.stop + 1, pc := .testSignal }
  else if s.starts = -1 ∧ a.stopFile then
    let s := s.print .pan (txt "Got PAN_STOP_FILE Stopping!\n")
    { s with stop := s.stop + 1, pc := .testSignal }
  else { s with pc := .testSignal }

def testSignal (s : PanState) : PanState :=
  { s with pc := if s.signals.recSignal ≠ none then .testUsr2 else .check }

/-- `if (fork_in_road) ++go_idle; else ++stop;` -/
def idleOrStop (s : PanState) : PanState :=
  if s.forkInRoad then { s with goIdle := s.goIdle + 1 } else { s with stop := s.stop + 1 }

/-- `rec_signal = send_signal = 0`. -/
def clearSignals (s : PanState) : PanState :=
  { s with signals := { s.signals with recSignal := none, sendSignal := none } }

def testUsr2 (s : PanState) : PanState :=
  if s.signals.recSignal = some .usr2 then { s.idleOrStop.clearSignals with pc := .check }
  else { s with pc := .testUsr1 }

def testUsr1 (s : PanState) : PanState :=
  { s with
    forkInRoad := if s.signals.recSignal = some .usr1 then false else s.forkInRoad
    pc := .propagate false }

/-- `propagate_signal` up to its loop. -/
def propagate (draining : Bool) (s : PanState) : PanState :=
  let s : PanState :=
    if s.signals.recSignal = some .alrm then
      let s := s.print .pan (txt "PAN stop Alarm was received\n")
      { s with signals := { s.signals with recSignal := some .term } }
    else s
  { s with pc := .propagateTo draining 0 }

/-- `check_orphans(orphans, sig)`. -/
def checkOrphans (emptied : List Pid) (sig : Option Signal) (s : PanState) : PanState :=
  { s with
    kills := s.kills ++ (s.orphans.filter (· ≠ 0)).map fun p => (p, sig)
    zoo := s.zoo ++ (s.orphans.filter fun p => p ≠ 0 ∧ p ∈ emptied).map .clear
    orphans := s.orphans.map fun p => if p ∈ emptied then 0 else p }

/-- The loop of `propagate_signal` at `i`, and what follows the loop. -/
def propagateTo (o : Options) (draining : Bool) (i : Nat) (a : Answer) (s : PanState) : PanState :=
  if i < o.keepActive then
    let slot := s.running.getD i {}
    let s : PanState :=
      if slot.pgrp = 0 then s
      else { s with
        toBooks := s.toBooks.setSlot i { slot with stopping := true }
        kills := s.kills ++ [(slot.pgrp, s.signals.sendSignal)] }
    { s with pc := .propagateTo draining (i + 1) }
  else
    { (s.checkOrphans a.emptied s.signals.sendSignal).clearSignals with
      pc := if draining then .drain else .propagated }

def propagated (s : PanState) : PanState := { s.idleOrStop with pc := .check }

/-- `mark_orphan`. -/
def markOrphan (orphans : List Pid) (cpid : Pid) : List Pid :=
  match orphans.findIdx? (· = 0) with
  | some i => orphans.set i cpid
  | none =>
      match orphans with
      | [] => [cpid]
      | head :: rest => head :: cpid :: rest

/-- `check_pids`: the block of a child. -/
def reportChild (o : Options) (slot : Slot) (status : TermType) (w statLoc : Nat) (a : Answer)
    (s : PanState) : PanState :=
  let s : PanState :=
    if o.testOutDir then
      let s := if o.quietMode then s else s.writeTestStart o slot a.kmsgOk
      s.unlessAborted fun s =>
        s.print (.output slot.attempt) (copyBufferedOutput a.bufferFile a.byteBefore)
    else s
  if o.quietMode then s
  else
    s.unlessAborted
      (writeTestEnd o slot (txt "ok") a.now (if slot.stopping then .driverInterrupt else status)
        statLoc w a.cutime a.cstime)

/-- `check_pids`: the slot of a child is freed and its process group looked for. -/
def releaseSlot (i : Nat) (slot : Slot) (cpid : Pid) (ret : Int) (a : Answer) (s : PanState) :
    PanState :=
  let s := { s with toBooks := s.toBooks.setSlot i { slot with pgrp := 0 } }
  if !a.zooOk then { s with pc := .aborted }
  else
    let s : PanState := { s with zoo := s.zoo ++ [.clear cpid], kills := s.kills ++ [(cpid, none)] }
    if a.groupAlive then
      if !a.zooMarkOk then { s with pc := .aborted }
      else { s with
        zoo := s.zoo ++ [.mark cpid (txt "panorphan") slot.cmd.cmdline]
        orphans := markOrphan s.orphans cpid
        kills := s.kills ++ [(cpid, some .term)]
        pc := .checked ret }
    else { s with pc := .checked ret }

/-- `check_pids` after `wait` has returned a child. -/
def reapChild (o : Options) (cpid : Pid) (statLoc : Nat) (a : Answer) (s : PanState) : PanState :=
  let status := (termination statLoc).1
  let w := (termination statLoc).2
  let ret : Int :=
    match status with
    | .signaled => 0
    | .exited => if w ≠ 0 ∧ w ≠ TCONF then 1 else 0
    | _ => 1
  let s : PanState :=
    if status = .signaled ∨ status = .exited then { s with numActive := s.numActive - 1 } else s
  match s.running.findIdx? fun r => r.pgrp = cpid with
  | none => { s with pc := .checked ret }
  | some i =>
      let slot := s.running.getD i {}
      -- a child that did not trap the signal sent to it is given an exit 0
      let undo : Bool := w = 130 ∧ slot.stopping ∧ status = .exited
      let w := if undo then 0 else w
      let ret := if undo then ret - 1 else ret
      let captured :=
        if o.testOutDir then copyBufferedOutput a.bufferFile a.byteBefore else []
      let b := s.toBooks.logChild o slot a.now status w statLoc a.cutime a.cstime
      let b := b.recordCommand o slot w
      let b := b.close ⟨slot.attempt, slot.cmd, slot.mystime, a.now,
        .reaped statLoc slot.stopping a.cutime a.cstime captured⟩
      let s := { s with toBooks := b }
      let s := s.reportChild o slot status w statLoc a
      let ret := if status = .signaled ∧ !slot.stopping then ret + 1 else ret
      s.unlessAborted (releaseSlot i slot cpid ret a)

/-- `check_pids`. -/
def checkPids (o : Options) (a : Answer) (s : PanState) : Option PanState :=
  let s' := { s.checkOrphans a.emptied none with waitHit := false }
  match a.wait with
  | .interrupted => if s.waitHit then some { s' with pc := .checked 0 } else none
  | .noChild => if s.live = [] then some { s' with pc := .checked 0 } else none
  | .child cpid statLoc =>
      if cpid ∈ s.live ∧ terminated statLoc then
        some ({ s' with live := s.live.erase cpid }.reapChild o cpid statLoc a)
      else none

/-- The body of `if (err)`. -/
def noteError (o : Options) (err : Int) (s : PanState) : PanState :=
  if err ≠ 0 then
    { s with
      goIdle := if s.forkInRoad then s.goIdle + 1 else s.goIdle
      exitStat := if o.trackExitStats then s.exitStat + 1 else s.exitStat
      signals := if o.hasBrakes then waitHandler .int s.signals else s.signals }
  else s

/-- The tests at the end of the main loop's body. -/
def loopEnd (s : PanState) : PanState :=
  if s.stop ≠ 0 ∧ s.numActive = 0 then { s with pc := .drain }
  else if s.goIdle ≠ 0 ∧ s.numActive = 0 then
    -- it is idle, now resume scheduling
    { s with goIdle := 0, signals := resetRatchet s.signals, pc := .launch }
  else { s with pc := .launch }

/-- From the return of `check_pids` to the end of the main loop's body. -/
def checked (o : Options) (err : Int) (s : PanState) : PanState := (s.noteError o err).loopEnd

/-- The end of `main`. -/
def finish (o : Options) (cnt : Nat) (a : Answer) (s : PanState) : PanState :=
  { s with
    exitStat := if a.zooOk then s.exitStat else s.exitStat + 1
    selfCleared := a.zooOk
    zoo := if a.zooOk then s.zoo ++ [.clearSelf] else s.zoo
    log := if o.logfile ∧ o.fmtPrint then s.log ++ [.totals cnt s.tconfcnt s.failcnt] else s.log
    pc := .finished }

/-- The loop that waits for orphaned process groups. -/
def drain (o : Options) (cnt : Nat) (a : Answer) (s : PanState) : PanState :=
  if s.orphans.all (· = 0) then s.finish o cnt a
  else
    { s with
      signals := if s.signals.recSignal = none then waitHandler .int s.signals else s.signals
      pc := .propagate true }

/-- A child of the attempt has been executed. -/
def hasStarted (s : PanState) (attempt : Nat) : Bool :=
  (s.running.any fun r => r.pgrp ≠ 0 ∧ r.attempt = attempt) ||
    s.ledger.any fun e =>
      match e.ending with
      | .reaped .. => e.attempt = attempt
      | _ => false

end PanState

/-- What happens next: a signal arrives, a test that is not buffered writes to
the standard output, or ltp-pan makes a step. -/
inductive Event
  | signal (sig : Signal)
  | output (attempt : Nat) (text : Text)
  | step (a : Answer)
  deriving DecidableEq, Repr

/-- The event overruns no buffer. -/
def Event.fits (o : Options) (coll : List CollEntry) : Event → Bool
  | .step a => a.fits o coll
  | _ => true

def Pc.exited (pc : Pc) : Bool := pc = .finished || pc = .aborted

/-- The state after an event that can happen. -/
def panNext (o : Options) (coll : List CollEntry) (s : PanState) : Event → Option PanState
  | .signal sig =>
      if sig.handled ∧ !s.pc.exited then
        some { s with
          signals := waitHandler sig s.signals
          waitHit := s.waitHit || s.pc = .check }
      else none
  | .output attempt text =>
      if !o.testOutDir ∧ s.hasStarted attempt ∧ !s.pc.exited then
        some (s.print (.output attempt) text)
      else none
  | .step a =>
      match s.pc with
      | .launch => s.launch o coll a
      | .ranChild cpid => some (s.ranChild o coll.length cpid)
      | .launched => some (s.launched o a)
      | .testSignal => some s.testSignal
      | .testUsr2 => some s.testUsr2
      | .testUsr1 => some s.testUsr1
      | .propagate draining => some (s.propagate draining)
      | .propagateTo draining i => some (s.propagateTo o draining i a)
      | .propagated => some s.propagated
      | .check => s.checkPids o a
      | .checked err => some (s.checked o err)
      | .drain => some (s.drain o coll.length a)
      | .finished => none
      | .aborted => none

/-- The step of a run; an event that cannot happen changes nothing. -/
def panStep (o : Options) (coll : List CollEntry) (e : Event) (s : PanState) : PanState :=
  (panNext o coll s e).getD s

/-- The state after the events of a run of ltp-pan. -/
def panRun (o : Options) (coll : List CollEntry) (evs : List Event) : PanState :=
  exec (panStep o coll) (PanState.init o coll) evs

end EDDTs.Pan
