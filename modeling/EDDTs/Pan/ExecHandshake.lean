import Mathlib.Data.List.Nodup
import Mathlib.Data.List.TakeWhile
import EDDTs.Pan.DriverEnds

/-!
# The handshake of `run_child` with its child

After `fork` the parent reads from a pipe that the exec closes, and into which a child
that could not go through with the exec writes a report. The signal handlers are
installed without `SA_RESTART`, so that each of the calls that block can return `-1`
with `EINTR`: the two calls of `read`, `waitpid`, and the `fcntl` in `zoo_lock`.

## Implementation notes

The driver's own model takes the handshake as one answer, `Start.started` or
`Start.reported`. Here its calls are answered one by one. A variable that is read before
it was assigned holds what was on the stack, which is part of the answer.
-/

namespace EDDTs.Pan

open Library Library.Interleaving

open scoped List

/-- What the child does, and the answers to the calls of the parent. -/
structure Handshake where
  pid : Pid
  /-- the report of a child that could not go through with the exec -/
  report : Option Text := none
  /-- the signals that interrupt the first `read`, the second, and `waitpid` -/
  readHit : Option Signal := none
  bufHit : Option Signal := none
  waitHit : Option Signal := none
  /-- the signals that interrupt `fcntl`, which is called again -/
  lockHits : List Signal := []
  /-- the values of `errlen`, `errbuf` and `status` that were not assigned -/
  errlen : Int := 0
  errbuf : Text := []
  status : Nat := 0
  /-- the status with which the child ends, and `time()` after that -/
  ended : Nat := 0
  endTime : Int := 0
  deriving DecidableEq, Repr

namespace Handshake

/-- The bytes of an `ssize_t` in the pipe. -/
def sizeBytes (n : Nat) : Text := (List.range 8).map fun k => Char.ofNat (n / 256 ^ k % 256)

/-- `read(errpipe[0], &errlen, sizeof(errlen))`. -/
def readLength (h : Handshake) : Int :=
  match h.readHit, h.report with
  | some _, _ => -1
  | none, none => 0
  | none, some _ => 8

/-- `errlen` after the first `read`. -/
def lengthRead (h : Handshake) : Int :=
  match h.readHit, h.report with
  | none, some report => report.length
  | _, _ => h.errlen

/-- What the pipe holds after the first `read`. -/
def pipe (h : Handshake) : Text :=
  match h.readHit, h.report with
  | _, none => []
  | none, some report => report
  | some _, some report => sizeBytes report.length ++ report

/-- `errbuf` after the second `read`, up to the byte that is set to zero. -/
def message (h : Handshake) : Text :=
  let got := if h.bufHit.isSome then [] else h.pipe.take h.lengthRead.toNat
  ((got ++ h.errbuf.drop got.length).take h.lengthRead.toNat).takeWhile (· ≠ '\x00')

end Handshake

namespace PanState

/-- The handler runs in a call that a signal interrupts. -/
def interrupt (hit : Option Signal) (s : PanState) : PanState :=
  match hit with
  | none => s
  | some sig => { s with signals := waitHandler sig s.signals }

/-- `do ret = fcntl(...); while (ret == -1 && errno == EINTR);` in `zoo_lock`. -/
def zooLock : List Signal → PanState → PanState
  | [], s => s
  | sig :: hits, s => zooLock hits (s.interrupt (some sig))

/-- `run_child` in the parent, after `fork`. There is no state after a write to
`errbuf[errlen]` outside of the buffer. -/
def parent (o : Options) (i : Nat) (slot : Slot) (zooOk : Bool) (h : Handshake) (s : PanState) :
    Option PanState :=
  let s := s.interrupt h.readHit
  if h.readLength ≠ 0 then
    let s := s.interrupt h.bufHit
    if 0 ≤ h.lengthRead ∧ h.lengthRead < 1024 then
      let s := s.interrupt h.waitHit
      -- without `waitpid` the child is still there, and `status` is not assigned
      let s := if h.waitHit.isSome then { s with live := s.live ++ [h.pid] } else s
      let status := if h.waitHit.isSome then h.status else h.ended
      some (s.noteFailedStart o slot h.message status h.endTime)
    else none
  else some ((s.zooLock h.lockHits).noteStarted i slot h.pid zooOk)

/-- `run_child(colle, running + i, ...)` when `open`, `pipe` and `fork` succeed, unless the name of
the buffer file is too long. -/
def runChildHit (o : Options) (colle : CollEntry) (i attempt : Nat) (a : Answer) (h : Handshake)
    (s : PanState) : Option PanState :=
  let slot := s.attemptSlot i a.now colle attempt
  let forking := s.enterFork o i slot a.kmsgOk
  if forking.pc = .aborted then some forking
  else if a.nameOverruns o colle then some forking.overrun
  else forking.parent o i slot a.zooOk h

end PanState

/-- The launch loop of `main` is about to call `run_child` for the command `c`. -/
structure CallsRunChild (o : Options) (coll : List CollEntry) (s : PanState) (a : Answer)
    (i c : Nat) (colle : CollEntry) : Prop where
  pc : s.pc = .launch
  room : s.numActive < o.keepActive
  starts : s.starts ≠ 0
  stop : s.stop = 0
  recSignal : s.signals.recSignal = none
  goIdle : s.goIdle = 0
  index : c = if o.sequential then s.c else a.rand % coll.length
  slot : s.running.findIdx? (fun r => r.pgrp = 0) = some i
  entry : coll[c]? = some colle

section Refines

variable {o : Options} {coll : List CollEntry} {s t : PanState} {a : Answer} {i c : Nat}
  {colle : CollEntry} {h : Handshake}

theorem CallsRunChild.launch (hcall : CallsRunChild o coll s a i c colle) :
    s.launch o coll a = (s.choose c).runChild o colle i s.attempts.length a := by
  have hgo : ¬ (s.stop ≠ 0 ∨ s.signals.recSignal ≠ none ∨ s.goIdle ≠ 0) := by
    simp [hcall.stop, hcall.recSignal, hcall.goIdle]
  have hentry := hcall.entry
  rw [PanState.launch, if_pos ⟨hcall.room, hcall.starts⟩, if_neg hgo]
  simp only [hcall.slot]
  rw [hcall.index] at hentry ⊢
  simp only [hentry]
  rfl

/-- The call does not depend on what comes of it. -/
theorem CallsRunChild.withStart (hcall : CallsRunChild o coll s a i c colle) (start : Start) :
    CallsRunChild o coll s { a with start := start } i c colle :=
  ⟨hcall.pc, hcall.room, hcall.starts, hcall.stop, hcall.recSignal, hcall.goIdle, hcall.index,
    hcall.slot, hcall.entry⟩

/-- Without interruptions the report of a child is the answer in the driver's model. -/
theorem runChildHit_reported {attempt : Nat} {report : Text} (hreport : h.report = some report)
    (hread : h.readHit = none) (hbuf : h.bufHit = none) (hwait : h.waitHit = none)
    (hlength : report.length < 1024) (hplain : '\x00' ∉ report)
    (hended : terminated h.ended = true) :
    s.runChildHit o colle i attempt a h =
      s.runChild o colle i attempt { a with start := .reported report h.ended h.endTime } := by
  have hlen : h.lengthRead = report.length := by simp [Handshake.lengthRead, hread, hreport]
  have hmessage : h.message = report := by
    simp only [Handshake.message, Handshake.pipe, hbuf, hread, hreport, hlen, Option.isSome_none,
      Bool.false_eq_true, if_false, Int.toNat_natCast, List.take_length, List.take_left]
    exact List.takeWhile_eq_self_iff.mpr fun x hx =>
      decide_eq_true fun hzero => hplain (hzero ▸ hx)
  have hbound : 0 ≤ h.lengthRead ∧ h.lengthRead < 1024 := by
    rw [hlen]
    omega
  have hfits : Answer.reportOverruns { a with start := .reported report h.ended h.endTime } =
      false := decide_eq_false (Nat.not_le.mpr hlength)
  have hname : Answer.nameOverruns o colle { a with start := .reported report h.ended h.endTime } =
      a.nameOverruns o colle := rfl
  simp only [PanState.runChildHit, PanState.runChild, if_pos hended, PanState.unlessAborted, hfits,
    hname, Bool.or_false]
  split_ifs with habort hover
  · rfl
  · rfl
  · rfl
  · simp [PanState.parent, Handshake.readLength, hread, hreport, hbuf, hwait, hbound, hmessage,
      PanState.interrupt]

/-- The signals that arrive during the handshake are signals of the driver's model. -/
theorem zooLock_eq (hpc : s.pc ≠ .check ∧ s.pc.exited = false) {hits : List Signal}
    (hhandled : ∀ sig ∈ hits, sig.handled = true) :
    s.zooLock hits = exec (panStep o coll) s (hits.map .signal) := by
  induction hits generalizing s with
  | nil => rfl
  | cons sig hits ih =>
      have hsig : sig.handled = true := hhandled sig List.mem_cons_self
      have hstep : panStep o coll (.signal sig) s = s.interrupt (some sig) := by
        simp [panStep, panNext, hsig, hpc, PanState.interrupt]
      rw [PanState.zooLock, List.map_cons, exec_cons, hstep]
      exact ih hpc fun sig' hsig' => hhandled sig' (List.mem_cons_of_mem sig hsig')

theorem noteStarted_zooLock (slot : Slot) (pid : Pid) (zooOk : Bool) (hits : List Signal) :
    (s.zooLock hits).noteStarted i slot pid zooOk =
      (s.noteStarted i slot pid zooOk).zooLock hits := by
  induction hits generalizing s with
  | nil => rfl
  | cons sig hits ih =>
      have hone : (s.interrupt (some sig)).noteStarted i slot pid zooOk =
          (s.noteStarted i slot pid zooOk).interrupt (some sig) := by
        cases zooOk <;> rfl
      rw [PanState.zooLock, ih, hone, PanState.zooLock]

/-- When the first `read` is not interrupted, the handshake with a child that was executed
is a step of the driver's model, followed by the signals of the handshake. -/
theorem runChildHit_started (hcall : CallsRunChild o coll s a i c colle) (hzoo : a.zooOk = true)
    (hkmsg : a.kmsgOk = true) (hpid : h.pid ≠ 0 ∧ h.pid ∉ s.live) (hexec : h.report = none)
    (hlock : ∀ sig ∈ h.lockHits, sig.handled = true) (hread : h.readHit = none)
    (hname : a.nameOverruns o colle = false) :
    (s.choose c).runChildHit o colle i s.attempts.length a h =
      some (exec (panStep o coll) s
        (.step { a with start := .started h.pid } :: h.lockHits.map .signal)) := by
  have hcall' := hcall.withStart (.started h.pid)
  set slot := (s.choose c).attemptSlot i a.now colle s.attempts.length with hslot
  set forking := (s.choose c).enterFork o i slot a.kmsgOk with hforking
  have hpc : forking.pc ≠ .aborted := by
    rcases PanState.enterFork_pc o (s.choose c) slot i a.kmsgOk with hpc | ⟨-, hfail⟩
    · rw [hforking, hpc, show (s.choose c).pc = s.pc from rfl, hcall.pc]
      rintro ⟨⟩
    · rw [hkmsg] at hfail
      cases hfail
  have hlaunch : s.launch o coll { a with start := .started h.pid } =
      some (forking.noteStarted i slot h.pid true) := by
    have hfresh : h.pid ≠ 0 ∧ h.pid ∉ (s.choose c).live := hpid
    have hname' : Answer.nameOverruns o colle { a with start := .started h.pid } = false := hname
    rw [hcall'.launch, PanState.runChild, hname', Bool.false_or]
    simp only [Answer.reportOverruns, Bool.false_eq_true, if_false, if_pos hfresh, ← hslot,
      ← hforking, PanState.unlessAborted, if_neg hpc, hzoo]
  have hstep : panStep o coll (.step { a with start := .started h.pid }) s =
      forking.noteStarted i slot h.pid true := by
    simp only [panStep, panNext, hcall.pc, hlaunch, Option.getD_some]
  have hplace : (forking.noteStarted i slot h.pid true).pc ≠ .check ∧
      (forking.noteStarted i slot h.pid true).pc.exited = false := ⟨by rintro ⟨⟩, rfl⟩
  have hlength : h.readLength = 0 := by simp [Handshake.readLength, hread, hexec]
  rw [exec_cons, hstep, ← zooLock_eq hplace hlock, ← noteStarted_zooLock]
  simp only [PanState.runChildHit, ← hslot, ← hforking, if_neg hpc, hname, PanState.parent,
    hlength, hread, hzoo, PanState.interrupt, ne_eq, not_true_eq_false, Bool.false_eq_true,
    if_false]

end Refines

/-! ### Commands that were executed -/

section Kept

variable {o : Options} {coll : List CollEntry} {a : Answer} {i c : Nat} {colle : CollEntry}
  {h : Handshake}

/-- The state after the events, from a state on. -/
def panFrom (o : Options) (coll : List CollEntry) (s : PanState) (evs : List Event) : PanState :=
  exec (panStep o coll) s evs

/-- The command of a child that was executed is kept: `run_child`, called in the state `s`,
leaves the state `t`. -/
structure Kept (o : Options) (coll : List CollEntry) (s : PanState) (pid : Pid)
    (colle : CollEntry) (t : PanState) : Prop where
  /-- it is in `running` -/
  recorded : ∃ slot ∈ t.running, slot.pgrp = pid ∧ slot.attempt = s.attempts.length ∧
    slot.cmd = colle
  /-- it is in the active file -/
  marked : t.zoo = s.zoo ++ [.mark pid colle.name colle.cmdline]
  /-- it is not logged, and nothing but its start is reported -/
  unlogged : t.log = s.log ∧ t.failcnt = s.failcnt
  unreported : ∃ started, t.rtsOut = s.rtsOut ++ started ∧
    ∀ p ∈ started, p.origin = .start s.attempts.length
  /-- `num_active` is the number of the children from then on -/
  counted : ∀ later, (panFrom o coll t later).pc ≠ .aborted →
    (panFrom o coll t later).numActive + (panFrom o coll t later).pc.pending =
      (panFrom o coll t later).live.length
  /-- only `check_pids` takes it out of its slot, and decrements `num_active` then -/
  reaped : ∀ later e u, panNext o coll (panFrom o coll t later) e = some u → u.pc ≠ .aborted →
    s.attempts.length ∈ items Slot.number (panFrom o coll t later).running →
    s.attempts.length ∉ items Slot.number u.running →
      (panFrom o coll t later).pc = .check ∧ u.numActive = (panFrom o coll t later).numActive - 1
  /-- it has been reaped, once, when the program ends -/
  ended : ∀ later, (panFrom o coll t later).pc = .finished →
    ((panFrom o coll t later).ledger.map Outcome.attempt).count s.attempts.length = 1 ∧
      ∃ x ∈ (panFrom o coll t later).ledger, x.attempt = s.attempts.length ∧ x.executed = true

/-- The attempt is in a slot, or its child has been reaped. -/
def KeptOrReaped (n : Nat) (s : PanState) : Prop :=
  s.pc ≠ .aborted → n ∈ items Slot.number s.running ∨
    ∃ x ∈ s.ledger, x.attempt = n ∧ x.executed = true

theorem keptOrReaped_step {s s' : PanState} {e : Event} {n : Nat} (hslots : SlotsOk o s)
    (hok : AccountsOk coll s) (hpc : s.pc ≠ .aborted) (hmove : PanMove o coll s e s')
    (hkept : KeptOrReaped n s) : KeptOrReaped n s' := by
  intro hpc'
  rcases hkept hpc with hn | ⟨x, hx, hxn⟩
  · by_cases hgone : n ∈ items Slot.number s'.running
    · exact Or.inl hgone
    · obtain ⟨-, -, x, hledger, hx⟩ := number_leaves hslots hok hpc hmove hpc' hn hgone
      exact Or.inr ⟨x, hledger ▸ List.mem_append_right _ (List.mem_singleton_self x), hx⟩
  · exact Or.inr ⟨x, (hmove.ledgerMove hslots hpc).mem hx, hxn⟩

theorem panFrom_panRun (evs later : List Event) :
    panFrom o coll (panRun o coll evs) later = panRun o coll (evs ++ later) :=
  (exec_append _ _ evs later).symm

variable {evs : List Event}

theorem keptOrReaped_panFrom {n : Nat} (hkept : KeptOrReaped n (panRun o coll evs))
    (later : List Event) : KeptOrReaped n (panFrom o coll (panRun o coll evs) later) := by
  induction later generalizing evs with
  | nil => exact hkept
  | cons e later ih =>
      have hstep : panStep o coll e (panRun o coll evs) = panRun o coll (evs ++ [e]) :=
        panFrom_panRun evs [e]
      rw [panFrom, exec_cons, hstep]
      apply ih
      rw [← hstep, panStep]
      cases hnext : panNext o coll (panRun o coll evs) e with
      | none => exact hkept
      | some s' =>
          obtain ⟨hpc, hmove⟩ := panNext_cases hnext
          exact keptOrReaped_step (slotsOk_panRun o coll evs) (accountsOk_panRun o coll evs) hpc.2
            hmove hkept

/-- The parts of `Kept` that are about the rest of the run hold wherever the attempt is in a
slot. -/
theorem kept_of_slot {s : PanState} {pid : Pid}
    (recorded : ∃ slot ∈ (panRun o coll evs).running, slot.pgrp = pid ∧
      slot.attempt = s.attempts.length ∧ slot.cmd = colle) (hpid : pid ≠ 0)
    (marked : (panRun o coll evs).zoo = s.zoo ++ [.mark pid colle.name colle.cmdline])
    (unlogged : (panRun o coll evs).log = s.log ∧ (panRun o coll evs).failcnt = s.failcnt)
    (unreported : ∃ started, (panRun o coll evs).rtsOut = s.rtsOut ++ started ∧
      ∀ p ∈ started, p.origin = .start s.attempts.length) :
    Kept o coll s pid colle (panRun o coll evs) := by
  have hnumber : s.attempts.length ∈ items Slot.number (panRun o coll evs).running := by
    obtain ⟨slot, hslot, hpgrp, hattempt, -⟩ := recorded
    apply List.mem_filterMap.mpr
    exact ⟨slot, hslot, by rw [Slot.number, if_neg (hpgrp ▸ hpid), hattempt]⟩
  refine ⟨recorded, marked, unlogged, unreported, ?_, ?_, ?_⟩
  · intro later hpc
    rw [panFrom_panRun] at hpc ⊢
    exact ((slotsOk_panRun o coll _).2 hpc).count
  · intro later e u hnext hpc hn hgone
    rw [panFrom_panRun] at hnext hn ⊢
    obtain ⟨hpc', hmove⟩ := panNext_cases hnext
    obtain ⟨hcheck, hactive, -⟩ := number_leaves (slotsOk_panRun o coll _)
      (accountsOk_panRun o coll _) hpc'.2 hmove hpc hn hgone
    exact ⟨hcheck, hactive⟩
  · intro later hpc
    have hnot : (panFrom o coll (panRun o coll evs) later).pc ≠ .aborted := by
      rw [hpc]
      rintro ⟨⟩
    have hkept := keptOrReaped_panFrom (fun _ => Or.inl hnumber) later hnot
    rw [panFrom_panRun] at hpc hnot hkept ⊢
    set u := panRun o coll (evs ++ later)
    have hslots := (slotsOk_panRun o coll (evs ++ later)).2 hnot
    have hlive : u.live = [] := live_of_left o coll (evs ++ later) (by rw [hpc]; rfl)
    have hnumbers := (accountsOk_panRun o coll (evs ++ later) hnot).all_ended hslots hlive
    obtain ⟨x, hx, hxn, hexecuted⟩ : ∃ x ∈ u.ledger, x.attempt = s.attempts.length ∧
        x.executed = true := by
      rcases hkept with hn | hreaped
      · obtain ⟨slot, hslot, hslot'⟩ := List.mem_filterMap.mp hn
        rw [Slot.number, if_pos (hslots.free_of_live hlive hslot)] at hslot'
        cases hslot'
      · exact hreaped
    refine ⟨?_, x, hx, hxn, hexecuted⟩
    apply List.count_eq_one_of_mem
    · exact hnumbers.nodup_iff.mpr List.nodup_range
    · exact List.mem_map.mpr ⟨x, hx, hxn⟩

theorem zooLock_frame (hits : List Signal) (s : PanState) :
    ∃ r, s.zooLock hits = { s with signals := r } := by
  induction hits generalizing s with
  | nil => exact ⟨s.signals, rfl⟩
  | cons sig hits ih => exact ih (s.interrupt (some sig))

theorem started_kept (hcall : CallsRunChild o coll (panRun o coll evs) a i c colle)
    (hzoo : a.zooOk = true) (hkmsg : a.kmsgOk = true) {pid : Pid} (hstart : a.start = .started pid)
    (hname : a.nameOverruns o colle = false)
    (hpid : pid ≠ 0 ∧ pid ∉ (panRun o coll evs).live) {hits : List Signal}
    (hlock : ∀ sig ∈ hits, sig.handled = true) :
    Kept o coll (panRun o coll evs) pid colle
      (panRun o coll (evs ++ .step a :: hits.map .signal)) := by
  set s := panRun o coll evs with hs
  have hreport : a.reportOverruns = false := by rw [Answer.reportOverruns, hstart]
  obtain ⟨t, hrun⟩ : ∃ t, (s.choose c).runChild o colle i s.attempts.length a = some t := by
    have hfresh : pid ≠ 0 ∧ pid ∉ (s.choose c).live := hpid
    simp only [PanState.runChild, hname, hreport, hstart, if_pos hfresh]
    exact ⟨_, rfl⟩
  have hnext : panStep o coll (.step a) s = t := by
    simp only [panStep, panNext, hcall.pc, hcall.launch, hrun, Option.getD_some]
  have hi : i < s.running.length := (List.findIdx?_eq_some_iff_getElem.mp hcall.slot).1
  cases (call_cases hcall.pc hrun).2 with
  | refused why b entered start books pc => simp [hstart] at start
  | aborted cause books pc => simp [hkmsg, hname, hreport] at cause
  | failed errbuf status endTime start gone books pc rts => simp [hstart] at start
  | started pid' start pos fresh books pc rts =>
      obtain rfl : pid = pid' := by simpa [hstart] using start
      rw [if_pos hzoo] at pc
      have hplace : t.pc ≠ .check ∧ t.pc.exited = false := by
        rw [pc]
        exact ⟨by rintro ⟨⟩, rfl⟩
      obtain ⟨r, hr⟩ := zooLock_frame hits t
      have hend : panRun o coll (evs ++ .step a :: hits.map .signal) = { t with signals := r } := by
        rw [← hr, zooLock_eq hplace hlock, ← hnext]
        exact exec_append _ _ evs _
      have hmarked : t.zoo = s.zoo ++ [.mark pid colle.name colle.cmdline] := by
        rcases PanState.runChild_groups hrun with ⟨-, habort⟩ | ⟨pid', hstart', -, hgroups⟩
        · cases pc.symm.trans (habort pid hstart)
        · obtain rfl : pid = pid' := by simpa [hstart] using hstart'
          exact (Prod.mk.inj hgroups).2
      apply kept_of_slot
      · rw [hend, books]
        exact ⟨_, List.mem_set hi _, rfl, rfl, rfl⟩
      · exact hpid.1
      · rw [hend]
        exact hmarked
      · rw [hend, books]
        exact ⟨rfl, rfl⟩
      · refine ⟨_, (congrArg PanState.rtsOut hend).trans rts, ?_⟩
        exact fun p hp => PanState.forkPieces_origin o _ hp

/-- An interrupted `read` is taken for a report: the child gets no line in the active file. -/
theorem runChildHit_unmarked {s t : PanState} {attempt : Nat}
    (hlost : h.readHit ≠ none ∨ a.nameOverruns o colle = true)
    (hrun : s.runChildHit o colle i attempt a h = some t) : t.groups = s.groups := by
  have hinterrupt : ∀ (hit : Option Signal) (u : PanState),
      (u.interrupt hit).groups = u.groups := by
    intro hit u
    cases hit <;> rfl
  have hlength : ¬ a.nameOverruns o colle = true → h.readLength ≠ 0 := fun hname => by
    obtain ⟨sig, hsig⟩ := Option.ne_none_iff_exists'.mp (hlost.resolve_right hname)
    simp [Handshake.readLength, hsig]
  have hfork : (s.enterFork o i (s.attemptSlot i a.now colle attempt) a.kmsgOk).groups =
      s.groups := by
    rw [PanState.enterFork_eq]
    rfl
  simp only [PanState.runChildHit, PanState.parent] at hrun
  generalize s.enterFork o i (s.attemptSlot i a.now colle attempt) a.kmsgOk = forking at hrun hfork
  split_ifs at hrun with habort hname hread hbound hwait
  · obtain rfl := Option.some.inj hrun
    exact hfork
  · obtain rfl := Option.some.inj hrun
    exact hfork
  · obtain rfl := Option.some.inj hrun
    rw [PanState.noteFailedStart_eq, ← hfork]
    exact (hinterrupt _ _).trans ((hinterrupt _ _).trans (hinterrupt _ _))
  · obtain rfl := Option.some.inj hrun
    rw [PanState.noteFailedStart_eq, ← hfork]
    exact (hinterrupt _ _).trans ((hinterrupt _ _).trans (hinterrupt _ _))
  · exact absurd (not_not.mp hread) (hlength hname)

/-- A command that was executed is kept exactly when the first `read` is not interrupted, unless
the name of its buffer file is too long. -/
theorem interruptedStart_kept_iff {evs : List Event}
    (hcall : CallsRunChild o coll (panRun o coll evs) a i c colle) (hzoo : a.zooOk = true)
    (hkmsg : a.kmsgOk = true) (hpid : h.pid ≠ 0 ∧ h.pid ∉ (panRun o coll evs).live)
    (hexec : h.report = none) (hlock : ∀ sig ∈ h.lockHits, sig.handled = true) :
    (∃ t, ((panRun o coll evs).choose c).runChildHit o colle i (panRun o coll evs).attempts.length
        a h = some t ∧ Kept o coll (panRun o coll evs) h.pid colle t) ↔
      h.readHit = none ∧ a.nameOverruns o colle = false := by
  constructor
  · rintro ⟨t, hrun, hkept⟩
    by_contra hnot
    have hlost : h.readHit ≠ none ∨ a.nameOverruns o colle = true := by
      rw [not_and_or, Bool.not_eq_false] at hnot
      exact hnot
    have hsame : t.zoo = (panRun o coll evs).zoo :=
      (Prod.mk.inj (runChildHit_unmarked hlost hrun)).2
    rw [hkept.marked] at hsame
    simp at hsame
  · rintro ⟨hread, hname⟩
    refine ⟨_, runChildHit_started hcall hzoo hkmsg hpid hexec hlock hread hname, ?_⟩
    have hcall' : CallsRunChild o coll (panRun o coll evs) { a with start := .started h.pid } i c
        colle := hcall.withStart _
    have hkept := started_kept hcall' hzoo hkmsg rfl hname hpid hlock
    rw [← panFrom_panRun] at hkept
    exact hkept

end Kept

/-- One command. -/
def trueCommand : CollEntry := ⟨txt "t", txt "true", false⟩

theorem callsRunChild_init (o : Options) (hkeep : o.keepActive = 1)
    (hstarts : o.initialStarts 1 ≠ 0) :
    CallsRunChild o [trueCommand] (panRun o [trueCommand] []) {} 0 0 trueCommand where
  pc := rfl
  room := by
    rw [hkeep]
    exact Int.zero_lt_one
  starts := hstarts
  stop := rfl
  recSignal := rfl
  goIdle := rfl
  index := by cases o.sequential <;> rfl
  slot := by
    simp only [panRun, exec_nil, PanState.init, hkeep]
    rfl
  entry := rfl

theorem interruptedStart_kept_lock :
    ∃ t, ((panRun {} [trueCommand] []).choose 0).runChildHit {} trueCommand 0 0 {}
        { pid := 7, lockHits := [.alrm] } = some t ∧
      Kept {} [trueCommand] (panRun {} [trueCommand] []) 7 trueCommand t :=
  (interruptedStart_kept_iff (callsRunChild_init {} rfl (by decide)) rfl rfl (by decide) rfl
    (by decide)).mpr ⟨rfl, rfl⟩

/-- The signals interrupt the first `read` and `waitpid`. The command runs on, but is logged as
a failure, and when it is reaped `num_active` is decremented without having been
incremented. -/
theorem interruptedStart_lost :
    ∃ t, ((panRun { logfile := true, fmtPrint := true } [trueCommand] []).choose 0).runChildHit
        { logfile := true, fmtPrint := true } trueCommand 0 0 {}
        { pid := 7, readHit := some .alrm, waitHit := some .int, status := 256 } = some t ∧
      t.live = [7] ∧ t.running = [{ cmd := trueCommand }] ∧ t.zoo = [] ∧
      t.log = [.result 0 trueCommand .fail 1] ∧
      (panFrom { logfile := true, fmtPrint := true } [trueCommand] t
        (List.replicate 10 (.step {}) ++ [.step { wait := .child 7 0 }])).numActive = -1 := by
  refine ⟨_, rfl, ?_⟩
  decide +kernel

end EDDTs.Pan
