import EDDTs.Pan.RtsBlock
import EDDTs.Pan.Signals

/-!
# The state of ltp-pan

The variables of `main` in `ltp-pan.c`, the files it writes, the part of the
operating system that answers its calls, and a record of what happened to each
command.

## Implementation notes

An attempt is a call of `run_child`; attempts are numbered in the order of the
calls. The fields `attempts`, `ledger`, `selfCleared` and `slotAbort` record
history for the statements about runs and are read by no test of the program. The buffer file
of an attempt is known by its number; of its name, and of the report of a child, only the length
matters to the memory. Where one of them is written beyond its buffer the model stops: nothing is
said of what the program does then.
-/

namespace EDDTs.Pan

open Library

abbrev Pid := Nat

/-- The settings that `main` reads from its options. -/
structure Options where
  /-- `-x` -/
  keepActive : Nat := 1
  /-- `-s`, `-1` when absent -/
  starts : Int := -1
  /-- `-t` -/
  timed : Bool := false
  /-- `-S` -/
  sequential : Bool := false
  /-- `-A` -/
  hasBrakes : Bool := false
  /-- `-e`, or `-A` -/
  trackExitStats : Bool := false
  /-- `-y` -/
  forkInRoad : Bool := false
  /-- `-p` -/
  fmtPrint : Bool := false
  /-- `-q` -/
  quietMode : Bool := false
  /-- `-Q` -/
  noKmsg : Bool := false
  /-- `-l` -/
  logfile : Bool := false
  /-- `-C` -/
  failcmdfile : Bool := false
  /-- `-T` -/
  tconfcmdfile : Bool := false
  /-- `-O` -/
  outputDirectory : Option Text := none
  /-- the report type is `rts`, as it is without `-r` -/
  rts : Bool := true
  deriving DecidableEq, Repr

/-- `test_out_dir` is set: buffering is turned off when only one command runs
at a time. -/
def Options.testOutDir (o : Options) : Bool := o.outputDirectory.isSome && o.keepActive ≠ 1

/-- The default of `starts`, and the least value it may have. -/
def Options.initialStarts (o : Options) (cnt : Nat) : Int :=
  if o.timed && o.starts = -1 then -1
  else if o.starts = -1 then if o.sequential then cnt else 1
  else if o.starts = 0 then -1
  else if o.starts < o.keepActive then o.keepActive
  else o.starts

/-- `struct tag_pgrp`; `attempt` stands for the name of the buffer file in `output`. -/
structure Slot where
  pgrp : Pid := 0
  stopping : Bool := false
  mystime : Int := 0
  cmd : CollEntry := ⟨[], [], false⟩
  attempt : Nat := 0
  deriving DecidableEq, Repr

/-- The word for a result in the formatted log. -/
inductive Verdict
  | pass
  | fail
  | conf
  deriving DecidableEq, Repr

def Verdict.text : Verdict → Text
  | .pass => txt "PASS"
  | .fail => txt "FAIL"
  | .conf => txt "CONF"

/-- The lines ltp-pan writes to its log file after the header. -/
inductive LogLine
  /-- with `-p`: `ResultFmt " %-5d\n"` -/
  | result (attempt : Nat) (cmd : CollEntry) (verdict : Verdict) (w : Nat)
  /-- without `-p` -/
  | plain (attempt : Nat) (cmd : CollEntry) (stime dur : Int) (status : TermType) (w : Nat)
      (statLoc : Nat) (cutime cstime : Int)
  /-- the totals at the end, with `-p` -/
  | totals (tests : Nat) (skipped failures : Int)
  deriving DecidableEq, Repr

def LogLine.text : LogLine → Text
  | .result _ cmd verdict w =>
      padRight 50 cmd.name ++ txt " " ++ padRight 10 (verdict.text.take 10) ++ txt " " ++
        padRight 5 (natText w) ++ txt "\n"
  | .plain _ cmd stime dur status w statLoc cutime cstime =>
      txt "tag=" ++ cmd.name ++ txt " stime=" ++ intText stime ++ txt " dur=" ++ intText dur ++
        txt " exit=" ++ status.text ++ txt " stat=" ++ natText w ++ txt " core=" ++
        coreText statLoc ++ txt " cu=" ++ intText cutime ++ txt " cs=" ++ intText cstime ++
        txt "\n"
  | .totals tests skipped failures =>
      txt "\n-----------------------------------------------\nTotal Tests: " ++ natText tests ++
        txt "\nTotal Skipped Tests: " ++ intText skipped ++ txt "\nTotal Failures: " ++
        intText failures ++ txt "\n"

/-- Who a piece of the standard output comes from. -/
inductive Origin
  /-- a notice of ltp-pan that belongs to no test -/
  | pan
  /-- `write_test_start` -/
  | start (attempt : Nat)
  /-- the test itself -/
  | output (attempt : Nat)
  /-- `write_test_end` -/
  | finish (attempt : Nat)
  deriving DecidableEq, Repr

structure Piece where
  origin : Origin
  text : Text
  deriving DecidableEq, Repr

/-- The calls that change the active file. -/
inductive ZooCall
  | mark (pid : Pid) (tag : Text) (cmdline : Text)
  | clear (pid : Pid)
  /-- the line of ltp-pan itself -/
  | clearSelf
  deriving DecidableEq, Repr

/-- Why no child was forked for an attempt. -/
inductive Refusal
  | openFails
  | pipeFails
  | forkFails
  deriving DecidableEq, Repr

/-- How an attempt ended. -/
inductive Ending
  | refused (why : Refusal)
  /-- the child could not go through with the exec; its report and its status -/
  | execFailed (errbuf : Text) (status : Nat)
  /-- reaped by `check_pids`; whether a signal had been propagated to it, the
  times it took and what the buffer file held -/
  | reaped (statLoc : Nat) (stopping : Bool) (cutime cstime : Int) (captured : Text)
  deriving DecidableEq, Repr

/-- What happened to an attempt. -/
structure Outcome where
  attempt : Nat
  cmd : CollEntry
  mystime : Int
  endTime : Int
  ending : Ending
  deriving DecidableEq, Repr

/-- Where `main` is after its setup. -/
inductive Pc
  /-- at the head of the launch loop -/
  | launch
  /-- `run_child` has returned: a pid, or `-1` -/
  | ranChild (cpid : Option Pid)
  /-- after the launch loop -/
  | launched
  /-- at `if (rec_signal)` -/
  | testSignal
  /-- at `if (rec_signal == SIGUSR2)` -/
  | testUsr2
  /-- at `if (rec_signal == SIGUSR1)` -/
  | testUsr1
  /-- entering `propagate_signal`, from the loop over the orphans or not -/
  | propagate (draining : Bool)
  /-- in the loop of `propagate_signal` -/
  | propagateTo (draining : Bool) (i : Nat)
  /-- `propagate_signal` has returned to the main loop -/
  | propagated
  /-- at the call of `check_pids` -/
  | check
  /-- `check_pids` has returned -/
  | checked (err : Int)
  /-- in the loop that waits for orphaned process groups -/
  | drain
  /-- `exit(exit_stat)` -/
  | finished
  /-- `exit(1)`, or a buffer has been overrun -/
  | aborted
  deriving DecidableEq, Repr

/-- What the commands that were started have come to: the slots, the counters,
the log and the command files. -/
structure Books where
  running : List Slot
  numActive : Int := 0
  exitStat : Int := 0
  failcnt : Int := 0
  tconfcnt : Int := 0
  log : List LogLine := []
  failCmds : List CollEntry := []
  tconfCmds : List CollEntry := []
  /-- the children that were forked and not yet reaped -/
  live : List Pid := []
  /-- the command index of each attempt -/
  attempts : List Nat := []
  /-- the attempts that have ended, in the order of their ends -/
  ledger : List Outcome := []
  /-- `zoo_clear` succeeded for the line of ltp-pan at the end -/
  selfCleared : Bool := false
  deriving DecidableEq, Repr

/-- The variables that steer the main loop. -/
structure Control where
  starts : Int
  /-- the command index -/
  c : Nat := 0
  stop : Nat := 0
  goIdle : Nat := 0
  forkInRoad : Bool
  signals : Signals := {}
  /-- a signal has arrived since `check_pids` was entered -/
  waitHit : Bool := false
  /-- the branch `i == keep_active` was taken -/
  slotAbort : Bool := false
  deriving DecidableEq, Repr

structure PanState extends Books, Control where
  pc : Pc := .launch
  orphans : List Pid := [0]
  out : List Piece := []
  zoo : List ZooCall := []
  /-- the calls of `kill` on process groups -/
  kills : List (Pid × Option Signal) := []
  /-- `run_child` has written behind `output` or `errbuf` -/
  overran : Bool := false
  deriving DecidableEq, Repr

/-- The state in which `main` enters its loop. -/
def PanState.init (o : Options) (coll : List CollEntry) : PanState where
  running := List.replicate o.keepActive {}
  starts := o.initialStarts coll.length
  forkInRoad := o.forkInRoad

end EDDTs.Pan
