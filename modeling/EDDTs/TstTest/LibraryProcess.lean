import EDDTs.Library.Interleaving
import EDDTs.TstTest.TestProcess

/-!
# The library process

`tst_run_tcases` with the loops over variants and filesystems, and `do_exit`, which makes the
exit status from the counters. The library process runs together with the test processes and
their children; the counters can change between any two of its reads.
-/

namespace EDDTs.TstTest

/-- What the library process does next. -/
inductive LibAct
  /-- `tst_res` -/
  | res (t : TType)
  /-- `tst_brk` -/
  | brk (t : BrkType)
  | next
  /-- the option `-h` -/
  | help
  deriving DecidableEq, Repr

/-- `do_exit`. -/
def doExit (ret : Status) (s : System) : System :=
  { s with lib := if s.mapped then .exiting ret .passedFirst else .cleaning ret }

/-- `tst_brk` in the library process. -/
def libBrk (t : BrkType) (s : System) : System := doExit t.code (s.note (.libBroke t))

/-- `tst_res` in the library process. -/
def libRes (t : TType) (s : System) : System :=
  if s.mapped then s.report t else s.note (.reported false t)

/-- The end of a turn of the loop over the variants. -/
def endVariant (v : ℕ) (ret : Status) (s : System) : System :=
  if ret &&& ~~~TType.conf.code ≠ 0 then doExit ret s else { s with lib := .variant (v + 1) ret }

/-- The loop over the variants, and the beginning of `run_tcases_per_fs`. -/
def startVariant (cfg : Config) (v : ℕ) (ret : Status) (s : System) : System :=
  if v < cfg.variants then
    match cfg.filesystems with
    | none => { s with lib := .forking ⟨v, ret, none⟩ }
    | some 0 => libBrk .conf s
    | some (_ + 1) => { s with lib := .forking ⟨v, ret, some 0⟩ }
  else doExit ret s

/-- `fork` in `fork_testrun`. -/
def forkTest (cfg : Config) (t : Turn) (s : System) : System :=
  { s with
    procs := s.procs ++ [⟨.test (t.last cfg), .vbrk, .running .starting⟩]
    lib := .waiting t s.procs.length }

/-- `waitpid` in `fork_testrun`. -/
def waitTest (t : Turn) (p : ℕ) (s : System) : System :=
  match s.testAt p with
  | some (_, .zombie e) => { s.collect p with lib := .returned t e }
  | _ => s

def sigkill : ℕ := 9

/-- The rest of `fork_testrun`. -/
def testReturned (t : Turn) (e : End) (s : System) : System :=
  match e with
  | .exited code =>
      match t.fs with
      | none => endVariant t.variant (t.ret ||| code) s
      | some _ => { s with lib := .unmounting t code }
  | .signaled sig => libBrk .brok (if sig = sigkill then s.report .info else s)

/-- The next filesystem, or the end of `run_tcases_per_fs`. -/
def nextFilesystem (cfg : Config) (t : Turn) (r : Status) (s : System) : System :=
  if t.last cfg then endVariant t.variant (t.ret ||| r) s
  else { s with lib := .forking { t with fs := t.fs.map (· + 1) } }

/-- The rest of a turn of the loop in `run_tcases_per_fs`. -/
def filesystemReturned (cfg : Config) (t : Turn) (r : Status) (s : System) : System :=
  if r = TType.conf.code then nextFilesystem cfg t r (s.report .conf)
  else if r = 0 then nextFilesystem cfg t r s
  else doExit r s

/-- The read of a counter in `do_exit`, and what follows from it. -/
def readCounter (ret : Status) (r : Read) (s : System) : System :=
  let zero := s.results r.counter = 0
  let s := s.note (.read r)
  match r with
  | .passedFirst =>
      { s with lib := .exiting (if ¬ zero ∧ ret = TType.conf.code then 0 else ret) .failed }
  | .failed => { s with lib := .exiting (if zero then ret else ret ||| TType.fail.code) .skipped }
  | .skipped => { s with lib := .exiting ret (if zero then .warnings else .passedAgain) }
  | .passedAgain =>
      { s with lib := .exiting (if zero then ret ||| TType.conf.code else ret) .warnings }
  | .warnings => { s with lib := .cleaning (if zero then ret else ret ||| TType.warn.code) }

/-- A step of the library process. What cannot happen at a place changes nothing. -/
def libStep (cfg : Config) (a : LibAct) (s : System) : System :=
  match s.lib, a with
  | .setup, .res t | .ready, .res t | .variant _ _, .res t | .forking _, .res t
  | .unmounting _ _, .res t | .cleaning _, .res t => libRes t s
  | .setup, .brk t | .ready, .brk t | .variant _ _, .brk t | .forking _, .brk t => libBrk t s
  | .waiting _ _, .brk .brok | .returned _ _, .brk .brok | .cleaning _, .brk .brok =>
      libBrk .brok s
  | .setup, .help => { s with lib := .exited 0 }
  | .setup, .next => { s with mapped := true, lib := .ready }
  | .ready, .next => { s with lib := .variant 0 0 }
  | .variant v ret, .next => startVariant cfg v ret s
  | .forking t, .next => forkTest cfg t s
  | .waiting t p, .next => waitTest t p s
  | .returned t e, .next => testReturned t e s
  | .unmounting t r, .next => filesystemReturned cfg t r s
  | .exiting ret r, .next => readCounter ret r s
  | .cleaning ret, .next => { s with mapped := false, lib := .exited ret }
  | _, _ => s

/-- The next step is of the library process or of another one. -/
inductive Action
  | lib (a : LibAct)
  | proc (p : ℕ) (a : Act)
  deriving DecidableEq, Repr

def step (cfg : Config) : Action → System → System
  | .lib a, s => libStep cfg a s
  | .proc p a, s => procStep cfg p a s

/-- The states of the runs of a test. -/
def Runs (cfg : Config) (s : System) : Prop :=
  Library.Interleaving.Reachable (step cfg) System.init s

end EDDTs.TstTest
