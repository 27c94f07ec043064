import EDDTs.TstTest.Results

/-!
# The processes of a test

The library process forks one test process after the other, and the test processes fork
children. All of them report results in the counters they share.
-/

namespace EDDTs.TstTest

/-- What the test and the command line fix. -/
structure Config where
  /-- `test_variants`, at least one -/
  variants : ℕ
  /-- the number of supported filesystems, for a test with `all_filesystems` -/
  filesystems : Option ℕ
  /-- `iterations` -/
  iterations : ℕ
  /-- `duration > 0` -/
  duration : Bool
  /-- how often `run_tests` calls a test function: `tcnt`, or one for `test_all` -/
  cases : ℕ

/-- Where a process is in `testrun`. The functions of the test are called in `setup`,
`testing` and `cleaning`. -/
inductive Phase
  /-- before `do_test_setup` -/
  | starting
  | setup
  /-- at the top of the loop, with the number of iterations that were counted -/
  | loop (i : ℕ)
  /-- in `run_tests`, before the test case `n` -/
  | case (i n : ℕ)
  /-- in the test function, with `saved_results` -/
  | testing (i n : ℕ) (saved : Results)
  /-- in the call of `tst_reap_children` by `run_tests` -/
  | reaping (i n : ℕ) (saved : Results)
  /-- in `results_equal`, before the comparison of a counter -/
  | comparing (i n : ℕ) (saved : Results) (c : Counter)
  /-- in `do_test_cleanup`, called from `testrun` or from `tst_brk` -/
  | cleaning (after : Option BrkType)

/-- The values of `tst_brk_handler`. -/
inductive BrkHandler
  | vbrk
  | cvres
  deriving DecidableEq, Repr

/-- A test process, or a child with the process that can wait for it. -/
inductive Role
  | test (last : Bool)
  | child (parent : Option ℕ)
  deriving DecidableEq, Repr

inductive Life
  | running (phase : Phase)
  | zombie (e : End)
  | reaped

structure Proc where
  role : Role
  handler : BrkHandler
  life : Life

/-- A turn of the loops over the variants and the filesystems, with `ret` before it. -/
structure Turn where
  variant : ℕ
  ret : Status
  fs : Option ℕ
  deriving DecidableEq, Repr

/-- There is no other filesystem after this one. -/
def Turn.last (cfg : Config) (t : Turn) : Bool :=
  match t.fs, cfg.filesystems with
  | some i, some n => decide (n ≤ i + 1)
  | _, _ => true

/-- Where the library process is. -/
inductive Lib
  /-- in `do_setup`, before and after `setup_ipc` -/
  | setup
  | ready
  /-- at the top of the loop over the variants -/
  | variant (v : ℕ) (ret : Status)
  /-- before the `fork` of a test process, and in `waitpid` -/
  | forking (t : Turn)
  | waiting (t : Turn) (p : ℕ)
  /-- after `waitpid`, with the status of the test process -/
  | returned (t : Turn) (e : End)
  /-- after `fork_testrun` has returned to `run_tcases_per_fs` -/
  | unmounting (t : Turn) (r : Status)
  /-- in `do_exit`, before a read of the results -/
  | exiting (ret : Status) (r : Read)
  /-- in `do_cleanup` -/
  | cleaning (ret : Status)
  | exited (ret : Status)
  deriving DecidableEq, Repr

/-- The state of all processes; the number of a process is its position. -/
structure System where
  /-- the library process has the results mapped -/
  mapped : Bool
  results : Results
  lib : Lib
  procs : List Proc
  log : List Note

namespace System

def init : System := ⟨false, fun _ => 0, .setup, [], []⟩

/-- `tst_res` in a process that has the results mapped. -/
def report (t : TType) (s : System) : System :=
  { s with results := updateResults t s.results, log := .reported true t :: s.log }

def note (n : Note) (s : System) : System := { s with log := n :: s.log }

def modify (p : ℕ) (f : Proc → Proc) (s : System) : System :=
  { s with procs := s.procs.modify p f }

/-- The process goes on in another phase. -/
def goto (p : ℕ) (phase : Phase) (s : System) : System :=
  s.modify p fun q => { q with life := .running phase }

/-- `do_test_cleanup` is entered. -/
def startCleanup (p : ℕ) (after : Option BrkType) (s : System) : System :=
  s.modify p fun q => { q with handler := .cvres, life := .running (.cleaning after) }

/-- A child that is waited for disappears. -/
def collect (p : ℕ) (s : System) : System := s.modify p fun q => { q with life := .reaped }

/-- The children of the process have no parent any more. -/
def orphan (p : ℕ) (q : Proc) : Proc :=
  if q.role = .child (some p) then { q with role := .child none } else q

/-- The process ends. -/
def finish (p : ℕ) (q : Proc) (e : End) (s : System) : System :=
  { s with
    procs := (s.procs.modify p fun q => { q with life := .zombie e }).map (orphan p)
    log := match q.role with
      | .test last => .testEnded last e :: s.log
      | .child _ => s.log }

/-- A child of the process, in the same phase. -/
def forkFrom (p : ℕ) (q : Proc) (s : System) : System :=
  { s with procs := s.procs ++ [{ q with role := .child (some p) }] }

end System

/-! ### The test processes -/

/-- The life of a process without its phase. -/
inductive Vital
  | running
  | zombie (e : End)
  | reaped
  deriving DecidableEq, Repr

def Life.vital : Life → Vital
  | .running _ => .running
  | .zombie e => .zombie e
  | .reaped => .reaped

/-- The end of a test process, which is a return as long as it runs. -/
def Vital.ended : Vital → End
  | .zombie e => e
  | .running | .reaped => .exited 0

/-- What the library process can learn about a process. -/
def Proc.test (q : Proc) : Option (Bool × Vital) :=
  match q.role with
  | .test last => some (last, q.life.vital)
  | .child _ => none

/-- The test process with this number. -/
def System.testAt (s : System) (p : ℕ) : Option (Bool × Vital) := s.procs[p]?.bind Proc.test

namespace System

variable {s : System} {p j : ℕ} {q : Proc}

theorem testAt_modify {f : Proc → Proc} (hq : s.procs[p]? = some q)
    (hf : (f q).test = q.test) : (s.modify p f).testAt j = s.testAt j := by
  rw [testAt, testAt, modify, List.getElem?_modify]
  by_cases hpj : p = j
  · subst hpj
    simp [hq, hf]
  · simp [hpj]

theorem testAt_goto {phase phase' : Phase} (hq : s.procs[p]? = some q)
    (hrun : q.life = .running phase) : (s.goto p phase').testAt j = s.testAt j := by
  apply testAt_modify hq
  simp only [Proc.test, hrun, Life.vital]

theorem testAt_startCleanup {after : Option BrkType} {phase : Phase} (hq : s.procs[p]? = some q)
    (hrun : q.life = .running phase) : (s.startCleanup p after).testAt j = s.testAt j := by
  apply testAt_modify hq
  simp only [Proc.test, hrun, Life.vital]

theorem testAt_collect {parent : Option ℕ} (hq : s.procs[p]? = some q)
    (hrole : q.role = .child parent) : (s.collect p).testAt j = s.testAt j := by
  apply testAt_modify hq
  simp only [Proc.test, hrole]

theorem testAt_forkFrom : (s.forkFrom p q).testAt j = s.testAt j := by
  rw [testAt, testAt, forkFrom, List.getElem?_append]
  by_cases hj : j < s.procs.length
  · rw [if_pos hj]
  · rw [if_neg hj, List.getElem?_eq_none (Nat.not_lt.mp hj)]
    cases j - s.procs.length <;> rfl

theorem test_orphan (p : ℕ) (q : Proc) : (orphan p q).test = q.test := by
  unfold orphan
  split
  · next hrole => simp only [Proc.test, hrole]
  · rfl

theorem testAt_setLife (l : Life) :
    (s.modify p fun q => { q with life := l }).testAt j =
      (s.testAt j).map fun x => if p = j then (x.1, l.vital) else x := by
  rw [testAt, testAt, modify, List.getElem?_modify]
  cases s.procs[j]? with
  | none => rfl
  | some q =>
      by_cases hpj : p = j
      · cases hrole : q.role with
        | test | child => simp [hpj, Proc.test, hrole]
      · simp [hpj]

theorem testAt_finish {e : End} :
    (s.finish p q e).testAt j =
      (s.testAt j).map fun x => if p = j then (x.1, .zombie e) else x := by
  have horphan : ∀ o : Option Proc, (o.map (orphan p)).bind Proc.test = o.bind Proc.test := by
    intro o
    cases o with
    | none => rfl
    | some q => exact test_orphan p q
  rw [testAt, finish, List.getElem?_map, horphan]
  exact testAt_setLife (.zombie e)

end System

end EDDTs.TstTest
