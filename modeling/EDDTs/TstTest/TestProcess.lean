import EDDTs.TstTest.System

/-!
# Test processes and their children

`testrun` and the functions that the test calls. The functions of the test itself are not
fixed: a process can report, break, fork and wait whenever it runs, also from a signal handler.
-/

namespace EDDTs.TstTest

/-- What a process does next. -/
inductive Act
  /-- `tst_res` -/
  | res (t : TType)
  /-- `tst_brk` -/
  | brk (t : BrkType)
  | fork
  /-- the test waits for a child itself -/
  | wait (c : ℕ)
  /-- `tst_reap_children` waits for a child -/
  | reap (c : ℕ)
  /-- the function that was called returns, or the code goes on -/
  | next
  /-- `testrun` goes on because there is time left -/
  | again
  /-- a child calls `exit` -/
  | exit (code : Status)
  /-- the process is killed by a signal -/
  | signal (sig : ℕ)
  deriving DecidableEq, Repr

/-- `getpid() == main_pid`: `do_test_setup` has set `main_pid` to the test process. -/
def isMain (q : Proc) (phase : Phase) : Bool :=
  match q.role, phase with
  | .test _, .starting => false
  | .test _, _ => true
  | .child _, _ => false

/-- `tst_cvres`, the handler of `tst_brk` while the test cleans up. -/
def tstCvres (t : BrkType) (s : System) : System :=
  match t with
  | .brok => (s.report .warn).note .cleanupBroke
  | .conf => s.report .conf

/-- `tst_vbrk_` in a process that is not the library process. -/
def tstVbrk (p : ℕ) (q : Proc) (phase : Phase) (t : BrkType) (s : System) : System :=
  if isMain q phase then s.startCleanup p (some t) else s.finish p q (.exited t.code)

/-- `tst_brk_`. -/
def tstBrk (p : ℕ) (q : Proc) (phase : Phase) (t : BrkType) (s : System) : System :=
  match q.handler with
  | .vbrk => tstVbrk p q phase t s
  | .cvres => tstCvres t s

/-- The calls of `tst_brk` that `check_child_status` makes in turn, as far as they return. The
status of a child that was killed has the exit status zero. -/
def childStatusBrks : End → List BrkType
  | .signaled _ => [.brok, .brok]
  | .exited code =>
      if code = TType.pass.code then []
      else if code = TType.brok.code then [.brok]
      else if code = TType.conf.code then [.conf]
      else [.brok]

/-- `check_child_status`. -/
def checkChildStatus (p : ℕ) (q : Proc) (phase : Phase) (e : End) (s : System) : System :=
  match q.handler with
  | .vbrk => (childStatusBrks e).head?.elim s (tstVbrk p q phase · s)
  | .cvres => (childStatusBrks e).foldl (fun s t => tstCvres t s) s

/-- The status that `wait` returns for a child of the process. -/
def childEnd (p c : ℕ) (s : System) : Option End :=
  match s.procs[c]? with
  | some ⟨.child (some parent), _, .zombie e⟩ => if parent = p then some e else none
  | _ => none

/-- `wait` does not fail with `ECHILD`. -/
def hasChildren (p : ℕ) (s : System) : Bool :=
  s.procs.any fun q => q.role = .child (some p) && q.life.vital ≠ .reaped

/-- The counter that `results_equal` compares next. -/
def comparedNext : Counter → Option Counter
  | .passed => some .failed
  | .failed => some .skipped
  | .skipped | .warnings => none

/-- The code of `testrun`, `run_tests` and `do_test_cleanup` goes on. -/
def goOn (cfg : Config) (p : ℕ) (q : Proc) (phase : Phase) (s : System) : System :=
  match phase with
  | .starting => s.goto p .setup
  | .setup =>
      -- "Runaway child in setup()!"
      if isMain q phase then s.goto p (.loop 0) else tstBrk p q phase .brok s
  | .loop i => if i < cfg.iterations then s.goto p (.case (i + 1) 0) else s.startCleanup p none
  | .case i n =>
      if n < cfg.cases then s.goto p (.testing i n s.results) else s.goto p (.loop i)
  | .testing i n saved =>
      if isMain q phase then s.goto p (.reaping i n saved) else s.finish p q (.exited 0)
  | .reaping i n saved =>
      if hasChildren p s then s else s.goto p (.comparing i n saved .passed)
  | .comparing i n saved c =>
      if s.results c ≠ saved c then s.goto p (.case i (n + 1))
      else
        match comparedNext c with
        | some c' => s.goto p (.comparing i n saved c')
        -- "Test haven't reported results!"
        | none => tstBrk p q phase .brok s
  | .cleaning after => s.finish p q (.exited (after.elim 0 BrkType.code))

/-- What a running process does. -/
def act (cfg : Config) (p : ℕ) (q : Proc) (phase : Phase) (a : Act) (s : System) : System :=
  match a with
  | .res t => s.report t
  | .brk t => tstBrk p q phase t s
  | .fork =>
      match phase with
      | .starting => s
      | _ => s.forkFrom p q
  | .wait c =>
      match childEnd p c s with
      | none => s
      | some _ => s.collect c
  | .reap c =>
      match childEnd p c s with
      | none => s
      | some e => checkChildStatus p q phase e (s.collect c)
  | .next => goOn cfg p q phase s
  | .again =>
      match phase with
      | .loop i =>
          if cfg.duration && !decide (i < cfg.iterations) then s.goto p (.case i 0) else s
      | _ => s
  | .exit code =>
      match q.role with
      | .child _ => s.finish p q (.exited code)
      | .test _ => s
  | .signal sig => s.finish p q (.signaled sig)

def procStep (cfg : Config) (p : ℕ) (a : Act) (s : System) : System :=
  match s.procs[p]? with
  | some q =>
      match q.life with
      | .running phase => act cfg p q phase a s
      | .zombie _ | .reaped => s
  | none => s

/-! ### What a process can do to the others -/

/-- The ends of a test process. -/
inductive End.Usual : End → Prop
  | returned : Usual (.exited 0)
  | broke (t : BrkType) : Usual (.exited t.code)
  | signaled (sig : ℕ) : Usual (.signaled sig)

theorem End.Usual.cleaned (after : Option BrkType) :
    End.Usual (.exited (after.elim 0 BrkType.code)) := by
  cases after with
  | none => exact .returned
  | some t => exact .broke t

/-- A property of the system that is kept when a process reports, changes its phase, forks,
waits for a child or ends. -/
structure Kept (Inv : System → Prop) : Prop where
  report : ∀ {s} t, Inv s → Inv (s.report t)
  cleanupBroke : ∀ {s}, Inv s → Inv (s.note .cleanupBroke)
  sameTests : ∀ {s procs}, Inv s → (∀ j, ({ s with procs } : System).testAt j = s.testAt j) →
    Inv { s with procs }
  finish : ∀ {s p q phase e}, Inv s → s.procs[p]? = some q → q.life = .running phase →
    (∀ last, q.role = .test last → e.Usual) → Inv (s.finish p q e)

namespace Kept

variable {Inv : System → Prop} {cfg : Config} {s : System} {p : ℕ} {q : Proc} {phase : Phase}
  (h : Kept Inv)

include h

theorem tstCvres (t : BrkType) (hs : Inv s) : Inv (tstCvres t s) := by
  cases t with
  | brok => exact h.cleanupBroke (h.report _ hs)
  | conf => exact h.report _ hs

theorem foldl_tstCvres (brks : List BrkType) (hs : Inv s) :
    Inv (brks.foldl (fun s t => TstTest.tstCvres t s) s) := by
  induction brks generalizing s with
  | nil => exact hs
  | cons t rest ih => exact ih (h.tstCvres t hs)

section Process

variable (hs : Inv s) (hq : s.procs[p]? = some q) (hrun : q.life = .running phase)

include hs hq hrun

theorem tstVbrk (t : BrkType) : Inv (tstVbrk p q phase t s) := by
  unfold TstTest.tstVbrk
  split
  · exact h.sameTests hs fun _ => System.testAt_startCleanup hq hrun
  · exact h.finish hs hq hrun fun _ _ => .broke t

theorem tstBrk (t : BrkType) : Inv (tstBrk p q phase t s) := by
  unfold TstTest.tstBrk
  split
  · exact h.tstVbrk hs hq hrun t
  · exact h.tstCvres t hs

theorem checkChildStatus (e : End) : Inv (checkChildStatus p q phase e s) := by
  unfold TstTest.checkChildStatus
  split
  · cases (childStatusBrks e).head? with
    | none => exact hs
    | some t => exact h.tstVbrk hs hq hrun t
  · exact h.foldl_tstCvres _ hs

theorem goto (phase' : Phase) : Inv (s.goto p phase') :=
  h.sameTests hs fun _ => System.testAt_goto hq hrun

theorem goOn : Inv (goOn cfg p q phase s) := by
  have hgoto := h.goto hs hq hrun
  have hbrk := h.tstBrk hs hq hrun .brok
  cases phase with
  | starting => exact hgoto _
  | setup =>
      simp only [TstTest.goOn]
      split
      · exact hgoto _
      · exact hbrk
  | loop i =>
      simp only [TstTest.goOn]
      split
      · exact hgoto _
      · exact h.sameTests hs fun _ => System.testAt_startCleanup hq hrun
  | case i n =>
      simp only [TstTest.goOn]
      split
      · exact hgoto _
      · exact hgoto _
  | testing i n saved =>
      simp only [TstTest.goOn]
      split
      · exact hgoto _
      · exact h.finish hs hq hrun fun _ _ => .returned
  | reaping i n saved =>
      simp only [TstTest.goOn]
      split
      · exact hs
      · exact hgoto _
  | comparing i n saved c =>
      simp only [TstTest.goOn]
      split
      · exact hgoto _
      · split
        · exact hgoto _
        · exact hbrk
  | cleaning after => exact h.finish hs hq hrun fun _ _ => .cleaned after

/-- A child that can be waited for, which is not the process itself. -/
theorem collect {c : ℕ} {e : End} (hend : childEnd p c s = some e) :
    Inv (s.collect c) ∧ (s.collect c).procs[p]? = some q := by
  unfold childEnd at hend
  split at hend
  · next parent handler e' hc =>
      refine ⟨h.sameTests hs fun _ => System.testAt_collect hc rfl, ?_⟩
      have hne : c ≠ p := by
        rintro rfl
        rw [hc, Option.some.injEq] at hq
        subst hq
        cases hrun
      rw [System.collect, System.modify, List.getElem?_modify, hq]
      simp [hne]
  · cases hend

theorem act (a : Act) : Inv (act cfg p q phase a s) := by
  cases a with
  | res t => exact h.report t hs
  | brk t => exact h.tstBrk hs hq hrun t
  | fork =>
      simp only [TstTest.act]
      split
      · exact hs
      · exact h.sameTests hs fun _ => System.testAt_forkFrom
  | wait c =>
      simp only [TstTest.act]
      split
      · exact hs
      · next e hend => exact (h.collect hs hq hrun hend).1
  | reap c =>
      simp only [TstTest.act]
      split
      · exact hs
      · next e hend =>
          obtain ⟨hs', hq'⟩ := h.collect hs hq hrun hend
          exact h.checkChildStatus hs' hq' hrun e
  | next => exact h.goOn hs hq hrun
  | again =>
      simp only [TstTest.act]
      split
      · split
        · exact h.goto hs hq hrun _
        · exact hs
      · exact hs
  | exit code =>
      simp only [TstTest.act]
      split
      · next hrole => exact h.finish hs hq hrun fun last hlast => by simp [hrole] at hlast
      · exact hs
  | signal sig => exact h.finish hs hq hrun fun _ _ => .signaled sig

end Process

/-- A step of a process keeps the property. -/
theorem procStep (p : ℕ) (a : Act) (hs : Inv s) : Inv (procStep cfg p a s) := by
  unfold TstTest.procStep
  split
  · next q hq =>
      split
      · next phase hrun => exact h.act hs hq hrun a
      · exact hs
      · exact hs
  · exact hs

end Kept

end EDDTs.TstTest
