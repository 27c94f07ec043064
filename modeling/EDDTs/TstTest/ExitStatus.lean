import EDDTs.TstTest.Invariant

/-!
# The exit status in every run

`do_exit` makes the exit status from its argument and from what it reads. The invariant of the
runs connects both with the notes.
-/

namespace EDDTs.TstTest

/-- `ret` before a read of `do_exit(ret)`, where `nonzero` says what was read before. -/
def statusBefore (ret : Status) (nonzero : Read → Bool) (r : Read) : Status :=
  let ret₁ := if nonzero .passedFirst ∧ ret = TType.conf.code then 0 else ret
  let ret₂ := if nonzero .failed then ret₁ ||| TType.fail.code else ret₁
  match r with
  | .passedFirst => ret
  | .failed => ret₁
  | .skipped | .passedAgain => ret₂
  | .warnings =>
      if nonzero .skipped ∧ ¬ nonzero .passedAgain then ret₂ ||| TType.conf.code else ret₂

/-- The exit status. -/
def exitStatus (ret : Status) (nonzero : Read → Bool) : Status :=
  let ret₃ := statusBefore ret nonzero .warnings
  if nonzero .warnings then ret₃ ||| TType.warn.code else ret₃

section Reads

variable {log : List Note} {n : Note} {r r' : Read} {ret : Status}

theorem readNonzero_eq_of_seen {log' : List Note} (h : seen r log = seen r log') :
    readNonzero log r = readNonzero log' r := by
  rw [readNonzero, readNonzero, h]

theorem readNonzero_cons (h : ∀ r, n ≠ .read r) : readNonzero (n :: log) = readNonzero log := by
  funext r
  exact readNonzero_eq_of_seen (seen_cons (h r))

theorem readNonzero_of_unread (h : ∀ r, .read r ∉ log) : readNonzero log = fun _ => false := by
  funext r
  simp [readNonzero, seen_eq_zero (h r)]

theorem readNonzero_read_of_ne (h : r ≠ r') :
    readNonzero (.read r :: log) r' = readNonzero log r' :=
  readNonzero_eq_of_seen (seen_cons fun hn => h (Note.read.inj hn))

/-- A read gives zero when the counter is. -/
theorem readNonzero_read {results : Results}
    (hcounts : results r.counter = UInt32.ofNat (counted r.counter log)) :
    readNonzero (.read r :: log) r = true ↔ results r.counter ≠ 0 := by
  rw [readNonzero, decide_eq_true_iff, seen_read, hcounts, ne_eq, ofNat_eq_zero_iff]

theorem unread_cons (hn : ∀ r, n ≠ .read r) (h : ∀ r, .read r ∉ log) (r : Read) :
    .read r ∉ n :: log := by
  intro hmem
  rcases List.mem_cons.mp hmem with heq | hmem
  · exact hn r heq.symm
  · exact h r hmem

theorem exitStatus_unread (ret : Status) : exitStatus ret (fun _ => false) = ret := by
  simp [exitStatus, statusBefore]

end Reads

/-! ### The invariant -/

/-- What holds of the library process, by the place where it is. -/
def LibInv (cfg : Config) (mapped : Bool) (testAt : ℕ → Option (Bool × Vital)) (log : List Note) :
    Lib → Prop
  | .setup => mapped = false ∧ Pending 0 true (.exited 0) log
  | .ready => Pending 0 true (.exited 0) log
  | .variant _ ret => Pending ret true (.exited 0) log
  | .forking t => Pending t.ret true (.exited 0) log
  | .waiting t p => ∃ v, testAt p = some (t.last cfg, v) ∧ v ≠ .reaped ∧
      Pending t.ret (t.last cfg) v.ended log
  | .returned t e => Pending t.ret (t.last cfg) e log
  | .unmounting t r => Pending t.ret (t.last cfg) (.exited r) log
  | .exiting ret r => mapped = true ∧ (r = .passedAgain → readNonzero log .skipped = true) ∧
      ∃ ret', Final ret' log ∧ ret = statusBefore ret' (readNonzero log) r
  | .cleaning ret | .exited ret =>
      ∃ ret', Final ret' log ∧ ret = exitStatus ret' (readNonzero log)

/-- The invariant of the runs. -/
structure Inv (cfg : Config) (s : System) : Prop where
  counts : ∀ c, s.results c = UInt32.ofNat (counted c s.log)
  /-- Without the counters nothing has been read, until the library process is at its end. -/
  unread : s.mapped = false → (∃ ret, s.lib = .exited ret) ∨ ∀ r, .read r ∉ s.log
  /-- A test process is waited for, unless the library process broke. -/
  tests : ∀ p last v, s.testAt p = some (last, v) → v ≠ .reaped →
    (∃ t, s.lib = .waiting t p) ∨ .libBroke .brok ∈ s.log
  lib : LibInv cfg s.mapped s.testAt s.log s.lib

theorem pending_init : Pending 0 true (.exited 0) [] where
  notBroke _ := List.not_mem_nil
  usual := .returned
  values := Or.inl rfl
  broken := iff_of_false (fun ⟨_, _, h, _⟩ => List.not_mem_nil h) not_broken_exited_zero
  conf := iff_of_false List.not_mem_nil (by decide)

theorem inv_init (cfg : Config) : Inv cfg System.init where
  counts _ := rfl
  unread _ := Or.inr fun _ => List.not_mem_nil
  tests _ _ _ h := by cases h
  lib := ⟨rfl, pending_init⟩

section Processes

variable {cfg : Config} {s : System} {n : Note}

theorem LibInv.aside {mapped : Bool} {testAt : ℕ → Option (Bool × Vital)} {log : List Note}
    {lib : Lib} (h : LibInv cfg mapped testAt log lib) (hn : n.isEnd = false)
    (hread : ∀ r, n ≠ .read r) : LibInv cfg mapped testAt (n :: log) lib := by
  cases lib with
  | setup => exact ⟨h.1, h.2.aside hn⟩
  | ready | variant | forking | returned | unmounting => exact Pending.aside h hn
  | waiting t p =>
      obtain ⟨v, hv, hlive, hpending⟩ := h
      exact ⟨v, hv, hlive, hpending.aside hn⟩
  | exiting ret r =>
      obtain ⟨hmapped, hagain, ret', hfinal, hret⟩ := h
      rw [← readNonzero_cons hread] at hagain hret
      exact ⟨hmapped, hagain, ret', hfinal.aside hn, hret⟩
  | cleaning ret | exited ret =>
      obtain ⟨ret', hfinal, hret⟩ := h
      rw [← readNonzero_cons hread] at hret
      exact ⟨ret', hfinal.aside hn, hret⟩

/-- A note that is of no end and no read is added, with the result that it counts. -/
theorem Inv.aside {results : Results} (h : Inv cfg s) (hn : n.isEnd = false)
    (hread : ∀ r, n ≠ .read r)
    (hcounts : ∀ c, results c = UInt32.ofNat (counted c (n :: s.log))) :
    Inv cfg { s with results, log := n :: s.log } where
  counts := hcounts
  unread hmapped := (h.unread hmapped).imp id (unread_cons hread)
  tests p last v hv hlive := (h.tests p last v hv hlive).imp id (List.mem_cons_of_mem n)
  lib := h.lib.aside hn hread

/-- The counters count what is reported. -/
theorem counts_report (h : ∀ c, s.results c = UInt32.ofNat (counted c s.log)) (t : TType)
    (c : Counter) :
    updateResults t s.results c = UInt32.ofNat (counted c (.reported true t :: s.log)) := by
  rw [updateResults_apply, h, counted_cons]
  by_cases hc : counterOf t = some c
  · simp [Note.counts, hc, UInt32.ofNat_add]
  · simp [Note.counts, hc]

theorem Inv.report (h : Inv cfg s) (t : TType) : Inv cfg (s.report t) :=
  h.aside rfl (fun _ => nofun) (counts_report h.counts t)

theorem Inv.note (h : Inv cfg s) (hn : n.isEnd = false) (hread : ∀ r, n ≠ .read r)
    (hcount : ∀ c, n.counts c = false) : Inv cfg (s.note n) := by
  refine h.aside hn hread fun c => ?_
  rw [counted_cons, hcount]
  exact h.counts c

/-- The end of a test process, when it is waited for or the library process broke. -/
theorem LibInv.ended {p : ℕ} {last : Bool} {e : End} (h : Inv cfg s) (he : e.Usual)
    (hp : s.testAt p = some (last, .running)) :
    LibInv cfg s.mapped
      (fun j => (s.testAt j).map fun x => if p = j then (x.1, .zombie e) else x)
      (.testEnded last e :: s.log) s.lib := by
  have hlib := h.lib
  rcases h.tests p last .running hp nofun with ⟨t, hwait⟩ | hbroke
  · rw [hwait] at hlib ⊢
    obtain ⟨v, hv, -, hpending⟩ := hlib
    rw [hp] at hv
    cases hv
    refine ⟨.zombie e, ?_, nofun, hpending.ended he⟩
    simp [hp]
  · have hreads : readNonzero (.testEnded last e :: s.log) = readNonzero s.log :=
      readNonzero_cons fun _ => nofun
    cases hcase : s.lib with
    | setup =>
        rw [hcase] at hlib
        exact absurd hbroke (hlib.2.notBroke .brok)
    | ready | variant | forking | returned | unmounting =>
        rw [hcase] at hlib
        exact absurd hbroke (Pending.notBroke hlib .brok)
    | waiting t p =>
        rw [hcase] at hlib
        obtain ⟨v, -, -, hpending⟩ := hlib
        exact absurd hbroke (hpending.notBroke .brok)
    | exiting ret r =>
        rw [hcase] at hlib
        obtain ⟨hmapped, hagain, ret', hfinal, hret⟩ := hlib
        rw [← hreads] at hagain hret
        exact ⟨hmapped, hagain, ret', hfinal.ended hbroke, hret⟩
    | cleaning ret | exited ret =>
        rw [hcase] at hlib
        obtain ⟨ret', hfinal, hret⟩ := hlib
        rw [← hreads] at hret
        exact ⟨ret', hfinal.ended hbroke, hret⟩

theorem Inv.sameTests {procs : List Proc} (h : Inv cfg s)
    (htests : ∀ j, ({ s with procs } : System).testAt j = s.testAt j) :
    Inv cfg { s with procs } where
  counts := h.counts
  unread := h.unread
  tests p last v hv := h.tests p last v ((htests p).symm.trans hv)
  lib := by
    rw [funext htests]
    exact h.lib

theorem Inv.finish {p : ℕ} {q : Proc} {phase : Phase} {e : End} (h : Inv cfg s)
    (hq : s.procs[p]? = some q) (hrun : q.life = .running phase)
    (he : ∀ last, q.role = .test last → e.Usual) : Inv cfg (s.finish p q e) := by
  have htests : (s.finish p q e).testAt = fun j =>
      (s.testAt j).map fun x => if p = j then (x.1, .zombie e) else x :=
    funext fun _ => System.testAt_finish
  have hp : s.testAt p = q.test := by rw [System.testAt, hq]; rfl
  cases hrole : q.role with
  | child parent =>
      have hsame : ∀ j, (s.finish p q e).testAt j = s.testAt j := by
        intro j
        rw [htests]
        by_cases hpj : p = j
        · subst hpj
          simp [hp, Proc.test, hrole]
        · simp [hpj]
      have hfinish : s.finish p q e = { s with procs := (s.finish p q e).procs } := by
        simp only [System.finish, hrole]
      rw [hfinish] at hsame ⊢
      exact h.sameTests hsame
  | test last =>
      have hlog : (s.finish p q e).log = .testEnded last e :: s.log := by
        simp only [System.finish, hrole]
      have hrunning : s.testAt p = some (last, .running) := by
        rw [hp, Proc.test, hrole, hrun]
        rfl
      refine ⟨fun c => ?_, fun hmapped => ?_, fun j last' v hv hlive => ?_, ?_⟩
      · rw [hlog, counted_cons]
        exact h.counts c
      · rw [hlog]
        exact (h.unread hmapped).imp id (unread_cons fun _ => by rintro ⟨⟩)
      · rw [hlog]
        rw [htests] at hv
        obtain ⟨⟨last'', v'⟩, hold, hnew⟩ := Option.map_eq_some_iff.mp hv
        have hlive' : v' ≠ .reaped := by
          rintro rfl
          by_cases hpj : p = j
          · subst hpj
            rw [hrunning] at hold
            cases hold
          · rw [if_neg hpj] at hnew
            cases hnew
            exact hlive rfl
        exact (h.tests j last'' v' hold hlive').imp id (List.mem_cons_of_mem _)
      · rw [hlog, htests]
        exact LibInv.ended h (he last hrole) hrunning

/-- Whatever the processes do, the invariant is kept. -/
theorem kept_inv (cfg : Config) : Kept (Inv cfg) where
  report t h := h.report t
  cleanupBroke h := h.note rfl (fun _ => nofun) fun _ => rfl
  sameTests h htests := h.sameTests htests
  finish h hq hrun he := h.finish hq hrun he

end Processes

/-! ### The library process -/

/-- The part of the invariant that does not depend on where the library process is, while it
waits for no test process. -/
structure Base (s : System) : Prop where
  counts : ∀ c, s.results c = UInt32.ofNat (counted c s.log)
  unread : s.mapped = false → ∀ r, .read r ∉ s.log
  idle : ∀ p last v, s.testAt p = some (last, v) → v ≠ .reaped → .libBroke .brok ∈ s.log

section LibraryProcess

variable {cfg : Config} {s : System}

/-- The library process runs, and waits for no test process. -/
def Lib.isBusy : Lib → Bool
  | .waiting _ _ | .exited _ => false
  | _ => true

theorem Inv.base (h : Inv cfg s) (hbusy : s.lib.isBusy = true) : Base s where
  counts := h.counts
  unread hmapped := by
    refine (h.unread hmapped).resolve_left ?_
    rintro ⟨ret, hret⟩
    rw [hret] at hbusy
    cases hbusy
  idle p last v hv hlive := by
    refine (h.tests p last v hv hlive).resolve_left ?_
    rintro ⟨t, ht⟩
    rw [ht] at hbusy
    cases hbusy

theorem Base.goto (h : Base s) {lib : Lib} (hlib : LibInv cfg s.mapped s.testAt s.log lib) :
    Inv cfg { s with lib } where
  counts := h.counts
  unread hmapped := Or.inr (h.unread hmapped)
  tests p last v hv hlive := Or.inr (h.idle p last v hv hlive)
  lib := hlib

variable {ret : Status}

theorem Base.doExit (h : Base s) (hfinal : Final ret s.log) : Inv cfg (doExit ret s) := by
  apply h.goto
  cases hmapped : s.mapped with
  | true => exact ⟨rfl, nofun, ret, hfinal, rfl⟩
  | false =>
      refine ⟨ret, hfinal, ?_⟩
      rw [readNonzero_of_unread (h.unread hmapped), exitStatus_unread]

theorem Base.libBroke (h : Base s) (t : BrkType) : Base (s.note (.libBroke t)) where
  counts := h.counts
  unread hmapped := unread_cons (n := .libBroke t) (fun _ => nofun) (h.unread hmapped)
  idle p last v hv hlive := List.mem_cons_of_mem _ (h.idle p last v hv hlive)

/-- `tst_brk(TBROK)`, also while a test process is waited for. -/
theorem Inv.libBrk_brok (h : Inv cfg s) (hexit : ∀ ret, s.lib ≠ .exited ret) :
    Inv cfg (libBrk .brok s) := by
  have hbase : Base (s.note (.libBroke .brok)) := by
    refine ⟨h.counts, fun hmapped => ?_, fun _ _ _ _ _ => List.mem_cons_self⟩
    exact unread_cons (n := .libBroke .brok) (fun _ => nofun)
      ((h.unread hmapped).resolve_left fun ⟨ret, hret⟩ => hexit ret hret)
  exact hbase.doExit (final_libBroke_brok s.log)

theorem Base.libBrk (h : Base s) (t : BrkType) {last : Bool}
    (hlog : Pending ret last (.exited 0) s.log) : Inv cfg (libBrk t s) := by
  apply (h.libBroke t).doExit
  cases t with
  | brok => exact final_libBroke_brok s.log
  | conf => exact hlog.final_libBroke_conf

theorem Inv.libRes (h : Inv cfg s) (t : TType) : Inv cfg (libRes t s) := by
  unfold TstTest.libRes
  split
  · exact h.report t
  · exact h.note rfl (fun _ => nofun) fun _ => rfl

/-- The end of a turn, with the status of its last test process. -/
theorem Base.endVariant (h : Base s) {code : Status} (v : ℕ)
    (hlog : Pending ret true (.exited code) s.log) : Inv cfg (endVariant v (ret ||| code) s) := by
  have hvalues := hlog.values
  unfold TstTest.endVariant
  rcases hlog.usual with _ | ⟨t⟩ | _
  · have hret : ret ||| 0 = ret := BitVec.or_zero
    rw [hret, if_neg (by rcases hvalues with rfl | rfl <;> decide)]
    exact h.goto hlog
  · cases t with
    | brok =>
        have hexit : (ret ||| BrkType.brok.code) &&& ~~~TType.conf.code ≠ 0 := by
          rcases hvalues with rfl | rfl <;> decide
        rw [if_pos hexit]
        exact h.doExit (hlog.final_broken hvalues)
    | conf =>
        have hret : ret ||| BrkType.conf.code = TType.conf.code := by
          rcases hvalues with rfl | rfl <;> decide
        rw [hret, if_neg (by decide)]
        exact h.goto (hlog.skipped true)

theorem Base.startVariant (h : Base s) (v : ℕ) (hlog : Pending ret true (.exited 0) s.log) :
    Inv cfg (startVariant cfg v ret s) := by
  unfold TstTest.startVariant
  split
  · split
    · exact h.goto hlog
    · exact h.libBrk .conf hlog
    · exact h.goto hlog
  · exact h.doExit hlog.final

theorem Base.forkTest (h : Base s) (t : Turn) (hlog : Pending t.ret true (.exited 0) s.log) :
    Inv cfg (forkTest cfg t s) := by
  have hnew : (TstTest.forkTest cfg t s).testAt s.procs.length = some (t.last cfg, .running) := by
    simp [System.testAt, TstTest.forkTest, Proc.test, Life.vital]
  have hold : ∀ j, j ≠ s.procs.length → (TstTest.forkTest cfg t s).testAt j = s.testAt j := by
    intro j hj
    rw [System.testAt, System.testAt, TstTest.forkTest, List.getElem?_append]
    by_cases hlt : j < s.procs.length
    · rw [if_pos hlt]
    · rw [if_neg hlt, List.getElem?_eq_none (by simp; omega), List.getElem?_eq_none (by omega)]
  refine ⟨h.counts, fun hmapped => Or.inr (h.unread hmapped), fun p last v hv hlive => ?_, ?_⟩
  · by_cases hp : p = s.procs.length
    · exact Or.inl ⟨t, congrArg (Lib.waiting t) hp.symm⟩
    · rw [hold p hp] at hv
      exact Or.inr (h.idle p last v hv hlive)
  · exact ⟨.running, hnew, by rintro ⟨⟩,
      hlog.returned not_broken_exited_zero (fun hconf => absurd hconf.2 (by decide)) _⟩

theorem Inv.waitTest (h : Inv cfg s) {t : Turn} {p : ℕ} (hlib : s.lib = .waiting t p) :
    Inv cfg (waitTest t p s) := by
  have hwait := h.lib
  rw [hlib] at hwait
  obtain ⟨v, hv, -, hlog⟩ := hwait
  unfold TstTest.waitTest
  split
  · next last e hend =>
      rw [hv] at hend
      cases hend
      have hbase : Base (s.collect p) := by
        refine ⟨h.counts, fun hmapped => ?_, fun j last v' hv' hlive => ?_⟩
        · refine (h.unread hmapped).resolve_left ?_
          rintro ⟨ret, hret⟩
          rw [hlib] at hret
          cases hret
        · rw [System.collect, System.testAt_setLife] at hv'
          obtain ⟨⟨last', v''⟩, hold, hnew⟩ := Option.map_eq_some_iff.mp hv'
          by_cases hpj : p = j
          · rw [if_pos hpj] at hnew
            cases hnew
            exact absurd rfl hlive
          · rw [if_neg hpj] at hnew
            cases hnew
            refine (h.tests j last v' hold hlive).resolve_left ?_
            rintro ⟨t', ht'⟩
            rw [hlib] at ht'
            cases ht'
            exact hpj rfl
      exact hbase.goto hlog
  · exact h

theorem Base.testReturned (h : Base s) {t : Turn} {e : End} (hinv : Inv cfg s)
    (hlib : s.lib = .returned t e) (hlog : Pending t.ret (t.last cfg) e s.log) :
    Inv cfg (testReturned t e s) := by
  unfold TstTest.testReturned
  split
  · next code =>
      split
      · next hfs =>
          rw [show t.last cfg = true by rw [Turn.last, hfs]] at hlog
          exact h.endVariant t.variant hlog
      · exact h.goto hlog
  · have hexit : ∀ ret, s.lib ≠ .exited ret := by
      rw [hlib]
      exact fun _ => nofun
    split
    · exact (hinv.report .info).libBrk_brok hexit
    · exact hinv.libBrk_brok hexit

theorem Base.report (h : Base s) (t : TType) : Base (s.report t) where
  counts := counts_report h.counts t
  unread hmapped := unread_cons (n := .reported true t) (fun _ => nofun) (h.unread hmapped)
  idle p last v hv hlive := List.mem_cons_of_mem _ (h.idle p last v hv hlive)

theorem Base.nextFilesystem (h : Base s) (t : Turn) {r : Status}
    (hlog : Pending t.ret (t.last cfg) (.exited r) s.log) (hbroken : ¬ (End.exited r).Broken) :
    Inv cfg (nextFilesystem cfg t r s) := by
  unfold TstTest.nextFilesystem
  split
  · next hlast =>
      rw [hlast] at hlog
      exact h.endVariant t.variant hlog
  · next hlast => exact h.goto (hlog.returned hbroken (fun hconf => hlast hconf.1) true)

theorem Base.filesystemReturned (h : Base s) (t : Turn) {r : Status}
    (hlog : Pending t.ret (t.last cfg) (.exited r) s.log) :
    Inv cfg (filesystemReturned cfg t r s) := by
  unfold TstTest.filesystemReturned
  split
  · next hconf =>
      subst hconf
      exact (h.report .conf).nextFilesystem t (hlog.aside rfl) not_broken_confEnd
  · next hconf =>
      split
      · next hzero =>
          subst hzero
          exact h.nextFilesystem t hlog not_broken_exited_zero
      · next hzero =>
          rcases hlog.usual with _ | ⟨brk⟩ | _
          · exact absurd rfl hzero
          · cases brk with
            | brok => exact h.doExit (hlog.final_broken (Or.inl rfl))
            | conf => exact absurd rfl hconf

theorem Base.read (h : Base s) (hmapped : s.mapped = true) (r : Read) :
    Base (s.note (.read r)) where
  counts c := by
    rw [System.note, counted_cons]
    exact h.counts c
  unread hunmapped := absurd (hmapped.symm.trans hunmapped) (by decide)
  idle p last v hv hlive := List.mem_cons_of_mem _ (h.idle p last v hv hlive)

/-- `ret` before a read does not depend on it. -/
theorem statusBefore_read (ret : Status) (r : Read) (log : List Note) :
    statusBefore ret (readNonzero log) r = statusBefore ret (readNonzero (.read r :: log)) r := by
  have hother : ∀ r', r ≠ r' → readNonzero (.read r :: log) r' = readNonzero log r' :=
    fun r' hne => readNonzero_read_of_ne hne
  cases r with
  | passedFirst => rfl
  | failed => simp only [statusBefore, hother .passedFirst nofun]
  | skipped | passedAgain =>
      simp only [statusBefore, hother .passedFirst nofun, hother .failed nofun]
  | warnings =>
      simp only [statusBefore, hother .passedFirst nofun, hother .failed nofun,
        hother .skipped nofun, hother .passedAgain nofun]

/-- A read in `do_exit`. -/
theorem Base.readCounter (h : Base s) {r : Read}
    (hlib : LibInv cfg s.mapped s.testAt s.log (.exiting ret r)) :
    Inv cfg (readCounter ret r s) := by
  obtain ⟨hmapped, hagain, ret', hfinal, rfl⟩ := hlib
  have hbase := h.read hmapped r
  have hfinal' : Final ret' (.read r :: s.log) := hfinal.aside rfl
  have hread : readNonzero (.read r :: s.log) r = true ↔ ¬ s.results r.counter = 0 :=
    readNonzero_read (h.counts r.counter)
  rw [statusBefore_read]
  cases r with
  | passedFirst =>
      refine hbase.goto ⟨hmapped, nofun, ret', hfinal', ?_⟩
      exact if_congr (and_congr_left' hread.symm) rfl rfl
  | failed =>
      refine hbase.goto ⟨hmapped, nofun, ret', hfinal', ?_⟩
      rw [← ite_not]
      exact if_congr hread.symm rfl rfl
  | skipped =>
      refine hbase.goto ⟨hmapped, fun hnext => hread.mpr fun hzero => ?_, ret', hfinal', ?_⟩
      · rw [if_pos hzero] at hnext
        cases hnext
      · by_cases hzero : s.results Read.skipped.counter = 0
        · rw [if_pos hzero]
          exact (if_neg fun hboth => hread.mp hboth.1 hzero).symm
        · rw [if_neg hzero]
          rfl
  | passedAgain =>
      have hskipped : readNonzero (.read .passedAgain :: s.log) .skipped = true :=
        (readNonzero_read_of_ne (by decide)).trans (hagain rfl)
      refine hbase.goto ⟨hmapped, nofun, ret', hfinal', ?_⟩
      refine if_congr ?_ rfl rfl
      exact ⟨fun hzero => ⟨hskipped, fun hagain => hread.mp hagain hzero⟩,
        fun hboth => by_contra fun hzero => hboth.2 (hread.mpr hzero)⟩
  | warnings =>
      refine hbase.goto ⟨ret', hfinal', ?_⟩
      rw [← ite_not]
      exact if_congr hread.symm rfl rfl

/-- `tst_res` changes nothing but the results and the notes. -/
theorem Inv.libStep_res (h : Inv cfg s) (t : TType) : Inv cfg (libStep cfg (.res t) s) := by
  have hres := h.libRes t
  unfold TstTest.libStep
  cases s.lib with
  | setup | ready | variant | forking | unmounting | cleaning => exact hres
  | waiting | returned | exiting | exited => exact h

theorem Inv.libStep_help (h : Inv cfg s) : Inv cfg (libStep cfg .help s) := by
  have hlog := h.lib
  unfold TstTest.libStep
  cases hlib : s.lib with
  | setup =>
      rw [hlib] at hlog
      have hbase := h.base (by rw [hlib]; rfl)
      refine hbase.goto ⟨0, hlog.2.final, ?_⟩
      rw [readNonzero_of_unread (hbase.unread hlog.1), exitStatus_unread]
  | ready | variant | forking | waiting | returned | unmounting | exiting | cleaning | exited =>
      exact h

theorem Inv.libStep_brk (h : Inv cfg s) (t : BrkType) : Inv cfg (libStep cfg (.brk t) s) := by
  have hlog := h.lib
  unfold TstTest.libStep
  cases hlib : s.lib with
  | setup =>
      rw [hlib] at hlog
      exact (h.base (by rw [hlib]; rfl)).libBrk t hlog.2
  | ready | variant | forking =>
      rw [hlib] at hlog
      exact (h.base (by rw [hlib]; rfl)).libBrk t hlog
  | waiting | returned | cleaning =>
      cases t with
      | brok => exact h.libBrk_brok (by rw [hlib]; exact fun _ => nofun)
      | conf => exact h
  | unmounting | exiting | exited => exact h

/-- `setup_ipc`: the counters are mapped. -/
theorem Base.setupIpc (h : Base s) (hlog : Pending 0 true (.exited 0) s.log) :
    Inv cfg { s with mapped := true, lib := .ready } where
  counts := h.counts
  unread := nofun
  tests p last v hv hlive := Or.inr (h.idle p last v hv hlive)
  lib := hlog

theorem Base.exit (h : Base s) (hlib : LibInv cfg s.mapped s.testAt s.log (.cleaning ret)) :
    Inv cfg { s with mapped := false, lib := .exited ret } where
  counts := h.counts
  unread _ := Or.inl ⟨ret, rfl⟩
  tests p last v hv hlive := Or.inr (h.idle p last v hv hlive)
  lib := hlib

theorem Inv.libStep_next (h : Inv cfg s) : Inv cfg (libStep cfg .next s) := by
  have hlog := h.lib
  have hbase := h.base
  unfold TstTest.libStep
  cases hlib : s.lib with
  | setup =>
      rw [hlib] at hlog hbase
      exact (hbase rfl).setupIpc hlog.2
  | ready =>
      rw [hlib] at hlog hbase
      exact (hbase rfl).goto hlog
  | variant v ret =>
      rw [hlib] at hlog hbase
      exact (hbase rfl).startVariant v hlog
  | forking t =>
      rw [hlib] at hlog hbase
      exact (hbase rfl).forkTest t hlog
  | waiting t p => exact h.waitTest hlib
  | returned t e =>
      rw [hlib] at hlog hbase
      exact (hbase rfl).testReturned h hlib hlog
  | unmounting t r =>
      rw [hlib] at hlog hbase
      exact (hbase rfl).filesystemReturned t hlog
  | exiting ret r =>
      rw [hlib] at hlog hbase
      exact (hbase rfl).readCounter hlog
  | cleaning ret =>
      rw [hlib] at hlog hbase
      exact (hbase rfl).exit hlog
  | exited ret => exact h

/-- Every step keeps the invariant. -/
theorem Inv.step (h : Inv cfg s) (a : Action) : Inv cfg (step cfg a s) := by
  cases a with
  | lib a =>
      cases a with
      | res t => exact h.libStep_res t
      | brk t => exact h.libStep_brk t
      | next => exact h.libStep_next
      | help => exact h.libStep_help
  | proc p a => exact (kept_inv cfg).procStep p a h

/-- The invariant holds in every run. -/
theorem inv_of_runs (h : Runs cfg s) : Inv cfg s :=
  h.invariant (inv_init cfg) fun _ a hs => hs.step a

end LibraryProcess

end EDDTs.TstTest
