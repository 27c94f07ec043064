import EDDTs.ReadAll.QueueRuns
import Mathlib.Data.List.Perm.Basic

/-!
# The main process of `read_all` and its workers

Every file is scheduled for reading `reads` times, each time by a call of `work_push_retry`,
which offers the path to one queue after the other until one of them takes it. Then each worker
is sent the stop code. The steps of the main process and those of the workers are interleaved in
any order.
-/

namespace EDDTs.ReadAll

open Library Interleaving

open scoped List

/-- A call `work_push_retry(worker, buf)` with a path, or with the stop code. -/
structure Job where
  worker : ℤ
  path : Option Path

namespace Job

def buf (job : Job) : List UInt8 := (job.path.map Path.bytes).getD []

/-- `worker_min` -/
def workerMin (job : Job) : ℕ :=
  if job.worker < 0 then (job.worker * -1).toNat else job.worker.toNat

/-- `worker_max` -/
def workerMax (workerCount : ℕ) (job : Job) : ℕ :=
  if job.worker < 0 then workerCount else job.worker.toNat + 1

/-- The workers whose queues are tried. -/
def Tries (workerCount : ℕ) (job : Job) (i : ℕ) : Prop :=
  job.workerMin ≤ i ∧ i < job.workerMax workerCount

end Job

/-- The loop of `rep_sched_work`, with the repetitions that are left. -/
def repSchedFrom (workerCount : ℕ) (path : Path) : ℕ → ℕ → List Job
  | 0, _ => []
  | left + 1, j =>
      let j := if j ≥ workerCount then 0 else j
      ⟨-(j : ℤ), some path⟩ :: repSchedFrom workerCount path left (j + 1)

/-- `rep_sched_work` -/
def repSchedWork (workerCount rep : ℕ) (path : Path) : List Job :=
  repSchedFrom workerCount path rep 0

/-- `stop_workers` -/
def stopWorkers (workerCount : ℕ) : List Job :=
  (List.range workerCount).map fun i : ℕ => ⟨(i : ℤ), none⟩

/-- The calls of a `run` in which `visit_dir` finds the given files. -/
def schedule (workerCount reads : ℕ) (files : List Path) : List Job :=
  files.flatMap (repSchedWork workerCount reads) ++ stopWorkers workerCount

/-- The queues with their users, the calls that have not returned, the worker that the first of
them is trying, and the calls that have returned, with the worker whose queue took the string. -/
structure Pool where
  workers : ℕ → System := fun _ => {}
  jobs : List Job
  trying : Option ℕ := none
  taken : List (ℕ × Job) := []

/-- The strings that the queue of a worker took. -/
def Pool.got (s : Pool) (i : ℕ) : List (List UInt8) :=
  (s.taken.filter (·.1 = i)).map (·.2.buf)

/-- `queue_push` is called, or makes a step. -/
def System.offer (buf : List UInt8) (q : System) : System :=
  if q.producer = .idle then q.call buf else q.push

/-- A step of the main process, in `work_push_retry`. -/
def Pool.workPushRetry (workerCount : ℕ) (s : Pool) : Pool :=
  match s.jobs with
  | [] => s
  | job :: jobs =>
      let i := s.trying.getD job.workerMin
      let q := (s.workers i).offer job.buf
      let s' := { s with workers := Function.update s.workers i q, trying := some i }
      -- what `queue_push` returns, once it does
      match q.calls[(s.workers i).calls.length]? with
      | none => s'
      | some (_, true) => { s' with jobs := jobs, trying := none, taken := s.taken ++ [(i, job)] }
      | some (_, false) =>
          { s' with trying := some (if i + 1 ≥ job.workerMax workerCount then job.workerMin
              else i + 1) }

/-- Who makes a step: the main process, or a worker. -/
inductive PoolAct
  | main
  | worker (i : ℕ)

def poolStep (workerCount : ℕ) : PoolAct → Pool → Pool
  | .main, s => s.workPushRetry workerCount
  | .worker i, s => { s with workers := Function.update s.workers i (s.workers i).pop }

/-! ### One queue -/

theorem inv_offer {q : System} {pending : List (List UInt8)} (h : Inv q pending) (job : Job)
    (hbusy : ∀ buf ∈ q.producer.busy, job.buf = buf) :
    (∃ rest, Inv (q.offer job.buf) rest) ∧
      (((q.offer job.buf).calls = q.calls ∧
          ∀ buf ∈ (q.offer job.buf).producer.busy, job.buf = buf) ∨
        ∃ ret, (q.offer job.buf).calls = q.calls ++ [(job.buf, ret)] ∧
          (q.offer job.buf).producer.busy = none) := by
  unfold System.offer
  split_ifs with hidle
  · have hpushable : Pushable job.buf := by
      cases hpath : job.path with
      | none => simpa [Job.buf, hpath] using pushable_nil
      | some path => simpa [Job.buf, hpath] using path.pushable
    refine ⟨⟨pending, h.call hpushable⟩, Or.inl ?_⟩
    simp [System.call, hidle, Producer.busy]
  · refine ⟨inv_step h .push, ?_⟩
    obtain ⟨hcalls, hsame⟩ | ⟨buf, ret, hbuf, hcalls, hnone⟩ := push_busy q
    · exact Or.inl ⟨hcalls, hsame ▸ hbusy⟩
    · exact Or.inr ⟨ret, hbusy buf hbuf ▸ hcalls, hnone⟩

/-! ### The invariant -/

/-- The queue of a worker holds what its calls have left there, and a call that is at work there
is the first of those that have not returned. -/
structure WorkerInv (s : Pool) (i : ℕ) (q : System) : Prop where
  inv : ∃ pending, Inv q pending
  pushed : q.pushed = s.got i
  busy : ∀ buf ∈ q.producer.busy, s.trying = some i ∧ ∃ job ∈ s.jobs.head?, job.buf = buf

/-- Every call has returned or not, and those that have returned tried the queue that took the
string. -/
structure PoolInv (n : ℕ) (all : List Job) (s : Pool) : Prop where
  jobs : s.taken.map (·.2) ++ s.jobs = all
  tries : ∀ x ∈ s.taken, x.2.Tries n x.1
  trying : ∀ i ∈ s.trying, ∃ job ∈ s.jobs.head?, job.Tries n i
  workers : ∀ i, WorkerInv s i (s.workers i)

section Steps

variable {n : ℕ} {all : List Job} {s : Pool}

theorem PoolInv.worker (h : PoolInv n all s) (i : ℕ) :
    PoolInv n all (poolStep n (.worker i) s) := by
  refine ⟨h.jobs, h.tries, h.trying, Function.forall_update_iff _ _ |>.mpr ⟨?_, ?_⟩⟩
  · obtain ⟨⟨pending, hinv⟩, hpushed, hbusy⟩ := h.workers i
    refine ⟨inv_step hinv .pop, ?_, producer_pop (s.workers i) ▸ hbusy⟩
    rw [System.pushed, calls_pop]
    exact hpushed
  · exact fun k _ => ⟨(h.workers k).inv, (h.workers k).pushed, (h.workers k).busy⟩

theorem PoolInv.workPushRetry (hall : ∀ job ∈ all, job.workerMin < job.workerMax n)
    (h : PoolInv n all s) : PoolInv n all (s.workPushRetry n) := by
  obtain ⟨workers, jobs, trying, taken⟩ := s
  obtain _ | ⟨job, jobs⟩ := jobs
  · exact h
  have hmin : job.Tries n job.workerMin := ⟨le_rfl, hall job (h.jobs ▸ by simp)⟩
  have htries : job.Tries n (trying.getD job.workerMin) := by
    cases htrying : trying with
    | none => exact hmin
    | some i => simpa using h.trying i htrying
  have hat : ∀ k, trying = some k → k = trying.getD job.workerMin := by
    rintro k rfl
    rfl
  simp only [Pool.workPushRetry]
  generalize trying.getD job.workerMin = i at htries hat
  obtain ⟨⟨pending, hinv⟩, hpushed, hbusy⟩ := h.workers i
  -- no other queue is being pushed to
  have hrest : ∀ k ≠ i, (workers k).producer.busy = none := fun k hk =>
    Option.eq_none_iff_forall_not_mem.mpr fun buf hbuf =>
      hk (hat k ((h.workers k).busy buf hbuf).1)
  obtain ⟨hinv', hturn⟩ := inv_offer hinv job fun buf hbuf => by
    simpa using (hbusy buf hbuf).2
  generalize (workers i).offer job.buf = q at hinv' hturn
  obtain ⟨hcalls, hbusy'⟩ | ⟨ret, hcalls, hnone⟩ := hturn
  · rw [hcalls, List.getElem?_length]
    refine ⟨h.jobs, h.tries, ?_, Function.forall_update_iff _ _ |>.mpr ⟨?_, fun k hk => ?_⟩⟩
    · rintro k ⟨⟩
      exact ⟨job, rfl, htries⟩
    · exact ⟨hinv', by rw [System.pushed, hcalls]; exact hpushed,
        fun buf hbuf => ⟨rfl, job, rfl, hbusy' buf hbuf⟩⟩
    · exact ⟨(h.workers k).inv, (h.workers k).pushed, by simp [hrest k hk]⟩
  rw [hcalls, List.getElem?_concat_length]
  cases ret with
  | false =>
      refine ⟨h.jobs, h.tries, ?_, Function.forall_update_iff _ _ |>.mpr ⟨?_, fun k hk => ?_⟩⟩
      · rintro k ⟨⟩
        refine ⟨job, rfl, ?_⟩
        unfold Job.Tries at hmin htries ⊢
        split_ifs <;> omega
      · exact ⟨hinv', by simpa [System.pushed, hcalls, Pool.got] using hpushed, by simp [hnone]⟩
      · exact ⟨(h.workers k).inv, (h.workers k).pushed, by simp [hrest k hk]⟩
  | true =>
      refine ⟨by simpa using h.jobs, ?_, by rintro k ⟨⟩,
        Function.forall_update_iff _ _ |>.mpr ⟨?_, fun k hk => ?_⟩⟩
      · exact List.forall_mem_append.mpr ⟨h.tries, List.forall_mem_singleton.mpr htries⟩
      · refine ⟨hinv', ?_, by simp [hnone]⟩
        simpa [System.pushed, hcalls, Pool.got] using hpushed
      · refine ⟨(h.workers k).inv, ?_, by simp [hrest k hk]⟩
        simpa [Pool.got, hk.symm] using (h.workers k).pushed

end Steps

/-! ### The schedule -/

section Schedule

variable {n : ℕ} (hn : 0 < n) {reads : ℕ} {files : List Path} {job : Job}

theorem buf_schedule (n reads : ℕ) (files : List Path) :
    (schedule n reads files).map Job.buf =
      files.flatMap (fun file => List.replicate reads file.bytes) ++ List.replicate n [] := by
  have hrep : ∀ (file : Path) (left j : ℕ),
      (repSchedFrom n file left j).map Job.buf = List.replicate left file.bytes := by
    intro file left
    induction left with
    | zero => exact fun _ => rfl
    | succ left ih => exact fun _ => congrArg (file.bytes :: ·) (ih _)
  simp only [schedule, List.map_append, List.map_flatMap, repSchedWork, hrep, stopWorkers,
    List.map_map]
  exact congrArg _ (List.map_const' .. |>.trans (by rw [List.length_range]))

include hn

theorem repSchedFrom_eq (path : Path) {left j : ℕ} (hj : j ≤ n) :
    repSchedFrom n path left j =
      (List.range left).map fun k : ℕ => ⟨-((j + k) % n : ℕ), some path⟩ := by
  induction left generalizing j with
  | zero => rfl
  | succ left ih =>
      have hmod : (if j ≥ n then 0 else j) = j % n := by
        split_ifs with hge
        · rw [Nat.le_antisymm hj hge, Nat.mod_self]
        · rw [Nat.mod_eq_of_lt (Nat.not_le.mp hge)]
      rw [repSchedFrom, hmod, ih (Nat.mod_lt j hn), List.range_succ_eq_map, List.map_cons,
        List.map_map]
      refine congrArg _ (List.map_congr_left fun k _ => ?_)
      rw [Nat.succ_add_eq_add_succ, Nat.mod_add_mod]
      rfl

theorem repSchedWork_eq (path : Path) : repSchedWork n reads path =
    (List.range reads).map fun k : ℕ => ⟨-(k % n : ℕ), some path⟩ := by
  simpa [repSchedWork] using repSchedFrom_eq hn path n.zero_le

/-- The calls for the paths, by their positions. -/
theorem getElem_schedule {m : ℕ} (hm : m < files.length * reads) :
    (schedule n reads files)[m]? = some ⟨-(m % reads % n : ℕ), files[m / reads]?⟩ := by
  induction files generalizing m with
  | nil => simp at hm
  | cons file files ih =>
      have hreads : 0 < reads := Nat.pos_of_ne_zero fun h => by simp [h] at hm
      rw [schedule, List.flatMap_cons, List.append_assoc, repSchedWork_eq hn]
      by_cases hfirst : m < reads
      · rw [List.getElem?_append_left (by simpa using hfirst), Nat.mod_eq_of_lt hfirst,
          Nat.div_eq_of_lt hfirst]
        simp [hfirst]
      · have hle := Nat.not_lt.mp hfirst
        rw [List.length_cons, Nat.succ_mul] at hm
        rw [List.getElem?_append_right (by simpa using hle), List.length_map, List.length_range,
          Nat.mod_eq_sub_mod hle, Nat.div_eq_sub_div hreads hle, List.getElem?_cons_succ]
        exact ih (by omega)

theorem tries_schedule (h : job ∈ schedule n reads files) :
    job.workerMin < job.workerMax n ∧ ∀ i, job.Tries n i → i < n := by
  rcases List.mem_append.mp h with h | h
  · obtain ⟨file, -, h⟩ := List.mem_flatMap.mp h
    rw [repSchedWork_eq hn] at h
    obtain ⟨k, -, rfl⟩ := List.mem_map.mp h
    have hlt := Nat.mod_lt k hn
    simp only [Job.Tries, Job.workerMin, Job.workerMax]
    split_ifs <;> exact ⟨by omega, fun i hi => by omega⟩
  · obtain ⟨i, hi, rfl⟩ := List.mem_map.mp h
    have hi := List.mem_range.mp hi
    simp only [Job.Tries, Job.workerMin, Job.workerMax]
    split_ifs <;> exact ⟨by omega, fun j hj => by omega⟩

end Schedule

/-! ### Whole runs -/

/-- The reads that were scheduled are shared out among the workers, none of them twice. -/
structure SharedOut (n reads : ℕ) (files : List Path) (s : Pool) : Prop where
  /-- Each call has gone to one worker, or has not returned. -/
  calls : s.taken.map (·.2.buf) ++ s.jobs.map Job.buf =
    files.flatMap (fun file => List.replicate reads file.bytes) ++ List.replicate n []
  exist : ∀ x ∈ s.taken, x.1 < n
  /-- A worker reads its share in order. -/
  inOrder : ∀ i, (s.workers i).popped <+: s.got i
  /-- It stops only after all of it. -/
  stops : ∀ i, (s.workers i).consumer = .stopped → s.got i = (s.workers i).popped ++ [[]]
  /-- At the end every file has been read as often as it was to be read. -/
  complete : s.jobs = [] → (∀ i < n, (s.workers i).consumer = .stopped) →
    (List.range n).flatMap (fun i => (s.workers i).popped) ~
      files.flatMap fun file => List.replicate reads file.bytes

/-- A list is shared out by the keys of its elements. -/
theorem perm_flatMap_filter {α : Type*} (key : α → ℕ) {n : ℕ} {xs : List α}
    (h : ∀ x ∈ xs, key x < n) : (List.range n).flatMap (fun i => xs.filter (key · = i)) ~ xs := by
  induction n generalizing xs with
  | zero =>
      cases xs with
      | nil => rfl
      | cons x xs => exact absurd (h x List.mem_cons_self) (Nat.not_lt_zero _)
  | succ n ih =>
      have hbelow : ∀ i ∈ List.range n,
          xs.filter (key · = i) = (xs.filter (key · ≠ n)).filter (key · = i) := by
        intro i hi
        rw [List.filter_filter]
        refine List.filter_congr fun x _ => ?_
        grind
      rw [List.range_succ, List.flatMap_append, List.flatMap_congr hbelow, List.flatMap_singleton]
      have hrest : ∀ x ∈ xs.filter (key · ≠ n), key x < n := by grind
      refine ((ih hrest).append_right _).trans (List.perm_append_comm.trans ?_)
      simpa using List.filter_append_perm (key · = n) xs

section Runs

variable {n : ℕ} (hn : 0 < n) (reads : ℕ) (files : List Path) (acts : List PoolAct)

include hn

theorem poolInv_exec : PoolInv n (schedule n reads files)
    (exec (poolStep n) { jobs := schedule n reads files } acts) := by
  apply @exec_invariant _ _ (poolStep n) _ acts (fun _ => True)
  · exact fun _ _ => trivial
  · exact ⟨rfl, by rintro x ⟨⟩, by rintro i ⟨⟩,
      fun i => ⟨⟨[], inv_init⟩, rfl, by rintro buf ⟨⟩⟩⟩
  · intro s a _ h
    cases a with
    | main => exact h.workPushRetry fun job hjob => (tries_schedule hn hjob).1
    | worker i => exact h.worker i

/-- Whatever the order of the steps, no read that was scheduled is lost or made twice. -/
theorem workers_share : SharedOut n reads files
    (exec (poolStep n) { jobs := schedule n reads files } acts) := by
  have h := poolInv_exec hn reads files acts
  generalize exec (poolStep n) { jobs := schedule n reads files } acts = s at h
  have hcalls : s.taken.map (·.2.buf) ++ s.jobs.map Job.buf =
      files.flatMap (fun file => List.replicate reads file.bytes) ++ List.replicate n [] := by
    rw [← buf_schedule, ← h.jobs, List.map_append, List.map_map]
    rfl
  have hexist : ∀ x ∈ s.taken, x.1 < n := by
    intro x hx
    have hmem : x.2 ∈ schedule n reads files :=
      h.jobs ▸ List.mem_append_left _ (List.mem_map_of_mem hx)
    exact (tries_schedule hn hmem).2 x.1 (h.tries x hx)
  have hstops : ∀ i, (s.workers i).consumer = .stopped →
      s.got i = (s.workers i).popped ++ [[]] := by
    intro i hstopped
    obtain ⟨pending, hinv⟩ := (h.workers i).inv
    rw [← (h.workers i).pushed]
    exact hinv.delivers.stops hstopped
  refine ⟨hcalls, hexist, fun i => ?_, hstops, fun hjobs hstopped => ?_⟩
  · obtain ⟨pending, hinv⟩ := (h.workers i).inv
    exact (h.workers i).pushed ▸ hinv.history ▸ List.prefix_append _ _
  · -- each worker has taken its share and one stop code
    have hgot : (List.range n).flatMap (fun i => (s.workers i).popped ++ [[]]) =
        (List.range n).flatMap s.got :=
      List.flatMap_congr fun i hi => (hstops i (hstopped i (List.mem_range.mp hi))).symm
    have hshares := (perm_flatMap_filter Prod.fst hexist).map fun x => x.2.buf
    rw [hjobs, List.map_nil, List.append_nil] at hcalls
    rw [List.map_flatMap, hcalls] at hshares
    have hcodes : (List.range n).flatMap (fun _ => [[]]) = List.replicate n ([] : List UInt8) := by
      rw [← List.map_eq_flatMap, List.map_const', List.length_range]
    refine (List.perm_append_right_iff (List.replicate n [])).mp ?_
    rw [← hcodes] at hshares ⊢
    exact (List.flatMap_append_perm ..).trans (hgot ▸ hshares)

/-- The call for the `k`-th repetition of a file goes to a worker from `k % n` on, whose queue is
the first to take the path, but to the first worker alone, however long its queue is full and the
others are idle, if `k` is a multiple of `n`: `-0` is not negative. -/
theorem path_beyond_first (m : ℕ) (x : ℕ × Job)
    (hx : (exec (poolStep n) { jobs := schedule n reads files } acts).taken[m]? = some x)
    (hm : m < files.length * reads) :
    x.2.path = files[m / reads]? ∧ m % reads % n ≤ x.1 ∧ x.1 < n ∧
      (m % reads % n = 0 → x.1 = 0) := by
  have h := poolInv_exec hn reads files acts
  have hjob : (schedule n reads files)[m]? = some x.2 := by
    have hlength := (List.getElem?_eq_some_iff.mp hx).1
    rw [← h.jobs, List.getElem?_append_left (by simpa using hlength), List.getElem?_map, hx]
    rfl
  have htries := h.tries x (List.mem_of_getElem? hx)
  rw [getElem_schedule hn hm] at hjob
  rw [← Option.some.inj hjob] at htries ⊢
  simp only [Job.Tries, Job.workerMin, Job.workerMax] at htries
  have hlt := Nat.mod_lt (m % reads) hn
  refine ⟨rfl, ?_⟩
  split_ifs at htries <;> exact ⟨by omega, by omega, by omega⟩

end Runs

theorem workers_share_root :
    let root : Path := ⟨[47], by decide, by decide, by decide⟩
    let s := exec (poolStep 1) { jobs := schedule 1 2 [root] }
      (List.replicate 20 .main ++ List.replicate 20 (.worker 0))
    0 < 1 ∧ s.jobs.length = 0 ∧ (s.workers 0).popped = [[47], [47]] ∧ SharedOut 1 2 [root] s :=
  ⟨by decide, by decide +kernel, by decide +kernel, workers_share (by decide) 2 _ _⟩

theorem path_beyond_first_root :
    let root : Path := ⟨[47], by decide, by decide, by decide⟩
    let s := exec (poolStep 2) { jobs := schedule 2 2 [root] } (List.replicate 16 .main)
    0 < 2 ∧ s.taken.map (·.1) = [0, 1] ∧ ∀ m x, s.taken[m]? = some x → m < [root].length * 2 →
      x.2.path = [root][m / 2]? ∧ m % 2 % 2 ≤ x.1 ∧ x.1 < 2 ∧ (m % 2 % 2 = 0 → x.1 = 0) :=
  ⟨by decide, by decide +kernel, path_beyond_first (by decide) 2 _ _⟩

end EDDTs.ReadAll
