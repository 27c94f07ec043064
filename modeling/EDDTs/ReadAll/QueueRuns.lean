import EDDTs.ReadAll.QueueInvariant

/-!
# What the worker receives

In every interleaving of the producer and the worker the strings that were popped are the first
ones of those that were pushed, and the ring holds the others. A call of `queue_push` returns,
and after the stop code the worker receives what is left and ends.
-/

namespace EDDTs.ReadAll

open Library Interleaving

/-- The strings that were pushed and not yet popped. -/
def System.pending (s : System) : List (List UInt8) := s.pushed.drop s.popped.length

section Invariant

variable {s : System} {pending : List (List UInt8)}

theorem Inv.pending_eq (h : Inv s pending) : s.pending = pending := by
  rw [System.pending, h.history, List.drop_left]

theorem Inv.contents_eq (h : Inv s pending) :
    s.queue.contents = encode (pending ++ s.producer.published) :=
  h.ring.contents_eq

theorem inv_exec (h : Inv s pending) (acts : List Act) :
    ∃ rest, Inv (exec step s acts) rest := by
  apply @exec_invariant _ _ step s acts (fun _ => True) (fun t => ∃ rest, Inv t rest)
  · exact fun _ _ => trivial
  · exact ⟨pending, h⟩
  · exact fun _ a _ ⟨_, ht⟩ => inv_step ht a

/-- The stop code is the last string that is pushed. -/
theorem Inv.pushed_of_stopped {more : List (List UInt8)} (h : Inv s ([] :: more)) :
    s.producer = .done ∧ more = [] := by
  have hmem : [] ∈ s.pushed := by
    rw [h.history]
    simp
  by_cases hdone : s.producer = .done
  · refine ⟨hdone, ?_⟩
    have hfinishes := h.finishes
    rw [hdone] at hfinishes
    obtain ⟨bufs, hpushed, hnone⟩ := hfinishes
    rw [h.history] at hpushed
    rcases List.eq_nil_or_concat more with hnil | ⟨init, last, rfl⟩
    · exact hnil
    · -- then the first empty string would not be the last one
      rw [List.concat_eq_append, ← List.cons_append, ← List.append_assoc] at hpushed
      have hbufs := (List.append_inj' hpushed rfl).1
      exact absurd (by rw [← hbufs]; simp) hnone
  · exact absurd hmem ((Producer.finishes_iff hdone).mp h.finishes)

/-- After the stop code something is pending until the worker has stopped. -/
theorem Inv.pending_ne_nil (h : Inv s pending) (hdone : s.producer = .done) : pending ≠ [] := by
  rintro rfl
  have hfinishes := h.finishes
  rw [hdone] at hfinishes
  obtain ⟨bufs, hpushed, -⟩ := hfinishes
  rw [h.history, List.append_nil] at hpushed
  exact h.unstopped (by rw [hpushed]; simp)

end Invariant

/-! ### Calls that are refused -/

theorem popped_step (a : Act) (s : System) : s.popped <+: (step a s).popped := by
  cases a with
  | call path | stop =>
      simp only [step, System.call]
      split <;> exact List.prefix_refl _
  | push =>
      simp only [step, System.push]
      split <;> (try split_ifs) <;> exact List.prefix_refl _
  | pop =>
      simp only [step, System.pop]
      split <;> (try split_ifs) <;> first | exact List.prefix_append _ _ | exact List.prefix_refl _

theorem popped_exec (s : System) (acts : List Act) : s.popped <+: (exec step s acts).popped := by
  apply @exec_invariant _ _ step s acts (fun _ => True) (fun t => s.popped <+: t.popped)
  · exact fun _ _ => trivial
  · exact List.prefix_refl _
  · exact fun t a _ ht => ht.trans (popped_step a t)

variable {s : System} {pending : List (List UInt8)}

/-- A call that returned 0 leaves what is pending, up to what the worker has taken meanwhile. -/
theorem refused_contents (h : Inv s pending) (hidle : s.producer = .idle) {acts : List Act}
    {buf : List UInt8} (hidle' : (exec step s acts).producer = .idle)
    (hcalls : (exec step s acts).calls = s.calls ++ [(buf, false)]) :
    ∃ taken, (exec step s acts).popped = s.popped ++ taken ∧
      s.queue.contents = encode taken ++ (exec step s acts).queue.contents := by
  obtain ⟨taken, htaken⟩ := popped_exec s acts
  obtain ⟨rest, hrest⟩ := inv_exec h acts
  have hpushed : (exec step s acts).pushed = s.pushed := by
    simp [System.pushed, hcalls]
  rw [h.history, hrest.history, ← htaken, List.append_assoc] at hpushed
  refine ⟨taken, htaken.symm, ?_⟩
  rw [h.contents_eq, hrest.contents_eq, hidle, hidle', ← List.append_cancel_left hpushed]
  simp only [Producer.published, List.append_nil, encode_append]

/-! ### The end -/

/-- The steps in which the worker receives a string. -/
def cost (bufs : List (List UInt8)) : ℕ := (bufs.map fun buf => 2 * buf.length + 5).sum

@[simp] theorem cost_cons (buf : List UInt8) (rest : List (List UInt8)) :
    cost (buf :: rest) = 2 * buf.length + 5 + cost rest := by
  simp [cost]

/-- The steps that the worker has made for the string that it is receiving. -/
def Consumer.progress : Consumer → ℕ
  | .idle => 0
  | .waiting _ => 1
  | .testing _ => 2
  | .looping _ buf => 2 * buf.length + 3
  | .copying _ buf => 2 * buf.length + 4
  | .releasing _ buf => 2 * buf.length + 4
  | .stopped => 3
  | .broken => 0

theorem Consumer.Follows.progress_lt {front : ℕ} {c : Consumer} (h : c.Follows front pending)
    (hne : pending ≠ []) : c.progress < cost pending := by
  obtain ⟨buf, more, rfl⟩ := List.exists_cons_of_ne_nil hne
  rw [cost_cons]
  cases c with
  | idle | waiting i | testing i | stopped =>
      simp only [Consumer.progress]
      omega
  | looping i part =>
      obtain ⟨rest, others, heq, -, -⟩ := h
      obtain ⟨rfl, rfl⟩ := List.cons.inj heq
      rw [Consumer.progress, List.length_append]
      omega
  | copying i part =>
      obtain ⟨c, rest, others, heq, -⟩ := h
      obtain ⟨rfl, rfl⟩ := List.cons.inj heq
      rw [Consumer.progress, List.length_append]
      omega
  | releasing i part =>
      obtain ⟨others, heq, -, -⟩ := h
      obtain ⟨rfl, rfl⟩ := List.cons.inj heq
      rw [Consumer.progress]
      omega
  | broken => exact h.elim

def System.rank (s : System) : ℕ := cost s.pending - s.consumer.progress

/-- A step of the worker within a string. -/
theorem System.progress_pop (hwaits : ∀ i, s.consumer = .waiting i → s.queue.sem ≠ 0)
    (hreleases : ∀ i buf, s.consumer ≠ .releasing i buf) :
    s.pop.consumer = .stopped ∨ s.pop.consumer = .broken ∨
      s.pop.consumer.progress = s.consumer.progress + 1 := by
  cases hat : s.consumer with
  | idle =>
      rw [System.pop_idle hat]
      exact Or.inr (Or.inr rfl)
  | waiting i =>
      rw [System.pop_waiting hat (hwaits i hat)]
      exact Or.inr (Or.inr rfl)
  | testing i =>
      rw [System.pop_testing hat]
      by_cases hzero : s.queue.data i = 0
      · exact Or.inl (if_pos hzero)
      · exact Or.inr (Or.inr (by rw [if_neg hzero]; rfl))
  | looping i buf =>
      rw [System.pop_looping hat]
      refine Or.inr (Or.inr ?_)
      split_ifs <;> rfl
  | copying i buf =>
      rw [System.pop_copying hat]
      split_ifs with hlong
      · exact Or.inr (Or.inl rfl)
      · refine Or.inr (Or.inr ?_)
        simp only [Consumer.progress, List.length_append, List.length_singleton]
        omega
  | releasing i buf => exact absurd hat (hreleases i buf)
  | stopped =>
      rw [System.pop_rest (Or.inl hat)]
      exact Or.inl hat
  | broken =>
      rw [System.pop_rest (Or.inr hat)]
      exact Or.inr (Or.inl hat)

/-- A step brings a worker that has not stopped nearer to its end. -/
theorem rank_pop (h : Inv s pending) (hne : pending ≠ []) (hgoing : s.pop.consumer ≠ .stopped) :
    s.pop.rank + 1 ≤ s.rank := by
  by_cases hreleases : ∃ i buf, s.consumer = .releasing i buf
  · obtain ⟨i, buf, hat⟩ := hreleases
    obtain ⟨more, rfl, hmore⟩ := h.pop_releasing hat
    have hidle : s.pop.consumer = .idle := by rw [System.pop_releasing hat]
    rw [System.rank, System.rank, hmore.pending_eq, h.pending_eq, hidle, hat, cost_cons]
    simp only [Consumer.progress]
    omega
  · have hnot : ∀ i buf, s.consumer ≠ .releasing i buf := fun i buf hat =>
      hreleases ⟨i, buf, hat⟩
    have hwaits : ∀ i, s.consumer = .waiting i → s.queue.sem ≠ 0 := by
      intro i hat hsem
      have hcounted := h.counted
      rw [hat, hsem] at hcounted
      exact hne (List.length_eq_zero_iff.mp hcounted.symm)
    have hpop : Inv s.pop pending := h.pop_of_not_releasing hnot
    have hlt := h.consumer.progress_lt hne
    rcases System.progress_pop hwaits hnot with hstopped | hbroken | hprogress
    · exact absurd hstopped hgoing
    · have hfollows := hpop.consumer
      rw [hbroken] at hfollows
      exact hfollows.elim
    · rw [System.rank, System.rank, hpop.pending_eq, h.pending_eq, hprogress]
      omega

def Act.isPop : Act → Bool
  | .pop => true
  | _ => false

def Act.isPush : Act → Bool
  | .push => true
  | _ => false

theorem producer_pop (s : System) : s.pop.producer = s.producer := by
  unfold System.pop
  split <;> (try split_ifs) <;> rfl

/-- After the stop code only the worker moves. -/
theorem step_of_done (hdone : s.producer = .done) (a : Act) :
    step a s = if a.isPop = true then s.pop else s := by
  cases a with
  | call path | stop => simp only [step, System.call, hdone]; rfl
  | push => exact System.push_rest (Or.inr hdone)
  | pop => rfl

/-- It stops. -/
theorem stopped_of_done (h : Inv s pending) (hdone : s.producer = .done) {acts : List Act}
    (hmany : s.rank < acts.countP Act.isPop) : (exec step s acts).consumer = .stopped := by
  refine @exec_goal_of_rank _ _ step _ _ (fun _ _ => True) (fun _ => True) Act.isPop
    (fun t => (∃ rest, Inv t rest) ∧ t.producer = .done) (fun t => t.consumer = .stopped)
    System.rank ?_ (fun _ _ => trivial) ⟨⟨pending, h⟩, hdone⟩
    (allEnabled_of_forall (fun _ _ => trivial) _ _) hmany
  rintro t a - - ⟨⟨rest, ht⟩, hend⟩
  refine ⟨⟨inv_step ht a, ?_⟩, ?_, ?_⟩
  all_goals
    rw [step_of_done hend]
    split_ifs with hpop
  · rwa [producer_pop]
  · exact hend
  · intro hstopped
    rwa [System.pop_rest (Or.inl hstopped)]
  · exact id
  · exact rank_pop ht (ht.pending_ne_nil hend)
  · exact fun _ => Nat.le_refl _

/-! ### The end of a call -/

/-- The string that a call of `queue_push` is storing. -/
def Producer.busy : Producer → Option (List UInt8)
  | .idle | .done => none
  | .entered buf | .located buf _ | .storing buf _ _ _ | .leaving buf _ | .posting buf => some buf

/-- A step of `queue_push` goes on with the call, or ends it. -/
theorem push_busy (q : System) :
    (q.push.calls = q.calls ∧ q.push.producer.busy = q.producer.busy) ∨
      ∃ buf ret, q.producer.busy = some buf ∧ q.push.calls = q.calls ++ [(buf, ret)] ∧
        q.push.producer.busy = none := by
  cases hat : q.producer with
  | idle | done | entered | located | leaving => simp [System.push, hat, Producer.busy]
  | storing buf j i front =>
      simp only [System.push, hat]
      split_ifs <;> simp [Producer.busy]
  | posting buf =>
      rw [System.push_posting hat]
      exact Or.inr ⟨buf, true, rfl, rfl, by dsimp only; split_ifs <;> rfl⟩

theorem calls_pop (q : System) : q.pop.calls = q.calls := by
  unfold System.pop
  split <;> (try split_ifs) <;> rfl

theorem calls_step (a : Act) (s : System) : s.calls.length ≤ (step a s).calls.length := by
  cases a with
  | call | stop => simp only [step, System.call]; split <;> rfl
  | pop => exact (congrArg List.length (calls_pop s)).ge
  | push => rcases push_busy s with ⟨h, -⟩ | ⟨_, _, -, h, -⟩ <;> simp [step, h]

/-- The steps that a call of `queue_push` has left at most. -/
def Producer.rank : Producer → ℕ
  | .idle | .done => 0
  | .entered buf => buf.length + 5
  | .located buf _ => buf.length + 4
  | .storing buf j _ _ => buf.length - j + 3
  | .leaving _ _ => 2
  | .posting _ => 1

/-- A step brings the call nearer to its end. -/
theorem rank_push (hbusy : s.producer.busy ≠ none) :
    s.push.producer.rank + 1 ≤ s.producer.rank := by
  cases hat : s.producer with
  | idle | done => simp [hat, Producer.busy] at hbusy
  | entered | located | leaving => simp [System.push, hat, Producer.rank]
  | posting buf =>
      rw [System.push_posting hat]
      dsimp only
      split_ifs <;> exact le_rfl
  | storing buf j i front =>
      have hend : buf.getD j 0 ≠ 0 → j < buf.length := fun hne =>
        Nat.lt_of_not_le fun hle => hne (List.getD_eq_default buf 0 hle)
      simp only [System.push, hat]
      split_ifs with hfull hmore <;> simp only [Producer.rank]
      · omega
      · have hlt := hend hmore
        omega
      · omega

/-- It returns, whatever the worker does. -/
theorem call_returns (hbusy : s.producer.busy ≠ none) {acts : List Act}
    (hmany : s.producer.rank < acts.countP Act.isPush) :
    s.calls.length < (exec step s acts).calls.length := by
  refine @exec_goal_of_rank _ _ step _ _ (fun _ _ => True) (fun _ => True) Act.isPush
    (fun t => s.calls.length < t.calls.length ∨ t.calls = s.calls ∧ t.producer.busy ≠ none)
    (fun t => s.calls.length < t.calls.length) (·.producer.rank) ?_ (fun _ _ => trivial)
    (Or.inr ⟨rfl, hbusy⟩) (allEnabled_of_forall (fun _ _ => trivial) _ _) hmany
  rintro t a - - (hgoal | ⟨hsame, hbusy⟩)
  · have hgoal' := hgoal.trans_le (calls_step a t)
    exact ⟨Or.inl hgoal', fun _ => hgoal', fun h => absurd hgoal' h⟩
  suffices h : s.calls.length < (step a t).calls.length ∨
      ((step a t).calls = s.calls ∧ (step a t).producer.busy ≠ none) ∧
        (step a t).producer.rank + (if a.isPush then 1 else 0) ≤ t.producer.rank from
    ⟨h.imp_right And.left, fun h' => absurd (hsame ▸ h') (lt_irrefl _),
      fun h' => (h.resolve_left h').2⟩
  cases a with
  | push =>
      rcases push_busy t with ⟨hcalls, hgoing⟩ | ⟨buf, ret, -, hcalls, -⟩
      · exact Or.inr ⟨⟨hcalls.trans hsame, hgoing ▸ hbusy⟩, rank_push hbusy⟩
      · exact Or.inl (by simp [step, hcalls, hsame])
  | pop => exact Or.inr (by simpa [step, producer_pop, calls_pop, Act.isPush, hsame] using hbusy)
  | call | stop =>
      have hidle : t.producer ≠ .idle := fun h => hbusy (by rw [h]; rfl)
      exact Or.inr (by simpa [step, System.call, Act.isPush, hidle, hsame] using hbusy)

/-! ### The whole -/

/-- What a producer and a worker can rely on in a state of the system. -/
structure Delivers (s : System) : Prop where
  /-- The strings that were popped are the first of those that were pushed, and the ring holds
  the others. -/
  inOrder : s.pushed = s.popped ++ s.pending ∧
    s.queue.contents = encode (s.pending ++ s.producer.published)
  /-- No string is too long for the buffer of the worker. -/
  unbroken : s.consumer ≠ .broken
  /-- A call that returns 0 leaves what is pending, up to what the worker takes meanwhile. -/
  refused : ∀ acts buf, s.producer = .idle → (exec step s acts).producer = .idle →
    (exec step s acts).calls = s.calls ++ [(buf, false)] →
      ∃ taken, (exec step s acts).popped = s.popped ++ taken ∧
        s.queue.contents = encode taken ++ (exec step s acts).queue.contents
  /-- A call returns, whatever the worker does. -/
  returns : ∀ acts, s.producer.busy ≠ none → s.producer.rank < acts.countP Act.isPush →
    s.calls.length < (exec step s acts).calls.length
  /-- A worker has stopped only after it received everything before the stop code. -/
  stops : s.consumer = .stopped → s.pushed = s.popped ++ [[]]
  /-- After the stop code the worker gets there. -/
  finishes : [] ∈ s.pushed → ∀ acts, cost s.pending < acts.countP Act.isPop →
    (exec step s acts).consumer = .stopped

theorem Inv.delivers (h : Inv s pending) : Delivers s := by
  have hpending := h.pending_eq
  constructor
  · rw [hpending]
    exact ⟨h.history, h.contents_eq⟩
  · intro hbroken
    have hfollows := h.consumer
    rw [hbroken] at hfollows
    exact hfollows
  · exact fun acts buf hidle hidle' hcalls => refused_contents h hidle hidle' hcalls
  · exact fun acts hbusy hmany => call_returns hbusy hmany
  · intro hstopped
    have hfollows := h.consumer
    rw [hstopped] at hfollows
    obtain ⟨more, rfl⟩ := hfollows
    obtain ⟨-, rfl⟩ := h.pushed_of_stopped
    exact h.history
  · intro hmem acts hmany
    have hdone : s.producer = .done := by
      by_contra hnot
      exact (Producer.finishes_iff hnot).mp h.finishes hmem
    exact stopped_of_done h hdone (lt_of_le_of_lt (Nat.sub_le _ _) hmany)

/-- The queue delivers in every interleaving of the producer and the worker. -/
theorem exec_delivers (acts : List Act) : Delivers (exec step {} acts) := by
  obtain ⟨pending, h⟩ := inv_exec inv_init acts
  exact h.delivers

/-- A path and the stop code are pushed, and the worker receives the path and stops. -/
theorem exec_delivers_path :
    let s := exec step {} (.call ⟨[0x61], by decide, by decide, by decide⟩ ::
      List.replicate 6 .push ++ .stop :: List.replicate 5 .push ++ List.replicate 11 .pop)
    s.calls = [([0x61], true), ([], true)] ∧ s.popped = [[0x61]] ∧ s.consumer = .stopped ∧
      Delivers s :=
  ⟨by decide, by decide, by decide, exec_delivers _⟩

end EDDTs.ReadAll
