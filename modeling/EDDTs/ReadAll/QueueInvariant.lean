import EDDTs.ReadAll.Queue
import Mathlib.Data.List.GetD

/-!
# What the producer and the worker keep true

The ring holds the strings that were pushed and not yet popped. The producer writes only behind
them, up to the front that it has loaded, which the true front may have passed by then. The
worker has taken from the semaphore the string that it is reading.
-/

namespace EDDTs.ReadAll

open Library

/-- A string that the producer passes to `queue_push`. -/
structure Pushable (buf : List UInt8) : Prop where
  nul_free : 0 ∉ buf
  length_le : buf.length ≤ bufferSize - 2

theorem Path.pushable (path : Path) : Pushable path.bytes := ⟨path.nul_free, path.length_le⟩

theorem pushable_nil : Pushable [] := ⟨by simp, by simp⟩

/-! ### The producer -/

/-- The string that already lies in the ring while its call has not returned. -/
def Producer.published : Producer → List (List UInt8)
  | .posting buf => [buf]
  | _ => []

/-- The producer has stored `j` characters behind the contents, which take up `used` cells, and
there are `room` cells before the front that it has loaded. -/
structure Stores (q : Queue) (used : ℕ) (buf : List UInt8) (j i front : ℕ) (room : ℕ) : Prop where
  pushable : Pushable buf
  le : j ≤ buf.length
  index : i = (q.back + j) % queueSize
  stored : Ring.read queueSize q.data q.back j = buf.take j
  lt_room : j < room
  room_le : used + room ≤ queueSize
  front_eq : front = (q.back + room) % queueSize

/-- The producer has stored a whole string behind the contents. -/
structure HasStored (q : Queue) (used : ℕ) (buf : List UInt8) (i : ℕ) : Prop where
  pushable : Pushable buf
  index : i = (q.back + (buf ++ [0]).length) % queueSize
  stored : Ring.read queueSize q.data q.back (buf ++ [0]).length = buf ++ [0]
  room : used + (buf ++ [0]).length < queueSize

/-- What holds at each place of `queue_push`. -/
def Producer.Follows (q : Queue) (used : ℕ) : Producer → Prop
  | .idle => True
  | .entered buf => Pushable buf
  | .located buf i => Pushable buf ∧ i = q.back
  | .storing buf j i front => ∃ room, Stores q used buf j i front room
  | .leaving buf i => HasStored q used buf i
  | .posting buf => Pushable buf
  | .done => True

/-- The worker only makes room. -/
theorem Producer.Follows.mono {q q' : Queue} {used used' : ℕ} {p : Producer}
    (h : p.Follows q used) (hback : q'.back = q.back) (hdata : q'.data = q.data)
    (hle : used' ≤ used) : p.Follows q' used' := by
  cases p with
  | idle => trivial
  | entered buf => exact h
  | located buf i => exact ⟨h.1, h.2.trans hback.symm⟩
  | storing buf j i front =>
      obtain ⟨room, hstores⟩ := h
      have hroom := hstores.room_le
      refine ⟨room, ?_⟩
      constructor
      · exact hstores.pushable
      · exact hstores.le
      · rw [hback, hstores.index]
      · rw [hback, hdata, hstores.stored]
      · exact hstores.lt_room
      · omega
      · rw [hback, hstores.front_eq]
  | leaving buf i =>
      have hroom := h.room
      constructor
      · exact h.pushable
      · rw [hback, h.index]
      · rw [hback, hdata, h.stored]
      · omega
  | posting buf => exact h
  | done => trivial

/-! ### The worker -/

/-- What the worker has taken from the semaphore. -/
def Consumer.taken : Consumer → ℕ
  | .idle => 0
  | .waiting _ => 0
  | _ => 1

/-- What holds at each place of `queue_pop`. -/
def Consumer.Follows (front : ℕ) (pending : List (List UInt8)) : Consumer → Prop
  | .idle => True
  | .waiting i => i = front
  | .testing i => i = front ∧ pending ≠ []
  | .looping i buf => ∃ rest more, pending = (buf ++ rest) :: more ∧ buf ++ rest ≠ [] ∧
      i = (front + buf.length) % queueSize
  | .copying i buf => ∃ c rest more, pending = (buf ++ c :: rest) :: more ∧
      i = (front + buf.length) % queueSize
  | .releasing i buf => ∃ more, pending = buf :: more ∧ buf ≠ [] ∧
      i = (front + buf.length) % queueSize
  | .stopped => ∃ more, pending = [] :: more
  | .broken => False

/-- The producer only adds strings at the end. -/
theorem Consumer.Follows.append {front : ℕ} {pending : List (List UInt8)} {c : Consumer}
    (h : c.Follows front pending) (more : List (List UInt8)) :
    c.Follows front (pending ++ more) := by
  cases c with
  | idle => trivial
  | waiting i => exact h
  | testing i => exact ⟨h.1, fun hnil => h.2 (List.append_eq_nil_iff.mp hnil).1⟩
  | looping i buf =>
      obtain ⟨rest, others, rfl, hne, hi⟩ := h
      exact ⟨rest, others ++ more, rfl, hne, hi⟩
  | copying i buf =>
      obtain ⟨c, rest, others, rfl, hi⟩ := h
      exact ⟨c, rest, others ++ more, rfl, hi⟩
  | releasing i buf =>
      obtain ⟨others, rfl, hne, hi⟩ := h
      exact ⟨others ++ more, rfl, hne, hi⟩
  | stopped =>
      obtain ⟨others, rfl⟩ := h
      exact ⟨others ++ more, rfl⟩
  | broken => exact h

/-! ### The system -/

/-- The stop code is pushed last. -/
def Producer.Finishes (pushed : List (List UInt8)) : Producer → Prop
  | .done => ∃ bufs, pushed = bufs ++ [[]] ∧ [] ∉ bufs
  | _ => [] ∉ pushed

theorem Producer.finishes_iff {p : Producer} (h : p ≠ .done) {pushed : List (List UInt8)} :
    p.Finishes pushed ↔ [] ∉ pushed := by
  cases p with
  | done => exact absurd rfl h
  | _ => exact Iff.rfl

/-- The strings `pending` are in the queue. -/
structure Inv (s : System) (pending : List (List UInt8)) : Prop where
  history : s.pushed = s.popped ++ pending
  unstopped : [] ∉ s.popped
  pushable : ∀ buf ∈ s.pushed, Pushable buf
  finishes : s.producer.Finishes s.pushed
  ring : Ring.Holds queueSize s.queue.data s.queue.front s.queue.back
    (encode (pending ++ s.producer.published))
  counted : s.queue.sem + s.consumer.taken = pending.length
  producer : s.producer.Follows s.queue (encode pending).length
  consumer : s.consumer.Follows s.queue.front pending

theorem inv_init : Inv {} [] where
  history := rfl
  unstopped := List.not_mem_nil
  pushable := by simp [System.pushed]
  finishes := by simp [Producer.Finishes, System.pushed]
  ring := Ring.holds_nil (by decide) _
  counted := rfl
  producer := trivial
  consumer := trivial

/-! ### Steps of the producer -/

section Push

variable {q : Queue} {used : ℕ} {buf : List UInt8} {j i front room : ℕ}

/-- With the front that it loads the producer knows all the cells that are not occupied. -/
theorem stores_begin {xs : List UInt8} (hbuf : Pushable buf)
    (hring : Ring.Holds queueSize q.data q.front q.back xs) :
    Stores q xs.length buf 0 q.back q.front (queueSize - xs.length) := by
  have hlength := hring.length_lt
  constructor
  · exact hbuf
  · exact Nat.zero_le _
  · rw [Nat.add_zero, hring.back_eq, Nat.mod_mod]
  · rfl
  · omega
  · omega
  · exact hring.front_eq

variable (h : Stores q used buf j i front room)

include h

theorem Stores.holds {xs : List UInt8} (hring : Ring.Holds queueSize q.data q.front q.back xs)
    (hused : used = xs.length) (c : UInt8) :
    Ring.Holds queueSize (q.store i c).data q.front q.back xs := by
  have hlt := h.lt_room
  have hle := h.room_le
  have hstore := hring.update (k := j) c (by omega)
  rwa [← h.index] at hstore

theorem Stores.next_index : (i + 1) % queueSize = (q.back + (j + 1)) % queueSize := by
  rw [h.index, Nat.mod_add_mod, Nat.add_assoc]

/-- The producer gives up at the front that it has loaded. -/
theorem Stores.next_eq_front_iff : (i + 1) % queueSize = front ↔ j + 1 = room := by
  have hlt := h.lt_room
  have hle := h.room_le
  rw [h.next_index, h.front_eq]
  exact Ring.index_eq_iff hlt (by omega)

theorem Stores.read_store (c : UInt8) :
    Ring.read queueSize (q.store i c).data q.back (j + 1) = buf.take j ++ [c] := by
  have hlt := h.lt_room
  have hle := h.room_le
  have hdata : (q.store i c).data = Function.update q.data ((q.back + j) % queueSize) c := by
    rw [← h.index]
    rfl
  rw [hdata, Ring.read_succ, Function.update_self,
    Ring.read_update c (Nat.le_refl j) (by omega), h.stored]

/-- The loop goes on before the end of the string. -/
theorem Stores.getD_ne_zero : buf.getD j 0 ≠ 0 ↔ j < buf.length := by
  constructor
  · intro hne
    by_contra hge
    exact hne (List.getD_eq_default _ _ (not_lt.mp hge))
  · intro hlt hzero
    rw [List.getD_eq_getElem _ _ hlt] at hzero
    exact h.pushable.nul_free (hzero ▸ List.getElem_mem hlt)

/-- A character of the string was stored. -/
theorem Stores.next (hj : j < buf.length) (hroom : j + 1 ≠ room) :
    Stores (q.store i (buf.getD j 0)) used buf (j + 1) ((i + 1) % queueSize) front room where
  pushable := h.pushable
  le := hj
  index := h.next_index
  stored := by
    rw [List.getD_eq_getElem _ _ hj]
    exact (h.read_store _).trans (List.take_append_getElem hj)
  lt_room := lt_of_le_of_ne h.lt_room hroom
  room_le := h.room_le
  front_eq := h.front_eq

/-- The terminating NUL was stored. -/
theorem Stores.last (hj : ¬ j < buf.length) (hroom : j + 1 ≠ room) :
    HasStored (q.store i (buf.getD j 0)) used buf ((i + 1) % queueSize) := by
  have hlength : j = buf.length := le_antisymm h.le (not_lt.mp hj)
  have hlt := h.lt_room
  have hle := h.room_le
  have hsnoc : (buf ++ [0]).length = j + 1 := by rw [List.length_append, hlength]; rfl
  constructor
  · exact h.pushable
  · rw [hsnoc]
    exact h.next_index
  · have hread := h.read_store 0
    rw [List.take_of_length_le (not_lt.mp hj)] at hread
    rw [hsnoc, List.getD_eq_default _ _ (not_lt.mp hj)]
    exact hread
  · rw [hsnoc]
    omega

end Push

section PushSteps

variable {s : System} {pending : List (List UInt8)} {buf : List UInt8} {i j front : ℕ}
  (h : Inv s pending)

include h

/-- A step of the producer that touches nothing of the queue. -/
theorem Inv.goOn {p : Producer} (hat : s.producer ≠ .done) (hp : p ≠ .done)
    (hpublished : p.published = s.producer.published)
    (hfollows : p.Follows s.queue (encode pending).length) :
    Inv { s with producer := p } pending := by
  constructor
  · exact h.history
  · exact h.unstopped
  · exact h.pushable
  · exact (Producer.finishes_iff hp).mpr ((Producer.finishes_iff hat).mp h.finishes)
  · rw [hpublished]
    exact h.ring
  · exact h.counted
  · exact hfollows
  · exact h.consumer

theorem Inv.call (hbuf : Pushable buf) : Inv (s.call buf) pending := by
  unfold System.call
  split
  next hat => exact h.goOn (by simp [hat]) (by simp) (by rw [hat]; rfl) hbuf
  next => exact h

theorem Inv.push_entered (hat : s.producer = .entered buf) : Inv s.push pending := by
  have hfollows := h.producer
  rw [hat] at hfollows
  rw [System.push_entered hat]
  exact h.goOn (by simp [hat]) (by simp) (by rw [hat]; rfl) ⟨hfollows, rfl⟩

theorem Inv.push_located (hat : s.producer = .located buf i) : Inv s.push pending := by
  have hfollows := h.producer
  have hring := h.ring
  rw [hat] at hfollows hring
  obtain ⟨hbuf, rfl⟩ := hfollows
  simp only [Producer.published, List.append_nil] at hring
  rw [System.push_located hat]
  exact h.goOn (by simp [hat]) (by simp) (by rw [hat]; rfl) ⟨_, stores_begin hbuf hring⟩

/-- A character is stored, and the call returns 0, goes on or has stored everything. -/
theorem Inv.push_storing (hat : s.producer = .storing buf j i front) : Inv s.push pending := by
  have hfollows := h.producer
  have hring := h.ring
  have hfinishes := h.finishes
  rw [hat] at hfollows hring hfinishes
  obtain ⟨room, hstores⟩ := hfollows
  simp only [Producer.published, List.append_nil] at hring
  have hstored := hstores.holds hring rfl (buf.getD j 0)
  rw [← List.append_nil pending] at hstored
  simp only [System.push, hat, hstores.next_eq_front_iff, hstores.getD_ne_zero]
  split_ifs with hroom hlt
  · have hpushed : ((s.calls ++ [(buf, false)]).filter (·.2)).map (·.1) = s.pushed := by
      simp [System.pushed]
    constructor
    · exact hpushed.trans h.history
    · exact h.unstopped
    · intro x hx
      exact h.pushable x (hpushed ▸ hx)
    · exact fun hx => hfinishes (hpushed ▸ hx)
    · exact hstored
    · exact h.counted
    · trivial
    · exact h.consumer
  · exact ⟨h.history, h.unstopped, h.pushable, hfinishes, hstored, h.counted,
      ⟨room, hstores.next hlt hroom⟩, h.consumer⟩
  · exact ⟨h.history, h.unstopped, h.pushable, hfinishes, hstored, h.counted, hstores.last hlt hroom,
      h.consumer⟩

/-- The string becomes a part of the contents. -/
theorem Inv.push_leaving (hat : s.producer = .leaving buf i) : Inv s.push pending := by
  have hstored := h.producer
  have hring := h.ring
  have hfinishes := h.finishes
  rw [hat] at hstored hring hfinishes
  simp only [Producer.published, List.append_nil] at hring
  have hextended := hring.extend hstored.stored hstored.room
  rw [← hstored.index, show encode pending ++ (buf ++ [0]) = encode (pending ++ [buf]) by
    simp [encode_append]] at hextended
  rw [System.push_leaving hat]
  exact ⟨h.history, h.unstopped, h.pushable, hfinishes, hextended, h.counted, hstored.pushable, h.consumer⟩

/-- The call is counted and returns 1. -/
theorem Inv.push_posting (hat : s.producer = .posting buf) : Inv s.push (pending ++ [buf]) := by
  have hbuf := h.producer
  have hring := h.ring
  have hnone := h.finishes
  rw [hat] at hbuf hring hnone
  have hpushed : s.push.pushed = s.pushed ++ [buf] := by
    simp [System.pushed, System.push_posting hat]
  constructor
  · rw [hpushed, h.history, System.push_posting hat, List.append_assoc]
  · rw [System.push_posting hat]
    exact h.unstopped
  · intro x hx
    rw [hpushed, List.mem_append, List.mem_singleton] at hx
    rcases hx with hx | rfl
    · exact h.pushable x hx
    · exact hbuf
  · rw [hpushed, System.push_posting hat]
    by_cases hstop : buf = []
    · subst hstop
      exact ⟨s.pushed, rfl, hnone⟩
    · rw [if_neg hstop, Producer.finishes_iff (by simp), List.mem_append, List.mem_singleton]
      rintro (hmem | heq)
      · exact hnone hmem
      · exact hstop heq.symm
  · have hpublished : (if buf = [] then Producer.done else .idle).published = [] := by
      split_ifs <;> rfl
    rw [System.push_posting hat, hpublished, List.append_nil]
    exact hring
  · rw [System.push_posting hat, List.length_append, ← h.counted]
    exact Nat.add_right_comm _ _ _
  · rw [System.push_posting hat]
    split_ifs <;> trivial
  · rw [System.push_posting hat]
    exact h.consumer.append [buf]

/-- The producer adds a string to the pending ones when it counts it, and otherwise leaves
them. -/
theorem Inv.push : Inv s.push (pending ++ s.producer.published) := by
  cases hat : s.producer with
  | idle =>
      rw [System.push_rest (Or.inl hat)]
      exact (List.append_nil pending).symm ▸ h
  | entered buf => exact (List.append_nil pending).symm ▸ h.push_entered hat
  | located buf i => exact (List.append_nil pending).symm ▸ h.push_located hat
  | storing buf j i front => exact (List.append_nil pending).symm ▸ h.push_storing hat
  | leaving buf i => exact (List.append_nil pending).symm ▸ h.push_leaving hat
  | posting buf => exact h.push_posting hat
  | done =>
      rw [System.push_rest (Or.inr hat)]
      exact (List.append_nil pending).symm ▸ h

end PushSteps

/-! ### Steps of the worker -/

section PopSteps

variable {s : System} {pending more : List (List UInt8)} {buf rest : List UInt8} {i : ℕ}

theorem Inv.pushable_head (h : Inv s (buf :: more)) : Pushable buf := by
  apply h.pushable
  rw [h.history, List.mem_append]
  exact Or.inr List.mem_cons_self

variable (h : Inv s pending)

include h

/-- The character that the worker finds in the string that it has taken. -/
theorem Inv.read (hpending : pending = (buf ++ rest) :: more) :
    s.queue.data ((s.queue.front + buf.length) % queueSize) = rest.headD 0 := by
  have hring := h.ring
  rw [hpending, List.cons_append, encode_cons, List.append_assoc] at hring
  cases rest with
  | nil | cons => exact hring.get

/-- It is not NUL. -/
theorem Inv.read_ne_zero {c : UInt8} (hpending : pending = (buf ++ c :: rest) :: more) : c ≠ 0 := by
  subst hpending
  rintro rfl
  exact h.pushable_head.nul_free (by simp)

/-- A step of the worker that touches nothing of the queue. -/
theorem Inv.goTo {c : Consumer} (htaken : c.taken = s.consumer.taken)
    (hfollows : c.Follows s.queue.front pending) : Inv { s with consumer := c } pending :=
  ⟨h.history, h.unstopped, h.pushable, h.finishes, h.ring, by rw [← h.counted, ← htaken],
    h.producer, hfollows⟩

theorem Inv.pop_idle (hat : s.consumer = .idle) : Inv s.pop pending := by
  rw [System.pop_idle hat]
  exact h.goTo (by rw [hat]; rfl) rfl

theorem Inv.pop_waiting (hat : s.consumer = .waiting i) : Inv s.pop pending := by
  have hfollows := h.consumer
  have hcounted := h.counted
  rw [hat] at hfollows hcounted
  by_cases hsem : s.queue.sem = 0
  · rwa [System.pop_blocked hat hsem]
  · rw [System.pop_waiting hat hsem]
    constructor
    · exact h.history
    · exact h.unstopped
    · exact h.pushable
    · exact h.finishes
    · exact h.ring
    · rw [← hcounted]
      exact Nat.sub_add_cancel (Nat.pos_of_ne_zero hsem)
    · exact h.producer.mono rfl rfl (Nat.le_refl _)
    · refine ⟨hfollows, ?_⟩
      rintro rfl
      exact hsem hcounted

theorem Inv.pop_testing (hat : s.consumer = .testing i) : Inv s.pop pending := by
  have hfollows := h.consumer
  rw [hat] at hfollows
  obtain ⟨rfl, hne⟩ := hfollows
  obtain ⟨buf, more, hpending⟩ := List.exists_cons_of_ne_nil hne
  have hfront : s.queue.front = (s.queue.front + ([] : List UInt8).length) % queueSize :=
    (Nat.mod_eq_of_lt h.ring.front_lt).symm
  have hread : s.queue.data s.queue.front = buf.headD 0 := by
    rw [hfront]
    exact h.read hpending
  rw [System.pop_testing hat, hread]
  cases buf with
  | nil => exact h.goTo (by rw [hat]; rfl) ⟨more, hpending⟩
  | cons c rest =>
      have hfirst : pending = ([] ++ c :: rest) :: more := hpending
      rw [List.headD_cons, if_neg (h.read_ne_zero hfirst)]
      exact h.goTo (by rw [hat]; rfl)
        ⟨c :: rest, more, hpending, List.cons_ne_nil c rest, hfront⟩

theorem Inv.pop_looping (hat : s.consumer = .looping i buf) : Inv s.pop pending := by
  have hfollows := h.consumer
  rw [hat] at hfollows
  obtain ⟨rest, more, hpending, hne, rfl⟩ := hfollows
  rw [System.pop_looping hat, h.read hpending]
  cases rest with
  | nil =>
      rw [List.append_nil] at hpending hne
      exact h.goTo (by rw [hat]; rfl) ⟨more, hpending, hne, rfl⟩
  | cons c rest =>
      rw [List.headD_cons, if_neg (h.read_ne_zero hpending)]
      exact h.goTo (by rw [hat]; rfl) ⟨c, rest, more, hpending, rfl⟩

theorem Inv.pop_copying (hat : s.consumer = .copying i buf) : Inv s.pop pending := by
  have hfollows := h.consumer
  rw [hat] at hfollows
  obtain ⟨c, rest, more, rfl, rfl⟩ := hfollows
  have hlength : ¬ (buf ++ [c]).length ≥ bufferSize - 1 := by
    have hle := h.pushable_head.length_le
    simp only [List.length_append, List.length_cons, List.length_nil, bufferSize] at hle ⊢
    omega
  rw [System.pop_copying hat, h.read rfl, List.headD_cons, if_neg hlength]
  refine h.goTo (by rw [hat]; rfl) ⟨rest, more, ?_, by simp, ?_⟩
  · rw [List.append_assoc]
    rfl
  · rw [Nat.mod_add_mod, List.length_append]
    rfl

/-- The cells of the first string are given back. -/
theorem Inv.pop_releasing (hat : s.consumer = .releasing i buf) :
    ∃ more, pending = buf :: more ∧ Inv s.pop more := by
  have hfollows := h.consumer
  have hcounted := h.counted
  have hring := h.ring
  rw [hat] at hfollows hcounted
  obtain ⟨more, rfl, hne, rfl⟩ := hfollows
  refine ⟨more, rfl, ?_⟩
  rw [System.pop_releasing hat]
  constructor
  · exact h.history.trans (List.append_cons _ _ _)
  · rw [List.mem_append, List.mem_singleton]
    rintro (hmem | heq)
    · exact h.unstopped hmem
    · exact hne heq.symm
  · exact h.pushable
  · exact h.finishes
  · rw [List.cons_append, encode_cons, List.append_cons] at hring
    have hadvanced := hring.advance
    rwa [List.length_append, ← Nat.add_assoc, ← Nat.mod_add_mod] at hadvanced
  · exact Nat.succ.inj hcounted
  · refine h.producer.mono rfl rfl ?_
    rw [encode_cons, List.length_append, List.length_cons]
    omega
  · trivial

/-- The other steps of the worker leave the pending strings. -/
theorem Inv.pop_of_not_releasing (hnot : ∀ i buf, s.consumer ≠ .releasing i buf) :
    Inv s.pop pending := by
  cases hat : s.consumer with
  | idle => exact h.pop_idle hat
  | waiting i => exact h.pop_waiting hat
  | testing i => exact h.pop_testing hat
  | looping i buf => exact h.pop_looping hat
  | copying i buf => exact h.pop_copying hat
  | releasing i buf => exact absurd hat (hnot i buf)
  | stopped => exact (System.pop_rest (Or.inl hat)).symm ▸ h
  | broken => exact (System.pop_rest (Or.inr hat)).symm ▸ h

end PopSteps

/-- Every step keeps the invariant. -/
theorem inv_step {s : System} {pending : List (List UInt8)} (h : Inv s pending) (a : Act) :
    ∃ rest, Inv (step a s) rest := by
  cases a with
  | call path => exact ⟨pending, h.call path.pushable⟩
  | stop => exact ⟨pending, h.call pushable_nil⟩
  | push => exact ⟨_, h.push⟩
  | pop =>
      by_cases hreleases : ∃ i buf, s.consumer = .releasing i buf
      · obtain ⟨i, buf, hat⟩ := hreleases
        obtain ⟨more, -, hmore⟩ := h.pop_releasing hat
        exact ⟨more, hmore⟩
      · exact ⟨pending, h.pop_of_not_releasing fun i buf hat => hreleases ⟨i, buf, hat⟩⟩

end EDDTs.ReadAll
