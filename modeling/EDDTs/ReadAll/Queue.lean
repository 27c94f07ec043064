import EDDTs.Library.Interleaving
import EDDTs.Library.Ring

/-!
# The work queue of `read_all`

The main process pushes paths into a ring of bytes that it shares with a worker, each path with
the NUL at its end, and counts them with a semaphore. The worker pops them until it pops the
empty string. A step is one access to the shared memory with the local work that follows it; the
steps of the two processes are interleaved in any order.
-/

namespace EDDTs.ReadAll

open Library

/-- `QUEUE_SIZE` -/
def queueSize : ℕ := 16384

/-- `BUFFER_SIZE` -/
def bufferSize : ℕ := 1024

/-- `struct queue` -/
structure Queue where
  sem : ℕ
  front : ℕ
  back : ℕ
  data : ℕ → UInt8

/-- `queue_init`; the pages of an anonymous mapping are zero. -/
def queueInit : Queue := ⟨0, 0, 0, fun _ => 0⟩

/-- The bytes that are stored and not yet released. -/
def Queue.contents (q : Queue) : List UInt8 := Ring.contents queueSize q.data q.front q.back

/-- `q->data[i] = c` -/
def Queue.store (q : Queue) (i : ℕ) (c : UInt8) : Queue :=
  { q with data := Function.update q.data i c }

/-- A path that fits in the buffer of a worker. -/
structure Path where
  bytes : List UInt8
  ne_nil : bytes ≠ []
  nul_free : 0 ∉ bytes
  length_le : bytes.length ≤ bufferSize - 2

/-- Where the producer is in `queue_push(q, buf)`. -/
inductive Producer
  | idle
  | entered (buf : List UInt8)
  | located (buf : List UInt8) (i : ℕ)
  | storing (buf : List UInt8) (j i front : ℕ)
  | leaving (buf : List UInt8) (i : ℕ)
  | posting (buf : List UInt8)
  | done
  deriving DecidableEq, Repr

/-- Where the worker is in `queue_pop(q, buf)`. -/
inductive Consumer
  | idle
  | waiting (i : ℕ)
  | testing (i : ℕ)
  | looping (i : ℕ) (buf : List UInt8)
  | copying (i : ℕ) (buf : List UInt8)
  | releasing (i : ℕ) (buf : List UInt8)
  | stopped
  | broken
  deriving DecidableEq, Repr

/-- The queue with its two users, the calls of `queue_push` that have returned with what they
returned, and the strings of the calls of `queue_pop` that returned 1. -/
structure System where
  queue : Queue := queueInit
  producer : Producer := .idle
  consumer : Consumer := .idle
  calls : List (List UInt8 × Bool) := []
  popped : List (List UInt8) := []

namespace System

/-- The strings whose push returned 1. -/
def pushed (s : System) : List (List UInt8) := (s.calls.filter (·.2)).map (·.1)

/-- A call of `queue_push`. -/
def call (buf : List UInt8) (s : System) : System :=
  match s.producer with
  | .idle => { s with producer := .entered buf }
  | _ => s

/-- A step of `queue_push`. -/
def push (s : System) : System :=
  match s.producer with
  | .idle => s
  | .entered buf => { s with producer := .located buf s.queue.back }
  | .located buf i => { s with producer := .storing buf 0 i s.queue.front }
  | .storing buf j i front =>
      -- the terminating NUL is at the index of the length
      let c := buf.getD j 0
      let stored := s.queue.store i c
      let next := (i + 1) % queueSize
      if next = front then
        { s with queue := stored, producer := .idle, calls := s.calls ++ [(buf, false)] }
      else if c ≠ 0 then { s with queue := stored, producer := .storing buf (j + 1) next front }
      else { s with queue := stored, producer := .leaving buf next }
  | .leaving buf i => { s with queue := { s.queue with back := i }, producer := .posting buf }
  | .posting buf =>
      -- after the stop code nothing is pushed
      { s with
        queue := { s.queue with sem := s.queue.sem + 1 }
        producer := if buf = [] then .done else .idle
        calls := s.calls ++ [(buf, true)] }
  | .done => s

/-- A step of `worker_run`, which calls `queue_pop` until that returns 0. -/
def pop (s : System) : System :=
  match s.consumer with
  | .idle => { s with consumer := .waiting s.queue.front }
  | .waiting i =>
      if s.queue.sem = 0 then s
      else { s with queue := { s.queue with sem := s.queue.sem - 1 }, consumer := .testing i }
  | .testing i => { s with consumer := if s.queue.data i = 0 then .stopped else .looping i [] }
  | .looping i buf =>
      { s with consumer := if s.queue.data i = 0 then .releasing i buf else .copying i buf }
  | .copying i buf =>
      let buf := buf ++ [s.queue.data i]
      { s with
        consumer := if buf.length ≥ bufferSize - 1 then .broken
          else .looping ((i + 1) % queueSize) buf }
  | .releasing i buf =>
      { s with
        queue := { s.queue with front := (i + 1) % queueSize }
        consumer := .idle
        popped := s.popped ++ [buf] }
  | .stopped => s
  | .broken => s

/-! The steps by the place from which they are made. -/

section Places

variable {s : System} {buf : List UInt8} {i j front : ℕ}

theorem push_rest (h : s.producer = .idle ∨ s.producer = .done) : s.push = s := by
  rcases h with h | h <;> simp only [push, h]

theorem push_entered (h : s.producer = .entered buf) :
    s.push = { s with producer := .located buf s.queue.back } := by
  simp only [push, h]

theorem push_located (h : s.producer = .located buf i) :
    s.push = { s with producer := .storing buf 0 i s.queue.front } := by
  simp only [push, h]

theorem push_leaving (h : s.producer = .leaving buf i) :
    s.push = { s with queue := { s.queue with back := i }, producer := .posting buf } := by
  simp only [push, h]

theorem push_posting (h : s.producer = .posting buf) :
    s.push = { s with
      queue := { s.queue with sem := s.queue.sem + 1 }
      producer := if buf = [] then .done else .idle
      calls := s.calls ++ [(buf, true)] } := by
  simp only [push, h]

theorem pop_idle (h : s.consumer = .idle) :
    s.pop = { s with consumer := .waiting s.queue.front } := by
  simp only [pop, h]

theorem pop_waiting (h : s.consumer = .waiting i) (hsem : s.queue.sem ≠ 0) :
    s.pop = { s with
      queue := { s.queue with sem := s.queue.sem - 1 }, consumer := .testing i } := by
  simp only [pop, h, if_neg hsem]

theorem pop_blocked (h : s.consumer = .waiting i) (hsem : s.queue.sem = 0) : s.pop = s := by
  simp only [pop, h, if_pos hsem]

theorem pop_testing (h : s.consumer = .testing i) :
    s.pop = { s with
      consumer := if s.queue.data i = 0 then .stopped else .looping i [] } := by
  simp only [pop, h]

theorem pop_looping (h : s.consumer = .looping i buf) :
    s.pop = { s with
      consumer := if s.queue.data i = 0 then .releasing i buf else .copying i buf } := by
  simp only [pop, h]

theorem pop_copying (h : s.consumer = .copying i buf) :
    s.pop = { s with
      consumer := if (buf ++ [s.queue.data i]).length ≥ bufferSize - 1 then .broken
        else .looping ((i + 1) % queueSize) (buf ++ [s.queue.data i]) } := by
  simp only [pop, h]

theorem pop_releasing (h : s.consumer = .releasing i buf) :
    s.pop = { s with
      queue := { s.queue with front := (i + 1) % queueSize }
      consumer := .idle
      popped := s.popped ++ [buf] } := by
  simp only [pop, h]

theorem pop_rest (h : s.consumer = .stopped ∨ s.consumer = .broken) : s.pop = s := by
  rcases h with h | h <;> simp only [pop, h]

end Places

end System

/-- Who makes a step. The producer begins a call with a path or with the stop code. -/
inductive Act
  | call (path : Path)
  | stop
  | push
  | pop

def step : Act → System → System
  | .call path => System.call path.bytes
  | .stop => System.call []
  | .push => System.push
  | .pop => System.pop

/-- The strings as they lie in the ring. -/
def encode (bufs : List (List UInt8)) : List UInt8 := bufs.flatMap (· ++ [0])

@[simp] theorem encode_nil : encode [] = [] := rfl

@[simp] theorem encode_cons (buf : List UInt8) (rest : List (List UInt8)) :
    encode (buf :: rest) = buf ++ 0 :: encode rest := by
  simp [encode]

theorem encode_append (bufs more : List (List UInt8)) :
    encode (bufs ++ more) = encode bufs ++ encode more :=
  List.flatMap_append

end EDDTs.ReadAll
