import EDDTs.Library.Interleaving
import EDDTs.Netstress.Messages

/-!
# A client and the server of `netstress` over TCP

The client sends a request, receives until it has read the end byte of the reply, and goes on with
the next request. The server has a thread for each connection, which receives until the last byte
that has arrived is the end byte and takes what it has then for a request. A receive returns any
non-empty part of what has arrived.
-/

namespace EDDTs.Netstress

open Library Interleaving

/-- The options of the two programs, the values of `rand`, and what the buffers of the server
threads hold before anything was received. -/
structure Setting where
  request : Request
  maxRand : ℕ
  maxRand_range : maxRand = 0 ∨ 10 ≤ maxRand + minMsgLen ∧ maxRand + minMsgLen ≤ maxMsgLen
  clientMaxRequests : ℕ
  clientMaxRequests_pos : 1 ≤ clientMaxRequests
  serverMaxRequests : ℕ
  serverMaxRequests_pos : 1 ≤ serverMaxRequests
  rand : ℕ → ℕ
  stack : ℕ → Memory

/-- The lengths that `make_client_request` chooses with the `k`-th value of `rand`. -/
def Setting.make (cfg : Setting) (k : ℕ) : Request :=
  if h : cfg.maxRand = 0 then cfg.request
  else
    have hlt := Nat.mod_lt (cfg.rand k) (Nat.pos_of_ne_zero h)
    have hle : minMsgLen + cfg.rand k % cfg.maxRand ≤ maxMsgLen := by
      have := cfg.maxRand_range
      omega
    { clnLen := minMsgLen + cfg.rand k % cfg.maxRand
      srvLen := minMsgLen + cfg.rand k % cfg.maxRand
      clnLen_ge := Nat.le_add_right _ _
      clnLen_le := hle
      srvLen_ge := Nat.le_add_right _ _
      srvLen_le := hle }

/-- Where the client is in `client_fn`: before a send, in `client_recv` with what it has read, at
its end without an error, or out with one. -/
inductive Client
  | sending
  | receiving (got : List UInt8)
  | finished
  | failed
  deriving DecidableEq, Repr

/-- The client waits in `client_recv`. -/
def Client.isReceiving : Client → Bool
  | .receiving _ => true
  | _ => false

/-- The thread of a connection in `server_fn`. -/
structure Thread where
  running : Bool
  offset : ℕ := 0
  recvMsg : Memory
  numRequests : ℕ := 0
  sendType : ℕ := 0

/-- The client with its counter, its message and the number of values of `rand` that it has used;
the connection with the bytes on their way; the thread of the connection, and whether the server
has given up; what was sent, what was taken for a request, and what was replied. -/
structure System where
  client : Client := .sending
  exchanges : ℕ := 0
  current : Request
  made : ℕ
  connected : Bool := false
  connections : ℕ := 0
  toServer : List UInt8 := []
  toClient : List UInt8 := []
  thread : Thread
  down : Bool := false
  sent : List Request := []
  requests : List (List UInt8) := []
  replies : List (List UInt8) := []

/-- The client before it connects. -/
def init (cfg : Setting) : System where
  current := cfg.make 0
  made := 1
  thread := { running := false, recvMsg := cfg.stack 0 }

namespace System

/-! ### The client -/

/-- `client_connect_send`, or `make_client_request` and `send` on the open connection -/
def clientSend (cfg : Setting) (s : System) : System :=
  if s.connected = true then
    let request := if cfg.maxRand = 0 then s.current else cfg.make s.made
    { s with
      client := .receiving []
      current := request
      made := s.made + 1
      toServer := s.toServer ++ request.bytes
      sent := s.sent ++ [request] }
  else if s.down = true then { s with client := .failed }
  else
    { s with
      client := .receiving []
      connected := true
      connections := s.connections + 1
      toServer := s.current.bytes
      toClient := []
      thread := { running := true, recvMsg := cfg.stack s.connections }
      sent := s.sent ++ [s.current] }

/-- `client_recv` returned -1. -/
def clientFails (s : System) : System := { s with client := .failed, connected := false }

/-- `client_recv` returned 0, after it closed the connection or not. -/
def exchanged (cfg : Setting) (fin : Bool) (s : System) : System :=
  let i := s.exchanges + 1
  { s with
    client := if i < cfg.clientMaxRequests then .sending else .finished
    exchanges := i
    connected := s.connected && !fin && decide (i < cfg.clientMaxRequests) }

/-- A turn of the loop of `client_recv`, which has the bytes `got`. -/
def clientRecv (cfg : Setting) (got : List UInt8) (n : ℕ) (s : System) : System :=
  let chunk := s.toClient.take (min (n + 1) (s.current.srvLen - got.length))
  if chunk = [] then s.clientFails
  else
    let buf := got ++ chunk
    let s := { s with toClient := s.toClient.drop chunk.length }
    if buf.head? ≠ some startByte ∧ buf.head? ≠ some startFinByte then s.clientFails
    else if buf.getLast? ≠ some endByte then { s with client := .receiving buf }
    else s.exchanged cfg (buf.head? = some startFinByte)

/-! ### The server -/

/-- The server gives up, with `tst_brk`. -/
def serverFails (s : System) : System :=
  { s with thread := { s.thread with running := false }, down := true }

/-- A request of `offset` bytes is answered with `size` bytes. -/
def answer (cfg : Setting) (recvMsg : Memory) (offset size : ℕ) (s : System) : System :=
  let t := s.thread
  let last : Bool := t.numRequests + 1 ≥ cfg.serverMaxRequests
  let reply := onWire t.sendType (makeServerReply last size)
  { s with
    thread :=
      { running := !last
        recvMsg := recvMsg
        numRequests := t.numRequests + 1
        sendType := if t.sendType < 2 then t.sendType + 1 else 0 }
    toClient := s.toClient ++ reply
    requests := s.requests ++ [recvMsg.load 0 offset]
    replies := s.replies ++ [reply] }

/-- What has arrived ends with the end byte. -/
def respond (cfg : Setting) (recvMsg : Memory) (offset : ℕ) (s : System) : System :=
  if recvMsg 0 = startFinByte then s.serverFails
  else
    match parseClientRequest recvMsg with
    | none => s.serverFails
    | some size => s.answer cfg recvMsg offset size

/-- A turn of the loop of `server_fn`. -/
def serverRecv (cfg : Setting) (n : ℕ) (s : System) : System :=
  let t := s.thread
  let chunk := s.toServer.take (min (n + 1) (maxMsgLen - t.offset))
  if chunk = [] then { s with thread := { t with running := false } }
  else
    let recvMsg := t.recvMsg.store t.offset chunk
    let offset := t.offset + chunk.length
    let s := { s with toServer := s.toServer.drop chunk.length }
    if recvMsg 0 ≠ startByte ∧ recvMsg 0 ≠ startFinByte then s.serverFails
    else if recvMsg (offset - 1) ≠ endByte then
      { s with thread := { t with recvMsg := recvMsg, offset := offset } }
    else s.respond cfg recvMsg offset

end System

/-- Who moves; a receive takes at most `n + 1` bytes of what has arrived. -/
inductive Act
  | clientSend
  | clientRecv (n : ℕ)
  | serverRecv (n : ℕ)
  deriving DecidableEq, Repr

def step (cfg : Setting) (a : Act) (s : System) : System :=
  match a with
  | .clientSend => s.clientSend cfg
  | .clientRecv n =>
      match s.client with
      | .receiving got => s.clientRecv cfg got n
      | _ => s
  | .serverRecv n => s.serverRecv cfg n

/-- A receive waits for bytes or for the end of the connection. -/
def Enabled : Act → System → Prop
  | .clientSend, s => s.client = .sending
  | .clientRecv _, s => s.client.isReceiving = true ∧
      (s.toClient ≠ [] ∨ s.thread.running = false)
  | .serverRecv _, s => s.thread.running = true ∧ (s.toServer ≠ [] ∨ s.connected = false)

instance : (a : Act) → (s : System) → Decidable (Enabled a s)
  | .clientSend, s => inferInstanceAs (Decidable (s.client = .sending))
  | .clientRecv _, s => inferInstanceAs (Decidable (s.client.isReceiving = true ∧
      (s.toClient ≠ [] ∨ s.thread.running = false)))
  | .serverRecv _, s => inferInstanceAs (Decidable (s.thread.running = true ∧
      (s.toServer ≠ [] ∨ s.connected = false)))

/-- Nobody can move any more. -/
def Ended (s : System) : Prop := ∀ a, ¬ Enabled a s

theorem ended_iff (s : System) :
    Ended s ↔ ¬ Enabled .clientSend s ∧ ¬ Enabled (.clientRecv 0) s ∧
      ¬ Enabled (.serverRecv 0) s := by
  constructor
  · exact fun h => ⟨h _, h _, h _⟩
  · rintro ⟨hsend, hclient, hserver⟩ a
    cases a with
    | clientSend => exact hsend
    | clientRecv n => exact hclient
    | serverRecv n => exact hserver

instance (s : System) : Decidable (Ended s) := decidable_of_iff _ (ended_iff s).symm

/-- The sequence of actions is an interleaving of the two programs. -/
def IsRun (cfg : Setting) (acts : List Act) : Prop :=
  AllEnabled (step cfg) Enabled (init cfg) acts

instance (cfg : Setting) (acts : List Act) : Decidable (IsRun cfg acts) :=
  AllEnabled.decidable _ _

/-- The state after an interleaving. -/
def run (cfg : Setting) (acts : List Act) : System := exec (step cfg) (init cfg) acts

end EDDTs.Netstress
