import EDDTs.Netstress.System

/-!
# One exchange after the other

The exchanges follow each other through four phases: the client is about to send, the request is
on its way, the reply is on its way, and all exchanges are done. The phases are kept unless a
receive of the server ends behind a byte of the length field that happens to be the end byte.
-/

namespace EDDTs.Netstress

open Library Interleaving

/-- The server has taken these requests, byte for byte, and replied with the lengths that they ask
for. -/
structure Framed (answered : List Request) (requests replies : List (List UInt8)) : Prop where
  bytes_eq : requests = answered.map Request.bytes
  lengths_eq : replies.map List.length = answered.map Request.srvLen

/-- The thread waits for the next request. -/
structure Thread.Ready (cfg : Setting) (t : Thread) : Prop where
  running : t.running = true
  offset : t.offset = 0
  lt : t.numRequests < cfg.serverMaxRequests

/-- The client is about to send. -/
structure Idle (cfg : Setting) (s : System) : Prop where
  client : s.client = .sending
  left : s.exchanges < cfg.clientMaxRequests
  toServer : s.toServer = []
  toClient : s.toClient = []
  ready : s.connected = true → s.thread.Ready cfg
  up : s.down = false
  framed : Framed s.sent s.requests s.replies
  counted : s.sent.length = s.exchanges

/-- The server has received the first `k` bytes of the request. -/
structure Asking (cfg : Setting) (answered : List Request) (k : ℕ) (s : System) : Prop where
  client : s.client = .receiving []
  left : s.exchanges < cfg.clientMaxRequests
  connected : s.connected = true
  toServer : s.toServer = s.current.bytes.drop k
  toClient : s.toClient = []
  running : s.thread.running = true
  offset : s.thread.offset = k
  lt : k < s.current.clnLen
  stored : s.thread.recvMsg.load 0 k = s.current.bytes.take k
  accepts : s.thread.numRequests < cfg.serverMaxRequests
  up : s.down = false
  sent : s.sent = answered ++ [s.current]
  framed : Framed answered s.requests s.replies
  counted : answered.length = s.exchanges

/-- The client has received the bytes `got` of the reply. -/
structure Answering (cfg : Setting) (fin : Bool) (got : List UInt8) (s : System) : Prop where
  client : s.client = .receiving got
  left : s.exchanges < cfg.clientMaxRequests
  connected : s.connected = true
  toServer : s.toServer = []
  toClient : s.toClient ≠ []
  reply : got ++ s.toClient = makeServerReply fin s.current.srvLen
  ready : fin = false → s.thread.Ready cfg
  up : s.down = false
  framed : Framed s.sent s.requests s.replies
  counted : s.sent.length = s.exchanges + 1

/-- All exchanges are done. -/
structure Done (cfg : Setting) (s : System) : Prop where
  client : s.client = .finished
  exchanges : s.exchanges = cfg.clientMaxRequests
  toServer : s.toServer = []
  up : s.down = false
  framed : Framed s.sent s.requests s.replies
  counted : s.sent.length = s.exchanges

/-- The system is in one of the four phases. -/
inductive InPhase (cfg : Setting) (s : System) : Prop
  | idle (h : Idle cfg s)
  | asking (answered : List Request) (k : ℕ) (h : Asking cfg answered k s)
  | answering (fin : Bool) (got : List UInt8) (h : Answering cfg fin got s)
  | done (h : Done cfg s)

theorem idle_init (cfg : Setting) : Idle cfg (init cfg) where
  client := rfl
  left := cfg.clientMaxRequests_pos
  toServer := rfl
  toClient := rfl
  ready h := by cases h
  up := rfl
  framed := ⟨rfl, rfl⟩
  counted := rfl

variable {cfg : Setting} {s : System}

/-! ### The client sends -/

theorem Idle.clientSend (h : Idle cfg s) : Asking cfg s.sent 0 (s.clientSend cfg) := by
  have hlen : ∀ r : Request, 0 < r.clnLen := fun r => Nat.lt_of_lt_of_le (by decide) r.clnLen_ge
  unfold System.clientSend
  by_cases hconnected : s.connected = true
  · have hready := h.ready hconnected
    rw [if_pos hconnected]
    exact
      { client := rfl
        left := h.left
        connected := hconnected
        toServer := by rw [h.toServer]; rfl
        toClient := h.toClient
        running := hready.running
        offset := hready.offset
        lt := hlen _
        stored := rfl
        accepts := hready.lt
        up := h.up
        sent := rfl
        framed := h.framed
        counted := h.counted }
  · rw [if_neg hconnected, if_neg (by rw [h.up]; decide)]
    exact
      { client := rfl
        left := h.left
        connected := rfl
        toServer := rfl
        toClient := rfl
        running := rfl
        offset := rfl
        lt := hlen _
        stored := rfl
        accepts := cfg.serverMaxRequests_pos
        up := h.up
        sent := rfl
        framed := h.framed
        counted := h.counted }

/-! ### The client receives -/

section ClientRecv

variable {fin : Bool} {got : List UInt8}

/-- A reply is as long as what the client expects. -/
theorem Answering.length_toClient (h : Answering cfg fin got s) :
    s.toClient.length = s.current.srvLen - got.length := by
  have hlen := congrArg List.length h.reply
  have hge : 5 ≤ s.current.srvLen := s.current.srvLen_ge
  rw [List.length_append, length_makeServerReply (by omega)] at hlen
  omega

theorem Answering.exchanged (h : Answering cfg fin got s) {s' : System}
    (hs' : s' = { s with toClient := [] }) :
    InPhase cfg (s'.exchanged cfg fin) := by
  subst hs'
  have hleft := h.left
  by_cases hmore : s.exchanges + 1 < cfg.clientMaxRequests
  · refine .idle
      { client := if_pos hmore
        left := hmore
        toServer := h.toServer
        toClient := rfl
        ready := ?_
        up := h.up
        framed := h.framed
        counted := h.counted }
    intro hconnected
    apply h.ready
    cases fin with
    | false => rfl
    | true => simp [System.exchanged] at hconnected
  · exact .done
      { client := if_neg hmore
        exchanges := by
          change s.exchanges + 1 = cfg.clientMaxRequests
          omega
        toServer := h.toServer
        up := h.up
        framed := h.framed
        counted := h.counted }

theorem Answering.clientRecv (h : Answering cfg fin got s) (n : ℕ) :
    InPhase cfg (s.clientRecv cfg got n) := by
  have hge : 5 ≤ s.current.srvLen := s.current.srvLen_ge
  have hsize : 2 ≤ s.current.srvLen := by omega
  have hchunk : s.toClient.take (min (n + 1) (s.current.srvLen - got.length)) =
      s.toClient.take (n + 1) := by
    rw [← h.length_toClient, List.take_eq_take_iff]
    omega
  have hne : s.toClient.take (n + 1) ≠ [] := by
    simp [h.toClient]
  have hsplit : got ++ s.toClient.take (n + 1) ++ s.toClient.drop (n + 1) =
      makeServerReply fin s.current.srvLen := by
    rw [List.append_assoc, List.take_append_drop, h.reply]
  have hdrop : s.toClient.drop (s.toClient.take (n + 1)).length = s.toClient.drop (n + 1) := by
    rw [List.length_take, List.drop_eq_drop_iff]
    omega
  have hbuf : got ++ s.toClient.take (n + 1) ≠ [] := List.append_ne_nil_of_right_ne_nil _ hne
  have hhead : (got ++ s.toClient.take (n + 1)).head? =
      some (if fin = true then startFinByte else startByte) := by
    rw [← head_makeServerReply hsize, ← hsplit, List.head?_append_of_ne_nil _ hbuf]
  have hstart : ¬ ((got ++ s.toClient.take (n + 1)).head? ≠ some startByte ∧
      (got ++ s.toClient.take (n + 1)).head? ≠ some startFinByte) := by
    rw [hhead]
    cases fin <;> simp
  have hfin : decide ((got ++ s.toClient.take (n + 1)).head? = some startFinByte) = fin := by
    rw [hhead]
    cases fin <;> rfl
  simp only [System.clientRecv, hchunk, if_neg hne, if_neg hstart, hfin, hdrop]
  by_cases hlast : s.toClient.drop (n + 1) = []
  · have hend := (getLast?_eq_end_iff hsize hsplit).mpr hlast
    rw [if_neg (not_not_intro hend), hlast]
    exact h.exchanged rfl
  · have hend := mt (getLast?_eq_end_iff hsize hsplit).mp hlast
    rw [if_pos hend]
    exact .answering fin _
      { client := rfl
        left := h.left
        connected := h.connected
        toServer := h.toServer
        toClient := hlast
        reply := hsplit
        ready := h.ready
        up := h.up
        framed := h.framed
        counted := h.counted }

end ClientRecv

/-! ### The server receives -/

/-- A receive of the server ends behind a byte of the length field that is the end byte: so many
bytes of the request are no longer on their way. -/
def EndsInSize : Act → System → Prop
  | .serverRecv n, s =>
      let received := s.current.clnLen - (s.toServer.length - (n + 1))
      received = 2 ∧ s.current.hi = endByte ∨ received = 3 ∧ s.current.lo = endByte
  | _, _ => False

/-- A byte string was taken for a request that is not the one sent. -/
def Spoiled (s : System) : Prop :=
  ∃ (j : ℕ) (bytes : List UInt8) (request : Request),
    s.requests[j]? = some bytes ∧ s.sent[j]? = some request ∧ bytes ≠ request.bytes

section ServerRecv

variable {answered : List Request} {k : ℕ}

/-- A receive moves `c` bytes of the request into the buffer. -/
structure Received (s : System) (n k c : ℕ) : Prop where
  pos : 1 ≤ c
  le : k + c ≤ s.current.clnLen
  ends : k + c = s.current.clnLen - (s.toServer.length - (n + 1))
  chunk : s.toServer.take (min (n + 1) (maxMsgLen - k)) = (s.current.bytes.drop k).take c
  length : ((s.current.bytes.drop k).take c).length = c
  rest : s.toServer.drop c = s.current.bytes.drop (k + c)
  stored : (s.thread.recvMsg.store k ((s.current.bytes.drop k).take c)).load 0 (k + c) =
    s.current.bytes.take (k + c)

theorem Asking.received (h : Asking cfg answered k s) (n : ℕ) : ∃ c, Received s n k c := by
  have hlt := h.lt
  have hmax := s.current.clnLen_le
  have hrest : (s.current.bytes.drop k).length = s.current.clnLen - k := by
    rw [List.length_drop, Request.length_bytes]
  refine ⟨min (n + 1) (s.current.clnLen - k), ?_⟩
  have hlength : ((s.current.bytes.drop k).take (min (n + 1) (s.current.clnLen - k))).length =
      min (n + 1) (s.current.clnLen - k) := by
    rw [List.length_take, hrest]
    omega
  constructor
  · omega
  · omega
  · rw [h.toServer, hrest]
    omega
  · rw [h.toServer, List.take_eq_take_iff, hrest]
    omega
  · exact hlength
  · rw [h.toServer, List.drop_drop]
  · rw [Memory.load_add, Nat.zero_add, Memory.load_store_disjoint (Or.inl (Nat.zero_add k).le),
      Memory.load_store hlength.ge, h.stored, List.take_add, List.take_take, Nat.min_self]

variable {n c : ℕ}

/-- What the buffer holds after a receive. -/
def Received.msg (_ : Received s n k c) : Memory :=
  s.thread.recvMsg.store k ((s.current.bytes.drop k).take c)

section Received

variable (h : Received s n k c)

include h

/-- The bytes that have been received are those of the request. -/
theorem Received.byte {i : ℕ} (hi : i < k + c) : s.current.bytes[i]? = some (h.msg i) := by
  have hload := Memory.getElem?_load h.msg 0 hi
  rwa [Received.msg, h.stored, List.getElem?_take_of_lt hi, Nat.zero_add] at hload

theorem Received.msg_zero : h.msg 0 = startByte := by
  have hpos := h.pos
  have hbyte := h.byte (i := 0) (by omega)
  rw [Request.bytes_eq] at hbyte
  exact (Option.some.inj hbyte).symm

theorem Received.msg_one (hi : 2 ≤ k + c) : h.msg 1 = s.current.hi := by
  have hbyte := h.byte (i := 1) hi
  rw [Request.bytes_eq] at hbyte
  exact (Option.some.inj hbyte).symm

theorem Received.msg_two (hi : 3 ≤ k + c) : h.msg 2 = s.current.lo := by
  have hbyte := h.byte (i := 2) hi
  rw [Request.bytes_eq] at hbyte
  exact (Option.some.inj hbyte).symm

/-- The last byte that has arrived looks like the end of the request. -/
theorem Received.end_iff :
    h.msg (k + c - 1) = endByte ↔
      k + c = s.current.clnLen ∨ EndsInSize (.serverRecv n) s := by
  have hpos := h.pos
  have hle := h.le
  have hbyte := h.byte (i := k + c - 1) (by omega)
  have hend := s.current.getElem?_bytes_eq_end_iff (i := k + c - 1) (by omega)
  rw [hbyte, Option.some.injEq] at hend
  simp only [EndsInSize, ← h.ends]
  rw [hend, show k + c - 1 + 1 = k + c by omega, show k + c - 1 = 1 ↔ k + c = 2 by omega,
    show k + c - 1 = 2 ↔ k + c = 3 by omega]

/-- What is taken for a request has a length field that is accepted. -/
theorem Received.parse (hend : h.msg (k + c - 1) = endByte) :
    ∃ size, parseClientRequest h.msg = some size ∧
      (k + c = s.current.clnLen → size = s.current.srvLen) := by
  have hclnLen : 5 ≤ s.current.clnLen := s.current.clnLen_ge
  have hsrvLen : 5 ≤ s.current.srvLen := s.current.srvLen_ge
  have hsize := s.current.size_eq
  by_cases htwo : k + c = 2
  · have hhi : s.current.hi = endByte := by
      rcases h.end_iff.mp hend with hall | hcut
      · omega
      · simp only [EndsInSize, ← h.ends] at hcut
        rcases hcut with ⟨-, hhi⟩ | ⟨hthree, -⟩
        · exact hhi
        · omega
    have hone : (h.msg 1).toNat = 10 := by
      rw [h.msg_one (by omega), hhi]
      rfl
    exact ⟨_, parseClientRequest_of_two_le (by omega), fun hall => by omega⟩
  · have hthree : 3 ≤ k + c := by
      rcases h.end_iff.mp hend with hall | hcut
      · omega
      · simp only [EndsInSize, ← h.ends] at hcut
        omega
    have hfield : 256 * (h.msg 1).toNat + (h.msg 2).toNat = s.current.srvLen := by
      rw [h.msg_one (by omega), h.msg_two hthree, hsize]
    exact ⟨_, parseClientRequest_of_two_le (by omega), fun _ => hfield⟩

end Received

variable (h : Asking cfg answered k s)

include h

variable (hrecv : Received s n k c)

include hrecv

/-- What a receive of a part of the request does. -/
theorem Asking.serverRecv_eq :
    s.serverRecv cfg n =
      if hrecv.msg (k + c - 1) ≠ endByte then
        { s with
          toServer := s.current.bytes.drop (k + c)
          thread := { s.thread with recvMsg := hrecv.msg, offset := k + c } }
      else
        System.respond cfg hrecv.msg (k + c)
          { s with toServer := s.current.bytes.drop (k + c) } := by
  have hne : (s.current.bytes.drop k).take c ≠ [] := by
    intro hnil
    have hlength := hrecv.length
    have hpos := hrecv.pos
    rw [hnil, List.length_nil] at hlength
    omega
  have hstart : ¬ (hrecv.msg 0 ≠ startByte ∧ hrecv.msg 0 ≠ startFinByte) := fun hnot =>
    hnot.1 hrecv.msg_zero
  simp only [Received.msg] at hstart ⊢
  simp only [System.serverRecv, h.offset, hrecv.chunk, if_neg hne, hrecv.length, hrecv.rest,
    if_neg hstart]
  rfl

/-- The request is not yet complete. -/
theorem Asking.serverRecv_going (hend : hrecv.msg (k + c - 1) ≠ endByte) :
    Asking cfg answered (k + c) (s.serverRecv cfg n) := by
  have hlt : k + c < s.current.clnLen := by
    apply lt_of_le_of_ne hrecv.le
    intro hall
    exact hend (hrecv.end_iff.mpr (Or.inl hall))
  rw [h.serverRecv_eq hrecv, if_pos hend]
  exact
    { client := h.client
      left := h.left
      connected := h.connected
      toServer := rfl
      toClient := h.toClient
      running := h.running
      offset := rfl
      lt := hlt
      stored := hrecv.stored
      accepts := h.accepts
      up := h.up
      sent := h.sent
      framed := h.framed
      counted := h.counted }

/-- What has arrived is taken for a request. -/
theorem Asking.serverRecv_answers (hend : hrecv.msg (k + c - 1) = endByte) :
    ∃ size, (k + c = s.current.clnLen → size = s.current.srvLen) ∧
      s.serverRecv cfg n = System.answer cfg hrecv.msg (k + c) size
        { s with toServer := s.current.bytes.drop (k + c) } := by
  obtain ⟨size, hparse, hsize⟩ := hrecv.parse hend
  have hfin : hrecv.msg 0 ≠ startFinByte := by
    rw [hrecv.msg_zero]
    decide
  refine ⟨size, hsize, ?_⟩
  rw [h.serverRecv_eq hrecv, if_neg (not_not_intro hend), System.respond, if_neg hfin, hparse]

/-- The whole request has arrived. -/
theorem Asking.serverRecv_all (hall : k + c = s.current.clnLen) :
    ∃ fin, Answering cfg fin [] (s.serverRecv cfg n) := by
  obtain ⟨size, hsize, hanswer⟩ :=
    h.serverRecv_answers hrecv (hrecv.end_iff.mpr (Or.inl hall))
  obtain rfl := hsize hall
  have hge : 5 ≤ s.current.srvLen := s.current.srvLen_ge
  have htwo : 2 ≤ s.current.srvLen := by omega
  have hload : hrecv.msg.load 0 (k + c) = s.current.bytes := by
    rw [Received.msg, hrecv.stored, hall, ← Request.length_bytes, List.take_length]
  refine ⟨decide (s.thread.numRequests + 1 ≥ cfg.serverMaxRequests), ?_⟩
  rw [hanswer]
  simp only [System.answer, onWire_makeServerReply, h.toClient, hload, List.nil_append]
  exact
    { client := h.client
      left := h.left
      connected := h.connected
      toServer := by rw [hall, ← Request.length_bytes]; exact List.drop_length
      toClient := by simp [makeServerReply]
      reply := rfl
      ready := fun hfin => ⟨by rw [hfin]; rfl, rfl, by simpa using hfin⟩
      up := h.up
      framed :=
        { bytes_eq := by rw [h.sent, h.framed.bytes_eq, List.map_append]; rfl
          lengths_eq := by
            rw [h.sent, List.map_append, h.framed.lengths_eq, List.map_append]
            simp [length_makeServerReply htwo] }
      counted := by
        rw [h.sent, List.length_append, h.counted]
        rfl }

/-- A receive that ends in the length field makes a request of a part of the message. -/
theorem Asking.serverRecv_spoils (hcut : EndsInSize (.serverRecv n) s) :
    Spoiled (s.serverRecv cfg n) := by
  obtain ⟨size, -, hanswer⟩ := h.serverRecv_answers hrecv (hrecv.end_iff.mpr (Or.inr hcut))
  have hlen : 5 ≤ s.current.clnLen := s.current.clnLen_ge
  have hpart : k + c < s.current.clnLen := by
    simp only [EndsInSize, ← hrecv.ends] at hcut
    omega
  refine ⟨answered.length, s.current.bytes.take (k + c), s.current, ?_, ?_, ?_⟩
  · rw [hanswer]
    simp only [System.answer, Received.msg, hrecv.stored, h.framed.bytes_eq]
    rw [List.getElem?_append_right (by simp)]
    simp
  · rw [hanswer]
    simp only [System.answer, h.sent]
    rw [List.getElem?_append_right (Nat.le_refl _), Nat.sub_self]
    rfl
  · intro heq
    have hlength := congrArg List.length heq
    rw [List.length_take, Request.length_bytes] at hlength
    omega

end ServerRecv

end EDDTs.Netstress
