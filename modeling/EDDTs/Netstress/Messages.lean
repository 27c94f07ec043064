import EDDTs.Library.Memory

/-!
# The messages of `netstress`

A request begins with a start byte and the length of the reply that it asks for, and ends with an
end byte. A reply ends with the same byte; its first byte tells whether the server is about to
close the connection.
-/

namespace EDDTs.Netstress

open Library

/-- `min_msg_len` -/
def minMsgLen : ℕ := 5

/-- `max_msg_len` -/
def maxMsgLen : ℕ := 65535

/-- `client_byte` -/
def clientByte : UInt8 := 0x43

/-- `server_byte` -/
def serverByte : UInt8 := 0x53

/-- `start_byte` -/
def startByte : UInt8 := 0x24

/-- `start_fin_byte` -/
def startFinByte : UInt8 := 0x25

/-- `end_byte` -/
def endByte : UInt8 := 0x0a

/-- The two lengths of a request, which the options keep in range. -/
structure Request where
  clnLen : ℕ
  srvLen : ℕ
  clnLen_ge : minMsgLen ≤ clnLen
  clnLen_le : clnLen ≤ maxMsgLen
  srvLen_ge : minMsgLen ≤ srvLen
  srvLen_le : srvLen ≤ maxMsgLen

namespace Request

/-- `htons(srv_len)`, first byte -/
def hi (r : Request) : UInt8 := UInt8.ofNat (r.srvLen / 256)

/-- `htons(srv_len)`, second byte -/
def lo (r : Request) : UInt8 := UInt8.ofNat r.srvLen

/-- The message that `make_client_request` fills in. -/
def bytes (r : Request) : List UInt8 :=
  ((((List.replicate r.clnLen clientByte).set 0 startByte).set 1 r.hi).set 2 r.lo).set
    (r.clnLen - 1) endByte

@[simp] theorem length_bytes (r : Request) : r.bytes.length = r.clnLen := by
  simp [bytes]

theorem bytes_eq (r : Request) :
    r.bytes = startByte :: r.hi :: r.lo ::
      (List.replicate (r.clnLen - 4) clientByte ++ [endByte]) := by
  have hlen : 5 ≤ r.clnLen := r.clnLen_ge
  obtain ⟨n, hn⟩ : ∃ n, r.clnLen = n + 1 + 1 + 1 + 1 + 1 := ⟨r.clnLen - 5, by omega⟩
  have hmemset : List.replicate r.clnLen clientByte = clientByte :: clientByte :: clientByte ::
      (List.replicate (n + 1) clientByte ++ [clientByte]) := by
    rw [hn, ← List.replicate_succ']
    rfl
  have hlast : (List.replicate (n + 1) clientByte ++ [clientByte]).set (n + 1) endByte =
      List.replicate (n + 1) clientByte ++ [endByte] := by
    rw [List.set_append_right _ _ (by simp), List.length_replicate, Nat.sub_self]
    rfl
  rw [bytes, hmemset, hn, show n + 1 + 1 + 1 + 1 + 1 - 4 = n + 1 by omega, ← hlast]
  rfl

/-- The bytes of a request that look like its end: the last one, and a byte of the reply length
that happens to be the end byte. -/
theorem getElem?_bytes_eq_end_iff (r : Request) {i : ℕ} (hi : i < r.clnLen) :
    r.bytes[i]? = some endByte ↔
      i + 1 = r.clnLen ∨ i = 1 ∧ r.hi = endByte ∨ i = 2 ∧ r.lo = endByte := by
  have hlen : 5 ≤ r.clnLen := r.clnLen_ge
  rw [bytes_eq]
  rcases i with _ | _ | _ | i
  · simp only [List.getElem?_cons_zero, Option.some.injEq]
    exact iff_of_false (by decide) (by omega)
  · have hno : 0 + 1 + 1 ≠ r.clnLen := by omega
    simp [hno]
  · have hno : 0 + 1 + 1 + 1 ≠ r.clnLen := by omega
    simp [hno]
  · simp only [List.getElem?_cons_succ]
    by_cases hlast : i + 4 = r.clnLen
    · rw [List.getElem?_append_right (by rw [List.length_replicate]; omega),
        List.length_replicate, show i - (r.clnLen - 4) = 0 by omega]
      exact iff_of_true rfl (Or.inl (by omega))
    · rw [List.getElem?_append_left (by rw [List.length_replicate]; omega),
        List.getElem?_replicate_of_lt (by omega)]
      exact iff_of_false (by decide) (by omega)

/-- The length that a request asks for is read back. -/
theorem size_eq (r : Request) : 256 * r.hi.toNat + r.lo.toNat = r.srvLen := by
  have hlen : r.srvLen ≤ 65535 := r.srvLen_le
  simp only [hi, lo, UInt8.toNat_ofNat']
  omega

end Request

/-- `parse_client_request` -/
def parseClientRequest (msg : Memory) : Option ℕ :=
  let size := 256 * (msg 1).toNat + (msg 2).toNat
  if size < 2 ∨ size > maxMsgLen then none else some size

/-- A length that asks for two bytes at least is taken; its two bytes cannot exceed the maximum. -/
theorem parseClientRequest_of_two_le {msg : Memory}
    (h : 2 ≤ 256 * (msg 1).toNat + (msg 2).toNat) :
    parseClientRequest msg = some (256 * (msg 1).toNat + (msg 2).toNat) := by
  have h1 := (msg 1).toNat_lt
  have h2 := (msg 2).toNat_lt
  unfold parseClientRequest
  rw [if_neg]
  simp only [maxMsgLen]
  omega

/-- `make_server_reply`, and the first byte of the last reply of a connection -/
def makeServerReply (fin : Bool) (size : ℕ) : List UInt8 :=
  ((List.replicate (size - 1) serverByte).set 0 (if fin = true then startFinByte else startByte)) ++
    [endByte]

/-- What `send`, `sendto` and `sendmsg` put on the wire in turn; the last one takes the end byte
from an array of its own. -/
def onWire (sendType : ℕ) (msg : List UInt8) : List UInt8 :=
  match sendType with
  | 0 => msg
  | 1 => msg
  | _ => msg.take (msg.length - 1) ++ [endByte]

section Reply

variable {fin : Bool} {size : ℕ}

theorem length_makeServerReply (h : 2 ≤ size) : (makeServerReply fin size).length = size := by
  simp only [makeServerReply, List.length_append, List.length_set, List.length_replicate,
    List.length_singleton]
  omega

/-- The three ways to send put the same bytes on the wire. -/
theorem onWire_makeServerReply (sendType : ℕ) :
    onWire sendType (makeServerReply fin size) = makeServerReply fin size := by
  unfold onWire
  split
  · rfl
  · rfl
  · simp [makeServerReply]

theorem head_makeServerReply (h : 2 ≤ size) :
    (makeServerReply fin size).head? = some (if fin = true then startFinByte else startByte) := by
  obtain ⟨n, rfl⟩ : ∃ n, size = n + 2 := ⟨size - 2, by omega⟩
  rfl

/-- The end byte ends a reply and does not occur before. -/
theorem makeServerReply_eq (fin : Bool) (h : 2 ≤ size) :
    ∃ body, makeServerReply fin size = body ++ [endByte] ∧ endByte ∉ body := by
  obtain ⟨n, rfl⟩ : ∃ n, size = n + 2 := ⟨size - 2, by omega⟩
  refine ⟨_, rfl, ?_⟩
  intro hmem
  rcases List.mem_or_eq_of_mem_set hmem with hbody | hfirst
  · exact absurd (List.eq_of_mem_replicate hbody) (by decide)
  · cases fin <;> exact absurd hfirst (by decide)

/-- A part of a reply ends with the end byte when it is the whole reply. -/
theorem getLast?_eq_end_iff (h : 2 ≤ size) {buf rest : List UInt8}
    (hreply : buf ++ rest = makeServerReply fin size) :
    buf.getLast? = some endByte ↔ rest = [] := by
  obtain ⟨body, hbody, hnot⟩ := makeServerReply_eq fin h
  rw [hbody] at hreply
  constructor
  · intro hlast
    rcases List.eq_nil_or_concat rest with hnil | ⟨init, last, rfl⟩
    · exact hnil
    · rw [List.concat_eq_append, ← List.append_assoc] at hreply
      have hinit := (List.append_inj' hreply rfl).1
      rw [← hinit] at hnot
      exact absurd (List.mem_append_left init (List.mem_of_getLast? hlast)) hnot
  · rintro rfl
    rw [List.append_nil] at hreply
    rw [hreply, List.getLast?_concat]

end Reply

end EDDTs.Netstress
