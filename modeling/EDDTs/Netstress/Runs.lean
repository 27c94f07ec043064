import EDDTs.Netstress.Exchange

/-!
# Whole runs of `netstress`

Every run of the client and the server ends. It ends with all exchanges done as they should be
when no receive of the server ended behind a byte of the length field that is the end byte, and
only then.
-/

namespace EDDTs.Netstress

open Library Interleaving

variable {cfg : Setting} {s : System}

/-! ### One step -/

/-- A thread without anything to receive ends with the connection. -/
theorem serverRecv_of_nil (h : s.toServer = []) (n : ℕ) :
    s.serverRecv cfg n = { s with thread := { s.thread with running := false } } := by
  simp [System.serverRecv, h]

theorem not_endsInSize_of_nil (h : s.toServer = []) (a : Act) : ¬ EndsInSize a s := by
  have hlen : 5 ≤ s.current.clnLen := s.current.clnLen_ge
  cases a with
  | serverRecv n =>
      simp only [EndsInSize, h, List.length_nil, Nat.zero_sub, Nat.sub_zero]
      omega
  | _ => exact id

variable {a : Act}

theorem Idle.step (h : Idle cfg s) (ha : Enabled a s) : InPhase cfg (step cfg a s) := by
  cases a with
  | clientSend => exact .asking s.sent 0 h.clientSend
  | clientRecv n =>
      have hreceiving := ha.1
      rw [h.client] at hreceiving
      cases hreceiving
  | serverRecv n =>
      have hclosed := ha.2.resolve_left (not_not_intro h.toServer)
      rw [Netstress.step, serverRecv_of_nil h.toServer]
      refine .idle ⟨h.client, h.left, h.toServer, h.toClient, ?_, h.up, h.framed, h.counted⟩
      intro hconnected
      cases hclosed.symm.trans hconnected

theorem Asking.step {answered : List Request} {k : ℕ} (h : Asking cfg answered k s)
    (ha : Enabled a s) :
    ¬ EndsInSize a s ∧ InPhase cfg (step cfg a s) ∨
      EndsInSize a s ∧ Spoiled (step cfg a s) := by
  cases a with
  | clientSend => cases h.client.symm.trans ha
  | clientRecv n =>
      rcases ha.2 with hsome | hover
      · exact absurd h.toClient hsome
      · cases hover.symm.trans h.running
  | serverRecv n =>
      obtain ⟨c, hrecv⟩ := h.received n
      by_cases hcut : EndsInSize (.serverRecv n) s
      · exact Or.inr ⟨hcut, h.serverRecv_spoils hrecv hcut⟩
      · refine Or.inl ⟨hcut, ?_⟩
        by_cases hall : k + c = s.current.clnLen
        · obtain ⟨fin, hanswering⟩ := h.serverRecv_all hrecv hall
          exact .answering fin [] hanswering
        · have hend : hrecv.msg (k + c - 1) ≠ endByte := fun hend =>
            (hrecv.end_iff.mp hend).elim hall hcut
          exact .asking answered (k + c) (h.serverRecv_going hrecv hend)

theorem Answering.step {fin : Bool} {got : List UInt8} (h : Answering cfg fin got s)
    (ha : Enabled a s) : InPhase cfg (step cfg a s) := by
  cases a with
  | clientSend => cases h.client.symm.trans ha
  | clientRecv n =>
      simp only [Netstress.step, h.client]
      exact h.clientRecv n
  | serverRecv n =>
      rcases ha.2 with hsome | hclosed
      · exact absurd h.toServer hsome
      · cases hclosed.symm.trans h.connected

theorem Done.step (h : Done cfg s) (ha : Enabled a s) : InPhase cfg (step cfg a s) := by
  cases a with
  | clientSend => cases h.client.symm.trans ha
  | clientRecv n =>
      have hreceiving := ha.1
      rw [h.client] at hreceiving
      cases hreceiving
  | serverRecv n =>
      rw [Netstress.step, serverRecv_of_nil h.toServer]
      exact .done ⟨h.client, h.exchanges, h.toServer, h.up, h.framed, h.counted⟩

/-- A step goes on in a phase, or it ends in the length field and spoils the requests. -/
theorem InPhase.step (h : InPhase cfg s) (ha : Enabled a s) :
    ¬ EndsInSize a s ∧ InPhase cfg (step cfg a s) ∨
      EndsInSize a s ∧ Spoiled (step cfg a s) := by
  cases h with
  | idle h => exact Or.inl ⟨not_endsInSize_of_nil h.toServer a, h.step ha⟩
  | asking answered k h => exact h.step ha
  | answering fin got h => exact Or.inl ⟨not_endsInSize_of_nil h.toServer a, h.step ha⟩
  | done h => exact Or.inl ⟨not_endsInSize_of_nil h.toServer a, h.step ha⟩

/-! ### What was taken stays taken -/

/-- The histories only grow. -/
structure Grows (s s' : System) : Prop where
  requests : s.requests <+: s'.requests
  sent : s.sent <+: s'.sent

theorem Grows.refl (s : System) : Grows s s := ⟨List.prefix_refl _, List.prefix_refl _⟩

theorem grows_clientSend (s : System) : Grows s (s.clientSend cfg) := by
  unfold System.clientSend
  split_ifs
  all_goals first
    | exact ⟨List.prefix_refl _, List.prefix_append _ _⟩
    | exact ⟨List.prefix_refl _, List.prefix_refl _⟩

theorem grows_clientRecv (s : System) (got : List UInt8) (n : ℕ) :
    Grows s (s.clientRecv cfg got n) := by
  simp only [System.clientRecv]
  split_ifs <;> exact ⟨List.prefix_refl _, List.prefix_refl _⟩

theorem grows_serverRecv (s : System) (n : ℕ) : Grows s (s.serverRecv cfg n) := by
  simp only [System.serverRecv, System.respond]
  split_ifs
  · exact ⟨List.prefix_refl _, List.prefix_refl _⟩
  · exact ⟨List.prefix_refl _, List.prefix_refl _⟩
  · exact ⟨List.prefix_refl _, List.prefix_refl _⟩
  · exact ⟨List.prefix_refl _, List.prefix_refl _⟩
  · split
    · exact ⟨List.prefix_refl _, List.prefix_refl _⟩
    · exact ⟨List.prefix_append _ _, List.prefix_refl _⟩

theorem grows_step (a : Act) (s : System) : Grows s (step cfg a s) := by
  cases a with
  | clientSend => exact grows_clientSend s
  | clientRecv n =>
      unfold step
      cases s.client with
      | receiving got => exact grows_clientRecv s got n
      | _ => exact Grows.refl s
  | serverRecv n => exact grows_serverRecv s n

theorem getElem?_of_grows {α : Type*} {xs ys : List α} (h : xs <+: ys) {j : ℕ} {x : α}
    (hx : xs[j]? = some x) : ys[j]? = some x := by
  obtain ⟨zs, rfl⟩ := h
  rw [List.getElem?_append_left (List.getElem?_eq_some_iff.mp hx).1, hx]

theorem Spoiled.step (h : Spoiled s) (a : Act) : Spoiled (step cfg a s) := by
  obtain ⟨j, bytes, request, hbytes, hrequest, hne⟩ := h
  have hgrows : Grows s (Netstress.step cfg a s) := grows_step a s
  exact ⟨j, bytes, request, getElem?_of_grows hgrows.requests hbytes,
    getElem?_of_grows hgrows.sent hrequest, hne⟩

/-! ### Every run ends -/

/-- What is still to come of the exchanges: for each a send, at most `maxMsgLen` bytes to the
server with as many in reply to each, and the end of the two loops. -/
def perExchange : ℕ := (maxMsgLen + 1) * maxMsgLen + 4

def Client.rank (left : ℕ) : Client → ℕ
  | .sending => left * perExchange
  | .receiving _ => (left - 1) * perExchange + 2
  | .finished => 0
  | .failed => 0

def System.rank (cfg : Setting) (s : System) : ℕ :=
  s.client.rank (cfg.clientMaxRequests - s.exchanges) + (maxMsgLen + 1) * s.toServer.length +
    s.toClient.length + s.thread.running.toNat

/-- The client has exchanges to do while it is not at its end. -/
def InTime (cfg : Setting) (s : System) : Prop :=
  s.client = .sending ∨ s.client.isReceiving = true → s.exchanges < cfg.clientMaxRequests

theorem inTime_of_over (h : s.client = .finished ∨ s.client = .failed) : InTime cfg s := by
  rintro (hsending | hreceiving)
  · rcases h with h | h <;> cases h.symm.trans hsending
  · rcases h with h | h <;> rw [h] at hreceiving <;> cases hreceiving

/-- A receive that returns something leaves less on the way. -/
theorem length_rest_lt {xs : List UInt8} {m : ℕ} (h : xs.take m ≠ []) :
    (xs.drop (xs.take m).length).length + 1 ≤ xs.length := by
  have hpos := List.length_pos_of_ne_nil h
  rw [List.length_take] at hpos
  rw [List.length_drop, List.length_take]
  omega

theorem rank_clientSend (h : InTime cfg s) (hsending : s.client = .sending) :
    InTime cfg (s.clientSend cfg) ∧ (s.clientSend cfg).rank cfg + 1 ≤ s.rank cfg := by
  have hleft := h (Or.inl hsending)
  have hlen : ∀ r : Request, r.bytes.length ≤ 65535 := fun r => r.length_bytes ▸ r.clnLen_le
  unfold System.clientSend
  by_cases hconnected : s.connected = true
  · rw [if_pos hconnected]
    refine ⟨fun _ => hleft, ?_⟩
    have hnew := hlen (if cfg.maxRand = 0 then s.current else cfg.make s.made)
    simp only [System.rank, hsending, Client.rank, perExchange, maxMsgLen, List.length_append]
    omega
  · rw [if_neg hconnected]
    by_cases hdown : s.down = true
    · rw [if_pos hdown]
      refine ⟨inTime_of_over (Or.inr rfl), ?_⟩
      simp only [System.rank, hsending, Client.rank, perExchange, maxMsgLen]
      omega
    · rw [if_neg hdown]
      refine ⟨fun _ => hleft, ?_⟩
      have hnew := hlen s.current
      simp only [System.rank, hsending, Client.rank, perExchange, maxMsgLen, List.length_nil,
        Bool.toNat_true]
      omega

/-- The client fails, or has received a part of what was on its way. -/
theorem rank_clientRecv (h : InTime cfg s) {got : List UInt8} (n : ℕ)
    (hreceiving : s.client = .receiving got) :
    InTime cfg (s.clientRecv cfg got n) ∧ (s.clientRecv cfg got n).rank cfg + 1 ≤ s.rank cfg := by
  have hleft := h (Or.inr (by rw [hreceiving]; rfl))
  simp only [System.clientRecv]
  split_ifs with hnone hstart hend
  · refine ⟨inTime_of_over (Or.inr rfl), ?_⟩
    simp only [System.rank, System.clientFails, hreceiving, Client.rank]
    omega
  all_goals have hdrop := length_rest_lt hnone
  · refine ⟨inTime_of_over (Or.inr rfl), ?_⟩
    simp only [System.rank, System.clientFails, hreceiving, Client.rank]
    omega
  · refine ⟨fun _ => hleft, ?_⟩
    simp only [System.rank, hreceiving, Client.rank]
    omega
  · by_cases hmore : s.exchanges + 1 < cfg.clientMaxRequests
    · refine ⟨fun _ => hmore, ?_⟩
      simp only [System.exchanged, System.rank, hreceiving, Client.rank, if_pos hmore,
        show cfg.clientMaxRequests - (s.exchanges + 1) =
          cfg.clientMaxRequests - s.exchanges - 1 by omega]
      omega
    · refine ⟨inTime_of_over (Or.inl (if_neg hmore)), ?_⟩
      simp only [System.exchanged, System.rank, hreceiving, Client.rank, if_neg hmore]
      omega

theorem length_answered_le {fin : Bool} {size sendType : ℕ} {msg : Memory}
    (h : parseClientRequest msg = some size) :
    (onWire sendType (makeServerReply fin size)).length ≤ maxMsgLen := by
  simp only [parseClientRequest] at h
  split_ifs at h with hrange
  obtain rfl := Option.some.inj h
  rw [onWire_makeServerReply, length_makeServerReply (by omega)]
  omega

/-- A reply is as long as a message can be. -/
theorem rank_respond (h : InTime cfg s) (hrunning : s.thread.running = true) (msg : Memory)
    (offset : ℕ) :
    InTime cfg (s.respond cfg msg offset) ∧
      (s.respond cfg msg offset).rank cfg ≤ s.rank cfg + maxMsgLen := by
  have hfails : InTime cfg s.serverFails ∧ s.serverFails.rank cfg ≤ s.rank cfg + maxMsgLen := by
    refine ⟨h, ?_⟩
    simp only [System.rank, System.serverFails, Bool.toNat_false]
    omega
  unfold System.respond
  split_ifs
  · exact hfails
  · cases hparse : parseClientRequest msg with
    | none => exact hfails
    | some size =>
        refine ⟨h, ?_⟩
        have hlen := fun fin => @length_answered_le fin size s.thread.sendType msg hparse
        have hreply := hlen (decide (s.thread.numRequests + 1 ≥ cfg.serverMaxRequests))
        have hone := Bool.toNat_le (!decide (s.thread.numRequests + 1 ≥ cfg.serverMaxRequests))
        simp only [System.rank, System.answer, List.length_append, hrunning, Bool.toNat_true]
        omega

/-- The thread ends, or has received a part of what was on its way. -/
theorem rank_serverRecv (h : InTime cfg s) (n : ℕ) (hrunning : s.thread.running = true) :
    InTime cfg (s.serverRecv cfg n) ∧ (s.serverRecv cfg n).rank cfg + 1 ≤ s.rank cfg := by
  simp only [System.serverRecv]
  split_ifs with hnone hstart hend
  · refine ⟨h, ?_⟩
    simp only [System.rank, hrunning, Bool.toNat_false, Bool.toNat_true]
    omega
  all_goals have hdrop := length_rest_lt hnone
  · refine ⟨h, ?_⟩
    simp only [System.rank, System.serverFails, hrunning, Bool.toNat_false, Bool.toNat_true,
      maxMsgLen] at hdrop ⊢
    omega
  · refine ⟨h, ?_⟩
    simp only [System.rank, maxMsgLen] at hdrop ⊢
    omega
  · generalize s.toServer.take (min (n + 1) (maxMsgLen - s.thread.offset)) = chunk at hdrop ⊢
    have hless : InTime cfg { s with toServer := s.toServer.drop chunk.length } := h
    obtain ⟨htime, hrank⟩ := rank_respond hless hrunning
      (s.thread.recvMsg.store s.thread.offset chunk) (s.thread.offset + chunk.length)
    refine ⟨htime, Nat.le_trans (Nat.succ_le_succ hrank) ?_⟩
    simp only [System.rank, maxMsgLen] at hdrop ⊢
    omega

theorem rank_step (h : InTime cfg s) (ha : Enabled a s) :
    InTime cfg (step cfg a s) ∧ (step cfg a s).rank cfg + 1 ≤ s.rank cfg := by
  cases a with
  | clientSend => exact rank_clientSend h ha
  | clientRecv n =>
      cases hclient : s.client with
      | receiving got =>
          simp only [step, hclient]
          exact rank_clientRecv h n hclient
      | _ =>
          have hreceiving := ha.1
          rw [hclient] at hreceiving
          cases hreceiving
  | serverRecv n => exact rank_serverRecv h n ha.1

/-! ### The whole -/

/-- No receive of the server ended behind a byte of the length field that is the end byte. -/
def Uncut (cfg : Setting) (acts : List Act) : Prop :=
  AllEnabled (step cfg) (fun a s => ¬ EndsInSize a s) (init cfg) acts

/-- The server has taken every message of the client for one request and has replied with the
length that it asks for, and the client has done its exchanges. -/
structure Completes (cfg : Setting) (s : System) : Prop where
  framed : Framed s.sent s.requests s.replies
  client : s.client = .finished
  exchanges : s.exchanges = cfg.clientMaxRequests
  counted : s.sent.length = cfg.clientMaxRequests
  up : s.down = false

theorem Spoiled.exec (h : Spoiled s) (acts : List Act) :
    Spoiled (Interleaving.exec (Netstress.step cfg) s acts) := by
  induction acts generalizing s with
  | nil => exact h
  | cons a acts ih => exact ih (h.step a)

/-- A run from a phase stays in the phases until it is cut. -/
theorem InPhase.exec (h : InPhase cfg s) {acts : List Act}
    (henabled : AllEnabled (Netstress.step cfg) Enabled s acts) :
    AllEnabled (Netstress.step cfg) (fun a t => ¬ EndsInSize a t) s acts ∧
        InPhase cfg (Interleaving.exec (Netstress.step cfg) s acts) ∨
      ¬ AllEnabled (Netstress.step cfg) (fun a t => ¬ EndsInSize a t) s acts ∧
        Spoiled (Interleaving.exec (Netstress.step cfg) s acts) := by
  induction acts generalizing s with
  | nil => exact Or.inl ⟨trivial, h⟩
  | cons a acts ih =>
      rcases h.step henabled.1 with ⟨hcut, hphase⟩ | ⟨hcut, hspoiled⟩
      · rcases ih hphase henabled.2 with ⟨huncut, hend⟩ | ⟨hlater, hend⟩
        · exact Or.inl ⟨⟨hcut, huncut⟩, hend⟩
        · exact Or.inr ⟨fun hall => hlater hall.2, hend⟩
      · exact Or.inr ⟨fun hall => hall.1 hcut, hspoiled.exec acts⟩

/-- At the end of the phases all exchanges are done. -/
theorem InPhase.completes (h : InPhase cfg s) (hended : Ended s) : Completes cfg s := by
  cases h with
  | idle h => exact absurd h.client (hended .clientSend)
  | asking answered k h =>
      have hmore : s.toServer ≠ [] := by
        rw [h.toServer, ne_eq, List.drop_eq_nil_iff, Request.length_bytes]
        exact Nat.not_le.mpr h.lt
      exact absurd ⟨h.running, Or.inl hmore⟩ (hended (.serverRecv 0))
  | answering fin got h =>
      have hreceiving : s.client.isReceiving = true := by
        rw [h.client]
        rfl
      exact absurd ⟨hreceiving, Or.inl h.toClient⟩ (hended (.clientRecv 0))
  | done h =>
      exact ⟨h.framed, h.client, h.exchanges, h.counted.trans h.exchanges, h.up⟩

theorem Spoiled.not_completes (h : Spoiled s) : ¬ Completes cfg s := by
  obtain ⟨j, bytes, request, hbytes, hrequest, hne⟩ := h
  intro hcompletes
  rw [hcompletes.framed.bytes_eq, List.getElem?_map, hrequest] at hbytes
  exact hne (Option.some.inj hbytes).symm

/-- Every run has an end, and there the exchanges are done as they should be when the run was
not cut in a length field, and only then. -/
theorem run_completes_iff (cfg : Setting) (acts : List Act) (hrun : IsRun cfg acts) :
    acts.length ≤ (init cfg).rank cfg ∧
      (Ended (run cfg acts) → (Completes cfg (run cfg acts) ↔ Uncut cfg acts)) := by
  constructor
  · exact length_le_of_rank (InTime cfg) (System.rank cfg)
      (fun t a ha ht => rank_step ht ha) (fun _ => cfg.clientMaxRequests_pos) hrun
  · intro hended
    have hphase : InPhase cfg (init cfg) := .idle (idle_init cfg)
    rcases hphase.exec hrun with ⟨huncut, hend⟩ | ⟨hcut, hspoiled⟩
    · exact iff_of_true (hend.completes hended) huncut
    · exact iff_of_false hspoiled.not_completes hcut

/-- Requests of five bytes for replies of ten. -/
def tenBytes (clientMaxRequests : ℕ) (h : 1 ≤ clientMaxRequests) : Setting where
  request := ⟨5, 10, by decide, by decide, by decide, by decide⟩
  maxRand := 0
  maxRand_range := Or.inl rfl
  clientMaxRequests := clientMaxRequests
  clientMaxRequests_pos := h
  serverMaxRequests := 3
  serverMaxRequests_pos := by decide
  rand _ := 0
  stack _ _ := 0

theorem run_completes_iff_tenBytes :
    let acts := [Act.clientSend, .serverRecv 4, .clientRecv 9, .serverRecv 0]
    IsRun (tenBytes 1 (by decide)) acts ∧ Ended (run (tenBytes 1 (by decide)) acts) ∧
      (Completes (tenBytes 1 (by decide)) (run (tenBytes 1 (by decide)) acts) ↔
        Uncut (tenBytes 1 (by decide)) acts) := by
  have hrun : IsRun (tenBytes 1 (by decide))
      [.clientSend, .serverRecv 4, .clientRecv 9, .serverRecv 0] := by decide +kernel
  have hended : Ended (run (tenBytes 1 (by decide))
      [.clientSend, .serverRecv 4, .clientRecv 9, .serverRecv 0]) := by decide +kernel
  exact ⟨hrun, hended, (run_completes_iff _ _ hrun).2 hended⟩

/-- The second byte of the length ten is the end byte. A receive that ends behind it makes a
request of three bytes; the rest of the message is refused, and the client fails in its second
exchange. -/
theorem run_tenBytes_cut :
    let acts := [Act.clientSend, .serverRecv 2, .clientRecv 9, .clientSend, .serverRecv 1,
      .clientRecv 0]
    let s := run (tenBytes 2 (by decide)) acts
    IsRun (tenBytes 2 (by decide)) acts ∧ Ended s ∧ s.client = .failed ∧ s.sent.length = 2 ∧
      s.requests = [[0x24, 0x00, 0x0a]] ∧ s.down = true := by
  decide +kernel

end EDDTs.Netstress
