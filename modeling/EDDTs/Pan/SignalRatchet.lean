import EDDTs.Pan.DriverSlots

/-!
# What ltp-pan sends when it is signaled

A signal that arrives sets `send_signal` from the signal that was sent last, and
`propagate_signal` sends it to the process groups in the slots and in the list of
orphans. A round is one signal with the call of `propagate_signal` that follows.

The manual page has the ratchet send three milder signals and after that always
`SIGKILL`. The handler has no entry for some pairs of the signal sent last and the
signal that arrives, and none for `SIGKILL`: it then leaves `send_signal` as it is,
which is zero after the last round.
-/

namespace EDDTs.Pan

open Library Library.Interleaving

/-- The process groups that `propagate_signal` signals: those in the slots, and the
orphans. -/
def PanState.targets (s : PanState) : List Pid :=
  (s.running.map Slot.pgrp).filter (· ≠ 0) ++ s.orphans.filter (· ≠ 0)

/-- The steps of one call of `propagate_signal`; `kill` finds the orphans `emptied`
without members. -/
def propagateSteps (o : Options) (emptied : List Pid) : List Event :=
  .step {} :: List.replicate o.keepActive (.step {}) ++ [.step { emptied := emptied }]

/-- A signal arrives, and `propagate_signal` is called. -/
def signalRound (o : Options) (coll : List CollEntry) (r : Signal × List Pid) (s : PanState) :
    PanState :=
  exec (panStep o coll) { s with signals := waitHandler r.1 s.signals, pc := .propagate false }
    (propagateSteps o r.2)

/-- What `send_signal` is at each round. -/
def sentSignals (o : Options) (coll : List CollEntry) :
    PanState → List (Signal × List Pid) → List (Option Signal)
  | _, [] => []
  | s, r :: rs =>
      (waitHandler r.1 s.signals).sendSignal :: sentSignals o coll (signalRound o coll r s) rs

section Round

variable {o : Options} (coll : List CollEntry)

theorem pgrp_getElem? {running : List Slot} {i : Nat} (hi : i < running.length) :
    (running.map Slot.pgrp)[i]? = some (running.getD i {}).pgrp := by
  rw [List.getElem?_map, getElem?_eq_getD hi]
  rfl

theorem map_pgrp_set_stopping (running : List Slot) (i : Nat) :
    (running.set i { running.getD i {} with stopping := true }).map Slot.pgrp =
      running.map Slot.pgrp := by
  rw [List.map_set]
  by_cases hi : i < running.length
  · obtain ⟨hlt, hget⟩ := List.getElem?_eq_some_iff.mp (pgrp_getElem? hi)
    calc
      (running.map Slot.pgrp).set i (running.getD i {}).pgrp
        = (running.map Slot.pgrp).set i (running.map Slot.pgrp)[i] := by rw [hget]
      _ = running.map Slot.pgrp := List.set_getElem_self hlt
  · exact List.set_eq_of_length_le (by simpa using Nat.le_of_not_lt hi)

variable {s : PanState}

/-- One turn of the loop of `propagate_signal`. -/
theorem propagateTo_turn {i : Nat} (hpc : s.pc = .propagateTo false i) (hi : i < o.keepActive)
    (hlength : s.running.length = o.keepActive) : let t := panStep o coll (.step {}) s
    t.pc = .propagateTo false (i + 1) ∧ t.signals = s.signals ∧ t.orphans = s.orphans ∧
      t.running.map Slot.pgrp = s.running.map Slot.pgrp ∧
      t.kills ++ (((s.running.map Slot.pgrp).drop (i + 1)).filter (· ≠ 0)).map
          (fun p => (p, s.signals.sendSignal)) =
        s.kills ++ (((s.running.map Slot.pgrp).drop i).filter (· ≠ 0)).map
          fun p => (p, s.signals.sendSignal) := by
  have hstep : panStep o coll (.step {}) s = s.propagateTo o false i {} := by
    simp [panStep, panNext, hpc]
  have hdrop : (s.running.map Slot.pgrp).drop i =
      (s.running.getD i {}).pgrp :: (s.running.map Slot.pgrp).drop (i + 1) := by
    rw [List.drop_eq_getElem?_toList_append, pgrp_getElem? (hlength ▸ hi)]
    rfl
  intro t
  have ht : t = s.propagateTo o false i {} := hstep
  by_cases hfree : (s.running.getD i {}).pgrp = 0
  · have hturn : s.propagateTo o false i {} = { s with pc := .propagateTo false (i + 1) } := by
      simp only [PanState.propagateTo, if_pos hi, if_pos hfree]
    rw [hdrop, ht, hturn, List.filter_cons_of_neg (by rw [hfree]; decide)]
    exact ⟨rfl, rfl, rfl, rfl, rfl⟩
  · have hturn : s.propagateTo o false i {} =
        { s with
          toBooks := s.toBooks.setSlot i { s.running.getD i {} with stopping := true }
          kills := s.kills ++ [((s.running.getD i {}).pgrp, s.signals.sendSignal)]
          pc := .propagateTo false (i + 1) } := by
      simp only [PanState.propagateTo, if_pos hi, if_neg hfree]
    have hfilter : ((s.running.getD i {}).pgrp :: (s.running.map Slot.pgrp).drop (i + 1)).filter
        (· ≠ 0) = (s.running.getD i {}).pgrp ::
          ((s.running.map Slot.pgrp).drop (i + 1)).filter (· ≠ 0) :=
      List.filter_cons_of_pos (by simpa using hfree)
    rw [hdrop, ht, hturn, hfilter, List.map_cons]
    refine ⟨rfl, rfl, rfl, map_pgrp_set_stopping s.running i, ?_⟩
    exact List.append_assoc _ [_] _

/-- The loop of `propagate_signal` from the slot `i` on. -/
theorem propagateTo_loop (n : Nat) {i : Nat} (hpc : s.pc = .propagateTo false i)
    (hn : i + n = o.keepActive) (hlength : s.running.length = o.keepActive) :
    let t := exec (panStep o coll) s (List.replicate n (.step {}))
    t.pc = .propagateTo false o.keepActive ∧ t.signals = s.signals ∧ t.orphans = s.orphans ∧
      t.running.map Slot.pgrp = s.running.map Slot.pgrp ∧
      t.kills = s.kills ++ (((s.running.map Slot.pgrp).drop i).filter (· ≠ 0)).map
        fun p => (p, s.signals.sendSignal) := by
  induction n generalizing i s with
  | zero =>
      obtain rfl : i = o.keepActive := hn
      have hdrop : (s.running.map Slot.pgrp).drop o.keepActive = [] :=
        List.drop_eq_nil_of_le (by simp [hlength])
      simp [exec, hpc, hdrop]
  | succ n ih =>
      obtain ⟨hpc', hsignals, horphans, hrunning, hkills⟩ :=
        propagateTo_turn coll hpc (by omega) hlength
      have hlength' : (panStep o coll (.step {}) s).running.length = o.keepActive := by
        rw [← List.length_map Slot.pgrp, hrunning, List.length_map, hlength]
      have hrest := ih hpc' (by omega) hlength'
      rw [hsignals, horphans, hrunning, hkills] at hrest
      exact hrest

/-- A call of `propagate_signal` sends `send_signal` to every process group that ltp-pan
knows, and resets it. -/
theorem signalRound_spec (r : Signal × List Pid) (hlength : s.running.length = o.keepActive) :
    let t := signalRound o coll r s
    t.kills = s.kills ++ s.targets.map (fun p => (p, (waitHandler r.1 s.signals).sendSignal)) ∧
      t.signals = { lastsent := (waitHandler r.1 s.signals).lastsent } ∧
      t.running.map Slot.pgrp = s.running.map Slot.pgrp := by
  intro t
  -- the steps before the loop, in the loop and behind it
  let entered : PanState := { s with signals := waitHandler r.1 s.signals, pc := .propagate false }
  let first := panStep o coll (.step {}) entered
  let looped := exec (panStep o coll) first (List.replicate o.keepActive (.step {}))
  have ht : t = panStep o coll (.step { emptied := r.2 }) looped := by
    show exec _ _ (propagateSteps o r.2) = _
    rw [propagateSteps, exec_append]
    rfl
  have hfirst : first.pc = .propagateTo false 0 ∧ first.running = s.running ∧
      first.orphans = s.orphans ∧ first.kills = s.kills ∧
      first.signals.sendSignal = (waitHandler r.1 s.signals).sendSignal ∧
      first.signals.lastsent = (waitHandler r.1 s.signals).lastsent := by
    show (PanState.propagate false entered).pc = _ ∧ (PanState.propagate false entered).running = _ ∧
      (PanState.propagate false entered).orphans = _ ∧ (PanState.propagate false entered).kills = _ ∧
      (PanState.propagate false entered).signals.sendSignal = _ ∧
      (PanState.propagate false entered).signals.lastsent = _
    unfold PanState.propagate
    split <;> exact ⟨rfl, rfl, rfl, rfl, rfl, rfl⟩
  obtain ⟨hpc, hrunning, horphans, hkills, hsend, hlast⟩ := hfirst
  obtain ⟨hpc', hsignals', horphans', hrunning', hkills'⟩ :=
    propagateTo_loop coll o.keepActive hpc (Nat.zero_add _) (hrunning ▸ hlength)
  have hlast' : t = { (looped.checkOrphans r.2 looped.signals.sendSignal).clearSignals with
      pc := .propagated } := by
    rw [ht, panStep, panNext, hpc']
    simp [PanState.propagateTo]
  rw [hlast']
  refine ⟨?_, ?_, ?_⟩
  · show looped.kills ++ (looped.orphans.filter (· ≠ 0)).map
      (fun p => (p, looped.signals.sendSignal)) = _
    rw [hkills', horphans', hsignals', hkills, horphans, hrunning, hsend, List.drop_zero,
      PanState.targets, List.map_append, List.append_assoc]
  · show { looped.signals with recSignal := none, sendSignal := none } = _
    rw [hsignals', ← hlast]
  · show looped.running.map Slot.pgrp = _
    rw [hrunning', hrunning]

end Round

/-! ### The ratchet -/

/-- What the handler sends when `sig` arrives after `lastsent` was sent. -/
def ratchetNext (lastsent : Option Signal) (sig : Signal) : Option Signal :=
  (waitHandler sig { lastsent := lastsent }).sendSignal

/-- What is sent for a sequence of signals. -/
def ratchet : Option Signal → List Signal → List (Option Signal)
  | _, [] => []
  | lastsent, sig :: sigs =>
      ratchetNext lastsent sig :: ratchet (ratchetNext lastsent sig) sigs

/-- The signals that ask ltp-pan to stop. -/
def stopSignals : List Signal := [.int, .term, .hup]

theorem waitHandler_lastsent {sig : Signal} (h : sig ∈ stopSignals) (r : Signals) :
    (waitHandler sig r).lastsent = (waitHandler sig r).sendSignal := by
  have husr2 : sig ≠ .usr2 := by
    rintro rfl
    exact absurd h (by decide)
  rw [waitHandler, if_neg husr2]

/-- The rounds depend on the signal that was sent last only. -/
theorem sentSignals_eq (o : Options) (coll : List CollEntry) {rs : List (Signal × List Pid)}
    (hrs : ∀ r ∈ rs, r.1 ∈ stopSignals) {s : PanState} {lastsent : Option Signal}
    (hlength : s.running.length = o.keepActive) (hsignals : s.signals = { lastsent := lastsent }) :
    sentSignals o coll s rs = ratchet lastsent (rs.map Prod.fst) := by
  induction rs generalizing s lastsent with
  | nil => rfl
  | cons r rs ih =>
      obtain ⟨hr, hrs⟩ := List.forall_mem_cons.mp hrs
      obtain ⟨-, hsignals', hrunning⟩ := signalRound_spec coll r hlength
      have hlength' : (signalRound o coll r s).running.length = o.keepActive := by
        rw [← List.length_map Slot.pgrp, hrunning, List.length_map, hlength]
      rw [waitHandler_lastsent hr] at hsignals'
      rw [sentSignals, ih hrs hlength' hsignals', hsignals]
      rfl

/-- The ratchet as it is documented: something is sent at every round, and from the
fourth round on it is `SIGKILL`. -/
def RatchetOk (sent : List (Option Signal)) : Prop :=
  (∀ x ∈ sent, x ≠ none) ∧ ∀ x ∈ sent.drop 3, x = some .kill

instance (sent : List (Option Signal)) : Decidable (RatchetOk sent) :=
  inferInstanceAs (Decidable (_ ∧ _))

/-- The sequences of signals for which the handler has an entry at every round. -/
def Answered : List Signal → Prop
  | [] => True
  | [_] => True
  | [a, b] => a = .int → b = .int
  | [a, b, _] => a = b ∨ a = .term
  | [a, b, c, d] => a = b ∧ c ≠ .term ∧ d ≠ .hup
  | _ => False

/-- After `SIGKILL` nothing is sent. -/
theorem ratchetNext_kill {sig : Signal} (h : sig ∈ stopSignals) :
    ratchetNext (some .kill) sig = none := by
  revert h
  cases sig <;> decide

/-- Five rounds are too many: the fourth sends `SIGKILL`, and the fifth nothing. -/
theorem not_ratchetOk_five {lastsent : Option Signal} {a b c d e : Signal} {sigs : List Signal}
    (he : e ∈ stopSignals) : ¬ RatchetOk (ratchet lastsent (a :: b :: c :: d :: e :: sigs)) := by
  rintro ⟨hsent, hkill⟩
  have hfourth := hkill (ratchetNext (ratchetNext (ratchetNext (ratchetNext lastsent a) b) c) d)
    (by simp [ratchet])
  have hfifth := hsent (ratchetNext (ratchetNext (ratchetNext (ratchetNext
    (ratchetNext lastsent a) b) c) d) e) (by simp [ratchet])
  rw [hfourth, ratchetNext_kill he] at hfifth
  exact hfifth rfl

theorem ratchetOk_iff {sigs : List Signal} (h : ∀ sig ∈ sigs, sig ∈ stopSignals) :
    RatchetOk (ratchet none sigs) ↔ Answered sigs := by
  have hone : ∀ a ∈ stopSignals, RatchetOk (ratchet none [a]) := by decide
  have htwo : ∀ a ∈ stopSignals, ∀ b ∈ stopSignals,
      (RatchetOk (ratchet none [a, b]) ↔ (a = .int → b = .int)) := by decide
  have hthree : ∀ a ∈ stopSignals, ∀ b ∈ stopSignals, ∀ c ∈ stopSignals,
      (RatchetOk (ratchet none [a, b, c]) ↔ (a = b ∨ a = .term)) := by decide
  have hfour : ∀ a ∈ stopSignals, ∀ b ∈ stopSignals, ∀ c ∈ stopSignals, ∀ d ∈ stopSignals,
      (RatchetOk (ratchet none [a, b, c, d]) ↔ (a = b ∧ c ≠ .term ∧ d ≠ .hup)) := by decide
  match sigs, h with
  | [], _ => exact ⟨fun _ => trivial, fun _ => by decide⟩
  | [a], h => exact ⟨fun _ => trivial, fun _ => hone a (h a (by simp))⟩
  | [a, b], h => exact htwo a (h a (by simp)) b (h b (by simp))
  | [a, b, c], h => exact hthree a (h a (by simp)) b (h b (by simp)) c (h c (by simp))
  | [a, b, c, d], h =>
      exact hfour a (h a (by simp)) b (h b (by simp)) c (h c (by simp)) d (h d (by simp))
  | _ :: _ :: _ :: _ :: e :: _, h => exact iff_of_false (not_ratchetOk_five (h e (by simp))) id

/-- The documented ratchet, for signals that ask ltp-pan to stop, each followed by
`propagate_signal`: it works for the answered sequences and for no other one. -/
theorem sentSignals_ratchet_iff (o : Options) (coll : List CollEntry)
    (rs : List (Signal × List Pid)) (s : PanState) (hlength : s.running.length = o.keepActive)
    (hsignals : s.signals = {}) (hrs : ∀ r ∈ rs, r.1 ∈ stopSignals) :
    RatchetOk (sentSignals o coll s rs) ↔ Answered (rs.map Prod.fst) := by
  rw [sentSignals_eq o coll hrs hlength hsignals]
  apply ratchetOk_iff
  intro sig hsig
  obtain ⟨r, hr, rfl⟩ := List.mem_map.mp hsig
  exact hrs r hr

/-- Interrupted four times, ltp-pan ends with `SIGKILL`. -/
theorem sentSignals_ratchet_interrupts :
    RatchetOk (sentSignals {} [] (PanState.init {} [])
      [(.int, []), (.int, []), (.int, []), (.int, [])]) :=
  (sentSignals_ratchet_iff {} [] _ _ rfl rfl (by decide)).mpr ⟨rfl, nofun, nofun⟩

/-- ltp-pan starts a command, is interrupted, and then hung up. -/
def interruptThenHangup : List Event :=
  [.step { start := .started 107 }, .step {}, .step {}, .step {}, .step {}, .signal .int,
    .step { wait := .interrupted }] ++ List.replicate 10 (.step {}) ++
    [.signal .hup, .step { wait := .interrupted }] ++ List.replicate 10 (.step {})

/-- The command is sent `SIGINT` and then the signal zero. -/
theorem ratchet_sends_zero :
    (panRun {} [⟨txt "t", txt "true", false⟩] interruptThenHangup).kills =
      [(107, some .int), (107, none)] := by
  decide +kernel

end EDDTs.Pan
