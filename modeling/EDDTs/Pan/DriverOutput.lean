import EDDTs.Pan.DriverAccounts
import EDDTs.Pan.RtsMarkers
import Mathlib.Data.List.Forall2

/-!
# The rts output of ltp-pan

With a buffer directory the output is one complete block after the other, one
for each attempt that has ended, and, when the tests write to the standard
output themselves, the beginning of the block of the test that runs. This needs
that no buffered command fails to be executed: the end of such a block is
printed without its beginning.
-/

namespace EDDTs.Pan

open Library Library.Interleaving

open scoped List

/-- The rts output of one test. -/
structure Block where
  attempt : Nat
  start : Text
  outputs : List Text
  finish : Text
  deriving DecidableEq, Repr

namespace Block

/-- The pieces that a block is printed in. -/
def pieces (b : Block) : List Piece :=
  ⟨.start b.attempt, b.start⟩ ::
    (b.outputs.map fun t => ⟨.output b.attempt, t⟩) ++ [⟨.finish b.attempt, b.finish⟩]

def text (b : Block) : Text := b.start ++ (b.outputs.flatten ++ b.finish)

/-- One marker line of each kind, in their order, and no other. -/
def Complete (b : Block) : Prop := markers b.text = blockMarkers

end Block

/-- The text that `write_test_end` prints for an outcome. -/
def Outcome.finishText (e : Outcome) : Text :=
  match e.ending with
  | .refused _ => []
  | .execFailed errbuf status =>
      testEndText errbuf (e.endTime - e.mystime) (termination status).1.text
        (termination status).2 status 0 0
  | .reaped statLoc stopping cutime cstime _ =>
      testEndText (txt "ok") (e.endTime - e.mystime)
        (if stopping then TermType.driverInterrupt else (termination statLoc).1).text
        (childW statLoc stopping) statLoc cutime cstime

/-- The block tells what happened to the attempt. -/
def Block.Tells (b : Block) (e : Outcome) : Prop :=
  b.attempt = e.attempt ∧ b.start = testStartText e.cmd e.mystime ∧ b.finish = e.finishText

/-- The beginning of the block of a test that runs. -/
def openedPieces (slot : Slot) (outputs : List Text) : List Piece :=
  ⟨.start slot.attempt, testStartText slot.cmd slot.mystime⟩ ::
    outputs.map fun t => ⟨.output slot.attempt, t⟩

/-- What a test has written to the standard output. -/
def PanState.outputOf (s : PanState) (attempt : Nat) : Text :=
  (s.out.filter fun p => p.origin = .output attempt).flatMap Piece.text

/-- What is printed after the last complete block: with tests that write to the
standard output the beginning of a block if a test runs, otherwise nothing. -/
def Opening (o : Options) (s : PanState) (opening : List Piece) : Prop :=
  (o.testOutDir = true → opening = []) ∧
    (o.testOutDir = false → ∀ slot, s.running = [slot] →
      if slot.pgrp = 0 then opening = [] else ∃ outputs, opening = openedPieces slot outputs)

/-- Complete blocks for the attempts that have ended. -/
def BlockInv (o : Options) (s : PanState) : Prop :=
  ∃ blocks opening, s.rtsOut = blocks.flatMap Block.pieces ++ opening ∧
    List.Forall₂ Block.Tells blocks s.ledger ∧ (∀ b ∈ blocks, b.Complete) ∧ Opening o s opening

/-- The options of an rts run with a buffer directory. -/
structure Options.BufferedRts (o : Options) : Prop where
  outputDirectory : o.outputDirectory.isSome = true
  keepActive : 1 ≤ o.keepActive
  rts : o.rts = true
  loud : o.quietMode = false

/-- The answers to `run_child` that give a complete block. -/
structure CleanLaunch (o : Options) (coll : List CollEntry) (a : Answer) : Prop where
  fits : a.fits o coll = true
  kmsg : a.kmsgOk = true
  zoo : a.zooOk = true
  forks : a.start ≠ .openFails ∧ a.start ≠ .pipeFails ∧ a.start ≠ .forkFails
  /-- a command that is buffered must be executed -/
  executed : ∀ errbuf status endTime, a.start = .reported errbuf status endTime →
    o.testOutDir = false ∧ NoMarkerInside errbuf

/-- The answers to `check_pids` that give a complete block. -/
structure CleanReap (o : Options) (s : PanState) (a : Answer) : Prop where
  kmsg : a.kmsgOk = true
  zoo : a.zooOk = true
  zooMark : a.zooMarkOk = true
  /-- no line of a captured output is a marker -/
  captured : o.testOutDir = true → ∀ file, a.bufferFile = some file → markers (cString file) = []
  /-- a test that writes to the standard output writes whole lines -/
  direct : o.testOutDir = false → ∀ slot ∈ s.running, slot.pgrp ≠ 0 →
    PlainLines (s.outputOf slot.attempt)

/-- The events of a run that gives complete blocks. Only a test that runs writes
to the standard output. -/
def CleanStep (o : Options) (coll : List CollEntry) : Event → PanState → Prop
  | .signal _, _ => True
  | .output attempt _, s => ∃ slot ∈ s.running, slot.pgrp ≠ 0 ∧ slot.attempt = attempt
  | .step a, s => (s.pc = .launch → CleanLaunch o coll a) ∧ (s.pc = .check → CleanReap o s a)

section Texts

variable {o : Options}

theorem testOutDir_eq_false_iff (ho : o.BufferedRts) :
    o.testOutDir = false ↔ o.keepActive = 1 := by
  simp [Options.testOutDir, ho.outputDirectory]

/-- What is captured is made of whole lines. -/
theorem plainLines_copyBufferedOutput {file : Option Text} (byteBefore : Char)
    (h : ∀ f, file = some f → markers (cString f) = []) :
    PlainLines (copyBufferedOutput file byteBefore) := by
  cases file with
  | none => exact ⟨Or.inl rfl, rfl⟩
  | some f =>
      have hplain := h f rfl
      simp only [copyBufferedOutput]
      generalize cString f = t at hplain
      split
      next =>
        refine ⟨Or.inr ⟨t, rfl⟩, ?_⟩
        rw [markers_append_newline, hplain]
        rfl
      next hlast =>
        refine ⟨?_, hplain⟩
        rcases List.eq_nil_or_concat t with rfl | ⟨u, c, rfl⟩
        · exact Or.inl rfl
        · refine Or.inr ⟨u, ?_⟩
          have hc : c = '\n' := by simpa using hlast
          rw [hc, List.concat_eq_append]

theorem Outcome.markers_finishText {e : Outcome} (hforked : ∀ why, e.ending ≠ .refused why)
    (herr : ∀ errbuf status, e.ending = .execFailed errbuf status → NoMarkerInside errbuf) :
    markers e.finishText = [txt "<<<execution_status>>>", txt "<<<test_end>>>"] := by
  unfold finishText
  cases hend : e.ending with
  | refused why => exact absurd hend (hforked why)
  | execFailed errbuf status =>
      exact markers_testEndText (herr errbuf status hend)
  | reaped statLoc stopping cutime cstime captured =>
      exact markers_testEndText (noMarkerInside_of_no_newline (by decide))

/-- The block of an attempt that has ended. -/
theorem Block.complete_of_tells {b : Block} {e : Outcome} (htells : b.Tells e)
    (hcmd : NoMarkerInside e.cmd.name ∧ NoMarkerInside e.cmd.cmdline)
    (hout : PlainLines b.outputs.flatten) (hforked : ∀ why, e.ending ≠ .refused why)
    (herr : ∀ errbuf status, e.ending = .execFailed errbuf status → NoMarkerInside errbuf) :
    b.Complete := by
  obtain ⟨-, hstart, hfinish⟩ := htells
  rw [Complete, text, hstart, hfinish, markers_testStartText _ _ hcmd.1 hcmd.2,
    markers_plainLines hout, e.markers_finishText hforked herr]
  rfl

end Texts

section Outputs

variable {s : PanState}

theorem forall₂_tells_attempts {blocks : List Block} {ledger : List Outcome}
    (h : List.Forall₂ Block.Tells blocks ledger) :
    blocks.map Block.attempt = ledger.map Outcome.attempt := by
  induction h with
  | nil => rfl
  | cons hb _ ih => rw [List.map_cons, List.map_cons, hb.1, ih]

/-- The pieces of a test in a run that are not in a block of it. -/
theorem filter_pieces {b : Block} {attempt : Nat} (h : b.attempt ≠ attempt) :
    b.pieces.filter (fun p => p.origin = .output attempt) = [] := by
  refine List.filter_eq_nil_iff.mpr fun p hp => ?_
  simp only [Block.pieces, List.cons_append, List.mem_cons, List.mem_append, List.mem_map] at hp
  rcases hp with rfl | ⟨t, -, rfl⟩ | rfl | hp
  · simp
  · simpa using h
  · simp
  · cases hp

theorem outputOf_opened {blocks : List Block} {slot : Slot} {outputs : List Text}
    (hrts : s.rtsOut = blocks.flatMap Block.pieces ++ openedPieces slot outputs)
    (hblocks : ∀ b ∈ blocks, b.attempt ≠ slot.attempt) :
    s.outputOf slot.attempt = outputs.flatten := by
  have hout : s.out.filter (fun p => p.origin = .output slot.attempt) =
      s.rtsOut.filter fun p => p.origin = .output slot.attempt := by
    rw [PanState.rtsOut, List.filter_filter]
    refine List.filter_congr fun p _ => ?_
    by_cases hp : p.origin = .output slot.attempt <;> simp [hp]
  have hclosed : (blocks.flatMap Block.pieces).filter
      (fun p => p.origin = .output slot.attempt) = [] := by
    rw [List.filter_flatMap]
    exact List.flatMap_eq_nil_iff.mpr fun b hb => filter_pieces (hblocks b hb)
  have hopened : (openedPieces slot outputs).filter
      (fun p => p.origin = .output slot.attempt) = outputs.map fun t => ⟨.output slot.attempt, t⟩ := by
    rw [openedPieces, List.filter_cons_of_neg (by simp)]
    exact List.filter_eq_self.mpr fun p hp => by
      obtain ⟨t, -, rfl⟩ := List.mem_map.mp hp
      simp
  rw [PanState.outputOf, hout, hrts, List.filter_append, hclosed, List.nil_append, hopened,
    List.flatMap_map]
  exact List.flatMap_id'

/-- The attempt in a slot has no block yet. -/
theorem AccountInv.attempt_not_ended {coll : List CollEntry} {b : Books} (inv : AccountInv coll b)
    {slot : Slot} (hslot : slot ∈ b.running) (hpos : slot.pgrp ≠ 0) :
    slot.attempt ∉ b.ledger.map Outcome.attempt := by
  have hnodup := inv.numbers.nodup_iff.mpr List.nodup_range
  have hmem : slot.attempt ∈ items Slot.number b.running :=
    List.mem_filterMap.mpr ⟨slot, hslot, if_neg hpos⟩
  exact fun h => (List.nodup_append.mp hnodup).2.2 _ h _ hmem rfl

end Outputs

section Steps

variable {o : Options} {coll : List CollEntry} {s s' : PanState}

theorem opening_of_buffered (hdir : o.testOutDir = true) : Opening o s [] :=
  ⟨fun _ => rfl, fun h => absurd (hdir.symm.trans h) (by decide)⟩

theorem opening_of_direct {opening : List Piece} {slot : Slot} (hdir : o.testOutDir = false)
    (hr : s.running = [slot])
    (h : if slot.pgrp = 0 then opening = [] else ∃ outputs, opening = openedPieces slot outputs) :
    Opening o s opening := by
  refine ⟨fun hdir' => absurd (hdir.symm.trans hdir') (by decide), fun _ x hx => ?_⟩
  obtain rfl := List.singleton_inj.mp (hr.symm.trans hx)
  exact h

/-- One more block. -/
theorem blockInv_snoc {blocks : List Block} {b : Block} {e : Outcome}
    (hrts : s'.rtsOut = blocks.flatMap Block.pieces ++ b.pieces)
    (hledger : s'.ledger = s.ledger ++ [e]) (htells : List.Forall₂ Block.Tells blocks s.ledger)
    (hcomplete : ∀ b ∈ blocks, b.Complete) (hb : b.Tells e) (hbc : b.Complete)
    (hfree : o.testOutDir = false → ∀ slot, s'.running = [slot] → slot.pgrp = 0) :
    BlockInv o s' := by
  refine ⟨blocks ++ [b], [], ?_, ?_, ?_, fun _ => rfl, fun hdirect slot hslot => ?_⟩
  · rw [hrts, List.flatMap_append, List.append_nil, List.flatMap_singleton]
  · rw [hledger]
    exact List.rel_append htells (.cons hb .nil)
  · exact List.forall_mem_append.mpr ⟨hcomplete, List.forall_mem_singleton.mpr hbc⟩
  · rw [if_pos (hfree hdirect slot hslot)]

theorem BlockInv.congr (hinv : BlockInv o s) (hrts : s'.rtsOut = s.rtsOut)
    (hledger : s'.ledger = s.ledger) (hrunning : s'.running = s.running) : BlockInv o s' := by
  obtain ⟨blocks, opening, hrts', htells, hcomplete, hopening⟩ := hinv
  refine ⟨blocks, opening, hrts.trans hrts', hledger ▸ htells, hcomplete, hopening.1, ?_⟩
  rw [hrunning]
  exact hopening.2

variable {i pending : Nat} {a : Answer} {slot : Slot} (ho : o.BufferedRts)

include ho

/-- There is one slot when the tests are not buffered. -/
theorem SlotInv.single {b : Books} (inv : SlotInv o pending b) (hdirect : o.testOutDir = false) :
    ∃ slot, b.running = [slot] :=
  List.length_eq_one_iff.mp (inv.length.trans ((testOutDir_eq_false_iff ho).mp hdirect))

theorem SlotInv.single_at {b : Books} (inv : SlotInv o pending b)
    (hdirect : o.testOutDir = false) (hget : b.running[i]? = some slot) :
    i = 0 ∧ b.running = [slot] := by
  obtain ⟨r, hr⟩ := inv.single ho hdirect
  rw [hr] at hget ⊢
  simpa [List.getElem?_singleton] using hget

theorem blockInv_childRun {colle : CollEntry} {attempt : Nat} (hslots : SlotInv o 0 s.toBooks)
    (hcmd : NoMarkerInside colle.name ∧ NoMarkerInside colle.cmdline) (hinv : BlockInv o s)
    (hi : s.running.findIdx? (fun r => r.pgrp = 0) = some i) (hmem : colle ∈ coll)
    (hclean : CleanLaunch o coll a)
    (hrun : ChildRun o colle i attempt a (s.attemptSlot i a.now colle attempt) s s') :
    s'.pc ≠ .aborted ∧ BlockInv o s' := by
  obtain ⟨blocks, opening, hrts, htells, hcomplete, hopening⟩ := hinv
  obtain ⟨hget, hfree⟩ := getElem?_of_findIdx? hi
  have hfree' : (s.running.getD i {}).pgrp = 0 := by simpa using hfree
  have hsingle : o.testOutDir = false → ∃ r, s.running = [r] ∧ i = 0 ∧ opening = [] := by
    intro hdirect
    obtain ⟨hi0, hr⟩ := hslots.single_at ho hdirect hget
    have hopen := hopening.2 hdirect _ hr
    rw [if_pos hfree'] at hopen
    exact ⟨_, hr, hi0, hopen⟩
  cases hrun with
  | refused why b entered start books pc =>
      obtain ⟨hopen, hpipe, hfork⟩ := hclean.forks
      rcases start with h | h | h
      · exact absurd h hopen
      · exact absurd h hpipe
      · exact absurd h hfork
  | aborted cause books pc =>
      obtain ⟨hname, hreport⟩ := Answer.fits_spec hclean.fits hmem
      simp [hclean.kmsg, hname, hreport] at cause
  | failed errbuf status endTime start gone books pc rts =>
      obtain ⟨hdirect, herr⟩ := hclean.executed errbuf status endTime start
      obtain ⟨r, hr, rfl, rfl⟩ := hsingle hdirect
      generalize hslot : s.attemptSlot 0 a.now colle attempt = slot at books rts
      have hcolle : slot.cmd = colle := by rw [← hslot]; rfl
      have hpgrp : slot.pgrp = 0 := by rw [← hslot]; exact hfree'
      rw [Books.failedStart_eq] at books
      refine ⟨by rw [pc]; rintro ⟨⟩, ?_⟩
      let e : Outcome := ⟨slot.attempt, slot.cmd, slot.mystime, endTime, .execFailed errbuf status⟩
      let b : Block := ⟨slot.attempt, testStartText slot.cmd slot.mystime, [], e.finishText⟩
      refine blockInv_snoc (b := b) (e := e) ?_ ?_ htells hcomplete ⟨rfl, rfl, rfl⟩ ?_ ?_
      · rw [rts, hrts, List.append_nil]
        simp [forkPieces, failedPieces, startPieces, hdirect, ho.loud, ho.rts, Block.pieces, b, e,
          Outcome.finishText]
      · rw [books]
        rfl
      · refine Block.complete_of_tells (e := e) ⟨rfl, rfl, rfl⟩ (by rw [← hcolle] at hcmd; exact hcmd)
          ⟨Or.inl rfl, rfl⟩ (by rintro _ ⟨⟩) ?_
        rintro _ _ ⟨⟩
        exact herr
      · intro _ x hx
        rw [books, Books.account, Books.setSlot, hr] at hx
        obtain rfl : slot = x := by simpa using hx
        exact hpgrp
  | started pid start pos fresh books pc rts =>
      generalize hslot : s.attemptSlot i a.now colle attempt = slot at books rts
      refine ⟨by rw [pc, if_pos hclean.zoo]; rintro ⟨⟩, ?_⟩
      have hledger : s'.ledger = s.ledger := by rw [books]; rfl
      cases hdir : o.testOutDir with
      | true =>
          refine ⟨blocks, [], ?_, by rw [hledger]; exact htells, hcomplete, opening_of_buffered hdir⟩
          rw [rts, hrts, hopening.1 hdir]
          simp [forkPieces, hdir]
      | false =>
          obtain ⟨r, hr, rfl, rfl⟩ := hsingle hdir
          have hr' : s'.running = [{ slot with pgrp := pid, stopping := false }] := by
            rw [books]
            simp [Books.setSlot, hr]
          refine ⟨blocks, openedPieces slot [], ?_, by rw [hledger]; exact htells, hcomplete,
            opening_of_direct hdir hr' ?_⟩
          · rw [rts, hrts]
            simp [forkPieces, startPieces, hdir, ho.loud, ho.rts, openedPieces]
          · rw [if_neg pos]
            exact ⟨[], rfl⟩

theorem blockInv_reaped {cpid : Pid} {statLoc : Nat} (hslots : SlotInv o 0 s.toBooks)
    (hacc : AccountInv coll s.toBooks)
    (hcoll : ∀ cmd ∈ coll, NoMarkerInside cmd.name ∧ NoMarkerInside cmd.cmdline)
    (hinv : BlockInv o s) (hget : s.running[i]? = some (s.running.getD i {}))
    (hpos : (s.running.getD i {}).pgrp ≠ 0) (hclean : CleanReap o s a)
    (hreaped : ChildReaped o statLoc a i (s.running.getD i {}) (s.waited a.emptied cpid) s') :
    s'.pc ≠ .aborted ∧ BlockInv o s' := by
  obtain ⟨blocks, opening, hrts, htells, hcomplete, hopening⟩ := hinv
  have hmem := List.mem_of_getElem? hget
  have hledger : s'.ledger = s.ledger ++ [childOutcome o (s.running.getD i {}) statLoc a] :=
    hreaped.ledger.1
  have hrunning : s'.pc ≠ .aborted →
      s'.running = s.running.set i { s.running.getD i {} with pgrp := 0 } :=
    fun h => (hreaped.slots h).2.1
  have hcmd : NoMarkerInside (s.running.getD i {}).cmd.name ∧
      NoMarkerInside (s.running.getD i {}).cmd.cmdline := by
    obtain ⟨c, -, hc⟩ := hacc.active _ hmem hpos
    exact hcoll _ (List.mem_of_getElem? hc)
  cases hreaped with
  | aborted cause books pc =>
      rcases cause with h | h | h
      · rw [hclean.kmsg] at h; cases h
      · rw [hclean.zoo] at h; cases h
      · rw [hclean.zooMark] at h; cases h
  | checked books pc rts =>
      refine ⟨by rw [pc]; rintro ⟨⟩, ?_⟩
      have hrts' : s'.rtsOut = s.rtsOut ++ childPieces o (s.running.getD i {}) statLoc a := rts
      generalize hslot : s.running.getD i {} = slot at *
      let e := childOutcome o slot statLoc a
      cases hdir : o.testOutDir with
      | true =>
          let b : Block := ⟨slot.attempt, testStartText slot.cmd slot.mystime,
            [copyBufferedOutput a.bufferFile a.byteBefore], e.finishText⟩
          have hb : b.Tells e := ⟨rfl, rfl, rfl⟩
          refine blockInv_snoc (b := b) ?_ hledger htells hcomplete hb ?_
            fun h => absurd (hdir.symm.trans h) (by decide)
          · rw [hrts', hrts, hopening.1 hdir, List.append_nil]
            simp [childPieces, startPieces, hdir, ho.loud, ho.rts, Block.pieces, b, e, childOutcome,
              Outcome.finishText]
          · refine Block.complete_of_tells hb hcmd ?_ (by rintro _ ⟨⟩) (by rintro _ _ ⟨⟩)
            rw [List.flatten_singleton]
            exact plainLines_copyBufferedOutput a.byteBefore (hclean.captured hdir)
      | false =>
          obtain ⟨rfl, hr⟩ := hslots.single_at ho hdir hget
          have hopen := hopening.2 hdir slot hr
          rw [if_neg hpos] at hopen
          obtain ⟨outputs, rfl⟩ := hopen
          have hblocks : ∀ b ∈ blocks, b.attempt ≠ slot.attempt := by
            intro b hb heq
            refine hacc.attempt_not_ended hmem hpos ?_
            rw [← forall₂_tells_attempts htells, ← heq]
            exact List.mem_map_of_mem hb
          let b : Block :=
            ⟨slot.attempt, testStartText slot.cmd slot.mystime, outputs, e.finishText⟩
          have hb : b.Tells e := ⟨rfl, rfl, rfl⟩
          refine blockInv_snoc (b := b) ?_ hledger htells hcomplete hb ?_ fun _ x hx => ?_
          · rw [hrts', hrts]
            simp [childPieces, hdir, ho.loud, ho.rts, Block.pieces, openedPieces, b, e,
              childOutcome, Outcome.finishText]
          · refine Block.complete_of_tells hb hcmd ?_ (by rintro _ ⟨⟩) (by rintro _ _ ⟨⟩)
            rw [← outputOf_opened hrts hblocks]
            exact hclean.direct hdir slot hmem hpos
          · rw [hrunning (by rw [pc]; rintro ⟨⟩), hr] at hx
            rw [← List.singleton_inj.mp hx]

/-- A test writes to the standard output. -/
theorem BlockInv.output (hinv : BlockInv o s) (hslots : SlotInv o pending s.toBooks)
    (hdirect : o.testOutDir = false) (hslot : slot ∈ s.running) (hpos : slot.pgrp ≠ 0)
    (text : Text) : BlockInv o (s.print (.output slot.attempt) text) := by
  obtain ⟨blocks, opening, hrts, htells, hcomplete, hopening⟩ := hinv
  obtain ⟨r, hr⟩ := hslots.single ho hdirect
  obtain rfl : slot = r := by
    rw [hr] at hslot
    exact List.mem_singleton.mp hslot
  have hopen := hopening.2 hdirect slot hr
  rw [if_neg hpos] at hopen
  obtain ⟨outputs, rfl⟩ := hopen
  refine ⟨blocks, openedPieces slot (outputs ++ [text]), ?_, htells, hcomplete,
    opening_of_direct hdirect hr ?_⟩
  · rw [PanState.rtsOut_print, if_pos nofun, hrts]
    simp [openedPieces]
  · rw [if_neg hpos]
    exact ⟨outputs ++ [text], rfl⟩

/-- A mark in a slot changes no block. -/
theorem BlockInv.mark (hinv : BlockInv o s) (hslots : SlotInv o pending s.toBooks)
    (hi : i < o.keepActive)
    (hbooks : s'.toBooks = s.toBooks.setSlot i { s.running.getD i {} with stopping := true })
    (hrts : s'.rtsOut = s.rtsOut) : BlockInv o s' := by
  obtain ⟨blocks, opening, hrts', htells, hcomplete, hopening⟩ := hinv
  refine ⟨blocks, opening, hrts.trans hrts', by rw [hbooks]; exact htells, hcomplete, hopening.1,
    fun hdirect x hx => ?_⟩
  obtain ⟨r, hr⟩ := hslots.single ho hdirect
  rw [(testOutDir_eq_false_iff ho).mp hdirect, Nat.lt_one_iff] at hi
  subst hi
  have hx' : [{ r with stopping := true }] = [x] := by
    rw [← hx, hbooks]
    simp [Books.setSlot, hr]
  obtain rfl := List.singleton_inj.mp hx'
  exact hopening.2 hdirect r hr

/-- In a clean run the program does not exit with an error, and the output is
made of blocks. -/
def BlockOk (o : Options) (s : PanState) : Prop := s.pc ≠ .aborted ∧ BlockInv o s

theorem blockOk_step {e : Event}
    (hcoll : ∀ cmd ∈ coll, NoMarkerInside cmd.name ∧ NoMarkerInside cmd.cmdline)
    (hslots : SlotsOk o s) (hacc : AccountsOk coll s) (hok : BlockOk o s)
    (hclean : CleanStep o coll e s) (hmove : PanMove o coll s e s') : BlockOk o s' := by
  obtain ⟨hpc, hinv⟩ := hok
  have hslot := hslots.2 hpc
  cases hmove with
  | steer books rts abort pending pc =>
      exact ⟨pc.2, hinv.congr rts (by rw [books]) (by rw [books])⟩
  | output attempt text event direct started eq =>
      subst event eq
      obtain ⟨slot, hmem, hpos, rfl⟩ := hclean
      exact ⟨hpc, hinv.output ho hslot direct hmem hpos text⟩
  | mark i slot occupied books control rts pending pc =>
      exact ⟨pc.2, hinv.mark ho hslot slot books rts⟩
  | noSlot room pending slot => exact absurd slot (hslot.find_free pending room)
  | run a i c colle event pc slot entry control run =>
      subst event
      rw [pc] at hslot
      have hchosen : SlotInv o 0 (s.choose c).toBooks := hslot.congr rfl
      have hmem := List.mem_of_getElem? entry
      exact blockInv_childRun (s := s.choose c) ho hchosen (hcoll colle hmem)
        (hinv.congr rfl rfl rfl) slot hmem (hclean.1 pc) run
  | ran cpid pc eq =>
      subst eq
      exact ⟨by rintro ⟨⟩, hinv.congr rfl rfl rfl⟩
  | reap a cpid statLoc event pc mem gone eq =>
      subst event
      rw [pc] at hslot
      obtain ⟨i, hget, hpgrp, hpos, -, hreaped⟩ := hslot.reaped pc mem gone eq
      exact blockInv_reaped ho hslot (hacc hpc) hcoll hinv hget (hpgrp ▸ hpos) (hclean.2 pc) hreaped
  | checked err pc books rts abort pc' =>
      refine ⟨?_, hinv.congr rts (by rw [books]) (by rw [books])⟩
      rcases pc' with h | h <;> rw [h] <;> rintro ⟨⟩
  | finish a event pc eq =>
      subst eq
      exact ⟨by rintro ⟨⟩, hinv.congr rfl rfl rfl⟩

theorem blockOk_init : BlockOk o (PanState.init o coll) := by
  refine ⟨nofun, [], [], rfl, .nil, nofun, fun _ => rfl, fun hdirect slot hslot => ?_⟩
  have hrunning : (PanState.init o coll).running = [{}] := by
    simp [PanState.init, (testOutDir_eq_false_iff ho).mp hdirect]
  obtain rfl := List.singleton_inj.mp (hrunning.symm.trans hslot)
  rw [if_pos rfl]

end Steps

/-- A buffered command that prints a line and exits with zero. -/
def oneBuffered : List Event :=
  [.step { start := .started 7 }, .step {}, .step { start := .started 8 }, .step {}, .step {},
    .step { wait := .child 7 0, bufferFile := some (txt "hello\n") }]

end EDDTs.Pan
