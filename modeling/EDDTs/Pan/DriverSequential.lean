import EDDTs.Pan.DriverCalm
import Mathlib.Data.Nat.ModEq

/-!
# Sequential runs of ltp-pan

With `-S`, without `-t`, `-A` and `-y`, and without signals, ltp-pan attempts
the commands in turn, as often as it should, reaps every child, and logs every
attempt once. The main loop ends: a rank bounds the steps it can take.
-/

namespace EDDTs.Pan

open Library Library.Interleaving

open scoped List

/-- The options of a sequential run. -/
structure Options.SequentialMode (o : Options) : Prop where
  sequential : o.sequential = true
  timed : o.timed = false
  hasBrakes : o.hasBrakes = false
  forkInRoad : o.forkInRoad = false
  starts : o.starts = -1 ∨ 0 < o.starts
  keepActive : 1 ≤ o.keepActive

/-- No signal arrives, and `open`, `pipe` and `fork` succeed. -/
def Event.undisturbed : Event → Bool
  | .signal _ => false
  | .output _ _ => true
  | .step a => a.start ≠ .openFails && a.start ≠ .pipeFails && a.start ≠ .forkFails

def Event.isStep : Event → Bool
  | .step _ => true
  | _ => false

/-- The number of attempts: one for each command, or as many as asked for with
`-s` but enough for every slot. -/
def totalAttempts (o : Options) (cnt : Nat) : Nat :=
  if o.starts = -1 then cnt else max o.starts.toNat o.keepActive

/-- An attempt that `starts` still counts. -/
def Pc.attempting : Pc → Nat
  | .ranChild _ => 1
  | _ => 0

/-- The variables of the main loop in a sequential run. -/
structure SeqInv (o : Options) (cnt : Nat) (s : PanState) : Prop where
  budget : s.starts + s.attempts.length = totalAttempts o cnt + s.pc.attempting
  attempting : s.pc.attempting ≤ s.starts
  bound : s.c < cnt
  index : (s.c + s.pc.attempting) % cnt = s.attempts.length % cnt
  goIdle : s.goIdle = 0
  forkInRoad : s.forkInRoad = false
  stop : s.stop ≠ 0 → s.starts = 0
  /-- the launch loop was left because it could not start more -/
  full : (s.pc = .launched ∨ s.pc = .testSignal ∨ s.pc = .check) →
    s.numActive < o.keepActive → s.starts = 0
  stopping : (s.pc = .testSignal ∨ s.pc = .check ∨ ∃ err, s.pc = .checked err) →
    s.starts = 0 → s.stop ≠ 0

/-- What holds at every point of a sequential run. -/
structure SeqOk (o : Options) (cnt : Nat) (s : PanState) : Prop where
  order : ∀ k c, s.attempts[k]? = some c → c = k % cnt
  atMost : s.attempts.length ≤ totalAttempts o cnt
  forked : ∀ e ∈ s.ledger, e.forked = true
  loop : s.pc.looping = true → SeqInv o cnt s
  left : s.pc.left = true → s.attempts.length = totalAttempts o cnt

section Setup

variable {o : Options} {cnt : Nat}

theorem initialStarts_eq (ho : o.SequentialMode) :
    o.initialStarts cnt = totalAttempts o cnt := by
  unfold Options.initialStarts totalAttempts
  rcases ho.starts with hs | hs
  · simp [ho.timed, ho.sequential, hs]
  · have hne : o.starts ≠ -1 := by omega
    have hzero : o.starts ≠ 0 := by omega
    simp only [hne, hzero, decide_false, Bool.and_false, Bool.false_eq_true, if_false]
    split <;> omega

theorem seqOk_init (ho : o.SequentialMode) {coll : List CollEntry} (hcoll : coll ≠ []) :
    SeqOk o coll.length (PanState.init o coll) := by
  have hpos := List.length_pos_iff.mpr hcoll
  have hstarts : (PanState.init o coll).starts = totalAttempts o coll.length := initialStarts_eq ho
  refine ⟨nofun, Nat.zero_le _, nofun, fun _ => ?_, nofun⟩
  refine ⟨?_, ?_, hpos, rfl, rfl, ho.forkInRoad, nofun, nofun, nofun⟩
  · rw [hstarts]
    rfl
  · rw [hstarts]
    exact Int.natCast_nonneg _

end Setup

section Steps

variable {o : Options} {coll : List CollEntry} {s s' : PanState} {e : Event} {cnt : Nat}

theorem order_snoc {attempts : List Nat} (h : ∀ k c, attempts[k]? = some c → c = k % cnt) {c : Nat}
    (hc : c = attempts.length % cnt) :
    ∀ k d, (attempts ++ [c])[k]? = some d → d = k % cnt := by
  intro k d hd
  rcases Nat.lt_trichotomy k attempts.length with hlt | rfl | hgt
  · exact h k d (by rwa [List.getElem?_append_left hlt] at hd)
  · obtain rfl : c = d := by simpa using hd
    exact hc
  · rw [List.getElem?_eq_none (by simp; omega)] at hd
    cases hd

theorem forked_childRun {colle : CollEntry} {i attempt : Nat} {a : Answer} {slot : Slot}
    (he : Event.undisturbed (.step a) = true) (h : ∀ e ∈ s.ledger, e.forked = true)
    (hrun : ChildRun o colle i attempt a slot s s') : ∀ e ∈ s'.ledger, e.forked = true := by
  rcases hrun.ledger.2.2.2 with hledger | ⟨x, hledger, -, hx | hstart⟩
  · rw [hledger]; exact h
  · rw [hledger]
    exact List.forall_mem_append.mpr ⟨h, List.forall_mem_singleton.mpr hx⟩
  · rcases hstart with hs | hs | hs <;> simp [Event.undisturbed, hs] at he

/-- A step that makes no attempt and leaves the control variables alone. -/
theorem SeqInv.move (inv : SeqInv o cnt s)
    (hcontrol : s'.toControl = { s.toControl with waitHit := s'.waitHit })
    (hattempts : s'.attempts = s.attempts) (hpc : s'.pc.attempting = s.pc.attempting)
    (hfull : (s'.pc = .launched ∨ s'.pc = .testSignal ∨ s'.pc = .check) →
      s'.numActive < o.keepActive → s.starts = 0)
    (hstopping : (s'.pc = .testSignal ∨ s'.pc = .check ∨ ∃ err, s'.pc = .checked err) →
      s.starts = 0 → s.stop ≠ 0) : SeqInv o cnt s' := by
  have hstarts : s'.starts = s.starts := by rw [hcontrol]
  have hc : s'.c = s.c := by rw [hcontrol]
  have hstop : s'.stop = s.stop := by rw [hcontrol]
  constructor
  · rw [hstarts, hattempts, hpc]; exact inv.budget
  · rw [hstarts, hpc]; exact inv.attempting
  · rw [hc]; exact inv.bound
  · rw [hc, hattempts, hpc]; exact inv.index
  · rw [hcontrol]; exact inv.goIdle
  · rw [hcontrol]; exact inv.forkInRoad
  · rw [hstop, hstarts]; exact inv.stop
  · rw [hstarts]; exact hfull
  · rw [hstarts, hstop]; exact hstopping

/-- Output is not seen by the main loop. -/
theorem SeqInv.print (inv : SeqInv o cnt s) (origin : Origin) (text : Text) :
    SeqInv o cnt (s.print origin text) :=
  inv.move rfl rfl rfl inv.full inv.stopping

/-- A step in the main loop that makes no attempt and ends none. -/
theorem SeqOk.keep (hok : SeqOk o cnt s) (hattempts : s'.attempts = s.attempts)
    (hledger : s'.ledger = s.ledger) (hpc : s'.pc.left = false) (inv : SeqInv o cnt s') :
    SeqOk o cnt s' := by
  refine ⟨hattempts ▸ hok.order, hattempts ▸ hok.atMost, hledger ▸ hok.forked, fun _ => inv, ?_⟩
  rw [hpc]
  rintro ⟨⟩

/-- An attempt takes the next entry. -/
theorem SeqInv.run (inv : SeqInv o cnt s) (hpc : s.pc = .launch) (hstarts : s.starts ≠ 0)
    (hstop : s.stop = 0) {cpid : Option Pid} (hpc' : s'.pc = .ranChild cpid)
    (hcontrol : s'.toControl = s.toControl) (hattempts : s'.attempts = s.attempts ++ [s.c]) :
    SeqInv o cnt s' := by
  have hbudget := inv.budget
  have hpos := inv.attempting
  have hindex := inv.index
  rw [hpc] at hbudget hpos hindex
  simp only [Pc.attempting, Nat.add_zero] at hbudget hpos hindex
  have hstarts' : s'.starts = s.starts := by rw [hcontrol]
  constructor
  · rw [hstarts', hattempts, hpc', List.length_append]
    simp only [Pc.attempting, List.length_singleton]
    omega
  · rw [hstarts', hpc']
    simp only [Pc.attempting]
    omega
  · rw [hcontrol]; exact inv.bound
  · rw [hcontrol, hattempts, hpc', List.length_append]
    exact Nat.ModEq.add_right 1 hindex
  · rw [hcontrol]; exact inv.goIdle
  · rw [hcontrol]; exact inv.forkInRoad
  · rw [hcontrol]; exact fun h => absurd hstop h
  · rw [hpc']; rintro (h | h | h) <;> cases h
  · rw [hpc']; rintro (h | h | ⟨_, h⟩) <;> cases h

/-- The attempt is paid for. -/
theorem SeqInv.ran (ho : o.SequentialMode) (inv : SeqInv o cnt s) {cpid : Option Pid}
    (hpc : s.pc = .ranChild cpid) : SeqInv o cnt (s.ranChild o cnt cpid) := by
  have hbudget := inv.budget
  have hpos := inv.attempting
  have hindex := inv.index
  have hbound := inv.bound
  rw [hpc] at hbudget hpos hindex
  simp only [Pc.attempting] at hbudget hpos hindex
  have hstarts : (s.ranChild o cnt cpid).starts = s.starts - 1 :=
    if_pos ⟨Or.inr ho.sequential, by omega⟩
  have hc : (s.ranChild o cnt cpid).c = (s.c + 1) % cnt := by
    simp only [PanState.ranChild, ho.sequential, if_true]
    split
    next hwrap =>
      have heq : s.c + 1 = cnt := by omega
      rw [heq, Nat.mod_self]
    next hnext => exact (Nat.mod_eq_of_lt (by omega)).symm
  constructor
  · rw [hstarts]
    change s.starts - 1 + s.attempts.length = totalAttempts o cnt + (0 : Nat)
    omega
  · rw [hstarts]
    change (0 : Nat) ≤ s.starts - 1
    omega
  · rw [hc]
    exact Nat.mod_lt _ (by omega)
  · rw [hc]
    change ((s.c + 1) % cnt + 0) % cnt = s.attempts.length % cnt
    rw [Nat.add_zero, Nat.mod_mod, hindex]
  · exact inv.goIdle
  · exact inv.forkInRoad
  · intro hstop
    have := inv.stop hstop
    omega
  · rintro (h | h | h) <;> cases h
  · rintro (h | h | ⟨_, h⟩) <;> cases h

/-- `stop` is raised when the attempts are used up. -/
theorem SeqInv.launched (inv : SeqInv o cnt s) (hpc : s.pc = .launched) (a : Answer) :
    SeqInv o cnt (s.launched o a) := by
  have hpos := inv.attempting
  have hbudget := inv.budget
  have hindex := inv.index
  have hfull := inv.full (Or.inl hpc)
  rw [hpc] at hbudget hpos hindex
  simp only [Pc.attempting] at hpos
  unfold PanState.launched
  split
  next hzero =>
    cases o.quietMode <;> exact ⟨hbudget, hpos, inv.bound, hindex, inv.goIdle, inv.forkInRoad,
      fun _ => hzero, fun _ => hfull, fun _ _ => Nat.succ_ne_zero _⟩
  next hzero =>
    rw [if_neg (by omega)]
    exact ⟨hbudget, hpos, inv.bound, hindex, inv.goIdle, inv.forkInRoad, inv.stop, fun _ => hfull,
      fun _ h => absurd h hzero⟩

/-- The end of the loop's body changes no control variable. -/
theorem checked_control (hbrakes : o.hasBrakes = false) (hfork : s.forkInRoad = false)
    (hidle : s.goIdle = 0) (err : Int) : (s.checked o err).toControl = s.toControl := by
  have herror : (s.noteError o err).toControl = s.toControl := by
    unfold PanState.noteError
    split
    · change { s.toControl with
        goIdle := if s.forkInRoad then s.goIdle + 1 else s.goIdle
        signals := if o.hasBrakes then waitHandler .int s.signals else s.signals } = s.toControl
      rw [if_neg (by simp [hfork]), if_neg (by simp [hbrakes])]
    · rfl
  have hidle' : (s.noteError o err).goIdle = 0 := by rw [herror]; exact hidle
  unfold PanState.checked
  rw [← herror]
  generalize s.noteError o err = t at hidle'
  unfold PanState.loopEnd
  split
  · rfl
  · rw [if_neg (by simp [hidle'])]

/-- The end of the loop's body: the loop is left when all attempts are made. -/
theorem seqOk_checked (ho : o.SequentialMode) (hok : SeqOk o cnt s) {err : Int}
    (hpc : s.pc = .checked err) : SeqOk o cnt (s.checked o err) := by
  have inv := hok.loop (by rw [hpc]; rfl)
  obtain ⟨hbooks, -⟩ := s.checked_cases o err
  obtain ⟨-, -, hplace⟩ := checked_calm ho.hasBrakes err s
  have hcontrol := checked_control ho.hasBrakes inv.forkInRoad inv.goIdle err
  have hbudget := inv.budget
  rw [hpc] at hbudget
  generalize s.checked o err = t at hbooks hplace hcontrol
  have hattempts : t.attempts = s.attempts := by rw [hbooks]
  have hledger : t.ledger = s.ledger := by rw [hbooks]
  rcases hplace with ⟨hdrain, hstop, -⟩ | ⟨hlaunch, -⟩
  · refine ⟨hattempts ▸ hok.order, hattempts ▸ hok.atMost, hledger ▸ hok.forked, ?_, fun _ => ?_⟩
    · rw [hdrain]; nofun
    have hzero := inv.stop hstop
    simp only [Pc.attempting] at hbudget
    rw [hattempts]
    omega
  · refine hok.keep hattempts hledger (by rw [hlaunch]; rfl) ?_
    refine inv.move (by rw [hcontrol]) hattempts (by rw [hlaunch, hpc]; rfl) ?_ ?_
    · rw [hlaunch]; rintro (h | h | h) <;> cases h
    · rw [hlaunch]; rintro (h | h | ⟨_, h⟩) <;> cases h

theorem seqOk_loop_step (ho : o.SequentialMode) (hcalm : CalmLoop s)
    (hok : SeqOk o coll.length s) (he : e.undisturbed = true) (hmove : CalmMove o coll s e s') :
    SeqOk o coll.length s' := by
  have inv := hok.loop hcalm.pc
  cases hmove with
  | output attempt text event eq =>
      subst eq
      exact ⟨hok.order, hok.atMost, hok.forked, fun _ => inv.print _ text, hok.left⟩
  | idle a event pc full eq =>
      subst eq
      refine hok.keep rfl rfl rfl (inv.move rfl rfl (by rw [pc]; rfl) ?_ ?_)
      · intro _ hroom
        rcases full with hfull | hstop | hidle
        · exact Decidable.not_not.mp fun hstarts => hfull ⟨hroom, hstarts⟩
        · exact inv.stop hstop
        · exact absurd inv.goIdle hidle
      · rintro (h | h | ⟨_, h⟩) <;> cases h
  | run a i c colle event pc room starts stop index slot entry control run =>
      obtain rfl : c = s.c := by rw [index, if_pos ho.sequential]
      have hbudget := inv.budget
      have hpos := inv.attempting
      have hindex := inv.index
      rw [pc] at hbudget hpos hindex
      simp only [Pc.attempting, Nat.add_zero] at hbudget hpos hindex
      have hattempts : s'.attempts = s.attempts ++ [s.c] := run.ledger.2.1
      have hforked := forked_childRun (s := s.choose s.c) (event ▸ he) hok.forked run
      refine ⟨?_, ?_, hforked, ?_, ?_⟩
      · rw [hattempts]
        exact order_snoc hok.order (hindex ▸ (Nat.mod_eq_of_lt inv.bound).symm)
      · rw [hattempts, List.length_append, List.length_singleton]
        omega
      all_goals rcases run.place with habort | ⟨cpid, hran⟩
      · rw [habort]; rintro ⟨⟩
      · exact fun _ => inv.run pc starts stop hran control hattempts
      · rw [habort]; rintro ⟨⟩
      · rw [hran]; rintro ⟨⟩
  | ran a cpid event pc eq =>
      subst eq
      exact hok.keep rfl rfl rfl (inv.ran ho pc)
  | launched a event pc eq =>
      subst eq
      obtain ⟨hbooks, -, -, hpc'⟩ := launched_calm o a s
      exact hok.keep (by rw [hbooks]) (by rw [hbooks]) (by rw [hpc']; rfl) (inv.launched pc a)
  | tested a event pc eq =>
      subst eq
      exact hok.keep rfl rfl rfl (inv.move rfl rfl (by rw [pc]; rfl)
        (fun _ => inv.full (Or.inr (Or.inl pc))) fun _ => inv.stopping (Or.inl pc))
  | childless a event pc live eq =>
      subst eq
      refine hok.keep rfl rfl rfl (inv.move rfl rfl (by rw [pc]; rfl) ?_
        fun _ => inv.stopping (Or.inr (Or.inl pc)))
      rintro (h | h | h) <;> cases h
  | reap a cpid statLoc i event pc mem gone slot pgrp pos control reaped =>
      have hattempts : s'.attempts = s.attempts := reaped.ledger.2.1
      refine ⟨hattempts ▸ hok.order, hattempts ▸ hok.atMost, ?_, ?_, ?_⟩
      · rw [reaped.ledger.1]
        exact List.forall_mem_append.mpr ⟨hok.forked, List.forall_mem_singleton.mpr rfl⟩
      · intro hloop
        obtain ⟨hpc', -, -⟩ := reaped.slots (by intro habort; rw [habort] at hloop; cases hloop)
        refine inv.move (by rw [control]) hattempts (by rw [hpc', pc]; rfl) ?_
          fun _ => inv.stopping (Or.inr (Or.inl pc))
        rw [hpc']
        rintro (h | h | h) <;> cases h
      · intro hleft
        obtain ⟨hpc', -, -⟩ := reaped.slots (by intro habort; rw [habort] at hleft; cases hleft)
        rw [hpc'] at hleft
        cases hleft
  | checked a err event pc eq =>
      subst eq
      exact seqOk_checked ho hok pc

/-- The steps left at a point of the main loop, until the next attempt or the
next child. -/
def PanState.pcRank (s : PanState) : Nat :=
  match s.pc with
  | .ranChild _ => 7
  | .launch => 6
  | .launched => 5
  | .testSignal => 4
  | .check => 3
  | .checked _ => if s.stop ≠ 0 ∧ s.numActive = 0 then 2 else 7
  | _ => 0

/-- The work that is left: the attempts that are not made and the children that
are not reaped. -/
def PanState.seqRank (s : PanState) : Nat :=
  8 * (2 * (s.starts.toNat - s.pc.attempting) + s.live.length) + s.pcRank

/-- At a point of the loop where `starts` is not ahead, by its rank. -/
theorem seqRank_at (hpc : s.pc.attempting = 0) :
    s.seqRank = 8 * (2 * s.starts.toNat + s.live.length) + s.pcRank := by
  rw [PanState.seqRank, hpc, Nat.sub_zero]

/-- A step that makes no attempt, by the children and the points of the loop. -/
theorem seqRank_lt (hpc : s.pc.attempting = 0) (hpc' : s'.pc.attempting = 0)
    (hstarts : s'.starts = s.starts)
    (hrank : 8 * s'.live.length + s'.pcRank < 8 * s.live.length + s.pcRank) :
    s'.seqRank < s.seqRank := by
  rw [seqRank_at hpc, seqRank_at hpc', hstarts]
  omega

/-- Every step in the main loop lowers the rank. -/
theorem seqRank_step (ho : o.SequentialMode) (hslots : SlotsOk o s)
    (inv : SeqInv o coll.length s) (hmove : CalmMove o coll s e s')
    (hloop : s'.pc.looping = true) :
    s'.seqRank + (if e.isStep then 1 else 0) ≤ s.seqRank := by
  have hpos := inv.attempting
  have hlength : s.pc ≠ .aborted → s.numActive + s.pc.pending = s.live.length :=
    fun h => (hslots.2 h).count
  cases hmove with
  | output attempt text event eq =>
      subst eq
      simp only [event, Event.isStep]
      exact Nat.le_refl _
  | idle a event pc full eq =>
      subst eq event
      refine seqRank_lt (by rw [pc]; rfl) rfl rfl ?_
      simp only [PanState.pcRank, pc]
      omega
  | run a i c colle event pc room starts stop index slot entry control run =>
      obtain ⟨-, -, hlive, -⟩ := run.ledger
      have hlive' : s'.live.length ≤ s.live.length + 1 := hlive
      have hstarts : s'.starts = s.starts := by rw [control]; rfl
      rw [pc] at hpos
      simp only [Pc.attempting] at hpos
      rcases run.place with habort | ⟨cpid, hran⟩
      · rw [habort] at hloop
        cases hloop
      · rw [event, seqRank_at (s := s) (by rw [pc]; rfl), PanState.seqRank]
        simp only [PanState.pcRank, pc, hran, hstarts, Pc.attempting, Event.isStep, if_true]
        omega
  | ran a cpid event pc eq =>
      subst eq
      rw [pc] at hpos
      simp only [Pc.attempting] at hpos
      have hstarts : (s.ranChild o coll.length cpid).starts = s.starts - 1 :=
        if_pos ⟨Or.inr ho.sequential, by omega⟩
      rw [event, seqRank_at (s := s.ranChild o coll.length cpid) rfl, PanState.seqRank, hstarts]
      simp only [PanState.pcRank, PanState.ranChild, pc, Pc.attempting, Event.isStep, if_true]
      omega
  | launched a event pc eq =>
      obtain ⟨hbooks, -, -, hpc'⟩ := launched_calm o a s
      have hstarts : (s.launched o a).starts = s.starts := by
        unfold PanState.launched
        split
        · split <;> rfl
        · split <;> rfl
      subst eq event
      refine seqRank_lt (by rw [pc]; rfl) (by rw [hpc']; rfl) hstarts ?_
      simp only [PanState.pcRank, pc, hpc', hbooks]
      omega
  | tested a event pc eq =>
      subst eq event
      refine seqRank_lt (by rw [pc]; rfl) rfl rfl ?_
      simp only [PanState.pcRank, pc]
      omega
  | childless a event pc live eq =>
      subst eq
      -- without children the attempts are used up, so the loop is about to be left
      have hactive : s.numActive = 0 := by
        have hcount := hlength (by simp [pc])
        simp only [pc, live, Pc.pending, List.length_nil] at hcount
        omega
      have hkeep := ho.keepActive
      have hstarts : s.starts = 0 := inv.full (Or.inr (Or.inr pc)) (by omega)
      have hstop : s.stop ≠ 0 := inv.stopping (Or.inr (Or.inl pc)) hstarts
      subst event
      refine seqRank_lt (by rw [pc]; rfl) rfl rfl ?_
      simp only [PanState.pcRank, PanState.checkOrphans, pc]
      rw [if_pos ⟨hstop, hactive⟩]
      omega
  | reap a cpid statLoc i event pc mem gone slot pgrp pos control reaped =>
      obtain ⟨hpc', -, hlive⟩ := reaped.slots (by intro habort; rw [habort] at hloop; cases hloop)
      have hlive' : s'.live.length = s.live.length - 1 := by
        rw [hlive]
        exact List.length_erase_of_mem mem
      have hstarts : s'.starts = s.starts := by rw [control]
      have hmem := List.length_pos_of_mem mem
      have hrank : s'.pcRank ≤ 7 := by
        rw [PanState.pcRank, hpc']
        dsimp only
        split <;> omega
      subst event
      refine seqRank_lt (by rw [pc]; rfl) (by rw [hpc']; rfl) hstarts ?_
      have hcheck : s.pcRank = 3 := by simp only [PanState.pcRank, pc]
      omega
  | checked a err event pc eq =>
      subst eq
      obtain ⟨hbooks, -⟩ := s.checked_cases o err
      obtain ⟨-, -, hplace⟩ := checked_calm ho.hasBrakes err s
      have hcontrol := checked_control ho.hasBrakes inv.forkInRoad inv.goIdle err
      rcases hplace with ⟨hdrain, -⟩ | ⟨hlaunch, hstay⟩
      · rw [hdrain] at hloop
        cases hloop
      · have hstarts : (s.checked o err).starts = s.starts := by rw [hcontrol]
        have hlive : (s.checked o err).live = s.live := by rw [hbooks]
        subst event
        refine seqRank_lt (by rw [pc]; rfl) (by rw [hlaunch]; rfl) hstarts ?_
        simp only [PanState.pcRank, pc, hlaunch, hlive]
        rw [if_neg hstay]
        omega

theorem Event.isSignal_of_undisturbed (he : e.undisturbed = true) : e.isSignal = false := by
  cases e with
  | signal sig => cases he
  | output | step => rfl

theorem Pc.looping_of_left {pc : Pc} (h : pc.left = true) : pc.looping = false := by
  cases pc <;> first | rfl | cases h

theorem seqOk_step (ho : o.SequentialMode) (hslots : SlotsOk o s) (hcalm : CalmOk s)
    (hok : SeqOk o coll.length s) (he : e.undisturbed = true)
    (h : panNext o coll s e = some s') : SeqOk o coll.length s' := by
  have hsignal := Event.isSignal_of_undisturbed he
  rcases hcalm.place with habort | hloop | ⟨hleft, hlive⟩
  · exact absurd habort (panNext_cases h).1.2
  · exact seqOk_loop_step ho hloop hok he (calm_cases hslots hloop hsignal h)
  · cases left_cases hslots hleft hlive hsignal h with
    | output attempt text event eq =>
        subst eq
        exact ⟨hok.order, hok.atMost, hok.forked, fun h' => (hok.loop h').print _ text,
          hok.left⟩
    | drain books pc =>
        refine ⟨by rw [books]; exact hok.order, by rw [books]; exact hok.atMost,
          by rw [books]; exact hok.forked, ?_, fun _ => by rw [books]; exact hok.left hleft⟩
        rw [Pc.looping_of_left pc.1]
        rintro ⟨⟩
    | finish a event pc eq =>
        subst eq
        exact ⟨hok.order, hok.atMost, hok.forked, by rintro ⟨⟩, fun _ => hok.left hleft⟩

/-- What holds along a sequential run. -/
def SeqRunOk (o : Options) (coll : List CollEntry) (s : PanState) : Prop :=
  SlotsOk o s ∧ CalmOk s ∧ SeqOk o coll.length s

theorem seqRunOk_step (ho : o.SequentialMode) (hok : SeqRunOk o coll s)
    (he : e.undisturbed = true) (h : panNext o coll s e = some s') : SeqRunOk o coll s' := by
  obtain ⟨hslots, hcalm, hseq⟩ := hok
  obtain ⟨hpc, hmove⟩ := panNext_cases h
  exact ⟨slotsOk_step hslots hpc.2 hmove,
    calmOk_step ho.hasBrakes hslots hcalm (Event.isSignal_of_undisturbed he) h,
    seqOk_step ho hslots hcalm hseq he h⟩

theorem seqRunOk_init (ho : o.SequentialMode) (hcoll : coll ≠ []) :
    SeqRunOk o coll (PanState.init o coll) :=
  ⟨slotsOk_init, calmOk_init, seqOk_init ho hcoll⟩

theorem seqRunOk_panRun (ho : o.SequentialMode) (hcoll : coll ≠ []) {evs : List Event}
    (hevs : ∀ e ∈ evs, e.undisturbed = true) : SeqRunOk o coll (panRun o coll evs) :=
  panRun_induction (SeqRunOk o coll) hevs (seqRunOk_init ho hcoll)
    fun _ _ _ he hok h => seqRunOk_step ho hok he h

/-- The main loop is behind. -/
def PanState.hasLeft (s : PanState) : Prop := s.pc.left = true ∨ s.pc = .aborted

theorem looping_of_not_hasLeft (hcalm : CalmOk s) (h : ¬ s.hasLeft) : CalmLoop s := by
  rcases hcalm.place with habort | hloop | ⟨hleft, -⟩
  · exact absurd (Or.inr habort) h
  · exact hloop
  · exact absurd (Or.inl hleft) h

/-- What is left stays left. -/
theorem hasLeft_step (hok : SeqRunOk o coll s) (he : e.undisturbed = true)
    (h : panNext o coll s e = some s') (hleft : s.hasLeft) : s'.hasLeft := by
  obtain ⟨hslots, hcalm, -⟩ := hok
  rcases hleft with hleft | habort
  · have hlive : s.live = [] := by
      rcases hcalm.place with habort | hloop | ⟨-, hlive⟩
      · exact absurd habort (panNext_cases h).1.2
      · have hpc := hloop.pc
        rw [Pc.looping_of_left hleft] at hpc
        cases hpc
      · exact hlive
    cases left_cases hslots hleft hlive (Event.isSignal_of_undisturbed he) h with
    | output attempt text event eq => exact Or.inl (eq ▸ hleft)
    | drain books pc => exact Or.inl pc.1
    | finish a event pc eq =>
        subst eq
        exact Or.inl rfl
  · exact absurd habort (panNext_cases h).1.2

/-- An event can happen. -/
def PanEnabled (o : Options) (coll : List CollEntry) (e : Event) (s : PanState) : Prop :=
  (panNext o coll s e).isSome = true

/-- The main loop is left within a bounded number of steps. -/
theorem sequential_terminates (ho : o.SequentialMode) (hcoll : coll ≠ []) {evs : List Event}
    (hevs : ∀ e ∈ evs, e.undisturbed = true)
    (henabled : AllEnabled (panStep o coll) (PanEnabled o coll) (PanState.init o coll) evs)
    (hmany : 16 * totalAttempts o coll.length + 6 < evs.countP Event.isStep) :
    (panRun o coll evs).hasLeft := by
  have hstarts : (PanState.init o coll).starts = totalAttempts o coll.length := initialStarts_eq ho
  have hrank : (PanState.init o coll).seqRank = 16 * totalAttempts o coll.length + 6 := by
    rw [seqRank_at rfl, hstarts]
    change 8 * (2 * totalAttempts o coll.length + 0) + 6 = _
    omega
  refine exec_goal_of_rank Event.isStep (SeqRunOk o coll) PanState.hasLeft PanState.seqRank ?_ hevs
    (seqRunOk_init ho hcoll) henabled (by rw [hrank]; exact hmany)
  intro s e he hen hok
  obtain ⟨s', hs'⟩ := Option.isSome_iff_exists.mp hen
  have hstep : panStep o coll e s = s' := by rw [panStep, hs', Option.getD_some]
  rw [hstep]
  have hok' := seqRunOk_step ho hok he hs'
  refine ⟨hok', hasLeft_step hok he hs', fun hnot => ?_⟩
  have hloop : CalmLoop s :=
    looping_of_not_hasLeft hok.2.1 fun h => hnot (hasLeft_step hok he hs' h)
  exact seqRank_step ho hok.1 (hok.2.2.loop hloop.pc)
    (calm_cases hok.1 hloop (Event.isSignal_of_undisturbed he) hs')
    (looping_of_not_hasLeft hok'.2.1 hnot).pc

/-- An answer that every step can go on with: the command cannot be executed, and
the first child has exited. -/
def PanState.someAnswer (s : PanState) : Answer where
  start := .reported [] 256 0
  wait := match s.live with
    | [] => .noChild
    | cpid :: _ => .child cpid 0

/-- Before the exit there is always something that can happen. -/
theorem sequential_progress (ho : o.SequentialMode) (hok : SeqRunOk o coll s)
    (hpc : s.pc.exited = false) :
    PanEnabled o coll (.step s.someAnswer) s := by
  obtain ⟨hslots, -, hseq⟩ := hok
  unfold PanEnabled
  simp only [panNext]
  cases hpc' : s.pc with
  | launch =>
      have inv := hseq.loop (by rw [hpc']; rfl)
      have hslot := hslots.2 (by simp [hpc'])
      rw [hpc'] at hslot
      simp only [PanState.launch, ho.sequential, if_true]
      split
      next hroom =>
        obtain ⟨i, hi⟩ := Option.ne_none_iff_exists'.mp (hslot.find_free rfl hroom.1)
        rw [hi, List.getElem?_eq_getElem inv.bound]
        dsimp only
        unfold PanState.runChild
        split_ifs <;> rfl
      next => rfl
  | check =>
      cases hlive : s.live with
      | nil => simp [PanState.checkPids, PanState.someAnswer, hlive]
      | cons cpid rest =>
          have hgone : terminated 0 = true := rfl
          simp [PanState.checkPids, PanState.someAnswer, hlive, hgone]
  | finished | aborted => simp [Pc.exited, hpc'] at hpc
  | ranChild | launched | testSignal | testUsr2 | testUsr1 | propagate | propagateTo | propagated
  | checked | drain => rfl

end Steps

/-- The attempt and the command of a result line. -/
def LogLine.named : LogLine → Option (Nat × CollEntry)
  | .result attempt cmd _ _ => some (attempt, cmd)
  | _ => none

/-- The line is a result line with the word. -/
def LogLine.hasVerdict (v : Verdict) : LogLine → Bool
  | .result _ _ v' _ => v' = v
  | _ => false

/-- The result line of an attempt for which a child was forked. -/
def Outcome.resultLine (e : Outcome) : LogLine :=
  .result e.attempt e.cmd (e.verdict.getD .pass) ((e.result.map Prod.snd).getD 0)

section Log

variable {o : Options}

/-- With `-l` and `-p` an attempt for which a child was forked has one line. -/
theorem logLines_forked (hl : o.logfile = true) (hp : o.fmtPrint = true) {e : Outcome}
    (he : e.forked = true) : e.logLines o = [e.resultLine] := by
  obtain ⟨attempt, cmd, mystime, endTime, ending⟩ := e
  cases ending with
  | refused why => cases he
  | execFailed errbuf status =>
      simp [Outcome.logLines, Outcome.resultLine, Outcome.verdict, Outcome.result, hl, hp]
  | reaped statLoc stopping cutime cstime captured =>
      simp [Outcome.logLines, Outcome.resultLine, Outcome.verdict, Outcome.result, hl, hp]

theorem flatMap_logLines (hl : o.logfile = true) (hp : o.fmtPrint = true) {ledger : List Outcome}
    (h : ∀ e ∈ ledger, e.forked = true) :
    ledger.flatMap (Outcome.logLines o) = ledger.map Outcome.resultLine := by
  rw [List.flatMap_congr fun e he => logLines_forked hl hp (h e he)]
  exact List.map_eq_flatMap.symm

theorem hasVerdict_resultLine {e : Outcome} (he : e.forked = true) (v : Verdict) :
    e.resultLine.hasVerdict v = true ↔ e.verdict = some v := by
  obtain ⟨attempt, cmd, mystime, endTime, ending⟩ := e
  cases ending with
  | refused why => cases he
  | execFailed errbuf status =>
      simp [Outcome.resultLine, Outcome.verdict, LogLine.hasVerdict]
  | reaped statLoc stopping cutime cstime captured =>
      simp [Outcome.resultLine, Outcome.verdict, LogLine.hasVerdict]

theorem countP_resultLine {ledger : List Outcome} (h : ∀ e ∈ ledger, e.forked = true)
    (v : Verdict) :
    (ledger.map Outcome.resultLine).countP (LogLine.hasVerdict v) =
      ledger.countP fun e => e.verdict = some v := by
  rw [List.countP_map]
  refine List.countP_congr fun e he => ?_
  rw [decide_eq_true_eq]
  exact hasVerdict_resultLine (h e he) v

end Log

/-- What a sequential run has done in the state `s`. -/
structure SequentialRun (o : Options) (coll : List CollEntry) (s : PanState) : Prop where
  /-- the attempt `k` is made for the entry `k mod cnt` -/
  order : ∀ k c, s.attempts[k]? = some c → c = k % coll.length
  commands : s.pc ≠ .aborted →
    (∀ e ∈ s.ledger, coll[e.attempt % coll.length]? = some e.cmd) ∧
      ∀ slot ∈ s.running, slot.pgrp ≠ 0 → coll[slot.attempt % coll.length]? = some slot.cmd
  atMost : s.attempts.length ≤ totalAttempts o coll.length
  /-- after the main loop all attempts are made and every child is reaped -/
  left : s.pc.left = true → s.attempts.length = totalAttempts o coll.length ∧ s.live = [] ∧
    (∀ slot ∈ s.running, slot.pgrp = 0) ∧
    s.ledger.map Outcome.attempt ~ List.range (totalAttempts o coll.length)
  /-- one result line for every attempt, with its command -/
  log : s.pc.left = true → o.logfile = true → o.fmtPrint = true →
    s.log.filterMap LogLine.named ~
      (List.range (totalAttempts o coll.length)).filterMap fun k =>
        coll[k % coll.length]?.map fun cmd => (k, cmd)
  totals : s.pc = .finished → o.logfile = true → o.fmtPrint = true →
    ∃ results, results.length = totalAttempts o coll.length ∧
      s.log = results ++ [.totals coll.length (results.countP (LogLine.hasVerdict .conf) : Nat)
        (results.countP (LogLine.hasVerdict .fail) : Nat)]

theorem AttemptOf.inOrder {coll : List CollEntry} {attempts : List Nat} {attempt : Nat}
    {cmd : CollEntry} (h : AttemptOf coll attempts attempt cmd)
    (horder : ∀ k c, attempts[k]? = some c → c = k % coll.length) :
    coll[attempt % coll.length]? = some cmd := by
  obtain ⟨c, hc, hcmd⟩ := h
  rw [← horder attempt c hc]
  exact hcmd

section Result

variable {o : Options} {coll : List CollEntry} {s : PanState}

/-- The commands that the ledger names, in the order of the attempts. -/
theorem named_ledger {ledger : List Outcome} {total : Nat}
    (hnumbers : ledger.map Outcome.attempt ~ List.range total)
    (hcmds : ∀ e ∈ ledger, coll[e.attempt % coll.length]? = some e.cmd) :
    ledger.map (fun e => (e.attempt, e.cmd)) ~
      (List.range total).filterMap fun k => coll[k % coll.length]?.map fun cmd => (k, cmd) := by
  have hnamed : ledger.map (fun e => (e.attempt, e.cmd)) = (ledger.map Outcome.attempt).filterMap
      fun k => coll[k % coll.length]?.map fun cmd => (k, cmd) := by
    rw [List.filterMap_map, ← List.filterMap_eq_map]
    refine List.filterMap_congr fun e he => ?_
    simp [hcmds e he]
  rw [hnamed]
  exact hnumbers.filterMap _

theorem sequentialRun_of_ok (hrun : SeqRunOk o coll s) (hledger : LedgerOk o coll s)
    (haccounts : AccountsOk coll s) : SequentialRun o coll s := by
  obtain ⟨hslots, hcalm, hseq⟩ := hrun
  obtain ⟨results, hlog, hinv⟩ := hledger
  have hnotAborted : s.pc.left = true → s.pc ≠ .aborted := by
    rintro hleft habort
    rw [habort] at hleft
    cases hleft
  have hcommands : s.pc ≠ .aborted → _ ∧ _ := fun hpc =>
    ⟨fun e he => ((haccounts hpc).ended e he).inOrder hseq.order,
      fun slot hslot hpos => ((haccounts hpc).active slot hslot hpos).inOrder hseq.order⟩
  have hleft : s.pc.left = true → s.attempts.length = totalAttempts o coll.length ∧ s.live = [] ∧
      (∀ slot ∈ s.running, slot.pgrp = 0) ∧
      s.ledger.map Outcome.attempt ~ List.range (totalAttempts o coll.length) := by
    intro hleft
    have hlive : s.live = [] := by
      rcases hcalm.place with habort | hloop | ⟨-, hlive⟩
      · exact absurd habort (hnotAborted hleft)
      · exact absurd hloop.pc (by simp [Pc.looping_of_left hleft])
      · exact hlive
    have hslot := hslots.2 (hnotAborted hleft)
    have hnumbers := (haccounts (hnotAborted hleft)).all_ended hslot hlive
    rw [hseq.left hleft] at hnumbers
    exact ⟨hseq.left hleft, hlive, fun slot => hslot.free_of_live hlive, hnumbers⟩
  have hresults : o.logfile = true → o.fmtPrint = true →
      results = s.ledger.map Outcome.resultLine := fun hl hp =>
    hinv.log.trans (flatMap_logLines hl hp hseq.forked)
  refine ⟨hseq.order, hcommands, hseq.atMost, hleft, fun hl' hl hp => ?_, fun hpc hl hp => ?_⟩
  · have hclosing : (s.closing o coll).filterMap LogLine.named = [] := by
      unfold PanState.closing
      split <;> rfl
    rw [hlog, List.filterMap_append, hclosing, List.append_nil, hresults hl hp, List.filterMap_map]
    have hnamed : s.ledger.filterMap (LogLine.named ∘ Outcome.resultLine) =
        s.ledger.map fun e => (e.attempt, e.cmd) := by
      rw [← List.filterMap_eq_map]
      rfl
    rw [hnamed]
    exact named_ledger (hleft hl').2.2.2 (hcommands (hnotAborted hl')).1
  · have hnumbers := (hleft (by rw [hpc]; rfl)).2.2.2.length_eq
    have hconf : s.tconfcnt = (results.countP (LogLine.hasVerdict .conf) : Nat) := by
      rw [hresults hl hp, countP_resultLine hseq.forked]
      simpa [hl, hp] using hinv.tconfcnt
    have hfail : s.failcnt = (results.countP (LogLine.hasVerdict .fail) : Nat) := by
      rw [hresults hl hp, countP_resultLine hseq.forked]
      simpa [hl, hp] using hinv.failcnt
    refine ⟨results, ?_, ?_⟩
    · rw [hresults hl hp, List.length_map]
      simpa using hnumbers
    · rw [hlog, PanState.closing, if_pos ⟨hpc, hl, hp⟩, hconf, hfail]

end Result

/-- Two commands side by side, of which the second cannot be executed. -/
def twoCommands : List Event :=
  [.step { start := .started 7 }, .step { start := .started 7 },
    .step { start := .reported (noSuchFile (txt "b")) 512 0 },
    .step { start := .started 7 }, .step { start := .started 7 }, .step { start := .started 7 },
    .step { start := .started 7 }, .step { start := .started 7, wait := .child 7 0 },
    .step { start := .started 7 }, .step { start := .started 7 }]

end EDDTs.Pan
