import EDDTs.Pan.DriverCalm

/-!
# Process groups of ltp-pan

A process group is known to ltp-pan from the start of its leader: in a slot until
the leader is reaped, and in the list of orphans after that for as long as it has
members. What an event does to the two, and which calls on the active file go
with it.
-/

namespace EDDTs.Pan

open Library Library.Interleaving
open scoped List

/-- The process group in a slot, and its command. -/
def Slot.entry (slot : Slot) : Option (Pid × CollEntry) :=
  if slot.pgrp = 0 then none else some (slot.pgrp, slot.cmd)

/-- The process group in an element of the list of orphans. -/
def orphanGroup (p : Pid) : Option Pid := if p = 0 then none else some p

namespace PanState

/-- The list of orphans and the calls on the active file. -/
def groups (s : PanState) : List Pid × List ZooCall := (s.orphans, s.zoo)

/-- The process groups in the slots, with their commands. -/
def entries (s : PanState) : List (Pid × CollEntry) := items Slot.entry s.running

/-- The process groups in the list of orphans. -/
def orphaned (s : PanState) : List Pid := items orphanGroup s.orphans

/-- The groups after `check_orphans`. -/
def lookedAt (s : PanState) (emptied : List Pid) : List Pid × List ZooCall :=
  (s.orphans.map fun p => if p ∈ emptied then 0 else p,
    s.zoo ++ (s.orphans.filter fun p => p ≠ 0 ∧ p ∈ emptied).map .clear)

theorem checked_groups (o : Options) (s : PanState) (err : Int) :
    (s.checked o err).groups = s.groups := by
  have herror : (s.noteError o err).groups = s.groups := by
    unfold noteError
    split <;> rfl
  rw [← herror]
  unfold checked loopEnd
  split
  · rfl
  · split <;> rfl

variable {o : Options} {colle : CollEntry} {i attempt : Nat} {a : Answer} {s s' : PanState}

/-- `run_child` marks the process group of a child that it returns, and no other. -/
theorem runChild_groups (h : s.runChild o colle i attempt a = some s') :
    (s'.groups = s.groups ∧ ∀ pid, a.start = .started pid → s'.pc = .aborted) ∨
      ∃ pid, a.start = .started pid ∧ s'.pc ≠ .aborted ∧
        s'.groups = (s.orphans, s.zoo ++ [.mark pid colle.name colle.cmdline]) := by
  unfold runChild at h
  dsimp only at h
  have hcmd : (s.attemptSlot i a.now colle attempt).cmd = colle := rfl
  generalize s.attemptSlot i a.now colle attempt = slot at h hcmd
  have hfork : (s.enterFork o i slot a.kmsgOk).groups = s.groups := by
    rw [enterFork_eq]
    rfl
  generalize s.enterFork o i slot a.kmsgOk = t at h hfork
  split at h
  next =>
    obtain rfl := Option.some.inj h
    have hoverrun : ∀ t : PanState, t.overrun.groups = t.groups := fun _ => rfl
    refine Or.inl ⟨(t.unlessAborted_frame groups hoverrun).trans hfork, fun _ _ => ?_⟩
    unfold unlessAborted
    split_ifs with hp
    · exact hp
    · rfl
  cases hstart : a.start with
  | openFails =>
      simp only [hstart, Option.ite_none_right_eq_some, Option.some.injEq] at h
      obtain ⟨-, rfl⟩ := h
      exact Or.inl ⟨rfl, by rintro _ ⟨⟩⟩
  | pipeFails =>
      simp only [hstart, Option.some.injEq] at h
      subst h
      exact Or.inl ⟨rfl, by rintro _ ⟨⟩⟩
  | forkFails =>
      simp only [hstart, Option.some.injEq] at h
      subst h
      have hrefuse : ∀ t : PanState,
          (t.refuse attempt colle a.now .forkFails).groups = t.groups := fun _ => rfl
      exact Or.inl ⟨(t.unlessAborted_frame groups hrefuse).trans hfork, by rintro _ ⟨⟩⟩
  | reported errbuf status endTime =>
      simp only [hstart, Option.ite_none_right_eq_some, Option.some.injEq] at h
      obtain ⟨-, rfl⟩ := h
      have hfailed : ∀ t : PanState,
          (t.noteFailedStart o slot errbuf status endTime).groups = t.groups := fun t => by
        rw [noteFailedStart_eq]
        rfl
      exact Or.inl ⟨(t.unlessAborted_frame groups hfailed).trans hfork, by rintro _ ⟨⟩⟩
  | started pid =>
      simp only [hstart, Option.ite_none_right_eq_some, Option.some.injEq] at h
      obtain ⟨-, rfl⟩ := h
      by_cases hp : t.pc = .aborted
      · rw [unlessAborted, if_pos hp]
        exact Or.inl ⟨hfork, fun _ _ => hp⟩
      · rw [unlessAborted, if_neg hp, noteStarted]
        cases a.zooOk with
        | false => exact Or.inl ⟨hfork, fun _ _ => rfl⟩
        | true =>
            refine Or.inr ⟨pid, rfl, by rintro ⟨⟩, ?_⟩
            simp only [groups, Prod.mk.injEq] at hfork ⊢
            rw [← hfork.1, ← hfork.2, hcmd]
            exact ⟨rfl, rfl⟩

/-- The head of the launch loop ends the loop or calls `run_child`. -/
theorem launch_inversion {coll : List CollEntry} (h : s.launch o coll a = some s') :
    (s'.entries = s.entries ∧ s'.groups = s.groups ∧ s'.pc = .launched) ∨
      ∃ i c colle, s.running.findIdx? (fun r => r.pgrp = 0) = some i ∧ coll[c]? = some colle ∧
        (s.choose c).runChild o colle i s.attempts.length a = some s' := by
  cases launch_moves h with
  | idle full eq => exact Or.inl (eq ▸ ⟨rfl, rfl, rfl⟩)
  | noSlot room slot eq => exact Or.inl (eq ▸ ⟨rfl, rfl, rfl⟩)
  | run i c colle room starts stop index slot entry call =>
      exact Or.inr ⟨i, c, colle, slot, entry, call⟩

theorem launch_orphans {coll : List CollEntry} (h : s.launch o coll a = some s') :
    s'.orphans = s.orphans := by
  rcases launch_inversion h with ⟨-, hgroups, -⟩ | ⟨i, c, colle, -, -, hrun⟩
  · exact (Prod.mk.inj hgroups).1
  · rcases runChild_groups hrun with ⟨hgroups, -⟩ | ⟨pid, -, -, hgroups⟩
    · exact (Prod.mk.inj hgroups).1
    · exact (Prod.mk.inj hgroups).1

/-- `check_pids` clears the line of a child that it takes out of its slot. A process
group that is still alive goes to the orphans, with a line of its own. -/
theorem reapChild_groups (o : Options) {cpid : Pid} {statLoc : Nat} (hzoo : a.zooOk = true)
    (hmark : a.zooMarkOk = true) (hgone : terminated statLoc = true)
    (hi : s.running.findIdx? (fun r => r.pgrp = cpid) = some i) :
    ((s.reapChild o cpid statLoc a).pc = .aborted ∧
        (s.reapChild o cpid statLoc a).running = s.running ∧
        (s.reapChild o cpid statLoc a).groups = s.groups) ∨
      ((s.reapChild o cpid statLoc a).running =
          s.running.set i { s.running.getD i {} with pgrp := 0 } ∧
        (s.reapChild o cpid statLoc a).groups =
          if a.groupAlive then
            (markOrphan s.orphans cpid, s.zoo ++ [.clear cpid] ++
              [.mark cpid (txt "panorphan") (s.running.getD i {}).cmd.cmdline])
          else (s.orphans, s.zoo ++ [.clear cpid])) := by
  rw [reapChild_eq hgone hi]
  generalize s.running.getD i {} = slot
  have hrunning : ({ s.toBooks with numActive := s.numActive - 1 }.noteChild o slot statLoc
      a).running = s.running := by rw [Books.noteChild_eq]; rfl
  generalize { s.toBooks with numActive := s.numActive - 1 }.noteChild o slot statLoc a = b
    at hrunning ⊢
  have hframe := reportChild_frame o { s with toBooks := b } a slot
    (childW statLoc slot.stopping) statLoc (fun t => (t.groups, t.toBooks))
    (termination statLoc).1 fun _ _ _ => rfl
  generalize { s with toBooks := b }.reportChild o slot (termination statLoc).1
    (childW statLoc slot.stopping) statLoc a = t at hframe ⊢
  obtain ⟨hgroups, hbooks⟩ := Prod.mk.inj hframe
  have hrunning' : t.running = s.running := by rw [hbooks, hrunning]
  obtain ⟨horphans, hcalls⟩ := Prod.mk.inj hgroups
  by_cases hp : t.pc = .aborted
  · rw [unlessAborted, if_pos hp]
    exact Or.inl ⟨hp, hrunning', hgroups⟩
  · right
    rw [unlessAborted, if_neg hp, ← hrunning']
    refine ⟨congrArg Books.running (releaseSlot_cases i slot cpid _ a t).1, ?_⟩
    simp only [releaseSlot, hzoo, hmark, Bool.not_true, Bool.false_eq_true, if_false]
    cases a.groupAlive <;> simp [groups, horphans, hcalls]

end PanState

/-- `check_orphans` is called at this point, with these answers. -/
def LooksAtOrphans (o : Options) (s : PanState) (e : Event) (a : Answer) : Prop :=
  e = .step a ∧ (s.pc = .check ∨ ∃ draining i, s.pc = .propagateTo draining i ∧ o.keepActive ≤ i)

/-- The program goes on, and leaves the main loop with no child counted. -/
def GoesOn (s s' : PanState) : Prop :=
  s'.pc ≠ .finished ∧
    (s'.pc.left = true → s.pc.left = true ∨ (s.numActive = 0 ∧ s.pc.pending = 0))

/-- All that an event can do to the process groups, when the calls on the active file
succeed. -/
inductive GroupMove (o : Options) (coll : List CollEntry) (s : PanState) (e : Event)
    (s' : PanState) : Prop
  | idle (entries : s'.entries = s.entries) (groups : s'.groups = s.groups)
      (place : GoesOn s s')
  | start (a : Answer) (pid : Pid) (colle : CollEntry) (event : e = .step a)
      (start : a.start = .started pid) (mem : colle ∈ coll)
      (entries : s'.entries ~ (pid, colle) :: s.entries)
      (groups : s'.groups = (s.orphans, s.zoo ++ [.mark pid colle.name colle.cmdline]))
      (place : s'.pc.left = false)
  | look (a : Answer) (looks : LooksAtOrphans o s e a) (entries : s'.entries = s.entries)
      (groups : s'.groups = s.lookedAt a.emptied) (place : GoesOn s s')
  | reap (a : Answer) (cpid : Pid) (cmd : CollEntry) (looks : LooksAtOrphans o s e a)
      (pos : cpid ≠ 0) (entries : (cpid, cmd) :: s'.entries ~ s.entries)
      (groups : s'.groups =
        if a.groupAlive then
          (PanState.markOrphan (s.lookedAt a.emptied).1 cpid,
            (s.lookedAt a.emptied).2 ++ [.clear cpid] ++
              [.mark cpid (txt "panorphan") cmd.cmdline])
        else ((s.lookedAt a.emptied).1, (s.lookedAt a.emptied).2 ++ [.clear cpid]))
      (place : s'.pc.left = false)
  | finish (pc : s.pc = .drain) (orphaned : s.orphaned = []) (entries : s'.entries = s.entries)
      (groups : s'.groups = (s.orphans, s.zoo ++ [.clearSelf])) (pc' : s'.pc = .finished)

section Moves

variable {o : Options} {coll : List CollEntry} {s s' : PanState} {e : Event} {a : Answer}
  {slot : Slot}

theorem entry_eq_none (h : slot.pgrp = 0) : slot.entry = none := if_pos h

theorem entry_eq_some (h : slot.pgrp ≠ 0) : slot.entry = some (slot.pgrp, slot.cmd) :=
  if_neg h

theorem orphaned_eq_nil (h : s.orphans.all (· = 0) = true) : s.orphaned = [] := by
  apply List.filterMap_eq_nil_iff.mpr
  intro p hp
  exact if_pos (by simpa using List.all_eq_true.mp h p hp)

theorem GoesOn.of_not_left (h : s'.pc.left = false) : GoesOn s s' := by
  constructor
  · intro hpc
    rw [hpc] at h
    cases h
  · intro hleft
    rw [h] at hleft
    cases hleft

theorem GoesOn.of_left_eq (hpc : s'.pc ≠ .finished) (h : s'.pc.left = s.pc.left) : GoesOn s s' :=
  ⟨hpc, fun hleft => Or.inl (h ▸ hleft)⟩

theorem ChildRun.not_left {colle : CollEntry} {i attempt : Nat}
    (h : ChildRun o colle i attempt a slot s s') : s'.pc.left = false := by
  rcases h.place with hpc | ⟨_, hpc⟩ <;> rw [hpc] <;> rfl

theorem ChildReaped.not_left {statLoc i : Nat} (h : ChildReaped o statLoc a i slot s s') :
    s'.pc.left = false := by
  cases h with
  | aborted cause books pc => rw [pc]; rfl
  | checked books pc rts => rw [pc]; rfl

/-- The main loop is left when no child is counted. -/
theorem checked_left {err : Int} (hleft : (s.checked o err).pc.left = true) : s.numActive = 0 := by
  have hactive : (s.noteError o err).numActive = s.numActive := by
    unfold PanState.noteError
    split <;> rfl
  rw [← hactive]
  unfold PanState.checked PanState.loopEnd at hleft
  split at hleft
  next h => exact h.2
  next => split at hleft <;> cases hleft

/-- A call of `run_child` starts a process group or changes none. -/
theorem groupMove_run {i c : Nat} {colle : CollEntry} (hzoo : a.zooOk = true)
    (hpc : s.pc = .launch) (hi : s.running.findIdx? (fun r => r.pgrp = 0) = some i)
    (hentry : coll[c]? = some colle)
    (h : (s.choose c).runChild o colle i s.attempts.length a = some s') :
    GroupMove o coll s (.step a) s' := by
  obtain ⟨hget, hfree⟩ := getElem?_of_findIdx? hi
  have hfree' : (s.running.getD i {}).entry = none := entry_eq_none (by simpa using hfree)
  obtain ⟨-, hrun⟩ := call_cases hpc h
  have hpgrp : ((s.choose c).attemptSlot i a.now colle s.attempts.length).pgrp =
    (s.running.getD i {}).pgrp := rfl
  have hcmd : ((s.choose c).attemptSlot i a.now colle s.attempts.length).cmd = colle := rfl
  generalize (s.choose c).attemptSlot i a.now colle s.attempts.length = slot at hrun hpgrp hcmd
  have hslot : slot.entry = none := entry_eq_none (by rw [hpgrp]; simpa using hfree)
  have hset : items Slot.entry (s.running.set i slot) = s.entries :=
    items_set_same Slot.entry hget (hslot.trans hfree'.symm)
  have hgroups := PanState.runChild_groups h
  have hplace := hrun.not_left
  cases hrun with
  | refused why b entered start books pc =>
      rcases hgroups with ⟨hgroups, -⟩ | ⟨pid, hstart, -⟩
      · refine .idle ?_ hgroups (.of_not_left hplace)
        rw [PanState.entries, books]
        rcases entered with rfl | rfl
        · rfl
        · exact hset
      · simp [hstart] at start
  | aborted cause books pc =>
      rcases hgroups with ⟨hgroups, -⟩ | ⟨pid, -, hne, -⟩
      · refine .idle ?_ hgroups (.of_not_left hplace)
        rw [PanState.entries, books]
        exact hset
      · exact absurd pc hne
  | failed errbuf status endTime start gone books pc rts =>
      rcases hgroups with ⟨hgroups, -⟩ | ⟨pid, hstart, -⟩
      · refine .idle ?_ hgroups (.of_not_left hplace)
        rw [PanState.entries, books, Books.failedStart_eq]
        exact hset
      · simp [hstart] at start
  | started pid start pos fresh books pc rts =>
      rcases hgroups with ⟨-, habort⟩ | ⟨pid', hstart, hne, hgroups⟩
      · rw [if_pos hzoo, habort pid start] at pc
        cases pc
      · obtain rfl : pid = pid' := by simpa [start] using hstart
        refine .start a pid colle rfl start (List.mem_of_getElem? hentry) ?_ hgroups hplace
        rw [PanState.entries, books, ← hcmd]
        exact items_set_fill Slot.entry hget hfree' (entry_eq_some pos)

theorem launch_groups (hzoo : a.zooOk = true) (hpc : s.pc = .launch)
    (h : s.launch o coll a = some s') : GroupMove o coll s (.step a) s' := by
  rcases PanState.launch_inversion h with ⟨hentries, hgroups, hpc'⟩ |
    ⟨i, c, colle, hslot, hentry, hrun⟩
  · exact .idle hentries hgroups (.of_not_left (by rw [hpc']; rfl))
  · exact groupMove_run hzoo hpc hslot hentry hrun

/-- `check_pids` looks at the orphans, and takes a child that it reaps out of its slot. -/
theorem checkPids_groups (hinv : SlotInv o 0 s.toBooks) (hzoo : a.zooOk = true)
    (hmark : a.zooMarkOk = true) (hpc : s.pc = .check) (h : s.checkPids o a = some s') :
    GroupMove o coll s (.step a) s' := by
  have hlooks : LooksAtOrphans o s (.step a) a := ⟨rfl, Or.inl hpc⟩
  rcases checkPids_moves h with ⟨-, rfl⟩ | ⟨cpid, statLoc, hmem, hgone, rfl⟩
  · exact .look a hlooks rfl rfl (.of_not_left rfl)
  · obtain ⟨i, hi, hpos⟩ := hinv.find_child hmem
    obtain ⟨hget, hpgrp⟩ := getElem?_of_findIdx? hi
    have hpgrp : (s.running.getD i {}).pgrp = cpid := by simpa using hpgrp
    have hpc' : (s.waited a.emptied cpid).pc ≠ .aborted := by
      rw [show (s.waited a.emptied cpid).pc = s.pc from rfl, hpc]
      nofun
    have hi' : (s.waited a.emptied cpid).running.findIdx? (fun r => r.pgrp = cpid) = some i := hi
    have hplace := (PanState.reapChild_cases (o := o) (a := a) hpc' hgone hi').2.not_left
    rcases PanState.reapChild_groups o hzoo hmark hgone hi' with ⟨-, hrunning, hgroups⟩ |
      ⟨hrunning, hgroups⟩
    · exact .look a hlooks (congrArg (items Slot.entry) hrunning) hgroups (.of_not_left hplace)
    · refine .reap a cpid (s.running.getD i {}).cmd hlooks hpos ?_ hgroups hplace
      rw [PanState.entries, hrunning]
      apply items_set_empty Slot.entry hget
      · rw [entry_eq_some (by rw [hpgrp]; exact hpos), hpgrp]
      · exact entry_eq_none rfl

/-- `propagate_signal` marks the slots that it sends its signal to, and then looks at
the orphans. -/
theorem propagateTo_groups {draining : Bool} {i : Nat} (hlength : s.running.length = o.keepActive)
    (hpc : s.pc = .propagateTo draining i) :
    GroupMove o coll s (.step a) (s.propagateTo o draining i a) := by
  have hplace : ∀ t : PanState, t.pc = .propagateTo draining (i + 1) → GoesOn s t := by
    intro t ht
    refine .of_left_eq (by rw [ht]; nofun) ?_
    rw [ht, hpc]
    cases draining <;> rfl
  unfold PanState.propagateTo
  split
  next hi =>
    by_cases hfree : (s.running.getD i {}).pgrp = 0
    · simp only [if_pos hfree]
      exact .idle rfl rfl (hplace _ rfl)
    · simp only [if_neg hfree]
      have hget := getElem?_eq_getD (hlength.symm ▸ hi)
      exact .idle (items_set_same Slot.entry hget rfl) rfl (hplace _ rfl)
  next hi =>
    refine .look a ⟨rfl, Or.inr ⟨draining, i, hpc, Nat.le_of_not_lt hi⟩⟩ rfl rfl ?_
    cases draining with
    | false => exact .of_not_left rfl
    | true => exact .of_left_eq nofun (by rw [hpc]; rfl)

theorem groupMove (hok : SlotsOk o s)
    (hzoo : ∀ a, e = .step a → a.zooOk = true ∧ a.zooMarkOk = true)
    (h : panNext o coll s e = some s') : GroupMove o coll s e s' := by
  have hrunning : (!s.pc.exited) = true → s.pc ≠ .finished := by
    intro hexit hpc
    simp [Pc.exited, hpc] at hexit
  cases e with
  | signal sig =>
      simp only [panNext, Option.ite_none_right_eq_some, Option.some.injEq] at h
      obtain ⟨⟨-, hexit⟩, rfl⟩ := h
      exact .idle rfl rfl (.of_left_eq (hrunning hexit) rfl)
  | output attempt text =>
      simp only [panNext, Option.ite_none_right_eq_some, Option.some.injEq] at h
      obtain ⟨⟨-, -, hexit⟩, rfl⟩ := h
      exact .idle rfl rfl (.of_left_eq (hrunning hexit) rfl)
  | step a =>
      obtain ⟨hzoo, hmark⟩ := hzoo a rfl
      simp only [panNext] at h
      cases hpc : s.pc with
      | launch => exact launch_groups hzoo hpc (by simpa only [hpc] using h)
      | ranChild cpid =>
          simp only [hpc, Option.some.injEq] at h
          subst h
          exact .idle rfl rfl (.of_not_left rfl)
      | launched =>
          simp only [hpc, Option.some.injEq] at h
          subst h
          unfold PanState.launched
          split
          · split <;> exact .idle rfl rfl (.of_not_left rfl)
          · split <;> exact .idle rfl rfl (.of_not_left rfl)
      | testSignal =>
          simp only [hpc, Option.some.injEq] at h
          subst h
          refine .idle rfl rfl (.of_not_left ?_)
          unfold PanState.testSignal
          split <;> rfl
      | testUsr2 =>
          simp only [hpc, Option.some.injEq] at h
          subst h
          unfold PanState.testUsr2 PanState.idleOrStop
          split
          · split <;> exact .idle rfl rfl (.of_not_left rfl)
          · exact .idle rfl rfl (.of_not_left rfl)
      | testUsr1 =>
          simp only [hpc, Option.some.injEq] at h
          subst h
          exact .idle rfl rfl (.of_not_left rfl)
      | propagate draining =>
          simp only [hpc, Option.some.injEq] at h
          subst h
          have hplace : GoesOn s (s.propagate draining) := by
            refine .of_left_eq (by rintro ⟨⟩) ?_
            rw [hpc]
            cases draining <;> rfl
          refine .idle ?_ ?_ hplace <;> unfold PanState.propagate <;> split <;> rfl
      | propagateTo draining i =>
          simp only [hpc, Option.some.injEq] at h
          subst h
          have hlength := (hok.2 (by simp [hpc])).length
          exact propagateTo_groups hlength hpc
      | propagated =>
          simp only [hpc, Option.some.injEq] at h
          subst h
          unfold PanState.propagated PanState.idleOrStop
          split <;> exact .idle rfl rfl (.of_not_left rfl)
      | check =>
          have hinv := hok.2 (by simp [hpc])
          rw [hpc] at hinv
          exact checkPids_groups hinv hzoo hmark hpc (by simpa only [hpc] using h)
      | checked err =>
          simp only [hpc, Option.some.injEq] at h
          subst h
          obtain ⟨hbooks, -, -, hpc'⟩ := s.checked_cases o err
          refine .idle ?_ (s.checked_groups o err) ⟨?_, fun hleft => Or.inr ?_⟩
          · rw [PanState.entries, hbooks]
            rfl
          · rcases hpc' with hpc' | hpc' <;> rw [hpc'] <;> rintro ⟨⟩
          · exact ⟨checked_left hleft, by rw [hpc]; rfl⟩
      | drain =>
          simp only [hpc, Option.some.injEq] at h
          subst h
          unfold PanState.drain
          split
          next hnone =>
            refine .finish hpc (orphaned_eq_nil hnone) rfl ?_ rfl
            simp only [PanState.groups, PanState.finish, hzoo, if_true]
          next => exact .idle rfl rfl (.of_left_eq (by rintro ⟨⟩) (by rw [hpc]; rfl))
      | finished | aborted => simp [hpc] at h

end Moves

end EDDTs.Pan
