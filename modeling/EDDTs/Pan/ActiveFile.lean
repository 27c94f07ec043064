import EDDTs.Pan.Collection
import EDDTs.Pan.DriverGroups
import EDDTs.Pan.ZooTable

/-!
# The active file during a run of ltp-pan

ltp-pan enters itself into the active file, makes room for as many lines as it
runs commands at a time, and then keeps a line for each process group that it
knows. The file is the one that the calls of the run on `zoolib.c` leave.
-/

namespace EDDTs.Pan

open Library Library.Interleaving
open scoped List

/-- How ltp-pan was called. -/
structure Invocation where
  /-- `getpid()` -/
  self : Pid
  /-- `-n` -/
  panname : Text
  argv : List Text
  deriving DecidableEq, Repr

/-- The calls on the active file before the main loop. -/
def Invocation.setup (v : Invocation) (keepActive : Nat) : List ZooOp :=
  .mark v.self v.panname (catArgs v.argv) ::
    ((List.range keepActive).map fun c => .mark c v.panname []) ++
    (List.range keepActive).map .clear

def ZooCall.op (self : Pid) : ZooCall → ZooOp
  | .mark pid tag cmdline => .mark pid tag cmdline
  | .clear pid => .clear pid
  | .clearSelf => .clear self

/-- The calls on the active file from the start to a state. -/
def Invocation.ops (v : Invocation) (o : Options) (s : PanState) : List ZooOp :=
  v.setup o.keepActive ++ s.zoo.map (ZooCall.op v.self)

/-- The active file, which was empty at the start. -/
def Invocation.activeFile (v : Invocation) (o : Options) (s : PanState) : Text :=
  zooRun (v.ops o s)

/-- The pids of the lines that are not free. -/
def livePids (file : Text) : List Int := (liveLines file).map atoi

/-- The process groups that ltp-pan knows, and itself. -/
def Invocation.known (v : Invocation) (s : PanState) : List Pid :=
  v.self :: (s.running.map Slot.pgrp).filter (· ≠ 0) ++ s.orphans.filter (· ≠ 0)

/-! ### The pids that are outstanding -/

def zooPids (ops : List ZooOp) : List Pid := (outstanding ops).map ZooEntry.pid

theorem zooPids_mark (ops : List ZooOp) (p : Pid) (tag cmdline : Text) :
    zooPids (ops ++ [.mark p tag cmdline]) ~ p :: zooPids ops :=
  (outstanding_mark ops p tag cmdline).map ZooEntry.pid

theorem zooPids_clear {ops : List ZooOp} {p : Pid} {rest : List Pid}
    (h : zooPids ops ~ p :: rest) : zooPids (ops ++ [.clear p]) ~ rest := by
  obtain ⟨e, he, hpid⟩ := List.mem_map.mp (h.mem_iff.mpr List.mem_cons_self)
  obtain ⟨e', rfl, hperm⟩ := outstanding_clear ⟨e, he, hpid⟩
  exact ((hperm.map ZooEntry.pid).trans h).cons_inv

theorem zooPids_clears {ops : List ZooOp} {ps rest : List Pid} (h : zooPids ops ~ ps ++ rest) :
    zooPids (ops ++ ps.map .clear) ~ rest := by
  induction ps generalizing ops with
  | nil => simpa using h
  | cons p ps ih =>
      have hrest := ih (zooPids_clear h)
      rwa [List.append_assoc] at hrest

theorem zooPids_marks (ops : List ZooOp) (ps : List Pid) (tag cmdline : Text) :
    zooPids (ops ++ ps.map fun p => .mark p tag cmdline) ~ ps ++ zooPids ops := by
  induction ps generalizing ops with
  | nil => simp
  | cons p ps ih =>
      have hrest := ih (ops ++ [.mark p tag cmdline])
      rw [List.append_assoc] at hrest
      calc
        zooPids (ops ++ (p :: ps).map fun p => .mark p tag cmdline)
          ~ ps ++ zooPids (ops ++ [.mark p tag cmdline]) := hrest
        _ ~ ps ++ p :: zooPids ops := (zooPids_mark ops p tag cmdline).append_left ps
        _ ~ p :: ps ++ zooPids ops := List.perm_middle

theorem zooPids_setup (v : Invocation) (keepActive : Nat) :
    zooPids (v.setup keepActive) ~ [v.self] := by
  have hself := zooPids_mark [] v.self v.panname (catArgs v.argv)
  have hmarks := zooPids_marks ([] ++ [.mark v.self v.panname (catArgs v.argv)])
    (List.range keepActive) v.panname []
  exact zooPids_clears (hmarks.trans (hself.append_left _))

/-! ### The list of orphans -/

theorem orphaned_eq_filter (s : PanState) : s.orphaned = s.orphans.filter (· ≠ 0) := by
  unfold PanState.orphaned
  induction s.orphans with
  | nil => rfl
  | cons p orphans ih =>
      rw [items_cons, ih]
      by_cases hp : p = 0 <;> simp [orphanGroup, hp]

theorem entries_fst (s : PanState) :
    s.entries.map Prod.fst = (s.running.map Slot.pgrp).filter (· ≠ 0) := by
  unfold PanState.entries
  induction s.running with
  | nil => rfl
  | cons slot running ih =>
      rw [items_cons, List.map_append, ih]
      by_cases hfree : slot.pgrp = 0 <;> simp [Slot.entry, hfree]

/-- `mark_orphan` adds a process group, wherever it puts it. -/
theorem items_markOrphan (orphans : List Pid) {cpid : Pid} (hpos : cpid ≠ 0) :
    items orphanGroup (PanState.markOrphan orphans cpid) ~ cpid :: items orphanGroup orphans := by
  have hcpid : orphanGroup cpid = some cpid := if_neg hpos
  unfold PanState.markOrphan
  cases hfind : orphans.findIdx? (· = 0) with
  | some i =>
      obtain ⟨hlt, hzero, -⟩ := List.findIdx?_eq_some_iff_getElem.mp hfind
      have hget : orphans[i]? = some 0 := by
        rw [List.getElem?_eq_getElem hlt]
        simpa using hzero
      exact items_set_fill orphanGroup hget rfl hcpid
  | none =>
      cases orphans with
      | nil => simp [items, hcpid]
      | cons head rest =>
          rw [items_cons, items_cons, items_cons, hcpid]
          exact List.perm_middle

/-- `check_orphans` clears the lines of the process groups that it takes off the list. -/
theorem items_lookedAt (orphans emptied : List Pid) :
    items orphanGroup orphans ~ (orphans.filter fun p => p ≠ 0 ∧ p ∈ emptied) ++
      items orphanGroup (orphans.map fun p => if p ∈ emptied then 0 else p) := by
  induction orphans with
  | nil => simp [items]
  | cons p orphans ih =>
      rw [items_cons, List.map_cons, items_cons, List.filter_cons]
      by_cases hzero : p = 0
      · simpa [orphanGroup, hzero] using ih
      · by_cases hempty : p ∈ emptied
        · simpa [orphanGroup, hzero, hempty] using ih
        · simp only [orphanGroup, hzero, hempty, if_false, ne_eq, not_false_eq_true, and_false,
            decide_false, Bool.false_eq_true, Option.toList_some, List.singleton_append]
          exact (ih.cons p).trans List.perm_middle.symm

/-! ### The invariant -/

/-- The calls of a step on the active file succeed, and a pid is a `pid_t`. -/
def Event.Served (e : Event) : Prop :=
  ∀ a, e = .step a → a.zooOk = true ∧ a.zooMarkOk = true ∧
    ∀ pid, a.start = .started pid → pid < 2 ^ 31

/-- The names and commands of the collection have no newlines. -/
def PlainColl (coll : List CollEntry) : Prop := ∀ n ∈ coll, IsPlain n.name ∧ IsPlain n.cmdline

/-- What holds of the process groups and the lines of the active file. -/
structure GroupInv (v : Invocation) (o : Options) (s : PanState) : Prop where
  pids : zooPids (v.ops o s) ~
    (if s.pc = .finished then [] else [v.self]) ++ (s.entries.map Prod.fst ++ s.orphaned)
  plain : ∀ call ∈ s.zoo, (call.op v.self).Plain
  marked : ∀ q ∈ s.entries, .mark q.1 q.2.name q.2.cmdline ∈ s.zoo
  left : s.pc.left = true → s.entries = []
  finished : s.pc = .finished → s.orphaned = []
  clearSelf : .clearSelf ∈ s.zoo → s.pc = .finished

theorem entries_eq_nil {o : Options} {s : PanState} (hinv : SlotInv o 0 s.toBooks)
    (hactive : s.numActive = 0) : s.entries = [] := by
  have hlive : s.live = [] := by
    have hcount := hinv.count
    apply List.eq_nil_of_length_eq_zero
    omega
  apply List.filterMap_eq_nil_iff.mpr
  intro slot hslot
  exact entry_eq_none (hinv.free_of_live hlive hslot)

theorem ops_append (v : Invocation) (o : Options) {s s' : PanState} {calls : List ZooCall}
    (h : s'.zoo = s.zoo ++ calls) : v.ops o s' = v.ops o s ++ calls.map (ZooCall.op v.self) := by
  simp [Invocation.ops, h]

section Steps

variable {v : Invocation} {o : Options} {coll : List CollEntry} {s s' : PanState} {e : Event}

theorem GroupInv.entries_of_goesOn (inv : GroupInv v o s) (hok : SlotsOk o s)
    (hpc : s.pc ≠ .aborted) (hplace : GoesOn s s') (hleft : s'.pc.left = true) :
    s.entries = [] := by
  rcases hplace.2 hleft with hleft | ⟨hactive, hpending⟩
  · exact inv.left hleft
  · have hinv := hok.2 hpc
    rw [hpending] at hinv
    exact entries_eq_nil hinv hactive

/-- The process groups that `check_orphans` takes off the list leave the file. -/
theorem zooPids_lookedAt {ops : List ZooOp} {known : List Pid} (emptied : List Pid)
    (h : zooPids ops ~ known ++ s.orphaned) :
    zooPids (ops ++ ((s.orphans.filter fun p => p ≠ 0 ∧ p ∈ emptied).map .clear).map
      (ZooCall.op v.self)) ~ known ++ items orphanGroup (s.lookedAt emptied).1 := by
  have hsplit : zooPids ops ~ (s.orphans.filter fun p => p ≠ 0 ∧ p ∈ emptied) ++
      (known ++ items orphanGroup (s.lookedAt emptied).1) := by
    calc
      zooPids ops ~ known ++ s.orphaned := h
      _ ~ known ++ ((s.orphans.filter fun p => p ≠ 0 ∧ p ∈ emptied) ++
            items orphanGroup (s.lookedAt emptied).1) :=
          (items_lookedAt s.orphans emptied).append_left known
      _ ~ (s.orphans.filter fun p => p ≠ 0 ∧ p ∈ emptied) ++
            (known ++ items orphanGroup (s.lookedAt emptied).1) := by
          rw [← List.append_assoc, ← List.append_assoc]
          exact List.perm_append_comm.append_right _
  rw [List.map_map]
  exact zooPids_clears hsplit

theorem not_finished_of_left (h : s.pc.left = false) : s.pc ≠ .finished := by
  intro hpc
  rw [hpc] at h
  cases h

/-- A step that leaves the program running, with the calls that it makes. -/
theorem GroupInv.extend (inv : GroupInv v o s) (hpc : s.pc ≠ .finished) {calls : List ZooCall}
    (hzoo : s'.zoo = s.zoo ++ calls)
    (hcalls : ∀ call ∈ calls, (call.op v.self).Plain ∧ call ≠ .clearSelf)
    (hpids : zooPids (v.ops o s ++ calls.map (ZooCall.op v.self)) ~
      [v.self] ++ (s'.entries.map Prod.fst ++ s'.orphaned))
    (hmarked : ∀ q ∈ s'.entries, q ∈ s.entries ∨ .mark q.1 q.2.name q.2.cmdline ∈ calls)
    (hplace : s'.pc ≠ .finished) (hleft : s'.pc.left = true → s'.entries = []) :
    GroupInv v o s' := by
  constructor
  · rwa [if_neg hplace, ops_append v o hzoo]
  · rw [hzoo]
    intro call hcall
    rcases List.mem_append.mp hcall with hcall | hcall
    · exact inv.plain call hcall
    · exact (hcalls call hcall).1
  · rw [hzoo]
    intro q hq
    rcases hmarked q hq with hq | hq
    · exact List.mem_append_left _ (inv.marked q hq)
    · exact List.mem_append_right _ hq
  · exact hleft
  · exact fun h => absurd h hplace
  · rw [hzoo]
    intro hmem
    rcases List.mem_append.mp hmem with hmem | hmem
    · exact absurd (inv.clearSelf hmem) hpc
    · exact absurd rfl (hcalls _ hmem).2

theorem plain_clears (ps : List Pid) :
    ∀ call ∈ ps.map ZooCall.clear, (call.op v.self).Plain ∧ call ≠ .clearSelf := by
  intro call hcall
  obtain ⟨p, -, rfl⟩ := List.mem_map.mp hcall
  exact ⟨trivial, nofun⟩

theorem GroupInv.start (inv : GroupInv v o s) (hpc : s.pc ≠ .finished) {pid : Pid}
    {colle : CollEntry} (hplain : ZooEntry.Plain ⟨pid, colle.name, colle.cmdline⟩)
    (hentries : s'.entries ~ (pid, colle) :: s.entries)
    (hgroups : s'.groups = (s.orphans, s.zoo ++ [.mark pid colle.name colle.cmdline]))
    (hplace : s'.pc.left = false) : GroupInv v o s' := by
  obtain ⟨horphans, hzoo⟩ := Prod.mk.inj hgroups
  have hpids := inv.pids
  rw [if_neg hpc] at hpids
  refine inv.extend hpc hzoo ?_ ?_ ?_ (not_finished_of_left hplace) (by simp [hplace])
  · intro call hcall
    rw [List.mem_singleton.mp hcall]
    exact ⟨hplain, nofun⟩
  · rw [PanState.orphaned, horphans]
    calc
      zooPids (v.ops o s ++ [.mark pid colle.name colle.cmdline])
        ~ pid :: zooPids (v.ops o s) := zooPids_mark ..
      _ ~ pid :: ([v.self] ++ (s.entries.map Prod.fst ++ s.orphaned)) := hpids.cons pid
      _ ~ [v.self] ++ (pid :: (s.entries.map Prod.fst ++ s.orphaned)) := List.perm_middle.symm
      _ ~ [v.self] ++ (s'.entries.map Prod.fst ++ s.orphaned) :=
          ((hentries.map Prod.fst).symm.append_right _).append_left _
  · intro q hq
    rcases List.mem_cons.mp (hentries.mem_iff.mp hq) with rfl | hq
    · exact Or.inr List.mem_cons_self
    · exact Or.inl hq

/-- The lines after `check_orphans`. -/
theorem GroupInv.lookedAt (inv : GroupInv v o s) (hpc : s.pc ≠ .finished) (emptied : List Pid) :
    ∃ ps : List Pid, (s.lookedAt emptied).2 = s.zoo ++ ps.map .clear ∧
      zooPids (v.ops o s ++ (ps.map .clear).map (ZooCall.op v.self)) ~
        [v.self] ++ (s.entries.map Prod.fst ++ items orphanGroup (s.lookedAt emptied).1) := by
  refine ⟨_, rfl, ?_⟩
  have hpids := inv.pids
  rw [if_neg hpc, ← List.append_assoc] at hpids
  rw [← List.append_assoc]
  exact zooPids_lookedAt emptied hpids

/-- `check_pids` takes a process group out of its slot. -/
theorem GroupInv.reap (inv : GroupInv v o s) (hpc : s.pc ≠ .finished) {emptied : List Pid}
    {cpid : Pid} {cmd : CollEntry} {alive : Bool} (hpos : cpid ≠ 0)
    (hentries : (cpid, cmd) :: s'.entries ~ s.entries)
    (hgroups : s'.groups =
      if alive then
        (PanState.markOrphan (s.lookedAt emptied).1 cpid, (s.lookedAt emptied).2 ++ [.clear cpid] ++
          [.mark cpid (txt "panorphan") cmd.cmdline])
      else ((s.lookedAt emptied).1, (s.lookedAt emptied).2 ++ [.clear cpid]))
    (hplace : s'.pc.left = false) : GroupInv v o s' := by
  obtain ⟨ps, hcalls, hlooked⟩ := inv.lookedAt hpc emptied
  have hcleared : zooPids (v.ops o s ++ (ps.map .clear).map (ZooCall.op v.self) ++ [.clear cpid]) ~
      [v.self] ++ (s'.entries.map Prod.fst ++ items orphanGroup (s.lookedAt emptied).1) := by
    apply zooPids_clear
    calc
      _ ~ [v.self] ++ (s.entries.map Prod.fst ++ items orphanGroup (s.lookedAt emptied).1) := hlooked
      _ ~ [v.self] ++ (cpid :: (s'.entries.map Prod.fst ++
            items orphanGroup (s.lookedAt emptied).1)) :=
          ((hentries.map Prod.fst).symm.append_right _).append_left _
      _ ~ cpid :: ([v.self] ++ (s'.entries.map Prod.fst ++
            items orphanGroup (s.lookedAt emptied).1)) := List.perm_middle
  have hclears : ∀ call ∈ ps.map ZooCall.clear ++ [.clear cpid],
      (call.op v.self).Plain ∧ call ≠ .clearSelf := by
    simpa using plain_clears (v := v) (ps ++ [cpid])
  have hmarked : ∀ q ∈ s'.entries, q ∈ s.entries := fun q hq =>
    hentries.mem_iff.mp (List.mem_cons_of_mem _ hq)
  have hmark := inv.plain _ (inv.marked _ (hentries.mem_iff.mp List.mem_cons_self))
  cases alive with
  | false =>
      obtain ⟨horphans, hzoo⟩ := Prod.mk.inj hgroups
      rw [hcalls, List.append_assoc] at hzoo
      refine inv.extend hpc hzoo hclears ?_ (fun q hq => Or.inl (hmarked q hq))
        (not_finished_of_left hplace) (by simp [hplace])
      rw [PanState.orphaned, horphans, List.map_append, ← List.append_assoc]
      exact hcleared
  | true =>
      obtain ⟨horphans, hzoo⟩ := Prod.mk.inj hgroups
      rw [hcalls, List.append_assoc, List.append_assoc] at hzoo
      refine inv.extend hpc hzoo ?_ ?_ (fun q hq => Or.inl (hmarked q hq))
        (not_finished_of_left hplace) (by simp [hplace])
      · have htag : IsPlain (txt "panorphan") := by decide
        rw [← List.append_assoc]
        exact List.forall_mem_append.mpr ⟨hclears,
          List.forall_mem_singleton.mpr ⟨⟨hmark.pid_lt, htag, hmark.cmdline⟩, nofun⟩⟩
      · rw [PanState.orphaned, horphans, List.map_append, List.map_append, ← List.append_assoc,
          ← List.append_assoc]
        calc
          _ ~ cpid :: zooPids _ := zooPids_mark ..
          _ ~ cpid :: ([v.self] ++ (s'.entries.map Prod.fst ++
                items orphanGroup (s.lookedAt emptied).1)) := hcleared.cons cpid
          _ ~ [v.self] ++ (cpid :: (s'.entries.map Prod.fst ++
                items orphanGroup (s.lookedAt emptied).1)) := List.perm_middle.symm
          _ ~ [v.self] ++ (s'.entries.map Prod.fst ++
                (cpid :: items orphanGroup (s.lookedAt emptied).1)) :=
              List.perm_middle.symm.append_left _
          _ ~ [v.self] ++ (s'.entries.map Prod.fst ++
                items orphanGroup (PanState.markOrphan (s.lookedAt emptied).1 cpid)) :=
              ((items_markOrphan _ hpos).symm.append_left _).append_left _

theorem groupInv_step (hcoll : PlainColl coll) (he : e.Served) (hok : SlotsOk o s)
    (inv : GroupInv v o s) (h : panNext o coll s e = some s') : GroupInv v o s' := by
  obtain ⟨⟨hfinished, hpc⟩, -⟩ := panNext_cases h
  have hpids := inv.pids
  rw [if_neg hfinished] at hpids
  cases groupMove hok (fun a ha => ⟨(he a ha).1, (he a ha).2.1⟩) h with
  | idle entries groups place =>
      obtain ⟨horphans, hzoo⟩ := Prod.mk.inj groups
      refine inv.extend hfinished (hzoo.trans (List.append_nil _).symm) (by simp) ?_
        (fun q hq => Or.inl (entries ▸ hq)) place.1
        (fun hleft => entries.trans (inv.entries_of_goesOn hok hpc place hleft))
      rw [entries, PanState.orphaned, horphans, List.map_nil, List.append_nil]
      exact hpids
  | start a pid colle event start mem entries groups place =>
      have hplain : ZooEntry.Plain ⟨pid, colle.name, colle.cmdline⟩ :=
        ⟨(he a event).2.2 pid start, (hcoll colle mem).1, (hcoll colle mem).2⟩
      exact inv.start hfinished hplain entries groups place
  | look a looks entries groups place =>
      obtain ⟨ps, hcalls, hlooked⟩ := inv.lookedAt hfinished a.emptied
      obtain ⟨horphans, hzoo⟩ := Prod.mk.inj groups
      refine inv.extend hfinished (hzoo.trans hcalls) (plain_clears ps) ?_
        (fun q hq => Or.inl (entries ▸ hq)) place.1
        (fun hleft => entries.trans (inv.entries_of_goesOn hok hpc place hleft))
      rw [entries, PanState.orphaned, horphans]
      exact hlooked
  | reap a cpid cmd looks pos entries groups place =>
      exact inv.reap hfinished pos entries groups place
  | finish pc orphaned entries groups pc' =>
      obtain ⟨horphans, hzoo⟩ := Prod.mk.inj groups
      have hempty := inv.left (by rw [pc]; rfl)
      have hnone : s'.orphaned = [] := by rw [PanState.orphaned, horphans]; exact orphaned
      constructor
      · rw [if_pos pc', ops_append v o hzoo, entries, hempty, hnone]
        rw [hempty, orphaned] at hpids
        exact zooPids_clear hpids
      · rw [hzoo]
        exact List.forall_mem_append.mpr ⟨inv.plain, List.forall_mem_singleton.mpr trivial⟩
      · rw [entries, hempty]
        simp
      · exact fun _ => entries.trans hempty
      · exact fun _ => hnone
      · exact fun _ => pc'

theorem groupInv_init (v : Invocation) (o : Options) (coll : List CollEntry) :
    GroupInv v o (PanState.init o coll) := by
  have hentries : (PanState.init o coll).entries = [] := by
    simp [PanState.entries, PanState.init, items, Slot.entry]
  have horphaned : (PanState.init o coll).orphaned = [] := rfl
  constructor
  · rw [hentries, horphaned, if_neg (by rintro ⟨⟩)]
    simpa [Invocation.ops, PanState.init] using zooPids_setup v o.keepActive
  · rintro _ ⟨⟩
  · simp [hentries]
  · exact fun _ => hentries
  · exact fun _ => horphaned
  · rintro ⟨⟩

/-- The invariant holds along every run. -/
theorem groupInv_panRun (v : Invocation) (o : Options) {coll : List CollEntry}
    (hcoll : PlainColl coll) {evs : List Event} (hevs : ∀ e ∈ evs, e.Served) :
    GroupInv v o (panRun o coll evs) :=
  panRun_invariant (GroupInv v o) hevs (groupInv_init v o coll) fun _ _ _ he hslots inv h =>
    groupInv_step hcoll he hslots inv h

end Steps

/-! ### The file -/

/-- The arguments of ltp-pan have no newlines. -/
structure Invocation.Plain (v : Invocation) : Prop where
  self_lt : v.self < 2 ^ 31
  panname : IsPlain v.panname
  argv : ∀ arg ∈ v.argv, IsPlain arg

theorem isPlain_catArgs {argv : List Text} (h : ∀ arg ∈ argv, IsPlain arg) :
    IsPlain (catArgs argv) := by
  have hblank : IsPlain [' '] := by decide
  induction argv with
  | nil => exact fun c hc => absurd hc List.not_mem_nil
  | cons arg rest ih =>
      obtain ⟨harg, hrest⟩ := List.forall_mem_cons.mp h
      cases rest with
      | nil => simpa [catArgs, List.intercalate] using harg
      | cons arg' rest =>
          have hcat : catArgs (arg :: arg' :: rest) = arg ++ [' '] ++ catArgs (arg' :: rest) := by
            simp [catArgs, List.intercalate]
          intro c hc
          rw [hcat] at hc
          rcases List.mem_append.mp hc with hc | hc
          · rcases List.mem_append.mp hc with hc | hc
            · exact harg c hc
            · exact hblank c hc
          · exact ih hrest c hc

theorem plain_ops {v : Invocation} {o : Options} {s : PanState} (hv : v.Plain)
    (hself : o.keepActive < v.self) (inv : GroupInv v o s) : ∀ op ∈ v.ops o s, op.Plain := by
  have hlt := hv.self_lt
  intro op hop
  simp only [Invocation.ops, Invocation.setup, List.mem_append, List.mem_cons, List.mem_map,
    List.mem_range] at hop
  rcases hop with ((rfl | ⟨c, hc, rfl⟩) | ⟨c, hc, rfl⟩) | ⟨call, hcall, rfl⟩
  · exact ⟨hlt, hv.panname, isPlain_catArgs hv.argv⟩
  · exact ⟨hc.trans (hself.trans hlt), hv.panname, fun _ h => absurd h List.not_mem_nil⟩
  · exact trivial
  · exact inv.plain call hcall

theorem livePids_zooRun {ops : List ZooOp} (h : ∀ op ∈ ops, op.Plain) :
    livePids (zooRun ops) = (zooPids ops).map fun p : Pid => (p : Int) := by
  obtain ⟨ls, hrun, hshows⟩ := zooRun_shows h
  rw [livePids, liveLines, zooLines_zooRun hrun hshows, liveLines_of_shows hshows,
    atoi_of_shows hshows, zooPids, outstanding, List.map_map]
  rfl

/-! ### Process groups that outlive their leader -/

/-- `check_pids` reaps the leader of the process group and finds the group alive. -/
def FoundAlive (o : Options) (coll : List CollEntry) (s : PanState) (a : Answer) (p : Pid) : Prop :=
  s.pc = .check ∧ (∃ statLoc, a.wait = .child p statLoc) ∧ a.groupAlive = true ∧
    ∃ s', panNext o coll s (.step a) = some s' ∧ s'.pc ≠ .aborted

/-- `check_orphans` is told by `kill` that the process group is empty. -/
def FoundEmpty (o : Options) (coll : List CollEntry) (s : PanState) (a : Answer) (p : Pid) : Prop :=
  LooksAtOrphans o s (.step a) a ∧ p ∈ a.emptied ∧ (panNext o coll s (.step a)).isSome = true

section Orphans

variable {o : Options} {coll : List CollEntry} {s s' : PanState} {e : Event} {p : Pid}

theorem mem_orphaned : p ∈ s.orphaned ↔ p ∈ s.orphans ∧ p ≠ 0 := by
  rw [orphaned_eq_filter, List.mem_filter]
  simp

theorem mem_lookedAt {emptied : List Pid} (h : p ∈ s.orphaned) (hp : p ∉ emptied) :
    p ∈ items orphanGroup (s.lookedAt emptied).1 := by
  have hmem := (items_lookedAt s.orphans emptied).mem_iff.mp h
  rcases List.mem_append.mp hmem with hmem | hmem
  · simp [hp] at hmem
  · exact hmem

/-- A process group stays on the list unless it is found empty. -/
theorem orphaned_step (hok : SlotsOk o s) (he : e.Served) (hp : p ∈ s.orphaned)
    (h : panNext o coll s e = some s') :
    p ∈ s'.orphaned ∨ ∃ a, LooksAtOrphans o s e a ∧ p ∈ a.emptied := by
  cases groupMove hok (fun a ha => ⟨(he a ha).1, (he a ha).2.1⟩) h with
  | idle entries groups place =>
      left
      rw [PanState.orphaned, (Prod.mk.inj groups).1]
      exact hp
  | start a pid colle event start mem entries groups place =>
      left
      rw [PanState.orphaned, (Prod.mk.inj groups).1]
      exact hp
  | look a looks entries groups place =>
      by_cases hempty : p ∈ a.emptied
      · exact Or.inr ⟨a, looks, hempty⟩
      · left
        rw [PanState.orphaned, (Prod.mk.inj groups).1]
        exact mem_lookedAt hp hempty
  | reap a cpid cmd looks pos entries groups place =>
      by_cases hempty : p ∈ a.emptied
      · exact Or.inr ⟨a, looks, hempty⟩
      · left
        have hmem := mem_lookedAt hp hempty
        cases halive : a.groupAlive with
        | false =>
            rw [halive] at groups
            rw [PanState.orphaned, (Prod.mk.inj groups).1]
            exact hmem
        | true =>
            rw [halive] at groups
            rw [PanState.orphaned, (Prod.mk.inj groups).1]
            exact (items_markOrphan _ pos).mem_iff.mpr (List.mem_cons_of_mem cpid hmem)
  | finish pc orphaned entries groups pc' =>
      rw [orphaned] at hp
      cases hp

theorem orphaned_of_foundAlive {a : Answer} (hok : SlotsOk o s) (hzoo : a.zooOk = true)
    (hmark : a.zooMarkOk = true) (h : FoundAlive o coll s a p) :
    p ∈ (panStep o coll (.step a) s).orphaned := by
  obtain ⟨hpc, ⟨statLoc, hwait⟩, halive, s', hnext, hrunning⟩ := h
  have hstep : panStep o coll (.step a) s = s' := by rw [panStep, hnext]; rfl
  have hinv := hok.2 (by simp [hpc])
  simp only [panNext, hpc, PanState.checkPids, hwait, Option.ite_none_right_eq_some,
    Option.some.injEq] at hnext
  obtain ⟨⟨hmem, hgone⟩, rfl⟩ := hnext
  obtain ⟨i, hi, hpos⟩ := hinv.find_child hmem
  have hi' : (s.waited a.emptied p).running.findIdx? (fun r => r.pgrp = p) = some i := hi
  rw [hstep]
  rcases PanState.reapChild_groups o hzoo hmark hgone hi' with ⟨habort, -⟩ | ⟨-, hgroups⟩
  · exact absurd habort hrunning
  · rw [if_pos halive] at hgroups
    have hlist := congrArg (fun g => items orphanGroup g.1) hgroups
    apply (hlist ▸ items_markOrphan (s.waited a.emptied p).orphans hpos).mem_iff.mpr
    exact List.mem_cons_self

theorem panRun_append (o : Options) (coll : List CollEntry) (evs more : List Event) :
    panRun o coll (evs ++ more) = exec (panStep o coll) (panRun o coll evs) more :=
  exec_append _ _ _ _

/-- From where it was put on the list to where it is found empty, a process group is
on the list. -/
theorem orphaned_run {evs more : List Event} (hmore : ∀ e ∈ more, e.Served)
    (hp : p ∈ (panRun o coll evs).orphaned) :
    p ∈ (panRun o coll (evs ++ more)).orphaned ∨
      ∃ before a after, more = before ++ .step a :: after ∧
        FoundEmpty o coll (panRun o coll (evs ++ before)) a p := by
  induction more generalizing evs with
  | nil =>
      left
      simpa using hp
  | cons e more ih =>
      obtain ⟨he, hmore⟩ := List.forall_mem_cons.mp hmore
      have hone : panRun o coll (evs ++ [e]) = panStep o coll e (panRun o coll evs) :=
        panRun_append o coll evs [e]
      have hstay : p ∈ (panRun o coll (evs ++ [e])).orphaned ∨
          ∃ a, e = .step a ∧ FoundEmpty o coll (panRun o coll evs) a p := by
        rw [hone, panStep]
        cases hnext : panNext o coll (panRun o coll evs) e with
        | none => exact Or.inl hp
        | some s' =>
            rcases orphaned_step (slotsOk_panRun o coll evs) he hp hnext with h | ⟨a, hlooks, hempty⟩
            · exact Or.inl h
            · obtain rfl := hlooks.1
              exact Or.inr ⟨a, rfl, hlooks, hempty, by rw [hnext]; rfl⟩
      rcases hstay with hp | ⟨a, rfl, hempty⟩
      · rcases ih hmore hp with hp | ⟨before, a, after, rfl, hempty⟩
        · left
          rwa [List.append_assoc] at hp
        · refine Or.inr ⟨e :: before, a, after, rfl, ?_⟩
          rwa [List.append_assoc] at hempty
      · exact Or.inr ⟨[], a, more, rfl, by simpa using hempty⟩

end Orphans

/-- When the calls on the active file succeed, no newline is written to it and no buffer is
overrun: as long as ltp-pan runs, the lines that are not free name ltp-pan and the process groups in
the slots and in the list of orphans; a process group that is found alive after its
leader was reaped stays on the list until `kill` finds it empty; and the line of
ltp-pan is cleared when no process group is left. -/
theorem activeFile_groups (v : Invocation) (o : Options) (coll : List CollEntry)
    (evs : List Event) (hv : v.Plain) (hself : o.keepActive < v.self) (hcoll : PlainColl coll)
    (hevs : ∀ e ∈ evs, e.Served ∧ e.fits o coll = true) :
    ((panRun o coll evs).pc ≠ .finished →
      livePids (v.activeFile o (panRun o coll evs)) ~
        (v.known (panRun o coll evs)).map fun p : Pid => (p : Int)) ∧
    (∀ before a after p, evs = before ++ .step a :: after →
      FoundAlive o coll (panRun o coll before) a p →
      p ∈ (panRun o coll evs).orphans ∨
        ∃ between a' rest, after = between ++ .step a' :: rest ∧
          FoundEmpty o coll (panRun o coll (before ++ .step a :: between)) a' p) ∧
    (.clearSelf ∈ (panRun o coll evs).zoo →
      (∀ slot ∈ (panRun o coll evs).running, slot.pgrp = 0) ∧
        ∀ p ∈ (panRun o coll evs).orphans, p = 0) := by
  have inv := groupInv_panRun v o hcoll fun e he => (hevs e he).1
  refine ⟨?_, ?_, ?_⟩
  · intro hpc
    have hpids := inv.pids
    rw [if_neg hpc, entries_fst, orphaned_eq_filter, ← List.append_assoc] at hpids
    rw [Invocation.activeFile, livePids_zooRun (plain_ops hv hself inv)]
    exact hpids.map _
  · rintro before a after p rfl halive
    obtain ⟨hzoo, hmark, -⟩ := (hevs (.step a) (by simp)).1 a rfl
    have hlisted := orphaned_of_foundAlive (slotsOk_panRun o coll before) hzoo hmark halive
    have hone : panRun o coll (before ++ [.step a]) =
        panStep o coll (.step a) (panRun o coll before) := panRun_append o coll before [.step a]
    have hlater : ∀ e ∈ after, e.Served := fun e he => (hevs e (by simp [he])).1
    rw [← hone] at hlisted
    rcases orphaned_run hlater hlisted with h |
      ⟨between, a', rest, hsplit, hempty⟩
    · left
      rw [List.append_assoc] at h
      exact (mem_orphaned.mp h).1
    · refine Or.inr ⟨between, a', rest, hsplit, ?_⟩
      rwa [List.append_assoc] at hempty
  · intro hmem
    have hpc := inv.clearSelf hmem
    have hentries := inv.left (by rw [hpc]; rfl)
    have horphaned := inv.finished hpc
    constructor
    · intro slot hslot
      by_contra hpos
      have hnone := List.filterMap_eq_nil_iff.mp hentries slot hslot
      rw [entry_eq_some hpos] at hnone
      cases hnone
    · intro p hp
      by_contra hpos
      have hlisted : p ∈ (panRun o coll evs).orphaned := mem_orphaned.mpr ⟨hp, hpos⟩
      rw [horphaned] at hlisted
      cases hlisted

/-- ltp-pan with the pid 100 has started one command. -/
theorem activeFile_groups_one :
    livePids (Invocation.activeFile ⟨100, txt "pan", [txt "ltp-pan", txt "true"]⟩ {}
      (panRun {} [⟨txt "t", txt "true", false⟩] [.step { start := .started 107 }])) ~
        [100, 107] := by
  have hcoll : PlainColl [⟨txt "t", txt "true", false⟩] :=
    fun n hn => List.mem_singleton.mp hn ▸ ⟨by decide, by decide⟩
  have hserved : (Event.step { start := .started 107 }).Served := by
    intro a ha
    obtain rfl := Event.step.inj ha
    refine ⟨rfl, rfl, fun pid hpid => ?_⟩
    obtain rfl := Start.started.inj hpid
    decide
  exact (activeFile_groups ⟨100, txt "pan", [txt "ltp-pan", txt "true"]⟩ {} _ _
    ⟨by decide, by decide, by decide⟩ (by decide) hcoll
    (List.forall_mem_singleton.mpr ⟨hserved, by decide⟩)).1 (by decide)

/-- A command with a newline, run once. -/
def newlineRun : List Event :=
  [.step { start := .started 107 }, .step {}, .step {}, .step {}, .step {},
    .step { wait := .child 107 0 }, .step {}]

/-- With a newline in an argument, the line of ltp-pan in the active file is two lines,
and the second one names no process. -/
theorem activeFile_newline :
    ¬ ∀ (v : Invocation) (o : Options) (args : List Text) (coll : List CollEntry)
        (evs : List Event), getCollection (some []) args = .ok coll → args <:+ v.argv →
      o.keepActive < v.self → (∀ e ∈ evs, e.Served) →
      (∀ a, .step a ∈ evs → ∀ pid, a.start = .started pid → o.keepActive < pid) →
      (panRun o coll evs).pc = .launch →
      livePids (v.activeFile o (panRun o coll evs)) ~
        (v.known (panRun o coll evs)).map fun p : Pid => (p : Int) := by
  intro h
  have hstarts : ∀ a, .step a ∈ newlineRun → a.zooOk = true ∧ a.zooMarkOk = true ∧
      (a.start = .pipeFails ∨ a.start = .started 107) := by
    intro a ha
    simp only [newlineRun, List.mem_cons, Event.step.injEq, List.not_mem_nil, or_false] at ha
    rcases ha with rfl | rfl | rfl | rfl | rfl | rfl | rfl <;> decide
  have hpid : ∀ a, .step a ∈ newlineRun → ∀ pid, a.start = .started pid → pid = 107 := by
    intro a ha pid hpid
    rcases (hstarts a ha).2.2 with hstart | hstart
    · cases hstart.symm.trans hpid
    · exact (Start.started.inj (hstart.symm.trans hpid)).symm
  have hbad := h ⟨100, txt "x", [txt "ltp-pan", txt "echo", txt "a\nb"]⟩ { starts := 2 }
    [txt "echo", txt "a\nb"] [⟨txt "cmdln", txt "echo a\nb ", false⟩] newlineRun (by rfl)
    (List.suffix_cons _ _) (by decide)
    (by
      rintro e he a rfl
      refine ⟨(hstarts a he).1, (hstarts a he).2.1, fun pid hp => ?_⟩
      rw [hpid a he pid hp]
      decide)
    (by
      intro a ha pid hp
      rw [hpid a ha pid hp]
      decide)
    (by decide)
  exact absurd hbad (by decide +kernel)

end EDDTs.Pan
