import EDDTs.Pan.Symbol
import Mathlib.Logic.Relation
import Mathlib.Order.Nat

/-!
# The shape of the symbol table heap

Every table but the first is the data of exactly one node, of a table that was
allocated before it. The heap is therefore a forest: what is reachable from one
entry of a table is out of reach from its siblings, and a change to one table
shows only on the way down to it.
-/

namespace EDDTs.Pan

open Library

variable {α : Type*}

/-- The shape invariant of the heap. -/
structure SymHeap.WF (h : SymHeap α) : Prop where
  below : ∀ {a n t}, n ∈ h.chain a → n.data = .table t → a < t ∧ t < h.length
  once : ∀ {a b : Nat} {i j t : Nat}, (h.chain a)[i]?.map SymNode.data = some (.table t) →
    (h.chain b)[j]?.map SymNode.data = some (.table t) → a = b ∧ i = j
  unique : ∀ a, ((h.chain a).map SymNode.key).Nodup
  nonNull : ∀ {a n}, n ∈ h.chain a → n.data ≠ .null

/-- `t` is the data of a node of the table `a`. -/
def SymHeap.Child (h : SymHeap α) (a t : Nat) : Prop :=
  ∃ n ∈ h.chain a, n.data = .table t

/-- `b` is reached from `a` through the data of nodes. -/
def SymHeap.Reach (h : SymHeap α) : Nat → Nat → Prop := Relation.ReflTransGen h.Child

namespace SymHeap

variable {h h' : SymHeap α}

theorem chain_of_length_le {a : Nat} (ha : h.length ≤ a) : h.chain a = [] := by
  simp [chain, List.getElem?_eq_none ha]

theorem lt_length_of_mem {a : Nat} {n : SymNode α} (hn : n ∈ h.chain a) : a < h.length := by
  by_contra hge
  rw [chain_of_length_le (by omega)] at hn
  cases hn

section Forest

variable (wf : h.WF)

include wf

theorem WF.child_unique {a b t : Nat} (ha : h.Child a t) (hb : h.Child b t) : a = b := by
  obtain ⟨n, hn, hnt⟩ := ha
  obtain ⟨m, hm, hmt⟩ := hb
  obtain ⟨i, hi⟩ := List.mem_iff_getElem?.mp hn
  obtain ⟨j, hj⟩ := List.mem_iff_getElem?.mp hm
  exact (wf.once (i := i) (j := j) (t := t) (by simp [hi, hnt]) (by simp [hj, hmt])).1

theorem WF.le_of_reach {a b : Nat} (hr : h.Reach a b) : a ≤ b := by
  induction hr with
  | refl => exact le_rfl
  | tail _ hc ih =>
      obtain ⟨n, hn, hnt⟩ := hc
      exact ih.trans (wf.below hn hnt).1.le

theorem WF.lt_length_of_reach {a b : Nat} (hr : h.Reach a b) (ha : a < h.length) :
    b < h.length := by
  induction hr with
  | refl => exact ha
  | tail _ hc _ =>
      obtain ⟨n, hn, hnt⟩ := hc
      exact (wf.below hn hnt).2

/-- Two tables from which a third is reached lie on one line. -/
theorem WF.reach_total {a b c : Nat} (ha : h.Reach a c) (hb : h.Reach b c) :
    h.Reach a b ∨ h.Reach b a := by
  induction ha with
  | refl => exact Or.inr hb
  | @tail p c hap hpc ih =>
      rcases Relation.ReflTransGen.cases_tail hb with rfl | ⟨q, hbq, hqc⟩
      · exact Or.inl (hap.tail hpc)
      · rw [wf.child_unique hqc hpc] at hbq
        exact ih hbq

/-- What is reached from an entry is not reached from its siblings. -/
theorem WF.sibling_disjoint {c t u m : Nat} (ht : h.Child c t) (hu : h.Child c u)
    (hne : t ≠ u) (htm : h.Reach t m) : ¬ h.Reach u m := by
  intro hum
  have habove : ∀ {t u : Nat}, h.Child c t → h.Child c u → t ≠ u → ¬ h.Reach t u := by
    intro t u ht hu hne hr
    rcases Relation.ReflTransGen.cases_tail hr with rfl | ⟨p, hp, hpu⟩
    · exact hne rfl
    · rw [wf.child_unique hpu hu] at hp
      obtain ⟨n, hn, hnt⟩ := ht
      have hlt := (wf.below hn hnt).1
      have hle := wf.le_of_reach hp
      omega
  rcases wf.reach_total htm hum with hr | hr
  · exact habove ht hu hne hr
  · exact habove hu ht hne.symm hr

/-- A table is not reached from its own entries. -/
theorem WF.not_reach_self {c t : Nat} (ht : h.Child c t) : ¬ h.Reach t c := by
  intro hr
  obtain ⟨n, hn, hnt⟩ := ht
  have hlt := (wf.below hn hnt).1
  have hle := wf.le_of_reach hr
  omega

end Forest

end SymHeap

/-- The tree of what a data pointer holds, given the trees of the tables. -/
def SymData.denote (table : Nat → OrderedTree Text α) : SymData α → OrderedTree Text α
  | .null => .dir []
  | .leaf a => .leaf a
  | .table t => table t

theorem SymData.denote_congr {f g : Nat → OrderedTree Text α} {d : SymData α}
    (h : ∀ t, d = .table t → f t = g t) : d.denote f = d.denote g := by
  cases d with
  | null => rfl
  | leaf a => rfl
  | table t => exact h t rfl

/-- Nodes keep their entries if the tables that they refer to keep their trees. -/
theorem map_denote_congr {f g : Nat → OrderedTree Text α} {ns : List (SymNode α)}
    (h : ∀ nd ∈ ns, ∀ t, nd.data = .table t → f t = g t) :
    ns.map (fun nd => (nd.key, nd.data.denote f)) = ns.map fun nd => (nd.key, nd.data.denote g) :=
  List.map_congr_left fun nd hnd => congrArg (nd.key, ·) (SymData.denote_congr (h nd hnd))

namespace SymHeap

/-- The tree of the table at an address, down to a depth. -/
def denote (h : SymHeap α) : Nat → Nat → OrderedTree Text α
  | 0, _ => .dir []
  | n + 1, a => .dir ((h.chain a).map fun nd => (nd.key, nd.data.denote (h.denote n)))

/-- The tree of the table at an address. -/
def tree (h : SymHeap α) (a : Nat) : OrderedTree Text α := h.denote (h.length - a) a

/-- The entries of the table at an address. -/
def entries (h : SymHeap α) (a : Nat) : List (Text × OrderedTree Text α) :=
  (h.chain a).map fun nd => (nd.key, nd.data.denote h.tree)

variable {h h' : SymHeap α}

/-- The depth does not matter once it covers the tables allocated later. -/
theorem WF.denote_eq (wf : h.WF) {n m a : Nat} (hn : h.length - a ≤ n) (hm : h.length - a ≤ m) :
    h.denote n a = h.denote m a := by
  induction n generalizing m a with
  | zero =>
      have hnil := chain_of_length_le (h := h) (a := a) (by omega)
      cases m <;> simp [denote, hnil]
  | succ n ih =>
      cases m with
      | zero =>
          have hnil := chain_of_length_le (h := h) (a := a) (by omega)
          simp [denote, hnil]
      | succ m =>
          simp only [denote, OrderedTree.dir.injEq]
          refine map_denote_congr fun nd hnd t hd => ?_
          have hlt := (wf.below hnd hd).1
          exact ih (by omega) (by omega)

theorem WF.tree_eq (wf : h.WF) (a : Nat) : h.tree a = .dir (h.entries a) := by
  have hdepth : h.tree a = h.denote (h.length - a + 1) a := wf.denote_eq le_rfl (by omega)
  rw [hdepth]
  simp only [denote, entries, OrderedTree.dir.injEq]
  refine map_denote_congr fun nd hnd t hd => ?_
  have hlt := (wf.below hnd hd).1
  exact wf.denote_eq (by omega) (by omega)

/-- A table whose reachable chains are unchanged keeps its tree. -/
theorem WF.tree_congr (wf : h.WF) (wf' : h'.WF) {u : Nat}
    (heq : ∀ b, h.Reach u b → h'.chain b = h.chain b) : h'.tree u = h.tree u := by
  have hdenote : ∀ n u, (∀ b, h.Reach u b → h'.chain b = h.chain b) →
      h'.denote n u = h.denote n u := by
    intro n
    induction n with
    | zero => intro u _; rfl
    | succ n ih =>
        intro u heq
        simp only [denote, OrderedTree.dir.injEq]
        rw [heq u .refl]
        refine map_denote_congr fun nd hnd t hd => ?_
        exact ih t fun b hb => heq b (Relation.ReflTransGen.head ⟨nd, hnd, hd⟩ hb)
  let n := max (h.length - u) (h'.length - u)
  calc
    h'.tree u = h'.denote n u := wf'.denote_eq le_rfl (le_max_right _ _)
    _ = h.denote n u := hdenote n u heq
    _ = h.tree u := wf.denote_eq (le_max_left _ _) le_rfl

/-- The heap changes at most the chain of `m` among the tables it has. -/
def AgreesOff (h h' : SymHeap α) (m : Nat) : Prop :=
  ∀ b, b < h.length → b ≠ m → h'.chain b = h.chain b

/-- A table from which the changed one is not reached keeps its tree. -/
theorem WF.tree_frame (wf : h.WF) (wf' : h'.WF) {m u : Nat} (ha : h.AgreesOff h' m)
    (hu : u < h.length) (hr : ¬ h.Reach u m) : h'.tree u = h.tree u :=
  wf.tree_congr wf' fun b hb => ha b (wf.lt_length_of_reach hb hu) fun he => hr (he ▸ hb)

/-- The old entries of the changed table keep their trees. -/
theorem WF.entries_frame (wf : h.WF) (wf' : h'.WF) {m : Nat} (ha : h.AgreesOff h' m) :
    (h.chain m).map (fun nd => (nd.key, nd.data.denote h'.tree)) = h.entries m :=
  map_denote_congr fun nd hnd _ hd =>
    wf.tree_frame wf' ha (wf.below hnd hd).2 (wf.not_reach_self ⟨nd, hnd, hd⟩)

end SymHeap

end EDDTs.Pan
