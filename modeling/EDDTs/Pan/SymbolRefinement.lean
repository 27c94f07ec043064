import EDDTs.Pan.SymbolPut

/-!
# The symbol table refines a tree of ordered maps

`sym_put` and `sym_get` on the heap, seen through the tree of the first table,
are insertion into and lookup in a tree of insertion-ordered maps.
-/

namespace EDDTs.Pan

open Library

variable {α : Type*}

namespace SymHeap

variable {h h' : SymHeap α}

/-- The search loop goes from the table `c` with the components `kk` to go to
the table `m` with the components `rest` to go. -/
inductive Descends (h : SymHeap α) : Nat → List Text → Nat → List Text → Prop
  | here (c : Nat) (kk : List Text) : Descends h c kk c kk
  | down {c i t m : Nat} {k : Text} {kk rest : List Text} {n : SymNode α}
      (hfind : findKey1 (h.chain c) k = some i) (hnode : (h.chain c)[i]? = some n)
      (hdata : n.data = .table t) (hrest : Descends h t kk m rest) :
      Descends h c (k :: kk) m rest

theorem Descends.reach {c m : Nat} {kk rest : List Text} (hd : h.Descends c kk m rest) :
    h.Reach c m := by
  induction hd with
  | here => exact .refl
  | down _ hnode hdata _ ih => exact .head ⟨_, List.mem_of_getElem? hnode, hdata⟩ ih

section

variable (wf : h.WF)

include wf

/-- What is found below the table where the search ends is found below the
table where it starts. -/
theorem Descends.lookup_eq {c m : Nat} {kk rest : List Text} (hd : h.Descends c kk m rest) :
    (h.tree c).get kk = (h.tree m).get rest ∧
      (h.tree c).blocked kk = (h.tree m).blocked rest := by
  induction hd with
  | here => exact ⟨rfl, rfl⟩
  | down hfind hnode hdata _ ih =>
      obtain ⟨-, hl⟩ := entry_entries_of_node hfind hnode
      rw [wf.tree_eq, OrderedTree.get_dir_cons, OrderedTree.blocked, hl, hdata]
      exact ih

/-- An insertion at the table where the search ends is an insertion at every
table on the way. -/
theorem Descends.insert_eq (wf' : h'.WF) {c m : Nat} {kk rest : List Text}
    {v : OrderedTree Text α} (hd : h.Descends c kk m rest) (hoff : h.AgreesOff h' m)
    (hm : h'.tree m = (h.tree m).insert rest v) : h'.tree c = (h.tree c).insert kk v := by
  induction hd with
  | here => exact hm
  | @down c i t m k kk rest n hfind hnode hdata hrest ih =>
      have hchild : h.Child c t := ⟨n, List.mem_of_getElem? hnode, hdata⟩
      have hcm : c ≠ m := by
        rintro rfl
        exact wf.not_reach_self hchild hrest.reach
      obtain ⟨hkey, hl⟩ := entry_entries_of_node hfind hnode
      rw [wf'.tree_eq, wf.tree_eq, OrderedTree.insert, hl, hdata]
      simp only [SymData.denote, ← ih hoff hm, OrderedTree.dir.injEq, OrderedTree.setEntry]
      rw [entries, entries, hoff c (lt_length_of_mem (List.mem_of_getElem? hnode)) hcm,
        List.map_map]
      refine List.map_congr_left fun nd hnd => ?_
      obtain ⟨j, hj⟩ := List.mem_iff_getElem?.mp hnd
      simp only [Function.comp_apply]
      by_cases hk : nd.key = k
      · -- the entry on the way
        obtain rfl := wf.index_unique hj hnode (hk.trans hkey.symm)
        obtain rfl := Option.some.inj (hnode.symm.trans hj)
        simp [hk, hdata, SymData.denote]
      · -- the entries beside it
        rw [if_neg hk]
        refine congrArg (nd.key, ·) (SymData.denote_congr fun u hd => ?_)
        have hne : t ≠ u := by
          rintro rfl
          have hij := (wf.once (a := c) (b := c) (i := j) (j := i) (t := t)
            (by simp [hj, hd]) (by simp [hnode, hdata])).2
          subst hij
          obtain rfl := Option.some.inj (hnode.symm.trans hj)
          exact hk hkey
        have hside := wf.sibling_disjoint hchild ⟨nd, hnd, hd⟩ hne hrest.reach
        exact wf.tree_frame wf' hoff (wf.below hnd hd).2 hside

end

/-- The three ways out of the search loop, with what holds there. -/
inductive SearchEnds (h : SymHeap α) (c : Nat) (p : List Text) : Search → Prop
  | notDir {m i : Nat} {k : Text} {rest : List Text} {n : SymNode α}
      (hd : h.Descends c p m (k :: rest)) (hrest : rest ≠ [])
      (hfind : findKey1 (h.chain m) k = some i) (hnode : (h.chain m)[i]? = some n)
      (hdata : ∀ t, n.data ≠ .table t) : SearchEnds h c p .notDir
  | complete {m i : Nat} {k : Text} (hd : h.Descends c p m [k])
      (hfind : findKey1 (h.chain m) k = some i) : SearchEnds h c p (.complete (some (m, i)))
  | missing {m : Nat} {k : Text} {rest : List Text} (hd : h.Descends c p m (k :: rest))
      (hfind : findKey1 (h.chain m) k = none) : SearchEnds h c p (.missing m (k :: rest))

theorem SearchEnds.down {c i t : Nat} {k : Text} {kk : List Text} {n : SymNode α} {r : Search}
    (hfind : findKey1 (h.chain c) k = some i) (hnode : (h.chain c)[i]? = some n)
    (hdata : n.data = .table t) (hr : h.SearchEnds t kk r) : h.SearchEnds c (k :: kk) r := by
  cases hr with
  | notDir hd hrest hf hn ht => exact .notDir (.down hfind hnode hdata hd) hrest hf hn ht
  | complete hd hf => exact .complete (.down hfind hnode hdata hd) hf
  | missing hd hf => exact .missing (.down hfind hnode hdata hd) hf

theorem symSearch_ends (c : Nat) {p : List Text} (hp : p ≠ []) :
    h.SearchEnds c p (symSearch h c p) := by
  induction p generalizing c with
  | nil => exact absurd rfl hp
  | cons k kk ih =>
      rw [symSearch]
      cases hf : findKey1 (h.chain c) k with
      | none => exact .missing (.here _ _) hf
      | some i =>
          cases kk with
          | nil => exact .complete (.here _ _) hf
          | cons k' kk =>
              obtain ⟨n, hn, -, -⟩ := entry_entries_of_find hf
              simp only [hn, Option.map_some]
              cases hd : n.data with
              | null | leaf => exact .notDir (.here _ _) (by simp) hf hn (by simp [hd])
              | table t => exact (ih t (by simp)).down hf hn hd

/-- What a data pointer stands for; `NULL` stands for no value. -/
def value (h : SymHeap α) : SymData α → Option (OrderedTree Text α)
  | .null => none
  | .leaf a => some (.leaf a)
  | .table t => some (h.tree t)

theorem value_of_ne_null {d : SymData α} (hd : d ≠ .null) :
    h.value d = some (d.denote h.tree) := by
  cases d with
  | null => exact absurd rfl hd
  | leaf a => rfl
  | table t => rfl

end SymHeap

/-- What storing a value in a tree of ordered maps returns and leaves. -/
def treePut (t : OrderedTree Text α) (p : List Text) (v : OrderedTree Text α) (replace : Bool) :
    PutStatus × OrderedTree Text α :=
  if t.blocked p then (.enotdir, t)
  else if (t.get p).isSome && !replace then (.eexist, t)
  else (.ok, t.insert p v)

namespace SymHeap

variable {h : SymHeap α}

section

variable (wf : h.WF)

include wf

/-- A node that refers to no table is a leaf. -/
theorem exists_leaf {m i : Nat} {n : SymNode α} (hnode : (h.chain m)[i]? = some n)
    (hdata : ∀ t, n.data ≠ .table t) : ∃ a, n.data = .leaf a := by
  have hnull := wf.nonNull (List.mem_of_getElem? hnode)
  cases hn : n.data with
  | null => exact absurd hn hnull
  | leaf a => exact ⟨a, rfl⟩
  | table t => exact absurd hn (hdata t)

/-- `sym_get` looks the path up in the tree. -/
theorem symGet_eq (c : Nat) {key : Text} (hp : keyPath key ≠ []) :
    (symGet h c key).map h.value = some ((h.tree c).get (keyPath key)) := by
  have hends := symSearch_ends (h := h) c hp
  rw [symGet]
  generalize symSearch h c (keyPath key) = r at hends
  cases hends with
  | @notDir m i k rest n hd hrest hfind hnode hdata =>
      obtain ⟨-, hl⟩ := entry_entries_of_node hfind hnode
      obtain ⟨a, hleaf⟩ := exists_leaf wf hnode hdata
      obtain ⟨k', rest', rfl⟩ := List.exists_cons_of_ne_nil hrest
      rw [(hd.lookup_eq wf).1, wf.tree_eq, OrderedTree.get_dir_cons, hl, hleaf]
      rfl
  | @complete m i k hd hfind =>
      obtain ⟨n, hn, -, hl⟩ := entry_entries_of_find hfind
      have hnull := wf.nonNull (List.mem_of_getElem? hn)
      rw [(hd.lookup_eq wf).1, wf.tree_eq, OrderedTree.get_dir_cons, hl]
      simp [hn, value_of_ne_null hnull]
  | missing hd hfind =>
      rw [(hd.lookup_eq wf).1, wf.tree_eq, OrderedTree.get_dir_cons,
        entry_entries_of_find_none hfind]
      rfl

/-- `sym_put` of a leaf stores it in the tree, keeps the shape of the heap, and
changes nothing when it fails. -/
theorem symPut_eq {c : Nat} (hc : c < h.length) {key : Text} (hp : keyPath key ≠ []) (v : α)
    (replace : Bool) :
    WF (symPut h c key (.leaf v) replace).2 ∧
      h.length ≤ (symPut h c key (.leaf v) replace).2.length ∧
      ((symPut h c key (.leaf v) replace).1,
        tree (symPut h c key (.leaf v) replace).2 c) =
        treePut (h.tree c) (keyPath key) (.leaf v) replace ∧
      ((symPut h c key (.leaf v) replace).1 ≠ .ok →
        (symPut h c key (.leaf v) replace).2 = h) := by
  have hends := symSearch_ends (h := h) c hp
  rw [symPut]
  generalize symSearch h c (keyPath key) = r at hends
  cases hends with
  | @notDir m i k rest n hd hrest hfind hnode hdata =>
      obtain ⟨-, hl⟩ := entry_entries_of_node hfind hnode
      obtain ⟨a, hleaf⟩ := exists_leaf wf hnode hdata
      have hblocked : (h.tree c).blocked (keyPath key) = true := by
        obtain ⟨k', rest', rfl⟩ := List.exists_cons_of_ne_nil hrest
        rw [(hd.lookup_eq wf).2, wf.tree_eq, OrderedTree.blocked, hl, hleaf]
        rfl
      simpa [treePut, hblocked] using wf
  | @complete m i k hd hfind =>
      obtain ⟨n, hn, -, hl⟩ := entry_entries_of_find hfind
      have hblocked : (h.tree c).blocked (keyPath key) = false := by
        rw [(hd.lookup_eq wf).2, wf.tree_eq, OrderedTree.blocked, hl]
        exact OrderedTree.blocked_nil _
      have hget : ((h.tree c).get (keyPath key)).isSome := by
        rw [(hd.lookup_eq wf).1, wf.tree_eq, OrderedTree.get_dir_cons, hl]
        simp
      cases replace with
      | false => simpa [treePut, hblocked, hget] using wf
      | true =>
          have hm : m < h.length := lt_length_of_mem (List.mem_of_getElem? hn)
          have wf' := setData_wf wf i v hm
          obtain ⟨hoff, htree⟩ := setData_tree wf v hfind
          have hinsert : tree (setData h (m, i) (.leaf v)) m =
              (h.tree m).insert [k] (.leaf v) := by
            rw [htree, wf.tree_eq, OrderedTree.insert, hl]
            simp
          refine ⟨wf', by simp [setData], ?_, by simp⟩
          simp [treePut, hblocked, hd.insert_eq wf wf' hoff hinsert]
  | @missing m k rest hd hfind =>
      have hl := entry_entries_of_find_none hfind
      have hm : m < h.length := wf.lt_length_of_reach hd.reach hc
      have hblocked : (h.tree c).blocked (keyPath key) = false := by
        rw [(hd.lookup_eq wf).2, wf.tree_eq, OrderedTree.blocked, hl]
      have hget : (h.tree c).get (keyPath key) = none := by
        rw [(hd.lookup_eq wf).1, wf.tree_eq, OrderedTree.get_dir_cons, hl]
        rfl
      obtain ⟨wf', hlen, hoff, htree⟩ :=
        addKeys_spec wf rest v hm (not_mem_keys_of_find hfind)
      have hinsert : tree (addKeys h m (.leaf v) (k :: rest)) m =
          (h.tree m).insert (k :: rest) (.leaf v) := by
        rw [htree, wf.tree_eq, OrderedTree.insert, hl]
      refine ⟨wf', hlen, ?_, by simp⟩
      simp [treePut, hblocked, hget, hd.insert_eq wf wf' hoff hinsert]

end

end SymHeap

end EDDTs.Pan
