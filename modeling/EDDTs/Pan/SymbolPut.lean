import EDDTs.Pan.SymbolShape

/-!
# What `sym_put` does to the heap

The two ways in which `sym_put` changes the heap, a chain of new entries below
an existing table and new data in an existing entry, keep the shape of the heap
and change the tree of that table as an insertion does. Along the search path
from the root the change is again an insertion.
-/

namespace EDDTs.Pan

open Library

variable {α : Type*}

namespace SymHeap

variable {h h' : SymHeap α}

@[simp] theorem length_setChain (a : Nat) (ns : List (SymNode α)) :
    (h.setChain a ns).length = h.length := by
  simp [setChain]

theorem chain_setChain_self {a : Nat} (ns : List (SymNode α)) (ha : a < h.length) :
    (h.setChain a ns).chain a = ns := by
  simp [chain, setChain, List.getElem?_eq_getElem ha]

theorem chain_setChain_of_ne {a b : Nat} (ns : List (SymNode α)) (hne : b ≠ a) :
    (h.setChain a ns).chain b = h.chain b := by
  simp [chain, setChain, hne.symm]

@[simp] theorem chain_newsym (b : Nat) : chain (newsym h) b = h.chain b := by
  rcases lt_trichotomy b h.length with hlt | rfl | hgt
  · simp [chain, newsym, List.getElem?_append_left hlt]
  · simp [chain, newsym]
  · rw [chain_of_length_le (h := newsym h) (by simp [newsym]; omega), chain_of_length_le hgt.le]

@[simp] theorem length_newsym : (newsym h).length = h.length + 1 := by
  simp [newsym]

@[simp] theorem length_addKey (m : Nat) (k : Text) (d : SymData α) :
    (addKey h m k d).length = h.length := by
  simp [addKey]

variable {m : Nat} {k : Text} {n : SymNode α} {d : SymData α}

theorem chain_addKey (k : Text) (d : SymData α) (hm : m < h.length) (b : Nat) :
    chain (addKey h m k d) b =
      if b = m then h.chain m ++ [{ key := k, data := d }] else h.chain b := by
  split
  next hb => rw [hb]; exact chain_setChain_self _ hm
  next hb => exact chain_setChain_of_ne _ hb

theorem chain_setData (i : Nat) (d : SymData α) (hm : m < h.length) (b : Nat) :
    chain (setData h (m, i) d) b =
      if b = m then (h.chain m).modify i fun n => { n with data := d } else h.chain b := by
  split
  next hb => rw [hb]; exact chain_setChain_self _ hm
  next hb => exact chain_setChain_of_ne _ hb

/-- After `add_key` a node is an old one, or the new entry at the end of its chain. -/
theorem getElem?_chain_addKey (hm : m < h.length) {a i : Nat}
    (hn : (chain (addKey h m k d) a)[i]? = some n) :
    (h.chain a)[i]? = some n ∨
      a = m ∧ i = (h.chain m).length ∧ n = { key := k, data := d } := by
  rw [chain_addKey k d hm] at hn
  split at hn
  next ha =>
    subst ha
    rcases lt_trichotomy i (h.chain a).length with hlt | rfl | hgt
    · exact Or.inl (by rwa [List.getElem?_append_left hlt] at hn)
    · refine Or.inr ⟨rfl, rfl, ?_⟩
      rw [List.getElem?_concat_length] at hn
      exact (Option.some.inj hn).symm
    · rw [List.getElem?_eq_none (by simp; omega)] at hn
      cases hn
  next => exact Or.inl hn

/-- After new data is set a node is an old one, or it has that data. -/
theorem getElem?_chain_setData {i : Nat} (hm : m < h.length) {a j : Nat}
    (hn : (chain (setData h (m, i) d) a)[j]? = some n) : (h.chain a)[j]? = some n ∨ n.data = d := by
  rw [chain_setData i d hm] at hn
  split at hn
  next ha =>
    subst ha
    rw [List.getElem?_modify] at hn
    obtain ⟨n', hn', rfl⟩ := Option.map_eq_some_iff.mp hn
    split
    · exact Or.inr rfl
    · exact Or.inl hn'
  next => exact Or.inl hn

theorem newsym_wf (wf : h.WF) : WF (newsym h) where
  below hn ht := by
    obtain ⟨hlt, hlen⟩ := wf.below (by simpa using hn) ht
    exact ⟨hlt, by simp; omega⟩
  once ha hb := wf.once (by simpa using ha) (by simpa using hb)
  unique a := by simpa using wf.unique a
  nonNull hn := wf.nonNull (by simpa using hn)

/-- Data that may be stored in a new entry of the table `m`: a leaf, or a table
that no entry refers to. -/
def Fresh (h : SymHeap α) (m : Nat) : SymData α → Prop
  | .null => False
  | .leaf _ => True
  | .table t => m < t ∧ t < h.length ∧ ∀ a, ¬ h.Child a t

/-- A new entry with a new key and unshared data keeps the shape. -/
theorem addKey_wf (wf : h.WF) (hm : m < h.length) (hk : k ∉ (h.chain m).map SymNode.key)
    (hd : h.Fresh m d) : WF (addKey h m k d) where
  below {a n t} hn ht := by
    rw [length_addKey]
    obtain ⟨i, hi⟩ := List.mem_iff_getElem?.mp hn
    rcases getElem?_chain_addKey hm hi with hold | ⟨rfl, -, rfl⟩
    · exact wf.below (List.mem_of_getElem? hold) ht
    · change d = .table t at ht
      subst ht
      exact ⟨hd.1, hd.2.1⟩
  once {a b i j t} ha hb := by
    -- no old node has the data of the new entry
    have hold : ∀ {a i : Nat} {n : SymNode α}, (h.chain a)[i]? = some n → n.data = .table t →
        d ≠ .table t := by
      rintro a i n hn ht rfl
      exact hd.2.2 a ⟨n, List.mem_of_getElem? hn, ht⟩
    obtain ⟨x, hx, hxt⟩ := Option.map_eq_some_iff.mp ha
    obtain ⟨y, hy, hyt⟩ := Option.map_eq_some_iff.mp hb
    rcases getElem?_chain_addKey hm hx with hx | ⟨ha, hi, rfl⟩ <;>
      rcases getElem?_chain_addKey hm hy with hy | ⟨hb, hj, rfl⟩
    · exact wf.once (by rw [hx]; exact congrArg some hxt) (by rw [hy]; exact congrArg some hyt)
    · exact absurd hyt (hold hx hxt)
    · exact absurd hxt (hold hy hyt)
    · exact ⟨ha.trans hb.symm, hi.trans hj.symm⟩
  unique a := by
    rw [chain_addKey k d hm]
    split
    · rw [List.map_append, List.nodup_append]
      refine ⟨wf.unique m, by simp, ?_⟩
      rintro x hx y hy rfl
      simp only [List.map_cons, List.map_nil, List.mem_singleton] at hy
      exact hk (hy ▸ hx)
    · exact wf.unique a
  nonNull {a n} hn := by
    obtain ⟨i, hi⟩ := List.mem_iff_getElem?.mp hn
    rcases getElem?_chain_addKey hm hi with hold | ⟨rfl, -, rfl⟩
    · exact wf.nonNull (List.mem_of_getElem? hold)
    · rintro rfl
      exact hd

theorem map_key_modify (ns : List (SymNode α)) (i : Nat) (d : SymData α) :
    (ns.modify i fun n => { n with data := d }).map SymNode.key = ns.map SymNode.key := by
  refine List.ext_getElem? fun j => ?_
  rw [List.getElem?_map, List.getElem?_map, List.getElem?_modify]
  cases ns[j]? with
  | none => rfl
  | some n =>
      simp only [Option.map_eq_map, Option.map_some]
      split <;> rfl

/-- New leaf data in an entry keeps the shape. -/
theorem setData_wf (wf : h.WF) (i : Nat) (v : α) (hm : m < h.length) :
    WF (setData h (m, i) (.leaf v)) where
  below {a n t} hn ht := by
    obtain ⟨j, hj⟩ := List.mem_iff_getElem?.mp hn
    rcases getElem?_chain_setData hm hj with hold | hleaf
    · simpa [setData] using wf.below (List.mem_of_getElem? hold) ht
    · rw [hleaf] at ht
      cases ht
  once {a b i' j t} ha hb := by
    -- the new leaf is no table, so that both nodes are old
    have hold : ∀ {a j : Nat},
        (chain (setData h (m, i) (.leaf v)) a)[j]?.map SymNode.data = some (.table t) →
        (h.chain a)[j]?.map SymNode.data = some (.table t) := by
      intro a j hj
      obtain ⟨n, hn, ht⟩ := Option.map_eq_some_iff.mp hj
      rcases getElem?_chain_setData hm hn with hn | hleaf
      · rw [hn]
        exact congrArg some ht
      · rw [hleaf] at ht
        cases ht
    exact wf.once (hold ha) (hold hb)
  unique a := by
    rw [chain_setData i _ hm]
    split
    · rw [map_key_modify]
      exact wf.unique m
    · exact wf.unique a
  nonNull {a n} hn := by
    obtain ⟨j, hj⟩ := List.mem_iff_getElem?.mp hn
    rcases getElem?_chain_setData hm hj with hold | hleaf
    · exact wf.nonNull (List.mem_of_getElem? hold)
    · rw [hleaf]
      nofun

/-- A path with at least one key, hung below a table that has no entry for its
first key. -/
theorem addKeys_spec (wf : h.WF) (rest : List Text) (v : α) (hm : m < h.length)
    (hk : k ∉ (h.chain m).map SymNode.key) :
    WF (addKeys h m (.leaf v) (k :: rest)) ∧
      h.length ≤ (addKeys h m (.leaf v) (k :: rest)).length ∧
      h.AgreesOff (addKeys h m (.leaf v) (k :: rest)) m ∧
      tree (addKeys h m (.leaf v) (k :: rest)) m =
        .dir (h.entries m ++ [(k, .single rest (.leaf v))]) := by
  induction rest generalizing h m k with
  | nil =>
      have wf' : WF (addKey h m k (.leaf v)) := addKey_wf wf hm hk trivial
      have hoff : h.AgreesOff (addKey h m k (.leaf v)) m := fun b _ hne => by
        rw [chain_addKey k _ hm, if_neg hne]
      refine ⟨wf', by simp [addKeys], hoff, ?_⟩
      simp only [addKeys, wf'.tree_eq, OrderedTree.dir.injEq]
      rw [entries, chain_addKey k _ hm, if_pos rfl, List.map_append]
      rw [wf.entries_frame wf' hoff]
      rfl
  | cons k' rest ih =>
      -- the new entry points to a new table, where the rest of the path goes
      let h₁ := addKey (newsym h) m k (.table h.length)
      have hlen₁ : h₁.length = h.length + 1 := by simp [h₁]
      have hchain₁ : ∀ b, h₁.chain b =
          if b = m then h.chain m ++ [{ key := k, data := .table h.length }] else h.chain b := by
        intro b
        have hm' : m < (newsym h).length := by simp; omega
        simp only [h₁, chain_addKey k _ hm', chain_newsym]
      have hfresh : Fresh (newsym h) m (.table h.length : SymData α) := by
        refine ⟨hm, by simp, fun a hc => ?_⟩
        obtain ⟨n, hn, hnt⟩ := hc
        exact absurd (wf.below (by simpa using hn) hnt).2 (lt_irrefl _)
      have wf₁ : WF h₁ :=
        addKey_wf (newsym_wf wf) (by simp; omega) (by simpa using hk) hfresh
      have hnil : h₁.chain h.length = [] := by
        rw [hchain₁, if_neg (by omega), chain_of_length_le le_rfl]
      obtain ⟨wf', hlen', hoff', htree'⟩ :=
        ih (h := h₁) (m := h.length) (k := k') wf₁ (by omega) (by simp [hnil])
      have hres : addKeys h m (.leaf v) (k :: k' :: rest) =
          addKeys h₁ h.length (.leaf v) (k' :: rest) := rfl
      rw [hres]
      have hoff : h.AgreesOff (addKeys h₁ h.length (.leaf v) (k' :: rest)) m := by
        intro b hb hne
        rw [hoff' b (by omega) (by omega), hchain₁, if_neg hne]
      refine ⟨wf', by omega, hoff, ?_⟩
      rw [wf'.tree_eq, entries, hoff' m (by omega) (by omega), hchain₁, if_pos rfl,
        List.map_append, wf.entries_frame wf' hoff]
      simp [SymData.denote, htree', entries, hnil, OrderedTree.single]

/-- The entry that `find_key1` finds, and its place in the tree. -/
theorem entry_entries_of_find {i : Nat} (hf : findKey1 (h.chain m) k = some i) :
    ∃ n, (h.chain m)[i]? = some n ∧ n.key = k ∧
      OrderedTree.entry (h.entries m) k = some (n.data.denote h.tree) := by
  simp only [entries]
  generalize h.chain m = ns at hf ⊢
  induction ns generalizing i with
  | nil => simp [findKey1] at hf
  | cons n ns ih =>
      by_cases hn : n.key = k
      · have hi : i = 0 := by simpa [findKey1, List.findIdx?_cons, hn] using hf.symm
        exact ⟨n, by simp [hi], hn, by simp [OrderedTree.entry, hn]⟩
      · simp only [findKey1, List.findIdx?_cons, hn, decide_false, Bool.false_eq_true,
          if_false, Option.map_eq_some_iff] at hf
        obtain ⟨j, hj, rfl⟩ := hf
        obtain ⟨n', hn', hkey, hl⟩ := ih hj
        exact ⟨n', by simpa using hn', hkey, by simpa [OrderedTree.entry, hn] using hl⟩

theorem not_mem_keys_of_find (hf : findKey1 (h.chain m) k = none) :
    k ∉ (h.chain m).map SymNode.key := by
  intro hk
  obtain ⟨n, hn, rfl⟩ := List.mem_map.mp hk
  exact of_decide_eq_false (List.findIdx?_eq_none_iff.mp hf n hn) rfl

theorem entry_entries_of_node {i : Nat} (hf : findKey1 (h.chain m) k = some i)
    (hn : (h.chain m)[i]? = some n) :
    n.key = k ∧ OrderedTree.entry (h.entries m) k = some (n.data.denote h.tree) := by
  obtain ⟨n', hn', hentry⟩ := entry_entries_of_find hf
  obtain rfl := Option.some.inj (hn.symm.trans hn')
  exact hentry

theorem entry_entries_of_find_none (hf : findKey1 (h.chain m) k = none) :
    OrderedTree.entry (h.entries m) k = none := by
  refine (OrderedTree.entry_eq_none_iff _ _).mpr ?_
  simpa [entries] using not_mem_keys_of_find hf

/-- With unique keys, the nodes of one key are one node. -/
theorem WF.index_unique (wf : h.WF) {i j : Nat} {n' : SymNode α} (hi : (h.chain m)[i]? = some n)
    (hj : (h.chain m)[j]? = some n') (hkey : n.key = n'.key) : i = j := by
  have hlt := (List.getElem?_eq_some_iff.mp hi).1
  refine (List.getElem?_inj (by simpa using hlt) (wf.unique m)).mp ?_
  simp [hi, hj, hkey]

/-- New data in the entry of a key sets the entry in the tree. -/
theorem setData_tree (wf : h.WF) {i : Nat} (v : α) (hf : findKey1 (h.chain m) k = some i) :
    h.AgreesOff (setData h (m, i) (.leaf v)) m ∧
      tree (setData h (m, i) (.leaf v)) m =
        .dir (OrderedTree.setEntry (h.entries m) k (.leaf v)) := by
  obtain ⟨n, hn, hkey, -⟩ := entry_entries_of_find hf
  have hm : m < h.length := lt_length_of_mem (List.mem_of_getElem? hn)
  have wf' := setData_wf wf i v hm
  have hoff : h.AgreesOff (setData h (m, i) (.leaf v)) m := fun b _ hne => by
    rw [chain_setData i _ hm, if_neg hne]
  refine ⟨hoff, ?_⟩
  rw [wf'.tree_eq, ← wf.entries_frame wf' hoff, entries, chain_setData i _ hm, if_pos rfl]
  simp only [OrderedTree.setEntry, OrderedTree.dir.injEq]
  refine List.ext_getElem? fun j => ?_
  simp only [List.getElem?_map, List.getElem?_modify]
  cases hj : (h.chain m)[j]? with
  | none => rfl
  | some n' =>
      simp only [Option.map_eq_map, Option.map_some, Option.some.injEq]
      by_cases hij : i = j
      · subst hij
        obtain rfl : n = n' := Option.some.inj (hn.symm.trans hj)
        simp [hkey, SymData.denote]
      · have hne : n'.key ≠ k := fun he => hij (wf.index_unique hn hj (hkey.trans he.symm))
        simp [hij, hne]

end SymHeap

end EDDTs.Pan
