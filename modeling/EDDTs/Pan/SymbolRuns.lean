import EDDTs.Pan.SymbolRefinement

/-!
# Runs of calls on a fresh symbol table

Any sequence of `sym_put` and `sym_get` calls on a table fresh from `sym_open`,
against the same calls on an empty tree of ordered maps.
-/

namespace EDDTs.Pan

open Library

variable {α : Type*}

/-- A call on the table; the data of a put is no table. -/
inductive SymOp (α : Type*) where
  | put (key : Text) (data : α) (replace : Bool)
  | get (key : Text)

def SymOp.key : SymOp α → Text
  | .put key _ _ => key
  | .get key => key

/-- The heap after a call on the first table. -/
def symStep (h : SymHeap α) : SymOp α → SymHeap α
  | .put key data replace => (symPut h 0 key (.leaf data) replace).2
  | .get _ => h

/-- The heap after `sym_open` and a sequence of calls. -/
def symRun (ops : List (SymOp α)) : SymHeap α := ops.foldl symStep (newsym [])

def treeStep (t : OrderedTree Text α) : SymOp α → OrderedTree Text α
  | .put key data replace => (treePut t (keyPath key) (.leaf data) replace).2
  | .get _ => t

def treeRun (ops : List (SymOp α)) : OrderedTree Text α := ops.foldl treeStep (.dir [])

/-- Add a call's first key component, unless it is there. -/
def addFirst (ks : List Text) : SymOp α → List Text
  | .put key _ _ =>
      match keyPath key with
      | [] => ks
      | k :: _ => OrderedTree.appendNew ks k
  | .get _ => ks

/-- The first components of the keys put, in the order of their first put. -/
def firstInserted (ops : List (SymOp α)) : List Text := ops.foldl addFirst []

theorem symStep_refines {h : SymHeap α} (wf : h.WF) (hlen : 0 < h.length) (op : SymOp α)
    (hop : keyPath op.key ≠ []) :
    (symStep h op).WF ∧ 0 < (symStep h op).length ∧
      (symStep h op).tree 0 = treeStep (h.tree 0) op := by
  cases op with
  | put key data replace =>
      obtain ⟨wf', hle, heq, -⟩ := SymHeap.symPut_eq wf hlen hop data replace
      exact ⟨wf', hlen.trans_le hle, congrArg Prod.snd heq⟩
  | get key => exact ⟨wf, hlen, rfl⟩

theorem symRun_refines_from {h : SymHeap α} (wf : h.WF) (hlen : 0 < h.length)
    (ops : List (SymOp α)) (hops : ∀ op ∈ ops, keyPath op.key ≠ []) :
    SymHeap.WF (ops.foldl symStep h) ∧ 0 < (ops.foldl symStep h).length ∧
      SymHeap.tree (ops.foldl symStep h) 0 = ops.foldl treeStep (h.tree 0) := by
  induction ops generalizing h with
  | nil => exact ⟨wf, hlen, rfl⟩
  | cons op ops ih =>
      obtain ⟨wf', hlen', htree⟩ := symStep_refines wf hlen op (hops op (by simp))
      simpa only [List.foldl_cons, htree] using
        ih wf' hlen' fun op' hop' => hops op' (by simp [hop'])

theorem wf_nil : SymHeap.WF ([] : SymHeap α) := by
  constructor <;> simp [SymHeap.chain]

theorem symRun_refines (ops : List (SymOp α)) (hops : ∀ op ∈ ops, keyPath op.key ≠ []) :
    (symRun ops).WF ∧ 0 < (symRun ops).length ∧ (symRun ops).tree 0 = treeRun ops := by
  have wf : SymHeap.WF (newsym ([] : SymHeap α)) := SymHeap.newsym_wf wf_nil
  have htree : SymHeap.tree (newsym ([] : SymHeap α)) 0 = .dir [] := rfl
  simpa only [symRun, treeRun, htree] using symRun_refines_from wf (by simp) ops hops

section Status

variable (t : OrderedTree Text α) (p : List Text) (v : OrderedTree Text α) (replace : Bool)

theorem treePut_eexist_iff :
    (treePut t p v replace).1 = .eexist ↔ (t.get p).isSome ∧ replace = false := by
  unfold treePut
  split
  next hb => simp [OrderedTree.get_of_blocked hb]
  next hb => cases t.get p <;> cases replace <;> simp

theorem treePut_enotdir_iff :
    (treePut t p v replace).1 = .enotdir ↔
      ∃ q a, q <+: p ∧ q ≠ p ∧ t.get q = some (.leaf a) := by
  rw [← OrderedTree.blocked_iff]
  unfold treePut
  split
  next hb => simp [hb]
  next hb => split <;> simp [hb]

theorem treePut_status :
    (treePut t p v replace).1 = .ok ∨ (treePut t p v replace).1 = .eexist ∨
      (treePut t p v replace).1 = .enotdir := by
  unfold treePut
  split
  · simp
  · split <;> simp

theorem treePut_get_self (hok : (treePut t p v replace).1 = .ok) :
    (treePut t p v replace).2.get p = some v := by
  unfold treePut at hok ⊢
  split at hok
  · cases hok
  next hb =>
    rw [if_neg hb]
    split at hok
    · cases hok
    next hg =>
      rw [if_neg hg]
      exact OrderedTree.get_insert_self v (by simpa using hb)

theorem treePut_get_other {q : List Text} (hpq : ¬ p <+: q) (hqp : ¬ q <+: p) :
    (treePut t p v replace).2.get q = t.get q := by
  unfold treePut
  split
  · rfl
  · split
    · rfl
    · exact OrderedTree.get_insert_other t v hpq hqp

end Status

/-- A put adds its first component to the keys of the root, unless it is there;
a put that fails finds it there. -/
theorem keys_treePut (es : List (Text × OrderedTree Text α)) (k : Text) (ks : List Text)
    (v : OrderedTree Text α) (replace : Bool) :
    (treePut (.dir es) (k :: ks) v replace).2.keys =
      OrderedTree.appendNew (OrderedTree.dir es).keys k := by
  have hfound : OrderedTree.entry es k ≠ none → k ∈ (OrderedTree.dir es).keys := fun hne => by
    by_contra hk
    exact hne ((OrderedTree.entry_eq_none_iff es k).mpr hk)
  unfold treePut
  split
  next hb =>
    rw [OrderedTree.appendNew,
      if_pos (hfound fun hnone => by simp [OrderedTree.blocked, hnone] at hb)]
  next hb =>
    split
    next hg =>
      rw [OrderedTree.appendNew,
        if_pos (hfound fun hnone => by simp [OrderedTree.get_dir_cons, hnone] at hg)]
    next => exact OrderedTree.keys_insert es k ks v

theorem isDir_treePut (es : List (Text × OrderedTree Text α)) (k : Text) (ks : List Text)
    (v : OrderedTree Text α) (replace : Bool) :
    ∃ es', (treePut (.dir es) (k :: ks) v replace).2 = .dir es' := by
  unfold treePut
  split
  · exact ⟨es, rfl⟩
  · split
    · exact ⟨es, rfl⟩
    · simp only [OrderedTree.insert]
      split <;> exact ⟨_, rfl⟩

theorem keys_treeStep (es : List (Text × OrderedTree Text α)) (op : SymOp α)
    (hop : keyPath op.key ≠ []) :
    ∃ es', treeStep (.dir es) op = .dir es' ∧
      (OrderedTree.dir es').keys = addFirst (OrderedTree.dir es).keys op := by
  cases op with
  | put key data replace =>
      obtain ⟨k, ks, hk⟩ := List.exists_cons_of_ne_nil hop
      simp only [SymOp.key] at hk
      obtain ⟨es', hes⟩ := isDir_treePut es k ks (.leaf data) replace
      refine ⟨es', by rw [treeStep, hk, hes], ?_⟩
      rw [← hes, keys_treePut, addFirst, hk]
  | get key => exact ⟨es, rfl, rfl⟩

theorem keys_treeRun (ops : List (SymOp α)) (hops : ∀ op ∈ ops, keyPath op.key ≠ []) :
    (treeRun ops).keys = firstInserted ops := by
  suffices h : ∀ es : List (Text × OrderedTree Text α),
      (ops.foldl treeStep (.dir es)).keys = ops.foldl addFirst (OrderedTree.dir es).keys from
    h []
  induction ops with
  | nil => exact fun es => rfl
  | cons op ops ih =>
      intro es
      obtain ⟨es', htree, hkeys⟩ := keys_treeStep es op (hops op (by simp))
      simp only [List.foldl_cons, htree, ← hkeys]
      exact ih (fun op' hop' => hops op' (by simp [hop'])) es'

section Enumeration

variable {h : SymHeap α} {sym : Nat}

@[simp] theorem chain_seqAt (cursor : Option (Nat × Nat)) (b : Nat) :
    (seqAt h sym cursor).2.chain b = h.chain b := by
  simp only [seqAt, SymHeap.chain, List.getElem?_modify]
  cases h[b]? with
  | none => rfl
  | some s =>
      simp only [Option.map_eq_map, Option.map_some]
      split <;> rfl

@[simp] theorem length_seqAt (cursor : Option (Nat × Nat)) :
    (seqAt h sym cursor).2.length = h.length := by
  simp [seqAt]

theorem cursor_seqAt {c : Nat × Nat} {n : SymNode α} (hsym : sym < h.length)
    (hn : (h.chain c.1)[c.2]? = some n) :
    (seqAt h sym (some c)).2[sym]?.bind Symh.cursor = some c := by
  simp [seqAt, hn, List.getElem?_eq_getElem hsym]

/-- With the cursor before the node `i` of its own table, `R_NEXT` walks the
rest of the chain. -/
theorem seqKeys_of_cursor (hsym : sym < h.length) {mode : SeqMode} {i : Nat}
    (hmode : symSeq h sym mode = seqAt h sym (some (sym, i))) (n : Nat) :
    seqKeys h sym mode n = (((h.chain sym).drop i).take n).map SymNode.key := by
  induction n generalizing h mode i with
  | zero => simp [seqKeys]
  | succ n ih =>
      rw [seqKeys, hmode]
      cases hn : (h.chain sym)[i]? with
      | none =>
          have hlen : (h.chain sym).length ≤ i := List.getElem?_eq_none_iff.mp hn
          simp [seqAt, hn, List.drop_of_length_le hlen]
      | some node =>
          have hnext : symSeq (seqAt h sym (some (sym, i))).2 sym .next =
              seqAt (seqAt h sym (some (sym, i))).2 sym (some (sym, i + 1)) := by
            simp only [symSeq, cursor_seqAt (c := (sym, i)) hsym hn, Option.map_some]
          have hrest := ih (by simpa using hsym) hnext
          have hfst : (seqAt h sym (some (sym, i))).1 = some node := by simp [seqAt, hn]
          have hlt := (List.getElem?_eq_some_iff.mp hn).1
          have hget := (List.getElem?_eq_some_iff.mp hn).2
          have hpair : seqAt h sym (some (sym, i)) =
              (some node, (seqAt h sym (some (sym, i))).2) := by rw [← hfst]
          rw [hpair]
          simp [hrest, List.drop_eq_getElem_cons hlt, hget]

end Enumeration

end EDDTs.Pan
