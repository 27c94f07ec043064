import Mathlib.Data.List.Basic

/-!
# Trees of insertion-ordered maps

A directory lists its entries in the order in which their keys were first
inserted. A path is a list of keys; inserting along a path creates the missing
directories, replaces what is at the end of the path, and moves no entry.
-/

namespace EDDTs.Library

/-- A leaf value, or a directory with its entries in insertion order. -/
inductive OrderedTree (κ α : Type*) where
  | leaf (a : α)
  | dir (entries : List (κ × OrderedTree κ α))

namespace OrderedTree

variable {κ α : Type*} [DecidableEq κ]

/-- The value of the first entry with a key. -/
def entry : List (κ × OrderedTree κ α) → κ → Option (OrderedTree κ α)
  | [], _ => none
  | (c, t) :: es, k => if c = k then some t else entry es k

/-- The subtree at the end of a path. -/
def get : OrderedTree κ α → List κ → Option (OrderedTree κ α)
  | t, [] => some t
  | .leaf _, _ :: _ => none
  | .dir es, k :: ks =>
      match entry es k with
      | none => none
      | some t => get t ks

/-- The tree that has `v` at the end of a path and nothing else. -/
def single : List κ → OrderedTree κ α → OrderedTree κ α
  | [], v => v
  | k :: ks, v => .dir [(k, single ks v)]

/-- Give the entry of `k` a new value, in place. -/
def setEntry (es : List (κ × OrderedTree κ α)) (k : κ) (v : OrderedTree κ α) :
    List (κ × OrderedTree κ α) :=
  es.map fun e => if e.1 = k then (e.1, v) else e

/-- Put `v` at the end of a path. A leaf on the way is left as it is. -/
def insert : OrderedTree κ α → List κ → OrderedTree κ α → OrderedTree κ α
  | _, [], v => v
  | .leaf a, _ :: _, _ => .leaf a
  | .dir es, k :: ks, v =>
      match entry es k with
      | none => .dir (es ++ [(k, single ks v)])
      | some t => .dir (setEntry es k (insert t ks v))

/-- A leaf lies on the way to the end of the path. -/
def blocked : OrderedTree κ α → List κ → Bool
  | _, [] => false
  | .leaf _, _ :: _ => true
  | .dir es, k :: ks =>
      match entry es k with
      | none => false
      | some t => blocked t ks

/-- The keys of a directory, oldest first. -/
def keys : OrderedTree κ α → List κ
  | .leaf _ => []
  | .dir es => es.map Prod.fst

theorem entry_append (es es' : List (κ × OrderedTree κ α)) (k : κ) :
    entry (es ++ es') k = (entry es k).or (entry es' k) := by
  induction es with
  | nil => rfl
  | cons e es ih =>
      simp only [List.cons_append, entry, ih]
      split <;> rfl

theorem entry_eq_none_iff (es : List (κ × OrderedTree κ α)) (k : κ) :
    entry es k = none ↔ k ∉ es.map Prod.fst := by
  induction es with
  | nil => simp [entry]
  | cons e es ih =>
      by_cases he : e.1 = k
      · simp [entry, he]
      · simp [entry, he, ih, Ne.symm he]

variable {t : OrderedTree κ α} {es : List (κ × OrderedTree κ α)}

theorem mem_of_entry {k : κ} (h : entry es k = some t) : (k, t) ∈ es := by
  induction es with
  | nil => cases h
  | cons e es ih =>
      rw [entry] at h
      split at h
      next he => exact List.mem_cons.mpr (Or.inl (Prod.ext he.symm (Option.some.inj h).symm))
      next => exact List.mem_cons_of_mem e (ih h)

/-- Add a key at the end, unless it is there. -/
def appendNew (ks : List κ) (k : κ) : List κ := if k ∈ ks then ks else ks ++ [k]

@[simp] theorem get_nil (t : OrderedTree κ α) : t.get [] = some t := by
  cases t <;> rfl

@[simp] theorem get_leaf_cons (a : α) (k : κ) (ks : List κ) :
    (leaf a : OrderedTree κ α).get (k :: ks) = none := rfl

theorem get_dir_cons (es : List (κ × OrderedTree κ α)) (k : κ) (ks : List κ) :
    (dir es).get (k :: ks) = (entry es k).bind fun t => t.get ks := by
  simp only [get]
  cases entry es k <;> rfl

theorem get_append (t : OrderedTree κ α) (p q : List κ) :
    t.get (p ++ q) = (t.get p).bind fun u => u.get q := by
  induction p generalizing t with
  | nil => simp
  | cons k p ih =>
      cases t with
      | leaf a => rfl
      | dir es =>
          rw [List.cons_append, get_dir_cons, get_dir_cons, Option.bind_assoc]
          exact congrArg _ (funext fun u => ih u)

@[simp] theorem insert_nil (t v : OrderedTree κ α) : t.insert [] v = v := by
  cases t <;> rfl

@[simp] theorem blocked_nil (t : OrderedTree κ α) : t.blocked [] = false := by
  cases t <;> rfl

theorem entry_setEntry (es : List (κ × OrderedTree κ α)) (k k' : κ) (v : OrderedTree κ α) :
    entry (setEntry es k v) k' =
      if k' = k then (entry es k).map fun _ => v else entry es k' := by
  induction es with
  | nil => simp [setEntry, entry]
  | cons e es ih =>
      obtain ⟨c, t⟩ := e
      simp only [setEntry, List.map_cons] at ih ⊢
      by_cases hc : c = k
      · subst hc
        by_cases hk : c = k'
        · simp [entry, hk]
        · simp only [if_true, entry, if_neg hk, ih]
          simp [Ne.symm hk]
      · simp only [if_neg hc, entry, ih]
        by_cases hk : c = k'
        · subst hk
          simp [hc]
        · simp [hk]

@[simp] theorem map_fst_setEntry (es : List (κ × OrderedTree κ α)) (k : κ)
    (v : OrderedTree κ α) : (setEntry es k v).map Prod.fst = es.map Prod.fst := by
  simp only [setEntry, List.map_map]
  refine List.map_congr_left fun e _ => ?_
  simp only [Function.comp_apply]
  split <;> rfl

/-- A blocked path leads nowhere. -/
theorem get_of_blocked {p : List κ} (h : t.blocked p = true) : t.get p = none := by
  induction p generalizing t with
  | nil => simp at h
  | cons k ks ih =>
      cases t with
      | leaf a => rfl
      | dir es =>
          simp only [blocked] at h
          rw [get_dir_cons]
          cases hl : entry es k with
          | none => rfl
          | some t => exact ih (by simpa [hl] using h)

/-- A path is blocked exactly when a proper prefix of it holds a leaf. -/
theorem blocked_iff (t : OrderedTree κ α) (p : List κ) :
    t.blocked p = true ↔ ∃ q a, q <+: p ∧ q ≠ p ∧ t.get q = some (leaf a) := by
  induction p generalizing t with
  | nil =>
      simp only [blocked_nil, Bool.false_eq_true, false_iff]
      rintro ⟨q, a, hq, hne, _⟩
      exact hne (List.prefix_nil.mp hq)
  | cons k ks ih =>
      constructor
      · intro h
        cases t with
        | leaf a => exact ⟨[], a, List.nil_prefix, by simp, rfl⟩
        | dir es =>
            simp only [blocked] at h
            cases hl : entry es k with
            | none => simp [hl] at h
            | some t =>
                obtain ⟨q, a, hq, hne, hg⟩ := (ih t).mp (by simpa [hl] using h)
                exact ⟨k :: q, a, (List.prefix_cons_inj k).mpr hq, by simpa using hne,
                  by simp [get_dir_cons, hl, hg]⟩
      · rintro ⟨q, a, hq, hne, hg⟩
        cases t with
        | leaf b => rfl
        | dir es =>
            cases q with
            | nil => simp at hg
            | cons c q =>
                obtain ⟨rfl, hqs⟩ := List.cons_prefix_cons.mp hq
                rw [get_dir_cons] at hg
                cases hl : entry es c with
                | none => simp [hl] at hg
                | some t =>
                    simp only [blocked, hl]
                    exact (ih t).mpr ⟨q, a, hqs, by simpa using hne, by simpa [hl] using hg⟩

theorem single_eq_insert (p : List κ) (v : OrderedTree κ α) : single p v = (dir []).insert p v := by
  cases p <;> rfl

/-- Below its first key an insertion goes on in the entry of that key, or in a new one. -/
theorem get_insert_cons (es : List (κ × OrderedTree κ α)) (k c : κ) (ks q : List κ)
    (v : OrderedTree κ α) :
    ((dir es).insert (k :: ks) v).get (c :: q) =
      if c = k then (((entry es k).getD (dir [])).insert ks v).get q
      else (dir es).get (c :: q) := by
  by_cases hc : c = k
  · subst hc
    cases hl : entry es c <;>
      simp [insert, hl, get_dir_cons, entry_append, entry, entry_setEntry, single_eq_insert]
  · cases hl : entry es k <;>
      simp [insert, hl, get_dir_cons, entry_append, entry, entry_setEntry, hc, Ne.symm hc]

/-- The end of an unblocked path holds what was inserted there. -/
theorem get_insert_self {p : List κ} (v : OrderedTree κ α) (h : t.blocked p = false) :
    (t.insert p v).get p = some v := by
  induction p generalizing t with
  | nil => simp
  | cons k ks ih =>
      cases t with
      | leaf a => simp [blocked] at h
      | dir es =>
          rw [get_insert_cons, if_pos rfl]
          apply ih
          simp only [blocked] at h
          cases hl : entry es k with
          | none => cases ks <;> rfl
          | some t => simpa [hl] using h

/-- A path that is neither an extension nor a prefix keeps its value. -/
theorem get_insert_other (t : OrderedTree κ α) {p q : List κ} (v : OrderedTree κ α)
    (hpq : ¬ p <+: q) (hqp : ¬ q <+: p) : (t.insert p v).get q = t.get q := by
  induction p generalizing t q with
  | nil => exact absurd List.nil_prefix hpq
  | cons k ks ih =>
      obtain _ | ⟨c, q⟩ := q
      · exact absurd List.nil_prefix hqp
      cases t with
      | leaf a => rfl
      | dir es =>
          rw [get_insert_cons]
          split
          next hc =>
            subst hc
            rw [ih _ (fun h => hpq ((List.prefix_cons_inj c).mpr h))
              (fun h => hqp ((List.prefix_cons_inj c).mpr h)), get_dir_cons]
            cases hl : entry es c with
            | none => cases q <;> simp_all [get_dir_cons, entry]
            | some t => rfl
          next => rfl

/-- A leaf of the new tree was there before, or came with what was inserted. -/
theorem leaf_of_get_insert {p q : List κ} {v : OrderedTree κ α} {a : α}
    (h : (t.insert p v).get q = some (leaf a)) :
    t.get q = some (leaf a) ∨ ∃ r, q = p ++ r ∧ v.get r = some (leaf a) := by
  induction p generalizing t q with
  | nil => exact Or.inr ⟨q, rfl, by simpa using h⟩
  | cons k ks ih =>
      cases t with
      | leaf b => exact Or.inl h
      | dir es =>
          obtain _ | ⟨c, q⟩ := q
          · cases hl : entry es k <;> simp [insert, hl] at h
          rw [get_insert_cons] at h
          split at h
          next hc =>
            subst hc
            rcases ih h with h' | ⟨r, rfl, hr⟩
            · rw [get_dir_cons]
              cases hl : entry es c with
              | none => cases q <;> simp [hl, get_dir_cons, entry] at h'
              | some t => exact Or.inl (by simpa [hl] using h')
            · exact Or.inr ⟨r, rfl, hr⟩
          next => exact Or.inl h

/-- Inserting adds the first key of the path at the end, unless it is there. -/
theorem keys_insert (es : List (κ × OrderedTree κ α)) (k : κ) (ks : List κ)
    (v : OrderedTree κ α) :
    ((dir es).insert (k :: ks) v).keys = appendNew (dir es).keys k := by
  cases hl : entry es k with
  | none =>
      have hk := (entry_eq_none_iff es k).mp hl
      rw [appendNew, if_neg (by simpa only [keys] using hk)]
      simp [insert, hl, keys]
  | some t =>
      have hk : k ∈ es.map Prod.fst := by
        by_contra hk
        simp [(entry_eq_none_iff es k).mpr hk] at hl
      rw [appendNew, if_pos (by simpa only [keys] using hk)]
      simp [insert, hl, keys]

/-- A path with a new first key is added at the end. -/
theorem insert_new {k : κ} (hk : k ∉ es.map Prod.fst) (ks : List κ) (v : OrderedTree κ α) :
    (dir es).insert (k :: ks) v = dir (es ++ [(k, single ks v)]) := by
  simp [insert, (entry_eq_none_iff es k).mpr hk]

/-- Inserting below the last entry. -/
theorem insert_last {k : κ} (hk : k ∉ es.map Prod.fst) (t : OrderedTree κ α) (ks : List κ)
    (v : OrderedTree κ α) :
    (dir (es ++ [(k, t)])).insert (k :: ks) v = dir (es ++ [(k, t.insert ks v)]) := by
  have hsame : ∀ e ∈ es, (if e.1 = k then (e.1, t.insert ks v) else e) = e := by
    intro e he
    refine if_neg fun heq => hk ?_
    rw [← heq]
    exact List.mem_map_of_mem he
  have hentry : entry (es ++ [(k, t)]) k = some t := by
    simp [entry_append, (entry_eq_none_iff es k).mpr hk, entry]
  simp [insert, hentry, setEntry, List.map_congr_left hsame]

end OrderedTree

end EDDTs.Library
