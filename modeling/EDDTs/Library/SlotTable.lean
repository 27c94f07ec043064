import Mathlib.Data.List.Basic
import Mathlib.Data.List.Perm.Basic

/-!
# Tables of slots

A table of slots, each of which holds at most one item. Writing to a slot
exchanges the item it held for the new one; the items of the whole table are
known up to their order. A table may also grow: a new item then goes to the
first free slot, and to a slot of its own if none is free.
-/

namespace EDDTs.Library

open scoped List

variable {σ β : Type*}

/-- The items that the slots of a table hold. -/
def items (f : σ → Option β) (table : List σ) : List β := table.filterMap f

variable (f : σ → Option β)

theorem items_cons (x : σ) (table : List σ) :
    items f (x :: table) = (f x).toList ++ items f table := by
  cases h : f x <;> simp [items, h]

variable {table : List σ} {i : Nat}

/-- Writing to a slot exchanges its item. -/
theorem items_set_perm {old : σ} (new : σ) (hi : table[i]? = some old) :
    (f old).toList ++ items f (table.set i new) ~ (f new).toList ++ items f table := by
  have hswap : ∀ l l' l'' : List β, l ++ (l' ++ l'') ~ l' ++ (l ++ l'') := by
    intro l l' l''
    rw [← List.append_assoc, ← List.append_assoc]
    exact List.perm_append_comm.append_right l''
  induction table generalizing i with
  | nil => simp at hi
  | cons x table ih =>
      cases i with
      | zero =>
          obtain rfl : x = old := by simpa using hi
          simp only [List.set_cons_zero, items_cons]
          exact hswap _ _ _
      | succ i =>
          simp only [List.set_cons_succ, items_cons]
          calc
            (f old).toList ++ ((f x).toList ++ items f (table.set i new))
              ~ (f x).toList ++ ((f old).toList ++ items f (table.set i new)) := hswap _ _ _
            _ ~ (f x).toList ++ ((f new).toList ++ items f table) :=
                (ih (by simpa using hi)).append_left _
            _ ~ (f new).toList ++ ((f x).toList ++ items f table) := hswap _ _ _

/-- A slot that was empty takes an item. -/
theorem items_set_fill {old new : σ} {v : β} (hi : table[i]? = some old) (hold : f old = none)
    (hnew : f new = some v) : items f (table.set i new) ~ v :: items f table := by
  simpa [hold, hnew] using items_set_perm f new hi

/-- A slot gives its item up. -/
theorem items_set_empty {old new : σ} {v : β} (hi : table[i]? = some old) (hold : f old = some v)
    (hnew : f new = none) : v :: items f (table.set i new) ~ items f table := by
  simpa [hold, hnew] using items_set_perm f new hi

/-- A write that keeps the item of the slot changes nothing. -/
theorem items_set_same {old new : σ} (hi : table[i]? = some old) (hf : f new = f old) :
    items f (table.set i new) = items f table := by
  induction table generalizing i with
  | nil => simp at hi
  | cons x table ih =>
      cases i with
      | zero =>
          obtain rfl : x = old := by simpa using hi
          simp [items_cons, hf]
      | succ i => simp [items_cons, ih (by simpa using hi)]

theorem length_items_le (table : List σ) :
    (items f table).length ≤ table.length := List.length_filterMap_le f table

/-- With an item in every slot there are as many items as slots. -/
theorem length_items_of_full (h : ∀ x ∈ table, f x ≠ none) :
    (items f table).length = table.length := by
  induction table with
  | nil => rfl
  | cons x table ih =>
      obtain ⟨v, hv⟩ := Option.ne_none_iff_exists'.mp (h x (by simp))
      have hrest := ih fun y hy => h y (by simp [hy])
      simp [items_cons, hv, hrest]

section FirstFit

/-- The first free slot takes the new value; without one the table grows. -/
def firstFit (free : σ → Bool) (new : σ) : List σ → List σ
  | [] => [new]
  | x :: table => if free x then new :: table else x :: firstFit free new table

/-- The first slot with the property is changed. -/
def changeFirst (p : σ → Bool) (change : σ → σ) : List σ → Option (List σ)
  | [] => none
  | x :: table =>
      if p x then some (change x :: table) else (changeFirst p change table).map (x :: ·)

variable {free p : σ → Bool} {f : σ → Option β} {change : σ → σ}

theorem items_firstFit (hfree : ∀ x, free x = true ↔ f x = none) {new : σ} {v : β}
    (hnew : f new = some v) (table : List σ) :
    items f (firstFit free new table) ~ v :: items f table := by
  induction table with
  | nil => simp [firstFit, items, hnew]
  | cons x table ih =>
      by_cases hx : free x = true
      · simp [firstFit, hx, items_cons, hnew, (hfree x).mp hx]
      · rw [firstFit, if_neg hx, items_cons, items_cons]
        calc
          (f x).toList ++ items f (firstFit free new table)
            ~ (f x).toList ++ v :: items f table := ih.append_left _
          _ ~ v :: ((f x).toList ++ items f table) := List.perm_middle

/-- The table grows only when an item is added to a full one. -/
theorem length_firstFit (hfree : ∀ x, free x = true ↔ f x = none) (new : σ) (table : List σ) :
    (firstFit free new table).length = max table.length ((items f table).length + 1) := by
  induction table with
  | nil => rfl
  | cons x table ih =>
      by_cases hx : free x = true
      · have hle := length_items_le f table
        simp only [firstFit, hx, if_true, items_cons, (hfree x).mp hx, Option.toList_none,
          List.nil_append, List.length_cons]
        omega
      · obtain ⟨v, hv⟩ := Option.ne_none_iff_exists'.mp fun h => hx ((hfree x).mpr h)
        simp only [firstFit, hx, items_cons, hv, Option.toList_some, List.length_cons,
          List.length_append, List.length_nil, Bool.false_eq_true, if_false]
        omega

/-- A slot gives its item up. -/
theorem items_give_up (f : σ → Option β) {old new : σ} {v : β} (hold : f old = some v)
    (hnew : f new = none) (a b : List σ) :
    v :: items f (a ++ new :: b) ~ items f (a ++ old :: b) := by
  simp only [items, List.filterMap_append, List.filterMap_cons, hold, hnew]
  exact List.perm_middle.symm

theorem changeFirst_eq_none {table : List σ} :
    changeFirst p change table = none ↔ ∀ x ∈ table, p x = false := by
  induction table with
  | nil => simp [changeFirst]
  | cons x table ih =>
      by_cases hx : p x = true
      · simp [changeFirst, hx]
      · simp [changeFirst, hx, ih]

theorem changeFirst_eq_some {table table' : List σ} (h : changeFirst p change table = some table') :
    ∃ a x b, table = a ++ x :: b ∧ table' = a ++ change x :: b ∧ p x = true ∧
      ∀ y ∈ a, p y = false := by
  induction table generalizing table' with
  | nil => simp [changeFirst] at h
  | cons x table ih =>
      by_cases hx : p x = true
      · rw [changeFirst, if_pos hx] at h
        exact ⟨[], x, table, rfl, (Option.some.inj h).symm, hx, by simp⟩
      · rw [changeFirst, if_neg hx] at h
        obtain ⟨rest, hrest, rfl⟩ := Option.map_eq_some_iff.mp h
        obtain ⟨a, y, b, rfl, rfl, hy, ha⟩ := ih hrest
        refine ⟨x :: a, y, b, rfl, rfl, hy, ?_⟩
        exact List.forall_mem_cons.mpr ⟨by simpa using hx, ha⟩

section Refinement

variable {τ : Type*} {R : σ → τ → Prop} {free' p' : τ → Bool}

/-- Tables whose slots agree on what is free take a new value in the same slot. -/
theorem firstFit_forall₂ (hfree : ∀ x y, R x y → free x = free' y) {new : σ} {new' : τ}
    (hnew : R new new') {table : List σ} {table' : List τ} (h : List.Forall₂ R table table') :
    List.Forall₂ R (firstFit free new table) (firstFit free' new' table') := by
  induction h with
  | nil => exact .cons hnew .nil
  | cons hxy hrest ih =>
      rw [firstFit, firstFit, hfree _ _ hxy]
      split
      · exact .cons hnew hrest
      · exact .cons hxy ih

/-- Tables whose slots agree on a property are changed at the same slot. -/
theorem changeFirst_forall₂ (hp : ∀ x y, R x y → p x = p' y) (change : σ → σ) (change' : τ → τ)
    {table : List σ} {table' : List τ} (h : List.Forall₂ R table table') :
    (changeFirst p change table = none ∧ changeFirst p' change' table' = none) ∨
      ∃ a x b a' y b', table = a ++ x :: b ∧ table' = a' ++ y :: b' ∧ R x y ∧ p x = true ∧
        (∀ z ∈ a', p' z = false) ∧ List.Forall₂ R a a' ∧ List.Forall₂ R b b' ∧
        changeFirst p change table = some (a ++ change x :: b) ∧
        changeFirst p' change' table' = some (a' ++ change' y :: b') := by
  induction h with
  | nil => exact Or.inl ⟨rfl, rfl⟩
  | @cons x y table table' hxy hrest ih =>
      by_cases hx : p x = true
      · have hy : p' y = true := hp x y hxy ▸ hx
        refine Or.inr ⟨[], x, table, [], y, table', rfl, rfl, hxy, hx, by simp, .nil, hrest, ?_, ?_⟩
        · exact if_pos hx
        · exact if_pos hy
      · have hy : ¬ p' y = true := hp x y hxy ▸ hx
        rw [changeFirst, changeFirst, if_neg hx, if_neg hy]
        rcases ih with ⟨h₁, h₂⟩ | ⟨a, z, b, a', w, b', rfl, rfl, hzw, hz, ha', ha, hb, h₁, h₂⟩
        · exact Or.inl ⟨by rw [h₁]; rfl, by rw [h₂]; rfl⟩
        · refine Or.inr ⟨x :: a, z, b, y :: a', w, b', rfl, rfl, hzw, hz, ?_, .cons hxy ha, hb,
            by rw [h₁]; rfl, by rw [h₂]; rfl⟩
          exact List.forall_mem_cons.mpr ⟨by simpa using hy, ha'⟩

end Refinement

end FirstFit

end EDDTs.Library
