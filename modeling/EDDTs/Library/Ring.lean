import Mathlib.Data.List.Range
import Mathlib.Data.Nat.ModEq
import Mathlib.Logic.Function.Basic
import Mathlib.Tactic.Common

/-!
# A ring of cells between two indices

Cells are numbered from zero and the index after the last one is zero again. One index tells
where the contents begin and one where they end; the cell before the front is never occupied, so
that a full ring is not taken for an empty one.
-/

namespace EDDTs.Library.Ring

variable {α : Type*} {size : ℕ} {data : ℕ → α} {front back : ℕ} {xs ys : List α}

/-- The `n` cells from the index `i` on. -/
def read (size : ℕ) (data : ℕ → α) (i n : ℕ) : List α :=
  (List.range n).map fun k => data ((i + k) % size)

/-- The contents between the two indices. -/
def contents (size : ℕ) (data : ℕ → α) (front back : ℕ) : List α :=
  read size data front ((back + size - front) % size)

@[simp] theorem length_read (size : ℕ) (data : ℕ → α) (i n : ℕ) :
    (read size data i n).length = n := by
  simp [read]

@[simp] theorem read_zero (size : ℕ) (data : ℕ → α) (i : ℕ) : read size data i 0 = [] := rfl

theorem read_mod (size : ℕ) (data : ℕ → α) (i n : ℕ) :
    read size data (i % size) n = read size data i n := by
  simp [read]

theorem read_succ (size : ℕ) (data : ℕ → α) (i n : ℕ) :
    read size data i (n + 1) = read size data i n ++ [data ((i + n) % size)] := by
  simp [read, List.range_succ]

theorem read_add (size : ℕ) (data : ℕ → α) (i m n : ℕ) :
    read size data i (m + n) = read size data i m ++ read size data (i + m) n := by
  induction n with
  | zero => simp
  | succ n ih => rw [← Nat.add_assoc, read_succ, ih, read_succ, List.append_assoc, Nat.add_assoc]

/-- A write to a cell that comes later leaves the cells as they were. -/
theorem read_update {i k n : ℕ} (x : α) (hle : n ≤ k) (hlt : k < size) :
    read size (Function.update data ((i + k) % size) x) i n = read size data i n := by
  apply List.map_congr_left
  intro m hm
  rw [List.mem_range] at hm
  apply Function.update_of_ne
  intro heq
  have hmod : m ≡ k [MOD size] := Nat.ModEq.add_left_cancel' i heq
  have := hmod.eq_of_lt_of_lt (by omega) hlt
  omega

/-- The elements `xs` lie between the two indices. -/
structure Holds (size : ℕ) (data : ℕ → α) (front back : ℕ) (xs : List α) : Prop where
  front_lt : front < size
  length_lt : xs.length < size
  back_eq : back = (front + xs.length) % size
  read_eq : read size data front xs.length = xs

theorem holds_nil (hsize : 0 < size) (data : ℕ → α) : Holds size data 0 0 [] :=
  ⟨hsize, hsize, (Nat.zero_mod size).symm, rfl⟩

namespace Holds

theorem contents_eq (h : Holds size data front back xs) : contents size data front back = xs := by
  have hfront := h.front_lt
  have hlength := h.length_lt
  have hcount : (back + size - front) % size = xs.length := by
    rw [h.back_eq]
    rcases Nat.lt_or_ge (front + xs.length) size with hlt | hge
    · rw [Nat.mod_eq_of_lt hlt, show front + xs.length + size - front = xs.length + size by omega,
        Nat.add_mod_right, Nat.mod_eq_of_lt hlength]
    · rw [Nat.mod_eq_sub_mod hge,
        Nat.mod_eq_of_lt (show front + xs.length - size < size by omega),
        show front + xs.length - size + size - front = xs.length by omega,
        Nat.mod_eq_of_lt hlength]
  rw [contents, hcount, h.read_eq]

/-- The element behind the elements `xs`. -/
theorem get {x : α} (h : Holds size data front back (xs ++ x :: ys)) :
    data ((front + xs.length) % size) = x := by
  have hread := h.read_eq
  rw [List.length_append, List.length_cons, read_add] at hread
  have hrest := (List.append_inj hread (length_read _ _ _ _)).2
  rw [Nat.add_comm ys.length, read_add, read_succ] at hrest
  exact (List.cons.inj hrest).1

/-- A write behind the contents leaves them alone. -/
theorem update (h : Holds size data front back xs) {k : ℕ} (x : α)
    (hk : xs.length + k < size) :
    Holds size (Function.update data ((back + k) % size) x) front back xs where
  front_lt := h.front_lt
  length_lt := h.length_lt
  back_eq := h.back_eq
  read_eq := by
    rw [h.back_eq, Nat.mod_add_mod, Nat.add_assoc, read_update x (Nat.le_add_right _ k) hk,
      h.read_eq]

/-- The back moves over elements that were written behind the contents. -/
theorem extend (h : Holds size data front back xs) (hys : read size data back ys.length = ys)
    (hroom : xs.length + ys.length < size) :
    Holds size data front ((back + ys.length) % size) (xs ++ ys) where
  front_lt := h.front_lt
  length_lt := by rwa [List.length_append]
  back_eq := by rw [h.back_eq, Nat.mod_add_mod, List.length_append, Nat.add_assoc]
  read_eq := by
    rw [h.back_eq, read_mod] at hys
    rw [List.length_append, read_add, h.read_eq, hys]

/-- The front moves over elements that were read. -/
theorem advance (h : Holds size data front back (xs ++ ys)) :
    Holds size data ((front + xs.length) % size) back ys where
  front_lt := Nat.mod_lt _ (Nat.zero_lt_of_lt h.front_lt)
  length_lt := by
    have := h.length_lt
    rw [List.length_append] at this
    omega
  back_eq := by rw [h.back_eq, List.length_append, Nat.mod_add_mod, Nat.add_assoc]
  read_eq := by
    have hread := h.read_eq
    rw [List.length_append, read_add] at hread
    rw [read_mod]
    exact (List.append_inj hread (length_read _ _ _ _)).2

/-- The front seen from the back: the cells that are not occupied lie between. -/
theorem front_eq (h : Holds size data front back xs) :
    front = (back + (size - xs.length)) % size := by
  have hfront := h.front_lt
  have hlength := h.length_lt
  rw [h.back_eq, Nat.mod_add_mod, show front + xs.length + (size - xs.length) = front + size by
    omega, Nat.add_mod_right, Nat.mod_eq_of_lt hfront]

end Holds

/-- A writer that goes on from an index meets a limit only where it is. -/
theorem index_eq_iff {i j r : ℕ} (hj : j ≤ r) (hr : r < size + j) :
    (i + j) % size = (i + r) % size ↔ j = r := by
  constructor
  · intro heq
    have hmod : j ≡ r [MOD size] := Nat.ModEq.add_left_cancel' i heq
    have hdvd := (Nat.modEq_iff_dvd' hj).mp hmod
    have := Nat.eq_zero_of_dvd_of_lt hdvd (by omega)
    omega
  · rintro rfl
    rfl

end EDDTs.Library.Ring
