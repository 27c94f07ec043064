import Mathlib.Data.List.Range
import Mathlib.Tactic.Common

/-!
# Byte-addressed memory

Bytes are stored and loaded at addresses; words of 32 bits have their lowest byte first.
-/

namespace EDDTs.Library

abbrev Memory := ℕ → UInt8

namespace Memory

/-- The bytes `data` are stored from the address `a` on. -/
def store (m : Memory) (a : ℕ) (data : List UInt8) : Memory := fun i =>
  if a ≤ i then (data[i - a]?).getD (m i) else m i

/-- The `n` bytes from the address `a` on. -/
def load (m : Memory) (a n : ℕ) : List UInt8 := (List.range n).map fun i => m (a + i)

variable {m : Memory} {a b n : ℕ} {data : List UInt8}

@[simp] theorem length_load (m : Memory) (a n : ℕ) : (m.load a n).length = n := by
  simp [load]

/-- What was stored is loaded. -/
theorem load_store (h : n ≤ data.length) : (m.store a data).load a n = data.take n := by
  apply List.ext_getElem
  · rw [length_load, List.length_take, Nat.min_eq_left h]
  · intro i hi hi'
    rw [length_load] at hi
    simp [load, store, Nat.lt_of_lt_of_le hi h]

/-- What lies elsewhere is not changed. -/
theorem load_store_disjoint (h : b + n ≤ a ∨ a + data.length ≤ b) :
    (m.store a data).load b n = m.load b n := by
  apply List.map_congr_left
  intro i hi
  rw [List.mem_range] at hi
  unfold store
  split
  next hle =>
    rw [List.getElem?_eq_none (by omega)]
    rfl
  next => rfl

theorem load_add (m : Memory) (a n k : ℕ) :
    m.load a (n + k) = m.load a n ++ m.load (a + n) k := by
  simp only [load, List.range_add, List.map_append, List.map_map, List.append_cancel_left_eq]
  apply List.map_congr_left
  intro i _
  rw [Function.comp_apply, Nat.add_assoc]

/-- A byte among those that were loaded. -/
theorem getElem?_load {i : ℕ} (m : Memory) (a : ℕ) (h : i < n) :
    (m.load a n)[i]? = some (m (a + i)) := by
  simp [load, h]

/-- The four bytes of a word. -/
def bytesOfWord (x : UInt32) : List UInt8 :=
  [UInt8.ofNat x.toNat, UInt8.ofNat (x.toNat / 256), UInt8.ofNat (x.toNat / 65536),
    UInt8.ofNat (x.toNat / 16777216)]

/-- The word that begins at an address. -/
def word (m : Memory) (a : ℕ) : UInt32 :=
  UInt32.ofNat ((m a).toNat + 256 * (m (a + 1)).toNat + 65536 * (m (a + 2)).toNat +
    16777216 * (m (a + 3)).toNat)

def storeWord (m : Memory) (a : ℕ) (x : UInt32) : Memory := m.store a (bytesOfWord x)

theorem word_storeWord_same (m : Memory) (a : ℕ) (x : UInt32) : (m.storeWord a x).word a = x := by
  have hx := x.toNat_lt
  apply UInt32.toNat_inj.mp
  simp only [word, storeWord, store, bytesOfWord, Nat.le_refl, Nat.sub_self, Nat.le_add_right,
    Nat.add_sub_cancel_left, if_true, List.getElem?_cons_zero, List.getElem?_cons_succ,
    Option.getD_some, UInt8.toNat_ofNat', UInt32.toNat_ofNat']
  omega

theorem word_congr {m m' : Memory} (h : m.load a 4 = m'.load a 4) : m.word a = m'.word a := by
  have hbyte : ∀ i < 4, m (a + i) = m' (a + i) := by
    intro i hi
    have hget := congrArg (fun l : List UInt8 => l[i]?) h
    simpa [load, hi] using hget
  have h0 := hbyte 0 (by decide)
  rw [Nat.add_zero] at h0
  simp only [word, h0, hbyte 1 (by decide), hbyte 2 (by decide), hbyte 3 (by decide)]

/-- A word that lies elsewhere is not changed. -/
theorem word_store_disjoint (h : b + 4 ≤ a ∨ a + data.length ≤ b) :
    (m.store a data).word b = m.word b :=
  word_congr (load_store_disjoint h)

theorem word_storeWord_disjoint {x : UInt32} (h : b + 4 ≤ a ∨ a + 4 ≤ b) :
    (m.storeWord a x).word b = m.word b :=
  word_store_disjoint h

theorem load_storeWord_disjoint {x : UInt32} (h : b + n ≤ a ∨ a + 4 ≤ b) :
    (m.storeWord a x).load b n = m.load b n :=
  load_store_disjoint h

/-- `strcmp` of the string at an address with a string, when the two are equal. -/
def strcmpEq (m : Memory) : ℕ → List UInt8 → Bool
  | a, [] => m a = 0
  | a, c :: rest => m a = c && strcmpEq m (a + 1) rest

theorem strcmpEq_iff (m : Memory) (a : ℕ) (s : List UInt8) :
    m.strcmpEq a s = true ↔ m.load a (s.length + 1) = s ++ [0] := by
  induction s generalizing a with
  | nil => simp [strcmpEq, load]
  | cons c rest ih =>
      have hload : m.load a (rest.length + 1 + 1) = m a :: m.load (a + 1) (rest.length + 1) := by
        rw [load, List.range_succ_eq_map, List.map_cons, List.map_map]
        refine congrArg _ (List.map_congr_left fun i _ => ?_)
        rw [Function.comp_apply, Nat.add_assoc, Nat.add_comm 1]
      rw [strcmpEq, Bool.and_eq_true, ih, List.length_cons, hload, List.cons_append,
        List.cons.injEq, decide_eq_true_eq]

end Memory

end EDDTs.Library
