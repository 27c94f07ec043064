import Mathlib.Data.Nat.ModEq
import Mathlib.Tactic.Common

/-!
# Sums with an end-around carry

One's-complement addition of words: what is carried out of the high end is added at the low
end. The sum is the residue modulo `2 ^ w - 1`, with two zeros; it can be taken as a plain sum
whose upper half is added to the lower one in the end.
-/

namespace EDDTs.Library

/-- One's-complement addition of two words. -/
def onesAdd (w a b : ℕ) : ℕ := if a + b < 2 ^ w then a + b else a + b - (2 ^ w - 1)

/-- The one's-complement sum of words. -/
def onesSum (w : ℕ) (words : List ℕ) : ℕ := words.foldl (onesAdd w) 0

/-- The upper part is added to the lower one. -/
def foldCarry (w n : ℕ) : ℕ := n % 2 ^ w + n / 2 ^ w

/-- The word `r` is the residue of `n`, and it is 0 for 0 only. -/
structure IsResidue (w r n : ℕ) : Prop where
  lt : r < 2 ^ w
  modEq : r ≡ n [MOD 2 ^ w - 1]
  zero : r = 0 ↔ n = 0

section OnesComplement

variable {w a b n r r' : ℕ}

theorem two_pow_modEq_one (w : ℕ) : 2 ^ w ≡ 1 [MOD 2 ^ w - 1] :=
  ((Nat.modEq_iff_dvd' Nat.one_le_two_pow).mpr dvd_rfl).symm

theorem IsResidue.le_of_modEq (h : IsResidue w r n) (h' : IsResidue w r' n) (hle : r ≤ r') :
    r' ≤ r := by
  have hdvd : 2 ^ w - 1 ∣ r' - r := (Nat.modEq_iff_dvd' hle).mp (h.modEq.trans h'.modEq.symm)
  have hlt := h'.lt
  have hzero : r = 0 ↔ r' = 0 := h.zero.trans h'.zero.symm
  by_contra hne
  have hsub : r' - r = 0 := Nat.eq_zero_of_dvd_of_lt hdvd (by omega)
  omega

/-- There is one such word. -/
theorem IsResidue.unique (h : IsResidue w r n) (h' : IsResidue w r' n) : r = r' := by
  rcases le_total r r' with hle | hle
  · exact le_antisymm hle (h.le_of_modEq h' hle)
  · exact le_antisymm (h'.le_of_modEq h hle) hle

theorem IsResidue.onesAdd (h : IsResidue w r n) (hb : b < 2 ^ w) :
    IsResidue w (onesAdd w r b) (n + b) := by
  have hlt := h.lt
  have hzero := h.zero
  have hsum : r + b ≡ n + b [MOD 2 ^ w - 1] := h.modEq.add_right b
  unfold Library.onesAdd
  split_ifs with hcarry
  · exact ⟨hcarry, hsum, by omega⟩
  · have hle : 2 ^ w - 1 ≤ r + b := by omega
    have hsub : r + b - (2 ^ w - 1) ≡ r + b [MOD 2 ^ w - 1] :=
      (Nat.modEq_iff_dvd' (Nat.sub_le _ _)).mpr ⟨1, by omega⟩
    exact ⟨by omega, hsub.trans hsum, by omega⟩

theorem isResidue_foldl {words : List ℕ} (hwords : ∀ x ∈ words, x < 2 ^ w)
    (h : IsResidue w r n) :
    IsResidue w (words.foldl (onesAdd w) r) (n + words.sum) := by
  induction words generalizing r n with
  | nil => exact h
  | cons x words ih =>
      rw [List.foldl_cons, List.sum_cons, ← Nat.add_assoc]
      exact ih (fun y hy => hwords y (List.mem_cons_of_mem x hy))
        (h.onesAdd (hwords x List.mem_cons_self))

/-- The one's-complement sum is the residue of the plain sum. -/
theorem isResidue_onesSum {words : List ℕ} (hwords : ∀ x ∈ words, x < 2 ^ w) :
    IsResidue w (onesSum w words) words.sum := by
  have hzero : IsResidue w 0 0 := ⟨Nat.two_pow_pos w, rfl, Iff.rfl⟩
  simpa only [Nat.zero_add, onesSum] using isResidue_foldl hwords hzero

theorem foldCarry_modEq (w n : ℕ) : foldCarry w n ≡ n [MOD 2 ^ w - 1] := by
  have hmul : n / 2 ^ w * 2 ^ w ≡ n / 2 ^ w * 1 [MOD 2 ^ w - 1] :=
    (two_pow_modEq_one w).mul_left (n / 2 ^ w)
  have hsum := (hmul.add_left (n % 2 ^ w)).symm
  rwa [Nat.mul_one, Nat.mul_comm, Nat.mod_add_div] at hsum

theorem foldCarry_eq_zero_iff : foldCarry w n = 0 ↔ n = 0 := by
  constructor
  · intro h
    obtain ⟨hmod, hdiv⟩ := Nat.add_eq_zero_iff.mp h
    rw [← Nat.mod_add_div n (2 ^ w), hmod, hdiv, Nat.mul_zero]
  · rintro rfl
    simp [foldCarry]

/-- Two words are folded to one in two steps. -/
theorem foldCarry_foldCarry_lt (h : n < 2 ^ w * 2 ^ w) : foldCarry w (foldCarry w n) < 2 ^ w := by
  have hpos : 0 < 2 ^ w := Nat.two_pow_pos w
  have hlow : n % 2 ^ w < 2 ^ w := Nat.mod_lt n hpos
  have hhigh : n / 2 ^ w < 2 ^ w := Nat.div_lt_of_lt_mul h
  have hfirst : foldCarry w n = n % 2 ^ w + n / 2 ^ w := rfl
  generalize foldCarry w n = m at *
  unfold foldCarry
  rcases Nat.lt_or_ge m (2 ^ w) with hlt | hge
  · rw [Nat.mod_eq_of_lt hlt, Nat.div_eq_of_lt hlt]
    exact hlt
  · have hdiv : m / 2 ^ w = 1 := Nat.div_eq_of_lt_le (by omega) (by omega)
    have hmod := Nat.mod_add_div m (2 ^ w)
    rw [hdiv, Nat.mul_one] at hmod
    omega

/-- A plain sum of two words, folded twice, is a one's-complement sum. -/
theorem isResidue_foldCarry (h : n < 2 ^ w * 2 ^ w) :
    IsResidue w (foldCarry w (foldCarry w n)) n where
  lt := foldCarry_foldCarry_lt h
  modEq := (foldCarry_modEq w _).trans (foldCarry_modEq w n)
  zero := foldCarry_eq_zero_iff.trans foldCarry_eq_zero_iff

/-- The complement makes the sum the other zero. -/
theorem IsResidue.add_complement (h : IsResidue w r n) :
    IsResidue w (2 ^ w - 1) (n + (2 ^ w - 1 - r)) := by
  have hlt := h.lt
  have hzero := h.zero
  have hsum := h.modEq.add_right (2 ^ w - 1 - r)
  rw [Nat.add_sub_cancel' (by omega)] at hsum
  exact ⟨by omega, hsum, by omega⟩

end OnesComplement

end EDDTs.Library
