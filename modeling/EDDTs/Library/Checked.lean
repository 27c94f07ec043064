import Mathlib.Algebra.Order.Ring.Int
import Mathlib.Tactic.Common

/-!
# Signed arithmetic that may overflow

The integers of a signed type, and the value of an operation in it: none where the exact
result is not one of them, since an overflow has no defined result.
-/

namespace EDDTs.Library

/-- The values of a signed type with `w` bits. -/
def Fits (w : ℕ) (x : ℤ) : Prop := -2 ^ (w - 1) ≤ x ∧ x < 2 ^ (w - 1)

instance (w : ℕ) (x : ℤ) : Decidable (Fits w x) := inferInstanceAs (Decidable (_ ∧ _))

/-- The result of an operation whose exact result is `x`. -/
def checked (w : ℕ) (x : ℤ) : Option ℤ := if Fits w x then some x else none

section Checked

variable {w : ℕ} {x y : ℤ}

theorem checked_of_fits (h : Fits w x) : checked w x = some x := if_pos h

theorem checked_eq_some_iff : checked w x = some y ↔ Fits w x ∧ x = y := by
  by_cases h : Fits w x <;> simp [checked, h]

/-- What is reached from a checked result. -/
theorem checked_bind_eq_some_iff {α : Type*} {f : ℤ → Option α} {a : α} :
    (checked w x).bind f = some a ↔ Fits w x ∧ f x = some a := by
  by_cases h : Fits w x <;> simp [checked, h]

theorem isSome_checked : (checked w x).isSome = true ↔ Fits w x := by
  by_cases h : Fits w x <;> simp [checked, h]

theorem isSome_checked_bind {α : Type*} {f : ℤ → Option α} :
    ((checked w x).bind f).isSome = true ↔ Fits w x ∧ (f x).isSome = true := by
  by_cases h : Fits w x <;> simp [checked, h]

/-- The numbers between two values of a type are values of the type. -/
theorem Fits.of_le_of_le {z : ℤ} (hx : Fits w x) (hz : Fits w z) (hxy : x ≤ y) (hyz : y ≤ z) :
    Fits w y :=
  ⟨hx.1.trans hxy, hyz.trans_lt hz.2⟩

theorem Fits.mono {w' : ℕ} (hw : w ≤ w') (h : Fits w x) : Fits w' x := by
  have hpow : (2 : ℤ) ^ (w - 1) ≤ 2 ^ (w' - 1) := pow_le_pow_right₀ (by decide) (by omega)
  unfold Fits at *
  omega

end Checked

end EDDTs.Library
