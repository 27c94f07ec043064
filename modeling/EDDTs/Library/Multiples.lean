import Mathlib.Algebra.Order.Ring.Int
import Mathlib.Tactic.Common
import Mathlib.Tactic.Ring

/-!
# The multiples of a number next to another

The least multiple from a number on, the greatest one up to it, and what the remainder that
truncates towards zero makes of them.
-/

namespace EDDTs.Library

/-- The least multiple of `m` from `x` on. -/
def ceilMultiple (m x : ℤ) : ℤ := x + -x % m

/-- The greatest multiple of `m` up to `x`. -/
def floorMultiple (m x : ℤ) : ℤ := x - x % m

section Multiples

variable {m x v : ℤ}

theorem dvd_ceilMultiple (m x : ℤ) : m ∣ ceilMultiple m x := by
  have h : ceilMultiple m x = -(-x - -x % m) := by unfold ceilMultiple; ring
  rw [h]
  exact Int.dvd_neg.mpr Int.dvd_self_sub_emod

theorem dvd_floorMultiple (m x : ℤ) : m ∣ floorMultiple m x := Int.dvd_self_sub_emod

theorem le_ceilMultiple (hm : 0 < m) (x : ℤ) : x ≤ ceilMultiple m x := by
  have h := Int.emod_nonneg (-x) hm.ne'
  unfold ceilMultiple
  omega

theorem ceilMultiple_lt (hm : 0 < m) (x : ℤ) : ceilMultiple m x < x + m := by
  have h := Int.emod_lt_of_pos (-x) hm
  unfold ceilMultiple
  omega

theorem floorMultiple_le (hm : 0 < m) (x : ℤ) : floorMultiple m x ≤ x := by
  have h := Int.emod_nonneg x hm.ne'
  unfold floorMultiple
  omega

theorem lt_floorMultiple (hm : 0 < m) (x : ℤ) : x < floorMultiple m x + m := by
  have h := Int.emod_lt_of_pos x hm
  unfold floorMultiple
  omega

/-- Two multiples that differ are `m` apart. -/
theorem add_le_of_dvd_of_lt {u : ℤ} (hu : m ∣ u) (hv : m ∣ v) (h : u < v) : u + m ≤ v := by
  have hle := Int.le_of_dvd (Int.sub_pos_of_lt h) (Int.dvd_sub hv hu)
  omega

/-- A multiple is not below `x` if and only if it is not below the least one from `x` on. -/
theorem ceilMultiple_le_iff (hm : 0 < m) (hv : m ∣ v) : ceilMultiple m x ≤ v ↔ x ≤ v := by
  refine ⟨(le_ceilMultiple hm x).trans, fun h => ?_⟩
  by_contra hlt
  have hstep := add_le_of_dvd_of_lt hv (dvd_ceilMultiple m x) (Int.not_le.mp hlt)
  have := ceilMultiple_lt hm x
  omega

theorem le_floorMultiple_iff (hm : 0 < m) (hv : m ∣ v) : v ≤ floorMultiple m x ↔ v ≤ x := by
  refine ⟨fun h => h.trans (floorMultiple_le hm x), fun h => ?_⟩
  by_contra hlt
  have hstep := add_le_of_dvd_of_lt (dvd_floorMultiple m x) hv (Int.not_le.mp hlt)
  have := lt_floorMultiple hm x
  omega

theorem ceilMultiple_of_dvd (h : m ∣ x) : ceilMultiple m x = x := by
  have hzero : -x % m = 0 := Int.emod_eq_zero_of_dvd (Int.dvd_neg.mpr h)
  rw [ceilMultiple, hzero, Int.add_zero]

theorem floorMultiple_of_dvd (h : m ∣ x) : floorMultiple m x = x := by
  have hzero : x % m = 0 := Int.emod_eq_zero_of_dvd h
  rw [floorMultiple, hzero, Int.sub_zero]

/-- A number that is no multiple stands between two. -/
theorem ceilMultiple_of_not_dvd (hm : 0 < m) (h : ¬ m ∣ x) :
    ceilMultiple m x = floorMultiple m x + m := by
  have hlt : floorMultiple m x < ceilMultiple m x := by
    by_contra hle
    have hfloor := floorMultiple_le hm x
    have hceil := le_ceilMultiple hm x
    have hx : floorMultiple m x = x := by omega
    exact h (hx ▸ dvd_floorMultiple m x)
  have hstep := add_le_of_dvd_of_lt (dvd_floorMultiple m x) (dvd_ceilMultiple m x) hlt
  have hnext : ceilMultiple m x ≤ floorMultiple m x + m :=
    (ceilMultiple_le_iff hm (Int.dvd_add (dvd_floorMultiple m x) (Int.dvd_refl m))).mpr
      (lt_floorMultiple hm x).le
  omega

/-- There is a multiple between two numbers if and only if the two next to them are in
order. -/
theorem exists_multiple_iff (hm : 0 < m) {lo hi : ℤ} :
    (∃ v, m ∣ v ∧ lo ≤ v ∧ v ≤ hi) ↔ ceilMultiple m lo ≤ floorMultiple m hi := by
  constructor
  · rintro ⟨v, hv, hlo, hhi⟩
    exact ((ceilMultiple_le_iff hm hv).mpr hlo).trans ((le_floorMultiple_iff hm hv).mpr hhi)
  · intro h
    exact ⟨ceilMultiple m lo, dvd_ceilMultiple m lo, le_ceilMultiple hm lo,
      h.trans (floorMultiple_le hm hi)⟩

/-- Taking the remainder off a number that is not negative rounds it down. -/
theorem sub_tmod_of_nonneg (hx : 0 ≤ x) : x - x.tmod m = floorMultiple m x := by
  rw [Int.tmod_eq_emod_of_nonneg hx, floorMultiple]

theorem tmod_of_neg (hx : x < 0) : x.tmod m = -(-x % m) := by
  rw [← Int.tmod_eq_emod_of_nonneg (by omega), Int.neg_tmod, Int.neg_neg]

/-- Taking the remainder off a negative number rounds it up. -/
theorem sub_tmod_of_neg (hx : x < 0) : x - x.tmod m = ceilMultiple m x := by
  rw [tmod_of_neg hx, ceilMultiple, Int.sub_neg]

theorem tmod_nonneg_iff (hm : 0 < m) : 0 ≤ x.tmod m ↔ 0 ≤ x ∨ m ∣ x := by
  by_cases hx : 0 ≤ x
  · exact iff_of_true (Int.tmod_nonneg m hx) (.inl hx)
  · have hnonneg := Int.emod_nonneg (-x) hm.ne'
    rw [or_iff_right hx, tmod_of_neg (Int.not_le.mp hx), ← Int.dvd_neg, Int.dvd_iff_emod_eq_zero]
    omega

/-- The remainder of a negative number that is no multiple. -/
theorem tmod_eq_neg_one_iff (hm : 0 < m) (hx : x < 0) (hdvd : ¬ m ∣ x) :
    x.tmod m = -1 ↔ m ∣ x + 1 := by
  have hpos : 0 < -x % m := by
    refine lt_of_le_of_ne (Int.emod_nonneg (-x) hm.ne') fun hzero => hdvd ?_
    exact Int.dvd_neg.mp (Int.dvd_of_emod_eq_zero hzero.symm)
  have hlt := Int.emod_lt_of_pos (-x) hm
  have hsplit : x + 1 = m * x.tdiv m + (x.tmod m + 1) := by
    have := Int.mul_tdiv_add_tmod x m
    omega
  have hflip : -(-(-x % m) + 1) = -x % m - 1 := by omega
  have hsmall : (-x % m - 1) % m = -x % m - 1 := Int.emod_eq_of_lt (by omega) (by omega)
  rw [hsplit, Int.dvd_add_right (Int.dvd_mul_right m _), tmod_of_neg hx, ← Int.dvd_neg, hflip,
    Int.dvd_iff_emod_eq_zero, hsmall]
  omega

end Multiples

end EDDTs.Library
