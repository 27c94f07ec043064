import EDDTs.LtpLib.RandomRange
import EDDTs.LtpLib.Timer

/-!
# The conversions of `tst_timer.h` on 32-bit and on 64-bit targets

The functions return a `long long`, but they multiply and add in the type of `tv_sec`, a `long`
of the target; what is returned is widened afterwards.
-/

namespace EDDTs.LtpLib.OnTarget

open Library

/-- `struct timeval` -/
structure Timeval where
  tvSec : ℤ
  tvUsec : ℤ
  deriving DecidableEq, Repr

/-- The microseconds that a timeval denotes. -/
def Timeval.us (t : Timeval) : ℤ := t.tvSec * 1000000 + t.tvUsec

/-- A timespec whose members are values of the target's types, with nanoseconds below a
second. -/
structure NormalisedSpec (m : DataModel) (t : Timespec) : Prop where
  sec_fits : Fits m.longBits t.tvSec
  nsec_nonneg : 0 ≤ t.tvNsec
  nsec_lt : t.tvNsec < 1000000000

structure NormalisedVal (m : DataModel) (t : Timeval) : Prop where
  sec_fits : Fits m.longBits t.tvSec
  usec_nonneg : 0 ≤ t.tvUsec
  usec_lt : t.tvUsec < 1000000

/-- Seconds in a smaller unit, with a part of a second that is in this unit. -/
def exactUnits (m : DataModel) (perSec sec sub : ℤ) : Option ℤ := do
  let whole ← checked m.longBits (sec * perSec)
  checked m.longBits (whole + sub)

/-- Seconds in a smaller unit, with a part of a second that is rounded to it. -/
def roundedUnits (m : DataModel) (perSec half unit sec sub : ℤ) : Option ℤ := do
  let whole ← checked m.longBits (sec * perSec)
  let part ← checked m.longBits (sub + half)
  checked m.longBits (whole + part.tdiv unit)

/-- `tst_timespec_to_ns` -/
def tstTimespecToNs (m : DataModel) (t : Timespec) : Option ℤ :=
  exactUnits m 1000000000 t.tvSec t.tvNsec

/-- `tst_timespec_to_us` -/
def tstTimespecToUs (m : DataModel) (t : Timespec) : Option ℤ :=
  roundedUnits m 1000000 500 1000 t.tvSec t.tvNsec

/-- `tst_timespec_to_ms` -/
def tstTimespecToMs (m : DataModel) (t : Timespec) : Option ℤ :=
  roundedUnits m 1000 500000 1000000 t.tvSec t.tvNsec

/-- `tst_timeval_to_us` -/
def tstTimevalToUs (m : DataModel) (t : Timeval) : Option ℤ :=
  exactUnits m 1000000 t.tvSec t.tvUsec

/-- `tst_timeval_to_ms` -/
def tstTimevalToMs (m : DataModel) (t : Timeval) : Option ℤ :=
  roundedUnits m 1000 500 1000 t.tvSec t.tvUsec

section Units

variable {m : DataModel} {perSec half unit sec sub : ℤ}

theorem exactUnits_eq_some_iff :
    exactUnits m perSec sec sub = some (sec * perSec + sub) ↔
      Fits m.longBits (sec * perSec) ∧ Fits m.longBits (sec * perSec + sub) := by
  simp only [exactUnits, Option.bind_eq_bind, checked_bind_eq_some_iff, checked_eq_some_iff,
    and_true]

/-- Half a unit more than a part of a second is a value of `long`. -/
theorem fits_sub_add_half (hsub : 0 ≤ sub) (hlt : sub < 1000000000) (hhalf : 0 ≤ half)
    (hle : half ≤ 1000000) : Fits m.longBits (sub + half) := by
  have hnarrow : Fits 32 (sub + half) := by
    unfold Fits
    omega
  exact hnarrow.mono (by cases m <;> decide)

/-- The rounded conversions return the nearest count exactly when the product and the sum are
values of `long`. -/
theorem roundedUnits_iff (hsub : 0 ≤ sub) (hlt : sub < 1000000000) (hhalf : 2 * half = unit)
    (hle : half ≤ 1000000) (hunit : 0 < unit) :
    (∃ n, roundedUnits m perSec half unit sec sub = some n ∧
      RoundsHalfUp unit (sec * perSec * unit + sub) n) ↔
    Fits m.longBits (sec * perSec) ∧
      Fits m.longBits (sec * perSec + (sub + half).tdiv unit) := by
  have hpart : Fits m.longBits (sub + half) := fits_sub_add_half hsub hlt (by omega) hle
  simp only [roundedUnits, Option.bind_eq_bind, checked_bind_eq_some_iff, checked_eq_some_iff]
  constructor
  · rintro ⟨n, ⟨hwhole, -, hsum, -⟩, -⟩
    exact ⟨hwhole, hsum⟩
  · rintro ⟨hwhole, hsum⟩
    exact ⟨_, ⟨hwhole, hpart, hsum, rfl⟩, roundsHalfUp_tdiv (sec * perSec) hsub hhalf hunit⟩

end Units

/-- Each conversion returns the exact or the nearest count exactly when the product and the sum
that it forms are values of the target's `long`. -/
theorem conversions_iff (m : DataModel) (t : Timespec) (v : Timeval) (ht : NormalisedSpec m t)
    (hv : NormalisedVal m v) :
    (tstTimespecToNs m t = some t.ns ↔
      Fits m.longBits (t.tvSec * 1000000000) ∧ Fits m.longBits t.ns) ∧
    ((∃ n, tstTimespecToUs m t = some n ∧ RoundsHalfUp 1000 t.ns n) ↔
      Fits m.longBits (t.tvSec * 1000000) ∧
        Fits m.longBits (t.tvSec * 1000000 + (t.tvNsec + 500).tdiv 1000)) ∧
    ((∃ n, tstTimespecToMs m t = some n ∧ RoundsHalfUp 1000000 t.ns n) ↔
      Fits m.longBits (t.tvSec * 1000) ∧
        Fits m.longBits (t.tvSec * 1000 + (t.tvNsec + 500000).tdiv 1000000)) ∧
    (tstTimevalToUs m v = some v.us ↔
      Fits m.longBits (v.tvSec * 1000000) ∧ Fits m.longBits v.us) ∧
    ((∃ n, tstTimevalToMs m v = some n ∧ RoundsHalfUp 1000 v.us n) ↔
      Fits m.longBits (v.tvSec * 1000) ∧
        Fits m.longBits (v.tvSec * 1000 + (v.tvUsec + 500).tdiv 1000)) := by
  have hns : t.ns = t.tvSec * 1000000 * 1000 + t.tvNsec := by
    simp only [Timespec.ns]
    omega
  have hns' : t.ns = t.tvSec * 1000 * 1000000 + t.tvNsec := by
    simp only [Timespec.ns]
    omega
  have hus : v.us = v.tvSec * 1000 * 1000 + v.tvUsec := by
    simp only [Timeval.us]
    omega
  have husec : v.tvUsec < 1000000000 := hv.usec_lt.trans (by decide)
  refine ⟨exactUnits_eq_some_iff, ?_, ?_, exactUnits_eq_some_iff, ?_⟩
  · rw [hns]
    exact roundedUnits_iff ht.nsec_nonneg ht.nsec_lt rfl (by decide) (by decide)
  · rw [hns']
    exact roundedUnits_iff ht.nsec_nonneg ht.nsec_lt rfl (by decide) (by decide)
  · rw [hus]
    exact roundedUnits_iff hv.usec_nonneg husec rfl (by decide) (by decide)

/-- A timespec of a year's seconds, in milliseconds on a 64-bit target. -/
theorem conversions_iff_year :
    ∃ n, tstTimespecToMs .lp64 ⟨31536000, 999500000⟩ = some n ∧
      RoundsHalfUp 1000000 (Timespec.ns ⟨31536000, 999500000⟩) n :=
  (conversions_iff .lp64 ⟨31536000, 999500000⟩ ⟨0, 0⟩ ⟨by decide, by decide, by decide⟩
    ⟨by decide, by decide, by decide⟩).2.2.1.mpr ⟨by decide, by decide⟩

/-- Three seconds are a normalised timespec of a 32-bit target, and their nanoseconds a
`long long`, but the product is not a value of `long`; wrapped around it would be negative. -/
theorem three_seconds_ilp32 :
    NormalisedSpec .ilp32 ⟨3, 0⟩ ∧ Fits 64 (Timespec.ns ⟨3, 0⟩) ∧
      tstTimespecToNs .ilp32 ⟨3, 0⟩ = none ∧
        (3 * 1000000000 : ℤ).bmod (2 ^ 32) = -1294967296 :=
  ⟨⟨by decide, by decide, by decide⟩, by decide, by decide, by decide⟩

end EDDTs.LtpLib.OnTarget
