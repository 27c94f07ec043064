import Mathlib.Algebra.Order.Group.Unbundled.Int
import Mathlib.Tactic.Ring
import EDDTs.Library.Checked

/-!
# The timespec functions of `tst_timer.h`

Sums and differences of timespecs, and their conversions, in the 64 bits of `time_t`,
`long` and `long long`. A timespec denotes a number of nanoseconds.
-/

namespace EDDTs.LtpLib

open Library

/-- `struct timespec` -/
structure Timespec where
  tvSec : ℤ
  tvNsec : ℤ
  deriving DecidableEq, Repr

namespace Timespec

/-- The nanoseconds that a timespec denotes. -/
def ns (t : Timespec) : ℤ := t.tvSec * 1000000000 + t.tvNsec

structure Normalised (t : Timespec) : Prop where
  sec_fits : Fits 64 t.tvSec
  nsec_nonneg : 0 ≤ t.tvNsec
  nsec_lt : t.tvNsec < 1000000000

end Timespec

/-! ### The functions -/

/-- `tst_timespec_to_ns` -/
def tstTimespecToNs (t : Timespec) : Option ℤ := do
  let sec ← checked 64 (t.tvSec * 1000000000)
  checked 64 (sec + t.tvNsec)

/-- A timespec in units of which there are `perSec` in a second, from nanoseconds that are
rounded by adding half a unit. -/
def timespecTo (perSec half unit : ℤ) (t : Timespec) : Option ℤ := do
  let sec ← checked 64 (t.tvSec * perSec)
  let nsec ← checked 64 (t.tvNsec + half)
  checked 64 (sec + nsec.tdiv unit)

/-- `tst_timespec_to_us` -/
def tstTimespecToUs : Timespec → Option ℤ := timespecTo 1000000 500 1000

/-- `tst_timespec_to_ms` -/
def tstTimespecToMs : Timespec → Option ℤ := timespecTo 1000 500000 1000000

/-- `tst_timespec_lt` -/
def tstTimespecLt (t1 t2 : Timespec) : Bool :=
  if t1.tvSec = t2.tvSec then t1.tvNsec < t2.tvNsec else t1.tvSec < t2.tvSec

/-- The carry at the end of the two additions. -/
def carry (t : Timespec) : Option Timespec :=
  if 1000000000 ≤ t.tvNsec then do
    let sec ← checked 64 (t.tvSec + 1)
    let nsec ← checked 64 (t.tvNsec - 1000000000)
    return ⟨sec, nsec⟩
  else some t

/-- `tst_timespec_add_us` -/
def tstTimespecAddUs (t : Timespec) (us : ℤ) : Option Timespec := do
  let sec ← checked 64 (t.tvSec + us.tdiv 1000000)
  let nsec ← checked 64 (t.tvNsec + us.tmod 1000000 * 1000)
  carry ⟨sec, nsec⟩

/-- `tst_timespec_add` -/
def tstTimespecAdd (t1 t2 : Timespec) : Option Timespec := do
  let sec ← checked 64 (t1.tvSec + t2.tvSec)
  let nsec ← checked 64 (t1.tvNsec + t2.tvNsec)
  carry ⟨sec, nsec⟩

/-- `tst_timespec_sub_us` -/
def tstTimespecSubUs (t : Timespec) (us : ℤ) : Option Timespec := do
  let sec ← checked 64 (t.tvSec - us.tdiv 1000000)
  let nsec ← checked 64 (t.tvNsec - us.tmod 1000000 * 1000)
  if nsec < 0 then do
    let sec ← checked 64 (sec - 1)
    let nsec ← checked 64 (nsec + 1000000000)
    return ⟨sec, nsec⟩
  else return ⟨sec, nsec⟩

/-- `tst_timespec_diff` -/
def tstTimespecDiff (t1 t2 : Timespec) : Option Timespec := do
  let sec ← checked 64 (t1.tvSec - t2.tvSec)
  if t1.tvNsec < t2.tvNsec then do
    let sec ← checked 64 (sec - 1)
    let less ← checked 64 (t2.tvNsec - t1.tvNsec)
    let nsec ← checked 64 (1000000000 - less)
    return ⟨sec, nsec⟩
  else do
    let nsec ← checked 64 (t1.tvNsec - t2.tvNsec)
    return ⟨sec, nsec⟩

/-- `tst_timespec_diff_ns` -/
def tstTimespecDiffNs (t1 t2 : Timespec) : Option ℤ := do
  let nsec ← checked 64 (t1.tvNsec - t2.tvNsec)
  let sec ← checked 64 (t1.tvSec - t2.tvSec)
  let whole ← checked 64 (1000000000 * sec)
  checked 64 (nsec + whole)

/-- `tst_timespec_diff_us` -/
def tstTimespecDiffUs (t1 t2 : Timespec) : Option ℤ := do tstTimespecToUs (← tstTimespecDiff t1 t2)

/-- `tst_timespec_diff_ms` -/
def tstTimespecDiffMs (t1 t2 : Timespec) : Option ℤ := do tstTimespecToMs (← tstTimespecDiff t1 t2)

/-- `tst_timespec_abs_diff` -/
def tstTimespecAbsDiff (t1 t2 : Timespec) : Option Timespec :=
  if tstTimespecLt t1 t2 then tstTimespecDiff t2 t1 else tstTimespecDiff t1 t2

/-! ### What they denote -/

/-- `n` units are `x` nanoseconds rounded to the nearest unit, halves upward:
`n - 1/2 ≤ x / unit < n + 1/2`. -/
def RoundsHalfUp (unit x n : ℤ) : Prop := 2 * n * unit - unit ≤ 2 * x ∧ 2 * x < 2 * n * unit + unit

section Values

open Timespec

variable {t t1 t2 r : Timespec} {us n : ℤ}

theorem tstTimespecToNs_eq_some (h : tstTimespecToNs t = some n) : n = t.ns := by
  simp only [tstTimespecToNs, Option.bind_eq_bind, checked_bind_eq_some_iff,
    checked_eq_some_iff] at h
  exact h.2.2.symm

theorem carry_eq_some (h : carry t = some r) (hsec : Fits 64 t.tvSec) (hnsec : 0 ≤ t.tvNsec)
    (hlt : t.tvNsec < 2000000000) : r.Normalised ∧ r.ns = t.ns := by
  unfold carry at h
  split_ifs at h with hcarry
  · simp only [Option.bind_eq_bind, checked_bind_eq_some_iff, Option.pure_def,
      Option.some.injEq] at h
    obtain ⟨hfits, -, rfl⟩ := h
    refine ⟨⟨hfits, ?_, ?_⟩, ?_⟩
    all_goals simp only [ns]; omega
  · obtain rfl := Option.some.inj h
    exact ⟨⟨hsec, hnsec, by omega⟩, rfl⟩

theorem tstTimespecAdd_eq_some (h1 : t1.Normalised) (h2 : t2.Normalised)
    (h : tstTimespecAdd t1 t2 = some r) : r.Normalised ∧ r.ns = t1.ns + t2.ns := by
  simp only [tstTimespecAdd, Option.bind_eq_bind, checked_bind_eq_some_iff] at h
  obtain ⟨hsec, -, hcarry⟩ := h
  have hnsec : 0 ≤ t1.tvNsec + t2.tvNsec ∧ t1.tvNsec + t2.tvNsec < 2000000000 := by
    obtain ⟨-, hlow1, hhigh1⟩ := h1
    obtain ⟨-, hlow2, hhigh2⟩ := h2
    omega
  obtain ⟨hnorm, hns⟩ := carry_eq_some hcarry hsec hnsec.1 hnsec.2
  refine ⟨hnorm, ?_⟩
  rw [hns]
  simp only [ns]
  ring

/-- The microseconds behind the whole seconds, in nanoseconds. -/
theorem tmod_bounds (hus : 0 ≤ us) :
    0 ≤ us.tmod 1000000 * 1000 ∧ us.tmod 1000000 * 1000 < 1000000000 ∧
      us.tdiv 1000000 * 1000000000 + us.tmod 1000000 * 1000 = 1000 * us := by
  have hdiv := Int.mul_tdiv_add_tmod us 1000000
  have hnonneg := Int.tmod_nonneg 1000000 hus
  have hlt := Int.tmod_lt_of_pos us (show (0 : ℤ) < 1000000 by decide)
  omega

theorem tstTimespecAddUs_eq_some (ht : t.Normalised) (hus : 0 ≤ us)
    (h : tstTimespecAddUs t us = some r) : r.Normalised ∧ r.ns = t.ns + 1000 * us := by
  simp only [tstTimespecAddUs, Option.bind_eq_bind, checked_bind_eq_some_iff] at h
  obtain ⟨hsec, -, hcarry⟩ := h
  obtain ⟨hnonneg, hlt, hvalue⟩ := tmod_bounds hus
  have hlow := ht.nsec_nonneg
  have hhigh := ht.nsec_lt
  obtain ⟨hnorm, hns⟩ := carry_eq_some hcarry hsec (by simp only; omega) (by simp only; omega)
  refine ⟨hnorm, ?_⟩
  rw [hns]
  simp only [ns]
  omega

theorem tstTimespecSubUs_eq_some (ht : t.Normalised) (hus : 0 ≤ us)
    (h : tstTimespecSubUs t us = some r) : r.Normalised ∧ r.ns = t.ns - 1000 * us := by
  simp only [tstTimespecSubUs, Option.bind_eq_bind, checked_bind_eq_some_iff] at h
  obtain ⟨hsec, -, h⟩ := h
  obtain ⟨hnonneg, hlt, hvalue⟩ := tmod_bounds hus
  have hlow := ht.nsec_nonneg
  have hhigh := ht.nsec_lt
  split_ifs at h with hborrow
  · simp only [checked_bind_eq_some_iff, Option.pure_def, Option.some.injEq] at h
    obtain ⟨hfits, -, rfl⟩ := h
    refine ⟨⟨hfits, ?_, ?_⟩, ?_⟩
    all_goals simp only [ns]; omega
  · obtain rfl := Option.some.inj h
    refine ⟨⟨hsec, ?_, ?_⟩, ?_⟩
    all_goals simp only [ns]; omega

theorem tstTimespecDiff_eq_some (h1 : t1.Normalised) (h2 : t2.Normalised)
    (h : tstTimespecDiff t1 t2 = some r) : r.Normalised ∧ r.ns = t1.ns - t2.ns := by
  simp only [tstTimespecDiff, Option.bind_eq_bind, checked_bind_eq_some_iff] at h
  obtain ⟨hsec, h⟩ := h
  obtain ⟨-, hlow1, hhigh1⟩ := h1
  obtain ⟨-, hlow2, hhigh2⟩ := h2
  split_ifs at h with hborrow
  · simp only [checked_bind_eq_some_iff, Option.pure_def, Option.some.injEq] at h
    obtain ⟨hfits, -, -, rfl⟩ := h
    refine ⟨⟨hfits, ?_, ?_⟩, ?_⟩
    all_goals simp only [ns]; omega
  · simp only [checked_bind_eq_some_iff, Option.pure_def, Option.some.injEq] at h
    obtain ⟨-, rfl⟩ := h
    refine ⟨⟨hsec, ?_, ?_⟩, ?_⟩
    all_goals simp only [ns]; omega

theorem tstTimespecDiffNs_eq_some (h : tstTimespecDiffNs t1 t2 = some n) : n = t1.ns - t2.ns := by
  simp only [tstTimespecDiffNs, Option.bind_eq_bind, checked_bind_eq_some_iff,
    checked_eq_some_iff] at h
  obtain ⟨-, -, -, -, rfl⟩ := h
  simp only [ns]
  ring

/-- The order of the pairs is the order of what they denote. -/
theorem tstTimespecLt_iff (h1 : t1.Normalised) (h2 : t2.Normalised) :
    tstTimespecLt t1 t2 = true ↔ t1.ns < t2.ns := by
  obtain ⟨-, hlow1, hhigh1⟩ := h1
  obtain ⟨-, hlow2, hhigh2⟩ := h2
  unfold tstTimespecLt
  simp only [ns]
  split_ifs with hsec
  · rw [decide_eq_true_iff]
    omega
  · rw [decide_eq_true_iff]
    omega

theorem tstTimespecAbsDiff_eq_some (h1 : t1.Normalised) (h2 : t2.Normalised)
    (h : tstTimespecAbsDiff t1 t2 = some r) : r.Normalised ∧ r.ns = |t1.ns - t2.ns| := by
  have hlt := tstTimespecLt_iff h1 h2
  unfold tstTimespecAbsDiff at h
  split_ifs at h with hcase
  · obtain ⟨hnorm, hns⟩ := tstTimespecDiff_eq_some h2 h1 h
    refine ⟨hnorm, ?_⟩
    rw [hns, abs_of_neg (sub_neg.mpr (hlt.mp hcase)), neg_sub]
  · obtain ⟨hnorm, hns⟩ := tstTimespecDiff_eq_some h1 h2 h
    refine ⟨hnorm, ?_⟩
    have hge : t2.ns ≤ t1.ns := not_lt.mp fun hless => hcase (hlt.mpr hless)
    rw [hns, abs_of_nonneg (sub_nonneg.mpr hge)]

/-- Adding half a unit and cutting off rounds to the nearest unit, as long as what is cut is not
negative. -/
theorem roundsHalfUp_tdiv {half unit sub : ℤ} (whole : ℤ) (hsub : 0 ≤ sub) (hhalf : 2 * half = unit)
    (hunit : 0 < unit) :
    RoundsHalfUp unit (whole * unit + sub) (whole + (sub + half).tdiv unit) := by
  have hdiv := Int.mul_tdiv_add_tmod (sub + half) unit
  have hlow := Int.tmod_nonneg unit (show 0 ≤ sub + half by omega)
  have hhigh := Int.tmod_lt_of_pos (sub + half) hunit
  have hvalue : (whole + (sub + half).tdiv unit) * unit =
      whole * unit + sub + half - (sub + half).tmod unit := by
    calc
      (whole + (sub + half).tdiv unit) * unit =
          whole * unit + unit * (sub + half).tdiv unit := by ring
      _ = whole * unit + sub + half - (sub + half).tmod unit := by omega
  constructor
  all_goals rw [mul_assoc, hvalue]; omega

theorem timespecTo_eq_some {perSec half unit : ℤ} (ht : t.Normalised) (hhalf : 2 * half = unit)
    (hunit : 0 < unit) (hper : perSec * unit = 1000000000)
    (h : timespecTo perSec half unit t = some n) : RoundsHalfUp unit t.ns n := by
  simp only [timespecTo, Option.bind_eq_bind, checked_bind_eq_some_iff, checked_eq_some_iff] at h
  obtain ⟨-, -, -, rfl⟩ := h
  rw [ns, ← hper, ← mul_assoc]
  exact roundsHalfUp_tdiv (t.tvSec * perSec) ht.nsec_nonneg hhalf hunit

/-- A number of nanoseconds has one normalised timespec. -/
theorem eq_of_ns_eq (h1 : t1.Normalised) (h2 : t2.Normalised) (h : t1.ns = t2.ns) : t1 = t2 := by
  obtain ⟨sec1, nsec1⟩ := t1
  obtain ⟨sec2, nsec2⟩ := t2
  obtain ⟨-, hlow1, hhigh1⟩ := h1
  obtain ⟨-, hlow2, hhigh2⟩ := h2
  simp only [ns] at h hlow1 hhigh1 hlow2 hhigh2
  obtain ⟨rfl, rfl⟩ : sec1 = sec2 ∧ nsec1 = nsec2 := by omega
  rfl

end Values

/-! ### When they do not overflow -/

section Defined

variable {t r : Timespec} {us : ℤ}

theorem isSome_carry : (carry t).isSome = true ↔ (1000000000 ≤ t.tvNsec →
    Fits 64 (t.tvSec + 1) ∧ Fits 64 (t.tvNsec - 1000000000)) := by
  unfold carry
  split_ifs with hcarry <;> simp [hcarry, isSome_checked_bind]

theorem isSome_tstTimespecSubUs (ht : t.Normalised) (hus : 0 ≤ us)
    (hsec : Fits 64 (t.tvSec - us.tdiv 1000000))
    (hborrow : t.tvNsec < us.tmod 1000000 * 1000 → Fits 64 (t.tvSec - us.tdiv 1000000 - 1)) :
    (tstTimespecSubUs t us).isSome = true := by
  obtain ⟨hnonneg, hlt, -⟩ := tmod_bounds hus
  obtain ⟨-, hlow, hhigh⟩ := ht
  simp only [tstTimespecSubUs, Option.bind_eq_bind, isSome_checked_bind]
  refine ⟨hsec, by unfold Fits; omega, ?_⟩
  split_ifs with hneg
  · simp only [isSome_checked_bind]
    exact ⟨hborrow (by omega), by unfold Fits; omega, rfl⟩
  · rfl

/-- Subtracting the microseconds that were added gives the timespec back, and does not
overflow. -/
theorem tstTimespecSubUs_addUs (ht : t.Normalised) (hus : 0 ≤ us)
    (h : tstTimespecAddUs t us = some r) : tstTimespecSubUs r us = some t := by
  obtain ⟨hnorm, hns⟩ := tstTimespecAddUs_eq_some ht hus h
  obtain ⟨hnonneg, hlt, hvalue⟩ := tmod_bounds hus
  have hdiv : 0 ≤ us.tdiv 1000000 := Int.tdiv_nonneg hus (by decide)
  obtain ⟨hfits, hlow, hhigh⟩ := ht
  obtain ⟨hfits', hlow', hhigh'⟩ := hnorm
  obtain ⟨u, hu⟩ : ∃ u, tstTimespecSubUs r us = some u := by
    unfold Fits at hfits hfits'
    simp only [Timespec.ns] at hns
    apply Option.isSome_iff_exists.mp
    apply isSome_tstTimespecSubUs ⟨hfits', hlow', hhigh'⟩ hus
    · unfold Fits
      omega
    · intro hborrow
      unfold Fits
      omega
  obtain ⟨hnorm', hns'⟩ := tstTimespecSubUs_eq_some ⟨hfits', hlow', hhigh'⟩ hus hu
  rw [hu, eq_of_ns_eq hnorm' ⟨hfits, hlow, hhigh⟩ (by omega)]

theorem isSome_timespecTo {perSec half unit : ℤ} (ht : t.Normalised)
    (hsec : Fits 64 (t.tvSec * perSec)) (hhalf : 0 ≤ half ∧ half ≤ 1000000000) (hunit : 0 < unit)
    (hsum : ∀ x, 0 ≤ x → x ≤ 2000000000 → Fits 64 (t.tvSec * perSec + x)) :
    (timespecTo perSec half unit t).isSome = true := by
  obtain ⟨-, hlow, hhigh⟩ := ht
  have hle : (t.tvNsec + half).tdiv unit ≤ t.tvNsec + half :=
    Int.tdiv_le_self _ (by omega)
  have hnonneg : 0 ≤ (t.tvNsec + half).tdiv unit := Int.tdiv_nonneg (by omega) hunit.le
  simp only [timespecTo, Option.bind_eq_bind, isSome_checked_bind, isSome_checked]
  exact ⟨hsec, by unfold Fits; omega, hsum _ hnonneg (by omega)⟩

end Defined

/-- Seconds that leave room for every operation. -/
def Timespec.Small (t : Timespec) : Prop := -2 ^ 32 ≤ t.tvSec ∧ t.tvSec ≤ 2 ^ 32

/-- No function overflows. -/
structure Defined (t1 t2 : Timespec) (us : ℤ) : Prop where
  add : (tstTimespecAdd t1 t2).isSome
  addUs : (tstTimespecAddUs t1 us).isSome
  subUs : (tstTimespecSubUs t1 us).isSome
  diff : (tstTimespecDiff t1 t2).isSome
  absDiff : (tstTimespecAbsDiff t1 t2).isSome
  diffNs : (tstTimespecDiffNs t1 t2).isSome
  toNs : ((tstTimespecDiff t1 t2).bind tstTimespecToNs).isSome
  diffUs : (tstTimespecDiffUs t1 t2).isSome
  diffMs : (tstTimespecDiffMs t1 t2).isSome

section Small

variable {t1 t2 : Timespec} {us : ℤ}

/-- The difference of small timespecs, in every unit. -/
theorem small_diff (h1 : t1.Normalised) (h2 : t2.Normalised) (hs1 : t1.Small) (hs2 : t2.Small) :
    ∃ d, tstTimespecDiff t1 t2 = some d ∧ (tstTimespecToNs d).isSome ∧
      (tstTimespecToUs d).isSome ∧ (tstTimespecToMs d).isSome := by
  unfold Timespec.Small at hs1 hs2
  obtain ⟨-, hlow1, hhigh1⟩ := id h1
  obtain ⟨-, hlow2, hhigh2⟩ := id h2
  obtain ⟨d, hd⟩ : ∃ d, tstTimespecDiff t1 t2 = some d := by
    apply Option.isSome_iff_exists.mp
    simp only [tstTimespecDiff, Option.bind_eq_bind, isSome_checked_bind]
    refine ⟨by unfold Fits; omega, ?_⟩
    split_ifs
    all_goals
      simp only [isSome_checked_bind, Option.pure_def, Option.isSome_some, and_true]
      unfold Fits
      omega
  obtain ⟨hnorm, hns⟩ := tstTimespecDiff_eq_some h1 h2 hd
  obtain ⟨-, hlow, hhigh⟩ := id hnorm
  have hsec : -2 ^ 33 - 1 ≤ d.tvSec ∧ d.tvSec ≤ 2 ^ 33 + 1 := by
    simp only [Timespec.ns] at hns
    omega
  refine ⟨d, hd, ?_, ?_, ?_⟩
  · simp only [tstTimespecToNs, Option.bind_eq_bind, isSome_checked_bind, isSome_checked]
    unfold Fits
    omega
  all_goals
    apply isSome_timespecTo hnorm
    · unfold Fits
      omega
    · decide
    · decide
    · intro x hlow hhigh
      unfold Fits
      omega

theorem defined_of_small (h1 : t1.Normalised) (h2 : t2.Normalised) (hs1 : t1.Small)
    (hs2 : t2.Small) (hus : 0 ≤ us) (hsmall : us ≤ 2 ^ 52) : Defined t1 t2 us := by
  have hdiv : 0 ≤ us.tdiv 1000000 := Int.tdiv_nonneg hus (by decide)
  have hle : us.tdiv 1000000 ≤ us := Int.tdiv_le_self _ hus
  obtain ⟨d, hd, hns, hus', hms⟩ := small_diff h1 h2 hs1 hs2
  obtain ⟨d', hd', -⟩ := small_diff h2 h1 hs2 hs1
  obtain ⟨hnonneg, hlt, -⟩ := tmod_bounds hus
  unfold Timespec.Small at hs1 hs2
  obtain ⟨-, hlow1, hhigh1⟩ := id h1
  obtain ⟨-, hlow2, hhigh2⟩ := h2
  constructor
  · simp only [tstTimespecAdd, Option.bind_eq_bind, isSome_checked_bind, isSome_carry]
    unfold Fits
    omega
  · simp only [tstTimespecAddUs, Option.bind_eq_bind, isSome_checked_bind, isSome_carry]
    unfold Fits
    omega
  · exact isSome_tstTimespecSubUs h1 hus (by unfold Fits; omega) (fun _ => by unfold Fits; omega)
  · rw [hd]
    rfl
  · unfold tstTimespecAbsDiff
    split_ifs
    · rw [hd']
      rfl
    · rw [hd]
      rfl
  · simp only [tstTimespecDiffNs, Option.bind_eq_bind, isSome_checked_bind, isSome_checked]
    unfold Fits
    omega
  · rw [hd]
    exact hns
  · unfold tstTimespecDiffUs
    rw [hd]
    exact hus'
  · unfold tstTimespecDiffMs
    rw [hd]
    exact hms

end Small

/-- The functions denote what they are named for, wherever the 64-bit arithmetic does not
overflow, and it does not for values of ordinary size. -/
theorem timespec_exact (t1 t2 : Timespec) (us : ℤ) (h1 : t1.Normalised) (h2 : t2.Normalised)
    (hus : 0 ≤ us) :
    (∀ r ∈ tstTimespecAdd t1 t2, r.Normalised ∧ r.ns = t1.ns + t2.ns) ∧
      (∀ r ∈ tstTimespecAddUs t1 us, r.Normalised ∧ r.ns = t1.ns + 1000 * us ∧
        tstTimespecSubUs r us = some t1) ∧
      (∀ r ∈ tstTimespecSubUs t1 us, r.Normalised ∧ r.ns = t1.ns - 1000 * us) ∧
      (∀ r ∈ tstTimespecDiff t1 t2, r.Normalised ∧ r.ns = t1.ns - t2.ns ∧
        ∀ n ∈ tstTimespecToNs r, ∀ m ∈ tstTimespecDiffNs t1 t2, n = m) ∧
      (∀ r ∈ tstTimespecAbsDiff t1 t2, r.Normalised ∧ r.ns = |t1.ns - t2.ns|) ∧
      (∀ m ∈ tstTimespecDiffNs t1 t2, tstTimespecLt t1 t2 = true ↔ m < 0) ∧
      (∀ n ∈ tstTimespecDiffUs t1 t2, RoundsHalfUp 1000 (t1.ns - t2.ns) n) ∧
      (∀ n ∈ tstTimespecDiffMs t1 t2, RoundsHalfUp 1000000 (t1.ns - t2.ns) n) ∧
      (t1.Small → t2.Small → us ≤ 2 ^ 52 → Defined t1 t2 us) := by
  refine ⟨fun r hr => tstTimespecAdd_eq_some h1 h2 hr, ?_,
    fun r hr => tstTimespecSubUs_eq_some h1 hus hr, ?_,
    fun r hr => tstTimespecAbsDiff_eq_some h1 h2 hr, ?_, ?_, ?_,
    fun hs1 hs2 hsmall => defined_of_small h1 h2 hs1 hs2 hus hsmall⟩
  · intro r hr
    obtain ⟨hnorm, hns⟩ := tstTimespecAddUs_eq_some h1 hus hr
    exact ⟨hnorm, hns, tstTimespecSubUs_addUs h1 hus hr⟩
  · intro r hr
    obtain ⟨hnorm, hns⟩ := tstTimespecDiff_eq_some h1 h2 hr
    refine ⟨hnorm, hns, fun n hn m hm => ?_⟩
    rw [tstTimespecToNs_eq_some hn, hns, tstTimespecDiffNs_eq_some hm]
  · intro m hm
    rw [tstTimespecLt_iff h1 h2, tstTimespecDiffNs_eq_some hm, sub_neg]
  · intro n hn
    obtain ⟨d, hd, hto⟩ := Option.bind_eq_some_iff.mp hn
    obtain ⟨hnorm, hns⟩ := tstTimespecDiff_eq_some h1 h2 hd
    rw [← hns]
    exact timespecTo_eq_some hnorm rfl (by decide) rfl hto
  · intro n hn
    obtain ⟨d, hd, hto⟩ := Option.bind_eq_some_iff.mp hn
    obtain ⟨hnorm, hns⟩ := tstTimespecDiff_eq_some h1 h2 hd
    rw [← hns]
    exact timespecTo_eq_some hnorm rfl (by decide) rfl hto

/-- A negative difference of a half unit is rounded upward. -/
theorem timespec_exact_half :
    tstTimespecDiffUs ⟨-2, 999999500⟩ ⟨-1, 0⟩ = some 0 ∧ RoundsHalfUp 1000 (-500) 0 := by
  have h := timespec_exact ⟨-2, 999999500⟩ ⟨-1, 0⟩ 0 ⟨by decide, by decide, by decide⟩
    ⟨by decide, by decide, by decide⟩ le_rfl
  have hdiff : tstTimespecDiffUs ⟨-2, 999999500⟩ ⟨-1, 0⟩ = some 0 := by decide
  exact ⟨hdiff, h.2.2.2.2.2.2.1 0 hdiff⟩

end EDDTs.LtpLib
