import EDDTs.Library.Checked
import EDDTs.Library.Multiples
import EDDTs.Library.Text

/-!
# Random multiples in a range

`random_range`, `random_rangel` and `random_rangell` round the ends of a range to multiples
with the remainder of C, which truncates towards zero, count the multiples between them and
take the one that `lrand48` selects. Beyond 31 bits `random_rangell` lets `divider` halve the
range by the bits of the random number.

## Implementation notes

An overflow, and a shift by as many bits as the type has, have no defined result. Only
`random_rangell` compiles its branch with `divider`, since neither `CRAY` nor a MIPS with
`long` of 64 bits is meant.
-/

namespace EDDTs.LtpLib

open Library

/-! ### The functions -/

/-- The sizes of `long`. -/
inductive DataModel where
  | ilp32
  | lp64
  deriving DecidableEq, Repr

/-- The bits of a `long`. -/
def DataModel.longBits : DataModel → ℕ
  | .ilp32 => 32
  | .lp64 => 64

/-- What is returned, and the text to which `errp` points. -/
structure RangeResult where
  value : ℤ
  err : Option Text
  deriving DecidableEq, Repr

/-- The bump to the next higher multiple. -/
def bump (w : ℕ) (min mult : ℤ) : Option ℤ :=
  if min.tmod mult = 0 then some min
  else do
    let step ← checked w (mult - min.tmod mult)
    checked w (min + step)

/-- The reduction to the next lower multiple. -/
def reduce (w : ℕ) (max mult : ℤ) : Option ℤ :=
  if max.tmod mult = 0 then some max else checked w (max - max.tmod mult)

/-- The part behind the rounding: the random number is taken by `draw`, from the two multiples
and their count. -/
def pickMultiple (w ret : ℕ) (draw : ℤ → ℤ → ℤ → Option ℤ) (min max mult : ℤ) :
    Option RangeResult := do
  let diff ← checked w (max - min)
  let nmults ← checked w (diff.tdiv mult + 1)
  let k ← draw min max nmults
  let offset ← checked ret (k * mult)
  let value ← checked ret (min + offset)
  return ⟨value, none⟩

/-- The body of the three functions, for arguments of `w` bits and a result of `ret` bits. -/
def randomRangeWith (w ret : ℕ) (draw : ℤ → ℤ → ℤ → Option ℤ) (min max mult : ℤ) :
    Option RangeResult :=
  if mult < 1 then some ⟨-1, some (txt "mult arg must be greater than 0")⟩
  else do
    let lo ← bump w (if max < min then max else min) mult
    let hi ← reduce w (if max < min then min else max) mult
    if hi < lo then
      return ⟨-1, some (txt "no numbers in the range " ++ intText min ++ txt ":" ++ intText max ++
        txt " that are a multiple of " ++ intText mult)⟩
    else pickMultiple w ret draw lo hi mult

/-- `rand & (1 << cnt)`, in which `1` is an `int`; `1 << 31` is its least value, of which a
number of `lrand48` has no bit. -/
def bitSet (rand : ℤ) (cnt : ℕ) : Option Bool :=
  if cnt < 32 then some (rand / 2 ^ cnt % 2 = 1) else none

/-- `divider`, by recursion on `33 - cnt`. -/
def divider (lrand48 : ℤ) : ℕ → ℤ → ℤ → ℤ → Option ℤ
  | 0, _, _, _ => some (-1)
  | left + 1, min, max, rand => do
      let cnt := 32 - left
      let rand := if cnt = 0 ∨ rand < -1 then lrand48 else rand
      let diff ← checked 64 (max - min)
      if diff ≤ 2147483647 then checked 64 (min + rand)
      else
        let half := diff.tdiv 2
        let med ← checked 64 (min + half)
        let upper ← bitSet rand cnt
        if half ≤ 2147483647 then checked 64 ((if upper then med else min) + rand)
        else if upper then divider lrand48 left med max rand
        else divider lrand48 left min med rand

/-- `lrand48() % nmults` -/
def plainDraw (lrand48 : ℤ) (_ _ nmults : ℤ) : Option ℤ := some (lrand48.tmod nmults)

/-- The draw of `random_rangell`. -/
def dividedDraw (lrand48 : ℤ) (min max nmults : ℤ) : Option ℤ :=
  if max ≤ 2147483647 then plainDraw lrand48 min max nmults
  else (divider lrand48 33 min max (-1)).map (·.tmod nmults)

/-- `random_range` -/
def randomRange (model : DataModel) (lrand48 : ℤ) : ℤ → ℤ → ℤ → Option RangeResult :=
  randomRangeWith 32 model.longBits (plainDraw lrand48)

/-- `random_rangel` -/
def randomRangel (model : DataModel) (lrand48 : ℤ) : ℤ → ℤ → ℤ → Option RangeResult :=
  randomRangeWith model.longBits model.longBits (plainDraw lrand48)

/-- `random_rangell` -/
def randomRangell (lrand48 : ℤ) : ℤ → ℤ → ℤ → Option RangeResult :=
  randomRangeWith 64 64 (dividedDraw lrand48)

/-! ### What the functions are for -/

/-- Arguments of a type with `w` bits. -/
structure RangeArgs (w : ℕ) where
  start : ℤ
  stop : ℤ
  mult : ℤ
  start_fits : Fits w start
  stop_fits : Fits w stop
  mult_fits : Fits w mult
  mult_pos : 0 < mult

namespace RangeArgs

variable {w : ℕ}

def lo (a : RangeArgs w) : ℤ := min a.start a.stop

def hi (a : RangeArgs w) : ℤ := max a.start a.stop

/-- The numbers that may be returned. -/
def Offers (a : RangeArgs w) (v : ℤ) : Prop := a.mult ∣ v ∧ a.lo ≤ v ∧ v ≤ a.hi

/-- A result as it should be: a multiple in the range if there is one, and an error if and
only if there is none. -/
def Right (a : RangeArgs w) (r : Option RangeResult) : Prop :=
  ∃ result, r = some result ∧ ((∃ v, a.Offers v) → a.Offers result.value) ∧
    (result.err.isSome = true ↔ ¬ ∃ v, a.Offers v)

/-- The lower end is negative and not a multiple, so that rounding skips a multiple. -/
def SkipsFirst (a : RangeArgs w) : Prop := a.lo < 0 ∧ ¬ a.mult ∣ a.lo

/-- The upper end is negative and not a multiple, so that rounding leaves the range. -/
def PassesLast (a : RangeArgs w) : Prop := a.hi < 0 ∧ ¬ a.mult ∣ a.hi

instance (a : RangeArgs w) : Decidable a.SkipsFirst := inferInstanceAs (Decidable (_ ∧ _))

instance (a : RangeArgs w) : Decidable a.PassesLast := inferInstanceAs (Decidable (_ ∧ _))

/-- The least multiple in the range, or the one above it. -/
def first (a : RangeArgs w) : ℤ :=
  ceilMultiple a.mult a.lo + if a.SkipsFirst then a.mult else 0

/-- The greatest multiple in the range, or the one above it. -/
def last (a : RangeArgs w) : ℤ :=
  floorMultiple a.mult a.hi + if a.PassesLast then a.mult else 0

/-- The number of multiples from the one to the other. -/
def count (a : RangeArgs w) : ℤ := (a.last - a.first) / a.mult + 1

/-- Rounding up does not overflow. -/
def RoundsUp (a : RangeArgs w) : Prop :=
  ¬ a.mult ∣ a.lo → (0 < a.lo → ceilMultiple a.mult a.lo < 2 ^ (w - 1)) ∧
    (a.lo < 0 → a.mult + (ceilMultiple a.mult a.lo - a.lo) < 2 ^ (w - 1))

/-- Counting does not overflow. -/
def Counts (a : RangeArgs w) : Prop :=
  a.first ≤ a.last → a.last - a.first < 2 ^ (w - 1) ∧ a.count < 2 ^ (w - 1)

/-- The multiple that is skipped is not the only one. -/
def KeepsOne (a : RangeArgs w) : Prop :=
  a.SkipsFirst → ¬ a.PassesLast → ceilMultiple a.mult a.lo ≠ floorMultiple a.mult a.hi

end RangeArgs

/-! ### Rounding -/

section Rounding

variable {w : ℕ} (a : RangeArgs w)

open RangeArgs

theorem RangeArgs.lo_fits : Fits w a.lo := by
  have hstart := a.start_fits
  have hstop := a.stop_fits
  unfold Fits lo at *
  omega

theorem RangeArgs.hi_fits : Fits w a.hi := by
  have hstart := a.start_fits
  have hstop := a.stop_fits
  unfold Fits hi at *
  omega

theorem RangeArgs.lo_le_hi : a.lo ≤ a.hi := by
  unfold lo hi
  omega

/-- The bump reaches `first`. -/
theorem bump_eq_some_iff {x : ℤ} : bump w a.lo a.mult = some x ↔ a.RoundsUp ∧ x = a.first := by
  have hm := a.mult_pos
  have hmfits := a.mult_fits
  have hlofits := a.lo_fits
  by_cases hdvd : a.mult ∣ a.lo
  · have hup : a.RoundsUp := fun hno => absurd hdvd hno
    have hfirst : a.first = a.lo := by
      simp [first, SkipsFirst, hdvd, ceilMultiple_of_dvd hdvd]
    simp [bump, Int.tmod_eq_zero_of_dvd hdvd, hup, hfirst, eq_comm]
  · have hmod : a.lo.tmod a.mult ≠ 0 := fun h => hdvd (Int.dvd_of_tmod_eq_zero h)
    have hle := le_ceilMultiple hm a.lo
    have hceil := ceilMultiple_of_not_dvd hm hdvd
    have hne : a.lo ≠ 0 := by
      intro h
      exact hdvd (h ▸ Int.dvd_zero a.mult)
    simp only [bump, if_neg hmod, Option.bind_eq_bind, checked_bind_eq_some_iff,
      checked_eq_some_iff]
    by_cases hneg : a.lo < 0
    · have hstep := sub_tmod_of_neg (m := a.mult) hneg
      have hfirst : a.first = ceilMultiple a.mult a.lo + a.mult := by
        rw [first, if_pos ⟨hneg, hdvd⟩]
      have hup : a.RoundsUp ↔ a.mult + (ceilMultiple a.mult a.lo - a.lo) < 2 ^ (w - 1) :=
        ⟨fun h => (h hdvd).2 hneg, fun h _ => ⟨fun hpos => absurd hpos (by omega), fun _ => h⟩⟩
      rw [hup, hfirst]
      unfold Fits at *
      omega
    · have hstep := sub_tmod_of_nonneg (m := a.mult) (Int.not_lt.mp hneg)
      have hfirst : a.first = ceilMultiple a.mult a.lo := by
        rw [first, if_neg fun h => hneg h.1, Int.add_zero]
      have hup : a.RoundsUp ↔ ceilMultiple a.mult a.lo < 2 ^ (w - 1) :=
        ⟨fun h => (h hdvd).1 (by omega), fun h _ => ⟨fun _ => h, fun hlt => absurd hlt hneg⟩⟩
      rw [hup, hfirst]
      unfold Fits at *
      omega

/-- Taking the remainder off the upper end gives `last`. -/
theorem hi_sub_tmod : a.hi - a.hi.tmod a.mult = a.last := by
  unfold last
  by_cases hneg : a.hi < 0
  · rw [sub_tmod_of_neg hneg]
    split_ifs with hpasses
    · exact ceilMultiple_of_not_dvd a.mult_pos hpasses.2
    · have hdvd : a.mult ∣ a.hi := not_not.mp fun hno => hpasses ⟨hneg, hno⟩
      rw [ceilMultiple_of_dvd hdvd, floorMultiple_of_dvd hdvd, Int.add_zero]
  · rw [sub_tmod_of_nonneg (Int.not_lt.mp hneg), if_neg fun h => hneg h.1, Int.add_zero]

theorem RangeArgs.last_nonpos (hneg : a.hi < 0) : a.last ≤ 0 := by
  rw [← hi_sub_tmod, sub_tmod_of_neg hneg]
  exact (ceilMultiple_le_iff a.mult_pos (Int.dvd_zero a.mult)).mpr hneg.le

theorem RangeArgs.last_fits : Fits w a.last := by
  have hfits := a.hi_fits
  have hm := a.mult_pos
  have hlast := hi_sub_tmod a
  by_cases hneg : a.hi < 0
  · have hzero := a.last_nonpos hneg
    have hle := le_ceilMultiple hm a.hi
    rw [sub_tmod_of_neg hneg] at hlast
    unfold Fits at *
    omega
  · have hzero : 0 ≤ floorMultiple a.mult a.hi :=
      (le_floorMultiple_iff hm (Int.dvd_zero a.mult)).mpr (Int.not_lt.mp hneg)
    have hle := floorMultiple_le hm a.hi
    rw [sub_tmod_of_nonneg (Int.not_lt.mp hneg)] at hlast
    unfold Fits at *
    omega

/-- The reduction reaches `last`. -/
theorem reduce_eq : reduce w a.hi a.mult = some a.last := by
  unfold reduce
  split_ifs with hmod
  · rw [← hi_sub_tmod, hmod, Int.sub_zero]
  · rw [hi_sub_tmod, checked_of_fits a.last_fits]

theorem RangeArgs.first_fits (hup : a.RoundsUp) : Fits w a.first := by
  have hbump := (bump_eq_some_iff a).mpr ⟨hup, rfl⟩
  unfold bump at hbump
  split_ifs at hbump
  · rw [← Option.some.inj hbump]
    exact a.lo_fits
  · rw [Option.bind_eq_bind, checked_bind_eq_some_iff, checked_eq_some_iff] at hbump
    exact hbump.2.2 ▸ hbump.2.1

theorem RangeArgs.dvd_first : a.mult ∣ a.first := by
  unfold first
  split_ifs
  · exact Int.dvd_add (dvd_ceilMultiple _ _) (Int.dvd_refl _)
  · rw [Int.add_zero]
    exact dvd_ceilMultiple _ _

theorem RangeArgs.exists_offers_iff :
    (∃ v, a.Offers v) ↔ ceilMultiple a.mult a.lo ≤ floorMultiple a.mult a.hi :=
  exists_multiple_iff a.mult_pos

/-- If the two multiples are in order, the range has one. -/
theorem RangeArgs.exists_offers_of_le (h : a.first ≤ a.last) : ∃ v, a.Offers v := by
  by_cases hpasses : a.PassesLast
  · have hneg : a.lo < 0 := a.lo_le_hi.trans_lt hpasses.1
    by_cases hdvd : a.mult ∣ a.lo
    · exact ⟨a.lo, hdvd, le_rfl, a.lo_le_hi⟩
    · rw [first, last, if_pos ⟨hneg, hdvd⟩, if_pos hpasses] at h
      exact a.exists_offers_iff.mpr (by omega)
  · have hm := a.mult_pos
    rw [first, last, if_neg hpasses] at h
    refine a.exists_offers_iff.mpr ?_
    split_ifs at h <;> omega

/-- If they are not, the range has one only where it was skipped. -/
theorem RangeArgs.exists_offers_of_lt (h : a.last < a.first) :
    (∃ v, a.Offers v) ↔ ¬ a.KeepsOne := by
  have hm := a.mult_pos
  rw [first, last] at h
  rw [a.exists_offers_iff]
  constructor
  · intro hle hkeeps
    by_cases hpasses : a.PassesLast
    · rw [if_pos hpasses] at h
      split_ifs at h <;> omega
    · by_cases hskips : a.SkipsFirst
      · rw [if_pos hskips, if_neg hpasses] at h
        have hlt := lt_of_le_of_ne hle (hkeeps hskips hpasses)
        have hstep := add_le_of_dvd_of_lt (dvd_ceilMultiple a.mult a.lo)
          (dvd_floorMultiple a.mult a.hi) hlt
        omega
      · rw [if_neg hskips, if_neg hpasses] at h
        omega
  · intro hkeeps
    unfold KeepsOne at hkeeps
    push Not at hkeeps
    exact hkeeps.2.2.le

theorem RangeArgs.keepsOne_of_le (h : a.first ≤ a.last) : a.KeepsOne := by
  intro hskips hpasses heq
  have hm := a.mult_pos
  rw [first, last, if_pos hskips, if_neg hpasses] at h
  omega

end Rounding

/-! ### The result -/

section Result

variable {w ret : ℕ} (a : RangeArgs w) (draw : ℤ → ℤ → ℤ → Option ℤ)

open RangeArgs

/-- The body of the functions on the two multiples. -/
theorem randomRangeWith_eq_some_iff {r : RangeResult} :
    randomRangeWith w ret draw a.start a.stop a.mult = some r ↔
      a.RoundsUp ∧ if a.last < a.first then
        r = ⟨-1, some (txt "no numbers in the range " ++ intText a.start ++ txt ":" ++
          intText a.stop ++ txt " that are a multiple of " ++ intText a.mult)⟩
      else pickMultiple w ret draw a.first a.last a.mult = some r := by
  have hlo : (if a.stop < a.start then a.stop else a.start) = a.lo := by
    unfold lo
    omega
  have hhi : (if a.stop < a.start then a.start else a.stop) = a.hi := by
    unfold hi
    omega
  have hmult : ¬ a.mult < 1 := Int.not_lt.mpr a.mult_pos
  simp only [randomRangeWith, if_neg hmult, hlo, hhi, reduce_eq, Option.bind_eq_bind,
    Option.bind_some, Option.bind_eq_some_iff, bump_eq_some_iff]
  constructor
  · rintro ⟨lo, ⟨hup, rfl⟩, hrest⟩
    refine ⟨hup, ?_⟩
    split_ifs at hrest ⊢ with hlt
    · exact (Option.some.inj hrest).symm
    · exact hrest
  · rintro ⟨hup, hrest⟩
    refine ⟨a.first, ⟨hup, rfl⟩, ?_⟩
    split_ifs at hrest ⊢ with hlt
    · exact congrArg some hrest.symm
    · exact hrest

/-- The pick between two multiples. -/
theorem pickMultiple_eq_some_iff (hle : a.first ≤ a.last) {r : RangeResult} :
    pickMultiple w ret draw a.first a.last a.mult = some r ↔
      Fits w (a.last - a.first) ∧ Fits w a.count ∧ ∃ k, draw a.first a.last a.count = some k ∧
        Fits ret (k * a.mult) ∧ Fits ret (a.first + k * a.mult) ∧
          r = ⟨a.first + k * a.mult, none⟩ := by
  have hcount : (a.last - a.first).tdiv a.mult + 1 = a.count := by
    rw [count, Int.tdiv_eq_ediv_of_nonneg (by omega)]
  simp only [pickMultiple, Option.bind_eq_bind, Option.bind_eq_some_iff, checked_eq_some_iff,
    Option.pure_def, Option.some.injEq, and_assoc, exists_and_left, exists_eq_left', hcount,
    eq_comm (a := r)]

theorem RangeArgs.count_pos (hle : a.first ≤ a.last) : 0 < a.count := by
  have h : 0 ≤ (a.last - a.first) / a.mult := Int.ediv_nonneg (by omega) a.mult_pos.le
  unfold count
  omega

theorem RangeArgs.counts_iff (hle : a.first ≤ a.last) :
    a.Counts ↔ Fits w (a.last - a.first) ∧ Fits w a.count := by
  have hcount := a.count_pos hle
  have hpow : (0 : ℤ) < 2 ^ (w - 1) := Int.pow_pos (by decide)
  unfold Counts Fits
  constructor
  · intro h
    have := h hle
    omega
  · intro h _
    omega

/-- A multiple in the range is reached without an overflow. -/
theorem RangeArgs.fits_of_offers (hup : a.RoundsUp) (hspan : Fits w (a.last - a.first)) {k : ℤ}
    (h : a.Offers (a.first + k * a.mult)) : Fits w (k * a.mult) := by
  obtain ⟨hdvd, hlo, hhi⟩ := h
  have hm := a.mult_pos
  have hfits := a.mult_fits
  have hceil := ceilMultiple_lt hm a.lo
  have htop := (le_floorMultiple_iff hm hdvd).mpr hhi
  have hlast : floorMultiple a.mult a.hi ≤ a.last := by
    unfold last
    split_ifs <;> omega
  have hbottom : a.first - a.lo < 2 ^ (w - 1) := by
    by_cases hskips : a.SkipsFirst
    · have := (hup hskips.2).2 hskips.1
      rw [first, if_pos hskips]
      omega
    · rw [first, if_neg hskips]
      unfold Fits at hfits
      omega
  unfold Fits at *
  omega

/-- When the functions are right, whatever is drawn. -/
theorem right_randomRangeWith_iff (hret : w ≤ ret) :
    a.Right (randomRangeWith w ret draw a.start a.stop a.mult) ↔
      a.RoundsUp ∧ a.KeepsOne ∧ a.Counts ∧ (a.first ≤ a.last →
        ∃ k, draw a.first a.last a.count = some k ∧ a.Offers (a.first + k * a.mult)) := by
  unfold Right
  simp only [randomRangeWith_eq_some_iff, and_assoc, exists_and_left]
  refine and_congr_right fun hup => ?_
  by_cases hlt : a.last < a.first
  · have hexists := a.exists_offers_of_lt hlt
    have hcounts : a.Counts := fun hle => absurd hle (by omega)
    simp only [if_pos hlt, exists_eq_left, hexists, Option.isSome_some, not_not, true_iff]
    constructor
    · rintro ⟨-, hkeeps⟩
      exact ⟨hkeeps, hcounts, fun hle => absurd hle (by omega)⟩
    · rintro ⟨hkeeps, -⟩
      exact ⟨fun hno => absurd hkeeps hno, hkeeps⟩
  · have hle := Int.not_lt.mp hlt
    have hexists := a.exists_offers_of_le hle
    simp only [if_neg hlt, pickMultiple_eq_some_iff a draw hle, hexists, a.counts_iff hle,
      a.keepsOne_of_le hle, hle, true_imp_iff, true_and, not_true_eq_false, and_assoc]
    constructor
    · rintro ⟨r, hspan, hcount, ⟨k, hk, -, -, rfl⟩, hoffers, -⟩
      exact ⟨hspan, hcount, k, hk, hoffers⟩
    · rintro ⟨hspan, hcount, k, hk, hoffers⟩
      have hoffset := (a.fits_of_offers hup hspan hoffers).mono hret
      have hvalue := (a.lo_fits.of_le_of_le a.hi_fits hoffers.2.1 hoffers.2.2).mono hret
      exact ⟨_, hspan, hcount, ⟨k, hk, hoffset, hvalue, rfl⟩, hoffers, by simp⟩

end Result

/-! ### The draws -/

section Draws

variable {w : ℕ} (a : RangeArgs w) {k : ℤ}

open RangeArgs

theorem RangeArgs.lo_le_iff : a.lo ≤ a.first + k * a.mult ↔ 0 ≤ k ∨ (a.SkipsFirst ∧ k = -1) := by
  have hm := a.mult_pos
  have hdvd : a.mult ∣ a.first + k * a.mult := Int.dvd_add a.dvd_first (Int.dvd_mul_left _ _)
  rw [← ceilMultiple_le_iff hm hdvd]
  obtain hk | hk | hk : 0 ≤ k ∨ k = -1 ∨ k ≤ -2 := by omega
  · have hpos : 0 ≤ k * a.mult := Int.mul_nonneg hk hm.le
    refine iff_of_true ?_ (.inl hk)
    unfold first
    split_ifs <;> omega
  · subst hk
    unfold first
    by_cases hskips : a.SkipsFirst
    · simp only [hskips, if_true, and_self, or_true, iff_true]
      omega
    · simp only [hskips, if_false, false_and, or_false]
      omega
  · have hfar : k * a.mult ≤ -2 * a.mult := Int.mul_le_mul_of_nonneg_right hk hm.le
    refine iff_of_false ?_ (by omega)
    unfold first
    split_ifs <;> omega

/-- The drawn multiple is in the range unless it is one that rounding added. -/
theorem RangeArgs.offers_iff (hk : k < a.count) :
    a.Offers (a.first + k * a.mult) ↔
      (0 ≤ k ∨ (a.SkipsFirst ∧ k = -1)) ∧ (a.PassesLast → k ≠ a.count - 1) := by
  have hm := a.mult_pos
  have hdvd : a.mult ∣ a.first + k * a.mult := Int.dvd_add a.dvd_first (Int.dvd_mul_left _ _)
  have hlast : k * a.mult ≤ a.last - a.first := by
    refine (Int.le_ediv_iff_mul_le hm).mp ?_
    unfold count at hk
    omega
  have hnext : k ≠ a.count - 1 ↔ (k + 1) * a.mult ≤ a.last - a.first := by
    rw [← Int.le_ediv_iff_mul_le hm]
    unfold count at *
    omega
  rw [Offers, and_iff_right hdvd, a.lo_le_iff, ← le_floorMultiple_iff hm hdvd, hnext,
    Int.add_mul, Int.one_mul]
  refine and_congr_right fun _ => ?_
  by_cases hpasses : a.PassesLast
  · rw [last, if_pos hpasses]
    simp only [hpasses, true_imp_iff]
    omega
  · rw [last, if_neg hpasses] at hlast
    simp only [hpasses, false_imp_iff, iff_true]
    omega

/-- What `lrand48` selects is not the multiple that rounding added. -/
def RangeArgs.DrawsInside (a : RangeArgs w) (rand : ℕ) : Prop :=
  a.first ≤ a.last → a.PassesLast → (rand : ℤ) % a.count ≠ a.count - 1

theorem offers_plainDraw_iff (hle : a.first ≤ a.last) (rand : ℕ) :
    (∃ k, plainDraw rand a.first a.last a.count = some k ∧ a.Offers (a.first + k * a.mult)) ↔
      (a.PassesLast → (rand : ℤ) % a.count ≠ a.count - 1) := by
  have hcount := a.count_pos hle
  have hmod : (rand : ℤ).tmod a.count = rand % a.count := Int.tmod_eq_emod_of_nonneg (by omega)
  have hnonneg := Int.emod_nonneg rand hcount.ne'
  have hlt := Int.emod_lt_of_pos rand hcount
  simp only [plainDraw, hmod, Option.some.injEq, exists_eq_left', a.offers_iff hlt, hnonneg,
    true_or, true_and]

/-- When a function that does not halve is right. -/
theorem right_plainDraw_iff {ret : ℕ} (hret : w ≤ ret) (rand : ℕ) :
    a.Right (randomRangeWith w ret (plainDraw rand) a.start a.stop a.mult) ↔
      a.RoundsUp ∧ a.KeepsOne ∧ a.Counts ∧ a.DrawsInside rand := by
  rw [right_randomRangeWith_iff a _ hret]
  refine and_congr_right fun _ => and_congr_right fun _ => and_congr_right fun _ => ?_
  exact forall_congr' fun hle => offers_plainDraw_iff a hle rand

end Draws

/-! ### The halving -/

/-- The lower end of the part of a range at which the halving by bits ends: a set bit goes to
the upper half, and the first half with less than 31 bits is the last. -/
def halve : List Bool → ℤ → ℤ → Option ℤ
  | [], _, _ => none
  | upper :: bits, lo, hi =>
      let mid := lo + (hi - lo) / 2
      if (hi - lo) / 2 < 2 ^ 31 then some (if upper then mid else lo)
      else if upper then halve bits mid hi else halve bits lo mid

/-- The bits of an `int`, from the lowest on. -/
def randBits (rand : ℕ) : List Bool := (List.range 32).map rand.testBit

/-- The lower end of the part of a range in which a random number counts. -/
def landing (rand : ℕ) (lo hi : ℤ) : Option ℤ :=
  if hi - lo < 2 ^ 31 then some lo else halve (randBits rand) lo hi

section Halving

variable {rand : ℕ} {lo hi : ℤ}

theorem le_of_halve {bits : List Bool} {base : ℤ} (hle : lo ≤ hi)
    (h : halve bits lo hi = some base) : lo ≤ base := by
  induction bits generalizing lo hi with
  | nil => cases h
  | cons upper bits ih =>
      unfold halve at h
      dsimp only at h
      split_ifs at h
      · cases h
        omega
      · cases h
        exact le_rfl
      · exact le_trans (by omega) (ih (by omega) h)
      · exact ih (by omega) h

theorem le_of_landing {base : ℤ} (hle : lo ≤ hi) (h : landing rand lo hi = some base) :
    lo ≤ base := by
  unfold landing at h
  split_ifs at h
  · exact (Option.some.inj h).le
  · exact le_of_halve hle h

theorem drop_randBits {cnt : ℕ} (hcnt : cnt < 32) :
    (randBits rand).drop cnt = rand.testBit cnt :: (randBits rand).drop (cnt + 1) := by
  rw [List.drop_eq_getElem_cons (by simpa [randBits] using hcnt)]
  simp [randBits]

theorem bitSet_natCast (cnt : ℕ) :
    bitSet rand cnt = if cnt < 32 then some (rand.testBit cnt) else none := by
  unfold bitSet
  rw [Nat.testBit_eq_decide_div_mod_eq]
  have hcast : (rand : ℤ) / 2 ^ cnt % 2 = 1 ↔ rand / 2 ^ cnt % 2 = 1 := by
    norm_cast
  simp only [hcast]

/-- A call of `divider` for a range that is longer than 31 bits. -/
theorem divider_succ {left : ℕ} (hlo : Fits 64 lo) (hhi : Fits 64 hi) (hwide : 2 ^ 31 ≤ hi - lo)
    (hspan : Fits 64 (hi - lo)) {r : ℤ} (hr : 32 - left = 0 ∨ r = rand) :
    divider rand (left + 1) lo hi r =
      (bitSet rand (32 - left)).bind fun upper =>
        if (hi - lo) / 2 < 2 ^ 31 then
          checked 64 ((if upper then lo + (hi - lo) / 2 else lo) + rand)
        else if upper then divider rand left (lo + (hi - lo) / 2) hi rand
        else divider rand left lo (lo + (hi - lo) / 2) rand := by
  have hrand : (if 32 - left = 0 ∨ r < -1 then (rand : ℤ) else r) = rand := by
    split_ifs with h
    · rfl
    · exact hr.resolve_left fun hzero => h (.inl hzero)
  have hhalf : (hi - lo).tdiv 2 = (hi - lo) / 2 := Int.tdiv_eq_ediv_of_nonneg (by omega)
  have hmed : Fits 64 (lo + (hi - lo) / 2) := hlo.of_le_of_le hhi (by omega) (by omega)
  have hlong : ¬ hi - lo ≤ 2147483647 := by omega
  have hshort : (hi - lo) / 2 ≤ 2147483647 ↔ (hi - lo) / 2 < 2 ^ 31 := by omega
  simp only [divider, hrand, checked_of_fits hspan, Option.bind_eq_bind, Option.bind_some,
    if_neg hlong, hhalf, checked_of_fits hmed, hshort]

/-- `divider` halves a range that is longer than 31 bits. -/
theorem divider_eq {left : ℕ} (hleft : left ≤ 32) (hlo : Fits 64 lo) (hhi : Fits 64 hi)
    (hwide : 2 ^ 31 ≤ hi - lo) (hspan : Fits 64 (hi - lo)) {r : ℤ}
    (hr : 32 - left = 0 ∨ r = rand) :
    divider rand (left + 1) lo hi r =
      (halve ((randBits rand).drop (32 - left)) lo hi).bind fun base =>
        checked 64 (base + rand) := by
  induction left generalizing lo hi r with
  | zero =>
      have hbits : (randBits rand).drop (32 - 0) = [] := List.drop_eq_nil_of_le (by simp [randBits])
      rw [divider_succ hlo hhi hwide hspan hr, bitSet_natCast, hbits]
      rfl
  | succ left ih =>
      rw [divider_succ hlo hhi hwide hspan hr, bitSet_natCast]
      have hcnt : 32 - (left + 1) < 32 := by omega
      have hnext : 32 - (left + 1) + 1 = 32 - left := by omega
      rw [if_pos hcnt, drop_randBits hcnt, hnext, Option.bind_some]
      simp only [halve]
      have hmed : Fits 64 (lo + (hi - lo) / 2) := hlo.of_le_of_le hhi (by omega) (by omega)
      split_ifs with hshort hupper hupper
      · rfl
      · rfl
      · exact ih (by omega) hmed hhi (by omega) (by unfold Fits at *; omega) (.inr rfl)
      · exact ih (by omega) hlo hmed (by omega) (by unfold Fits at *; omega) (.inr rfl)

/-- `divider` from its first call on. -/
theorem divider_landing (hlo : Fits 64 lo) (hhi : Fits 64 hi) (hle : lo ≤ hi)
    (hspan : Fits 64 (hi - lo)) :
    divider rand 33 lo hi (-1) =
      (landing rand lo hi).bind fun base => checked 64 (base + rand) := by
  unfold landing
  split_ifs with hshort
  · have hdiff : hi - lo ≤ 2147483647 := by omega
    rw [divider]
    simp only [checked_of_fits hspan, Option.bind_eq_bind, Option.bind_some, if_pos hdiff,
      Nat.sub_self, true_or, if_true]
  · exact divider_eq le_rfl hlo hhi (by omega) hspan (.inl rfl)

end Halving

/-! ### When the functions are right -/

section Right

open RangeArgs

/-- What the halving selects is in the range: counted from zero it is not negative, or its
remainder by the number of multiples is none or leads to the multiple that was skipped. -/
def RangeArgs.LandsInside (a : RangeArgs 64) (rand : ℕ) : Prop :=
  a.first ≤ a.last → ∃ base, landing rand a.first a.last = some base ∧ base + rand < 2 ^ 63 ∧
    (0 ≤ base + rand ∨ a.count ∣ base + rand ∨ (a.SkipsFirst ∧ a.count ∣ base + rand + 1))

theorem RangeArgs.tmod_count_iff {w : ℕ} (a : RangeArgs w) (hle : a.first ≤ a.last) (x : ℤ) :
    (0 ≤ x.tmod a.count ∨ (a.SkipsFirst ∧ x.tmod a.count = -1)) ↔
      (0 ≤ x ∨ a.count ∣ x ∨ (a.SkipsFirst ∧ a.count ∣ x + 1)) := by
  have hcount := a.count_pos hle
  by_cases h : 0 ≤ x ∨ a.count ∣ x
  · exact iff_of_true (.inl ((tmod_nonneg_iff hcount).mpr h)) (h.imp_right .inl)
  · obtain ⟨hneg, hdvd⟩ := not_or.mp h
    rw [tmod_nonneg_iff hcount, tmod_eq_neg_one_iff hcount (Int.not_le.mp hneg) hdvd, or_assoc]

theorem offers_dividedDraw_iff (a : RangeArgs 64) (hup : a.RoundsUp) (hle : a.first ≤ a.last)
    (hspan : Fits 64 (a.last - a.first)) (hfar : ¬ a.last ≤ 2147483647) (rand : ℕ) :
    (∃ k, dividedDraw rand a.first a.last a.count = some k ∧ a.Offers (a.first + k * a.mult)) ↔
      ∃ base, landing rand a.first a.last = some base ∧ base + rand < 2 ^ 63 ∧
        (0 ≤ base + rand ∨ a.count ∣ base + rand ∨ (a.SkipsFirst ∧ a.count ∣ base + rand + 1)) := by
  have hpasses : ¬ a.PassesLast := by
    intro hpasses
    have := a.last_nonpos hpasses.1
    omega
  have hdraw : ∀ k, dividedDraw rand a.first a.last a.count = some k ↔
      ∃ base, landing rand a.first a.last = some base ∧ Fits 64 (base + rand) ∧
        (base + rand).tmod a.count = k := by
    intro k
    rw [dividedDraw, if_neg hfar, divider_landing (a.first_fits hup) a.last_fits hle hspan]
    simp only [Option.map_bind, Option.bind_eq_some_iff, Function.comp_apply,
      Option.map_eq_some_iff, checked_eq_some_iff, and_assoc, exists_and_left, exists_eq_left']
  have hoffers : ∀ x : ℤ, a.Offers (a.first + x.tmod a.count * a.mult) ↔
      (0 ≤ x ∨ a.count ∣ x ∨ (a.SkipsFirst ∧ a.count ∣ x + 1)) := by
    intro x
    rw [a.offers_iff (Int.tmod_lt_of_pos x (a.count_pos hle)), a.tmod_count_iff hle]
    exact and_iff_left fun h => absurd h hpasses
  constructor
  · rintro ⟨k, hk, hoffer⟩
    obtain ⟨base, hbase, hfits, rfl⟩ := (hdraw k).mp hk
    exact ⟨base, hbase, hfits.2, (hoffers _).mp hoffer⟩
  · rintro ⟨base, hbase, hlt, hinside⟩
    have hlow := (a.first_fits hup).1
    have hbelow := le_of_landing hle hbase
    have hfits : Fits 64 (base + rand) := ⟨by omega, hlt⟩
    exact ⟨_, (hdraw _).mpr ⟨base, hbase, hfits, rfl⟩, (hoffers _).mpr hinside⟩

/-- The three functions are right if and only if nothing overflows, the multiple that rounding
skips below zero is not the only one, and the one that rounding adds there is not drawn. -/
theorem randomRange_right_iff (model : DataModel) (rand : Fin (2 ^ 31)) :
    (∀ a : RangeArgs 32, a.Right (randomRange model rand.val a.start a.stop a.mult) ↔
      a.RoundsUp ∧ a.KeepsOne ∧ a.Counts ∧ a.DrawsInside rand) ∧
    (∀ a : RangeArgs model.longBits,
      a.Right (randomRangel model rand.val a.start a.stop a.mult) ↔
        a.RoundsUp ∧ a.KeepsOne ∧ a.Counts ∧ a.DrawsInside rand) ∧
    (∀ a : RangeArgs 64, a.Right (randomRangell rand.val a.start a.stop a.mult) ↔
      a.RoundsUp ∧ a.KeepsOne ∧ a.Counts ∧
        if a.last ≤ 2147483647 then a.DrawsInside rand else a.LandsInside rand) := by
  refine ⟨fun a => ?_, fun a => ?_, fun a => ?_⟩
  · exact right_plainDraw_iff a (by cases model <;> decide) rand
  · exact right_plainDraw_iff a le_rfl rand
  · rw [randomRangell, right_randomRangeWith_iff a _ le_rfl]
    refine and_congr_right fun hup => and_congr_right fun _ => and_congr_right fun hcounts => ?_
    split_ifs with hnear
    · refine forall_congr' fun hle => ?_
      rw [← offers_plainDraw_iff a hle rand, dividedDraw, if_pos hnear]
    · refine forall_congr' fun hle => ?_
      exact offers_dividedDraw_iff a hup hle ((a.counts_iff hle).mp hcounts).1 hnear rand

/-- A result below zero: of the multiples of 3 from -3 to -1, it is 0 for every odd random
number. -/
theorem randomRange_minusThree :
    ∃ a : RangeArgs 32, a.start = -3 ∧ a.stop = -1 ∧ a.mult = 3 ∧ (∃ v, a.Offers v) ∧
      randomRange .ilp32 1 a.start a.stop a.mult = some ⟨0, none⟩ ∧
      ¬ a.Right (randomRange .ilp32 1 a.start a.stop a.mult) := by
  refine ⟨⟨-3, -1, 3, by decide, by decide, by decide, by decide⟩, rfl, rfl, rfl, ?_, ?_, ?_⟩
  · exact ⟨-3, by decide, by decide, by decide⟩
  · decide
  · rintro ⟨result, hresult, hoffers, -⟩
    have hzero : randomRange .ilp32 1 (-3) (-1) 3 = some ⟨0, none⟩ := by decide
    obtain rfl := Option.some.inj (hzero.symm.trans hresult)
    have hmem := hoffers ⟨-3, by decide, by decide, by decide⟩
    exact absurd hmem.2.2 (by decide)

end Right

end EDDTs.LtpLib
