import Mathlib.Algebra.BigOperators.Group.List.Basic
import Mathlib.Algebra.Order.Ring.Int
import Mathlib.Data.List.Range
import Mathlib.Order.Monotone.Basic

/-!
# The civil calendar

Days are numbered through the years and months of the Gregorian calendar, so that two dates
are as far apart as their numbers.
-/

namespace EDDTs.Library

/-- Between two neighbours of a monotone sequence there is one place for a number. -/
theorem place_unique {α : Type*} [LinearOrder α] {f next : α → ℤ} {n : ℤ}
    (hmono : ∀ x y, x < y → next x ≤ f y) {x y : α} (hx : f x ≤ n ∧ n < next x)
    (hy : f y ≤ n ∧ n < next y) : x = y := by
  rcases lt_trichotomy x y with hlt | heq | hlt
  · have := hmono x y hlt
    omega
  · exact heq
  · have := hmono y x hlt
    omega

def isLeap (year : ℤ) : Bool := (year % 4 = 0 ∧ year % 100 ≠ 0) ∨ year % 400 = 0

/-- The days of the years before this one, counted from the year 1. -/
def daysBeforeYear (year : ℤ) : ℤ :=
  365 * (year - 1) + (year - 1) / 4 - (year - 1) / 100 + (year - 1) / 400

/-- The number of days of a month; January is the month 0. -/
def daysInMonth (leap : Bool) (month : ℕ) : ℕ :=
  [31, if leap then 29 else 28, 31, 30, 31, 30, 31, 31, 30, 31, 30, 31].getD month 0

def daysBeforeMonth (leap : Bool) (month : ℕ) : ℕ :=
  ((List.range month).map (daysInMonth leap)).sum

theorem daysBeforeYear_succ (year : ℤ) :
    daysBeforeYear (year + 1) = daysBeforeYear year + if isLeap year then 366 else 365 := by
  unfold daysBeforeYear isLeap
  split
  next h =>
    simp only [Bool.decide_or, Bool.decide_and, Bool.or_eq_true, Bool.and_eq_true,
      decide_eq_true_eq] at h
    omega
  next h =>
    simp only [Bool.decide_or, Bool.decide_and, Bool.or_eq_true, Bool.and_eq_true,
      decide_eq_true_eq] at h
    omega

theorem daysBeforeYear_le {x y : ℤ} (h : x < y) : daysBeforeYear (x + 1) ≤ daysBeforeYear y := by
  unfold daysBeforeYear
  omega

theorem daysBeforeMonth_succ (leap : Bool) (month : ℕ) :
    daysBeforeMonth leap (month + 1) = daysBeforeMonth leap month + daysInMonth leap month := by
  simp [daysBeforeMonth, List.range_succ]

theorem daysBeforeMonth_mono (leap : Bool) : Monotone (daysBeforeMonth leap) := by
  apply monotone_nat_of_le_succ
  intro month
  rw [daysBeforeMonth_succ]
  exact Nat.le_add_right _ _

theorem daysBeforeMonth_twelve (leap : Bool) :
    daysBeforeMonth leap 12 = if leap then 366 else 365 := by
  cases leap <;> decide

/-- A day of the calendar; January is the month 0, the first day of a month the day 1. -/
@[ext] structure CivilDate where
  year : ℤ
  month : ℕ
  day : ℕ
  deriving DecidableEq, Repr

namespace CivilDate

def Valid (d : CivilDate) : Prop :=
  d.month < 12 ∧ 1 ≤ d.day ∧ d.day ≤ daysInMonth (isLeap d.year) d.month

instance (d : CivilDate) : Decidable d.Valid :=
  inferInstanceAs (Decidable (_ ∧ _ ∧ _))

/-- The days since the first day of the year 1. -/
def dayNumber (d : CivilDate) : ℤ :=
  daysBeforeYear d.year + daysBeforeMonth (isLeap d.year) d.month + d.day - 1

variable {d e : CivilDate}

/-- A valid day lies in its month. -/
theorem Valid.in_month (h : d.Valid) :
    (daysBeforeMonth (isLeap d.year) d.month : ℤ) ≤ d.dayNumber - daysBeforeYear d.year ∧
      d.dayNumber - daysBeforeYear d.year < daysBeforeMonth (isLeap d.year) (d.month + 1) := by
  obtain ⟨-, hfirst, hlast⟩ := h
  rw [daysBeforeMonth_succ, dayNumber]
  push_cast
  omega

/-- A valid day lies in its year. -/
theorem Valid.in_year (h : d.Valid) :
    daysBeforeYear d.year ≤ d.dayNumber ∧ d.dayNumber < daysBeforeYear (d.year + 1) := by
  obtain ⟨hfirst, hlast⟩ := h.in_month
  have hyear : daysBeforeMonth (isLeap d.year) (d.month + 1) ≤
      daysBeforeMonth (isLeap d.year) 12 := daysBeforeMonth_mono _ h.1
  rw [daysBeforeMonth_twelve] at hyear
  rw [daysBeforeYear_succ]
  constructor
  · omega
  · split_ifs at hyear ⊢ <;> omega

/-- Different valid dates have different numbers. -/
theorem dayNumber_injective (hd : d.Valid) (he : e.Valid) (h : d.dayNumber = e.dayNumber) :
    d = e := by
  have hyear : d.year = e.year :=
    place_unique (fun x y => daysBeforeYear_le) hd.in_year (h ▸ he.in_year)
  have hmonth : d.month = e.month := by
    have hmono : ∀ x y, x < y → (daysBeforeMonth (isLeap d.year) (x + 1) : ℤ) ≤
        daysBeforeMonth (isLeap d.year) y :=
      fun x y hxy => Int.ofNat_le.mpr (daysBeforeMonth_mono _ hxy)
    apply place_unique hmono hd.in_month
    rw [h, hyear]
    exact he.in_month
  have hday : d.day = e.day := by
    have hnumber := h
    rw [dayNumber, dayNumber, hyear, hmonth] at hnumber
    omega
  exact CivilDate.ext hyear hmonth hday

end CivilDate

end EDDTs.Library
