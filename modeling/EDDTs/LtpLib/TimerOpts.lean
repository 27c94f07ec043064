import EDDTs.Boards.Resm
import EDDTs.Library.Checked
import EDDTs.LtpLib.Kvercmp
import Mathlib.Algebra.Order.Floor.Semiring
import Mathlib.Data.Rat.Floor
import Mathlib.Tactic.Linarith

/-!
# The options of the timer tests

`parse_timer_opts` (`lib/tst_timer_test.c`) sets the timeout of a run with `-s` and `-n`, through
`tst_set_timeout` and `tst_multiply_timeout` (`lib/tst_test.c`). The product of the two options is
an `int`; a run that overflows it has no defined result.
-/

namespace EDDTs.LtpLib

open Library
open Boards (Message)

/-- `INT_MAX` -/
def intMax : ℤ := 2147483647

/-- `EINVAL` and `ERANGE` -/
inductive ParseError
  | einval
  | erange
  deriving DecidableEq, Repr

/-- `tst_parse_int`, for bounds that are values of `int`: a number that `strtol` cuts to the range
of `long` is out of the bounds as well. -/
def tstParseInt (str : Text) (min max : ℤ) : Except ParseError ℤ :=
  match numeral str with
  | none => .error .einval
  | some (minus, n, rest) =>
      if rest ≠ [] then .error .einval
      else
        let rval : ℤ := if minus then -n else n
        if rval > max ∨ rval < min then .error .erange else .ok rval

/-- The multiplier of the timeouts: 1, or what `LTP_TIMEOUT_MUL` is set to. -/
structure TimeoutMul where
  value : ℚ
  one_le : 1 ≤ value
  le_max : value ≤ 10000

/-- The rounding of an exact result to a `float`: it keeps the order, and whole numbers that a
`float` has. -/
structure FloatRounding (fl : ℚ → ℚ) : Prop where
  mono : ∀ x y, x ≤ y → fl x ≤ fl y
  exact : ∀ n : ℕ, n ≤ 2 ^ 24 → fl n = n

/-- What the test goes on with: the options, the timeout of a run and the messages. -/
structure TimerOpts where
  sleepTime : ℤ := -1
  sampleCnt : ℤ := 0
  timeout : ℕ := 300
  single : Bool := false
  messages : List Message := []
  ended : Bool := false

/-- `tst_brk` -/
def TimerOpts.brk (o : TimerOpts) (text : Text) : TimerOpts :=
  { o with messages := o.messages ++ [⟨.brok, text, false⟩], ended := true }

section Timeout

variable (fl : ℚ → ℚ) (mul : TimeoutMul)

/-- The result of `tst_multiply_timeout`: the product is a `float`, and cut to a whole number. -/
def tstMultiplyTimeout (timeout : ℕ) : ℕ := ⌊fl (fl timeout * mul.value)⌋₊

/-- `tst_set_timeout` -/
def tstSetTimeout (timeout : ℤ) (o : TimerOpts) : TimerOpts :=
  if timeout = -1 then
    { o with messages := o.messages ++ [⟨.info, txt "Timeout per run is disabled", false⟩] }
  else if timeout < 1 then
    o.brk (txt "timeout must to be >= 1! (" ++ intText timeout ++ txt ")")
  else
    let t := tstMultiplyTimeout fl mul timeout.toNat
    { o with
      timeout := t
      messages := o.messages ++
        [⟨.info, txt "Timeout per run is " ++ natText (t / 3600) ++ txt "h " ++
          padZero 2 (t % 3600 / 60 : ℕ) ++ txt "m " ++ padZero 2 (t % 60 : ℕ) ++ txt "s", false⟩] }

/-- The timeout for these options; none if their product overflows. -/
def setTimerTimeout (o : TimerOpts) : Option TimerOpts := do
  let total ← checked 32 (o.sleepTime * o.sampleCnt)
  let timeout := total.tdiv 1000000
  some { tstSetTimeout fl mul (timeout + timeout.tdiv 10) o with single := true }

/-- `parse_timer_opts`, with the texts of `-s` and `-n`. -/
def parseTimerOpts (strSleepTime strSampleCnt : Option Text) (o : TimerOpts) : Option TimerOpts :=
  match strSleepTime.mapM (tstParseInt · 0 intMax) with
  | .error _ => some (o.brk (txt "Invalid sleep time '" ++ strSleepTime.getD [] ++ txt "'"))
  | .ok sleepTime =>
      match strSampleCnt.mapM (tstParseInt · 1 intMax) with
      | .error _ => some (o.brk (txt "Invalid sample count '" ++ strSampleCnt.getD [] ++ txt "'"))
      | .ok sampleCnt =>
          let sleepTime := sleepTime.getD o.sleepTime
          let sampleCnt := sampleCnt.getD o.sampleCnt
          if strSleepTime.isSome ∨ strSampleCnt.isSome then
            setTimerTimeout fl mul
              { o with
                sleepTime := if sleepTime < 0 then 10000 else sleepTime
                sampleCnt := if sampleCnt = 0 then 500 else sampleCnt }
          else some { o with sleepTime, sampleCnt }

end Timeout

/-- The timeout is at least a second and covers the requested sleeps, and the test goes on. -/
def Covers (s n : ℤ) (o : Option TimerOpts) : Prop :=
  ∃ r, o = some r ∧ r.ended = false ∧ 1 ≤ r.timeout ∧ s * n ≤ 1000000 * r.timeout

section Timeout

variable {fl : ℚ → ℚ} {s n : ℤ}

/-- A multiplier that is not below 1 makes no timeout shorter. -/
theorem le_tstMultiplyTimeout (hfl : FloatRounding fl) (mul : TimeoutMul) {t : ℕ}
    (ht : t ≤ 2 ^ 24) : t ≤ tstMultiplyTimeout fl mul t := by
  apply Nat.le_floor
  calc
    (t : ℚ) = fl t := (hfl.exact t ht).symm
    _ ≤ fl (fl t * mul.value) := by
        apply hfl.mono
        rw [hfl.exact t ht]
        exact le_mul_of_one_le_right (Nat.cast_nonneg t) mul.one_le

/-- Without `LTP_TIMEOUT_MUL` it is 1. -/
def TimeoutMul.unset : TimeoutMul := ⟨1, le_rfl, by norm_num⟩

theorem tstMultiplyTimeout_unset (hfl : FloatRounding fl) {t : ℕ} (ht : t ≤ 2 ^ 24) :
    tstMultiplyTimeout fl .unset t = t := by
  rw [tstMultiplyTimeout, TimeoutMul.unset, mul_one, hfl.exact t ht, hfl.exact t ht,
    Nat.floor_natCast]

/-- An accepted number lies within the bounds. -/
theorem tstParseInt_bounds {str : Text} {min max val : ℤ} (h : tstParseInt str min max = .ok val) :
    min ≤ val ∧ val ≤ max := by
  unfold tstParseInt at h
  split at h
  next => cases h
  next minus digits rest _ =>
    generalize (if minus = true then -(digits : ℤ) else digits) = rval at h
    dsimp only at h
    split_ifs at h with hrest hbounds
    cases h
    omega

/-- Two accepted options come to the product. -/
theorem parseTimerOpts_accepted {mul : TimeoutMul} {strSleepTime strSampleCnt : Text}
    {o : TimerOpts} (hs : tstParseInt strSleepTime 0 intMax = .ok s)
    (hn : tstParseInt strSampleCnt 1 intMax = .ok n) :
    parseTimerOpts fl mul (some strSleepTime) (some strSampleCnt) o =
      setTimerTimeout fl mul { o with sleepTime := s, sampleCnt := n } := by
  have hs0 := (tstParseInt_bounds hs).1
  have hn1 := (tstParseInt_bounds hn).1
  have hparse : ∀ {str : Text} {min val : ℤ}, tstParseInt str min intMax = .ok val →
      (some str).mapM (tstParseInt · min intMax) = .ok (some val) := by
    intro str min val h
    change some <$> tstParseInt str min intMax = _
    rw [h]
    rfl
  rw [parseTimerOpts, hparse hs, hparse hn]
  simp only [Option.getD_some, Option.isSome_some, or_self, if_true]
  rw [if_neg (by omega), if_neg (by omega)]

/-- The seconds that are asked for. -/
def askedSeconds (total : ℤ) : ℤ := total / 1000000 + total / 1000000 / 10

/-- The timeout covers the sleeps when their product is an `int` and has whole seconds, and the
multiplied seconds are enough. -/
theorem covers_iff {mul : TimeoutMul} {o : TimerOpts} (ho : o.ended = false)
    (hs : 0 ≤ o.sleepTime) (hn : 0 ≤ o.sampleCnt) :
    Covers o.sleepTime o.sampleCnt (setTimerTimeout fl mul o) ↔
      o.sleepTime * o.sampleCnt < 2 ^ 31 ∧ 1000000 ≤ o.sleepTime * o.sampleCnt ∧
        1 ≤ tstMultiplyTimeout fl mul (askedSeconds (o.sleepTime * o.sampleCnt)).toNat ∧
        o.sleepTime * o.sampleCnt ≤
          1000000 * tstMultiplyTimeout fl mul (askedSeconds (o.sleepTime * o.sampleCnt)).toNat := by
  have htotal : 0 ≤ o.sleepTime * o.sampleCnt := mul_nonneg hs hn
  unfold Covers setTimerTimeout
  generalize o.sleepTime * o.sampleCnt = total at htotal
  have hdiv : total.tdiv 1000000 + (total.tdiv 1000000).tdiv 10 = askedSeconds total := by
    rw [Int.tdiv_eq_ediv_of_nonneg htotal, Int.tdiv_eq_ediv_of_nonneg (by omega), askedSeconds]
  by_cases hfits : total < 2 ^ 31
  · have hchecked : checked 32 total = some total := checked_of_fits ⟨by omega, by omega⟩
    rw [hchecked]
    simp only [Option.bind_eq_bind, Option.bind_some, hdiv, Option.some.injEq, exists_eq_left',
      hfits, true_and]
    by_cases hsecond : 1000000 ≤ total
    · have hasked : 1 ≤ askedSeconds total := by
        unfold askedSeconds
        omega
      rw [tstSetTimeout, if_neg (by omega), if_neg (by omega)]
      simp [ho, hsecond]
    · have hasked : askedSeconds total = 0 := by
        unfold askedSeconds
        omega
      rw [hasked, tstSetTimeout, if_neg (by decide), if_pos (by decide)]
      simp [TimerOpts.brk, hsecond]
  · have hchecked : checked 32 total = none := if_neg fun h => hfits h.2
    rw [hchecked]
    constructor
    · rintro ⟨r, hnone, -⟩
      cases hnone
    · rintro ⟨hlt, -⟩
      exact absurd hlt hfits

end Timeout

/-- The timeout of accepted options covers the requested sleeps, with every multiplier, exactly
when these add up to a second at least and to less than the range of `int`, and are whole
seconds or ten seconds at least. -/
theorem parseTimerOpts_iff (fl : ℚ → ℚ) (hfl : FloatRounding fl) (strSleepTime strSampleCnt : Text)
    (s n : ℤ) (o : TimerOpts) (ho : o.ended = false)
    (hs : tstParseInt strSleepTime 0 intMax = .ok s)
    (hn : tstParseInt strSampleCnt 1 intMax = .ok n) :
    (∀ mul, Covers s n (parseTimerOpts fl mul (some strSleepTime) (some strSampleCnt) o)) ↔
      1000000 ≤ s * n ∧ s * n < 2 ^ 31 ∧ (s * n % 1000000 = 0 ∨ 10000000 ≤ s * n) := by
  have hs0 := (tstParseInt_bounds hs).1
  have hn1 := (tstParseInt_bounds hn).1
  have hcovers : ∀ mul,
      Covers s n (parseTimerOpts fl mul (some strSleepTime) (some strSampleCnt) o) ↔
      s * n < 2 ^ 31 ∧ 1000000 ≤ s * n ∧
        1 ≤ tstMultiplyTimeout fl mul (askedSeconds (s * n)).toNat ∧
        s * n ≤ 1000000 * tstMultiplyTimeout fl mul (askedSeconds (s * n)).toNat := by
    intro mul
    rw [parseTimerOpts_accepted hs hn]
    exact covers_iff (o := { o with sleepTime := s, sampleCnt := n }) ho hs0
      (show 0 ≤ n by omega)
  simp only [hcovers]
  generalize s * n = total
  constructor
  · intro h
    obtain ⟨hlt, hle, -, hcover⟩ := h .unset
    have hsmall : (askedSeconds total).toNat ≤ 2 ^ 24 := by
      unfold askedSeconds
      omega
    rw [tstMultiplyTimeout_unset hfl hsmall] at hcover
    unfold askedSeconds at hcover
    omega
  · rintro ⟨hle, hlt, hwhole⟩ mul
    have hsmall : (askedSeconds total).toNat ≤ 2 ^ 24 := by
      unfold askedSeconds
      omega
    have hmul := le_tstMultiplyTimeout hfl mul hsmall
    have hcover : 1 ≤ (askedSeconds total).toNat ∧
        total ≤ 1000000 * (askedSeconds total).toNat := by
      unfold askedSeconds
      omega
    exact ⟨hlt, hle, by omega, by omega⟩

theorem parseTimerOpts_iff_defaults :
    Covers 10000 500 (parseTimerOpts id .unset (some (txt "10000")) (some (txt "500")) {}) :=
  (parseTimerOpts_iff id ⟨fun _ _ h => h, fun _ _ => rfl⟩ (txt "10000") (txt "500") 10000 500 {} rfl
    rfl rfl).mpr (by decide) .unset

/-- Half a second of sleeps ends the test, and so may five thousand seconds, whose product
overflows; one and a half seconds get a timeout of one. -/
theorem parseTimerOpts_short :
    (parseTimerOpts id .unset (some (txt "1000")) (some (txt "500")) {}).map (·.messages) =
        some [⟨.brok, txt "timeout must to be >= 1! (0)", false⟩] ∧
      parseTimerOpts id .unset (some (txt "10000000")) (some (txt "500")) {} = none ∧
      (parseTimerOpts id .unset (some (txt "3000")) (some (txt "500")) {}).map (·.timeout) =
        some 1 :=
  ⟨rfl, rfl, by
    have hexact : FloatRounding id := ⟨fun _ _ h => h, fun _ _ => rfl⟩
    have hone := tstMultiplyTimeout_unset hexact (t := 1) (by decide)
    exact congrArg some hone⟩

end EDDTs.LtpLib
