import EDDTs.Boards.Resm
import EDDTs.Library.Calendar
import Mathlib.Tactic.Common

/-!
# The test of the real time clock

Two tests of `rtc_test`: one compares the clock with the system time, the other sets an alarm.
Both boards have the same source.
-/

namespace EDDTs.Boards

open Library

/-- `struct rtc_time`, and those fields of `struct tm` that are used. -/
structure RtcTime where
  tmSec : Int32
  tmMin : Int32
  tmHour : Int32
  tmMday : Int32
  tmMon : Int32
  tmYear : Int32
  tmWday : Int32
  deriving DecidableEq, Repr

/-- `%d` of a field. -/
def fieldText (x : Int32) : Text := intText x.toInt

/-- `%02d` of a field. -/
def fieldText2 (x : Int32) : Text := padZero 2 x.toInt

/-- `%02d:%02d:%02d` of the time of day. -/
def timeText (t : RtcTime) : Text :=
  fieldText2 t.tmHour ++ txt ":" ++ fieldText2 t.tmMin ++ txt ":" ++ fieldText2 t.tmSec

/-- `asctime`. -/
def asctime (tm : RtcTime) : Text :=
  let wday := ["Sun", "Mon", "Tue", "Wed", "Thu", "Fri", "Sat"].getD tm.tmWday.toInt.toNat "???"
  let mon := ["Jan", "Feb", "Mar", "Apr", "May", "Jun", "Jul", "Aug", "Sep", "Oct", "Nov",
    "Dec"].getD tm.tmMon.toInt.toNat "???"
  txt wday ++ txt " " ++ txt mon ++ padLeft 3 (fieldText tm.tmMday) ++ txt " " ++ timeText tm ++
    txt " " ++ fieldText (tm.tmYear + 1900) ++ txt "\n"

/-- The condition under which the two times are taken to agree. -/
def timesAgree (rtcTm tm : RtcTime) : Bool :=
  rtcTm.tmHour = tm.tmHour && rtcTm.tmMin = tm.tmMin &&
    (rtcTm.tmSec - 10 ≤ tm.tmSec && tm.tmSec ≤ rtcTm.tmSec + 10)

/-- `rtc_system_time_compare_test`, with what `RTC_RD_TIME` and `localtime` answer. -/
def rtcSystemTimeCompareTest (rdTime : Option RtcTime) (tm : RtcTime) : Outcome :=
  let start : Message := ⟨.info, txt "RTC & SYSTEM TIME COMPARE TEST:", false⟩
  match rdTime with
  | none => ⟨[start, ⟨.fail, txt "RTC_RD_TIME ioctl failed", true⟩], false, []⟩
  | some rtcTm =>
      let messages : List Message := [start, ⟨.info, txt "RTC time is " ++ timeText rtcTm, false⟩,
        ⟨.info, txt "System time is " ++ timeText tm, false⟩]
      let printed := txt "system time " ++ asctime tm
      if timesAgree rtcTm tm then
        ⟨messages ++ [⟨.pass, txt "RTC & SYSTEM COMPARE TEST Passed", false⟩], false, printed⟩
      else
        ⟨messages ++ [⟨.conf, txt "RTC & SYSTEM COMPARE TEST Failed", false⟩], true, printed⟩

/-! ### The alarm -/

/-- The result of a call that fills a value in, or fails with `EINVAL` or another error. -/
inductive Answer (α : Type)
  | ok (value : α)
  | einval
  | error
  deriving DecidableEq, Repr

/-- How the device answers the calls of the alarm test, in their order. -/
structure AlarmAnswers where
  aieOn : Bool
  aieOff : Bool
  almSet : Answer Unit
  almRead : Answer RtcTime
  aieOnAgain : Bool
  select : Int
  read : Bool
  aieOffAgain : Bool
  deriving DecidableEq, Repr

/-- The alarm is set to a time five seconds after the one in `rtc_tm`. -/
def alarmTime (rtcTm : RtcTime) : RtcTime :=
  let t := { rtcTm with tmSec := rtcTm.tmSec + 5 }
  let t := if 60 ≤ t.tmSec then { t with tmSec := t.tmSec % 60, tmMin := t.tmMin + 1 } else t
  let t := if t.tmMin = 60 then { t with tmMin := 0, tmHour := t.tmHour + 1 } else t
  if t.tmHour = 24 then { t with tmHour := 0 } else t

/-- The last part of `rtc_alarm_test`, from the second `RTC_AIE_ON` on. -/
def waitForAlarm (answers : AlarmAnswers) : List Message :=
  if answers.aieOnAgain = false then [⟨.info, txt "RTC_AIE_ON ioctl failed", true⟩]
  else ⟨.info, txt "Waiting 5 seconds for the alarm...", false⟩ ::
    if answers.select = -1 then [⟨.fail, txt "select failed", true⟩]
    else if answers.select = 0 then [⟨.fail, txt "Timed out waiting for the alarm", false⟩]
    else if answers.read = false then [⟨.fail, txt "read failed", true⟩]
    else ⟨.info, txt "Alarm rang.", false⟩ ::
      if answers.aieOffAgain = false then [⟨.fail, txt "RTC_AIE_OFF ioctl failed", true⟩]
      else [⟨.pass, txt "RTC ALARM TEST Passed", false⟩]

/-- The middle part, from `RTC_ALM_SET` on. -/
def setAlarm (answers : AlarmAnswers) : List Message :=
  match answers.almSet with
  | .einval => [⟨.conf, txt "RTC_ALM_SET not supported", true⟩]
  | .error => [⟨.fail, txt "RTC_ALM_SET ioctl failed", true⟩]
  | .ok () =>
      match answers.almRead with
      -- the test goes on with a device that cannot read the alarm back
      | .einval => ⟨.conf, txt "RTC_ALM_READ not suported", true⟩ :: waitForAlarm answers
      | .error => [⟨.fail, txt "RTC_ALM_READ ioctl failed", true⟩]
      | .ok t => ⟨.info, txt "Alarm time set to " ++ timeText t ++ txt ".", false⟩ ::
          waitForAlarm answers

/-- What the alarm test reports, and the time that it passes to `RTC_ALM_SET`. -/
structure AlarmRun extends Outcome where
  programmed : Option RtcTime := none
  deriving DecidableEq, Repr

/-- `rtc_alarm_test`. Nothing assigns `rtc_tm` before it is used: it holds what the stack
held. -/
def rtcAlarmTest (answers : AlarmAnswers) (rtcTm : RtcTime) : AlarmRun :=
  let start : Message := ⟨.info, txt "RTC ALARM TEST :", false⟩
  if answers.aieOn = false then ⟨⟨[start, ⟨.info, txt "ALARM NOT SUPPORTED", true⟩], false, []⟩, none⟩
  else if answers.aieOff = false then
    ⟨⟨[start, ⟨.fail, txt "RTC_AIE_OFF ioctl failed", true⟩], false, []⟩, none⟩
  else ⟨⟨start :: setAlarm answers, false, []⟩, some (alarmTime rtcTm)⟩

/-! ### Calendar readings -/

/-- A reading of a clock that is a moment of the calendar. -/
structure CalendarReading extends RtcTime where
  sec_range : 0 ≤ tmSec.toInt ∧ tmSec.toInt ≤ 60
  min_range : 0 ≤ tmMin.toInt ∧ tmMin.toInt < 60
  hour_range : 0 ≤ tmHour.toInt ∧ tmHour.toInt < 24
  mon_range : 0 ≤ tmMon.toInt
  mday_range : 0 ≤ tmMday.toInt
  date_valid : CivilDate.Valid ⟨tmYear.toInt + 1900, tmMon.toInt.toNat, tmMday.toInt.toNat⟩

namespace CalendarReading

def date (r : CalendarReading) : CivilDate :=
  ⟨r.tmYear.toInt + 1900, r.tmMon.toInt.toNat, r.tmMday.toInt.toNat⟩

/-- The seconds since the beginning of the year 1. -/
def instant (r : CalendarReading) : Int :=
  86400 * r.date.dayNumber + 3600 * r.tmHour.toInt + 60 * r.tmMin.toInt + r.tmSec.toInt

/-- The two readings are of one hour and minute of a day, perhaps of different days. -/
def SameMinuteOfDay (r s : CalendarReading) : Prop := r.tmHour = s.tmHour ∧ r.tmMin = s.tmMin

/-- The two readings are of one minute. -/
def SameMinute (r s : CalendarReading) : Prop := r.date = s.date ∧ r.SameMinuteOfDay s

/-- Readings of different days at one minute of the day are far apart. -/
theorem far_of_date_ne {r s : CalendarReading} (hday : r.SameMinuteOfDay s)
    (hdate : r.date ≠ s.date) : 10 < (r.instant - s.instant).natAbs := by
  have hnumber : r.date.dayNumber ≠ s.date.dayNumber :=
    fun h => hdate (CivilDate.dayNumber_injective r.date_valid s.date_valid h)
  obtain ⟨hhour, hmin⟩ := hday
  have hr := r.sec_range
  have hs := s.sec_range
  rw [instant, instant, hhour, hmin]
  omega

/-- Readings of one minute are as far apart as their seconds. -/
theorem instant_sub_of_sameMinute {r s : CalendarReading} (h : r.SameMinute s) :
    r.instant - s.instant = r.tmSec.toInt - s.tmSec.toInt := by
  obtain ⟨hdate, hhour, hmin⟩ := h
  rw [instant, instant, hdate, hhour, hmin]
  omega

end CalendarReading

/-! ### The comparison -/

theorem timesAgree_iff (r s : CalendarReading) :
    timesAgree r.toRtcTime s.toRtcTime = true ↔
      r.SameMinuteOfDay s ∧ (r.tmSec.toInt - s.tmSec.toInt).natAbs ≤ 10 := by
  have hr := r.sec_range
  have hsub : (r.tmSec - 10).toInt = r.tmSec.toInt - 10 := by
    rw [Int32.toInt_sub, show (10 : Int32).toInt = 10 by decide]
    exact Int.bmod_eq_of_le (by omega) (by omega)
  have hadd : (r.tmSec + 10).toInt = r.tmSec.toInt + 10 := by
    rw [Int32.toInt_add, show (10 : Int32).toInt = 10 by decide]
    exact Int.bmod_eq_of_le (by omega) (by omega)
  simp only [timesAgree, Bool.and_eq_true, decide_eq_true_eq, Int32.le_iff_toInt_le, hsub, hadd,
    CalendarReading.SameMinuteOfDay]
  constructor
  · rintro ⟨hday, hlow, hhigh⟩
    exact ⟨hday, by omega⟩
  · rintro ⟨hday, hsec⟩
    exact ⟨hday, by omega, by omega⟩

theorem rtcSystemTimeCompareTest_reports (rtcTm tm : RtcTime) :
    (rtcSystemTimeCompareTest (some rtcTm) tm).Reports .pass ↔ timesAgree rtcTm tm = true := by
  by_cases h : timesAgree rtcTm tm = true <;>
    simp [rtcSystemTimeCompareTest, Outcome.Reports, h]

/-- The comparison passes exactly the readings that are at most ten seconds apart, when the
readings are of one minute, or are further apart than that and not, on different days, of one
minute of the day and at most ten seconds of that minute apart. -/
theorem rtcSystemTimeCompareTest_passes_iff (rtc sys : CalendarReading) :
    ((rtcSystemTimeCompareTest (some rtc.toRtcTime) sys.toRtcTime).Reports .pass ↔
        (rtc.instant - sys.instant).natAbs ≤ 10) ↔
      rtc.SameMinute sys ∨
        (10 < (rtc.instant - sys.instant).natAbs ∧
          ¬ (rtc.SameMinuteOfDay sys ∧ (rtc.tmSec.toInt - sys.tmSec.toInt).natAbs ≤ 10)) := by
  rw [rtcSystemTimeCompareTest_reports, timesAgree_iff]
  by_cases hsame : rtc.SameMinute sys
  · rw [CalendarReading.instant_sub_of_sameMinute hsame]
    exact iff_of_true (and_iff_right hsame.2) (Or.inl hsame)
  · by_cases hclose : (rtc.instant - sys.instant).natAbs ≤ 10
    · -- readings of one minute of the day would be of different days, hence far apart
      have hminute : ¬ rtc.SameMinuteOfDay sys := by
        intro hday
        have hfar := CalendarReading.far_of_date_ne hday fun hdate => hsame ⟨hdate, hday⟩
        omega
      apply iff_of_false
      · intro h
        exact hminute (h.mpr hclose).1
      · rintro (h | ⟨hfar, -⟩)
        · exact hsame h
        · omega
    · simp only [hsame, hclose, iff_false, false_or]
      exact (and_iff_right (Nat.lt_of_not_le hclose)).symm

/-- Noon on the first day of 2020. -/
def noon : CalendarReading where
  tmSec := 0
  tmMin := 0
  tmHour := 12
  tmMday := 1
  tmMon := 0
  tmYear := 120
  tmWday := 3
  sec_range := by decide
  min_range := by decide
  hour_range := by decide
  mon_range := by decide
  mday_range := by decide
  date_valid := by decide

/-- One second before. -/
def beforeNoon : CalendarReading where
  tmSec := 59
  tmMin := 59
  tmHour := 11
  tmMday := 1
  tmMon := 0
  tmYear := 120
  tmWday := 3
  sec_range := by decide
  min_range := by decide
  hour_range := by decide
  mon_range := by decide
  mday_range := by decide
  date_valid := by decide

/-- Readings one second apart, of which the comparison does not approve. -/
theorem rtcSystemTimeCompareTest_noon :
    (noon.instant - beforeNoon.instant).natAbs = 1 ∧
      ¬ (rtcSystemTimeCompareTest (some noon.toRtcTime) beforeNoon.toRtcTime).Reports .pass := by
  decide +kernel

/-! ### The time of the alarm -/

/-- A time of day. -/
structure TimeOfDay where
  hour : ℕ
  min : ℕ
  sec : ℕ
  hour_lt : hour < 24
  min_lt : min < 60
  sec_lt : sec < 60

namespace TimeOfDay

/-- The time of day this number of seconds later. -/
def after (t : TimeOfDay) (n : ℕ) : TimeOfDay :=
  let seconds := (3600 * t.hour + 60 * t.min + t.sec + n) % 86400
  { hour := seconds / 3600
    min := seconds / 60 % 60
    sec := seconds % 60
    hour_lt := by omega
    min_lt := by omega
    sec_lt := by omega }

variable (t : TimeOfDay)

theorem after_sec : (t.after 5).sec = (t.sec + 5) % 60 := by
  simp only [after]
  omega

end TimeOfDay

/-- The hour, minute and second that are programmed. -/
def RtcTime.timeOfDay (t : RtcTime) : Int × Int × Int :=
  (t.tmHour.toInt, t.tmMin.toInt, t.tmSec.toInt)

section Alarm

/-- `x++` and `x += 5` on an `int` that wraps around. -/
theorem toInt_add (x y : Int32) (hy : 0 ≤ y.toInt) :
    (x + y).toInt = if x.toInt + y.toInt < 2 ^ 31 then x.toInt + y.toInt
      else x.toInt + y.toInt - 2 ^ 32 := by
  have hx := x.le_toInt
  have hx' := x.toInt_lt
  have hy' := y.toInt_lt
  rw [Int32.toInt_add]
  split
  · exact Int.bmod_eq_of_le (by omega) (by omega)
  · rw [Int.bmod_def]
    omega

theorem eq_iff_toInt (x y : Int32) : x = y ↔ x.toInt = y.toInt := Int32.toInt_inj.symm

variable (t : RtcTime)

/-- The carry out of the seconds. -/
def secCarry : Int := if 55 ≤ t.tmSec.toInt then 1 else 0

/-- The carry out of the minutes. -/
def minCarry : Int := if t.tmMin.toInt + secCarry t = 60 then 1 else 0

theorem secCarry_range : 0 ≤ secCarry t ∧ secCarry t ≤ 1 := by
  unfold secCarry
  split <;> decide

theorem minCarry_range : 0 ≤ minCarry t ∧ minCarry t ≤ 1 := by
  unfold minCarry
  split <;> decide

/-- What the stack has to hold for the alarm to be set to five seconds after the time of
day. -/
structure Fits (now : TimeOfDay) : Prop where
  sec_low : -5 ≤ t.tmSec.toInt
  sec_high : t.tmSec.toInt < 2 ^ 31 - 5
  sec : t.tmSec.toInt % 60 = now.sec
  min_range : 0 ≤ t.tmMin.toInt + secCarry t ∧ t.tmMin.toInt + secCarry t ≤ 60
  min : (t.tmMin.toInt + secCarry t) % 60 = (now.after 5).min
  hour_range : 0 ≤ t.tmHour.toInt + minCarry t ∧ t.tmHour.toInt + minCarry t ≤ 24
  hour : (t.tmHour.toInt + minCarry t) % 24 = (now.after 5).hour

/-- The minutes before the hour is carried. -/
def carriedMin : Int32 := if 60 ≤ t.tmSec + 5 then t.tmMin + 1 else t.tmMin

/-- The hours before the day is cut off. -/
def carriedHour : Int32 := if carriedMin t = 60 then t.tmHour + 1 else t.tmHour

theorem alarmTime_sec :
    (alarmTime t).tmSec = if 60 ≤ t.tmSec + 5 then (t.tmSec + 5) % 60 else t.tmSec + 5 := by
  simp only [alarmTime]
  split_ifs <;> rfl

theorem alarmTime_min :
    (alarmTime t).tmMin = if carriedMin t = 60 then 0 else carriedMin t := by
  simp only [alarmTime, carriedMin]
  split_ifs <;> simp_all

theorem alarmTime_hour :
    (alarmTime t).tmHour = if carriedHour t = 24 then 0 else carriedHour t := by
  simp only [alarmTime, carriedHour, carriedMin]
  split_ifs <;> simp_all

theorem toInt_add_five (x : Int32) :
    (x + 5).toInt = if x.toInt < 2 ^ 31 - 5 then x.toInt + 5 else x.toInt + 5 - 2 ^ 32 := by
  rw [toInt_add x 5 (by decide), show (5 : Int32).toInt = 5 by decide]
  split <;> split <;> omega

theorem sixty_le_iff (x : Int32) (hx : x.toInt < 2 ^ 31 - 5) : 60 ≤ x + 5 ↔ 55 ≤ x.toInt := by
  rw [Int32.le_iff_toInt_le, toInt_add_five, if_pos hx, show (60 : Int32).toInt = 60 by decide]
  omega

/-- The seconds are programmed rightly. -/
theorem alarmTime_sec_iff (now : TimeOfDay) :
    (alarmTime t).tmSec.toInt = (now.after 5).sec ↔
      -5 ≤ t.tmSec.toInt ∧ t.tmSec.toInt < 2 ^ 31 - 5 ∧ t.tmSec.toInt % 60 = now.sec := by
  have hsec := now.sec_lt
  have hlow := t.tmSec.le_toInt
  rw [alarmTime_sec, TimeOfDay.after_sec]
  by_cases hwrap : t.tmSec.toInt < 2 ^ 31 - 5
  · have hsixty := sixty_le_iff t.tmSec hwrap
    have hfive := toInt_add_five t.tmSec
    rw [if_pos hwrap] at hfive
    by_cases hcarry : 60 ≤ t.tmSec + 5
    · have hcarry' := hsixty.mp hcarry
      rw [if_pos hcarry, Int32.toInt_mod, hfive, show (60 : Int32).toInt = 60 by decide,
        Int.tmod_eq_emod_of_nonneg (by omega)]
      omega
    · have hcarry' : ¬ 55 ≤ t.tmSec.toInt := fun h => hcarry (hsixty.mpr h)
      rw [if_neg hcarry, hfive]
      omega
  · have hfive := toInt_add_five t.tmSec
    have hhigh := t.tmSec.toInt_lt
    rw [if_neg hwrap] at hfive
    have hcarry : ¬ 60 ≤ t.tmSec + 5 := by
      rw [Int32.le_iff_toInt_le, hfive, show (60 : Int32).toInt = 60 by decide]
      omega
    rw [if_neg hcarry, hfive]
    omega

/-- An `int` that counts up by a carry and starts again at its limit. -/
theorem carried_iff {x y limit : Int32} {c n : Int} {N : ℕ} (hlimit : limit.toInt = N)
    (hN : 0 < N) (hc : 0 ≤ c ∧ c ≤ 1)
    (hx : x.toInt = if y.toInt + c < 2 ^ 31 then y.toInt + c else y.toInt + c - 2 ^ 32)
    (hn : 0 ≤ n ∧ n < N) :
    (if x = limit then (0 : Int32) else x).toInt = n ↔
      (0 ≤ y.toInt + c ∧ y.toInt + c ≤ N) ∧ (y.toInt + c) % N = n := by
  have hlow := y.le_toInt
  have hbound := limit.toInt_lt
  have hhigh := y.toInt_lt
  rw [hlimit] at hbound
  split_ifs at hx with hwrap
  · by_cases heq : x = limit
    · have hvalue : y.toInt + c = N := by rw [← hx, heq, hlimit]
      rw [if_pos heq, hvalue, Int.emod_self, and_iff_right ⟨by omega, le_refl _⟩]
      exact Iff.rfl
    · have hne : y.toInt + c ≠ N := fun h => heq (Int32.toInt_inj.mp (by rw [hx, h, hlimit]))
      rw [if_neg heq, hx]
      constructor
      · intro hvalue
        rw [Int.emod_eq_of_lt (by omega) (by omega)]
        omega
      · rintro ⟨hrange, hvalue⟩
        rwa [Int.emod_eq_of_lt (by omega) (by omega)] at hvalue
  · have hne : x ≠ limit := by
      intro heq
      rw [heq, hlimit] at hx
      omega
    rw [if_neg hne, hx]
    omega

theorem carriedMin_toInt (hsec : t.tmSec.toInt < 2 ^ 31 - 5) :
    (carriedMin t).toInt = if t.tmMin.toInt + secCarry t < 2 ^ 31 then t.tmMin.toInt + secCarry t
      else t.tmMin.toInt + secCarry t - 2 ^ 32 := by
  have hsixty := sixty_le_iff t.tmSec hsec
  by_cases hcarry : 60 ≤ t.tmSec + 5
  · rw [carriedMin, if_pos hcarry, secCarry, if_pos (hsixty.mp hcarry)]
    exact toInt_add t.tmMin 1 (by decide)
  · rw [carriedMin, if_neg hcarry, secCarry, if_neg fun h => hcarry (hsixty.mpr h), Int.add_zero,
      if_pos t.tmMin.toInt_lt]

theorem carriedHour_toInt (hsec : t.tmSec.toInt < 2 ^ 31 - 5) :
    (carriedHour t).toInt = if t.tmHour.toInt + minCarry t < 2 ^ 31 then
      t.tmHour.toInt + minCarry t else t.tmHour.toInt + minCarry t - 2 ^ 32 := by
  have hlow := t.tmMin.le_toInt
  have hhigh := t.tmMin.toInt_lt
  have hc := secCarry_range t
  have hsixty : carriedMin t = 60 ↔ t.tmMin.toInt + secCarry t = 60 := by
    rw [eq_iff_toInt, carriedMin_toInt t hsec, show (60 : Int32).toInt = 60 by decide]
    split <;> omega
  by_cases hcarry : carriedMin t = 60
  · rw [carriedHour, if_pos hcarry, minCarry, if_pos (hsixty.mp hcarry)]
    exact toInt_add t.tmHour 1 (by decide)
  · rw [carriedHour, if_neg hcarry, minCarry, if_neg fun h => hcarry (hsixty.mpr h), Int.add_zero,
      if_pos t.tmHour.toInt_lt]

/-- The alarm is set to five seconds after the time of day exactly when the stack fits. -/
theorem alarmTime_timeOfDay_iff (now : TimeOfDay) :
    (alarmTime t).timeOfDay =
        (((now.after 5).hour : Int), ((now.after 5).min : Int), ((now.after 5).sec : Int)) ↔
      Fits t now := by
  have hmin := (now.after 5).min_lt
  have hhour := (now.after 5).hour_lt
  have hc := secCarry_range t
  have hd := minCarry_range t
  have hsec := alarmTime_sec_iff t now
  rw [RtcTime.timeOfDay, Prod.mk.injEq, Prod.mk.injEq, hsec, alarmTime_min, alarmTime_hour]
  constructor
  · rintro ⟨h, m, hlow, hhigh, hmod⟩
    obtain ⟨hm, hm'⟩ := (carried_iff (N := 60) (by decide) (by decide) hc
      (carriedMin_toInt t hhigh) ⟨by omega, by omega⟩).mp m
    obtain ⟨hh, hh'⟩ := (carried_iff (N := 24) (by decide) (by decide) hd
      (carriedHour_toInt t hhigh) ⟨by omega, by omega⟩).mp h
    exact ⟨hlow, hhigh, hmod, hm, hm', hh, hh'⟩
  · intro hfits
    refine ⟨?_, ?_, hfits.sec_low, hfits.sec_high, hfits.sec⟩
    · exact (carried_iff (N := 24) (by decide) (by decide) hd
        (carriedHour_toInt t hfits.sec_high) ⟨by omega, by omega⟩).mpr
          ⟨hfits.hour_range, hfits.hour⟩
    · exact (carried_iff (N := 60) (by decide) (by decide) hc
        (carriedMin_toInt t hfits.sec_high) ⟨by omega, by omega⟩).mpr
          ⟨hfits.min_range, hfits.min⟩

end Alarm

/-- On a device with alarms, the alarm test programs the time five seconds after the time of
the clock exactly when what the stack held happens to fit. -/
theorem rtcAlarmTest_programs_iff (answers : AlarmAnswers) (hon : answers.aieOn = true)
    (hoff : answers.aieOff = true) (now : TimeOfDay) (rtcTm : RtcTime) :
    (rtcAlarmTest answers rtcTm).programmed.map RtcTime.timeOfDay =
        some (((now.after 5).hour : Int), ((now.after 5).min : Int), ((now.after 5).sec : Int)) ↔
      Fits rtcTm now := by
  have hrun : (rtcAlarmTest answers rtcTm).programmed = some (alarmTime rtcTm) := by
    simp [rtcAlarmTest, hon, hoff]
  rw [hrun, Option.map_some, Option.some.injEq]
  exact alarmTime_timeOfDay_iff rtcTm now

/-- A device on which every call of the alarm test succeeds. -/
def willing : AlarmAnswers :=
  ⟨true, true, .ok (), .einval, true, 1, true, true⟩

theorem rtcAlarmTest_programs_iff_midnight :
    (rtcAlarmTest willing ⟨55, 59, 23, 1, 0, 120, 3⟩).programmed.map RtcTime.timeOfDay =
        some (((TimeOfDay.after ⟨23, 59, 55, by decide, by decide, by decide⟩ 5).hour : Int),
          ((TimeOfDay.after ⟨23, 59, 55, by decide, by decide, by decide⟩ 5).min : Int),
          ((TimeOfDay.after ⟨23, 59, 55, by decide, by decide, by decide⟩ 5).sec : Int)) ↔
      Fits ⟨55, 59, 23, 1, 0, 120, 3⟩ ⟨23, 59, 55, by decide, by decide, by decide⟩ :=
  rtcAlarmTest_programs_iff willing rfl rfl ⟨23, 59, 55, by decide, by decide, by decide⟩
    ⟨55, 59, 23, 1, 0, 120, 3⟩

/-- With zeros on the stack the alarm is set to five seconds after midnight, also at noon. -/
theorem rtcAlarmTest_zero_stack :
    let target := TimeOfDay.after ⟨12, 0, 0, by decide, by decide, by decide⟩ 5
    let programmed :=
      (rtcAlarmTest willing ⟨0, 0, 0, 0, 0, 0, 0⟩).programmed.map RtcTime.timeOfDay
    programmed = some (0, 0, 5) ∧
      programmed ≠ some ((target.hour : Int), (target.min : Int), (target.sec : Int)) := by
  decide +kernel

end EDDTs.Boards
