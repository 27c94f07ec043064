import EDDTs.Boards.Resm
import Mathlib.Tactic.Common

/-!
# The temperature sensor test

`i2c_read_temp` reads two bytes from the sensor, at most three times, and puts the temperature
together from plain `char`s, whose sign depends on the compiler. Both boards have the same
source.
-/

namespace EDDTs.Boards

open Library

/-- A call of `read`: what it returns, and the two bytes of the buffer after it. -/
structure I2cRead where
  k : Int
  buf0 : UInt8
  buf1 : UInt8
  deriving DecidableEq, Repr

/-- A plain `char` as an `int`. -/
def charValue (signed : Bool) (b : UInt8) : BitVec 32 :=
  if signed then b.toBitVec.signExtend 32 else b.toBitVec.setWidth 32

/-- The two bytes put together, and shifted right as an `int`. -/
def shifted (signed : Bool) (buf0 buf1 : UInt8) : BitVec 32 :=
  (charValue signed buf0 <<< 8 ||| charValue signed buf1).sshiftRight 4

/-- The bits that are set to make a negative number of twelve bits negative. -/
def signCorrected (t : BitVec 32) : BitVec 32 :=
  if t &&& (1#32 <<< 11) ≠ 0#32 then t ||| 0xF800#32 else t

/-- `temperature` -/
def temperature (signed : Bool) (buf0 buf1 : UInt8) : BitVec 32 :=
  signCorrected (shifted signed buf0 buf1)

/-- `%04f` of `temperature * 0.0625`, which has four decimals and is printed with six. -/
def tempText (t : Int) : Text :=
  (if t < 0 then txt "-" else []) ++ natText (t.natAbs / 16) ++ txt "." ++
    padZero 6 ((t.natAbs % 16 * 62500 : ℕ) : Int)

/-- What the test reports, and the temperature in it. -/
structure TempRun extends Outcome where
  reported : Option Int := none
  deriving DecidableEq, Repr

/-- What is printed before a read that is not the first. -/
def retryMessage (errCount : ℕ) : List Message :=
  if 0 < errCount then [⟨.info, txt "Retrying...!", false⟩] else []

/-- What is reported after a complete read. -/
def reading (signed : Bool) (errCount : ℕ) (r : I2cRead) : TempRun :=
  let t := (temperature signed r.buf0 r.buf1).toInt
  ⟨⟨[⟨.info, txt "current temp : " ++ tempText t ++ txt " \t error: " ++ natText errCount, false⟩,
    ⟨.pass, txt "Temperature Test Passed", false⟩], false, []⟩, some t⟩

/-- What is reported after the third read that was not complete. -/
def failure : TempRun :=
  ⟨⟨[⟨.fail, txt "Temperature Read Test Failed", false⟩], true, []⟩, none⟩

/-- A pass of the loop, after `errCount` reads that were not complete. -/
def attempt (signed : Bool) (reads : ℕ → I2cRead) (errCount : ℕ) (onError : TempRun) : TempRun :=
  let run := if (reads errCount).k ≠ 2 then onError else reading signed errCount (reads errCount)
  { run with messages := retryMessage errCount ++ run.messages }

/-- The rest of the loop, when `left` more reads may follow the next one. -/
def readTempFrom (signed : Bool) (reads : ℕ → I2cRead) : ℕ → TempRun
  | 0 => attempt signed reads 2 failure
  | left + 1 => attempt signed reads (1 - left) (readTempFrom signed reads left)

/-- `i2c_read_temp` -/
def i2cReadTemp (signed : Bool) (reads : ℕ → I2cRead) : TempRun := readTempFrom signed reads 2

/-! ### The arithmetic -/

section Arithmetic

/-- The number that the sensor sends: the upper twelve bits, as a two's complement. -/
def twelveBits (buf0 buf1 : UInt8) : Int :=
  let n : ℕ := (256 * buf0.toNat + buf1.toNat) / 16
  if n < 2048 then n else n - 4096

theorem charValue_unsigned (b : UInt8) : (charValue false b).toInt = b.toNat := by
  have hb : b.toBitVec.toNat < 256 := b.toBitVec.isLt
  change (b.toBitVec.setWidth 32).toInt = b.toBitVec.toNat
  rw [BitVec.toInt_setWidth]
  exact Int.bmod_eq_of_le (by omega) (by omega)

theorem charValue_signed (b : UInt8) :
    (charValue true b).toInt = if b.toNat < 128 then (b.toNat : Int) else b.toNat - 256 := by
  change (b.toBitVec.signExtend 32).toInt = _
  rw [BitVec.toInt_signExtend_of_le (by decide), BitVec.toInt_eq_toNat_cond]
  change (if 2 * b.toNat < 2 ^ 8 then (b.toNat : Int) else b.toNat - (2 ^ 8 : ℕ)) = _
  split <;> split <;> omega

/-- The upper byte, moved up. -/
theorem toInt_shiftLeft_eight {x : BitVec 32} (hlow : -128 ≤ x.toInt) (hhigh : x.toInt ≤ 255) :
    (x <<< 8).toInt = 256 * x.toInt := by
  rw [BitVec.shiftLeft_eq_mul_twoPow, BitVec.toInt_mul,
    show (BitVec.twoPow 32 8).toInt = 256 by decide, Int.mul_comm]
  exact Int.bmod_eq_of_le (by omega) (by omega)

/-- A lower byte that is not negative goes into the free places. -/
theorem toInt_or_low {x : BitVec 32} (b : BitVec 8) (hlow : -128 ≤ x.toInt) (hhigh : x.toInt ≤ 255) :
    (x <<< 8 ||| b.setWidth 32).toInt = 256 * x.toInt + b.toNat := by
  have hb := b.isLt
  have hdisjoint : x <<< 8 &&& b.setWidth 32 = 0#32 := by
    apply BitVec.eq_of_getLsbD_eq
    intro i hi
    by_cases h : i < 8
    · simp [h]
    · simp [BitVec.getLsbD_of_ge b i (by omega)]
  rw [← BitVec.add_eq_or_of_and_eq_zero _ _ hdisjoint, BitVec.toInt_add,
    toInt_shiftLeft_eight hlow hhigh, BitVec.toInt_setWidth,
    Int.bmod_eq_of_le (n := (b.toNat : Int)) (by omega) (by omega)]
  exact Int.bmod_eq_of_le (by omega) (by omega)

/-- A lower byte that is negative covers the upper one. -/
theorem or_of_negative (x : BitVec 32) {b : BitVec 8} (h : b.msb = true) :
    x <<< 8 ||| b.signExtend 32 = b.signExtend 32 := by
  apply BitVec.eq_of_getLsbD_eq
  intro i hi
  by_cases hlow : i < 8
  · simp [hlow]
  · simp [BitVec.getLsbD_signExtend, hlow, hi, h]

theorem shifted_unsigned (buf0 buf1 : UInt8) :
    (shifted false buf0 buf1).toInt = (256 * buf0.toNat + buf1.toNat : Int) / 16 := by
  have h0 := charValue_unsigned buf0
  have hlt := buf0.toNat_lt
  rw [shifted, BitVec.toInt_sshiftRight, Int.shiftRight_eq_div_pow]
  change (charValue false buf0 <<< 8 ||| buf1.toBitVec.setWidth 32).toInt / 16 = _
  rw [toInt_or_low _ (by omega) (by omega), h0]
  rfl

theorem shifted_signed (buf0 : UInt8) {buf1 : UInt8} (h : buf1.toNat < 128) :
    (shifted true buf0 buf1).toInt =
      (256 * (if buf0.toNat < 128 then (buf0.toNat : Int) else buf0.toNat - 256) + buf1.toNat) /
        16 := by
  have h0 := charValue_signed buf0
  have hlt := buf0.toNat_lt
  have hmsb : buf1.toBitVec.msb = false := by
    rw [BitVec.msb_eq_decide]
    exact decide_eq_false (Nat.not_le.mpr h)
  have h1 : charValue true buf1 = buf1.toBitVec.setWidth 32 :=
    BitVec.signExtend_eq_setWidth_of_msb_false hmsb
  have hrange : -128 ≤ (charValue true buf0).toInt ∧ (charValue true buf0).toInt ≤ 255 := by
    rw [h0]
    split <;> omega
  rw [shifted, BitVec.toInt_sshiftRight, Int.shiftRight_eq_div_pow, h1,
    toInt_or_low _ hrange.1 hrange.2, h0]
  rfl

theorem shifted_signed_of_negative (buf0 : UInt8) {buf1 : UInt8} (h : 128 ≤ buf1.toNat) :
    (shifted true buf0 buf1).toInt = (buf1.toNat - 256 : Int) / 16 := by
  have h1 := charValue_signed buf1
  have hmsb : buf1.toBitVec.msb = true := by
    rw [BitVec.msb_eq_decide]
    exact decide_eq_true h
  have hor : charValue true buf0 <<< 8 ||| charValue true buf1 = charValue true buf1 :=
    or_of_negative _ hmsb
  rw [shifted, hor, BitVec.toInt_sshiftRight, Int.shiftRight_eq_div_pow, h1,
    if_neg (Nat.not_lt.mpr h)]
  rfl

/-- A number whose twelfth bit is clear is left alone. -/
theorem signCorrected_of_small {t : BitVec 32} (hlow : 0 ≤ t.toInt) (hhigh : t.toInt < 2048) :
    signCorrected t = t := by
  have hbit : t.getLsbD 11 = false := by
    apply Nat.testBit_lt_two_pow
    rw [BitVec.toInt_eq_toNat_cond] at hlow hhigh
    split at hlow <;> omega
  apply if_neg
  rw [not_not, show 1#32 <<< 11 = BitVec.twoPow 32 11 by decide, BitVec.and_twoPow, hbit]
  rfl

/-- So is a negative number, whose upper bits are set already. -/
theorem signCorrected_of_negative {t : BitVec 32} (hlow : -2048 ≤ t.toInt) (hhigh : t.toInt < 0) :
    signCorrected t = t := by
  have hupper : t.toNat / 2 ^ 11 = 2 ^ 21 - 1 := by
    have hlt := t.isLt
    rw [BitVec.toInt_eq_toNat_cond] at hlow hhigh
    split at hlow <;> omega
  have hsame : t ||| 0xF800#32 = t := by
    apply BitVec.eq_of_getLsbD_eq
    intro i hi
    rw [BitVec.getLsbD_or]
    by_cases h : 11 ≤ i
    · have hbit : t.getLsbD i = true := by
        have hshift := Nat.testBit_div_two_pow t.toNat (i := i - 11) (n := 11)
        rw [hupper, Nat.testBit_two_pow_sub_one, Nat.sub_add_cancel h] at hshift
        exact hshift.symm.trans (decide_eq_true (by omega))
      rw [hbit, Bool.true_or]
    · have hclear : ∀ j, j < 11 → (0xF800#32).getLsbD j = false := by decide
      rw [hclear i (by omega), Bool.or_false]
  unfold signCorrected
  split
  · exact hsame
  · rfl

/-- A positive number stays positive: the sixteen bits do not reach the sign of an `int`. -/
theorem signCorrected_nonneg {t : BitVec 32} (hlow : 0 ≤ t.toInt) (hhigh : t.toInt < 4096) :
    0 ≤ (signCorrected t).toInt := by
  have hsmall : t.toNat < 2 ^ 16 := by
    rw [BitVec.toInt_eq_toNat_cond] at hlow hhigh
    split at hlow <;> omega
  unfold signCorrected
  split
  · have hor : (t ||| 0xF800#32).toNat < 2 ^ 16 := by
      rw [BitVec.toNat_or]
      exact Nat.or_lt_two_pow hsmall (by decide)
    rw [BitVec.toInt_eq_toNat_of_lt (by omega)]
    omega
  · exact hlow

/-- The bytes from which the temperature is put together rightly. -/
def Faithful (signed : Bool) (buf0 buf1 : UInt8) : Prop :=
  if signed then buf1.toNat < 128 ∨ buf0.toNat = 255 else buf0.toNat < 128

theorem temperature_iff (signed : Bool) (buf0 buf1 : UInt8) :
    (temperature signed buf0 buf1).toInt = twelveBits buf0 buf1 ↔ Faithful signed buf0 buf1 := by
  have h0 := buf0.toNat_lt
  have h1 := buf1.toNat_lt
  cases signed with
  | false =>
      have ht := shifted_unsigned buf0 buf1
      simp only [temperature, twelveBits, Faithful, Bool.false_eq_true, if_false]
      by_cases h : buf0.toNat < 128
      · rw [signCorrected_of_small (by omega) (by omega), ht, if_pos (by omega)]
        exact iff_of_true (by omega) h
      · have hnonneg := signCorrected_nonneg (t := shifted false buf0 buf1) (by omega) (by omega)
        rw [if_neg (by omega)]
        exact iff_of_false (by omega) h
  | true =>
      simp only [temperature, twelveBits, Faithful, if_true]
      by_cases h : buf1.toNat < 128
      · have ht := shifted_signed buf0 h
        by_cases hsign : buf0.toNat < 128
        · rw [if_pos hsign] at ht
          rw [signCorrected_of_small (by omega) (by omega), ht, if_pos (by omega)]
          exact iff_of_true (by omega) (Or.inl h)
        · rw [if_neg hsign] at ht
          rw [signCorrected_of_negative (by omega) (by omega), ht, if_neg (by omega)]
          exact iff_of_true (by omega) (Or.inl h)
      · have ht := shifted_signed_of_negative buf0 (Nat.not_lt.mp h)
        rw [signCorrected_of_negative (by omega) (by omega), ht]
        split <;> omega

end Arithmetic

/-! ### The loop -/

section Loop

variable (signed : Bool) {reads : ℕ → I2cRead}

theorem attempt_of_complete {e : ℕ} (h : (reads e).k = 2) (onError : TempRun) :
    ¬ (attempt signed reads e onError).Reports .fail ∧
      (attempt signed reads e onError).reported =
        some (temperature signed (reads e).buf0 (reads e).buf1).toInt := by
  rw [attempt, if_neg (not_not_intro h)]
  refine ⟨?_, rfl⟩
  simp only [Outcome.Reports, reading, retryMessage]
  split <;> simp

theorem attempt_of_error {e : ℕ} (h : (reads e).k ≠ 2) (onError : TempRun) :
    ((attempt signed reads e onError).Reports .fail ↔ onError.Reports .fail) ∧
      (attempt signed reads e onError).reported = onError.reported := by
  rw [attempt, if_pos h]
  refine ⟨?_, rfl⟩
  simp only [Outcome.Reports, retryMessage]
  split <;> simp

/-- The first complete read from a place on, among those that the loop makes. -/
def FirstComplete (reads : ℕ → I2cRead) (start i : ℕ) : Prop :=
  start ≤ i ∧ i < 3 ∧ (reads i).k = 2 ∧ ∀ j, start ≤ j → j < i → (reads j).k ≠ 2

theorem firstComplete_of_complete {start i : ℕ} (h : (reads start).k = 2)
    (hi : FirstComplete reads start i) : i = start := by
  obtain ⟨hle, -, -, hbefore⟩ := hi
  by_contra hne
  exact hbefore start (Nat.le_refl _) (by omega) h

theorem firstComplete_of_error {start i : ℕ} (h : (reads start).k ≠ 2)
    (hi : FirstComplete reads start i) : FirstComplete reads (start + 1) i := by
  obtain ⟨hle, hlt, hk, hbefore⟩ := hi
  have hne : i ≠ start := fun heq => h (heq ▸ hk)
  exact ⟨by omega, hlt, hk, fun j hj hji => hbefore j (by omega) hji⟩

/-- What the rest of the loop does, by the reads that are left to it. -/
theorem readTempFrom_spec (reads : ℕ → I2cRead) {left : ℕ} (hleft : left ≤ 2) :
    ((readTempFrom signed reads left).Reports .fail ↔
        ∀ i, 2 - left ≤ i → i < 3 → (reads i).k ≠ 2) ∧
      ∀ i, FirstComplete reads (2 - left) i → (readTempFrom signed reads left).reported =
        some (temperature signed (reads i).buf0 (reads i).buf1).toInt := by
  induction left with
  | zero =>
      by_cases h : (reads 2).k = 2
      · obtain ⟨hfail, hreported⟩ := attempt_of_complete signed h failure
        refine ⟨iff_of_false hfail fun hall => hall 2 (Nat.le_refl _) (by decide) h, fun i hi => ?_⟩
        rw [firstComplete_of_complete h hi]
        exact hreported
      · obtain ⟨hfail, -⟩ := attempt_of_error signed h failure
        constructor
        · apply iff_of_true (hfail.mpr (by decide))
          intro i hlow hhigh
          obtain rfl : i = 2 := by omega
          exact h
        · intro i hi
          obtain ⟨hlow, hhigh, -⟩ := firstComplete_of_error h hi
          omega
  | succ left ih =>
      obtain ⟨ihfail, ihreported⟩ := ih (by omega)
      have hstart : 2 - (left + 1) = 1 - left := by omega
      have hnext : 2 - left = 1 - left + 1 := by omega
      rw [hstart]
      by_cases h : (reads (1 - left)).k = 2
      · obtain ⟨hfail, hreported⟩ :=
          attempt_of_complete signed h (readTempFrom signed reads left)
        refine ⟨iff_of_false hfail fun hall => hall (1 - left) (Nat.le_refl _) (by omega) h,
          fun i hi => ?_⟩
        rw [firstComplete_of_complete h hi]
        exact hreported
      · obtain ⟨hfail, hreported⟩ :=
          attempt_of_error signed h (readTempFrom signed reads left)
        constructor
        · apply (hfail.trans ihfail).trans
          rw [hnext]
          constructor
          · intro hall i hlow hhigh
            rcases Nat.eq_or_lt_of_le hlow with rfl | hlt
            · exact h
            · exact hall i hlt hhigh
          · intro hall i hlow hhigh
            exact hall i (by omega) hhigh
        · intro i hi
          exact hreported.trans (ihreported i (hnext ▸ firstComplete_of_error h hi))

end Loop

/-- The test fails exactly when its first three reads are not complete; and otherwise it reports
the number that the sensor sent exactly when the first complete read has bytes from which the
number is put together rightly. -/
theorem i2cReadTemp_reports_iff (signed : Bool) (reads : ℕ → I2cRead) :
    (((i2cReadTemp signed reads).Reports .fail ↔ ∀ i < 3, (reads i).k ≠ 2) ∧
        ∀ i, FirstComplete reads 0 i →
          (i2cReadTemp signed reads).reported = some (twelveBits (reads i).buf0 (reads i).buf1)) ↔
      ∀ i, FirstComplete reads 0 i → Faithful signed (reads i).buf0 (reads i).buf1 := by
  obtain ⟨hfail, hreported⟩ := readTempFrom_spec signed reads (Nat.le_refl 2)
  have hfails : (i2cReadTemp signed reads).Reports .fail ↔ ∀ i < 3, (reads i).k ≠ 2 := by
    rw [i2cReadTemp, hfail]
    simp
  rw [and_iff_right hfails]
  apply forall_congr'
  intro i
  apply imp_congr_right
  intro hi
  rw [i2cReadTemp, hreported i hi, Option.some.injEq, temperature_iff]

/-- One degree below zero, sent as `FF 00`, is reported as 4095 degrees where `char` is
unsigned. -/
theorem i2cReadTemp_minus_one :
    (i2cReadTemp false fun _ => ⟨2, 0xFF, 0x00⟩).reported = some (16 * 4095) ∧
      twelveBits 0xFF 0x00 = -16 := by
  decide

end EDDTs.Boards
