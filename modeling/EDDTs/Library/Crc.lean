import Mathlib.Logic.Function.Iterate
import Mathlib.Tactic.Common

/-!
# Reflected cyclic redundancy checks

The bit-by-bit algorithm, for any width and polynomial, and the lemma behind the
tables: the step is linear in exclusive or, and the high bits of the register are
only moved down.
-/

namespace EDDTs.Library

section Crc

variable {w : ℕ} (poly : BitVec w)

/-- One bit: the register is moved down, and the polynomial is added for a bit that
falls out. -/
def crcBit (c : BitVec w) : BitVec w := if c.getLsbD 0 then (c >>> 1) ^^^ poly else c >>> 1

/-- One byte: it is added to the low end of the register, which then takes eight steps. -/
def crcByte (c : BitVec w) (b : BitVec 8) : BitVec w := (crcBit poly)^[8] (c ^^^ b.setWidth w)

/-- The reflected CRC with the initial value `init` and the final value `xorOut`. -/
def crc (init xorOut : BitVec w) (buf : List (BitVec 8)) : BitVec w :=
  buf.foldl (crcByte poly) init ^^^ xorOut

theorem crcBit_xor (a b : BitVec w) : crcBit poly (a ^^^ b) = crcBit poly a ^^^ crcBit poly b := by
  simp only [crcBit, BitVec.getLsbD_xor, BitVec.ushiftRight_xor_distrib]
  cases a.getLsbD 0 <;> cases b.getLsbD 0 <;> simp
  · ac_rfl
  · ac_rfl
  · calc
      a >>> 1 ^^^ b >>> 1 = a >>> 1 ^^^ b >>> 1 ^^^ (poly ^^^ poly) := by simp
      _ = a >>> 1 ^^^ poly ^^^ (b >>> 1 ^^^ poly) := by ac_rfl

theorem crcBit_iterate_xor (n : ℕ) (a b : BitVec w) :
    (crcBit poly)^[n] (a ^^^ b) = (crcBit poly)^[n] a ^^^ (crcBit poly)^[n] b := by
  induction n generalizing a b with
  | zero => rfl
  | succ n ih => simp only [Function.iterate_succ_apply, crcBit_xor, ih]

/-- Bits above the lowest `n` are only moved down by `n` steps. -/
theorem crcBit_iterate_high {y : BitVec w} {n : ℕ} (hy : ∀ i < n, y.getLsbD i = false) :
    (crcBit poly)^[n] y = y >>> n := by
  induction n with
  | zero => simp
  | succ n ih =>
      have hlow : (y >>> n).getLsbD 0 = false := by simpa using hy n (Nat.lt_succ_self n)
      rw [Function.iterate_succ_apply', ih fun i hi => hy i (Nat.lt_succ_of_lt hi), crcBit, hlow,
        BitVec.shiftRight_add]
      rfl

/-- The lowest bits of a register. -/
def lowBits (n : ℕ) (x : BitVec w) : BitVec w := (x.setWidth n).setWidth w

theorem getLsbD_lowBits (n : ℕ) (x : BitVec w) (i : ℕ) :
    (lowBits n x).getLsbD i = (decide (i < n) && x.getLsbD i) := by
  by_cases hi : i < w
  · simp [lowBits, BitVec.getLsbD_setWidth, hi]
  · simp [lowBits, BitVec.getLsbD_setWidth, hi, BitVec.getLsbD_of_ge x i (Nat.le_of_not_lt hi)]

/-- `n` steps take the lowest `n` bits through the polynomial and move the others down. -/
theorem crcBit_iterate_eq (n : ℕ) (x : BitVec w) :
    (crcBit poly)^[n] x = (crcBit poly)^[n] (lowBits n x) ^^^ x >>> n := by
  have hsplit : x = lowBits n x ^^^ (lowBits n x ^^^ x) := by
    rw [← BitVec.xor_assoc, BitVec.xor_self, BitVec.zero_xor]
  have hclear : ∀ i < n, (lowBits n x ^^^ x).getLsbD i = false := by
    intro i hi
    rw [BitVec.getLsbD_xor, getLsbD_lowBits, decide_eq_true hi, Bool.true_and, Bool.xor_self]
  have hmoved : (lowBits n x ^^^ x) >>> n = x >>> n := by
    apply BitVec.eq_of_getLsbD_eq
    intro i _
    have hout : ¬ n + i < n := Nat.not_lt.mpr (Nat.le_add_right n i)
    simp [BitVec.getLsbD_ushiftRight, BitVec.getLsbD_xor, getLsbD_lowBits, hout]
  calc
    (crcBit poly)^[n] x = (crcBit poly)^[n] (lowBits n x ^^^ (lowBits n x ^^^ x)) := by rw [← hsplit]
    _ = (crcBit poly)^[n] (lowBits n x) ^^^ (crcBit poly)^[n] (lowBits n x ^^^ x) :=
        crcBit_iterate_xor poly n _ _
    _ = (crcBit poly)^[n] (lowBits n x) ^^^ x >>> n := by
        rw [crcBit_iterate_high poly hclear, hmoved]

/-- A byte of the buffer does not reach the bits that are moved down. -/
theorem crcByte_eq (c : BitVec w) (b : BitVec 8) :
    crcByte poly c b = (crcBit poly)^[8] (lowBits 8 (c ^^^ b.setWidth w)) ^^^ c >>> 8 := by
  have hbyte : b.setWidth w >>> 8 = 0#w := by
    apply BitVec.eq_of_getLsbD_eq
    intro i _
    simp [BitVec.getLsbD_ushiftRight, BitVec.getLsbD_setWidth]
  rw [crcByte, crcBit_iterate_eq, BitVec.ushiftRight_xor_distrib, hbyte, BitVec.xor_zero]

end Crc

end EDDTs.Library
