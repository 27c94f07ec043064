import Mathlib.Algebra.Order.Ring.Nat
import Mathlib.Tactic.Common

/-!
# Numbers in memory

The bytes of a number on a machine that stores the lowest byte first, and values that are kept
in fewer bits than they have.
-/

namespace EDDTs.Library

/-- The lowest `k` bytes of a number. -/
def toBytes : ℕ → ℕ → List UInt8
  | 0, _ => []
  | k + 1, n => UInt8.ofNat (n % 256) :: toBytes k (n / 256)

/-- The number with these bytes. -/
def ofBytes : List UInt8 → ℕ
  | [] => 0
  | b :: bs => b.toNat + 256 * ofBytes bs

@[simp] theorem length_toBytes (k n : ℕ) : (toBytes k n).length = k := by
  induction k generalizing n with
  | zero => rfl
  | succ k ih => rw [toBytes, List.length_cons, ih]

theorem ofBytes_toBytes (k n : ℕ) : ofBytes (toBytes k n) = n % 256 ^ k := by
  induction k generalizing n with
  | zero => exact (Nat.mod_one n).symm
  | succ k ih =>
      have hbyte : (UInt8.ofNat (n % 256)).toNat = n % 256 :=
        (UInt8.toNat_ofNat' ..).trans (Nat.mod_mod n 256)
      rw [toBytes, ofBytes, hbyte, ih, Nat.pow_succ', Nat.mod_mul]

/-- A number of `8 * k` bits is read back. -/
theorem ofNat_ofBytes_toBytes {w : ℕ} (k : ℕ) (hw : w = 8 * k) (x : BitVec w) :
    BitVec.ofNat w (ofBytes (toBytes k x.toNat)) = x := by
  have hpow : 256 ^ k = 2 ^ w := by rw [hw, Nat.pow_mul]
  rw [ofBytes_toBytes, hpow, Nat.mod_eq_of_lt x.isLt, BitVec.ofNat_toNat, BitVec.setWidth_eq]

/-- A value survives a narrow field if it fits. -/
theorem setWidth_setWidth_eq_iff {v w : ℕ} (hvw : v ≤ w) (x : BitVec w) :
    (x.setWidth v).setWidth w = x ↔ x.toNat < 2 ^ v := by
  have hpow : 2 ^ v ≤ 2 ^ w := Nat.pow_le_pow_right (by decide) hvw
  have hlt : x.toNat % 2 ^ v < 2 ^ v := Nat.mod_lt _ (Nat.two_pow_pos v)
  rw [← BitVec.toNat_inj, BitVec.toNat_setWidth, BitVec.toNat_setWidth,
    Nat.mod_eq_of_lt (hlt.trans_le hpow)]
  constructor
  · intro h
    omega
  · exact Nat.mod_eq_of_lt

end EDDTs.Library
