import EDDTs.Library.OnesComplement
import Mathlib.Algebra.Group.Nat.Even

/-!
# The checksum of the network stress tools

`calc_checksum` adds the 16-bit words of a packet in 32 bits and folds the carries twice. Of a
last word that is only half in the packet it takes the byte with the higher value.
-/

namespace EDDTs.NsTools

open Library

/-! ### The function -/

/-- The order of the bytes of a word in memory. -/
inductive ByteOrder where
  | little
  | big
  deriving DecidableEq, Repr

/-- The word at an address, from its two bytes. -/
def loadWord : ByteOrder → UInt8 → UInt8 → UInt16
  | .little, first, second => UInt16.ofNat (first.toNat + 256 * second.toNat)
  | .big, first, second => UInt16.ofNat (256 * first.toNat + second.toNat)

/-- The loop over whole words: the sum, and what is left of the packet. -/
def sumWords (order : ByteOrder) : UInt32 → List UInt8 → UInt32 × List UInt8
  | sum, a :: b :: rest => sumWords order (sum + (loadWord order a b).toUInt32) rest
  | sum, rest => (sum, rest)

/-- A byte that is left is added with the one behind the packet, under the mask. -/
def addRest (order : ByteOrder) (behind : UInt8) : UInt32 × List UInt8 → UInt32
  | (sum, []) => sum
  | (sum, a :: _) => sum + (loadWord order a behind &&& 0xff00).toUInt32

/-- `(sum & 0xffff) + (sum >> 16)` -/
def foldSum (sum : UInt32) : UInt32 := (sum &&& (0xffff : UInt32)) + (sum >>> (16 : UInt32))

/-- `calc_checksum`; `behind` is the byte behind the packet. -/
def calcChecksum (order : ByteOrder) (data : List UInt8) (behind : UInt8) : UInt16 :=
  let sum := addRest order behind (sumWords order 0 data)
  (~~~foldSum (foldSum sum)).toUInt16

/-- A word is stored at an even offset. -/
def storeWord (order : ByteOrder) (data : List UInt8) (k : ℕ) (v : UInt16) : List UInt8 :=
  let low := UInt8.ofNat (v.toNat % 256)
  let high := UInt8.ofNat (v.toNat / 256)
  match order with
  | .little => (data.set (2 * k) low).set (2 * k + 1) high
  | .big => (data.set (2 * k) high).set (2 * k + 1) low

/-! ### What it is for -/

/-- The words of a packet, with a zero byte behind an odd one. -/
def packetWords (order : ByteOrder) : List UInt8 → List ℕ
  | [] => []
  | [a] => [(loadWord order a 0).toNat]
  | a :: b :: rest => (loadWord order a b).toNat :: packetWords order rest

/-- The Internet checksum. -/
def internetChecksum (order : ByteOrder) (data : List UInt8) : ℕ :=
  2 ^ 16 - 1 - onesSum 16 (packetWords order data)

/-! ### The sum -/

section Sum

variable {order : ByteOrder} {data : List UInt8} {behind : UInt8}

theorem toNat_loadWord (order : ByteOrder) (a b : UInt8) :
    (loadWord order a b).toNat =
      match order with
      | .little => a.toNat + 256 * b.toNat
      | .big => 256 * a.toNat + b.toNat := by
  have ha := a.toNat_lt
  have hb := b.toNat_lt
  cases order <;> exact Nat.mod_eq_of_lt (by omega)

theorem and_ff00 {n : ℕ} (h : n < 2 ^ 16) : n &&& 0xff00 = n / 256 * 256 := by
  refine Nat.eq_of_testBit_eq fun i => ?_
  have hmask : (0xff00 : ℕ) = (2 ^ 8 - 1) * 2 ^ 8 := rfl
  have hhigh : n / 256 * 256 = n / 2 ^ 8 * 2 ^ 8 := rfl
  rw [hhigh, hmask, Nat.testBit_and, Nat.testBit_mul_two_pow, Nat.testBit_mul_two_pow,
    Nat.testBit_two_pow_sub_one, Nat.testBit_div_two_pow]
  by_cases hi : 8 ≤ i
  · rw [Nat.sub_add_cancel hi]
    by_cases hlow : i < 16
    · have hshift : i - 8 < 8 := by omega
      simp [hi, hshift]
    · have hbit : n.testBit i = false :=
        Nat.testBit_lt_two_pow (h.trans_le (Nat.pow_le_pow_right (by decide) (by omega)))
      simp [hbit]
  · simp [hi]

/-- The byte of the last word that is kept. -/
theorem toNat_high (order : ByteOrder) (a b : UInt8) :
    (loadWord order a b &&& 0xff00).toNat =
      match order with
      | .little => 256 * b.toNat
      | .big => 256 * a.toNat := by
  have ha := a.toNat_lt
  have hb := b.toNat_lt
  have hword := toNat_loadWord order a b
  rw [UInt16.toNat_and, show (0xff00 : UInt16).toNat = 0xff00 from rfl,
    and_ff00 (loadWord order a b).toNat_lt]
  cases order <;> · simp only at hword ⊢; omega

/-- The plain sum. -/
def rawSum (order : ByteOrder) (behind : UInt8) : List UInt8 → ℕ
  | [] => 0
  | [a] => (loadWord order a behind &&& 0xff00).toNat
  | a :: b :: rest => (loadWord order a b).toNat + rawSum order behind rest

theorem rawSum_le (order : ByteOrder) (behind : UInt8) (data : List UInt8) :
    rawSum order behind data ≤ (data.length + 1) / 2 * 65535 := by
  fun_induction rawSum order behind data with
  | case1 => exact Nat.zero_le _
  | case2 a =>
      have hlt := (loadWord order a behind &&& 0xff00).toNat_lt
      simp only [List.length_singleton]
      omega
  | case3 a b rest ih =>
      have hlt := (loadWord order a b).toNat_lt
      simp only [List.length_cons]
      omega

theorem toNat_foldSum (sum : UInt32) : (foldSum sum).toNat = foldCarry 16 sum.toNat := by
  have hlow : (sum &&& (0xffff : UInt32)).toNat = sum.toNat % 2 ^ 16 := by
    rw [UInt32.toNat_and]
    exact Nat.and_two_pow_sub_one_eq_mod sum.toNat 16
  have hhigh : (sum >>> (16 : UInt32)).toNat = sum.toNat / 2 ^ 16 := by
    rw [UInt32.toNat_shiftRight]
    exact Nat.shiftRight_eq_div_pow sum.toNat 16
  have hlt := sum.toNat_lt
  rw [foldSum, UInt32.toNat_add, hlow, hhigh, foldCarry]
  omega

theorem toNat_complement (sum : UInt32) :
    (~~~sum).toUInt16.toNat = 2 ^ 16 - 1 - sum.toNat % 2 ^ 16 := by
  have hlt := sum.toNat_lt
  rw [UInt32.toNat_toUInt16, UInt32.toNat_not]
  have hsize : UInt32.size = 2 ^ 32 := rfl
  omega

/-- The sum of a packet does not overflow. -/
theorem toNat_sum (order : ByteOrder) (behind : UInt8) (sum : UInt32) (data : List UInt8)
    (h : sum.toNat + rawSum order behind data < 2 ^ 32) :
    (addRest order behind (sumWords order sum data)).toNat =
      sum.toNat + rawSum order behind data := by
  fun_induction sumWords order sum data with
  | case1 sum a b rest ih =>
      rw [rawSum, ← Nat.add_assoc] at h
      have hadd : (sum + (loadWord order a b).toUInt32).toNat =
          sum.toNat + (loadWord order a b).toNat := by
        rw [UInt32.toNat_add, UInt16.toNat_toUInt32]
        omega
      rw [rawSum, ← Nat.add_assoc, ← hadd]
      exact ih (hadd ▸ h)
  | case2 sum rest hrest =>
      match rest with
      | [] => rfl
      | [a] =>
          rw [rawSum] at h
          rw [addRest, rawSum, UInt32.toNat_add, UInt16.toNat_toUInt32]
          omega
      | a :: b :: rest => exact absurd rfl (hrest a b rest)

/-- The checksum is the complement of the residue of the plain sum. -/
theorem toNat_calcChecksum (order : ByteOrder) (behind : UInt8) (h : data.length ≤ 65535) :
    ∃ r, IsResidue 16 r (rawSum order behind data) ∧
      (calcChecksum order data behind).toNat = 2 ^ 16 - 1 - r := by
  have hle := rawSum_le order behind data
  have hsum := toNat_sum order behind 0 data (by
    rw [UInt32.toNat_zero]
    omega)
  have hresidue : IsResidue 16 _ (rawSum order behind data) := isResidue_foldCarry (by omega)
  refine ⟨_, hresidue, ?_⟩
  rw [calcChecksum, toNat_complement, toNat_foldSum, toNat_foldSum, hsum, UInt32.toNat_zero,
    Nat.zero_add, Nat.mod_eq_of_lt hresidue.lt]

/-- The words of the packet are added, if the byte behind it does not count. -/
theorem rawSum_eq (behind : UInt8) (h : order = .big ∨ Even data.length) :
    rawSum order behind data = (packetWords order data).sum := by
  fun_induction packetWords order data with
  | case1 => rfl
  | case2 a =>
      obtain rfl : order = .big := h.resolve_right (by simp)
      rw [rawSum, List.sum_singleton, toNat_high, toNat_loadWord]
      rfl
  | case3 a b rest ih =>
      have hrest : order = .big ∨ Even rest.length :=
        h.imp_right fun heven => by simpa [Nat.even_add_one] using heven
      rw [rawSum, List.sum_cons, ih hrest]

/-- Otherwise it is the last byte that does not count. -/
theorem rawSum_little (behind : UInt8) (h : ¬Even data.length) :
    rawSum .little behind data = rawSum .little 0 data + 256 * behind.toNat := by
  fun_induction packetWords .little data with
  | case1 => exact absurd Even.zero h
  | case2 a =>
      rw [rawSum, rawSum, toNat_high, toNat_high, UInt8.toNat_zero, Nat.mul_zero, Nat.zero_add]
  | case3 a b rest ih =>
      have hrest : ¬Even rest.length := by simpa [Nat.even_add_one] using h
      rw [rawSum, rawSum, ih hrest]
      exact (Nat.add_assoc ..).symm

theorem lt_of_mem_packetWords {x : ℕ} (h : x ∈ packetWords order data) : x < 2 ^ 16 := by
  fun_induction packetWords order data with
  | case1 => cases h
  | case2 a =>
      rw [List.mem_singleton.mp h]
      exact UInt16.toNat_lt _
  | case3 a b rest ih =>
      rcases List.mem_cons.mp h with rfl | hrest
      · exact UInt16.toNat_lt _
      · exact ih hrest

theorem storeWord_succ (order : ByteOrder) (a b : UInt8) (k : ℕ) (v : UInt16) :
    storeWord order (a :: b :: data) (k + 1) v = a :: b :: storeWord order data k v := by
  cases order <;> rfl

theorem length_storeWord (order : ByteOrder) (data : List UInt8) (k : ℕ) (v : UInt16) :
    (storeWord order data k v).length = data.length := by
  cases order <;> simp [storeWord]

/-- A word is read as it was stored. -/
theorem rawSum_storeWord_zero (order : ByteOrder) (behind a b : UInt8) (rest : List UInt8)
    (v : UInt16) :
    rawSum order behind (storeWord order (a :: b :: rest) 0 v) =
      v.toNat + rawSum order behind rest := by
  have hlt := v.toNat_lt
  have hlow : (UInt8.ofNat (v.toNat % 256)).toNat = v.toNat % 256 :=
    Nat.mod_eq_of_lt (Nat.mod_lt _ (by decide))
  have hhigh : (UInt8.ofNat (v.toNat / 256)).toNat = v.toNat / 256 :=
    Nat.mod_eq_of_lt (by omega)
  cases order <;>
    · simp only [storeWord, Nat.mul_zero, Nat.zero_add, List.set_cons_zero, List.set_cons_succ,
        rawSum, toNat_loadWord, hlow, hhigh]
      omega

/-- What is stored in a field that was zero is added. -/
theorem rawSum_storeWord {k : ℕ} (v : UInt16) (hfirst : data[2 * k]? = some 0)
    (hsecond : data[2 * k + 1]? = some 0) :
    rawSum order behind (storeWord order data k v) = rawSum order behind data + v.toNat := by
  induction k generalizing data with
  | zero =>
      match data with
      | [] => cases hfirst
      | [a] => cases hsecond
      | a :: b :: rest =>
          obtain rfl : a = 0 := by simpa using hfirst
          obtain rfl : b = 0 := by simpa using hsecond
          have hzero : (loadWord order 0 0).toNat = 0 := by
            cases order <;> rfl
          rw [rawSum_storeWord_zero, rawSum, hzero, Nat.zero_add, Nat.add_comm]
  | succ k ih =>
      match data with
      | [] => cases hfirst
      | [a] => cases hsecond
      | a :: b :: rest =>
          rw [storeWord_succ, rawSum, rawSum, ih hfirst hsecond, Nat.add_assoc]

/-- The checksum, stored in the packet, makes the sum the other zero. -/
theorem calcChecksum_storeWord (hsize : data.length ≤ 65535) {k : ℕ}
    (hfirst : data[2 * k]? = some 0) (hsecond : data[2 * k + 1]? = some 0) :
    calcChecksum order (storeWord order data k (calcChecksum order data behind)) behind = 0 := by
  obtain ⟨r, hr, hsum⟩ := toNat_calcChecksum order behind hsize
  have hsize' : (storeWord order data k (calcChecksum order data behind)).length ≤ 65535 := by
    rwa [length_storeWord]
  obtain ⟨r', hr', hsum'⟩ := toNat_calcChecksum order behind hsize'
  rw [rawSum_storeWord _ hfirst hsecond, hsum] at hr'
  rw [hr'.unique hr.add_complement, Nat.sub_self] at hsum'
  exact UInt16.toNat_inj.mp hsum'

/-- With an odd number of bytes, the byte behind the packet makes a difference. -/
theorem calcChecksum_behind (hsize : data.length ≤ 65535) (hodd : ¬Even data.length) :
    calcChecksum .little data 0 ≠ calcChecksum .little data 1 := by
  intro h
  obtain ⟨r₀, hr₀, hsum₀⟩ := toNat_calcChecksum .little 0 hsize
  obtain ⟨r₁, hr₁, hsum₁⟩ := toNat_calcChecksum .little 1 hsize
  rw [h] at hsum₀
  have hlt₀ := hr₀.lt
  have hlt₁ := hr₁.lt
  obtain rfl : r₀ = r₁ := by omega
  have hmod := hr₀.modEq.symm.trans hr₁.modEq
  rw [rawSum_little 1 hodd] at hmod
  have hdvd := (Nat.modEq_iff_dvd' (Nat.le_add_right _ _)).mp hmod
  rw [Nat.add_sub_cancel_left] at hdvd
  exact absurd hdvd (by decide)

end Sum

/-- For every packet: the checksum is the Internet checksum whatever the byte behind the packet,
and it makes the checksum 0 where it is stored, exactly if the byte with the higher value comes
first or the number of bytes is even. -/
theorem calcChecksum_right_iff (order : ByteOrder) (data : List UInt8)
    (hsize : data.length ≤ 65535) :
    ((∀ behind, (calcChecksum order data behind).toNat = internetChecksum order data) ∧
        ∀ behind k, data[2 * k]? = some 0 → data[2 * k + 1]? = some 0 →
          calcChecksum order (storeWord order data k (calcChecksum order data behind)) behind =
            0) ↔
      order = .big ∨ Even data.length := by
  constructor
  · rintro ⟨hright, -⟩
    by_contra hnot
    obtain ⟨hlittle, hodd⟩ := not_or.mp hnot
    cases order with
    | little =>
        exact calcChecksum_behind hsize hodd
          (UInt16.toNat_inj.mp ((hright 0).trans (hright 1).symm))
    | big => exact hlittle rfl
  · intro h
    refine ⟨fun behind => ?_, fun behind k => calcChecksum_storeWord hsize⟩
    obtain ⟨r, hr, hsum⟩ := toNat_calcChecksum order behind hsize
    rw [rawSum_eq behind h] at hr
    rw [hsum, internetChecksum,
      hr.unique (isResidue_onesSum fun x hx => lt_of_mem_packetWords hx)]

/-- An echo request of eight bytes. -/
theorem calcChecksum_right_echo :
    (calcChecksum .little [8, 0, 0, 0, 0, 1, 0, 9] 0).toNat =
        internetChecksum .little [8, 0, 0, 0, 0, 1, 0, 9] ∧
      calcChecksum .little [8, 0, 0xf7, 0xf5, 0, 1, 0, 9] 0 = 0 := by
  have hright := (calcChecksum_right_iff .little [8, 0, 0, 0, 0, 1, 0, 9] (by decide)).mpr
    (.inr (by decide))
  exact ⟨hright.1 0, hright.2 0 1 rfl rfl⟩

/-- The last of three bytes does not count, and the byte behind them does. -/
theorem calcChecksum_odd :
    (calcChecksum .little [8, 0, 0x12] 0).toNat ≠ internetChecksum .little [8, 0, 0x12] ∧
      calcChecksum .little [8, 0, 0x12] 0 = calcChecksum .little [8, 0, 0x34] 0 ∧
      calcChecksum .little [8, 0, 0x12] 0 ≠ calcChecksum .little [8, 0, 0x12] 1 := by
  decide

end EDDTs.NsTools
