import EDDTs.LtpLib.RandomRange

/-!
# A random bit of a mask

`random_bit` counts the bits of a mask, chooses one of them by its number and shifts the mask
until it has seen as many. `lio_random_methods` uses it to select one method of I/O and one of
waiting.

## Implementation notes

A shift to the left moves the bits of a word, also into the sign. The groups of methods are
those of Linux with the GNU library.
-/

namespace EDDTs.LtpLib

open Library

/-! ### The functions -/

section Model

variable {w : ℕ}

/-- The loop that counts, with the number of bits that are left. -/
def countBits (mask : BitVec w) : ℕ → BitVec w → ℕ → ℕ
  | 0, _, nbits => nbits
  | left + 1, bit, nbits =>
      countBits mask left (bit <<< 1) (if mask &&& bit ≠ 0#w then nbits + 1 else nbits)

/-- The loop that shifts. A number of shifts beyond the bits of the type is of no use. -/
def findBit : ℕ → BitVec w → ℤ → ℕ → Option ℕ
  | 0, _, bit, nshift => if bit = 0 then some nshift else none
  | left + 1, mask, bit, nshift =>
      if bit = 0 then some nshift
      else findBit left (mask.sshiftRight 1) (if mask &&& 1#w ≠ 0#w then bit - 1 else bit)
        (nshift + 1)

end Model

/-- `random_bit` -/
def randomBit (model : DataModel) (lrand48 : ℤ) (mask : BitVec model.longBits) :
    Option (BitVec model.longBits) :=
  if mask = 0#(model.longBits) then some 0#(model.longBits)
  else do
    let bit ← randomRange model lrand48 1 (countBits mask model.longBits 1#(model.longBits) 0) 1
    let nshift ← findBit model.longBits mask bit.value 0
    if nshift = 0 then none else some (1#(model.longBits) <<< (nshift - 1))

/-- `LIO_IO_TYPES` -/
def lioIoTypes : ℕ := 0o61

/-- `LIO_WAIT_TYPES` -/
def lioWaitTypes : ℕ := 0o20000

/-- `LIO_RANDOM` -/
def lioRandom : ℕ := 0o10000000

/-- `lio_random_methods`, with the random numbers of the two choices: the mask is an `int`. -/
def lioRandomMethods (model : DataModel) (lrand48 lrand48' : ℤ)
    (currMask : BitVec model.longBits) : Option (BitVec 32) := do
  let w := model.longBits
  let removed := BitVec.ofNat w (lioIoTypes ||| lioWaitTypes ||| lioRandom)
  let mask := (currMask &&& ~~~removed).setWidth 32
  let io ← randomBit model lrand48 (currMask &&& BitVec.ofNat w lioIoTypes)
  let mask := (mask.signExtend w ||| io).setWidth 32
  let wait ← randomBit model lrand48' (currMask &&& BitVec.ofNat w lioWaitTypes)
  return (mask.signExtend w ||| wait).setWidth 32

/-! ### The loops -/

/-- The places of the bits that are set, from one on. -/
def setBits {w : ℕ} (mask : BitVec w) (start count : ℕ) : List ℕ :=
  (List.range' start count).filter mask.getLsbD

section Loops

variable {w : ℕ} {mask : BitVec w} {start count : ℕ}

theorem setBits_succ (mask : BitVec w) (start count : ℕ) :
    setBits mask start (count + 1) =
      if mask.getLsbD start then start :: setBits mask (start + 1) count
      else setBits mask (start + 1) count := by
  rw [setBits, List.range'_succ, List.filter_cons]
  rfl

theorem mem_setBits_iff {i : ℕ} : i ∈ setBits mask 0 w ↔ mask.getLsbD i = true := by
  rw [setBits, List.mem_filter, List.mem_range'_1]
  refine ⟨fun h => h.2, fun h => ⟨⟨Nat.zero_le i, ?_⟩, h⟩⟩
  rw [Nat.zero_add]
  exact BitVec.lt_of_getLsbD h

theorem and_twoPow_ne_zero_iff (x : BitVec w) {i : ℕ} (hi : i < w) :
    x &&& BitVec.twoPow w i ≠ 0#w ↔ x.getLsbD i = true := by
  rw [BitVec.and_twoPow]
  split_ifs with hbit
  · refine iff_of_true (fun hzero => ?_) hbit
    have hone := congrArg (·.getLsbD i) hzero
    simp [hi] at hone
  · simp [hbit]

/-- The count is that of the bits from the present one on. -/
theorem countBits_eq (mask : BitVec w) {start count : ℕ} (h : start + count = w) (nbits : ℕ) :
    countBits mask count (BitVec.twoPow w start) nbits =
      nbits + (setBits mask start count).length := by
  induction count generalizing start nbits with
  | zero => rfl
  | succ count ih =>
      have hnext : BitVec.twoPow w start <<< 1 = BitVec.twoPow w (start + 1) := by
        rw [BitVec.twoPow_eq, BitVec.twoPow_eq, BitVec.shiftLeft_add]
      have hset := and_twoPow_ne_zero_iff mask (show start < w by omega)
      rw [countBits, hnext, ih (by omega), setBits_succ]
      by_cases hbit : mask.getLsbD start = true
      · rw [if_pos (hset.mpr hbit), if_pos hbit, List.length_cons]
        omega
      · rw [if_neg (mt hset.mp hbit), if_neg hbit]

theorem findBit_zero (left : ℕ) (mask : BitVec w) (nshift : ℕ) :
    findBit left mask 0 nshift = some nshift := by
  cases left <;> rfl

/-- The loop ends behind the bit whose number it was given. -/
theorem findBit_eq (mask : BitVec w) {start count : ℕ} (h : start + count = w) {k : ℕ}
    (hk : k < (setBits mask start count).length) :
    findBit count (mask.sshiftRight start) (k + 1) start =
      some ((setBits mask start count)[k] + 1) := by
  induction count generalizing start k with
  | zero => exact absurd hk (Nat.not_lt_zero k)
  | succ count ih =>
      have hlow : (mask.sshiftRight start) &&& 1#w ≠ 0#w ↔ mask.getLsbD start = true := by
        rw [← BitVec.twoPow_zero, and_twoPow_ne_zero_iff _ (by omega),
          BitVec.getLsbD_sshiftRight]
        simp [show start < w by omega, show w ≠ 0 by omega]
      have hshift : (mask.sshiftRight start).sshiftRight 1 = mask.sshiftRight (start + 1) :=
        BitVec.sshiftRight_add.symm
      have hcons := setBits_succ mask start count
      rw [findBit, if_neg (by omega), hshift]
      by_cases hbit : mask.getLsbD start = true
      · rw [if_pos hbit] at hcons
        simp only [hcons, List.length_cons] at hk ⊢
        rw [if_pos (hlow.mpr hbit), Int.add_sub_cancel]
        cases k with
        | zero => exact findBit_zero count _ _
        | succ k => exact ih (by omega) (by omega)
      · rw [if_neg hbit] at hcons
        simp only [hcons] at hk ⊢
        rw [if_neg (mt hlow.mp hbit)]
        exact ih (by omega) hk

end Loops

section RandomBit

variable {model : DataModel} {mask : BitVec model.longBits}

/-- A range from 1 on is used as it is. -/
theorem randomRange_from_one (model : DataModel) {n : ℕ} (hpos : 0 < n) (hn : n ≤ 64) (rand : ℕ) :
    randomRange model rand 1 n 1 = some ⟨(rand % n : ℕ) + 1, none⟩ := by
  have hlt := Nat.mod_lt rand hpos
  have hbits : (2 : ℤ) ^ 31 ≤ 2 ^ (model.longBits - 1) := by
    cases model <;> decide
  have hfits {x : ℤ} (hx : 0 ≤ x) (hx' : x ≤ 64) : Fits model.longBits x := ⟨by omega, by omega⟩
  have hfits32 {x : ℤ} (hx : 0 ≤ x) (hx' : x ≤ 64) : Fits 32 x := ⟨by omega, by omega⟩
  have hdraw : (rand : ℤ).tmod n = (rand % n : ℕ) := rfl
  rw [randomRange, randomRangeWith, if_neg (by decide), if_neg (by omega), if_neg (by omega)]
  simp only [bump, reduce, Int.tmod_one, if_true, Option.bind_eq_bind, Option.bind_some]
  rw [if_neg (by omega), pickMultiple]
  simp only [plainDraw, Int.tdiv_one, Int.sub_add_cancel, Int.mul_one, hdraw,
    Option.bind_eq_bind, Option.bind_some,
    checked_of_fits (hfits32 (show 0 ≤ (n : ℤ) - 1 by omega) (by omega)),
    checked_of_fits (hfits32 (show 0 ≤ (n : ℤ) by omega) (by omega)),
    checked_of_fits (hfits (show 0 ≤ ((rand % n : ℕ) : ℤ) by omega) (by omega)),
    checked_of_fits (hfits (show 0 ≤ 1 + ((rand % n : ℕ) : ℤ) by omega) (by omega))]
  rw [Int.add_comm]
  rfl

theorem length_setBits_le (mask : BitVec model.longBits) :
    (setBits mask 0 model.longBits).length ≤ 64 := by
  refine (List.length_filter_le _ _).trans ?_
  rw [List.length_range']
  cases model <;> decide

/-- The random number selects the bit by its remainder. -/
theorem randomBit_eq (hmask : mask ≠ 0#(model.longBits)) (rand : ℕ) :
    ∃ h : rand % (setBits mask 0 model.longBits).length <
        (setBits mask 0 model.longBits).length,
      randomBit model rand mask =
        some (BitVec.twoPow model.longBits
          ((setBits mask 0 model.longBits)[rand % (setBits mask 0 model.longBits).length])) := by
  have hne : setBits mask 0 model.longBits ≠ [] := by
    intro hnil
    refine hmask (BitVec.eq_of_getLsbD_eq fun i _ => ?_)
    rw [BitVec.getLsbD_zero, Bool.eq_false_iff]
    intro hbit
    rw [← mem_setBits_iff, hnil] at hbit
    cases hbit
  have hpos := List.length_pos_of_ne_nil hne
  have hlt := Nat.mod_lt rand hpos
  have hcount : countBits mask model.longBits 1#(model.longBits) 0 =
      (setBits mask 0 model.longBits).length := by
    have hcounted := countBits_eq mask (Nat.zero_add model.longBits) 0
    rwa [BitVec.twoPow_zero, Nat.zero_add] at hcounted
  have hfind := findBit_eq mask (Nat.zero_add model.longBits) hlt
  refine ⟨hlt, ?_⟩
  rw [randomBit, if_neg hmask, hcount, randomRange_from_one model hpos (length_setBits_le mask)]
  rw [BitVec.sshiftRight_zero] at hfind
  simp only [Option.bind_eq_bind, Option.bind_some, hfind, Nat.add_one_ne_zero, if_false,
    Nat.add_sub_cancel, BitVec.twoPow_eq]

/-- One bit of the mask is returned. -/
theorem randomBit_mem (hmask : mask ≠ 0#(model.longBits)) (rand : ℕ) :
    ∃ i, mask.getLsbD i = true ∧
      randomBit model rand mask = some (BitVec.twoPow model.longBits i) := by
  obtain ⟨hlt, heq⟩ := randomBit_eq hmask rand
  exact ⟨_, mem_setBits_iff.mp (List.getElem_mem hlt), heq⟩

/-- Every bit of the mask is returned for some random number. -/
theorem exists_randomBit {i : ℕ} (hbit : mask.getLsbD i = true) :
    ∃ rand : Fin (2 ^ 31),
      randomBit model rand.val mask = some (BitVec.twoPow model.longBits i) := by
  have hmask : mask ≠ 0#(model.longBits) := by
    rintro rfl
    simp at hbit
  obtain ⟨k, hk, rfl⟩ := List.getElem_of_mem (mem_setBits_iff.mpr hbit)
  have hle := length_setBits_le mask
  obtain ⟨hlt, heq⟩ := randomBit_eq hmask k
  refine ⟨⟨k, by omega⟩, heq.trans ?_⟩
  simp only [Nat.mod_eq_of_lt hk]

/-- A mask without bits, or one of its bits. -/
theorem randomBit_cases (mask : BitVec model.longBits) (rand : ℕ) :
    ∃ bit, randomBit model rand mask = some bit ∧
      if mask = 0#(model.longBits) then bit = 0#(model.longBits)
      else ∃ i, mask.getLsbD i = true ∧ bit = BitVec.twoPow model.longBits i := by
  by_cases hmask : mask = 0#(model.longBits)
  · exact ⟨_, if_pos hmask, by rw [if_pos hmask]⟩
  · obtain ⟨i, hbit, heq⟩ := randomBit_mem hmask rand
    exact ⟨_, heq, by rw [if_neg hmask]; exact ⟨i, hbit, rfl⟩⟩

end RandomBit

/-! ### The selection of methods -/

section Methods

variable {w : ℕ}

/-- The bits of the mask that are neither in a group of methods nor `LIO_RANDOM`. -/
def otherBits (w : ℕ) : BitVec w := ~~~BitVec.ofNat w (lioIoTypes ||| lioWaitTypes ||| lioRandom)

/-- If the mask has bits of a group, one of them is selected. -/
def SelectsFrom (group : ℕ) (m r : BitVec w) : Prop :=
  m &&& BitVec.ofNat w group ≠ 0#w →
    ∃ i, (m &&& BitVec.ofNat w group).getLsbD i = true ∧
      r &&& BitVec.ofNat w group = BitVec.twoPow w i

/-- What the selection is to return. -/
structure Selects (m r : BitVec w) : Prop where
  random : r &&& BitVec.ofNat w lioRandom = 0#w
  others : r &&& otherBits w = m &&& otherBits w
  io : SelectsFrom lioIoTypes m r
  wait : SelectsFrom lioWaitTypes m r

/-- A long word as an `int`, and back. -/
theorem getLsbD_toInt32 (x : BitVec w) (i : ℕ) :
    ((x.setWidth 32).signExtend w).getLsbD i = (decide (i < w) && x.getLsbD (min i 31)) := by
  rw [BitVec.getLsbD_signExtend]
  by_cases hi : i < 32
  · simp [hi, Nat.min_eq_left (show i ≤ 31 by omega)]
  · simp [hi, BitVec.msb_setWidth, Nat.min_eq_right (show 31 ≤ i by omega)]

theorem toInt32_eq_iff (hw : 32 ≤ w) (x : BitVec w) :
    (x.setWidth 32).signExtend w = x ↔ Fits 32 x.toInt := by
  have hbmod : (x.toNat : ℤ).bmod (2 ^ 32) = x.toInt.bmod (2 ^ 32) := by
    rw [BitVec.toInt_eq_toNat_bmod, Int.bmod_bmod_of_dvd (Nat.pow_dvd_pow 2 hw)]
  rw [← BitVec.toInt_inj, BitVec.toInt_signExtend_of_le hw, BitVec.toInt_setWidth, hbmod,
    Int.bmod_eq_iff (by decide), Int.sub_self]
  exact ⟨fun h => ⟨h.1, h.2.1⟩, fun h => ⟨h.1, h.2, Int.dvd_zero _⟩⟩

/-- The selection loses no other bits before its last step. -/
theorem or_toInt32 (hw : 32 ≤ w) (x : BitVec 32) (y : BitVec w) :
    (x.signExtend w ||| y).setWidth 32 = x ||| y.setWidth 32 := by
  rw [BitVec.setWidth_or]
  congr 1
  refine BitVec.eq_of_getLsbD_eq fun i hi => ?_
  rw [BitVec.getLsbD_setWidth, BitVec.getLsbD_signExtend]
  simp [hi, show i < w by omega]

theorem lt_of_testBit {group i : ℕ} (hgroup : group < 2 ^ 31) (h : group.testBit i = true) :
    i < 31 := by
  by_contra hi
  have hfalse := Nat.testBit_lt_two_pow
    (hgroup.trans_le (Nat.pow_le_pow_right (show 0 < 2 by decide) (not_lt.mp hi)))
  rw [hfalse] at h
  cases h

/-- What `random_bit` returns for the bits of a group. -/
def Chosen (group : ℕ) (m bit : BitVec w) : Prop :=
  if m &&& BitVec.ofNat w group = 0#w then bit = 0#w
  else ∃ i, (m &&& BitVec.ofNat w group).getLsbD i = true ∧ bit = BitVec.twoPow w i

variable {group : ℕ} {m bit x : BitVec w}

theorem Chosen.testBit (h : Chosen group m bit) {i : ℕ} (hi : bit.getLsbD i = true) :
    group.testBit i = true := by
  unfold Chosen at h
  split_ifs at h
  · simp [h] at hi
  · obtain ⟨k, hk, rfl⟩ := h
    obtain ⟨-, rfl⟩ : k < w ∧ k = i := by simpa using hi
    rw [BitVec.getLsbD_and, BitVec.getLsbD_ofNat] at hk
    simp only [Bool.and_eq_true] at hk
    exact hk.2.2

/-- The bit that was chosen is selected, if the word has no other bit of the group. -/
theorem Chosen.selectsFrom (h : Chosen group m bit) (hgroup : group < 2 ^ 31)
    (hx : ∀ i, group.testBit i = true → x.getLsbD i = bit.getLsbD i) :
    SelectsFrom group m ((x.setWidth 32).signExtend w) := by
  intro hne
  have hbit {i : ℕ} (hi : bit.getLsbD i = true) := h.testBit hi
  rw [Chosen, if_neg hne] at h
  obtain ⟨k, hk, rfl⟩ := h
  refine ⟨k, hk, BitVec.eq_of_getLsbD_eq fun i hi => ?_⟩
  rw [BitVec.getLsbD_and, getLsbD_toInt32, BitVec.getLsbD_ofNat]
  by_cases hmem : group.testBit i = true
  · have hlow := lt_of_testBit hgroup hmem
    rw [Nat.min_eq_left (by omega), hx i hmem]
    simp [hi, hmem]
  · rw [Bool.eq_false_iff.mpr (mt hbit hmem)]
    simp [hmem]

end Methods

section Selection

variable {w : ℕ} {m io wait : BitVec w}

theorem getLsbD_otherBits {i : ℕ} (hi : i < w) :
    (otherBits w).getLsbD i =
      !(lioIoTypes.testBit i || lioWaitTypes.testBit i || lioRandom.testBit i) := by
  rw [otherBits, BitVec.getLsbD_not, BitVec.getLsbD_ofNat, Nat.testBit_or, Nat.testBit_or]
  simp [hi]

/-- No bit is in two of the groups. -/
theorem disjoint_groups (i : ℕ) :
    (lioIoTypes.testBit i && lioWaitTypes.testBit i) = false ∧
      (lioIoTypes.testBit i && lioRandom.testBit i) = false ∧
      (lioWaitTypes.testBit i && lioRandom.testBit i) = false := by
  refine ⟨?_, ?_, ?_⟩ <;>
    · rw [← Nat.testBit_and]
      exact Nat.zero_testBit i

/-- The word that is returned, before it is made an `int`. -/
def selection (m io wait : BitVec w) : BitVec w := m &&& otherBits w ||| io ||| wait

/-- Each bit of the selection comes from one place. -/
theorem getLsbD_selection (hio : Chosen lioIoTypes m io) (hwait : Chosen lioWaitTypes m wait)
    {i : ℕ} (hi : i < w) :
    (selection m io wait).getLsbD i =
      if lioIoTypes.testBit i then io.getLsbD i
      else if lioWaitTypes.testBit i then wait.getLsbD i
      else if lioRandom.testBit i then false
      else m.getLsbD i := by
  have hio' : lioIoTypes.testBit i = false → io.getLsbD i = false := fun h =>
    Bool.eq_false_iff.mpr fun hbit => by rw [hio.testBit hbit] at h; cases h
  have hwait' : lioWaitTypes.testBit i = false → wait.getLsbD i = false := fun h =>
    Bool.eq_false_iff.mpr fun hbit => by rw [hwait.testBit hbit] at h; cases h
  obtain ⟨hdisjoint, -, -⟩ := disjoint_groups i
  simp only [selection, BitVec.getLsbD_or, BitVec.getLsbD_and, getLsbD_otherBits hi]
  cases hI : lioIoTypes.testBit i <;> cases hW : lioWaitTypes.testBit i <;>
    cases hR : lioRandom.testBit i <;> simp_all

theorem getLsbD_selection_other (hio : Chosen lioIoTypes m io)
    (hwait : Chosen lioWaitTypes m wait) {i : ℕ} (hi : i < w)
    (hother : (otherBits w).getLsbD i = true) :
    (selection m io wait).getLsbD i = m.getLsbD i := by
  rw [getLsbD_otherBits hi] at hother
  rw [getLsbD_selection hio hwait hi]
  simp_all

theorem otherBits_high {i : ℕ} (hi : i < w) (hhigh : 31 ≤ i) : (otherBits w).getLsbD i = true := by
  have hfalse {group : ℕ} (hgroup : group < 2 ^ 31) : group.testBit i = false :=
    Bool.eq_false_iff.mpr fun h => absurd (lt_of_testBit hgroup h) (by omega)
  rw [getLsbD_otherBits hi, hfalse (by decide), hfalse (by decide), hfalse (by decide)]
  rfl

/-- The bits outside the groups are kept exactly if the mask is an `int`. -/
theorem selection_others_iff (hw : 32 ≤ w) (hio : Chosen lioIoTypes m io)
    (hwait : Chosen lioWaitTypes m wait) :
    ((selection m io wait).setWidth 32).signExtend w &&& otherBits w = m &&& otherBits w ↔
      (m.setWidth 32).signExtend w = m := by
  have hsign : (selection m io wait).getLsbD 31 = m.getLsbD 31 :=
    getLsbD_selection_other hio hwait (by omega) (otherBits_high (by omega) le_rfl)
  constructor
  · intro hkept
    refine BitVec.eq_of_getLsbD_eq fun i hi => ?_
    rw [getLsbD_toInt32, decide_eq_true hi, Bool.true_and]
    rcases le_total i 31 with hlow | hhigh
    · rw [Nat.min_eq_left hlow]
    · have hbit := congrArg (·.getLsbD i) hkept
      simp only [BitVec.getLsbD_and, getLsbD_toInt32, otherBits_high hi hhigh,
        Nat.min_eq_right hhigh, hsign, decide_eq_true hi, Bool.true_and, Bool.and_true] at hbit
      rw [Nat.min_eq_right hhigh, hbit]
  · intro hint
    refine BitVec.eq_of_getLsbD_eq fun i hi => ?_
    rw [BitVec.getLsbD_and, BitVec.getLsbD_and, getLsbD_toInt32, decide_eq_true hi, Bool.true_and]
    cases hother : (otherBits w).getLsbD i with
    | false => rw [Bool.and_false, Bool.and_false]
    | true =>
        rw [Bool.and_true, Bool.and_true]
        rcases le_total i 31 with hlow | hhigh
        · rw [Nat.min_eq_left hlow, getLsbD_selection_other hio hwait hi hother]
        · have hbit := congrArg (·.getLsbD i) hint
          simp only [getLsbD_toInt32, decide_eq_true hi, Bool.true_and,
            Nat.min_eq_right hhigh] at hbit
          rw [Nat.min_eq_right hhigh, hsign, hbit]

/-- The rest of the selection is right in any case. -/
theorem selects_selection_iff (hw : 32 ≤ w) (hio : Chosen lioIoTypes m io)
    (hwait : Chosen lioWaitTypes m wait) :
    Selects m (((selection m io wait).setWidth 32).signExtend w) ↔ Fits 32 m.toInt := by
  rw [← toInt32_eq_iff hw, ← selection_others_iff hw hio hwait]
  refine ⟨fun h => h.others, fun hothers => ⟨?_, hothers, ?_, ?_⟩⟩
  · refine BitVec.eq_of_getLsbD_eq fun i hi => ?_
    rw [BitVec.getLsbD_and, getLsbD_toInt32, BitVec.getLsbD_ofNat, BitVec.getLsbD_zero]
    cases hrandom : lioRandom.testBit i with
    | false => simp
    | true =>
        have hlow := lt_of_testBit (show lioRandom < 2 ^ 31 by decide) hrandom
        obtain ⟨-, hio', hwait'⟩ := disjoint_groups i
        rw [Nat.min_eq_left (by omega), getLsbD_selection hio hwait hi]
        simp_all
  · refine hio.selectsFrom (by decide) fun i hmem => ?_
    have hlow := lt_of_testBit (show lioIoTypes < 2 ^ 31 by decide) hmem
    rw [getLsbD_selection hio hwait (by omega), if_pos hmem]
  · refine hwait.selectsFrom (by decide) fun i hmem => ?_
    have hlow := lt_of_testBit (show lioWaitTypes < 2 ^ 31 by decide) hmem
    obtain ⟨hdisjoint, -, -⟩ := disjoint_groups i
    rw [getLsbD_selection hio hwait (by omega)]
    simp_all

end Selection

/-- The steps of `lio_random_methods`. -/
theorem lioRandomMethods_eq (model : DataModel) (rand rand' : ℤ) (m : BitVec model.longBits) :
    lioRandomMethods model rand rand' m =
      (randomBit model rand (m &&& BitVec.ofNat _ lioIoTypes)).bind fun io =>
        (randomBit model rand' (m &&& BitVec.ofNat _ lioWaitTypes)).map fun wait =>
          (selection m io wait).setWidth 32 := by
  have hw : 32 ≤ model.longBits := by cases model <;> decide
  simp only [lioRandomMethods, Option.bind_eq_bind, or_toInt32 hw, Option.pure_def, selection,
    otherBits, BitVec.setWidth_or, Option.map_eq_bind, Function.comp_def]

/-- For every mask: one of its bits is returned for every random number, and each of them for
one; and the selection of methods is right, whatever the random numbers, exactly if the mask is
the value of an `int`. -/
theorem lioRandomMethods_right_iff (model : DataModel) :
    (∀ mask : BitVec model.longBits, mask ≠ 0#(model.longBits) →
      (∀ rand : Fin (2 ^ 31), ∃ i, mask.getLsbD i = true ∧
        randomBit model rand.val mask = some (BitVec.twoPow model.longBits i)) ∧
      ∀ i, mask.getLsbD i = true → ∃ rand : Fin (2 ^ 31),
        randomBit model rand.val mask = some (BitVec.twoPow model.longBits i)) ∧
    ∀ (m : BitVec model.longBits) (rand rand' : Fin (2 ^ 31)),
      (∃ r, lioRandomMethods model rand.val rand'.val m = some r ∧
          Selects m (r.signExtend model.longBits)) ↔
        Fits 32 m.toInt := by
  constructor
  · intro mask hmask
    exact ⟨fun rand => randomBit_mem hmask rand.val, fun i => exists_randomBit⟩
  · intro m rand rand'
    have hw : 32 ≤ model.longBits := by cases model <;> decide
    obtain ⟨io, hio, hchosen⟩ := randomBit_cases (m &&& BitVec.ofNat _ lioIoTypes) rand.val
    obtain ⟨wait, hwait, hchosen'⟩ :=
      randomBit_cases (m &&& BitVec.ofNat _ lioWaitTypes) rand'.val
    rw [lioRandomMethods_eq, hio, hwait, ← selects_selection_iff hw hchosen hchosen']
    simp

/-- One of the methods `LIO_IO_SYNC` and `LIO_IO_SYNCV`, with `LIO_USE_SIGNAL`. -/
theorem lioRandomMethods_right_signal :
    ∃ r, lioRandomMethods .lp64 11 12 (BitVec.ofNat 64 0o30020021) = some r ∧
      Selects (BitVec.ofNat 64 0o30020021) (r.signExtend 64) :=
  ((lioRandomMethods_right_iff .lp64).2 _ ⟨11, by decide⟩ ⟨12, by decide⟩).mpr (by decide)

/-- A bit beyond those of an `int` is lost. -/
theorem lioRandomMethods_loses_bit :
    lioRandomMethods .lp64 0 0 (BitVec.ofNat 64 (2 ^ 40)) = some 0#32 ∧
      ¬Selects (BitVec.ofNat 64 (2 ^ 40)) ((0#32).signExtend 64) := by
  refine ⟨by decide, fun h => ?_⟩
  exact absurd h.others (by decide)

end EDDTs.LtpLib
