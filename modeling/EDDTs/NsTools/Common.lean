import EDDTs.Library.AutoBase
import EDDTs.LtpLib.RandomRange
import EDDTs.Pan.CLibrary

/-!
# Random numbers and times of the network stress tools

`rand_within` divides the values of `rand` into as many parts as there are numbers in a range;
`strtotimespec` cuts a number of nanoseconds into two texts and reads each of them.
-/

namespace EDDTs.NsTools

open Library
open LtpLib (DataModel)
open Pan (isspace isspace_of_isDigit)

/-! ### Random numbers in a range -/

/-- `RAND_MAX` -/
def randMax : ℤ := 2147483647

/-- `rand_within`, with the value of `rand`; none for a division by zero. -/
def randWithin (rand first last : ℤ) : Option ℤ :=
  let first := if first < 0 then 0 else first
  let last := if randMax < last % 2 ^ 32 then randMax else last
  let num := (last - first + 1) % 2 ^ 32
  if num = 0 ∨ (randMax + 1) / num = 0 then none
  else some (Int.bmod (rand / ((randMax + 1) / num) + first) (2 ^ 32))

section Within

variable {first last : ℤ}

/-- The numbers of a range are not more than the values of `rand`. -/
theorem part_pos (hfirst : 0 ≤ first) (hle : first ≤ last) (hlast : last ≤ randMax) :
    0 < (2 : ℤ) ^ 31 / (last - first + 1) := by
  have hmax : randMax = 2 ^ 31 - 1 := rfl
  have hone : 1 * (last - first + 1) ≤ 2 ^ 31 := by omega
  exact (Int.le_ediv_iff_mul_le (by omega)).mpr hone

/-- The value of `rand_within` for a range within the values of `rand`. -/
theorem randWithin_eq (hfirst : 0 ≤ first) (hle : first ≤ last) (hlast : last ≤ randMax)
    (rand : ℤ) :
    randWithin rand first last =
      some (Int.bmod (rand / (2 ^ 31 / (last - first + 1)) + first) (2 ^ 32)) := by
  have hpos := part_pos hfirst hle hlast
  have hmax : randMax = 2 ^ 31 - 1 := rfl
  have hnum : (last - first + 1) % 2 ^ 32 = last - first + 1 :=
    Int.emod_eq_of_lt (by omega) (by omega)
  have hmod : last % 2 ^ 32 = last := Int.emod_eq_of_lt (by omega) (by omega)
  have hclampFirst : (if first < 0 then 0 else first) = first := if_neg (by omega)
  have hclampLast : (if randMax < last then randMax else last) = last := if_neg (by omega)
  unfold randWithin
  rw [hmod]
  dsimp only
  rw [hclampFirst, hclampLast, hnum, hmax, Int.sub_add_cancel, if_neg (by omega)]

/-- The number is in the range if the part of the value is one of the first `num`. -/
theorem bmod_within_iff (hfirst : 0 ≤ first) (hle : first ≤ last) (hlast : last ≤ randMax)
    {q : ℤ} (hq : 0 ≤ q) (hlt : q < 2 ^ 31) :
    (first ≤ Int.bmod (q + first) (2 ^ 32) ∧ Int.bmod (q + first) (2 ^ 32) ≤ last) ↔
      q < last - first + 1 := by
  have hmax : randMax = 2 ^ 31 - 1 := rfl
  by_cases hfits : q + first < 2 ^ 31
  · rw [Int.bmod_eq_of_le_mul_two (by omega) (by omega)]
    omega
  · have hwraps : Int.bmod (q + first) (2 ^ 32) = q + first - 2 ^ 32 :=
      (Int.bmod_eq_iff (by decide)).mpr ⟨by omega, by omega, ⟨-1, by omega⟩⟩
    rw [hwraps]
    omega

end Within

/-- For every range and every value of `rand`: the number is in the range exactly if the value
is below the greatest multiple of the size of the range that is reached; so all of them are
exactly if the size divides the number of values. -/
theorem randWithin_right_iff (first last : ℤ) (hfirst : 0 ≤ first) (hle : first ≤ last)
    (hlast : last ≤ randMax) :
    let num := last - first + 1
    let Right (rand : Fin (2 ^ 31)) :=
      ∃ v, randWithin rand.val first last = some v ∧ first ≤ v ∧ v ≤ last
    (∀ rand, Right rand ↔ (rand.val : ℤ) < num * (2 ^ 31 / num)) ∧
      ((∀ rand, Right rand) ↔ num ∣ 2 ^ 31) := by
  intro num Right
  have hpos := part_pos hfirst hle hlast
  have hright (rand : Fin (2 ^ 31)) : Right rand ↔ (rand.val : ℤ) < num * (2 ^ 31 / num) := by
    have hrand := rand.isLt
    have hq : 0 ≤ (rand.val : ℤ) / (2 ^ 31 / num) :=
      Int.ediv_nonneg (Int.natCast_nonneg _) hpos.le
    have hlt : (rand.val : ℤ) / (2 ^ 31 / num) < 2 ^ 31 :=
      lt_of_le_of_lt (Int.ediv_le_self _ (Int.natCast_nonneg _)) (by omega)
    simp only [Right, randWithin_eq hfirst hle hlast, Option.some.injEq, exists_eq_left']
    exact (bmod_within_iff hfirst hle hlast hq hlt).trans (Int.ediv_lt_iff_lt_mul hpos)
  refine ⟨hright, ?_⟩
  simp only [hright]
  constructor
  · intro hall
    have hlastValue := hall ⟨2 ^ 31 - 1, by decide⟩
    have hle' : num * (2 ^ 31 / num) ≤ 2 ^ 31 := Int.mul_ediv_self_le (by omega)
    exact ⟨2 ^ 31 / num, by dsimp only at hlastValue; omega⟩
  · intro hdvd rand
    have hrand := rand.isLt
    rw [Int.mul_ediv_cancel' hdvd]
    omega

/-- Sixteen numbers. -/
theorem randWithin_right_sixteen :
    ∃ v, randWithin 2147483647 0 15 = some v ∧ 0 ≤ v ∧ v ≤ 15 :=
  ((randWithin_right_iff 0 15 (by decide) (by decide) (by decide)).2.mpr (by decide))
    ⟨2147483647, by decide⟩

/-- The last octet of a next hop, which is to be at most 254, can be 255. -/
theorem randWithin_too_large :
    ∃ v, randWithin 2147483647 1 254 = some v ∧ ¬v ≤ 254 := by decide

/-! ### Times -/

/-- `strtoul` with the base 0. -/
def strtoul (model : DataModel) (str : Text) : ℕ :=
  match autoNumeral isspace str with
  | none => 0
  | some (minus, n, _) =>
      if 2 ^ model.longBits ≤ n then 2 ^ model.longBits - 1
      else if minus then (2 ^ model.longBits - n) % 2 ^ model.longBits
      else n

/-- `struct timespec` -/
structure Timespec where
  tvSec : ℤ
  tvNsec : ℤ
  deriving DecidableEq, Repr

/-- The conversion of an `unsigned long`. -/
def toLong (model : DataModel) (n : ℕ) : ℤ := Int.bmod n (2 ^ model.longBits)

/-- `strtotimespec`: what it returns and what it stores. -/
def strtotimespec (model : DataModel) (str : Text) : ℤ × Option Timespec :=
  let len := str.length
  if 9 < len then
    let sec := strtoul model (str.take (len - 9))
    if 0x7fffffff < sec then (1, none)
    else (0, some ⟨toLong model sec, toLong model (strtoul model (str.drop (len - 9)))⟩)
  else (0, some ⟨0, toLong model (strtoul model str)⟩)

/-- The texts that are read, each as a number of its own. -/
def timeParts (str : Text) : List Text :=
  if 9 < str.length then [str.take (str.length - 9), str.drop (str.length - 9)] else [str]

section Times

variable {str ds : Text}

/-- A number that fits is read as the digits tell. -/
theorem strtoul_digits (model : DataModel) (hds : ∀ c ∈ ds, c.isDigit = true) (hne : ds ≠ [])
    (hlt : Nat.ofDigitChars 10 ds 0 < 2 ^ 31) :
    strtoul model ds < 2 ^ 31 ∧ (strtoul model ds = Nat.ofDigitChars 10 ds 0 ↔
      (ds.head? = some '0' → Nat.ofDigitChars 10 ds 0 < 8)) := by
  obtain ⟨v, rest, hbase, hle⟩ := autoBase_digits_le hds hne
  have hbits : 2 ^ 31 ≤ 2 ^ model.longBits := by
    cases model <;> decide
  have hvalue : strtoul model ds = v := by
    rw [strtoul, autoNumeral_digits (fun c => isspace_of_isDigit) hds, hbase]
    exact if_neg (by omega)
  rw [← autoBase_digits_iff hds hne, hbase, hvalue]
  exact ⟨by omega, by simp⟩

theorem toLong_eq (model : DataModel) {n : ℕ} (h : n < 2 ^ 31) : toLong model n = n := by
  cases model <;> exact Int.bmod_eq_of_le_mul_two (by simp [DataModel.longBits]; omega)
    (by simp [DataModel.longBits]; omega)

/-- The two parts of a long number. -/
theorem ofDigitChars_parts (high : Text) {low : Text} (hlow : ∀ c ∈ low, c.isDigit = true)
    (hlength : low.length = 9) :
    Nat.ofDigitChars 10 (high ++ low) 0 / 10 ^ 9 = Nat.ofDigitChars 10 high 0 ∧
      Nat.ofDigitChars 10 (high ++ low) 0 % 10 ^ 9 = Nat.ofDigitChars 10 low 0 := by
  have hlt := ofDigitChars_lt hlow
  have hsplit : Nat.ofDigitChars 10 (high ++ low) 0 =
      10 ^ low.length * Nat.ofDigitChars 10 high 0 + Nat.ofDigitChars 10 low 0 :=
    (Nat.ofDigitChars_append 0).trans Nat.ofDigitChars_eq_ofDigitChars_zero
  rw [hlength] at hlt hsplit
  omega

/-- A long number is converted if its two parts are read right. -/
theorem strtotimespec_long (model : DataModel) {high low : Text}
    (hdigits : ∀ c ∈ high ++ low, c.isDigit = true) (hhigh : high ≠ []) (hlength : low.length = 9)
    (hsec : Nat.ofDigitChars 10 high 0 < 2 ^ 31) :
    strtotimespec model (high ++ low) =
        (0, some ⟨Nat.ofDigitChars 10 high 0, Nat.ofDigitChars 10 low 0⟩) ↔
      (high.head? = some '0' → Nat.ofDigitChars 10 high 0 < 8) ∧
        (low.head? = some '0' → Nat.ofDigitChars 10 low 0 < 8) := by
  have hlow : low ≠ [] := List.ne_nil_of_length_pos (by omega)
  have hlongs : 9 < (high ++ low).length := by
    have hpos := List.length_pos_of_ne_nil hhigh
    rw [List.length_append]
    omega
  have hcut : (high ++ low).length - 9 = high.length := by
    rw [List.length_append]
    omega
  have hlt := ofDigitChars_lt fun c hc => hdigits c (List.mem_append_right high hc)
  rw [hlength] at hlt
  obtain ⟨hfits, hiff⟩ :=
    strtoul_digits model (fun c hc => hdigits c (List.mem_append_left low hc)) hhigh hsec
  obtain ⟨hfits', hiff'⟩ := strtoul_digits model
    (fun c hc => hdigits c (List.mem_append_right high hc)) hlow (hlt.trans (by decide))
  rw [← hiff, ← hiff', strtotimespec]
  dsimp only
  rw [if_pos hlongs, hcut, List.take_left, List.drop_left, if_neg (by omega),
    toLong_eq model hfits, toLong_eq model hfits']
  simp

end Times

/-- For every number of nanoseconds whose seconds are an `int`: it is converted exactly if no text
that is read, other than a single digit, begins with 0. -/
theorem strtotimespec_right_iff (model : DataModel) (str : Text)
    (hdigits : ∀ c ∈ str, c.isDigit = true) (hne : str ≠ [])
    (hsec : Nat.ofDigitChars 10 str 0 / 10 ^ 9 ≤ 2 ^ 31 - 1) :
    let n := Nat.ofDigitChars 10 str 0
    strtotimespec model str = (0, some ⟨(n / 10 ^ 9 : ℕ), (n % 10 ^ 9 : ℕ)⟩) ↔
      ∀ part ∈ timeParts str, part.head? = some '0' → Nat.ofDigitChars 10 part 0 < 8 := by
  intro n
  by_cases hlong : 9 < str.length
  · have hcut := List.take_append_drop (str.length - 9) str
    have hhigh : str.take (str.length - 9) ≠ [] :=
      List.ne_nil_of_length_pos (by rw [List.length_take]; omega)
    have hlength : (str.drop (str.length - 9)).length = 9 := by
      rw [List.length_drop]
      omega
    rw [timeParts, if_pos hlong]
    generalize str.take (str.length - 9) = high at *
    generalize str.drop (str.length - 9) = low at *
    subst hcut
    obtain ⟨hdiv, hmod⟩ := ofDigitChars_parts high
      (fun c hc => hdigits c (List.mem_append_right high hc)) hlength
    simp only [n, hdiv, hmod, List.forall_mem_cons]
    simpa using strtotimespec_long model hdigits hhigh hlength (by omega)
  · have hlt := ofDigitChars_lt hdigits
    have hshort : n < 10 ^ 9 := hlt.trans_le (Nat.pow_le_pow_right (by decide) (by omega))
    obtain ⟨hfits, hiff⟩ := strtoul_digits model hdigits hne (hshort.trans (by decide))
    rw [timeParts, if_neg hlong, strtotimespec, Nat.div_eq_of_lt hshort,
      Nat.mod_eq_of_lt hshort]
    dsimp only
    rw [if_neg hlong, toLong_eq model hfits]
    simpa using hiff

/-- Ten seconds and a half. -/
theorem strtotimespec_right_ten :
    strtotimespec .ilp32 (txt "10500000000") = (0, some ⟨10, 500000000⟩) := by
  have hdigits : ∀ c ∈ txt "10500000000", c.isDigit = true := by decide
  exact (strtotimespec_right_iff .ilp32 (txt "10500000000") hdigits (by decide) (by decide)).mpr
    (by decide)

/-- Ten nanoseconds more than a second are read as eight. -/
theorem strtotimespec_octal :
    strtotimespec .lp64 (txt "1000000010") = (0, some ⟨1, 8⟩) ∧
      Nat.ofDigitChars 10 (txt "1000000010") 0 % 10 ^ 9 = 10 := by decide

end EDDTs.NsTools
