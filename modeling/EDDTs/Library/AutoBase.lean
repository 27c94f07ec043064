import Mathlib.Data.List.TakeWhile
import EDDTs.Library.Hex

/-!
# Numbers that tell their base

How `strtol` and its relatives read a number if they are given the base 0: `0x` stands before
hexadecimal digits, `0` before octal ones.
-/

namespace EDDTs.Library

def isOctDigit (c : Char) : Bool := '0' ≤ c && c ≤ '7'

/-- A hexadecimal number is ahead. -/
def hexAhead : Text → Bool
  | '0' :: x :: c :: _ => (x == 'x' || x == 'X') && isHexDigit c
  | _ => false

/-- The number that a text begins with, if it does, and what follows it. -/
def autoBase (t : Text) : Option (ℕ × Text) :=
  if hexAhead t then
    some (hexValue ((t.drop 2).takeWhile isHexDigit), (t.drop 2).dropWhile isHexDigit)
  else if t.head? = some '0' then
    some (Nat.ofDigitChars 8 (t.takeWhile isOctDigit) 0, t.dropWhile isOctDigit)
  else if t.takeWhile Char.isDigit = [] then none
  else some (Nat.ofDigitChars 10 (t.takeWhile Char.isDigit) 0, t.dropWhile Char.isDigit)

/-- A number behind white space and a sign: whether it is a minus, the number, and what
follows. -/
def autoNumeral (isspace : Char → Bool) (t : Text) : Option (Bool × ℕ × Text) :=
  match t.dropWhile isspace with
  | '-' :: u => (autoBase u).map (true, ·)
  | '+' :: u => (autoBase u).map (false, ·)
  | u => (autoBase u).map (false, ·)

/-! ### Octal and decimal values -/

section Octal

variable {ds : Text} {a b : ℕ}

theorem isDigit_iff {c : Char} : c.isDigit = true ↔ 48 ≤ c.toNat ∧ c.toNat ≤ 57 := by
  simp only [Char.isDigit, Bool.and_eq_true, decide_eq_true_eq, ge_iff_le, UInt32.le_iff_toNat_le]
  rfl

theorem isOctDigit_iff {c : Char} : isOctDigit c = true ↔ 48 ≤ c.toNat ∧ c.toNat ≤ 55 := by
  simp only [isOctDigit, Bool.and_eq_true, decide_eq_true_eq, Char.le_def, UInt32.le_iff_toNat_le]
  rfl

theorem le_ofDigitChars (ds : Text) (b : ℕ) : b ≤ Nat.ofDigitChars 10 ds b := by
  induction ds generalizing b with
  | nil => exact le_rfl
  | cons d ds ih =>
      rw [Nat.ofDigitChars_cons]
      exact le_trans (by omega) (ih _)

theorem ofDigitChars_lt (hds : ∀ c ∈ ds, c.isDigit = true) :
    Nat.ofDigitChars 10 ds 0 < 10 ^ ds.length := by
  induction ds with
  | nil => decide
  | cons d ds ih =>
      have hdigit := isDigit_iff.mp (hds d List.mem_cons_self)
      have hzero : '0'.toNat = 48 := rfl
      have hrest := ih fun c hc => hds c (List.mem_cons_of_mem d hc)
      have hfirst : 10 ^ ds.length * (d.toNat - '0'.toNat) ≤ 10 ^ ds.length * 9 :=
        Nat.mul_le_mul_left _ (by omega)
      rw [Nat.ofDigitChars_cons, Nat.mul_zero, Nat.zero_add,
        Nat.ofDigitChars_eq_ofDigitChars_zero, List.length_cons, Nat.pow_succ]
      omega

/-- The octal digits at the beginning of a decimal number are not worth more. -/
theorem ofDigitChars_octal_add_le (k : ℕ) (h : a + k ≤ b) :
    Nat.ofDigitChars 8 (ds.takeWhile isOctDigit) a + k ≤ Nat.ofDigitChars 10 ds b := by
  induction ds generalizing a b with
  | nil => exact h
  | cons d ds ih =>
      rw [List.takeWhile_cons, Nat.ofDigitChars_cons]
      split_ifs
      · rw [Nat.ofDigitChars_cons]
        exact ih (by omega)
      · exact h.trans (le_trans (by omega) (le_ofDigitChars ds _))

theorem ofDigitChars_octal_cons_lt (e : Char) (ds : Text) (h : 0 < a) :
    Nat.ofDigitChars 8 ((e :: ds).takeWhile isOctDigit) a < Nat.ofDigitChars 10 (e :: ds) a := by
  rw [List.takeWhile_cons, Nat.ofDigitChars_cons]
  split_ifs
  · rw [Nat.ofDigitChars_cons]
    exact ofDigitChars_octal_add_le 1 (by omega)
  · exact lt_of_lt_of_le (show a < _ by omega) (le_ofDigitChars ds _)

/-- An octal number has the decimal value if it is a single digit. -/
theorem ofDigitChars_octal_eq_iff (hds : ∀ c ∈ ds, c.isDigit = true) :
    Nat.ofDigitChars 8 (ds.takeWhile isOctDigit) 0 = Nat.ofDigitChars 10 ds 0 ↔
      Nat.ofDigitChars 10 ds 0 < 8 := by
  induction ds with
  | nil => exact iff_of_true rfl (by decide)
  | cons d ds ih =>
      have hdigit := isDigit_iff.mp (hds d List.mem_cons_self)
      have hzero : '0'.toNat = 48 := rfl
      rw [List.takeWhile_cons, Nat.ofDigitChars_cons, Nat.mul_zero, Nat.zero_add]
      by_cases hoct : isOctDigit d = true
      · rw [if_pos hoct, Nat.ofDigitChars_cons, Nat.mul_zero, Nat.zero_add]
        have hvalue := isOctDigit_iff.mp hoct
        generalize hn : d.toNat - '0'.toNat = n at *
        rcases Nat.eq_zero_or_pos n with rfl | hpos
        · exact ih fun c hc => hds c (List.mem_cons_of_mem d hc)
        · cases ds with
          | nil =>
              rw [Nat.ofDigitChars_nil]
              exact iff_of_true rfl (by omega)
          | cons e ds =>
              have hle' := le_ofDigitChars ds (10 * n + (e.toNat - '0'.toNat))
              rw [← Nat.ofDigitChars_cons] at hle'
              exact iff_of_false (ofDigitChars_octal_cons_lt e ds hpos).ne (by omega)
      · have hvalue : ¬(48 ≤ d.toNat ∧ d.toNat ≤ 55) := fun h => hoct (isOctDigit_iff.mpr h)
        have hle := le_ofDigitChars ds (d.toNat - '0'.toNat)
        rw [if_neg hoct, Nat.ofDigitChars_nil]
        exact iff_of_false (by omega) (by omega)

end Octal

/-! ### Decimal texts -/

section Decimal

variable {isspace : Char → Bool} {ds : Text}

theorem hexAhead_digits (hds : ∀ c ∈ ds, c.isDigit = true) : hexAhead ds = false := by
  fun_cases hexAhead ds with
  | case1 x c rest =>
      have hx : x.isDigit = true := hds x (by simp)
      have hlower : x ≠ 'x' := by
        rintro rfl
        cases hx
      have hupper : x ≠ 'X' := by
        rintro rfl
        cases hx
      simp [hlower, hupper]
  | case2 => rfl

/-- Digits are read as a decimal number unless the first one is 0. -/
theorem autoBase_digits (hds : ∀ c ∈ ds, c.isDigit = true) (hne : ds ≠ []) :
    autoBase ds =
      if ds.head? = some '0' then
        some (Nat.ofDigitChars 8 (ds.takeWhile isOctDigit) 0, ds.dropWhile isOctDigit)
      else some (Nat.ofDigitChars 10 ds 0, []) := by
  have htake : ds.takeWhile Char.isDigit = ds := List.takeWhile_eq_self_iff.mpr hds
  have hdrop : ds.dropWhile Char.isDigit = [] := List.dropWhile_eq_nil_iff.mpr hds
  rw [autoBase, hexAhead_digits hds, if_neg Bool.false_ne_true, htake, hdrop, if_neg hne]

/-- The decimal value is read if there is no leading 0, or nothing but a digit behind it. -/
theorem autoBase_digits_iff (hds : ∀ c ∈ ds, c.isDigit = true) (hne : ds ≠ []) :
    (autoBase ds).map Prod.fst = some (Nat.ofDigitChars 10 ds 0) ↔
      (ds.head? = some '0' → Nat.ofDigitChars 10 ds 0 < 8) := by
  rw [autoBase_digits hds hne]
  split_ifs with hzero
  · simp [hzero, ofDigitChars_octal_eq_iff hds]
  · simp [hzero]

/-- What is read is not more than the decimal value. -/
theorem autoBase_digits_le (hds : ∀ c ∈ ds, c.isDigit = true) (hne : ds ≠ []) :
    ∃ v rest, autoBase ds = some (v, rest) ∧ v ≤ Nat.ofDigitChars 10 ds 0 := by
  rw [autoBase_digits hds hne]
  split_ifs
  · exact ⟨_, _, rfl, ofDigitChars_octal_add_le 0 (le_refl 0)⟩
  · exact ⟨_, _, rfl, le_rfl⟩

/-- Neither white space nor a sign stands before digits. -/
theorem autoNumeral_digits (hspace : ∀ c, c.isDigit = true → isspace c = false)
    (hds : ∀ c ∈ ds, c.isDigit = true) : autoNumeral isspace ds = (autoBase ds).map (false, ·) := by
  cases ds with
  | nil => rfl
  | cons d ds =>
      have hd : d.isDigit = true := hds d List.mem_cons_self
      have hminus : d ≠ '-' := by
        rintro rfl
        cases hd
      rw [autoNumeral, List.dropWhile_cons_of_neg (by simp [hspace d hd])]
      split <;> simp_all

/-- Only 0 begins with 0. -/
theorem eq_zero_of_head_natText {n : ℕ} (h : (natText n).head? = some '0') : n = 0 := by
  induction n using Nat.strong_induction_on with
  | _ n ih =>
      by_cases hlt : n < 10
      · have hdigit : ∀ k < 10, k.digitChar = '0' → k = 0 := by decide
        rw [natText, Nat.toDigits_of_lt_base hlt] at h
        exact hdigit n hlt (Option.some.inj h)
      · rw [natText, Nat.toDigits_of_base_le (by decide) (by omega),
          List.head?_append_of_ne_nil _ Nat.toDigits_ne_nil] at h
        have hzero := ih (n / 10) (by omega) h
        omega

theorem autoBase_natText (n : ℕ) : autoBase (natText n) = some (n, []) := by
  rcases Nat.eq_zero_or_pos n with rfl | hpos
  · rfl
  · have hhead : (natText n).head? ≠ some '0' := fun h => hpos.ne' (eq_zero_of_head_natText h)
    rw [autoBase_digits (fun c hc => isDigit_of_mem_natText hc) Nat.toDigits_ne_nil,
      if_neg hhead]
    exact congrArg (fun m => some (m, [])) (Nat.ofDigitChars_toDigits (by decide) le_rfl)

/-- An integer that is printed is read back. -/
theorem autoNumeral_intText (hspace : ∀ c, c = '-' ∨ c.isDigit = true → isspace c = false)
    (i : ℤ) : autoNumeral isspace (intText i) = some (decide (i < 0), i.natAbs, []) := by
  cases i with
  | ofNat n =>
      rw [intText, autoNumeral_digits (fun c hc => hspace c (.inr hc))
        (fun c hc => isDigit_of_mem_natText hc), autoBase_natText]
      rfl
  | negSucc n =>
      have hneg : decide (Int.negSucc n < 0) = true := decide_eq_true (Int.negSucc_lt_zero n)
      rw [intText, autoNumeral, List.dropWhile_cons_of_neg (by simp [hspace '-' (.inl rfl)]), hneg]
      exact congrArg (Option.map (true, ·)) (autoBase_natText (n + 1))

end Decimal

end EDDTs.Library
