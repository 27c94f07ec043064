import EDDTs.Library.Text

/-!
# Hexadecimal numbers

Numbers that are printed with a fixed number of upper-case digits, and the value of a sequence
of digits.
-/

namespace EDDTs.Library

/-- A digit of `%X`. -/
def hexChar (d : ℕ) : Char := if d < 10 then Char.ofNat (48 + d) else Char.ofNat (55 + d)

/-- `isxdigit` -/
def isHexDigit (c : Char) : Bool :=
  ('0' ≤ c && c ≤ '9') || ('a' ≤ c && c ≤ 'f') || ('A' ≤ c && c ≤ 'F')

/-- The value of a digit. -/
def hexCharValue (c : Char) : ℕ :=
  if c ≤ '9' then c.toNat - 48 else if c ≤ 'F' then c.toNat - 55 else c.toNat - 87

/-- `%0wX` of a number below `16 ^ w`. -/
def hexText : ℕ → ℕ → Text
  | 0, _ => []
  | w + 1, n => hexText w (n / 16) ++ [hexChar (n % 16)]

/-- The value of a sequence of digits. -/
def hexValue (t : Text) : ℕ := t.foldl (fun n c => 16 * n + hexCharValue c) 0

theorem hexChar_spec : ∀ d < 16, isHexDigit (hexChar d) = true ∧ hexCharValue (hexChar d) = d := by
  decide

theorem length_hexText (w n : ℕ) : (hexText w n).length = w := by
  induction w generalizing n with
  | zero => rfl
  | succ w ih => rw [hexText, List.length_append, ih, List.length_singleton]

theorem isHexDigit_of_mem_hexText {w n : ℕ} {c : Char} (h : c ∈ hexText w n) :
    isHexDigit c = true := by
  induction w generalizing n with
  | zero => cases h
  | succ w ih =>
      rcases List.mem_append.mp h with hmem | hmem
      · exact ih hmem
      · rw [List.mem_singleton.mp hmem]
        exact (hexChar_spec _ (Nat.mod_lt n (by decide))).1

/-- A number that fits into its digits is read back. -/
theorem hexValue_hexText {w n : ℕ} (h : n < 16 ^ w) : hexValue (hexText w n) = n := by
  induction w generalizing n with
  | zero => exact (Nat.lt_one_iff.mp h).symm
  | succ w ih =>
      have hdigit := (hexChar_spec _ (Nat.mod_lt n (show 0 < 16 by decide))).2
      have hrest := ih (n := n / 16) (Nat.div_lt_of_lt_mul (by rwa [Nat.pow_succ'] at h))
      rw [hexValue] at hrest
      rw [hexValue, hexText, List.foldl_append, hrest, List.foldl_cons, List.foldl_nil, hdigit]
      exact Nat.div_add_mod n 16

end EDDTs.Library
