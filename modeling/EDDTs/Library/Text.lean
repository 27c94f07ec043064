import Mathlib.Algebra.Order.Ring.Int
import Mathlib.Data.List.Basic

/-!
# Texts

A C string, or the contents of a text file, is a list of characters. The
conversions are those of `printf`.
-/

namespace EDDTs.Library

abbrev Text := List Char

/-- A property of all characters of a text is decided on those that it has. -/
instance decidableForallMem (t : Text) (p : Char → Prop) [DecidablePred p] :
    Decidable (∀ c ∈ t, p c) := List.decidableBAll p t

/-- The text of a string literal. -/
def txt (s : String) : Text := s.toList

/-- `%d` of a number that is not negative. -/
def natText (n : Nat) : Text := Nat.toDigits 10 n

/-- `%d`. -/
def intText : Int → Text
  | .ofNat n => natText n
  | .negSucc n => '-' :: natText (n + 1)

variable {c : Char}

theorem isDigit_of_mem_natText {n : Nat} (h : c ∈ natText n) : c.isDigit = true :=
  Nat.isDigit_of_mem_toDigits (by decide) (by decide) h

theorem isDigit_of_mem_intText {i : Int} (h : c ∈ intText i) : c = '-' ∨ c.isDigit = true := by
  cases i with
  | ofNat n => exact Or.inr (isDigit_of_mem_natText h)
  | negSucc n =>
      rcases List.mem_cons.mp h with rfl | h
      · exact Or.inl rfl
      · exact Or.inr (isDigit_of_mem_natText h)

/-- A number has no character other than digits and a sign. -/
theorem not_mem_intText (hsign : c ≠ '-') (hdigit : c.isDigit = false) (i : Int) :
    c ∉ intText i := by
  intro h
  rcases isDigit_of_mem_intText h with hc | hc
  · exact hsign hc
  · rw [hdigit] at hc
    cases hc

theorem not_mem_natText (hdigit : c.isDigit = false) (n : Nat) : c ∉ natText n := by
  intro h
  rw [isDigit_of_mem_natText h] at hdigit
  cases hdigit

theorem natText_injective : Function.Injective natText := by
  intro m n h
  have hdigits := congrArg (fun t => Nat.ofDigitChars 10 t 0) h
  simpa only [natText, Nat.ofDigitChars_toDigits (show 1 < 10 by decide) (Nat.le_refl 10)]
    using hdigits

/-- A text is cut at a character in one way if the first part does not have it. -/
theorem cut_unique {x y a b : Text} (hx : c ∉ x) (hy : c ∉ y) (h : x ++ c :: a = y ++ c :: b) :
    x = y ∧ a = b := by
  induction x generalizing y with
  | nil =>
      cases y with
      | nil => exact ⟨rfl, (List.cons.inj h).2⟩
      | cons d y => exact absurd ((List.cons.inj h).1 ▸ List.mem_cons_self) hy
  | cons d x ih =>
      cases y with
      | nil => exact absurd ((List.cons.inj h).1 ▸ List.mem_cons_self) hx
      | cons e y =>
          obtain ⟨rfl, htail⟩ := List.cons.inj h
          obtain ⟨rfl, hab⟩ := ih (fun hmem => hx (List.mem_cons_of_mem d hmem))
            (fun hmem => hy (List.mem_cons_of_mem d hmem)) htail
          exact ⟨rfl, hab⟩

/-- `%-ns`. -/
def padRight (n : Nat) (t : Text) : Text := t ++ List.replicate (n - t.length) ' '

/-- `%ns`. -/
def padLeft (n : Nat) (t : Text) : Text := List.replicate (n - t.length) ' ' ++ t

/-- `%0nd`. -/
def padZero (n : Nat) : Int → Text
  | .ofNat k => List.replicate (n - (natText k).length) '0' ++ natText k
  | .negSucc k =>
      '-' :: (List.replicate (n - 1 - (natText (k + 1)).length) '0' ++ natText (k + 1))

/-- What a C string holds of the bytes it starts with: all before the first NUL. -/
def cString (t : Text) : Text := t.takeWhile (· ≠ '\x00')

end EDDTs.Library
