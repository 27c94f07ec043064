import Mathlib.Data.List.TakeWhile
import EDDTs.Library.Text

/-!
# Functions of the C library

Those that several of the sources call, on texts.
-/

namespace EDDTs.Pan

open Library

/-- `isspace` in the C locale. -/
def isspace (c : Char) : Bool := c ∈ [' ', '\t', '\n', '\x0b', '\x0c', '\r']

/-- `atoi`. -/
def atoi (t : Text) : Int :=
  let digits (u : Text) : Int := (u.takeWhile Char.isDigit).foldl
    (fun n c => 10 * n + (c.toNat - '0'.toNat : Nat)) 0
  match t.dropWhile isspace with
  | '-' :: u => - digits u
  | '+' :: u => digits u
  | u => digits u

/-- `fgets` with a buffer for `room` characters and the NUL: what it stores of the
unread part of a file, and what is left unread. It stores nothing at the end. -/
def fgets : Nat → Text → Text × Text
  | 0, t => ([], t)
  | _ + 1, [] => ([], [])
  | room + 1, c :: t =>
      if c = '\n' then ([c], t) else (c :: (fgets room t).1, (fgets room t).2)

theorem cString_eq {t : Text} (h : '\x00' ∉ t) : cString t = t := by
  apply List.takeWhile_eq_self_iff.mpr
  intro c hc
  exact decide_eq_true fun hnul => h (hnul ▸ hc)

private theorem foldl_digits (ds : Text) (m : Nat) :
    ds.foldl (fun (n : Int) c => 10 * n + (c.toNat - '0'.toNat : Nat)) m =
      Nat.ofDigitChars 10 ds m := by
  induction ds generalizing m with
  | nil => rfl
  | cons d ds ih =>
      rw [List.foldl_cons, Nat.ofDigitChars_cons, ← ih]
      push_cast
      rfl

theorem isspace_of_isDigit {c : Char} (h : c.isDigit = true) : isspace c = false := by
  have hall : ∀ e ∈ [' ', '\t', '\n', '\x0b', '\x0c', '\r'], e.isDigit = false := by decide
  refine decide_eq_false fun hmem => ?_
  rw [hall c hmem] at h
  cases h

/-- A number begins with a digit, before which nothing is skipped and which is no sign. -/
theorem exists_natText_cons (n : Nat) : ∃ d ds, natText n = d :: ds ∧ isspace d = false ∧
    d ≠ '-' ∧ d ≠ '+' := by
  obtain ⟨d, ds, hcons⟩ : ∃ d ds, natText n = d :: ds :=
    List.exists_cons_of_ne_nil Nat.toDigits_ne_nil
  have hd : d.isDigit = true := isDigit_of_mem_natText (hcons ▸ List.mem_cons_self)
  refine ⟨d, ds, hcons, isspace_of_isDigit hd, ?_, ?_⟩
  · rintro rfl
    cases hd
  · rintro rfl
    cases hd

theorem ofDigitChars_natText (n : Nat) : Nat.ofDigitChars 10 (natText n) 0 = n :=
  Nat.ofDigitChars_toDigits (by decide) le_rfl

/-- The digits of a number end where the next character is no digit. -/
theorem takeWhile_natText (n : Nat) {t : Text} (ht : ∀ c ∈ t.head?, c.isDigit = false) :
    (natText n ++ t).takeWhile Char.isDigit = natText n ∧
      (natText n ++ t).dropWhile Char.isDigit = t := by
  have hdigit : ∀ d ∈ natText n, d.isDigit = true := fun d hd => isDigit_of_mem_natText hd
  rw [List.takeWhile_append_of_pos hdigit, List.dropWhile_append_of_pos hdigit]
  cases t with
  | nil => exact ⟨List.append_nil _, rfl⟩
  | cons c t =>
      have hc : ¬ c.isDigit = true := by
        rw [ht c rfl]
        exact Bool.false_ne_true
      rw [List.takeWhile_cons_of_neg hc, List.dropWhile_cons_of_neg hc]
      exact ⟨List.append_nil _, rfl⟩

/-- A number in front of a character that is no digit is read back. -/
theorem atoi_natText {c : Char} (hc : c.isDigit = false) (n : Nat) (t : Text) :
    atoi (natText n ++ c :: t) = n := by
  have hdigits := (takeWhile_natText n (t := c :: t) (by simp [hc])).1
  have hvalue : (natText n).foldl (fun (n : Int) c => 10 * n + (c.toNat - '0'.toNat : Nat)) 0 = n :=
    (foldl_digits (natText n) 0).trans (congrArg _ (ofDigitChars_natText n))
  obtain ⟨d, ds, hcons, hspace, hminus, hplus⟩ := exists_natText_cons n
  have hdrop : (natText n ++ c :: t).dropWhile isspace = natText n ++ c :: t := by
    rw [hcons, List.cons_append, List.dropWhile_cons_of_neg (by simp [hspace])]
  simp only [atoi, hdrop]
  split
  next u heq =>
    rw [hcons] at heq
    exact absurd (List.cons.inj heq).1 hminus
  next u heq =>
    rw [hcons] at heq
    exact absurd (List.cons.inj heq).1 hplus
  next => rw [hdigits, hvalue]

/-- The newline that `fgets` keeps is not read by `atoi`. -/
theorem atoi_append_newline (l : Text) : atoi (l ++ ['\n']) = atoi l := by
  have hdigits : ∀ u : Text, (u ++ ['\n']).takeWhile Char.isDigit = u.takeWhile Char.isDigit := by
    intro u
    induction u with
    | nil => rfl
    | cons c u ih =>
        rw [List.cons_append, List.takeWhile_cons, List.takeWhile_cons, ih]
  have hdrop : (l ++ ['\n']).dropWhile isspace =
      if l.dropWhile isspace = [] then [] else l.dropWhile isspace ++ ['\n'] := by
    rw [List.dropWhile_append]
    simp only [List.isEmpty_iff]
    rfl
  simp only [atoi, hdrop]
  split_ifs with hnil
  · rw [hnil]
  · generalize l.dropWhile isspace = u at hnil
    cases u with
    | nil => exact absurd rfl hnil
    | cons c u =>
        rw [List.cons_append]
        split
        next v hv =>
          obtain ⟨rfl, rfl⟩ := List.cons.inj hv
          simp only [hdigits]
        next v hv =>
          obtain ⟨rfl, rfl⟩ := List.cons.inj hv
          simp only [hdigits]
        next hminus hplus =>
          split
          next v hv => exact absurd (by rw [(List.cons.inj hv).1]) (hminus (u ++ ['\n']))
          next v hv => exact absurd (by rw [(List.cons.inj hv).1]) (hplus (u ++ ['\n']))
          next => rw [← List.cons_append, hdigits]

/-- A line that fits into the buffer is read with its newline. -/
theorem fgets_line {room : Nat} {l : Text} (hl : '\n' ∉ l) (hroom : l.length < room) (t : Text) :
    fgets room (l ++ '\n' :: t) = (l ++ ['\n'], t) := by
  induction l generalizing room with
  | nil =>
      obtain ⟨room, rfl⟩ := Nat.exists_eq_succ_of_ne_zero (Nat.ne_of_gt hroom)
      rfl
  | cons c l ih =>
      obtain ⟨room, rfl⟩ := Nat.exists_eq_succ_of_ne_zero (Nat.ne_of_gt (Nat.zero_lt_of_lt hroom))
      obtain ⟨hc, hl⟩ := not_or.mp fun hor => hl (List.mem_cons.mpr hor)
      have hrest := ih hl (Nat.lt_of_succ_lt_succ hroom)
      rw [List.cons_append, fgets, if_neg (Ne.symm hc), hrest]
      rfl

end EDDTs.Pan
