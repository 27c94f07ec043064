import EDDTs.Library.Text
import Mathlib.Algebra.Order.Ring.Int
import Mathlib.Tactic.Common

/-!
# Printing into a buffer

A program that prints texts one behind another into a buffer, with a position and the room that
it takes to be left, both moved by what `snprintf` returns; and the loop that hands such a text
to `write`.
-/

namespace EDDTs.Library

/-- What `snprintf` returns for a text of this length: it is an `int`, and −1 for a text that is
too long for it. -/
def printedLength (n : ℕ) : ℤ := if n < 2 ^ 31 then n else -1

/-- A position in a buffer. -/
structure Cursor where
  /-- what stands in front of the position -/
  text : Text
  /-- the variable for the room that is left -/
  size : ℤ
  /-- the values the variable has had -/
  sizes : List ℤ

namespace Cursor

/-- The beginning of a buffer. -/
def start (capacity : ℕ) : Cursor := ⟨[], capacity, [(capacity : ℤ)]⟩

/-- The position moves by `n` after a text was printed there. -/
def advance (c : Cursor) (t : Text) (n : ℤ) : Cursor where
  text := if n < 0 then c.text.take (c.text.length - n.natAbs) else c.text ++ t.take n.toNat
  size := c.size - n
  sizes := (c.size - n) :: c.sizes

/-- Print a text and move behind it; none if the position would leave what was printed. -/
def print (c : Cursor) (t : Text) : Option Cursor :=
  let ret := printedLength t.length
  if 0 ≤ ret ∧ ret < c.size then some (c.advance t ret) else none

/-- Print a text and move behind it, but never into the last `margin` bytes; whether that limit
was reached. -/
def printUpTo (margin : ℕ) (c : Cursor) (t : Text) : Cursor × Bool :=
  let ssize := c.size - margin
  let ret := printedLength t.length
  (c.advance t (min ret ssize), decide (ssize ≤ ret))

/-- The variable is the room that is left, and this is never less than the margin. -/
structure InBounds (capacity margin : ℕ) (c : Cursor) : Prop where
  total : c.text.length + c.size = capacity
  room : margin ≤ c.size
  positive : ∀ s ∈ c.sizes, 0 < s

end Cursor

section PrintedLength

variable {n : ℕ}

theorem printedLength_of_lt (h : n < 2 ^ 31) : printedLength n = n := if_pos h

theorem printedLength_of_le (h : 2 ^ 31 ≤ n) : printedLength n = -1 := if_neg h.not_gt

end PrintedLength

namespace Cursor

variable {capacity margin : ℕ} {c : Cursor} {t : Text}

theorem inBounds_start (hmargin : margin ≤ capacity) (hcapacity : 0 < capacity) :
    (start capacity).InBounds capacity margin where
  total := by simp [start]
  room := by simpa [start] using hmargin
  positive := by simpa [start] using hcapacity

variable (h : c.InBounds capacity margin)

include h

/-- A text that leaves the margin is printed whole. -/
theorem print_of_room (hmargin : 0 < margin) (hlength : t.length < 2 ^ 31)
    (hroom : (t.length + margin : ℤ) ≤ c.size) :
    ∃ c', c.print t = some c' ∧ c'.text = c.text ++ t ∧ c'.InBounds capacity margin := by
  have hret := printedLength_of_lt hlength
  have htotal := h.total
  refine ⟨c.advance t t.length, ?_, by simp [advance], ?_, ?_, ?_⟩
  · rw [print, hret]
    exact if_pos ⟨by omega, by omega⟩
  · simp only [advance, Int.toNat_natCast, List.take_length]
    rw [if_neg (by omega), List.length_append]
    push_cast
    omega
  · simp only [advance]
    omega
  · intro s hs
    rcases List.mem_cons.mp hs with rfl | hs
    · omega
    · exact h.positive s hs

/-- Up to the largest `int`, a text is cut at the margin, and the limit tells so. -/
theorem printUpTo_of_lt (hlength : t.length < 2 ^ 31) :
    (c.printUpTo margin t).1.text = c.text ++ t.take (c.size - margin).toNat ∧
      ((c.printUpTo margin t).2 = true ↔ c.size - margin ≤ t.length) := by
  have hroom := h.room
  simp only [printUpTo, printedLength_of_lt hlength, advance, decide_eq_true_eq, and_true]
  rw [if_neg (by omega)]
  congr 1
  rcases le_total (t.length : ℤ) (c.size - margin) with hle | hle
  · rw [min_eq_left hle, Int.toNat_natCast, List.take_length, List.take_of_length_le (by omega)]
  · rw [min_eq_right hle]

/-- Beyond it the position moves back, and the limit is not reached. -/
theorem printUpTo_of_le (hlength : 2 ^ 31 ≤ t.length) :
    (c.printUpTo margin t).1.text = c.text.dropLast ∧ (c.printUpTo margin t).2 = false := by
  have hroom := h.room
  simp only [printUpTo, printedLength_of_le hlength, advance, decide_eq_false_iff_not, not_le]
  rw [min_eq_left (by omega), if_pos (by omega), List.dropLast_eq_take]
  exact ⟨rfl, by omega⟩

/-- Behind something, a text of any length keeps the position in the buffer. -/
theorem InBounds.printUpTo (hmargin : 0 < margin) (hne : c.text ≠ []) (t : Text) :
    (c.printUpTo margin t).1.InBounds capacity margin := by
  have htotal := h.total
  have hroom := h.room
  have hpos : 0 < c.text.length := List.length_pos_of_ne_nil hne
  have hsize : (c.printUpTo margin t).1.size = c.size - min (printedLength t.length)
      (c.size - margin) := rfl
  have hmin := min_le_right (printedLength t.length) (c.size - margin)
  refine ⟨?_, by omega, ?_⟩
  · rcases lt_or_ge t.length (2 ^ 31) with hlength | hlength
    · rw [(printUpTo_of_lt h hlength).1, hsize, printedLength_of_lt hlength]
      simp only [List.length_append, List.length_take]
      push_cast
      omega
    · rw [(printUpTo_of_le h hlength).1, hsize, printedLength_of_le hlength, List.length_dropLast]
      omega
  · intro s hs
    rcases List.mem_cons.mp hs with rfl | hs
    · omega
    · exact h.positive s hs

end Cursor

/-- The loop that writes a text, from the `k`-th call of `write` on, up to a call that fails:
what was taken, and the number of the next call. -/
def writeLoop (write : ℕ → Text → ℤ) : ℕ → ℕ → Text → Text × ℕ
  | 0, k, _ => ([], k)
  | fuel + 1, k, text =>
      if text = [] then ([], k)
      else
        let ret := write k text
        if ret ≤ 0 then ([], k + 1)
        else
          let rest := writeLoop write fuel (k + 1) (text.drop ret.toNat)
          (text.take ret.toNat ++ rest.1, rest.2)

/-- Each call of `write` takes at least one byte. -/
def Takes (write : ℕ → Text → ℤ) : Prop :=
  ∀ k text, text ≠ [] → 0 < write k text ∧ write k text ≤ text.length

theorem writeLoop_takes {write : ℕ → Text → ℤ} (h : Takes write) (fuel k : ℕ) (text : Text)
    (hfuel : text.length ≤ fuel) : (writeLoop write fuel k text).1 = text := by
  induction fuel generalizing k text with
  | zero => exact (List.eq_nil_of_length_eq_zero (Nat.le_zero.mp hfuel)).symm
  | succ fuel ih =>
      by_cases htext : text = []
      · simp [writeLoop, htext]
      · have hpos := (h k text htext).1
        have hrest := ih (k + 1) (text.drop (write k text).toNat)
          (by rw [List.length_drop]; omega)
        rw [writeLoop, if_neg htext]
        simp only [if_neg hpos.not_ge, hrest, List.take_append_drop]

end EDDTs.Library
