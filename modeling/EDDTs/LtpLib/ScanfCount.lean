import EDDTs.Library.Text
import Mathlib.Algebra.Order.Ring.Int
import Mathlib.Tactic.Common

/-!
# Counting the conversions of a `scanf` format

`count_scanf_conversions` goes over the characters of a format with a flag that says whether the
one before was a `%`. `file_scanf` compares the count with what `vfscanf` returns.
-/

namespace EDDTs.LtpLib

open Library

/-! ### The function -/

/-- The variables `cnt` and `flag`. -/
structure ScanfCount where
  cnt : BitVec 32
  flag : Bool
  deriving DecidableEq

/-- The body of the loop. -/
def ScanfCount.step (s : ScanfCount) (c : Char) : ScanfCount :=
  if c = '%' then if s.flag then ⟨s.cnt - 1, false⟩ else ⟨s.cnt + 1, true⟩
  else if c = '*' then if s.flag then ⟨s.cnt - 1, false⟩ else s
  else ⟨s.cnt, false⟩

/-- `count_scanf_conversions`: the `unsigned int` is returned as an `int`. -/
def countScanfConversions (fmt : Text) : ℤ := (fmt.foldl ScanfCount.step ⟨0, false⟩).cnt.toInt

/-! ### Formats -/

/-- The length modifiers. -/
inductive LengthModifier where
  | hh | h | l | ll | j | z | t | longDouble
  deriving DecidableEq, Repr

def LengthModifier.text : LengthModifier → Text
  | .hh => txt "hh"
  | .h => txt "h"
  | .l => txt "l"
  | .ll => txt "ll"
  | .j => txt "j"
  | .z => txt "z"
  | .t => txt "t"
  | .longDouble => txt "L"

/-- The conversion specifiers, without `[` and `n`. -/
def conversionSpecifiers : List Char := txt "diouxXaAeEfFgGscpSC"

/-- A conversion of a format. -/
structure Conversion where
  suppressed : Bool
  width : Option ℕ
  modifier : Option LengthModifier
  specifier : Char
  specifier_mem : specifier ∈ conversionSpecifiers

/-- The parts of a format. -/
inductive Directive where
  | literal (t : Text) (plain : '%' ∉ t)
  | percent
  | conversion (c : Conversion)

/-- What follows the `%` and the `*` of a conversion. -/
def Conversion.tail (c : Conversion) : Text :=
  (c.width.map natText).getD [] ++ (c.modifier.map LengthModifier.text).getD [] ++ [c.specifier]

def Directive.text : Directive → Text
  | .literal t _ => t
  | .percent => txt "%%"
  | .conversion c => '%' :: ((if c.suppressed then ['*'] else []) ++ c.tail)

/-- The conversion assigns a value. -/
def Directive.assigns : Directive → Bool
  | .conversion c => !c.suppressed
  | _ => false

/-- A format as it is written. -/
def formatText (format : List Directive) : Text := format.flatMap Directive.text

/-! ### The count -/

section Count

variable {t : Text} {cnt : BitVec 32}

/-- Text without `%` behind no `%` changes nothing. -/
theorem foldl_plain (h : '%' ∉ t) :
    t.foldl ScanfCount.step ⟨cnt, false⟩ = ⟨cnt, false⟩ := by
  induction t with
  | nil => rfl
  | cons c t ih =>
      have hc : c ≠ '%' := fun heq => h (heq ▸ List.mem_cons_self)
      have hstep : ScanfCount.step ⟨cnt, false⟩ c = ⟨cnt, false⟩ := by
        simp [ScanfCount.step, hc]
      rw [List.foldl_cons, hstep]
      exact ih fun hmem => h (List.mem_cons_of_mem c hmem)

/-- Neither `%` nor `*` stands in the rest of a conversion. -/
theorem not_mem_tail {c : Char} (hdigit : c.isDigit = false)
    (hmodifier : ∀ m : LengthModifier, c ∉ m.text) (hspecifier : c ∉ conversionSpecifiers)
    (conversion : Conversion) : c ∉ conversion.tail := by
  obtain ⟨suppressed, width, modifier, specifier, hmem⟩ := conversion
  have hwidth : c ∉ (width.map natText).getD [] := by
    cases width with
    | none => exact List.not_mem_nil
    | some n => exact not_mem_natText hdigit n
  have hlength : c ∉ (modifier.map LengthModifier.text).getD [] := by
    cases modifier with
    | none => exact List.not_mem_nil
    | some m => exact hmodifier m
  have hlast : c ≠ specifier := fun heq => hspecifier (heq ▸ hmem)
  simp [Conversion.tail, hwidth, hlength, hlast]

/-- Text with neither `%` nor `*` ends a conversion. -/
theorem foldl_flag {flag : Bool} (hne : t ≠ []) (hpercent : '%' ∉ t) (hstar : '*' ∉ t) :
    t.foldl ScanfCount.step ⟨cnt, flag⟩ = ⟨cnt, false⟩ := by
  cases t with
  | nil => exact absurd rfl hne
  | cons c t =>
      have hc : c ≠ '%' := fun heq => hpercent (heq ▸ List.mem_cons_self)
      have hc' : c ≠ '*' := fun heq => hstar (heq ▸ List.mem_cons_self)
      have hstep : ScanfCount.step ⟨cnt, flag⟩ c = ⟨cnt, false⟩ := by
        simp [ScanfCount.step, hc, hc']
      rw [List.foldl_cons, hstep]
      exact foldl_plain fun hmem => hpercent (List.mem_cons_of_mem c hmem)

/-- A directive is counted if it assigns a value. -/
theorem foldl_directive (d : Directive) :
    d.text.foldl ScanfCount.step ⟨cnt, false⟩ =
      ⟨cnt + BitVec.ofNat 32 d.assigns.toNat, false⟩ := by
  cases d with
  | literal t plain =>
      rw [Directive.text, foldl_plain plain]
      simp [Directive.assigns]
  | percent =>
      have hzero : cnt + BitVec.ofNat 32 Directive.percent.assigns.toNat = cnt := BitVec.add_zero cnt
      rw [hzero]
      exact congrArg (ScanfCount.mk · false) (BitVec.add_sub_cancel cnt 1)
  | conversion c =>
      have hpercent : '%' ∉ c.tail :=
        not_mem_tail (by decide) (fun m => by cases m <;> decide) (by decide) c
      have hstar : '*' ∉ c.tail :=
        not_mem_tail (by decide) (fun m => by cases m <;> decide) (by decide) c
      have hne : c.tail ≠ [] := by simp [Conversion.tail]
      have hfirst : ScanfCount.step ⟨cnt, false⟩ '%' = ⟨cnt + 1, true⟩ := rfl
      rw [Directive.text, List.foldl_cons, hfirst, List.foldl_append]
      cases hsuppressed : c.suppressed with
      | false =>
          rw [if_neg Bool.false_ne_true, List.foldl_nil, foldl_flag hne hpercent hstar,
            Directive.assigns, hsuppressed]
          rfl
      | true =>
          have hsecond : ScanfCount.step ⟨cnt + 1, true⟩ '*' = ⟨cnt, false⟩ :=
            congrArg (ScanfCount.mk · false) (BitVec.add_sub_cancel cnt 1)
          rw [if_pos rfl, List.foldl_cons, List.foldl_nil, hsecond, foldl_plain hpercent,
            Directive.assigns, hsuppressed]
          simp

/-- The loop counts the directives that assign a value. -/
theorem foldl_formatText (format : List Directive) :
    (formatText format).foldl ScanfCount.step ⟨cnt, false⟩ =
      ⟨cnt + BitVec.ofNat 32 (format.countP Directive.assigns), false⟩ := by
  induction format generalizing cnt with
  | nil => simp [formatText]
  | cons d format ih =>
      have htext : formatText (d :: format) = d.text ++ formatText format := rfl
      rw [htext, List.foldl_append, foldl_directive, ih, List.countP_cons, BitVec.add_assoc,
        ← BitVec.ofNat_add, Nat.add_comm]
      cases d.assigns <;> rfl

/-- The count is that of an `int`. -/
theorem countScanfConversions_eq (format : List Directive) :
    countScanfConversions (formatText format) =
      Int.bmod (format.countP Directive.assigns) (2 ^ 32) := by
  rw [countScanfConversions, foldl_formatText]
  exact (congrArg BitVec.toInt (BitVec.zero_add _)).trans (BitVec.toInt_ofNat' _)

end Count

/-- For every format with fewer than `2 ^ 31` conversions that assign a value: the count is their
number. -/
theorem countScanfConversions_format (format : List Directive)
    (h : format.countP Directive.assigns < 2 ^ 31) :
    countScanfConversions (formatText format) = format.countP Directive.assigns :=
  (countScanfConversions_eq format).trans (Int.bmod_eq_of_le_mul_two (by omega) (by omega))

/-- The conversion `%d`. -/
def decimalConversion : Directive := .conversion ⟨false, none, none, 'd', by decide⟩

/-- A format with a suppressed conversion, a width and a modifier. -/
theorem countScanfConversions_format_percent : countScanfConversions (txt "%*s: %3lu%%") = 1 :=
  countScanfConversions_format
    [.conversion ⟨true, none, none, 's', by decide⟩, .literal (txt ": ") (by decide),
      .conversion ⟨false, some 3, some .l, 'u', by decide⟩, .percent] (by decide)

/-- The number of `2 ^ 31` conversions is no `int`. -/
theorem countScanfConversions_overflow :
    let format := List.replicate (2 ^ 31) decimalConversion
    countScanfConversions (formatText format) = -2 ^ 31 ∧
      format.countP Directive.assigns = 2 ^ 31 := by
  have hcount (n : ℕ) : (List.replicate n decimalConversion).countP Directive.assigns = n :=
    List.countP_replicate.trans (if_pos rfl)
  refine ⟨?_, hcount (2 ^ 31)⟩
  rw [countScanfConversions_eq, hcount]
  decide

end EDDTs.LtpLib
