import EDDTs.Pan.Collection

/-!
# The arguments that become a command

The loop of `get_collection` over the arguments counts `workstr_left` down by the whole
length of an argument, whatever `strncat` has copied of it, and a count below zero limits
nothing any more.
-/

namespace EDDTs.Pan

open Library

/-- The counter is what is left of the 1023 characters of `workstr`. -/
structure Workstr.Counted (w : Workstr) : Prop where
  nonneg : 0 ≤ w.workstrLeft
  left_eq : w.workstrLeft = 1023 - w.workstr.length

/-- The arguments, each with a blank behind it. -/
def joined (args : List Text) : Text := args.flatMap (· ++ [' '])

/-- What the loop is meant to do: the counter is right after every pass, and the text is cut
where `workstr` ends. -/
structure FillsWorkstr (args : List Text) : Prop where
  counted : ∀ before, before <+: args → (fillWorkstr before).Counted
  workstr : (fillWorkstr args).workstr = (joined args).take 1023

section Args

theorem length_joined_cons (arg : Text) (args : List Text) :
    (joined (arg :: args)).length = arg.length + 1 + (joined args).length := by
  simp only [joined, List.flatMap_cons, List.length_append, List.length_singleton]

theorem length_joined (args : List Text) :
    (joined args).length = (args.map fun arg => arg.length + 1).sum := by
  simp [joined, List.length_flatMap]

variable {w : Workstr}

/-- An argument and its blank that fit are appended. -/
theorem Workstr.add_eq {arg : Text} (hw : w.Counted) (hfits : arg.length + 1 ≤ w.workstrLeft) :
    w.add arg = ⟨w.workstr ++ arg ++ [' '], w.workstrLeft - (arg.length + 1)⟩ := by
  have hsmall : w.workstrLeft ≤ 1023 := by
    have := hw.left_eq
    omega
  have hleft : Int.bmod (w.workstrLeft - arg.length) (2 ^ 32) = w.workstrLeft - arg.length :=
    Int.bmod_eq_of_le_mul_two (by omega) (by omega)
  have hrest : Int.bmod (w.workstrLeft - arg.length - 1) (2 ^ 32) =
      w.workstrLeft - (arg.length + 1) := by
    rw [Int.bmod_eq_of_le_mul_two (by omega) (by omega), Int.sub_sub]
  have harg : strncat w.workstr arg w.workstrLeft = w.workstr ++ arg := by
    rw [strncat, if_neg (by omega), List.take_of_length_le (by omega)]
  have hblank : strncat (w.workstr ++ arg) [' '] (w.workstrLeft - arg.length) =
      w.workstr ++ arg ++ [' '] := by
    rw [strncat, if_neg (by omega), List.take_of_length_le (by simp; omega)]
  simp only [Workstr.add, hleft, hrest, harg, hblank]

/-- One pass keeps the counter right exactly when the argument and its blank fit. -/
theorem Workstr.counted_add_iff (hw : w.Counted) (arg : Text) :
    (w.add arg).Counted ↔ arg.length + 1 ≤ w.workstrLeft := by
  constructor
  · intro hadd
    by_contra hlong
    have hfull : (strncat w.workstr arg w.workstrLeft).length = 1023 := by
      have := hw.nonneg
      have := hw.left_eq
      rw [strncat, if_neg (by omega), List.length_append, List.length_take]
      omega
    obtain ⟨hnonneg, hleft⟩ := hadd
    simp only [Workstr.add] at hnonneg hleft
    generalize hcount : Int.bmod (w.workstrLeft - arg.length) (2 ^ 32) = count at hnonneg hleft
    by_cases hzero : count = 0
    · -- the text is full and the blank is left out, but counted
      rw [hzero] at hnonneg
      exact absurd hnonneg (by decide)
    · -- the blank is written behind the end
      have hblank : (strncat (strncat w.workstr arg w.workstrLeft) [' '] count).length = 1024 := by
        unfold strncat at hfull ⊢
        split
        next => simp [hfull]
        next hcount =>
            rw [List.length_append, hfull, List.take_of_length_le (by simp; omega)]
            rfl
      omega
  · intro hfits
    rw [Workstr.add_eq hw hfits]
    refine ⟨by simp only; omega, ?_⟩
    have := hw.left_eq
    simp only [List.length_append, List.length_singleton]
    omega

/-- A run of the loop keeps the counter right exactly when everything fits. -/
theorem counted_foldl_iff (args : List Text) (hw : w.Counted) :
    (∀ before, before <+: args → (before.foldl Workstr.add w).Counted) ↔
      ((joined args).length : Int) ≤ w.workstrLeft := by
  induction args generalizing w with
  | nil =>
      refine iff_of_true ?_ hw.nonneg
      intro before hbefore
      rwa [List.prefix_nil.mp hbefore]
  | cons arg args ih =>
      have hlength := length_joined_cons arg args
      constructor
      · intro h
        have hadd : (w.add arg).Counted := h [arg] ⟨args, rfl⟩
        have hfits := (Workstr.counted_add_iff hw arg).mp hadd
        have hrest := (ih hadd).mp fun before hbefore =>
          h (arg :: before) (List.cons_prefix_cons.mpr ⟨rfl, hbefore⟩)
        rw [Workstr.add_eq hw hfits] at hrest
        simp only at hrest
        omega
      · intro hsum before hbefore
        have hfits : arg.length + 1 ≤ w.workstrLeft := by omega
        cases before with
        | nil => exact hw
        | cons head before =>
            obtain ⟨rfl, htail⟩ := List.cons_prefix_cons.mp hbefore
            refine (ih ((Workstr.counted_add_iff hw head).mpr hfits)).mpr ?_ before htail
            rw [Workstr.add_eq hw hfits]
            simp only
            omega

/-- The text of a run in which everything fits. -/
theorem workstr_foldl {args : List Text} (hw : w.Counted)
    (hfits : ((joined args).length : Int) ≤ w.workstrLeft) :
    (args.foldl Workstr.add w).workstr = w.workstr ++ joined args := by
  induction args generalizing w with
  | nil => simp [joined]
  | cons arg args ih =>
      have hlength := length_joined_cons arg args
      have harg : arg.length + 1 ≤ w.workstrLeft := by omega
      have hadd := Workstr.add_eq hw harg
      have hrest := ih ((Workstr.counted_add_iff hw arg).mpr harg) (by rw [hadd]; simp only; omega)
      rw [List.foldl_cons, hrest, hadd]
      simp [joined]

end Args

/-- The loop does what it is meant to do exactly for arguments that fit into `workstr` with
the blanks behind them. -/
theorem fillsWorkstr_iff (args : List Text) :
    FillsWorkstr args ↔ (args.map fun arg => arg.length + 1).sum ≤ 1023 := by
  have hstart : Workstr.Counted ⟨[], 1023⟩ := ⟨by decide, rfl⟩
  have hcounted := counted_foldl_iff args hstart
  rw [← length_joined]
  constructor
  · intro h
    have hfits := hcounted.mp h.counted
    simp only at hfits
    omega
  · intro hfits
    refine ⟨hcounted.mpr (by simp only; omega), ?_⟩
    rw [List.take_of_length_le hfits]
    exact workstr_foldl hstart (by simp only; omega)

/-- One argument of 1024 characters is written past the end of `workstr`, with a counter
below zero. -/
theorem fillWorkstr_overflow :
    (fillWorkstr [List.replicate 1024 'a', txt "b"]).workstrLeft = -4 ∧
      (fillWorkstr [List.replicate 1024 'a', txt "b"]).workstr.length = 1026 ∧
      ¬ FillsWorkstr [List.replicate 1024 'a', txt "b"] := by
  have hleft : (fillWorkstr [List.replicate 1024 'a', txt "b"]).workstrLeft = -4 := by
    decide +kernel
  refine ⟨hleft, by decide +kernel, ?_⟩
  intro h
  have hnonneg := (h.counted _ List.prefix_rfl).nonneg
  rw [hleft] at hnonneg
  exact absurd hnonneg (by decide)

end EDDTs.Pan
