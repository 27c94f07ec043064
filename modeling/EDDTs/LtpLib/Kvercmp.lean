import Mathlib.Data.Prod.Lex
import Mathlib.Order.Compare
import Mathlib.Tactic.Ring
import EDDTs.Boards.Resm
import EDDTs.Library.Checked
import EDDTs.Pan.CLibrary

/-!
# The comparison of kernel versions

`tst_kvcmp` packs the three components of a version into one `int` and subtracts;
`tst_kvexcmp` compares the components of two version strings one after the other.
-/

namespace EDDTs.LtpLib

open Library
open Boards (Message)
open Pan (isspace)

/-! ### Reading numbers -/

/-- A sign, if there is one, and digits, after white space: whether the sign is a minus, the
number, and what follows the digits. -/
def numeral (t : Text) : Option (Bool × ℕ × Text) :=
  let read (minus : Bool) (u : Text) : Option (Bool × ℕ × Text) :=
    if u.takeWhile Char.isDigit = [] then none
    else some (minus, Nat.ofDigitChars 10 (u.takeWhile Char.isDigit) 0, u.dropWhile Char.isDigit)
  match t.dropWhile isspace with
  | '-' :: u => read true u
  | '+' :: u => read false u
  | u => read false u

/-- `strtoul` to base 10, with 64 bits: the value and the place of `end`, if there are digits. -/
def strtoul (str : Text) : Option (ℕ × Text) :=
  (numeral str).map fun (minus, n, rest) =>
    (if 2 ^ 64 ≤ n then 2 ^ 64 - 1 else if minus then (2 ^ 64 - n) % 2 ^ 64 else n, rest)

/-- `parse_digit` -/
def parseDigit (str : Text) : Option (ℤ × Text) :=
  match strtoul str with
  | none => none
  | some (v, rest) => if v > 2147483647 then none else some (v, rest)

/-- What `tst_parse_kver` returns and stores. -/
structure Kver where
  ret : ℤ
  v1 : ℤ
  v2 : ℤ
  v3 : ℤ
  deriving DecidableEq, Repr

/-- `tst_parse_kver` -/
def tstParseKver (str : Text) : Kver :=
  match parseDigit str with
  | none => ⟨1, 0, 0, 0⟩
  | some (v1, '.' :: str) =>
      match parseDigit str with
      | none => ⟨1, v1, 0, 0⟩
      -- the version is a short one, such as 2.4
      | some (v2, []) => ⟨0, v1, v2, 0⟩
      | some (v2, ' ' :: _) => ⟨0, v1, v2, 0⟩
      | some (v2, '.' :: str) =>
          match parseDigit str with
          | none => ⟨1, v1, v2, 0⟩
          | some (v3, _) => ⟨0, v1, v2, v3⟩
      | some (v2, _) => ⟨1, v1, v2, 0⟩
  | some (v1, _) => ⟨1, v1, 0, 0⟩

/-! ### The comparisons -/

/-- `x << k` in an `int`: a negative `x` has no defined result. -/
def shiftLeft (x : ℤ) (k : ℕ) : Option ℤ := if 0 ≤ x then checked 32 (x * 2 ^ k) else none

/-- `(v1 << 16) + (v2 << 8) + v3` -/
def packVersion (v1 v2 v3 : ℤ) : Option ℤ := do
  let high ← shiftLeft v1 16
  let middle ← shiftLeft v2 8
  let sum ← checked 32 (high + middle)
  checked 32 (sum + v3)

/-- `tst_kvcmp`: the warnings and the result. -/
def tstKvcmp (curKver : Text) (r1 r2 r3 : ℤ) : List Message × Option ℤ :=
  let a := tstParseKver curKver
  (if a.ret ≠ 0 then
      [⟨.warn, txt "Invalid kernel version " ++ curKver ++ txt ", expected %d.%d.%d", false⟩]
    else [],
    do
      let testver ← packVersion r1 r2 r3
      let currver ← packVersion a.v1 a.v2 a.v3
      checked 32 (currver - testver))

/-- `sscanf` with a format of `%d` and single characters between them: the numbers that it
stores. They are values of an `int`, or it has no defined result. -/
def sscanf : List Char → Text → List ℤ
  | seps, t =>
      match numeral t with
      | none => []
      | some (minus, n, rest) =>
          (if minus then -(n : ℤ) else n) ::
            match seps, rest with
            | sep :: seps, c :: rest => if c = sep then sscanf seps rest else []
            | _, _ => []

/-- The first difference of two lists of numbers that is not zero, the last one otherwise. -/
def firstDifference : List (ℤ × ℤ) → Option ℤ
  | [] => some 0
  | [(c, t)] => checked 32 (c - t)
  | (c, t) :: rest => do
      let ret ← checked 32 (c - t)
      if ret ≠ 0 then return ret else firstDifference rest

/-- `tst_kvexcmp` -/
def tstKvexcmp (tstExv curVer : Text) : Option ℤ :=
  let c := sscanf ['.', '.', '-', '.'] curVer
  let t := sscanf ['.', '.', '-', '.'] tstExv
  firstDifference ((List.range 5).map fun i => (c.getD i 0, t.getD i 0))

/-! ### Reading a version -/

/-- The version string `a.b.c`. -/
def versionText (a b c : ℕ) : Text := natText a ++ '.' :: (natText b ++ '.' :: natText c)

section Read

theorem numeral_natText (n : ℕ) {t : Text} (ht : ∀ c ∈ t.head?, c.isDigit = false) :
    numeral (natText n ++ t) = some (false, n, t) := by
  obtain ⟨htake, hdrop⟩ := Pan.takeWhile_natText n ht
  obtain ⟨d, ds, hcons, hspace, hminus, hplus⟩ := Pan.exists_natText_cons n
  have hskip : (natText n ++ t).dropWhile isspace = natText n ++ t := by
    rw [hcons, List.cons_append, List.dropWhile_cons_of_neg (by simp [hspace])]
  have hne : natText n ≠ [] := by
    rw [hcons]
    exact List.cons_ne_nil d ds
  simp only [numeral, hskip]
  split
  next u heq =>
    rw [hcons] at heq
    exact absurd (List.cons.inj heq).1 hminus
  next u heq =>
    rw [hcons] at heq
    exact absurd (List.cons.inj heq).1 hplus
  next => rw [htake, hdrop, if_neg hne, Pan.ofDigitChars_natText]

theorem parseDigit_natText {n : ℕ} (hn : n < 2 ^ 31) {t : Text}
    (ht : ∀ c ∈ t.head?, c.isDigit = false) : parseDigit (natText n ++ t) = some ((n : ℤ), t) := by
  have hread : strtoul (natText n ++ t) = some (n, t) := by
    have hsmall : ¬ 2 ^ 64 ≤ n := by omega
    simp only [strtoul, numeral_natText n ht, Option.map_some, if_neg hsmall, Bool.false_eq_true,
      if_false]
  have hfits : ¬ n > 2147483647 := by omega
  simp only [parseDigit, hread, if_neg hfits]

variable {a b c : ℕ} {suffix : Text}

theorem tstParseKver_version (ha : a < 2 ^ 31) (hb : b < 2 ^ 31) (hc : c < 2 ^ 31)
    (hsuffix : ∀ d ∈ suffix.head?, d.isDigit = false) :
    tstParseKver (versionText a b c ++ suffix) = ⟨0, a, b, c⟩ := by
  have hdot : ∀ t : Text, ∀ d ∈ ('.' :: t).head?, d.isDigit = false := by
    rintro t d ⟨⟩
    rfl
  have htext : versionText a b c ++ suffix =
      natText a ++ '.' :: (natText b ++ '.' :: (natText c ++ suffix)) := by
    simp [versionText]
  rw [htext]
  simp only [tstParseKver, parseDigit_natText ha (hdot _), parseDigit_natText hb (hdot _),
    parseDigit_natText hc hsuffix]

theorem sscanf_version (a b c : ℕ) :
    sscanf ['.', '.', '-', '.'] (versionText a b c) = [(a : ℤ), b, c] := by
  have hdot : ∀ t : Text, ∀ d ∈ ('.' :: t).head?, d.isDigit = false := by
    rintro t d ⟨⟩
    rfl
  have hlast : numeral (natText c) = some (false, c, []) := by
    have h := numeral_natText c (t := []) (by simp)
    rwa [List.append_nil] at h
  simp [versionText, sscanf, numeral_natText a (hdot _), numeral_natText b (hdot _), hlast]

end Read

/-! ### The order -/

/-- The order of versions. -/
def version (a b c : ℕ) : ℕ ×ₗ ℕ ×ₗ ℕ := toLex (a, toLex (b, c))

/-- What `tst_kvcmp` is meant to say: the sign of the result is that of the lexicographic
comparison, and the same as that of the result of `tst_kvexcmp`. -/
def ComparesVersions (a b c : ℕ) (suffix : Text) (r1 r2 r3 : ℕ) : Prop :=
  ∃ d e, (tstKvcmp (versionText a b c ++ suffix) r1 r2 r3).2 = some d ∧
    tstKvexcmp (versionText r1 r2 r3) (versionText a b c) = some e ∧
    cmp d 0 = cmp (version a b c) (version r1 r2 r3) ∧ cmp d 0 = cmp e 0

/-- A greater component outweighs what the lower ones are less. -/
def Outweighs (a b c r1 r2 r3 : ℤ) : Prop :=
  (r1 < a → 256 * (r2 - b) + (r3 - c) < 65536 * (a - r1)) ∧
    (a = r1 → r2 < b → r3 - c < 256 * (b - r2))

instance (a b c r1 r2 r3 : ℤ) : Decidable (Outweighs a b c r1 r2 r3) :=
  inferInstanceAs (Decidable (_ ∧ _))

section Order

/-- Pairs are compared by their first components, then by their second ones. -/
theorem cmp_toLex {α β : Type*} [LinearOrder α] [LinearOrder β] (a a' : α) (b b' : β) :
    cmp (toLex (a, b)) (toLex (a', b')) = (cmp a a').then (cmp b b') := by
  rcases lt_trichotomy a a' with h | rfl | h
  · rw [(cmp_eq_lt_iff _ _).mpr h,
      (cmp_eq_lt_iff _ _).mpr (Prod.Lex.toLex_lt_toLex.mpr (Or.inl h))]
    rfl
  · rw [cmp_self_eq_eq]
    rcases lt_trichotomy b b' with h | rfl | h
    · have hlex : toLex (a, b) < toLex (a, b') := Prod.Lex.toLex_lt_toLex.mpr (Or.inr ⟨rfl, h⟩)
      rw [(cmp_eq_lt_iff _ _).mpr h, (cmp_eq_lt_iff _ _).mpr hlex]
      rfl
    · rw [cmp_self_eq_eq, cmp_self_eq_eq]
      rfl
    · have hlex : toLex (a, b') < toLex (a, b) := Prod.Lex.toLex_lt_toLex.mpr (Or.inr ⟨rfl, h⟩)
      rw [(cmp_eq_gt_iff _ _).mpr h, (cmp_eq_gt_iff _ _).mpr hlex]
      rfl
  · rw [(cmp_eq_gt_iff _ _).mpr h,
      (cmp_eq_gt_iff _ _).mpr (Prod.Lex.toLex_lt_toLex.mpr (Or.inl h))]
    rfl

variable {a b c r1 r2 r3 : ℕ}

theorem cmp_version : cmp (version a b c) (version r1 r2 r3) =
    (cmp a r1).then ((cmp b r2).then (cmp c r3)) := by
  rw [version, version, cmp_toLex, cmp_toLex]

theorem cmp_sub_zero (x y : ℕ) : cmp ((x : ℤ) - y) 0 = cmp x y := by
  rcases lt_trichotomy x y with h | rfl | h
  · rw [(cmp_eq_lt_iff _ _).mpr h, cmp_eq_lt_iff]
    omega
  · rw [sub_self, cmp_self_eq_eq, cmp_self_eq_eq]
  · rw [(cmp_eq_gt_iff _ _).mpr h, cmp_eq_gt_iff]
    omega

/-- The components of a version that is packed without overflow. -/
def Packs (a b c : ℕ) : Prop := a * 65536 + b * 256 + c < 2 ^ 31

instance (a b c : ℕ) : Decidable (Packs a b c) := inferInstanceAs (Decidable (_ < _))

theorem shiftLeft_eq {x : ℤ} {k : ℕ} (hx : 0 ≤ x) (h : Fits 32 (x * 2 ^ k)) :
    shiftLeft x k = some (x * 2 ^ k) := by
  rw [shiftLeft, if_pos hx]
  exact checked_of_fits h

theorem packVersion_eq {v1 v2 v3 : ℤ} (h1 : 0 ≤ v1) (h2 : 0 ≤ v2) (h3 : 0 ≤ v3)
    (h : v1 * 2 ^ 16 + v2 * 2 ^ 8 + v3 < 2 ^ 31) :
    packVersion v1 v2 v3 = some (v1 * 2 ^ 16 + v2 * 2 ^ 8 + v3) := by
  have hhigh := shiftLeft_eq (k := 16) h1 (by unfold Fits; omega)
  have hmiddle := shiftLeft_eq (k := 8) h2 (by unfold Fits; omega)
  have hsum : Fits 32 (v1 * 2 ^ 16 + v2 * 2 ^ 8) := by
    unfold Fits
    omega
  have hall : Fits 32 (v1 * 2 ^ 16 + v2 * 2 ^ 8 + v3) := by
    unfold Fits
    omega
  simp only [packVersion, hhigh, hmiddle, Option.bind_eq_bind, Option.bind_some,
    checked_of_fits hsum, checked_of_fits hall]

theorem Packs.packVersion_eq (h : Packs a b c) :
    packVersion a b c = some ((a : ℤ) * 2 ^ 16 + b * 2 ^ 8 + c) := by
  unfold Packs at h
  apply LtpLib.packVersion_eq
  all_goals omega

/-- The result for a version that can be read, when both versions can be packed. -/
theorem tstKvcmp_snd {curKver : Text} {v : Kver} (hparse : tstParseKver curKver = v)
    {r1 r2 r3 currver testver : ℤ} (hcur : packVersion v.v1 v.v2 v.v3 = some currver)
    (htest : packVersion r1 r2 r3 = some testver) :
    (tstKvcmp curKver r1 r2 r3).2 = checked 32 (currver - testver) := by
  subst hparse
  simp only [tstKvcmp, hcur, htest, Option.bind_eq_bind, Option.bind_some]

theorem tstKvcmp_version {suffix : Text} (hcur : Packs a b c) (htest : Packs r1 r2 r3)
    (hsuffix : ∀ d ∈ suffix.head?, d.isDigit = false) :
    (tstKvcmp (versionText a b c ++ suffix) r1 r2 r3).2 =
      some (a * 2 ^ 16 + b * 2 ^ 8 + c - (r1 * 2 ^ 16 + r2 * 2 ^ 8 + r3) : ℤ) := by
  have hparse : tstParseKver (versionText a b c ++ suffix) = ⟨0, a, b, c⟩ := by
    unfold Packs at hcur
    exact tstParseKver_version (by omega) (by omega) (by omega) hsuffix
  rw [tstKvcmp_snd hparse hcur.packVersion_eq htest.packVersion_eq]
  apply checked_of_fits
  unfold Packs at hcur htest
  unfold Fits
  omega

/-- A list of components is compared by the first difference. -/
theorem firstDifference_cons {x y : ℕ} (hx : x < 2 ^ 31) (hy : y < 2 ^ 31) {rest : List (ℤ × ℤ)}
    {o : Ordering} (hne : rest ≠ [])
    (hrest : ∃ e, firstDifference rest = some e ∧ cmp e 0 = o) :
    ∃ e, firstDifference (((x : ℤ), (y : ℤ)) :: rest) = some e ∧ cmp e 0 = (cmp x y).then o := by
  have hfits : Fits 32 ((x : ℤ) - y) := by
    unfold Fits
    omega
  obtain ⟨p, ps, rfl⟩ := List.exists_cons_of_ne_nil hne
  obtain ⟨e, he, ho⟩ := hrest
  have hfirst : firstDifference (((x : ℤ), (y : ℤ)) :: p :: ps) =
      if (x : ℤ) - y ≠ 0 then some ((x : ℤ) - y) else firstDifference (p :: ps) := by
    simp only [firstDifference, Option.bind_eq_bind, checked_of_fits hfits, Option.bind_some]
    rfl
  rw [hfirst]
  by_cases heq : (x : ℤ) - y ≠ 0
  · rw [if_pos heq]
    refine ⟨_, rfl, ?_⟩
    rw [cmp_sub_zero]
    rcases lt_or_gt_of_ne (fun h : x = y => heq (by simp [h])) with h | h
    · rw [(cmp_eq_lt_iff _ _).mpr h]
      rfl
    · rw [(cmp_eq_gt_iff _ _).mpr h]
      rfl
  · rw [if_neg heq]
    obtain rfl : x = y := by
      rw [ne_eq, not_not] at heq
      omega
    refine ⟨e, he, ?_⟩
    rw [cmp_self_eq_eq, ho]
    rfl

theorem tstKvexcmp_version (hcur : Packs a b c) (htest : Packs r1 r2 r3) :
    ∃ e, tstKvexcmp (versionText r1 r2 r3) (versionText a b c) = some e ∧
      cmp e 0 = cmp (version a b c) (version r1 r2 r3) := by
  unfold Packs at hcur htest
  have hrest : ∃ e, firstDifference [((0 : ℤ), (0 : ℤ)), (0, 0)] = some e ∧ cmp e 0 = .eq :=
    ⟨0, rfl, rfl⟩
  have hc := firstDifference_cons (x := c) (y := r3) (by omega) (by omega) (List.cons_ne_nil _ _)
    hrest
  have hb := firstDifference_cons (x := b) (y := r2) (by omega) (by omega) (List.cons_ne_nil _ _) hc
  have ha := firstDifference_cons (x := a) (y := r1) (by omega) (by omega) (List.cons_ne_nil _ _) hb
  have hkv : tstKvexcmp (versionText r1 r2 r3) (versionText a b c) = firstDifference
      [((a : ℤ), (r1 : ℤ)), (b, r2), (c, r3), (0, 0), (0, 0)] := by
    simp only [tstKvexcmp, sscanf_version]
    rfl
  rw [hkv, cmp_version]
  rw [Ordering.then_eq] at ha
  exact ha

/-- The packed difference has the sign of the first different component if that outweighs
the ones below it, and only then. -/
theorem cmp_packed_iff :
    cmp (a * 2 ^ 16 + b * 2 ^ 8 + c - (r1 * 2 ^ 16 + r2 * 2 ^ 8 + r3) : ℤ) 0 =
      cmp (version a b c) (version r1 r2 r3) ↔
      Outweighs a b c r1 r2 r3 ∧ Outweighs r1 r2 r3 a b c := by
  rw [cmp_version]
  unfold Outweighs
  rcases lt_trichotomy a r1 with h | rfl | h
  · rw [(cmp_eq_lt_iff _ _).mpr h, Ordering.lt_then, cmp_eq_lt_iff]
    omega
  · rw [cmp_self_eq_eq, Ordering.eq_then]
    rcases lt_trichotomy b r2 with h | rfl | h
    · rw [(cmp_eq_lt_iff _ _).mpr h, Ordering.lt_then, cmp_eq_lt_iff]
      omega
    · rw [cmp_self_eq_eq, Ordering.eq_then, ← cmp_sub_zero c r3]
      refine iff_of_true ?_ (by omega)
      congr 1
      ring
    · rw [(cmp_eq_gt_iff _ _).mpr h, Ordering.gt_then, cmp_eq_gt_iff]
      omega
  · rw [(cmp_eq_gt_iff _ _).mpr h, Ordering.gt_then, cmp_eq_gt_iff]
    omega

end Order

/-- `tst_kvcmp` orders two versions exactly when, in the first component in which they
differ, the greater one outweighs what the lower components are less: a component of 256 or
more runs into the one above it. -/
theorem tstKvcmp_orders_iff (a b c : ℕ) (suffix : Text) (r1 r2 r3 : ℕ) (hcur : Packs a b c)
    (htest : Packs r1 r2 r3) (hsuffix : ∀ d ∈ suffix.head?, d.isDigit = false) :
    ComparesVersions a b c suffix r1 r2 r3 ↔
      Outweighs a b c r1 r2 r3 ∧ Outweighs r1 r2 r3 a b c := by
  have hkvcmp := tstKvcmp_version hcur htest hsuffix
  obtain ⟨e, he, hsign⟩ := tstKvexcmp_version hcur htest
  rw [← cmp_packed_iff]
  unfold ComparesVersions
  rw [hkvcmp]
  constructor
  · rintro ⟨d, e', hd, -, hlex, -⟩
    obtain rfl := Option.some.inj hd
    exact hlex
  · intro hlex
    exact ⟨_, e, rfl, he, hlex, hlex.trans hsign.symm⟩

/-- Components below 256 are kept apart. -/
theorem tstKvcmp_orders_small :
    ComparesVersions 4 8 1 (txt "-52-default") 4 10 0 := by
  refine (tstKvcmp_orders_iff 4 8 1 (txt "-52-default") 4 10 0 (by decide) (by decide) ?_).mpr
    (by decide)
  rintro d ⟨⟩
  decide

/-- The kernel 4.9.256 is taken for 4.10.0. -/
theorem tstKvcmp_4_9_256 :
    tstKvcmp (txt "4.9.256") 4 10 0 = ([], some 0) ∧
      tstKvexcmp (txt "4.10.0") (txt "4.9.256") = some (-1) ∧
      ¬ ComparesVersions 4 9 256 [] 4 10 0 := by
  have hkvcmp : tstKvcmp (txt "4.9.256") 4 10 0 = ([], some 0) := by decide +kernel
  have hkvexcmp : tstKvexcmp (txt "4.10.0") (txt "4.9.256") = some (-1) := by decide +kernel
  have hcur : versionText 4 9 256 = txt "4.9.256" := by decide +kernel
  have htest : versionText 4 10 0 = txt "4.10.0" := by decide +kernel
  refine ⟨hkvcmp, hkvexcmp, ?_⟩
  rintro ⟨d, e, hd, he, -, hsame⟩
  rw [List.append_nil, hcur] at hd
  rw [htest, hcur] at he
  obtain rfl : 0 = d := Option.some.inj ((congrArg Prod.snd hkvcmp).symm.trans hd)
  obtain rfl : -1 = e := Option.some.inj (hkvexcmp.symm.trans he)
  exact absurd hsame (by decide)

end EDDTs.LtpLib
