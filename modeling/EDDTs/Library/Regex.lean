import Mathlib.Computability.Language

/-!
# Regular expressions and their longest match

Expressions over classes of letters, with the language each denotes. Matching
takes derivatives letter by letter and remembers the last point at which the
expression left over accepts the empty word.
-/

namespace EDDTs.Library

open scoped Computability

/-- A regular expression whose atoms are classes of letters. -/
inductive Regex (α : Type*) where
  | void
  | empty
  | cls (p : α → Bool)
  | seq (r q : Regex α)
  | alt (r q : Regex α)
  | star (r : Regex α)

namespace Regex

variable {α : Type*}

/-- `r+`. -/
def plus (r : Regex α) : Regex α := r.seq r.star

/-- The letters of a word, one after the other. -/
def word [DecidableEq α] : List α → Regex α
  | [] => empty
  | a :: w => (cls fun b => decide (b = a)).seq (word w)

/-- The language of an expression. -/
def lang : Regex α → Language α
  | void => 0
  | empty => 1
  | cls p => { t | ∃ a, p a = true ∧ t = [a] }
  | seq r q => r.lang * q.lang
  | alt r q => r.lang + q.lang
  | star r => r.lang∗

section Languages

variable {p : α → Bool} {r q : Regex α} {t : List α}

theorem mem_lang_cls : t ∈ (cls p).lang ↔ ∃ a, p a = true ∧ t = [a] := Iff.rfl

theorem mem_lang_seq : t ∈ (r.seq q).lang ↔ ∃ a ∈ r.lang, ∃ b ∈ q.lang, a ++ b = t :=
  Language.mem_mul

theorem mem_lang_alt : t ∈ (r.alt q).lang ↔ t ∈ r.lang ∨ t ∈ q.lang := Iff.rfl

theorem mem_lang_star_cls : t ∈ (cls p).star.lang ↔ ∀ a ∈ t, p a = true := by
  constructor
  · intro ht
    obtain ⟨L, rfl, hL⟩ := Language.mem_kstar.mp ht
    intro a ha
    obtain ⟨w, hw, haw⟩ := List.mem_flatten.mp ha
    obtain ⟨b, hb, rfl⟩ := hL w hw
    exact List.mem_singleton.mp haw ▸ hb
  · intro ht
    apply Language.mem_kstar.mpr
    refine ⟨t.map fun a => [a], by simp [← List.flatMap_def], ?_⟩
    intro w hw
    obtain ⟨a, ha, rfl⟩ := List.mem_map.mp hw
    exact ⟨a, ht a ha, rfl⟩

theorem mem_lang_plus_cls :
    t ∈ (cls p).plus.lang ↔ t ≠ [] ∧ ∀ a ∈ t, p a = true := by
  constructor
  · intro ht
    obtain ⟨_, ⟨a, ha, rfl⟩, b, hb, rfl⟩ := mem_lang_seq.mp ht
    refine ⟨by simp, ?_⟩
    intro c hc
    rcases List.mem_cons.mp hc with rfl | hc
    · exact ha
    · exact mem_lang_star_cls.mp hb c hc
  · rintro ⟨hne, ht⟩
    obtain ⟨a, b, rfl⟩ := List.exists_cons_of_ne_nil hne
    apply mem_lang_seq.mpr
    refine ⟨[a], ⟨a, ht a (by simp), rfl⟩, b, ?_, rfl⟩
    exact mem_lang_star_cls.mpr fun c hc => ht c (List.mem_cons_of_mem a hc)

theorem mem_lang_word [DecidableEq α] {w : List α} : t ∈ (word w).lang ↔ t = w := by
  induction w generalizing t with
  | nil => exact Iff.rfl
  | cons a w ih =>
      constructor
      · intro ht
        obtain ⟨_, ⟨b, hb, rfl⟩, u, hu, rfl⟩ := mem_lang_seq.mp ht
        rw [ih.mp hu, of_decide_eq_true hb]
        rfl
      · rintro rfl
        exact mem_lang_seq.mpr ⟨[a], ⟨a, by simp, rfl⟩, w, ih.mpr rfl, rfl⟩

end Languages

/-- The expression accepts the empty word. -/
def nullable : Regex α → Bool
  | void => false
  | empty => true
  | cls _ => false
  | seq r q => r.nullable && q.nullable
  | alt r q => r.nullable || q.nullable
  | star _ => true

/-- `seq`, without the parts that add nothing. -/
def mkSeq : Regex α → Regex α → Regex α
  | void, _ => void
  | empty, q => q
  | r, q => seq r q

/-- `alt`, without the alternatives that match nothing. -/
def mkAlt : Regex α → Regex α → Regex α
  | void, q => q
  | r, void => r
  | r, q => alt r q

/-- What is left of an expression after one letter. -/
def deriv (a : α) : Regex α → Regex α
  | void => void
  | empty => void
  | cls p => if p a then empty else void
  | seq r q =>
      if r.nullable then mkAlt (mkSeq (r.deriv a) q) (q.deriv a) else mkSeq (r.deriv a) q
  | alt r q => mkAlt (r.deriv a) (q.deriv a)
  | star r => mkSeq (r.deriv a) (star r)

theorem nullable_iff (r : Regex α) : r.nullable = true ↔ [] ∈ r.lang := by
  induction r with
  | void | empty => simp [nullable, lang]
  | cls p => simp [nullable, mem_lang_cls]
  | seq r q ihr ihq => simp [nullable, ihr, ihq, mem_lang_seq]
  | alt r q ihr ihq => simp [nullable, ihr, ihq, mem_lang_alt]
  | star r ih => simp [nullable, lang, Language.nil_mem_kstar]

theorem lang_mkSeq (r q : Regex α) : (mkSeq r q).lang = r.lang * q.lang := by
  cases r <;> simp [mkSeq, lang]

theorem mem_lang_mkAlt {r q : Regex α} {t : List α} :
    t ∈ (mkAlt r q).lang ↔ t ∈ r.lang ∨ t ∈ q.lang := by
  have hvoid : t ∉ (void : Regex α).lang := Language.notMem_zero t
  cases r <;> cases q <;> simp [mkAlt, hvoid, mem_lang_alt]

theorem cons_mem_mul {l m : Language α} {a : α} {t : List α} : a :: t ∈ l * m ↔
    (∃ u v, a :: u ∈ l ∧ v ∈ m ∧ u ++ v = t) ∨ ([] ∈ l ∧ a :: t ∈ m) := by
  constructor
  · intro h
    obtain ⟨w, hw, v, hv, heq⟩ := Language.mem_mul.mp h
    cases w with
    | nil => exact Or.inr ⟨hw, heq ▸ hv⟩
    | cons b u =>
        obtain ⟨rfl, rfl⟩ := List.cons.inj heq
        exact Or.inl ⟨u, v, hw, hv, rfl⟩
  · rintro (⟨u, v, hu, hv, rfl⟩ | ⟨hnil, ht⟩)
    · exact Language.append_mem_mul hu hv
    · exact Language.append_mem_mul hnil ht

theorem cons_mem_kstar {l : Language α} {a : α} {t : List α} : a :: t ∈ l∗ ↔
    ∃ u v, a :: u ∈ l ∧ v ∈ l∗ ∧ u ++ v = t := by
  constructor
  · intro h
    obtain ⟨L, heq, hL⟩ := Language.mem_kstar_iff_exists_nonempty.mp h
    match L, heq, hL with
    | w :: L, heq, hL =>
        obtain ⟨hw, hne⟩ := hL w (by simp)
        obtain ⟨b, u, rfl⟩ := List.exists_cons_of_ne_nil hne
        obtain ⟨rfl, rfl⟩ := List.cons.inj heq
        refine ⟨u, L.flatten, hw, ?_, rfl⟩
        exact Language.join_mem_kstar fun w hw => (hL w (List.mem_cons_of_mem _ hw)).1
  · rintro ⟨u, v, hu, hv, rfl⟩
    obtain ⟨L, rfl, hL⟩ := Language.mem_kstar.mp hv
    apply Language.mem_kstar.mpr
    exact ⟨(a :: u) :: L, rfl, List.forall_mem_cons.mpr ⟨hu, hL⟩⟩

/-- The derivative has exactly the words that follow the letter. -/
theorem mem_lang_deriv (r : Regex α) (a : α) (t : List α) :
    t ∈ (r.deriv a).lang ↔ a :: t ∈ r.lang := by
  induction r generalizing t with
  | void => simp [deriv, lang]
  | empty => simp [deriv, lang, Language.mem_one]
  | cls p =>
      unfold deriv
      split
      next h => exact ⟨fun ht => ⟨a, h, by rw [(Language.mem_one t).mp ht]⟩, fun ⟨_, _, ht⟩ =>
          (Language.mem_one t).mpr (List.cons.inj ht).2⟩
      next h => exact ⟨fun ht => absurd ht (Language.notMem_zero t), fun ⟨_, hb, ht⟩ =>
          absurd ((List.cons.inj ht).1 ▸ hb) h⟩
  | seq r q ihr ihq =>
      have hfirst : t ∈ (mkSeq (r.deriv a) q).lang ↔
          ∃ u v, a :: u ∈ r.lang ∧ v ∈ q.lang ∧ u ++ v = t := by
        rw [lang_mkSeq, Language.mem_mul]
        constructor
        · rintro ⟨u, hu, v, hv, rfl⟩
          exact ⟨u, v, (ihr u).mp hu, hv, rfl⟩
        · rintro ⟨u, v, hu, hv, rfl⟩
          exact ⟨u, (ihr u).mpr hu, v, hv, rfl⟩
      unfold deriv
      rw [show (r.seq q).lang = r.lang * q.lang from rfl, cons_mem_mul]
      split
      next h =>
          rw [mem_lang_mkAlt, hfirst, ihq]
          simp [(nullable_iff r).mp h]
      next h =>
          have hnil : [] ∉ r.lang := fun hnil => h ((nullable_iff r).mpr hnil)
          simp only [hfirst, hnil, false_and, or_false]
  | alt r q ihr ihq => rw [deriv, mem_lang_mkAlt, ihr, ihq, mem_lang_alt]
  | star r ih =>
      rw [deriv, lang_mkSeq, show (r.star).lang = r.lang∗ from rfl, cons_mem_kstar,
        Language.mem_mul]
      constructor
      · rintro ⟨u, hu, v, hv, rfl⟩
        exact ⟨u, v, (ih u).mp hu, hv, rfl⟩
      · rintro ⟨u, v, hu, hv, rfl⟩
        exact ⟨u, (ih u).mpr hu, v, hv, rfl⟩

/-- The length of the longest prefix of a text that the expression matches. -/
def longest : Regex α → List α → Option Nat
  | void, _ => none
  | r, [] => if r.nullable then some 0 else none
  | r, a :: t =>
      match (r.deriv a).longest t with
      | some n => some (n + 1)
      | none => if r.nullable then some 0 else none

theorem longest_nil (r : Regex α) : r.longest [] = if r.nullable then some 0 else none := by
  cases r <;> rfl

theorem longest_cons (r : Regex α) (a : α) (t : List α) : r.longest (a :: t) =
    match (r.deriv a).longest t with
    | some n => some (n + 1)
    | none => if r.nullable then some 0 else none := by
  cases r with
  | void => cases t <;> rfl
  | _ => rfl

theorem longest_spec (r : Regex α) (t : List α) :
    (∀ n, r.longest t = some n → n ≤ t.length ∧ t.take n ∈ r.lang) ∧
      ∀ u, u <+: t → u ∈ r.lang → ∃ n, r.longest t = some n ∧ u.length ≤ n := by
  induction t generalizing r with
  | nil =>
      rw [longest_nil]
      constructor
      · intro n h
        split at h
        next hnull =>
            obtain rfl := Option.some.inj h
            exact ⟨Nat.le_refl 0, (nullable_iff r).mp hnull⟩
        next => cases h
      · intro u hu hmem
        obtain rfl := List.prefix_nil.mp hu
        exact ⟨0, if_pos ((nullable_iff r).mpr hmem), Nat.le_refl 0⟩
  | cons a t ih =>
      obtain ⟨hsound, hmax⟩ := ih (r.deriv a)
      rw [longest_cons]
      constructor
      · intro n h
        split at h
        next m hm =>
            obtain rfl := Option.some.inj h
            obtain ⟨hle, hmem⟩ := hsound m hm
            exact ⟨Nat.succ_le_succ hle, (mem_lang_deriv r a _).mp hmem⟩
        next =>
            split at h
            next hnull =>
                obtain rfl := Option.some.inj h
                exact ⟨Nat.zero_le _, (nullable_iff r).mp hnull⟩
            next => cases h
      · intro u hu hmem
        cases u with
        | nil =>
            have hnull := (nullable_iff r).mpr hmem
            cases (r.deriv a).longest t with
            | some n => exact ⟨n + 1, rfl, Nat.zero_le _⟩
            | none => exact ⟨0, if_pos hnull, Nat.le_refl 0⟩
        | cons b u =>
            obtain ⟨rfl, hstarts⟩ := List.cons_prefix_cons.mp hu
            obtain ⟨n, hn, hle⟩ := hmax u hstarts ((mem_lang_deriv r b u).mpr hmem)
            exact ⟨n + 1, by rw [hn], Nat.succ_le_succ hle⟩

variable {r : Regex α} {t u v : List α} {n : Nat}

theorem longest_le_length (h : r.longest t = some n) : n ≤ t.length :=
  ((longest_spec r t).1 n h).1

/-- The longest match is in the language. -/
theorem mem_of_longest (h : r.longest t = some n) : t.take n ∈ r.lang :=
  ((longest_spec r t).1 n h).2

end Regex

end EDDTs.Library
