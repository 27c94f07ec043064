import EDDTs.Library.Regex
import EDDTs.Library.Text

/-!
# Scanners with flex semantics

At each point the rule with the longest match is taken, the earliest one among
several; a rule may be limited to start conditions and to the beginning of a
line, and the newline that a rule requires behind its text counts for the
length of the match but stays in the input. Text that no rule matches is given
to the default rule, one character at a time.
-/

namespace EDDTs.Library

section Pick

variable {τ : Type*}

/-- The first of the items with the largest length. -/
def pickLongest (len : τ → Option Nat) : List τ → Option (τ × Nat)
  | [] => none
  | q :: qs =>
      match len q, pickLongest len qs with
      | none, p => p
      | some n, none => some (q, n)
      | some n, some (q', m) => if n < m then some (q', m) else some (q, n)

variable {len : τ → Option Nat} {qs : List τ} {q : τ} {n : Nat}

theorem pickLongest_mem (h : pickLongest len qs = some (q, n)) : q ∈ qs ∧ len q = some n := by
  induction qs with
  | nil => cases h
  | cons a qs ih =>
      unfold pickLongest at h
      split at h
      next =>
          obtain ⟨hq, hn⟩ := ih h
          exact ⟨List.mem_cons_of_mem a hq, hn⟩
      next ha _ =>
          obtain ⟨rfl, rfl⟩ := Prod.mk.inj (Option.some.inj h)
          exact ⟨by simp, ha⟩
      next ha hrest =>
          split at h
          next =>
              obtain ⟨hq, hn⟩ := ih (hrest.trans h)
              exact ⟨List.mem_cons_of_mem a hq, hn⟩
          next =>
              obtain ⟨rfl, rfl⟩ := Prod.mk.inj (Option.some.inj h)
              exact ⟨by simp, ha⟩

theorem pickLongest_ge (hq : q ∈ qs) (hn : len q = some n) :
    ∃ q' m, pickLongest len qs = some (q', m) ∧ n ≤ m := by
  induction qs with
  | nil => cases hq
  | cons a qs ih =>
      rcases List.mem_cons.mp hq with rfl | hq
      · simp only [pickLongest, hn]
        cases pickLongest len qs with
        | none => exact ⟨q, n, rfl, Nat.le_refl n⟩
        | some p =>
            by_cases hlt : n < p.2
            · exact ⟨p.1, p.2, if_pos hlt, Nat.le_of_lt hlt⟩
            · exact ⟨q, n, if_neg hlt, Nat.le_refl n⟩
      · obtain ⟨q', m, hpick, hle⟩ := ih hq
        simp only [pickLongest, hpick]
        cases len a with
        | none => exact ⟨q', m, rfl, hle⟩
        | some k =>
            by_cases hlt : k < m
            · exact ⟨q', m, if_pos hlt, hle⟩
            · exact ⟨a, k, if_neg hlt, by omega⟩

/-- An item wins when the others are shorter, or as long and later. -/
theorem pickLongest_eq [DecidableEq τ] (hq : q ∈ qs) (hn : len q = some n)
    (hwins : ∀ q' ∈ qs, ∀ m, len q' = some m →
      m < n ∨ m = n ∧ qs.idxOf q ≤ qs.idxOf q') :
    pickLongest len qs = some (q, n) := by
  induction qs with
  | nil => cases hq
  | cons a qs ih =>
      by_cases ha : a = q
      · subst ha
        simp only [pickLongest, hn]
        cases hpick : pickLongest len qs with
        | none => rfl
        | some p =>
            obtain ⟨hp, hlen⟩ := pickLongest_mem hpick
            have hle := hwins p.1 (List.mem_cons_of_mem a hp) p.2 hlen
            exact if_neg (by omega)
      · have hmem : q ∈ qs := List.mem_of_ne_of_mem (Ne.symm ha) hq
        have hlater : ∀ m, len a = some m → m < n := by
          intro m hm
          have := hwins a (by simp) m hm
          simp only [List.idxOf_cons_self, List.idxOf_cons_ne qs ha] at this
          omega
        have hpick : pickLongest len qs = some (q, n) := by
          apply ih hmem
          intro q' hq' m hm
          by_cases haq : a = q'
          · exact Or.inl (hlater m (haq ▸ hm))
          · have := hwins q' (List.mem_cons_of_mem a hq') m hm
            simp only [List.idxOf_cons_ne qs haq, List.idxOf_cons_ne qs ha] at this
            omega
        simp only [pickLongest, hpick]
        cases hm : len a with
        | none => rfl
        | some m => exact if_pos (hlater m hm)

end Pick

/-- The pattern of a rule: the start conditions it is limited to (none of them:
no limit), `^`, the expression, and `$`. -/
structure FlexRule (σ : Type*) where
  conds : List σ
  bol : Bool
  regex : Regex Char
  eol : Bool

namespace FlexRule

variable {σ : Type*} [DecidableEq σ]

/-- The rule is in force under the start condition, here in the line. -/
def Active (r : FlexRule σ) (cond : σ) (bol : Bool) : Prop :=
  (r.conds = [] ∨ cond ∈ r.conds) ∧ (r.bol = true → bol = true)

instance (r : FlexRule σ) (cond : σ) (bol : Bool) : Decidable (r.Active cond bol) :=
  inferInstanceAs (Decidable ((r.conds = [] ∨ cond ∈ r.conds) ∧ (r.bol = true → bol = true)))

/-- The expression with the newline that `$` requires. -/
def pattern (r : FlexRule σ) : Regex Char :=
  if r.eol then r.regex.seq (.cls fun c => decide (c = '\n')) else r.regex

/-- The length that competes with those of the other rules. -/
def matchLength (r : FlexRule σ) (cond : σ) (bol : Bool) (t : Text) : Option Nat :=
  if r.Active cond bol then r.pattern.longest t else none

/-- The part of a match that stays in the input. -/
def trail (r : FlexRule σ) : Nat := if r.eol then 1 else 0

/-- The rule can take a text in front of another. -/
structure Takes (r : FlexRule σ) (cond : σ) (bol : Bool) (u v : Text) : Prop where
  active : r.Active cond bol
  mem : u ∈ r.regex.lang
  follow : r.eol = true → v.head? = some '\n'

variable {r : FlexRule σ} {cond : σ} {bol : Bool} {t u v : Text} {n : Nat}

omit [DecidableEq σ] in
theorem mem_pattern_eol (h : r.eol = true) :
    u ∈ r.pattern.lang ↔ ∃ l ∈ r.regex.lang, l ++ ['\n'] = u := by
  rw [pattern, if_pos h, Regex.mem_lang_seq]
  constructor
  · rintro ⟨l, hl, _, ⟨c, hc, rfl⟩, rfl⟩
    exact ⟨l, hl, by rw [of_decide_eq_true hc]⟩
  · rintro ⟨l, hl, rfl⟩
    exact ⟨l, hl, ['\n'], ⟨'\n', by simp, rfl⟩, rfl⟩

/-- A match is a text that the rule can take. -/
theorem takes_of_matchLength (h : r.matchLength cond bol t = some n) :
    ∃ u v, u ++ v = t ∧ r.Takes cond bol u v ∧ n = u.length + r.trail := by
  unfold matchLength at h
  split at h
  next hactive =>
      have hmem := Regex.mem_of_longest h
      have hlength : (t.take n).length = n := by
        rw [List.length_take, Nat.min_eq_left (Regex.longest_le_length h)]
      by_cases heol : r.eol = true
      · obtain ⟨l, hl, htake⟩ := (mem_pattern_eol heol).mp hmem
        refine ⟨l, '\n' :: t.drop n, ?_, ⟨hactive, hl, fun _ => rfl⟩, ?_⟩
        · rw [← List.singleton_append, ← List.append_assoc, htake, List.take_append_drop]
        · rw [← hlength, ← htake, trail, if_pos heol]
          simp
      · rw [pattern, if_neg heol] at hmem
        refine ⟨t.take n, t.drop n, List.take_append_drop n t,
          ⟨hactive, hmem, fun h => absurd h heol⟩, ?_⟩
        rw [hlength, trail, if_neg heol, Nat.add_zero]
  next => cases h

/-- What a rule can take is not longer than its match. -/
theorem Takes.le_matchLength (h : r.Takes cond bol u v) :
    ∃ n, r.matchLength cond bol (u ++ v) = some n ∧ u.length + r.trail ≤ n := by
  rw [matchLength, if_pos h.active]
  by_cases heol : r.eol = true
  · obtain ⟨v', rfl⟩ : ∃ v', v = '\n' :: v' := by
      cases v with
      | nil => cases h.follow heol
      | cons c v' => exact ⟨v', by rw [Option.some.inj (h.follow heol)]⟩
    have hmem : u ++ ['\n'] ∈ r.pattern.lang := (mem_pattern_eol heol).mpr ⟨u, h.mem, rfl⟩
    obtain ⟨n, hn, hle⟩ := (Regex.longest_spec r.pattern (u ++ '\n' :: v')).2 _
      ⟨v', by simp⟩ hmem
    refine ⟨n, hn, ?_⟩
    simpa [trail, heol] using hle
  · have hmem : u ∈ r.pattern.lang := by rw [pattern, if_neg heol]; exact h.mem
    obtain ⟨n, hn, hle⟩ := (Regex.longest_spec r.pattern (u ++ v)).2 u
      (List.prefix_append u v) hmem
    refine ⟨n, hn, ?_⟩
    simpa [trail, heol] using hle

end FlexRule

/-- A scanner: the rules in their order, and what an action makes of the state;
the action of the default rule is the one without a rule. -/
structure Flex (σ τ S : Type*) where
  rule : τ → FlexRule σ
  order : List τ
  cond : S → σ
  act : S → Option τ → Text → S

namespace Flex

variable {σ τ S : Type*} [DecidableEq σ] (M : Flex σ τ S)

/-- The length of a rule's match. -/
def len (s : S) (bol : Bool) (t : Text) (q : τ) : Option Nat :=
  (M.rule q).matchLength (M.cond s) bol t

/-- The rule that is taken, its text, and the rest of the input. -/
def lexeme (s : S) (bol : Bool) (t : Text) : Option τ × Text × Text :=
  match pickLongest (M.len s bol t) M.order with
  | some (q, n) => (some q, t.take (n - (M.rule q).trail), t.drop (n - (M.rule q).trail))
  | none => (none, t.take 1, t.drop 1)

/-- Whether the input goes on at the beginning of a line. -/
def atBol (bol : Bool) (u : Text) : Bool :=
  match u.getLast? with
  | some c => c = '\n'
  | none => bol

/-- At most so many actions, up to the end of the input. -/
def run : Nat → S → Bool → Text → Option S
  | _, s, _, [] => some s
  | 0, _, _, _ :: _ => none
  | fuel + 1, s, bol, c :: t =>
      let l := M.lexeme s bol (c :: t)
      run fuel (M.act s l.1 l.2.1) (atBol bol l.2.1) l.2.2

/-- The state at the end of the input. -/
def scan (s : S) (bol : Bool) (t : Text) : Option S := M.run t.length s bol t

/-- Every action takes some text. -/
def Progress : Prop := ∀ s bol c t, (M.lexeme s bol (c :: t)).2.1 ≠ []

variable {M}

theorem lexeme_append (s : S) (bol : Bool) (t : Text) :
    (M.lexeme s bol t).2.1 ++ (M.lexeme s bol t).2.2 = t := by
  unfold lexeme
  split <;> exact List.take_append_drop _ t

/-- The text that a rule has taken: the rule can take it, and no rule can take a
longer one. -/
theorem lexeme_some {s : S} {bol : Bool} {t u v : Text} {q : τ}
    (h : M.lexeme s bol t = (some q, u, v)) :
    u ++ v = t ∧ (M.rule q).Takes (M.cond s) bol u v ∧
      ∀ q' ∈ M.order, ∀ u' v', u' ++ v' = t → (M.rule q').Takes (M.cond s) bol u' v' →
        u'.length + (M.rule q').trail ≤ u.length + (M.rule q).trail := by
  unfold lexeme at h
  split at h
  next p n hpick =>
      obtain ⟨hmem, hlen⟩ := pickLongest_mem hpick
      obtain ⟨u₀, v₀, rfl, htakes, rfl⟩ := FlexRule.takes_of_matchLength hlen
      simp only [Nat.add_sub_cancel, List.take_left', List.drop_left', Prod.mk.injEq,
        Option.some.injEq] at h
      obtain ⟨rfl, rfl, rfl⟩ := h
      refine ⟨rfl, htakes, ?_⟩
      intro q' hq' u' v' happend htakes'
      obtain ⟨m, hm, hle⟩ := htakes'.le_matchLength
      replace hm : M.len s bol (u₀ ++ v₀) q' = some m := happend ▸ hm
      obtain ⟨q'', k, hpick', hmk⟩ := pickLongest_ge hq' hm
      obtain ⟨-, rfl⟩ := Prod.mk.inj (Option.some.inj (hpick.symm.trans hpick'))
      exact Nat.le_trans hle hmk
  next => cases h

/-- A rule takes its text when every other text that a rule can take is shorter,
or as long and of a later rule. -/
theorem lexeme_eq [DecidableEq τ] {s : S} {bol : Bool} {u v : Text} {q : τ} (hq : q ∈ M.order)
    (htakes : (M.rule q).Takes (M.cond s) bol u v)
    (hwins : ∀ q' ∈ M.order, ∀ u' v', u' ++ v' = u ++ v →
      (M.rule q').Takes (M.cond s) bol u' v' →
      u'.length + (M.rule q').trail < u.length + (M.rule q).trail ∨
        u'.length + (M.rule q').trail = u.length + (M.rule q).trail ∧
          M.order.idxOf q ≤ M.order.idxOf q') :
    M.lexeme s bol (u ++ v) = (some q, u, v) := by
  have hlen : M.len s bol (u ++ v) q = some (u.length + (M.rule q).trail) := by
    obtain ⟨n, hn, hle⟩ := htakes.le_matchLength
    obtain ⟨u', v', happend, htakes', rfl⟩ := FlexRule.takes_of_matchLength hn
    have := hwins q hq u' v' happend htakes'
    rw [len, hn]
    congr 1
    omega
  have hpick : pickLongest (M.len s bol (u ++ v)) M.order =
      some (q, u.length + (M.rule q).trail) := by
    apply pickLongest_eq hq hlen
    intro q' hq' m hm
    obtain ⟨u', v', happend, htakes', rfl⟩ := FlexRule.takes_of_matchLength hm
    exact hwins q' hq' u' v' happend htakes'
  simp [lexeme, hpick]

/-- A scanner makes progress if at every character some rule can take a text,
and no rule takes an empty text in front of a newline. -/
theorem progress_of_cover
    (hcover : ∀ s bol c t, ∃ q ∈ M.order, ∃ u v, u ++ v = c :: t ∧ u ≠ [] ∧
      (M.rule q).Takes (M.cond s) bol u v)
    (heol : ∀ q, (M.rule q).eol = true → [] ∉ (M.rule q).regex.lang) : M.Progress := by
  intro s bol c t
  obtain ⟨q, hq, u, v, happend, hne, htakes⟩ := hcover s bol c t
  obtain ⟨n, hn, hle⟩ := htakes.le_matchLength
  replace hn : M.len s bol (c :: t) q = some n := happend ▸ hn
  obtain ⟨q', m, hpick, hmk⟩ := pickLongest_ge hq hn
  obtain ⟨u', v', hl⟩ : ∃ u' v', M.lexeme s bol (c :: t) = (some q', u', v') := by
    rw [lexeme, hpick]
    exact ⟨_, _, rfl⟩
  obtain ⟨-, htakes', hmax⟩ := lexeme_some hl
  rw [hl]
  rintro (rfl : u' = [])
  by_cases he : (M.rule q').eol = true
  · exact heol q' he htakes'.mem
  · have hlong := hmax q hq u v happend htakes
    rw [FlexRule.trail, FlexRule.trail, if_neg he] at hlong
    have hpos := List.length_pos_iff.mpr hne
    simp only [List.length_nil] at hlong
    omega

section Runs

variable (hprog : M.Progress)

include hprog

theorem rest_lt (s : S) (bol : Bool) (c : Char) (t : Text) :
    (M.lexeme s bol (c :: t)).2.2.length < (c :: t).length := by
  have happend := congrArg List.length (lexeme_append (M := M) s bol (c :: t))
  have hpos := List.length_pos_iff.mpr (hprog s bol c t)
  rw [List.length_append] at happend
  omega

/-- More steps than characters make no difference. -/
theorem run_eq_run {n m : Nat} {t : Text} (hn : t.length ≤ n) (hm : t.length ≤ m) (s : S)
    (bol : Bool) : M.run n s bol t = M.run m s bol t := by
  induction n generalizing m s bol t with
  | zero =>
      obtain rfl := List.length_eq_zero_iff.mp (Nat.le_zero.mp hn)
      cases m <;> rfl
  | succ n ih =>
      match t, m, hn, hm with
      | [], 0, _, _ => rfl
      | [], _ + 1, _, _ => rfl
      | c :: t, m + 1, hn, hm =>
          have hrest := rest_lt hprog s bol c t
          have hlen : (c :: t).length = t.length + 1 := rfl
          exact ih (by omega) (by omega) _ _

/-- The scan takes one text and goes on with the rest. -/
theorem scan_eq {s : S} {bol : Bool} {q : Option τ} {c : Char} {t u v : Text}
    (h : M.lexeme s bol (c :: t) = (q, u, v)) :
    M.scan s bol (c :: t) = M.scan (M.act s q u) (atBol bol u) v := by
  have hrest := rest_lt hprog s bol c t
  rw [h] at hrest
  rw [scan, List.length_cons, run, h]
  exact run_eq_run hprog (Nat.le_of_lt_succ hrest) (Nat.le_refl _) _ _

/-- What every action keeps holds at the end of the input, which is reached. -/
theorem scan_invariant (Inv : S → Bool → Text → Prop)
    (hstep : ∀ s bol c t q u v, Inv s bol (c :: t) → M.lexeme s bol (c :: t) = (q, u, v) →
      Inv (M.act s q u) (atBol bol u) v)
    {s : S} {bol : Bool} {t : Text} (h : Inv s bol t) :
    ∃ s' bol', M.scan s bol t = some s' ∧ Inv s' bol' [] := by
  induction hn : t.length using Nat.strong_induction_on generalizing s bol t with
  | h n ih =>
      cases t with
      | nil => exact ⟨s, bol, rfl, h⟩
      | cons c t =>
          have hrest := rest_lt hprog s bol c t
          obtain ⟨q, u, v, hl⟩ : ∃ q u v, M.lexeme s bol (c :: t) = (q, u, v) :=
            ⟨_, _, _, rfl⟩
          rw [hl, hn] at hrest
          rw [scan_eq hprog hl]
          exact ih v.length hrest (hstep s bol c t q u v h hl) rfl

end Runs

end Flex

end EDDTs.Library
