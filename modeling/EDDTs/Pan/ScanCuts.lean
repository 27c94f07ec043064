import EDDTs.Pan.ScanTokens

/-!
# The result lines of a cuts test

In the output of a cuts test the lexer takes the front of a line up to a colon, if it is a
result, and every other character for itself.
-/

namespace EDDTs.Pan

open Library Scan

/-! ### The rules for results -/

/-- `[a-zA-Z0-9_-]` -/
def isWordChar (c : Char) : Bool := c.isAlphanum || c = '_' || c = '-'

/-- `[ \t]` -/
def isBlank (c : Char) : Bool := c = ' ' || c = '\t'

/-- A text that is not empty and of one kind of characters. -/
def IsRun (p : Char → Bool) (t : Text) : Prop := t ≠ [] ∧ ∀ c ∈ t, p c = true

/-- The number of a test case, or the first and the last of several. -/
inductive IsCase : Text → Prop
  | one {d : Text} (hd : IsRun Char.isDigit d) : IsCase d
  | range {d d' : Text} (hd : IsRun Char.isDigit d) (hd' : IsRun Char.isDigit d') :
      IsCase (d ++ '-' :: d')

/-- What the two rules for results match, with its parts. -/
inductive CutsText (tcid tc type : Text) : Text → Prop
  | mk {b₁ b₂ b₃ : Text} (htcid : IsRun isWordChar tcid) (hb₁ : IsRun isBlank b₁) (htc : IsCase tc)
      (hb₂ : IsRun isBlank b₂) (htype : IsRun Char.isAlpha type) (hb₃ : IsRun isBlank b₃) :
      CutsText tcid tc type (tcid ++ (b₁ ++ (tc ++ (b₂ ++ (type ++ (b₃ ++ [':']))))))

section Rules

variable {tcid tc type u : Text}

theorem mem_lang_cutsResult (h : u ∈ (rule .cutsResult).regex.lang) :
    ∃ tcid tc type, CutsText tcid tc type u := by
  obtain ⟨tcid, htcid, _, ⟨b₁, hb₁, _, ⟨tc, htc, _, ⟨b₂, hb₂, _, ⟨type, htype, _,
    ⟨b₃, hb₃, _, hcolon, rfl⟩, rfl⟩, rfl⟩, rfl⟩, rfl⟩, rfl⟩ := h
  obtain rfl := mem_lang_one.mp hcolon
  exact ⟨tcid, tc, type, .mk (Regex.mem_lang_plus_cls.mp htcid) (Regex.mem_lang_plus_cls.mp hb₁)
    (.one (Regex.mem_lang_plus_cls.mp htc)) (Regex.mem_lang_plus_cls.mp hb₂)
    (Regex.mem_lang_plus_cls.mp htype) (Regex.mem_lang_plus_cls.mp hb₃)⟩

theorem mem_lang_cutsResultR (h : u ∈ (rule .cutsResultR).regex.lang) :
    ∃ tcid tc type, CutsText tcid tc type u := by
  obtain ⟨tcid, htcid, _, ⟨b₁, hb₁, _, ⟨d, hd, _, ⟨_, hdash, _, ⟨d', hd', _, ⟨b₂, hb₂, _,
    ⟨type, htype, _, ⟨b₃, hb₃, _, hcolon, rfl⟩, rfl⟩, rfl⟩, rfl⟩, rfl⟩, rfl⟩, rfl⟩, rfl⟩ := h
  obtain rfl := mem_lang_one.mp hdash
  obtain rfl := mem_lang_one.mp hcolon
  refine ⟨tcid, d ++ '-' :: d', type, ?_⟩
  have hcase : IsCase (d ++ '-' :: d') :=
    .range (Regex.mem_lang_plus_cls.mp hd) (Regex.mem_lang_plus_cls.mp hd')
  have htext := CutsText.mk (Regex.mem_lang_plus_cls.mp htcid) (Regex.mem_lang_plus_cls.mp hb₁)
    hcase (Regex.mem_lang_plus_cls.mp hb₂) (Regex.mem_lang_plus_cls.mp htype)
    (Regex.mem_lang_plus_cls.mp hb₃)
  simpa using htext

/-- A result is matched by one of the two rules. -/
theorem CutsText.mem_lang (h : CutsText tcid tc type u) :
    u ∈ (rule .cutsResult).regex.lang ∨ u ∈ (rule .cutsResultR).regex.lang := by
  cases h with
  | @mk b₁ b₂ b₃ htcid hb₁ htc hb₂ htype hb₃ =>
      have hend : b₂ ++ (type ++ (b₃ ++ [':'])) ∈ (S.seq (A.seq (S.seq (one ':')))).lang :=
        ⟨b₂, Regex.mem_lang_plus_cls.mpr hb₂, _, ⟨type, Regex.mem_lang_plus_cls.mpr htype, _,
          ⟨b₃, Regex.mem_lang_plus_cls.mpr hb₃, _, mem_lang_one.mpr rfl, rfl⟩, rfl⟩, rfl⟩
      have hfront : ∀ {r : Regex Char} {t : Text}, t ∈ r.lang →
          tcid ++ (b₁ ++ t) ∈ (W.seq (S.seq r)).lang := fun ht =>
        ⟨tcid, Regex.mem_lang_plus_cls.mpr htcid, _,
          ⟨b₁, Regex.mem_lang_plus_cls.mpr hb₁, _, ht, rfl⟩, rfl⟩
      cases htc with
      | one hd =>
          refine Or.inl (hfront (r := UI.seq (S.seq (A.seq (S.seq (one ':'))))) ?_)
          exact ⟨tc, Regex.mem_lang_plus_cls.mpr hd, _, hend, rfl⟩
      | @range d d' hd hd' =>
          refine Or.inr (hfront
            (r := UI.seq ((one '-').seq (UI.seq (S.seq (A.seq (S.seq (one ':'))))))) ?_)
          refine ⟨d, Regex.mem_lang_plus_cls.mpr hd, '-' :: (d' ++ (b₂ ++ (type ++ (b₃ ++ [':'])))),
            ⟨['-'], mem_lang_one.mpr rfl, _, ⟨d', Regex.mem_lang_plus_cls.mpr hd', _, hend, rfl⟩,
              rfl⟩, ?_⟩
          simp

/-- The characters before the colon of a result. -/
def isCutsChar (c : Char) : Bool := isWordChar c || isBlank c

theorem IsRun.mono {p q : Char → Bool} {t : Text} (h : IsRun p t)
    (hpq : ∀ c, p c = true → q c = true) : ∀ c ∈ t, q c = true :=
  fun c hc => hpq c (h.2 c hc)

theorem isWordChar_of_isDigit {c : Char} (h : c.isDigit = true) : isWordChar c = true := by
  simp [isWordChar, Char.isAlphanum, h]

theorem isWordChar_of_isAlpha {c : Char} (h : c.isAlpha = true) : isWordChar c = true := by
  simp [isWordChar, Char.isAlphanum, h]

theorem IsCase.isWordChar (h : IsCase tc) : ∀ c ∈ tc, isWordChar c = true := by
  cases h with
  | one hd => exact hd.mono fun _ => isWordChar_of_isDigit
  | range hd hd' =>
      intro c hc
      rcases List.mem_append.mp hc with hc | hc
      · exact isWordChar_of_isDigit (hd.2 c hc)
      · rcases List.mem_cons.mp hc with rfl | hc
        · decide
        · exact isWordChar_of_isDigit (hd'.2 c hc)

variable (h : CutsText tcid tc type u)

include h

/-- A result ends at its first colon. -/
theorem CutsText.eq_append : ∃ x, u = x ++ [':'] ∧ ∀ c ∈ x, isCutsChar c = true := by
  cases h with
  | @mk b₁ b₂ b₃ htcid hb₁ htc hb₂ htype hb₃ =>
      refine ⟨tcid ++ (b₁ ++ (tc ++ (b₂ ++ (type ++ b₃)))), by simp, ?_⟩
      have hblank : ∀ {b : Text}, IsRun isBlank b → ∀ c ∈ b, isCutsChar c = true :=
        fun hb => hb.mono fun c hc => by simp [isCutsChar, hc]
      have hword : ∀ {w : Text}, (∀ c ∈ w, isWordChar c = true) → ∀ c ∈ w, isCutsChar c = true :=
        fun hw c hc => by simp [isCutsChar, hw c hc]
      simp only [List.forall_mem_append]
      exact ⟨hword htcid.2, hblank hb₁, hword htc.isWordChar, hblank hb₂,
        hword (htype.mono fun _ => isWordChar_of_isAlpha), hblank hb₃⟩

theorem CutsText.not_mem {c : Char} (hc : isCutsChar c = false) (hcolon : c ≠ ':') : c ∉ u := by
  obtain ⟨x, rfl, hx⟩ := h.eq_append
  intro hmem
  rcases List.mem_append.mp hmem with hmem | hmem
  · rw [hx c hmem] at hc
    cases hc
  · exact hcolon (List.mem_singleton.mp hmem)

theorem CutsText.isRun_tcid : IsRun isWordChar tcid := by
  cases h with
  | mk htcid _ _ _ _ _ => exact htcid

theorem CutsText.isCase_tc : IsCase tc := by
  cases h with
  | mk _ _ htc _ _ _ => exact htc

/-- A text has one result in front at most. -/
theorem CutsText.unique {tcid' tc' type' u' v v' : Text} (h' : CutsText tcid' tc' type' u')
    (happend : u' ++ v' = u ++ v) : u' = u := by
  obtain ⟨x, rfl, hx⟩ := h.eq_append
  obtain ⟨x', rfl, hx'⟩ := h'.eq_append
  have hcolon : ∀ {y : Text}, (∀ c ∈ y, isCutsChar c = true) → ':' ∉ y := fun hy hmem => by
    cases hy _ hmem
  simp only [List.append_assoc, List.singleton_append] at happend
  rw [(cut_unique (hcolon hx') (hcolon hx) happend).1]

/-- A result starts with a character of its tcid. -/
theorem CutsText.eq_cons : ∃ c t, u = c :: t ∧ t ≠ [] ∧ isWordChar c = true := by
  cases h with
  | mk htcid hb₁ _ _ _ _ =>
      obtain ⟨c, t, rfl⟩ := List.exists_cons_of_ne_nil htcid.1
      exact ⟨c, _, rfl, by simp [hb₁.1], htcid.2 c (by simp)⟩

end Rules

/-! ### A line -/

section Lines

variable {mode : ReporterMode} {extended : Bool} {s : Scanner} {bol : Bool} {q : Token}
  {tcid tc type u v : Text}

/-- What the rules can take in the output of a cuts test. -/
theorem cuts_rivals (h : (rule q).Takes .cuts bol u v) :
    (bol = true ∧ marker q = some u ∧ ∃ v', v = '\n' :: v') ∨
      (bol = true ∧ (q = .cutsResult ∨ q = .cutsResultR) ∧
        ∃ tcid tc type, CutsText tcid tc type u) ∨
      (q = .other ∧ ∃ c, c ≠ '\n' ∧ u = [c]) ∨ (q = .newline ∧ u = ['\n']) := by
  have hbol := h.active.2
  have hmem := h.mem
  cases front_of_takes h with
  | marker hq hbol => exact Or.inl ⟨hbol, hq, _, rfl⟩
  | cuts _ hq =>
      refine Or.inr (Or.inl ?_)
      rcases hq with rfl | rfl
      · exact ⟨hbol rfl, Or.inl rfl, mem_lang_cutsResult hmem⟩
      · exact ⟨hbol rfl, Or.inr rfl, mem_lang_cutsResultR hmem⟩
  | other hc => exact Or.inr (Or.inr (Or.inl ⟨rfl, _, hc, rfl⟩))
  | newline => exact Or.inr (Or.inr (Or.inr ⟨rfl, rfl⟩))
  | quoted hcond _ _ => cases hcond
  | keyword hcond _ _ => cases hcond
  | keySpace hcond _ => cases hcond
  | textLine hcond _ _ _ => cases hcond

variable (hcond : s.cond = .cuts)

include hcond

/-- The front of a line that is a result. -/
theorem scanFrom_cutsText (h : CutsText tcid tc type u) (v : Text) :
    scanFrom mode extended (some s) true (u ++ v) =
      scanFrom mode extended ((cutsTestcase s.yytextIs s.ctag u).map fun ctag =>
        { s with ctag }) false v := by
  have hnl : '\n' ∉ u := h.not_mem (by decide) (by decide)
  have hnul : cString u = u := cString_eq (h.not_mem (by decide) (by decide))
  obtain ⟨c, t, hu, ht, hc⟩ := h.eq_cons
  have hne : u ≠ [] := by simp [hu]
  have hlength : 2 ≤ u.length := by
    have := List.length_pos_iff.mpr ht
    simp only [hu, List.length_cons]
    omega
  obtain ⟨q, hq, hmem, hfirst⟩ : ∃ q, (q = .cutsResult ∨ q = .cutsResultR) ∧
      u ∈ (rule q).regex.lang ∧ (u ∈ (rule .cutsResult).regex.lang → q = .cutsResult) := by
    by_cases hone : u ∈ (rule .cutsResult).regex.lang
    · exact ⟨.cutsResult, Or.inl rfl, hone, fun _ => rfl⟩
    · exact ⟨.cutsResultR, Or.inr rfl, h.mem_lang.resolve_left hone, fun h => absurd h hone⟩
  have htrail : (rule q).trail = 0 := by rcases hq with rfl | rfl <;> rfl
  have htakes : (rule q).Takes .cuts true u v := by
    refine ⟨?_, hmem, ?_⟩ <;> rcases hq with rfl | rfl <;> simp [rule, FlexRule.Active]
  rw [scanFrom_takes hcond htakes hne, countLines_eq hnl, atBol_eq_false hne hnl]
  · rcases hq with rfl | rfl <;> simp only [Scanner.action, hnul]
  · intro q' u' v' happend htakes'
    rw [htrail]
    obtain ⟨-, hq', -⟩ | ⟨-, hq', tcid', tc', type', h'⟩ | ⟨rfl, d, -, rfl⟩ | ⟨rfl, rfl⟩ :=
      cuts_rivals htakes'
    · obtain ⟨⟨m', rfl⟩, -⟩ := marker_spec hq'
      rw [hu] at happend
      rw [← (List.cons.inj happend).1] at hc
      cases hc
    · obtain rfl := h.unique h' happend
      refine Or.inr ⟨by rcases hq' with rfl | rfl <;> rfl, ?_⟩
      rcases hq' with rfl | rfl
      · rw [hfirst htakes'.mem]
      · rcases hq with rfl | rfl <;> decide
    · exact Or.inl (by simp [rule, FlexRule.trail]; omega)
    · exact Or.inl (by simp [rule, FlexRule.trail]; omega)

/-- A character that is taken for itself. -/
theorem scanFrom_char {c : Char} (hc : c ≠ '\n')
    (hbol : bol = true → (∀ q u v', marker q = some u → c :: v ≠ u ++ '\n' :: v') ∧
      ∀ tcid tc type u v', CutsText tcid tc type u → c :: v ≠ u ++ v') :
    scanFrom mode extended (some s) bol (c :: v) =
      scanFrom mode extended (some s) false v := by
  have hnl : '\n' ∉ [c] := by simpa using Ne.symm hc
  rw [← List.singleton_append, scanFrom_takes hcond (takes_other hc) (by simp),
    countLines_eq hnl, atBol_eq_false (by simp) hnl]
  · rfl
  · intro q' u' v' happend htakes'
    obtain ⟨h, hq', w, rfl⟩ | ⟨h, -, tcid', tc', type', h'⟩ | ⟨rfl, d, -, rfl⟩ | ⟨rfl, rfl⟩ :=
      cuts_rivals htakes'
    · exact absurd happend.symm ((hbol h).1 q' u' w hq')
    · exact absurd happend.symm ((hbol h).2 tcid' tc' type' u' v' h')
    · exact Or.inr ⟨rfl, Nat.le_refl _⟩
    · exact absurd (List.cons.inj happend).1.symm hc

/-- The rest of a line. -/
theorem scanFrom_chars {r : Text} (hr : '\n' ∉ r) (v : Text) :
    scanFrom mode extended (some s) false (r ++ v) =
      scanFrom mode extended (some s) false v := by
  induction r with
  | nil => rfl
  | cons c r ih =>
      have hc := List.ne_of_not_mem_cons hr
      rw [List.cons_append, scanFrom_char hcond (Ne.symm hc) (by simp),
        ih (List.not_mem_of_not_mem_cons hr)]

theorem scanFrom_cutsNewline (v : Text) :
    scanFrom mode extended (some s) bol ('\n' :: v) =
      scanFrom mode extended (some (s.countLines ['\n'])) true v := by
  rw [← List.singleton_append, scanFrom_takes hcond takes_newline (by simp)]
  · rfl
  · intro q' u' v' happend htakes'
    obtain ⟨-, hq', w, rfl⟩ | ⟨-, -, tcid', tc', type', h'⟩ | ⟨rfl, d, hd, rfl⟩ | ⟨rfl, rfl⟩ :=
      cuts_rivals htakes'
    · obtain ⟨⟨m', rfl⟩, -⟩ := marker_spec hq'
      exact absurd (List.cons.inj happend).1 (by decide)
    · obtain ⟨c, t, rfl, -, hc⟩ := h'.eq_cons
      rw [(List.cons.inj happend).1] at hc
      cases hc
    · exact absurd (List.cons.inj happend).1 hd
    · exact Or.inr ⟨rfl, Nat.le_refl _⟩

/-- A line with a result. -/
theorem scanFrom_resultLine (h : CutsText tcid tc type u) {r : Text} (hr : '\n' ∉ r) (v : Text) :
    scanFrom mode extended (some s) true (u ++ (r ++ '\n' :: v)) =
      scanFrom mode extended ((cutsTestcase s.yytextIs s.ctag u).map fun ctag =>
        { s with ctag, yylineno := s.yylineno + 1 }) true v := by
  rw [scanFrom_cutsText hcond h]
  cases cutsTestcase s.yytextIs s.ctag u with
  | none => rw [Option.map_none, Option.map_none, scanFrom_none, scanFrom_none]
  | some ctag =>
      have hcond' : ({ s with ctag := ctag } : Scanner).cond = .cuts := hcond
      rw [Option.map_some, scanFrom_chars hcond' hr, scanFrom_cutsNewline hcond']
      rfl

/-- A line without one. -/
theorem scanFrom_otherLine {l : Text} (hl : '\n' ∉ l) (hmarker : ∀ q, marker q ≠ some l)
    (hnone : ∀ tcid tc type u, CutsText tcid tc type u → ¬ u <+: l) (v : Text) :
    scanFrom mode extended (some s) true (l ++ '\n' :: v) =
      scanFrom mode extended (some { s with yylineno := s.yylineno + 1 }) true v := by
  cases l with
  | nil => exact scanFrom_cutsNewline hcond v
  | cons c l =>
      have hc := List.ne_of_not_mem_cons hl
      have hrest := List.not_mem_of_not_mem_cons hl
      have hbol : (∀ q u v', marker q = some u → c :: (l ++ '\n' :: v) ≠ u ++ '\n' :: v') ∧
          ∀ tcid tc type u v', CutsText tcid tc type u → c :: (l ++ '\n' :: v) ≠ u ++ v' := by
        constructor
        · intro q u v' hq happend
          obtain ⟨rfl, -⟩ := cut_unique hl (marker_spec hq).2.1 happend
          exact hmarker q hq
        · intro tcid tc type u v' h happend
          have hbegins : u <+: c :: l ++ '\n' :: v := ⟨v', happend.symm⟩
          have hnl : '\n' ∉ u := h.not_mem (by decide) (by decide)
          exact hnone tcid tc type u h (prefix_of_append_newline hnl hbegins)
      rw [List.cons_append, scanFrom_char hcond (Ne.symm hc) fun _ => hbol,
        scanFrom_chars hcond hrest, scanFrom_cutsNewline hcond]
      rfl

/-- Several of them. -/
theorem scanFrom_otherLines {t : Text} (hmarker : ∀ l ∈ lines t, ∀ q, marker q ≠ some l)
    (hnone : ∀ l ∈ lines t, ∀ tcid tc type u, CutsText tcid tc type u → ¬ u <+: l) (v : Text) :
    scanFrom mode extended (some s) true (t ++ '\n' :: v) =
      scanFrom mode extended (some { s with yylineno := s.yylineno + (lines t).length }) true
        v := by
  obtain ⟨ls, o, rfl, hls, ho⟩ := exists_unlines t
  rw [lines_unlines_append hls, lines_eq_self ho] at hmarker hnone ⊢
  induction ls generalizing s with
  | nil => exact scanFrom_otherLine hcond ho (hmarker o (by simp)) (hnone o (by simp)) v
  | cons l ls ih =>
      obtain ⟨hl, hls⟩ := List.forall_mem_cons.mp hls
      obtain ⟨hm, hmarker⟩ := List.forall_mem_cons.mp hmarker
      obtain ⟨hn, hnone⟩ := List.forall_mem_cons.mp hnone
      rw [unlines_cons, List.append_assoc, List.cons_append, scanFrom_otherLine hcond hl hm hn,
        ih (s := { s with yylineno := s.yylineno + 1 }) hcond hmarker hnone hls]
      simp only [List.cons_append, List.length_cons, Nat.add_assoc, Nat.add_comm 1]

end Lines

end EDDTs.Pan
