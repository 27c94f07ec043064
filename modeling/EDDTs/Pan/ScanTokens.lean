import EDDTs.Pan.Scan

/-!
# What the lexer takes next

For each rule the texts it can take, and from them which rule wins at the kinds
of places that a test block has: marker lines, keywords, the blanks between
them, and the lines of the test's output.
-/

namespace EDDTs.Pan

open Library

namespace Scan

/-- The line of a marker rule. -/
def marker : Token → Option Text
  | .kwStart => some (txt "<<<rts_keyword_start>>>")
  | .kwEnd => some (txt "<<<rts_keyword_end>>>")
  | .testStart => some (txt "<<<test_start>>>")
  | .testOutput => some (txt "<<<test_output>>>")
  | .execStatus => some (txt "<<<execution_status>>>")
  | .testEnd => some (txt "<<<test_end>>>")
  | _ => none

def IsKey (k : Text) : Prop := k ≠ [] ∧ ∀ c ∈ k, isKeyChar c = true

def IsValue (v : Text) : Prop := v ≠ [] ∧ ∀ c ∈ v, isPlain c = true

def IsQuoted (x : Text) : Prop := x ≠ [] ∧ ∀ c ∈ x, isQuotable c = true

/-- A rule can take a text in front of another. Nothing is said here of what
the rules for cuts results take. -/
inductive Front (cond : Cond) (bol : Bool) : Token → Text → Text → Prop
  | marker {q : Token} {m v : Text} (hq : marker q = some m) (hbol : bol = true) :
      Front cond bol q m ('\n' :: v)
  | quoted {k x v : Text} (hcond : cond = .key) (hk : IsKey k) (hx : IsQuoted x) :
      Front cond bol .keywordQuoted (k ++ '=' :: '"' :: (x ++ ['"'])) v
  | keyword {k w v : Text} (hcond : cond = .key) (hk : IsKey k) (hw : IsValue w) :
      Front cond bol .keyword (k ++ '=' :: w) v
  | keySpace {w v : Text} (hcond : cond = .key) (hw : ∀ c ∈ w, isSpace c = true) :
      Front cond bol .keySpace w v
  | textLine {l v : Text} (hcond : cond = .out) (hbol : bol = true) (hne : l ≠ [])
      (hl : '\n' ∉ l) : Front cond bol .textLine l ('\n' :: v)
  | cuts {q : Token} {u v : Text} (hcond : cond = .cuts)
      (hq : q = .cutsResult ∨ q = .cutsResultR) : Front cond bol q u v
  | other {c : Char} {v : Text} (hc : c ≠ '\n') : Front cond bol .other [c] v
  | newline {v : Text} : Front cond bol .newline ['\n'] v

variable {u m : Text}

theorem mem_lang_one {c : Char} : u ∈ (one c).lang ↔ u = [c] := by
  constructor
  · rintro ⟨a, ha, rfl⟩
    rw [of_decide_eq_true ha]
  · rintro rfl
    exact ⟨c, by simp, rfl⟩

theorem mem_lang_quoted : u ∈ (rule .keywordQuoted).regex.lang ↔
    ∃ k x, IsKey k ∧ IsQuoted x ∧ u = k ++ '=' :: '"' :: (x ++ ['"']) := by
  constructor
  · intro h
    obtain ⟨k, hk, a, ha, rfl⟩ := Regex.mem_lang_seq.mp h
    obtain ⟨e, he, b, hb, rfl⟩ := Regex.mem_lang_seq.mp ha
    obtain ⟨q, hq, d, hd, rfl⟩ := Regex.mem_lang_seq.mp hb
    obtain ⟨x, hx, q', hq', rfl⟩ := Regex.mem_lang_seq.mp hd
    rw [mem_lang_one.mp he, mem_lang_one.mp hq, mem_lang_one.mp hq']
    exact ⟨k, x, Regex.mem_lang_plus_cls.mp hk, Regex.mem_lang_plus_cls.mp hx, rfl⟩
  · rintro ⟨k, x, hk, hx, rfl⟩
    refine Regex.mem_lang_seq.mpr ⟨k, Regex.mem_lang_plus_cls.mpr hk, _, ?_, rfl⟩
    refine Regex.mem_lang_seq.mpr ⟨['='], mem_lang_one.mpr rfl, _, ?_, rfl⟩
    refine Regex.mem_lang_seq.mpr ⟨['"'], mem_lang_one.mpr rfl, _, ?_, rfl⟩
    exact Regex.mem_lang_seq.mpr
      ⟨x, Regex.mem_lang_plus_cls.mpr hx, ['"'], mem_lang_one.mpr rfl, rfl⟩

theorem mem_lang_keyword : u ∈ (rule .keyword).regex.lang ↔
    ∃ k w, IsKey k ∧ IsValue w ∧ u = k ++ '=' :: w := by
  constructor
  · intro h
    obtain ⟨k, hk, a, ha, rfl⟩ := Regex.mem_lang_seq.mp h
    obtain ⟨e, he, w, hw, rfl⟩ := Regex.mem_lang_seq.mp ha
    rw [mem_lang_one.mp he]
    exact ⟨k, w, Regex.mem_lang_plus_cls.mp hk, Regex.mem_lang_plus_cls.mp hw, rfl⟩
  · rintro ⟨k, w, hk, hw, rfl⟩
    refine Regex.mem_lang_seq.mpr ⟨k, Regex.mem_lang_plus_cls.mpr hk, _, ?_, rfl⟩
    exact Regex.mem_lang_seq.mpr
      ⟨['='], mem_lang_one.mpr rfl, w, Regex.mem_lang_plus_cls.mpr hw, rfl⟩

theorem mem_lang_textLine : u ∈ (rule .textLine).regex.lang ↔ u ≠ [] ∧ '\n' ∉ u := by
  refine Regex.mem_lang_plus_cls.trans (and_congr_right fun _ => ?_)
  simp only [decide_eq_true_eq, ne_eq]
  exact ⟨fun h hmem => h _ hmem rfl, fun h c hc hnl => h (hnl ▸ hc)⟩

theorem rule_of_marker {q : Token} (h : marker q = some m) :
    rule q = { conds := [], bol := true, regex := .word m, eol := true } := by
  cases q <;> cases h <;> rfl

variable {cond : Cond} {bol : Bool} {q : Token} {u v : Text}

theorem head_newline (h : v.head? = some '\n') : ∃ v', v = '\n' :: v' := by
  cases v with
  | nil => cases h
  | cons c v' => exact ⟨v', by rw [Option.some.inj h]⟩

theorem front_of_takes (h : (rule q).Takes cond bol u v) : Front cond bol q u v := by
  obtain ⟨⟨hcond, hbol⟩, hmem, hfollow⟩ := h
  cases hm : marker q with
  | some m =>
      rw [rule_of_marker hm] at hbol hmem hfollow
      obtain ⟨v', rfl⟩ := head_newline (hfollow rfl)
      rw [Regex.mem_lang_word.mp hmem]
      exact .marker hm (hbol rfl)
  | none =>
      cases q with
      | keywordQuoted =>
          obtain ⟨k, x, hk, hx, rfl⟩ := mem_lang_quoted.mp hmem
          exact .quoted (by simpa [rule] using hcond) hk hx
      | keyword =>
          obtain ⟨k, w, hk, hw, rfl⟩ := mem_lang_keyword.mp hmem
          exact .keyword (by simpa [rule] using hcond) hk hw
      | keySpace =>
          exact .keySpace (by simpa [rule] using hcond) (Regex.mem_lang_star_cls.mp hmem)
      | textLine =>
          obtain ⟨hne, hl⟩ := mem_lang_textLine.mp hmem
          obtain ⟨v', rfl⟩ := head_newline (hfollow rfl)
          exact .textLine (by simpa [rule] using hcond) (hbol rfl) hne hl
      | cutsResult => exact .cuts (by simpa [rule] using hcond) (Or.inl rfl)
      | cutsResultR => exact .cuts (by simpa [rule] using hcond) (Or.inr rfl)
      | other =>
          obtain ⟨c, hc, rfl⟩ := hmem
          exact .other (of_decide_eq_true hc)
      | newline =>
          rw [mem_lang_one.mp hmem]
          exact .newline
      | _ => cases hm

theorem takes_other {c : Char} (hc : c ≠ '\n') : (rule .other).Takes cond bol [c] v :=
  ⟨⟨Or.inl rfl, by simp [rule]⟩, ⟨c, by simpa using hc, rfl⟩, by simp [rule]⟩

theorem takes_newline : (rule .newline).Takes cond bol ['\n'] v :=
  ⟨⟨Or.inl rfl, by simp [rule]⟩, mem_lang_one.mpr rfl, by simp [rule]⟩

theorem takes_of_front (h : Front cond bol q u v) (hcuts : cond ≠ .cuts) :
    (rule q).Takes cond bol u v := by
  cases h with
  | marker hq hbol =>
      rw [rule_of_marker hq]
      exact ⟨⟨Or.inl rfl, fun _ => hbol⟩, Regex.mem_lang_word.mpr rfl, fun _ => rfl⟩
  | quoted hcond hk hx =>
      refine ⟨⟨Or.inr (by simp [rule, hcond]), by simp [rule]⟩, ?_, by simp [rule]⟩
      exact mem_lang_quoted.mpr ⟨_, _, hk, hx, rfl⟩
  | keyword hcond hk hw =>
      refine ⟨⟨Or.inr (by simp [rule, hcond]), by simp [rule]⟩, ?_, by simp [rule]⟩
      exact mem_lang_keyword.mpr ⟨_, _, hk, hw, rfl⟩
  | keySpace hcond hw =>
      refine ⟨⟨Or.inr (by simp [rule, hcond]), by simp [rule]⟩, ?_, by simp [rule]⟩
      exact Regex.mem_lang_star_cls.mpr hw
  | textLine hcond hbol hne hl =>
      refine ⟨⟨Or.inr (by simp [rule, hcond]), fun _ => hbol⟩, ?_, fun _ => rfl⟩
      exact mem_lang_textLine.mpr ⟨hne, hl⟩
  | cuts hcond _ => exact absurd hcond hcuts
  | other hc => exact takes_other hc
  | newline => exact takes_newline

theorem mem_order (q : Token) : q ∈ order := by cases q <;> decide

@[simp] theorem trail_keywordQuoted : (rule .keywordQuoted).trail = 0 := rfl

@[simp] theorem trail_keyword : (rule .keyword).trail = 0 := rfl

@[simp] theorem trail_keySpace : (rule .keySpace).trail = 0 := rfl

@[simp] theorem trail_other : (rule .other).trail = 0 := rfl

@[simp] theorem trail_newline : (rule .newline).trail = 0 := rfl

theorem trail_of_marker (h : marker q = some m) : (rule q).trail = 1 := by
  rw [rule_of_marker h]
  rfl

theorem eol_cases (h : (rule q).eol = true) : (∃ m, marker q = some m) ∨ q = .textLine := by
  cases q <;> first | exact Or.inl ⟨_, rfl⟩ | exact Or.inr rfl | cases h

theorem marker_spec (h : marker q = some m) :
    (∃ m', m = '<' :: m') ∧ '\n' ∉ m ∧ order.idxOf q < order.idxOf .textLine := by
  cases q <;> cases h <;> exact ⟨⟨_, rfl⟩, by decide, by decide⟩

theorem marker_inj {q' : Token} (h : marker q = some m) (h' : marker q' = some m) : q = q' := by
  cases q <;> cases h <;> cases q' <;> first | rfl | exact absurd h' (by decide)

theorem isKeyChar_ne {c d : Char} (hc : isKeyChar c = true) (hd : isKeyChar d = false) :
    c ≠ d := fun h => by simp [h, hd] at hc

theorem IsKey.not_mem {k : Text} (hk : IsKey k) {d : Char} (hd : isKeyChar d = false) :
    d ∉ k := fun hmem => isKeyChar_ne (hk.2 d hmem) hd rfl

/-- No key begins with a character of another kind. -/
theorem IsKey.head_ne {k a b : Text} {d : Char} (hk : IsKey k) (hd : isKeyChar d = false) :
    k ++ a ≠ d :: b := by
  obtain ⟨c, k', rfl⟩ := List.exists_cons_of_ne_nil hk.1
  intro h
  exact isKeyChar_ne (hk.2 c (by simp)) hd (List.cons.inj h).1

/-- Two keys in front of the same text are the same. -/
theorem IsKey.cut {k k' a b : Text} (hk : IsKey k) (hk' : IsKey k')
    (h : k ++ '=' :: a = k' ++ '=' :: b) : k = k' ∧ a = b := by
  have heq : isKeyChar '=' = false := by decide
  exact cut_unique (hk.not_mem heq) (hk'.not_mem heq) h

/-- Blanks are not taken in front of another character. -/
theorem eq_nil_of_spaces {w a b : Text} {d : Char} (hw : ∀ c ∈ w, isSpace c = true)
    (hd : isSpace d = false) (h : w ++ a = d :: b) : w = [] := by
  cases w with
  | nil => rfl
  | cons c w =>
      have hc := hw c (by simp)
      rw [(List.cons.inj h).1, hd] at hc
      cases hc

end Scan

open Scan

variable {mode : ReporterMode} {extended : Bool} {s : Scanner} {bol : Bool} {q : Token}
  {u v : Text}

theorem lexer_progress : (lexer mode extended).Progress := by
  apply Flex.progress_of_cover
  · intro s bol c t
    by_cases hc : c = '\n'
    · exact ⟨.newline, mem_order _, [c], t, rfl, by simp, hc ▸ takes_newline⟩
    · exact ⟨.other, mem_order _, [c], t, rfl, by simp, takes_other hc⟩
  · intro q heol hnil
    rcases eol_cases heol with ⟨m, hm⟩ | rfl
    · obtain ⟨⟨m', rfl⟩, -⟩ := marker_spec hm
      rw [show (lexer mode extended).rule q = rule q from rfl, rule_of_marker hm] at hnil
      cases Regex.mem_lang_word.mp hnil
    · exact (mem_lang_textLine.mp hnil).1 rfl

theorem scanFrom_nil (s : Option Scanner) : scanFrom mode extended s bol [] = s := by
  cases s <;> rfl

/-- After the process has ended nothing happens. -/
theorem scanFrom_none (t : Text) : scanFrom mode extended none bol t = none := by
  have hend : ∃ s', ∃ _ : Bool, (lexer mode extended).scan none bol t = some s' ∧ s' = none :=
    Flex.scan_invariant lexer_progress (fun s _ _ => s = none)
      (fun _ _ _ _ _ _ _ h _ => by rw [h]; rfl) rfl
  obtain ⟨s', -, hscan, rfl⟩ := hend
  rw [scanFrom, hscan]
  rfl

/-- A rule takes its text when it wins against all others. -/
theorem scanFrom_takes {cond : Cond} (hcond : s.cond = cond) (htakes : (rule q).Takes cond bol u v)
    (hne : u ≠ [])
    (hwins : ∀ q' u' v', u' ++ v' = u ++ v → (rule q').Takes cond bol u' v' →
      u'.length + (rule q').trail < u.length + (rule q).trail ∨
        u'.length + (rule q').trail = u.length + (rule q).trail ∧
          order.idxOf q ≤ order.idxOf q') :
    scanFrom mode extended (some s) bol (u ++ v) =
      scanFrom mode extended ((s.countLines u).action mode extended u q) (Flex.atBol bol u) v := by
  subst hcond
  have hlexeme : (lexer mode extended).lexeme (some s) bol (u ++ v) = (some q, u, v) :=
    Flex.lexeme_eq (mem_order q) htakes fun q' _ u' v' happend htakes' =>
      hwins q' u' v' happend htakes'
  obtain ⟨c, u', rfl⟩ := List.exists_cons_of_ne_nil hne
  rw [List.cons_append] at hlexeme ⊢
  rw [scanFrom, Flex.scan_eq lexer_progress hlexeme]
  rfl

/-- Outside of the output of a cuts test the rules are told apart by what they begin with. -/
theorem scanFrom_front (hfront : Front s.cond bol q u v) (hcuts : s.cond ≠ .cuts)
    (hne : u ≠ [])
    (hwins : ∀ q' u' v', u' ++ v' = u ++ v → Front s.cond bol q' u' v' →
      u'.length + (rule q').trail < u.length + (rule q).trail ∨
        u'.length + (rule q').trail = u.length + (rule q).trail ∧
          order.idxOf q ≤ order.idxOf q') :
    scanFrom mode extended (some s) bol (u ++ v) =
      scanFrom mode extended ((s.countLines u).action mode extended u q) (Flex.atBol bol u) v :=
  scanFrom_takes rfl (takes_of_front hfront hcuts) hne fun q' u' v' happend htakes =>
    hwins q' u' v' happend (front_of_takes htakes)

theorem countLines_eq (h : '\n' ∉ u) : s.countLines u = s := by
  simp [Scanner.countLines, List.count_eq_zero.mpr h]

theorem atBol_eq_false (hne : u ≠ []) (h : '\n' ∉ u) : Flex.atBol bol u = false := by
  obtain ⟨w, c, rfl⟩ := List.eq_nil_or_concat' u |>.resolve_left hne
  have hc : c ≠ '\n' := fun hc => h (by simp [hc])
  simp [Flex.atBol, hc]

theorem scanFrom_marker {m : Text} (hq : marker q = some m) (hcuts : s.cond ≠ .cuts) (v : Text) :
    scanFrom mode extended (some s) true (m ++ '\n' :: v) =
      scanFrom mode extended (s.action mode extended m q) false ('\n' :: v) := by
  obtain ⟨⟨m', hm'⟩, hnl, hidx⟩ := marker_spec hq
  have hne : m ≠ [] := by simp [hm']
  rw [scanFrom_front (.marker hq rfl) hcuts hne, countLines_eq hnl, atBol_eq_false hne hnl]
  intro q' u' v' happend hfront
  rw [trail_of_marker hq]
  cases hfront with
  | marker hq' _ =>
      obtain ⟨rfl, -⟩ := cut_unique (marker_spec hq').2.1 hnl happend
      obtain rfl := marker_inj hq hq'
      exact Or.inr ⟨by rw [trail_of_marker hq], Nat.le_refl _⟩
  | quoted _ hk _ =>
      rw [hm', List.append_assoc] at happend
      exact absurd happend (hk.head_ne (by decide))
  | keyword _ hk _ =>
      rw [hm', List.append_assoc] at happend
      exact absurd happend (hk.head_ne (by decide))
  | keySpace _ hw =>
      rw [hm'] at happend
      rw [eq_nil_of_spaces hw (by decide) happend]
      exact Or.inl (by simp [rule, FlexRule.trail])
  | textLine _ _ _ hl =>
      obtain ⟨rfl, -⟩ := cut_unique hl hnl happend
      exact Or.inr ⟨rfl, Nat.le_of_lt hidx⟩
  | cuts hcond _ => exact absurd hcond hcuts
  | other _ =>
      have hpos := List.length_pos_iff.mpr hne
      exact Or.inl (by simp [rule, FlexRule.trail]; omega)
  | newline =>
      rw [hm'] at happend
      exact absurd (List.cons.inj happend).1 (by decide)

/-- A line of output that is no marker line. -/
theorem scanFrom_textLine {l : Text} (hcond : s.cond = .out) (hne : l ≠ []) (hl : '\n' ∉ l)
    (hmarker : ∀ q, marker q ≠ some l) (v : Text) :
    scanFrom mode extended (some s) true (l ++ '\n' :: v) =
      scanFrom mode extended (some s) false ('\n' :: v) := by
  have hcuts : s.cond ≠ .cuts := by simp [hcond]
  rw [scanFrom_front (.textLine hcond rfl hne hl) hcuts hne, countLines_eq hl,
    atBol_eq_false hne hl]
  · rfl
  · intro q' u' v' happend hfront
    have hpos := List.length_pos_iff.mpr hne
    cases hfront with
    | marker hq' _ =>
        obtain ⟨rfl, -⟩ := cut_unique (marker_spec hq').2.1 hl happend
        exact absurd hq' (hmarker _)
    | textLine _ _ _ hl' =>
        obtain ⟨rfl, -⟩ := cut_unique hl' hl happend
        exact Or.inr ⟨rfl, Nat.le_refl _⟩
    | cuts hcond _ => exact absurd hcond hcuts
    | other _ => exact Or.inl (by simp [rule, FlexRule.trail]; omega)
    | newline =>
        obtain ⟨c, l', rfl⟩ := List.exists_cons_of_ne_nil hne
        exact absurd ((List.cons.inj happend).1 ▸ List.mem_cons_self) hl
    | _ => simp_all

/-- A newline outside of the keywords. -/
theorem scanFrom_newline (hcond : s.cond = .initial ∨ s.cond = .out) (v : Text) :
    scanFrom mode extended (some s) bol ('\n' :: v) =
      scanFrom mode extended (some (s.countLines ['\n'])) true v := by
  have hcuts : s.cond ≠ .cuts := by rcases hcond with h | h <;> simp [h]
  have hkey : s.cond ≠ .key := by rcases hcond with h | h <;> simp [h]
  rw [← List.singleton_append, scanFrom_front .newline hcuts (by simp)]
  · rfl
  · intro q' u' v' happend hfront
    cases hfront with
    | marker hq' _ =>
        obtain ⟨⟨m', rfl⟩, -⟩ := marker_spec hq'
        exact absurd (List.cons.inj happend).1 (by decide)
    | textLine _ _ hne hl =>
        obtain ⟨c, l', rfl⟩ := List.exists_cons_of_ne_nil hne
        exact absurd ((List.cons.inj happend).1 ▸ List.mem_cons_self) hl
    | cuts hcond _ => exact absurd hcond hcuts
    | other hc => exact absurd (List.cons.inj happend).1 hc
    | newline => exact Or.inr ⟨rfl, Nat.le_refl _⟩
    | quoted hcond _ _ => exact absurd hcond hkey
    | keyword hcond _ _ => exact absurd hcond hkey
    | keySpace hcond _ => exact absurd hcond hkey

theorem key_takeWhile {k r : Text} (hk : '=' ∉ k) :
    (k ++ '=' :: r).takeWhile (· ≠ '=') = k := by
  have hall : ∀ c ∈ k, decide (c ≠ '=') = true :=
    fun c hc => decide_eq_true fun h => hk (h ▸ hc)
  rw [List.takeWhile_append_of_pos hall]
  simp

theorem key_dropWhile {k r : Text} (hk : '=' ∉ k) :
    ((k ++ '=' :: r).dropWhile (· ≠ '=')).drop 1 = r := by
  have hall : ∀ c ∈ k, decide (c ≠ '=') = true :=
    fun c hc => decide_eq_true fun h => hk (h ▸ hc)
  rw [List.dropWhile_append_of_pos hall]
  simp

section Keywords

variable {k r : Text} (hcond : s.cond = .key) (hk : IsKey k)

theorem isKeyChar_not_space {c : Char} (hc : isKeyChar c = true) : isSpace c = false := by
  cases hs : isSpace c with
  | false => rfl
  | true =>
      simp only [isSpace, decide_eq_true_eq] at hs
      rcases hs with rfl | rfl | rfl <;> exact absurd hc (by decide)

/-- A plain text in front of a rest is a part of the longest one. -/
theorem length_le_takeWhile {p : Char → Bool} {w a : Text} (hw : ∀ c ∈ w, p c = true)
    (h : w ++ a = r) : w.length ≤ (r.takeWhile p).length := by
  subst h
  rw [List.takeWhile_append_of_pos hw, List.length_append]
  exact Nat.le_add_right _ _

include hcond hk

/-- The rules that compete at a keyword: the two for keywords, and others that
are shorter. -/
theorem keyword_rivals {q' : Token} {u' v' : Text} (happend : u' ++ v' = k ++ '=' :: r)
    (hfront : Front s.cond bol q' u' v') :
    (q' = .keySpace ∧ u' = []) ∨ (q' = .other ∧ u'.length = 1) ∨
      (q' = .keywordQuoted ∧ ∃ x y, IsQuoted x ∧ r = '"' :: (x ++ '"' :: y) ∧
        u'.length = k.length + x.length + 3 ∧ v' = y) ∨
      (q' = .keyword ∧ ∃ w, IsValue w ∧ w ++ v' = r ∧ u'.length = k.length + w.length + 1) := by
  obtain ⟨c, k', hck⟩ := List.exists_cons_of_ne_nil hk.1
  have hc : isKeyChar c = true := hk.2 c (by simp [hck])
  cases hfront with
  | marker hq' _ =>
      obtain ⟨⟨m', rfl⟩, -⟩ := marker_spec hq'
      exact absurd happend.symm (hk.head_ne (by decide))
  | @quoted k' x v' _ hk' hx =>
      right; right; left
      simp only [List.append_assoc, List.cons_append] at happend
      obtain ⟨rfl, hr⟩ := hk'.cut hk happend
      exact ⟨rfl, x, v', hx, by simpa using hr.symm, by simp; omega, rfl⟩
  | @keyword k' w v' _ hk' hw =>
      right; right; right
      simp only [List.append_assoc, List.cons_append] at happend
      obtain ⟨rfl, hr⟩ := hk'.cut hk happend
      exact ⟨rfl, w, hw, hr, by simp; omega⟩
  | keySpace _ hw =>
      rw [hck] at happend
      exact Or.inl ⟨rfl, eq_nil_of_spaces hw (isKeyChar_not_space hc) happend⟩
  | textLine h _ _ _ => simp [hcond] at h
  | cuts h _ => simp [hcond] at h
  | other _ => exact Or.inr (Or.inl ⟨rfl, rfl⟩)
  | newline => exact absurd happend.symm (hk.head_ne (by decide))

/-- A keyword goes up to the next blank, unless the quoted form takes as much. -/
theorem scanFrom_keyword (hne : r.takeWhile isPlain ≠ [])
    (hquoted : ∀ x y, IsQuoted x → r = '"' :: (x ++ '"' :: y) →
      x.length + 2 < (r.takeWhile isPlain).length) :
    scanFrom mode extended (some s) bol (k ++ '=' :: r) =
      scanFrom mode extended (some (s.put k (cString (r.takeWhile isPlain)))) false
        (r.dropWhile isPlain) := by
  have hcuts : s.cond ≠ .cuts := by simp [hcond]
  have hw : IsValue (r.takeWhile isPlain) := ⟨hne, fun c hc => List.mem_takeWhile_imp hc⟩
  have hsplit : k ++ '=' :: r =
      (k ++ '=' :: r.takeWhile isPlain) ++ r.dropWhile isPlain := by
    simp [List.takeWhile_append_dropWhile]
  have hnl : '\n' ∉ k ++ '=' :: r.takeWhile isPlain := by
    simp only [List.mem_append, List.mem_cons, not_or]
    exact ⟨hk.not_mem (by decide), by decide, fun h => absurd (hw.2 _ h) (by decide)⟩
  rw [hsplit, scanFrom_front (.keyword hcond hk hw) hcuts (by simp), countLines_eq hnl,
    atBol_eq_false (by simp) hnl]
  · simp only [Scanner.action]
    rw [key_takeWhile (hk.not_mem (by decide)), key_dropWhile (hk.not_mem (by decide))]
  · intro q' u' v' happend hfront
    have hpos := List.length_pos_iff.mpr hne
    have hlen : (k ++ '=' :: r.takeWhile isPlain).length =
        k.length + (r.takeWhile isPlain).length + 1 := by simp; omega
    rw [← hsplit] at happend
    rw [hlen]
    rcases keyword_rivals hcond hk happend hfront with
      ⟨rfl, rfl⟩ | ⟨rfl, hu⟩ | ⟨rfl, x, y, hx, hr, hu, -⟩ | ⟨rfl, w, hw', hr, hu⟩
    · exact Or.inl (by simp)
    · exact Or.inl (by rw [hu, trail_other, trail_keyword]; omega)
    · have := hquoted x y hx hr
      exact Or.inl (by rw [hu, trail_keywordQuoted, trail_keyword]; omega)
    · have := length_le_takeWhile hw'.2 hr
      rw [hu, trail_keyword]
      omega

/-- A quoted keyword goes up to the second quote. -/
theorem scanFrom_quoted {x y : Text} (hx : IsQuoted x)
    (hlen : (('"' :: (x ++ '"' :: y)).takeWhile isPlain).length ≤ x.length + 2) :
    scanFrom mode extended (some s) bol (k ++ '=' :: '"' :: (x ++ '"' :: y)) =
      scanFrom mode extended (some (s.put k (cString x))) false y := by
  have hcuts : s.cond ≠ .cuts := by simp [hcond]
  have hsplit : k ++ '=' :: '"' :: (x ++ '"' :: y) =
      (k ++ '=' :: '"' :: (x ++ ['"'])) ++ y := by simp
  have hnl : '\n' ∉ k ++ '=' :: '"' :: (x ++ ['"']) := by
    simp only [List.mem_append, List.mem_cons, List.not_mem_nil, or_false, not_or]
    exact ⟨hk.not_mem (by decide), by decide, by decide,
      fun h => absurd (hx.2 _ h) (by decide), by decide⟩
  rw [hsplit, scanFrom_front (.quoted hcond hk hx) hcuts (by simp), countLines_eq hnl,
    atBol_eq_false (by simp) hnl]
  · simp only [Scanner.action]
    rw [key_takeWhile (hk.not_mem (by decide)), key_dropWhile (hk.not_mem (by decide))]
    simp
  · intro q' u' v' happend hfront
    have hu' : (k ++ '=' :: '"' :: (x ++ ['"'])).length = k.length + x.length + 3 := by
      simp; omega
    rw [← hsplit] at happend
    rw [hu']
    rcases keyword_rivals hcond hk happend hfront with
      ⟨rfl, rfl⟩ | ⟨rfl, hu⟩ | ⟨rfl, x', y', hx', hr, hu, -⟩ | ⟨rfl, w, hw, hr, hu⟩
    · exact Or.inl (by simp)
    · exact Or.inl (by rw [hu, trail_other, trail_keywordQuoted]; omega)
    · have hquote : ∀ {z : Text}, IsQuoted z → '"' ∉ z :=
        fun hz h => absurd (hz.2 _ h) (by decide)
      obtain ⟨rfl, -⟩ := cut_unique (hquote hx) (hquote hx') (List.cons.inj hr).2
      exact Or.inr ⟨by rw [hu], Nat.le_refl _⟩
    · have := length_le_takeWhile hw.2 hr
      have hidx : order.idxOf .keywordQuoted ≤ order.idxOf .keyword := by decide
      rw [hu, trail_keyword, trail_keywordQuoted]
      omega

/-- A key whose value is missing is taken character by character. -/
theorem scanFrom_keyChar {c : Char} (hck : k = c :: r) {t : Text}
    (hblank : (t.head?.map isPlain).getD false = false) :
    scanFrom mode extended (some s) bol (k ++ '=' :: t) =
      scanFrom mode extended (some s) false (r ++ '=' :: t) := by
  have hcuts : s.cond ≠ .cuts := by simp [hcond]
  have hc : isKeyChar c = true := hk.2 c (by simp [hck])
  have hnl : c ≠ '\n' := isKeyChar_ne hc (by decide)
  subst hck
  rw [List.cons_append, ← List.singleton_append, scanFrom_front (.other hnl) hcuts (by simp),
    countLines_eq (by simpa using Ne.symm hnl), atBol_eq_false (by simp)
      (by simpa using Ne.symm hnl)]
  · rfl
  · intro q' u' v' happend hfront
    rcases keyword_rivals hcond hk happend hfront with
      ⟨rfl, rfl⟩ | ⟨rfl, hu⟩ | ⟨rfl, x, y, hx, hr, hu, -⟩ | ⟨rfl, w, hw, hr, hu⟩
    · exact Or.inl (by simp)
    · exact Or.inr ⟨by rw [hu]; rfl, Nat.le_refl _⟩
    · rw [hr] at hblank
      cases hblank
    · obtain ⟨d, w', rfl⟩ := List.exists_cons_of_ne_nil hw.1
      rw [← hr] at hblank
      simp [hw.2 d (by simp)] at hblank

end Keywords

/-- What the rules can take among the keywords at a character that begins no keyword. -/
theorem nonKey_rivals {c : Char} {w : Text} (hcond : s.cond = .key) (hkey : isKeyChar c = false)
    (hmarker : c ≠ '<') {q' : Token} {u' v' : Text} (happend : u' ++ v' = c :: w)
    (hfront : Front s.cond bol q' u' v') :
    (q' = .keySpace ∧ ∀ d ∈ u', isSpace d = true) ∨ (q' = .other ∧ u' = [c]) ∨
      (q' = .newline ∧ c = '\n' ∧ u' = [c]) := by
  cases hfront with
  | marker hq' _ =>
      obtain ⟨⟨m', rfl⟩, -⟩ := marker_spec hq'
      exact absurd (List.cons.inj happend).1 (Ne.symm hmarker)
  | quoted _ hk _ =>
      rw [List.append_assoc] at happend
      exact absurd happend (hk.head_ne hkey)
  | keyword _ hk _ =>
      rw [List.append_assoc] at happend
      exact absurd happend (hk.head_ne hkey)
  | keySpace _ hw => exact Or.inl ⟨rfl, hw⟩
  | textLine h _ _ _ => simp [hcond] at h
  | cuts h _ => simp [hcond] at h
  | other _ =>
      obtain rfl := (List.cons.inj happend).1
      exact Or.inr (Or.inl ⟨rfl, rfl⟩)
  | newline =>
      obtain rfl := (List.cons.inj happend).1
      exact Or.inr (Or.inr ⟨rfl, rfl, rfl⟩)

/-- A character that no rule for keywords begins with. -/
theorem scanFrom_other {c : Char} (hcond : s.cond = .key) (hkey : isKeyChar c = false)
    (hspace : isSpace c = false) (hmarker : c ≠ '<') (v : Text) :
    scanFrom mode extended (some s) bol (c :: v) =
      scanFrom mode extended (some s) false v := by
  have hcuts : s.cond ≠ .cuts := by simp [hcond]
  have hnl : c ≠ '\n' := fun h => by simp [h, isSpace] at hspace
  have hmem : '\n' ∉ [c] := by simpa using Ne.symm hnl
  rw [← List.singleton_append, scanFrom_front (.other hnl) hcuts (by simp), countLines_eq hmem,
    atBol_eq_false (by simp) hmem]
  · rfl
  · intro q' u' v' happend hfront
    rw [List.singleton_append] at happend
    rcases nonKey_rivals hcond hkey hmarker happend hfront with
      ⟨rfl, hw⟩ | ⟨rfl, rfl⟩ | ⟨rfl, hc, -⟩
    · rw [eq_nil_of_spaces hw hspace happend]
      exact Or.inl (by simp)
    · exact Or.inr ⟨rfl, Nat.le_refl _⟩
    · exact absurd hc hnl

/-- A key without a value is not stored. -/
theorem scanFrom_noValue (hcond : s.cond = .key) {k t : Text}
    (hk : ∀ c ∈ k, isKeyChar c = true) (hblank : (t.head?.map isPlain).getD false = false) :
    scanFrom mode extended (some s) bol (k ++ '=' :: t) =
      scanFrom mode extended (some s) false t := by
  induction k generalizing bol with
  | nil => exact scanFrom_other hcond (by decide) (by decide) (by decide) t
  | cons c k ih =>
      rw [scanFrom_keyChar hcond ⟨by simp, hk⟩ rfl hblank,
        ih fun d hd => hk d (List.mem_cons_of_mem c hd)]

/-- The text goes on with a character other than a blank. -/
def NoBlankAhead (v : Text) : Prop := ∃ c v', isSpace c = false ∧ v = c :: v'

/-- The blanks and newlines between keywords are taken together. -/
theorem scanFrom_keySpace {w v : Text} (hcond : s.cond = .key) (hne : w ≠ [])
    (hw : ∀ c ∈ w, isSpace c = true) (hv : NoBlankAhead v) :
    scanFrom mode extended (some s) bol (w ++ v) =
      scanFrom mode extended (some (s.countLines w)) (Flex.atBol bol w) v := by
  obtain ⟨c, v, hc, rfl⟩ := hv
  have hcuts : s.cond ≠ .cuts := by simp [hcond]
  rw [scanFrom_front (.keySpace hcond hw) hcuts hne]
  · rfl
  · intro q' u' v' happend hfront
    obtain ⟨d, w', rfl⟩ := List.exists_cons_of_ne_nil hne
    have hd : isSpace d = true := hw d (by simp)
    have hkey : isKeyChar d = false := by
      cases hkc : isKeyChar d with
      | false => rfl
      | true => simp [isKeyChar_not_space hkc] at hd
    have hmarker : d ≠ '<' := by
      rintro rfl
      exact absurd hd (by decide)
    rw [List.cons_append] at happend
    rcases nonKey_rivals hcond hkey hmarker happend hfront with
      ⟨rfl, hw'⟩ | ⟨rfl, rfl⟩ | ⟨rfl, -, rfl⟩
    · have hle := length_le_takeWhile hw' happend
      rw [← List.cons_append, List.takeWhile_append_of_pos hw] at hle
      simp only [List.takeWhile_cons, hc, Bool.false_eq_true, if_false, List.append_nil] at hle
      simp only [trail_keySpace]
      omega
    · have hidx : order.idxOf .keySpace ≤ order.idxOf .other := by decide
      simp only [trail_other, trail_keySpace, List.length_cons, List.length_nil]
      omega
    · have hidx : order.idxOf .keySpace ≤ order.idxOf .newline := by decide
      simp only [trail_newline, trail_keySpace, List.length_cons, List.length_nil]
      omega

end EDDTs.Pan
