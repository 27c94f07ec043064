import EDDTs.Pan.ScanKeys

/-!
# What every scan keeps of its keys

Whatever the input is, the tables of keys have no levels, and a new key is only
put behind the others. A property of tables that survives that holds of every
table that `test_end` is called with, as long as it holds of a fresh table or no
fresh table is begun.
-/

namespace EDDTs.Pan

open Library Scan

/-- The current table of keys, and those of the tests that have ended, are flat
and have a property. -/
structure KeysInv (P : List (Text × Text) → Prop) (s : Scanner) : Prop where
  current : ∀ t, s.keys = some t → ∃ kvs, t = flat kvs ∧ P kvs
  ended : ∀ e ∈ s.ended, ∃ kvs, e.2 = flat kvs ∧ P kvs

/-- The property survives a new key behind the others. -/
def PutStable (P : List (Text × Text) → Prop) : Prop :=
  ∀ kvs k v, P kvs → k ∉ kvs.map Prod.fst → '\n' ∉ v → P (kvs ++ [(k, v)])

/-- The property holds of the tables that `rts_keyword_start` and `test_start`
begin with. -/
def FreshTable (P : List (Text × Text) → Prop) : Prop :=
  P [] ∧ ∀ n, P [(txt "_Start_line", natText n)]

variable {P : List (Text × Text) → Prop} {mode : ReporterMode} {extended : Bool}
  {s s' : Scanner} {bol : Bool} {q : Token} {u v : Text}

theorem keyPath_startLine : keyPath (txt "_Start_line") = [txt "_Start_line"] := by decide

theorem keyPath_endLine : keyPath (txt "_End_line") = [txt "_End_line"] := by decide

theorem newline_not_mem_cString {t : Text} (h : '\n' ∉ t) : '\n' ∉ cString t :=
  fun hmem => h ((List.takeWhile_prefix _).subset hmem)

section

variable (hput : PutStable P)

include hput

theorem KeysInv.put (h : KeysInv P s) {k value : Text} (hk : keyPath k = [k])
    (hvalue : '\n' ∉ value) : KeysInv P (s.put k value) := by
  refine ⟨?_, h.ended⟩
  intro t ht
  obtain ⟨t₀, ht₀, rfl⟩ := Option.map_eq_some_iff.mp ht
  obtain ⟨kvs, rfl, hP⟩ := h.current t₀ ht₀
  rw [putText_flat hk]
  split
  next => exact ⟨kvs, rfl, hP⟩
  next hnew => exact ⟨kvs ++ [(k, value)], rfl, hput kvs k value hP hnew hvalue⟩

/-- The call of `test_end` hands over the current table. -/
theorem KeysInv.testEnd (h : KeysInv P s) (hact : s.action mode extended u .testEnd = some s') :
    KeysInv P s' := by
  simp only [Scanner.action] at hact
  obtain ⟨reports, -, rfl⟩ := Option.map_eq_some_iff.mp hact
  have hmode : KeysInv P (s.checkMode u [.tstKey] .outside) := ⟨h.current, h.ended⟩
  have hend := hmode.put hput keyPath_endLine (not_mem_natText (by decide) s.yylineno)
  refine ⟨fun t ht => (by cases ht), ?_⟩
  intro e he
  rcases List.mem_append.mp he with he | he
  · exact hend.ended e he
  · unfold Scanner.endCall at he
    split at he
    next ctag keys _ hkeys =>
        rw [List.mem_singleton.mp he]
        exact hend.current keys hkeys
    next => cases he

theorem KeysInv.action (h : KeysInv P s) (hfront : Front s.cond bol q u v)
    (hfresh : q = .kwStart ∨ q = .testStart → FreshTable P)
    (hact : s.action mode extended u q = some s') : KeysInv P s' := by
  have hnone : ∀ t : Table, none = some t → ∃ kvs, t = flat kvs ∧ P kvs := fun t ht => by cases ht
  cases hfront with
  | marker hq _ =>
      cases q with
      | kwStart =>
          obtain rfl := Option.some.inj hact
          refine ⟨?_, h.ended⟩
          intro t ht
          exact ⟨[], (Option.some.inj ht).symm, (hfresh (Or.inl rfl)).1⟩
      | kwEnd =>
          obtain rfl := Option.some.inj hact
          exact ⟨hnone, h.ended⟩
      | testStart =>
          obtain rfl := Option.some.inj hact
          refine ⟨?_, h.ended⟩
          intro t ht
          refine ⟨_, ?_, (hfresh (Or.inr rfl)).2 s.yylineno⟩
          rw [← Option.some.inj ht]
          exact putText_flat keyPath_startLine [] _
      | testOutput =>
          obtain rfl := Option.some.inj hact
          have hbegin : KeysInv P { s.checkMode u [.tstKey] .output with cond := .out } :=
            ⟨h.current, h.ended⟩
          unfold Scanner.testOutput
          split
          next =>
              split
              next => exact ⟨hbegin.current, hbegin.ended⟩
              next => exact hbegin
          next => exact hbegin
      | execStatus =>
          obtain rfl := Option.some.inj hact
          exact ⟨h.current, h.ended⟩
      | testEnd => exact h.testEnd hput hact
      | _ => cases hq
  | quoted _ hk hx =>
      have hx' : '\n' ∉ _ := fun hmem => absurd (hx.2 _ hmem) (by decide)
      simp only [Scanner.action, key_takeWhile (hk.not_mem (d := '=') (by decide)),
        key_dropWhile (hk.not_mem (d := '=') (by decide))] at hact
      obtain rfl := Option.some.inj hact
      simpa using h.put hput hk.keyPath_eq (newline_not_mem_cString hx')
  | keyword _ hk hw =>
      have hw' : '\n' ∉ _ := fun hmem => absurd (hw.2 _ hmem) (by decide)
      simp only [Scanner.action, key_takeWhile (hk.not_mem (d := '=') (by decide)),
        key_dropWhile (hk.not_mem (d := '=') (by decide))] at hact
      obtain rfl := Option.some.inj hact
      exact h.put hput hk.keyPath_eq (newline_not_mem_cString hw')
  | cuts _ hq =>
      rcases hq with rfl | rfl
      all_goals
        simp only [Scanner.action] at hact
        obtain ⟨ctag, -, rfl⟩ := Option.map_eq_some_iff.mp hact
        exact ⟨h.current, h.ended⟩
  | keySpace | textLine | other | newline => exact Option.some.inj hact ▸ h

/-- A property holds at the end of a scan if `Safe` is kept along the input and
fresh tables are begun only where they have the property. -/
theorem scanFrom_keysInv (Safe : Bool → Text → Prop)
    (hsafe : ∀ bol u v, u ≠ [] → Safe bol (u ++ v) → Safe (Flex.atBol bol u) v)
    (hfresh : ∀ q m v, marker q = some m → q = .kwStart ∨ q = .testStart →
      Safe true (m ++ '\n' :: v) → FreshTable P)
    {t : Text} (h : KeysInv P s) (ht : Safe bol t)
    (hrun : scanFrom mode extended (some s) bol t = some s') : KeysInv P s' := by
  have hstep : ∀ s bol c t q u v, ((∀ s', s = some s' → KeysInv P s') ∧ Safe bol (c :: t)) →
      (lexer mode extended).lexeme s bol (c :: t) = (q, u, v) →
      (∀ s', (lexer mode extended).act s q u = some s' → KeysInv P s') ∧
        Safe (Flex.atBol bol u) v := by
    rintro s bol c t q u v ⟨hinv, ht⟩ hlexeme
    have hne : u ≠ [] := by
      have : ((lexer mode extended).lexeme s bol (c :: t)).2.1 ≠ [] := lexer_progress s bol c t
      rwa [hlexeme] at this
    have happend : u ++ v = c :: t := by
      have := Flex.lexeme_append (M := lexer mode extended) s bol (c :: t)
      rwa [hlexeme] at this
    refine ⟨?_, hsafe bol u v hne (happend ▸ ht)⟩
    intro s' hs'
    obtain ⟨s₀, rfl, hact⟩ := Option.bind_eq_some_iff.mp hs'
    have h₀ := hinv s₀ rfl
    have hcount : KeysInv P (s₀.countLines u) := ⟨h₀.current, h₀.ended⟩
    cases q with
    | none => exact Option.some.inj hact ▸ hcount
    | some q =>
        obtain ⟨-, htakes, -⟩ := Flex.lexeme_some hlexeme
        have hfront : Front (s₀.countLines u).cond bol q u v := front_of_takes htakes
        refine hcount.action hput hfront ?_ hact
        intro hq
        cases hfront with
        | marker hm hbol => exact hfresh q u _ hm hq (hbol ▸ happend ▸ ht)
        | cuts _ hcuts => rcases hq with rfl | rfl <;> simp at hcuts
        | _ => simp at hq
  obtain ⟨r, b, hscan, hend, -⟩ := Flex.scan_invariant lexer_progress
    (fun s bol t => (∀ s', s = some s' → KeysInv P s') ∧ Safe bol t) hstep
    (s := some s) ⟨fun s' hs => Option.some.inj hs ▸ h, ht⟩
  rw [scanFrom, hscan] at hrun
  exact hend s' hrun

end

end EDDTs.Pan
