import EDDTs.LtpLib.TstPrint
import EDDTs.Pan.CutsTable
import Mathlib.Data.List.Perm.Basic

/-!
# The status of a cuts test

The results that a test prints with `tst_print` go through the lexer into the table of
`cuts_testcase` and from there into the report of `cuts_report`. `strttype` prints `TFAIL`
where the table of `worst_case` has `FAIL`, so that no printed result is in that table and
the last result stands where the worst should.
-/

namespace EDDTs.Pan

open Library Boards LtpLib Scan

/-! ### Printed results in the lexer -/

/-- The output of a test that prints some results. -/
def printed (rs : List TstResult) : Text := rs.flatMap fun r => (tstPrint r).getD []

/-- The lexer is at the start of the output of a cuts test. -/
structure Scanner.AtCutsOutput (s : Scanner) : Prop where
  cond : s.cond = .cuts
  ctag : s.ctag = some (.dir [])

/-- A result in the form that the lexer reads. -/
structure Readable (r : TstResult) : Prop where
  word : IsRun isWordChar r.tcid
  number : 0 ≤ r.tnum

/-- A result inside of the output of one test: it is printed, none of its lines is one of the
marks around the output, and only its first line can be taken for a result. -/
structure InTest (r : TstResult) : Prop where
  printed : r.Printed
  no_marker : ∀ l ∈ lines r.line, ∀ q, marker q ≠ some l
  one_result : ∀ l ∈ (lines r.line).tail, ∀ tcid tc type u, CutsText tcid tc type u → ¬ u <+: l

/-- The key of a result fits its buffer. -/
def ShortKey (r : TstResult) : Prop := (r.tcid ++ txt "," ++ intText r.tnum).length < keySize

instance (r : TstResult) : Decidable (ShortKey r) := inferInstanceAs (Decidable (_ < _))

section Lexing

variable {mode : ReporterMode} {extended : Bool} {s : Scanner} {r : TstResult}
  {rs : List TstResult}

theorem printed_cons (h : InTest r) (rs : List TstResult) :
    printed (r :: rs) = r.line ++ '\n' :: printed rs := by
  simp [Pan.printed, tstPrint_eq h.printed, txt]

theorem isRun_strttype (t : TType) : IsRun Char.isAlpha (strttype t) := by
  cases t <;> exact ⟨by decide, by decide⟩

theorem isCase_intText {n : ℤ} (hn : 0 ≤ n) : IsCase (intText n) := by
  obtain ⟨k, rfl⟩ := Int.eq_ofNat_of_zero_le hn
  refine .one ⟨Nat.toDigits_ne_nil, fun c hc => ?_⟩
  exact isDigit_of_mem_natText hc

theorem not_isCase_intText {n : ℤ} (hn : n < 0) : ¬ IsCase (intText n) := by
  obtain ⟨k, rfl⟩ := Int.eq_negSucc_of_lt_zero hn
  have hfirst : ∀ {t : Text}, IsCase t → ∃ c t', t = c :: t' ∧ c.isDigit = true := by
    intro t ht
    cases ht with
    | one hd =>
        obtain ⟨c, t', rfl⟩ := List.exists_cons_of_ne_nil hd.1
        exact ⟨c, t', rfl, hd.2 c (by simp)⟩
    | range hd _ =>
        obtain ⟨c, t', rfl⟩ := List.exists_cons_of_ne_nil hd.1
        exact ⟨c, _, rfl, hd.2 c (by simp)⟩
  intro hcase
  obtain ⟨c, t', heq, hc⟩ := hfirst hcase
  rw [← (List.cons.inj heq).1] at hc
  cases hc

/-- The front of the line of a result is what the rules match. -/
theorem Readable.cutsText (h : Readable r) :
    CutsText r.tcid (intText r.tnum) (strttype r.ttype) r.head := by
  have hblank : ∀ {b : Text}, b ≠ [] → (∀ c ∈ b, c = ' ') → IsRun isBlank b := by
    intro b hne hb
    refine ⟨hne, fun c hc => ?_⟩
    rw [hb c hc]
    rfl
  have hb₁ : IsRun isBlank (List.replicate (8 - r.tcid.length) ' ' ++
      (txt " " ++ List.replicate (4 - (intText r.tnum).length) ' ')) := by
    refine hblank (by simp [txt]) (List.forall_mem_append.mpr ⟨?_, ?_⟩)
    · exact fun c hc => List.eq_of_mem_replicate hc
    · exact List.forall_mem_append.mpr ⟨by decide, fun c hc => List.eq_of_mem_replicate hc⟩
  have hb₂ : IsRun isBlank (txt "  ") := ⟨by decide, by decide⟩
  have htext := CutsText.mk h.word hb₁ (isCase_intText h.number) hb₂ (isRun_strttype r.ttype) hb₂
  simpa [TstResult.head, padRight, padLeft, txt] using htext

theorem marker_no_blank {q : Token} {m : Text} (h : marker q = some m) : ' ' ∉ m := by
  cases q <;> cases h <;> decide

/-- A result of one line is inside of the output. -/
theorem inTest_of_oneLine (h : r.Printed) (htcid : '\n' ∉ r.tcid) (htmesg : '\n' ∉ r.tmesg) :
    InTest r := by
  have hline : '\n' ∉ r.line := by
    simp [TstResult.line, TstResult.head_no_newline htcid, htmesg, txt]
  have hlines := lines_eq_self hline
  refine ⟨h, ?_, ?_⟩
  · rw [hlines]
    intro l hl q hq
    obtain rfl := List.mem_singleton.mp hl
    refine marker_no_blank hq ?_
    simp [TstResult.line, TstResult.head, txt]
  · rw [hlines]
    rintro _ ⟨⟩

theorem Readable.head_no_newline (h : Readable r) : '\n' ∉ r.head :=
  TstResult.head_no_newline fun hmem => absurd (h.word.2 _ hmem) (by decide)

/-- The first line of a result; the lexer skips the others. -/
theorem InTest.exists_firstLine (h : InTest r) :
    ∃ l n, '\n' ∉ l ∧ (∀ q, marker q ≠ some l) ∧ ('\n' ∉ r.head → r.head <+: l) ∧
      ∀ v, ∃ w, r.line ++ '\n' :: v = l ++ '\n' :: w ∧
        ∀ {mode extended} {s : Scanner}, s.cond = .cuts →
          scanFrom mode extended (some s) true w =
            scanFrom mode extended (some { s with yylineno := s.yylineno + n }) true v := by
  obtain ⟨-, hmarker, hresult⟩ := h
  rcases firstLine_cases r.line with ⟨hnl, hlines⟩ | ⟨l, rest, hnl, hline, hlines⟩
  · rw [hlines] at hmarker
    exact ⟨r.line, 0, hnl, hmarker _ (by simp), fun _ => r.head_prefix,
      fun v => ⟨v, rfl, fun _ => rfl⟩⟩
  · rw [hlines] at hmarker hresult
    obtain ⟨hl, hrest⟩ := List.forall_mem_cons.mp hmarker
    refine ⟨l, (lines rest).length, hnl, hl, fun hhead => ?_, fun v => ⟨rest ++ '\n' :: v, ?_, ?_⟩⟩
    · exact prefix_of_append_newline hhead (hline ▸ r.head_prefix)
    · rw [hline, List.append_assoc, List.cons_append]
    · intro mode extended s hcond
      exact scanFrom_otherLines hcond hrest hresult v

/-- A result in the lexer, whether it is read or not. -/
theorem scanFrom_line (mode : ReporterMode) (extended : Bool) (h : InTest r)
    (hcond : s.cond = .cuts) {t : Table} (hctag : s.ctag = some t) (hkeys : ResultKeys t) :
    ∃ o : Option Scanner, (∀ v, scanFrom mode extended (some s) true (r.line ++ '\n' :: v) =
      scanFrom mode extended o true v) ∧ ∀ s' ∈ o, s'.cond = .cuts ∧
        s'.yytextIs = s.yytextIs ∧ (∃ t', s'.ctag = some t' ∧ ResultKeys t') ∧
          (Readable r → ShortKey r ∧ s.yytextIs = .array) := by
  obtain ⟨l, n, hnl, hmarker, hhead, hsplit⟩ := h.exists_firstLine
  by_cases hfront : ∃ tcid tc type u, CutsText tcid tc type u ∧ u <+: l
  · obtain ⟨tcid, tc, type, u, htext, rest, rfl⟩ := hfront
    have hrest : '\n' ∉ rest := fun hmem => hnl (List.mem_append_right u hmem)
    refine ⟨(cutsTestcase s.yytextIs s.ctag u).map fun ctag =>
      { s with ctag, yylineno := s.yylineno + 1 + n }, fun v => ?_, ?_⟩
    · obtain ⟨w, hline, hskip⟩ := hsplit v
      rw [hline, List.append_assoc, scanFrom_resultLine hcond htext hrest]
      cases cutsTestcase s.yytextIs s.ctag u with
      | none => rw [Option.map_none, Option.map_none, scanFrom_none, scanFrom_none]
      | some ctag =>
          rw [Option.map_some, Option.map_some]
          exact hskip (s := { s with ctag, yylineno := s.yylineno + 1 }) hcond
    · intro s' hs'
      have harray : s.yytextIs = .array := by
        cases harray : s.yytextIs with
        | array => rfl
        | pointer => rw [harray, cutsTestcase] at hs'; cases hs'
      rw [harray, hctag, cutsTestcase_eq htext] at hs'
      split_ifs at hs' with hlong
      · cases hs'
      · obtain rfl := Option.some.inj hs'
        refine ⟨hcond, harray.symm,
          ⟨_, rfl, resultKeys_recordCase hkeys htext.isRun_tcid htext.isCase_tc⟩, ?_⟩
        intro hread
        have hsame : u = r.head := by
          obtain ⟨rest', hrest'⟩ := hhead hread.head_no_newline
          exact hread.cutsText.unique htext hrest'.symm
        have htokens := htext.splitstr_eq.symm.trans (hsame ▸ hread.cutsText.splitstr_eq)
        obtain ⟨rfl, rfl, -⟩ : tcid = r.tcid ∧ tc = intText r.tnum ∧ type = strttype r.ttype := by
          simpa using htokens
        exact ⟨Nat.not_le.mp hlong, harray⟩
  · refine ⟨some { s with yylineno := s.yylineno + 1 + n }, fun v => ?_, ?_⟩
    · obtain ⟨w, hline, hskip⟩ := hsplit v
      rw [hline, scanFrom_otherLine hcond hnl hmarker fun tcid tc type u htext hbegins =>
        hfront ⟨tcid, tc, type, u, htext, hbegins⟩]
      exact hskip (s := { s with yylineno := s.yylineno + 1 }) hcond
    · intro s' hs'
      obtain rfl := Option.some.inj hs'
      refine ⟨hcond, rfl, ⟨t, hctag, hkeys⟩, fun hread => ?_⟩
      exact absurd ⟨_, _, _, _, hread.cutsText, hhead hread.head_no_newline⟩ hfront

/-- A readable result is recorded. -/
theorem scanFrom_readable (mode : ReporterMode) (extended : Bool) (h : InTest r)
    (hread : Readable r) (hshort : ShortKey r) (harray : s.yytextIs = .array)
    (hcond : s.cond = .cuts) {es : List (Text × Table)} (hctag : s.ctag = some (.dir es))
    (hes : Holds (fun _ _ v => v ∉ worst) es) :
    ∃ n, ∀ v, scanFrom mode extended (some s) true (r.line ++ '\n' :: v) =
      scanFrom mode extended (some { s with
        ctag := some ((OrderedTree.dir es).insert [r.tcid, intText r.tnum]
          (.leaf (some (strttype r.ttype))))
        yylineno := n }) true v := by
  obtain ⟨l, n, hnl, -, hhead, hsplit⟩ := h.exists_firstLine
  obtain ⟨rest, rfl⟩ := hhead hread.head_no_newline
  have hrest : '\n' ∉ rest := fun hmem => hnl (List.mem_append_right r.head hmem)
  refine ⟨s.yylineno + 1 + n, fun v => ?_⟩
  obtain ⟨w, hline, hskip⟩ := hsplit v
  rw [hline, List.append_assoc, scanFrom_resultLine hcond hread.cutsText hrest, harray,
    hctag, cutsTestcase_eq hread.cutsText, if_neg (Nat.not_le.mpr hshort),
    recordCase_eq hes hread.word (isCase_intText hread.number), Option.map_some]
  exact hskip hcond

/-- What the lexer has read of the results. -/
theorem scanFrom_printed_keys (h : ∀ r ∈ rs, InTest r) (hcond : s.cond = .cuts) {t : Table}
    (hctag : s.ctag = some t) (hkeys : ResultKeys t) {s' : Scanner}
    (hscan : scanFrom mode extended (some s) true (printed rs) = some s') :
    (∃ t', s'.ctag = some t' ∧ ResultKeys t') ∧
      ∀ r ∈ rs, Readable r → ShortKey r ∧ s.yytextIs = .array := by
  induction rs generalizing s t with
  | nil =>
      rw [printed, List.flatMap_nil, scanFrom_nil] at hscan
      obtain rfl := Option.some.inj hscan
      exact ⟨⟨t, hctag, hkeys⟩, by simp⟩
  | cons r rs ih =>
      obtain ⟨hr, hrs⟩ := List.forall_mem_cons.mp h
      obtain ⟨o, hline, ho⟩ := scanFrom_line mode extended hr hcond hctag hkeys
      rw [printed_cons hr, hline] at hscan
      cases o with
      | none =>
          rw [scanFrom_none] at hscan
          cases hscan
      | some s₁ =>
          obtain ⟨hcond₁, hyytext, ⟨t₁, hctag₁, hkeys₁⟩, hshort⟩ := ho s₁ rfl
          obtain ⟨htable, hrest⟩ := ih hrs hcond₁ hctag₁ hkeys₁ hscan
          rw [hyytext] at hrest
          exact ⟨htable, List.forall_mem_cons.mpr ⟨hshort, hrest⟩⟩

/-- The table with a result more. -/
def putResult (t : Table) (r : TstResult) : Table :=
  t.insert [r.tcid, intText r.tnum] (.leaf (some (strttype r.ttype)))

theorem strttype_not_mem_worst (t : TType) : strttype t ∉ worst := by cases t <;> decide

/-- The lexer records readable results one after the other. -/
theorem scanFrom_printed (mode : ReporterMode) (extended : Bool) (h : ∀ r ∈ rs, InTest r)
    (hread : ∀ r ∈ rs, Readable r)
    (hshort : ∀ r ∈ rs, ShortKey r) (harray : rs ≠ [] → s.yytextIs = .array)
    (hcond : s.cond = .cuts) {es : List (Text × Table)} (hctag : s.ctag = some (.dir es))
    (hes : Holds (fun _ _ v => v ∉ worst) es) :
    ∃ n, scanFrom mode extended (some s) true (printed rs) =
      some { s with ctag := some (rs.foldl putResult (.dir es)), yylineno := n } := by
  induction rs generalizing s es with
  | nil =>
      refine ⟨s.yylineno, ?_⟩
      rw [printed, List.flatMap_nil, scanFrom_nil, List.foldl_nil, ← hctag]
  | cons r rs ih =>
      obtain ⟨hr, hrs⟩ := List.forall_mem_cons.mp h
      obtain ⟨hread, hreads⟩ := List.forall_mem_cons.mp hread
      obtain ⟨hshort, hshorts⟩ := List.forall_mem_cons.mp hshort
      obtain ⟨es', hput, hes'⟩ : ∃ es', putResult (.dir es) r = .dir es' ∧
          Holds (fun _ _ v => v ∉ worst) es' := hes.insert (strttype_not_mem_worst r.ttype)
      obtain ⟨k, hline⟩ := scanFrom_readable mode extended hr hread hshort
        (harray (List.cons_ne_nil r rs)) hcond hctag hes
      obtain ⟨n, hrest⟩ := ih (s := { s with ctag := some (.dir es'), yylineno := k }) hrs hreads
        hshorts (fun _ => harray (List.cons_ne_nil r rs)) hcond rfl hes'
      refine ⟨n, ?_⟩
      rw [← putResult, hput] at hline
      rw [printed_cons hr, hline, hrest, List.foldl_cons, hput]

end Lexing

/-! ### The table of the results -/

section Table

variable {rs : List TstResult} {r : TstResult} {tcid tc : Text}

open OrderedTree

/-- The table after some results. -/
def tableAfter (rs : List TstResult) : Table := rs.foldl putResult (.dir [])

/-- A result is what was printed for its test case. -/
def Stored (rs : List TstResult) (tcid tc type : Text) : Prop :=
  ∃ r ∈ rs, r.tcid = tcid ∧ intText r.tnum = tc ∧ strttype r.ttype = type

theorem tableAfter_concat (rs : List TstResult) (r : TstResult) :
    tableAfter (rs ++ [r]) = putResult (tableAfter rs) r := by
  rw [tableAfter, List.foldl_append]
  rfl

theorem tableAfter_holds (rs : List TstResult) :
    ∃ es, tableAfter rs = .dir es ∧ Holds (Stored rs) es := by
  induction rs using List.reverseRecOn with
  | nil => exact ⟨[], rfl, by simp [Holds]⟩
  | append_singleton rs r ih =>
      obtain ⟨es, heq, hes⟩ := ih
      have hmono : Holds (Stored (rs ++ [r])) es := hes.mono fun k c v ⟨x, hx, h⟩ =>
        ⟨x, List.mem_append_left _ hx, h⟩
      rw [tableAfter_concat, heq]
      exact hmono.insert ⟨r, by simp, rfl, rfl, rfl⟩

/-- The last result of a test case is the one that is recorded. -/
theorem get_tableAfter_concat (rs : List TstResult) (r : TstResult) :
    (tableAfter (rs ++ [r])).get [r.tcid, intText r.tnum] =
      some (.leaf (some (strttype r.ttype))) := by
  obtain ⟨es, heq, hes⟩ := tableAfter_holds rs
  rw [tableAfter_concat, heq]
  exact get_insert_self _ (hes.not_blocked _ _)

/-- Every result has a record, of a result of the same test case. -/
theorem get_tableAfter (hr : r ∈ rs) :
    ∃ r' ∈ rs, r'.tcid = r.tcid ∧ intText r'.tnum = intText r.tnum ∧
      (tableAfter rs).get [r.tcid, intText r.tnum] = some (.leaf (some (strttype r'.ttype))) := by
  induction rs using List.reverseRecOn with
  | nil => cases hr
  | append_singleton rs x ih =>
      by_cases hkey : [x.tcid, intText x.tnum] = [r.tcid, intText r.tnum]
      · obtain ⟨htcid, htc⟩ : x.tcid = r.tcid ∧ intText x.tnum = intText r.tnum := by
          simpa using hkey
        exact ⟨x, by simp, htcid, htc, hkey ▸ get_tableAfter_concat rs x⟩
      · have hmem : r ∈ rs := by
          rcases List.mem_append.mp hr with hr | hr
          · exact hr
          · rw [List.mem_singleton.mp hr] at hkey
            exact absurd rfl hkey
        obtain ⟨r', hr', htcid, htc, hget⟩ := ih hmem
        refine ⟨r', List.mem_append_left _ hr', htcid, htc, ?_⟩
        rw [tableAfter_concat, putResult, get_insert_other _ _
          (fun hp => hkey (hp.eq_of_length rfl)) fun hp => hkey (hp.eq_of_length rfl).symm]
        exact hget

variable {es cs : List (Text × Table)} {A B C : List TstResult}

theorem putResult_last (htcid : r.tcid ∉ es.map Prod.fst) :
    putResult (.dir (es ++ [(r.tcid, .dir cs)])) r = .dir (es ++
      [(r.tcid, (OrderedTree.dir cs).insert [intText r.tnum] (.leaf (some (strttype r.ttype))))]) :=
  insert_last htcid _ _ _

/-- A new tcid starts without cases. -/
theorem putResult_new (htcid : r.tcid ∉ es.map Prod.fst) :
    putResult (.dir es) r = putResult (.dir (es ++ [(r.tcid, .dir [])])) r := by
  rw [putResult_last htcid]
  exact insert_new htcid _ _

/-- Results of other cases of the last tcid leave a case new. -/
theorem foldl_otherCases (htcid : tcid ∉ es.map Prod.fst) (htc : tc ∉ cs.map Prod.fst)
    (hB : ∀ x ∈ B, x.tcid = tcid ∧ intText x.tnum ≠ tc) :
    ∃ cs', B.foldl putResult (.dir (es ++ [(tcid, .dir cs)])) = .dir (es ++ [(tcid, .dir cs')]) ∧
      tc ∉ cs'.map Prod.fst := by
  induction B generalizing cs with
  | nil => exact ⟨cs, rfl, htc⟩
  | cons x B ih =>
      obtain ⟨⟨rfl, hx⟩, hB⟩ := List.forall_mem_cons.mp hB
      have hkeys := keys_insert cs (intText x.tnum) [] (.leaf (some (strttype x.ttype)))
      rw [List.foldl_cons, putResult_last htcid]
      cases hinsert : (OrderedTree.dir cs).insert [intText x.tnum]
          (.leaf (some (strttype x.ttype))) with
      | leaf v =>
          cases hentry : entry cs (intText x.tnum) <;>
            simp [OrderedTree.insert, hentry] at hinsert
      | dir cs₁ =>
          refine ih ?_ hB
          rw [hinsert] at hkeys
          change cs₁.map Prod.fst = appendNew (cs.map Prod.fst) (intText x.tnum) at hkeys
          rw [hkeys, appendNew]
          split_ifs
          · exact htc
          · simp [htc, Ne.symm hx]

/-- Results of the last case take its place. -/
theorem foldl_sameCase (htcid : tcid ∉ es.map Prod.fst) (htc : tc ∉ cs.map Prod.fst)
    (hC : ∀ x ∈ C, x.tcid = tcid ∧ intText x.tnum = tc) (hne : C ≠ []) :
    ∃ x ∈ C, C.foldl putResult (.dir (es ++ [(tcid, .dir cs)])) =
      .dir (es ++ [(tcid, .dir (cs ++ [(tc, .leaf (some (strttype x.ttype)))]))]) := by
  induction C using List.reverseRecOn with
  | nil => exact absurd rfl hne
  | append_singleton C x ih =>
      obtain ⟨hC, hx⟩ := List.forall_mem_append.mp hC
      obtain ⟨rfl, rfl⟩ := List.forall_mem_singleton.mp hx
      refine ⟨x, by simp, ?_⟩
      rw [List.foldl_append, List.foldl_cons, List.foldl_nil]
      by_cases hnil : C = []
      · rw [hnil, List.foldl_nil, putResult_last htcid, insert_new htc]
        rfl
      · obtain ⟨y, -, hy⟩ := ih hC hnil
        rw [hy, putResult_last htcid, insert_last htc]
        rfl

/-- An order in which the results of a test case come last, behind those of its tcid. -/
theorem tableAfter_last (hA : ∀ x ∈ A, x.tcid ≠ tcid)
    (hB : ∀ x ∈ B, x.tcid = tcid ∧ intText x.tnum ≠ tc)
    (hC : ∀ x ∈ C, x.tcid = tcid ∧ intText x.tnum = tc) (hne : C ≠ []) :
    ∃ es cs, ∃ x ∈ C, tableAfter (A ++ (B ++ C)) =
      .dir (es ++ [(tcid, .dir (cs ++ [(tc, .leaf (some (strttype x.ttype)))]))]) := by
  obtain ⟨es, hes, hstored⟩ := tableAfter_holds A
  have htcid : tcid ∉ es.map Prod.fst := by
    intro hmem
    obtain ⟨e, he, rfl⟩ := List.mem_map.mp hmem
    obtain ⟨cs, -, hcs, hv⟩ := hstored e he
    obtain ⟨c, hc⟩ := List.exists_mem_of_ne_nil cs hcs
    obtain ⟨v, -, x, hx, heq, -⟩ := hv c hc
    exact hA x hx heq
  have hstart : (B ++ C).foldl putResult (.dir es) =
      (B ++ C).foldl putResult (.dir (es ++ [(tcid, .dir [])])) := by
    cases hBC : B ++ C with
    | nil => exact absurd (List.append_eq_nil_iff.mp hBC).2 hne
    | cons x D =>
        have hx : x.tcid = tcid := by
          have hmem : x ∈ B ++ C := by simp [hBC]
          rcases List.mem_append.mp hmem with h | h
          · exact (hB x h).1
          · exact (hC x h).1
        subst hx
        rw [List.foldl_cons, List.foldl_cons, putResult_new htcid]
  have hnew : tc ∉ ([] : List (Text × Table)).map Prod.fst := by simp
  obtain ⟨cs, hcs, htc⟩ := foldl_otherCases htcid hnew hB
  obtain ⟨x, hx, hlast⟩ := foldl_sameCase htcid htc hC hne
  refine ⟨es, cs, x, hx, ?_⟩
  rw [tableAfter, List.foldl_append, ← tableAfter, hes, hstart, List.foldl_append, hcs, hlast]

/-- The results that are reported are results that were printed. -/
theorem mem_reportedValues (hes : Holds (Stored rs) es) {v : Text} (hv : v ∈ reportedValues es) :
    ∃ r ∈ rs, r.tcid ≠ txt "_keys" ∧ strttype r.ttype = v := by
  obtain ⟨e, he, hv⟩ := List.mem_flatMap.mp hv
  split_ifs at hv with hkeys
  · cases hv
  · obtain ⟨cs, hcs, -, hcases⟩ := hes e he
    rw [hcs] at hv
    obtain ⟨c, hc, hstring⟩ := List.mem_filterMap.mp hv
    obtain ⟨v', hleaf, r, hr, htcid, -, htype⟩ := hcases c hc
    rw [hleaf] at hstring
    exact ⟨r, hr, htcid ▸ hkeys, htype.trans (Option.some.inj hstring)⟩

/-- A result is reported, unless its tcid is that of the keys. -/
theorem reportedValues_ne_nil (heq : tableAfter rs = .dir es) (hr : r ∈ rs)
    (hkeys : r.tcid ≠ txt "_keys") : reportedValues es ≠ [] := by
  obtain ⟨r', -, -, -, hget⟩ := get_tableAfter hr
  rw [heq, get_dir_cons] at hget
  obtain ⟨t, hentry, hget⟩ := Option.bind_eq_some_iff.mp hget
  cases t with
  | leaf v => cases hget
  | dir cs =>
      rw [get_dir_cons] at hget
      obtain ⟨y, hentry', hy⟩ := Option.bind_eq_some_iff.mp hget
      rw [get_nil] at hy
      obtain rfl := Option.some.inj hy
      have hmem : strttype r'.ttype ∈ reportedValues es := by
        refine List.mem_flatMap.mpr ⟨_, mem_of_entry hentry, ?_⟩
        rw [if_neg hkeys]
        exact List.mem_filterMap.mpr ⟨_, mem_of_entry hentry', rfl⟩
      exact List.ne_nil_of_mem hmem

end Table

/-! ### The worst result -/

/-- The place of a result in the order FAIL, BROK, PASS, CONF, WARN, INFO. -/
def badness : TType → ℕ
  | .fail => 0
  | .brok => 1
  | .pass => 2
  | .conf => 3
  | .warn => 4
  | .info => 5

/-- The worst of some results. -/
def IsWorst (rs : List TstResult) (t : TType) : Prop :=
  (∃ r ∈ rs, r.ttype = t) ∧ ∀ r ∈ rs, badness t ≤ badness r.ttype

/-- The results of the test case of a result. -/
def sameCase (rs : List TstResult) (r : TstResult) : List TstResult :=
  rs.filter fun r' => r'.tcid = r.tcid ∧ r'.tnum = r.tnum

/-- The statuses are right: for every test case the worst of its results is recorded, and the
worst of all results is reported. -/
def StatusRight (mode : ReporterMode) (extended : Bool) (s : Scanner) (rs : List TstResult) :
    Prop :=
  ∃ s' table, scanFrom mode extended (some s) true (printed rs) = some s' ∧ s'.ctag = some table ∧
    (∀ r ∈ rs, ∃ t, IsWorst (sameCase rs r) t ∧
      table.get [r.tcid, intText r.tnum] = some (.leaf (some (strttype t)))) ∧
    ∀ t, IsWorst rs t → ∀ keys tag,
      cutsOverall (withKeys table keys) keys tag = some (strttype t) ∧
        ∀ at_ lines, cutsReport (withKeys table keys) keys at_ tag = some lines →
          ReportsTotal tag keys (strttype t) lines

/-- The results are such that the last of them is as bad as any: they are in the form that is
read, and the results of a test case, and all results that are reported, have one type. -/
structure OneVerdict (rs : List TstResult) : Prop where
  readable : ∀ r ∈ rs, Readable r
  short : ∀ r ∈ rs, ShortKey r
  cases : ∀ r ∈ rs, ∀ r' ∈ rs, r'.tcid = r.tcid → r'.tnum = r.tnum → r'.ttype = r.ttype
  reported : ∀ t, IsWorst rs t → (∃ r ∈ rs, r.tcid ≠ txt "_keys") ∧
    ∀ r ∈ rs, r.tcid ≠ txt "_keys" → r.ttype = t

section Status

variable {mode : ReporterMode} {extended : Bool} {s : Scanner} {rs rs' : List TstResult}
  {r : TstResult} {t t' : TType}

theorem strttype_injective : Function.Injective strttype := by
  intro t t' h
  cases t <;> cases t' <;> first | rfl | exact absurd h (by decide)

theorem badness_injective : Function.Injective badness := by
  intro t t' h
  cases t <;> cases t' <;> first | rfl | exact absurd h (by decide)

theorem IsWorst.perm (hperm : rs'.Perm rs) (h : IsWorst rs' t) : IsWorst rs t := by
  obtain ⟨⟨r, hr, ht⟩, hle⟩ := h
  exact ⟨⟨r, hperm.mem_iff.mp hr, ht⟩, fun x hx => hle x (hperm.mem_iff.mpr hx)⟩

theorem mem_sameCase {x : TstResult} :
    x ∈ sameCase rs r ↔ x ∈ rs ∧ x.tcid = r.tcid ∧ x.tnum = r.tnum := by
  simp [sameCase]

theorem intText_inj {m n : ℤ} (hm : 0 ≤ m) (hn : 0 ≤ n) (h : intText m = intText n) : m = n := by
  obtain ⟨a, rfl⟩ := Int.eq_ofNat_of_zero_le hm
  obtain ⟨b, rfl⟩ := Int.eq_ofNat_of_zero_le hn
  exact congrArg _ (natText_injective h)

/-- The statuses as the table has them. -/
structure TableRight (rs : List TstResult) : Prop where
  recorded : ∀ r ∈ rs, ∃ t, IsWorst (sameCase rs r) t ∧
    (tableAfter rs).get [r.tcid, intText r.tnum] = some (.leaf (some (strttype t)))
  overall : ∀ t, IsWorst rs t → ∀ keys tag,
    cutsOverall (withKeys (tableAfter rs) keys) keys tag = some (strttype t)

/-- For readable results the lexer may be left out. -/
theorem statusRight_iff (hs : s.AtCutsOutput) (h : ∀ r ∈ rs, InTest r)
    (hread : ∀ r ∈ rs, Readable r) (hshort : ∀ r ∈ rs, ShortKey r)
    (harray : rs ≠ [] → s.yytextIs = .array) :
    StatusRight mode extended s rs ↔ TableRight rs := by
  obtain ⟨n, hscan⟩ :=
    scanFrom_printed mode extended h hread hshort harray hs.cond hs.ctag (by simp [Holds])
  constructor
  · rintro ⟨s', table, hscan', htable, hrecorded, hoverall⟩
    obtain rfl := Option.some.inj (hscan.symm.trans hscan')
    obtain rfl := Option.some.inj htable
    exact ⟨hrecorded, fun t ht keys tag => (hoverall t ht keys tag).1⟩
  · intro hright
    refine ⟨_, _, hscan, rfl, hright.recorded, fun t ht keys tag => ?_⟩
    have hoverall := hright.overall t ht keys tag
    exact ⟨hoverall, fun at_ lines hreport => cutsReport_total hreport hoverall⟩

/-- The overall result of readable results is the last in the table. -/
theorem cutsOverall_tableAfter (hshort : ∀ r ∈ rs, ShortKey r) {es : List (Text × Table)}
    (heq : tableAfter rs = .dir es) (hes : Holds (Stored rs) es) (keys : Table) (tag : Text) :
    cutsOverall (withKeys (tableAfter rs) keys) keys tag =
      some ((reportedValues es).getLastD []) := by
  rw [heq]
  refine cutsOverall_eq (hes.mono fun k c v hstored => ?_) keys tag
  obtain ⟨r, hr, rfl, -, rfl⟩ := hstored
  refine ⟨?_, strttype_not_mem_worst r.ttype⟩
  have := hshort r hr
  simp only [ShortKey, List.length_append] at this
  omega

/-- Results of one type are recorded and reported as they are. -/
theorem OneVerdict.tableRight (hone : OneVerdict rs) : TableRight rs where
  recorded := by
    intro r hr
    obtain ⟨r', hr', htcid, htc, hget⟩ := get_tableAfter hr
    have hnum := intText_inj (hone.readable r' hr').number (hone.readable r hr).number htc
    rw [hone.cases r hr r' hr' htcid hnum] at hget
    refine ⟨r.ttype, ⟨⟨r, mem_sameCase.mpr ⟨hr, rfl, rfl⟩, rfl⟩, fun x hx => ?_⟩, hget⟩
    obtain ⟨hx, hxtcid, hxnum⟩ := mem_sameCase.mp hx
    rw [hone.cases r hr x hx hxtcid hxnum]
  overall := by
    intro t ht keys tag
    obtain ⟨⟨r, hr, hkeys⟩, htype⟩ := hone.reported t ht
    obtain ⟨es, heq, hes⟩ := tableAfter_holds rs
    have hall : ∀ v ∈ reportedValues es, v = strttype t := by
      intro v hv
      obtain ⟨x, hx, hxkeys, rfl⟩ := mem_reportedValues hes hv
      rw [htype x hx hxkeys]
    have hlast : (reportedValues es).getLastD [] = strttype t := by
      rw [List.getLastD_eq_getLast?, List.getLast?_eq_some_getLast
        (reportedValues_ne_nil heq hr hkeys), Option.getD_some]
      exact hall _ (List.getLast_mem _)
    rw [cutsOverall_tableAfter hone.short heq hes, hlast]

theorem OneVerdict.perm (hperm : rs'.Perm rs) (hone : OneVerdict rs) : OneVerdict rs' := by
  have hmem : ∀ {x : TstResult}, x ∈ rs' ↔ x ∈ rs := hperm.mem_iff
  refine ⟨fun r hr => hone.readable r (hmem.mp hr), fun r hr => hone.short r (hmem.mp hr),
    fun r hr r' hr' => hone.cases r (hmem.mp hr) r' (hmem.mp hr'), fun t ht => ?_⟩
  obtain ⟨⟨r, hr, hkeys⟩, htype⟩ := hone.reported t (ht.perm hperm)
  exact ⟨⟨r, hmem.mpr hr, hkeys⟩, fun x hx => htype x (hmem.mp hx)⟩

/-- What is recorded was readable, and the lexer's `yytext` an array. -/
theorem StatusRight.readable (hs : s.AtCutsOutput) (h : ∀ r ∈ rs, InTest r)
    (hright : StatusRight mode extended s rs) :
    (∀ r ∈ rs, Readable r) ∧ (∀ r ∈ rs, ShortKey r) ∧ (rs ≠ [] → s.yytextIs = .array) := by
  obtain ⟨s', table, hscan, htable, hrecorded, -⟩ := hright
  have hempty : ResultKeys (.dir []) := fun tcid tc x hget => by
    rw [OrderedTree.get_dir_cons] at hget
    cases hget
  obtain ⟨⟨t', ht', hkeys⟩, hshort⟩ := scanFrom_printed_keys h hs.cond hs.ctag hempty hscan
  obtain rfl := Option.some.inj (ht'.symm.trans htable)
  have hread : ∀ r ∈ rs, Readable r := by
    intro r hr
    obtain ⟨t, -, hget⟩ := hrecorded r hr
    obtain ⟨hword, hcase⟩ := hkeys _ _ _ hget
    exact ⟨hword, not_lt.mp fun hneg => not_isCase_intText hneg hcase⟩
  refine ⟨hread, fun r hr => (hshort r hr (hread r hr)).1, fun hne => ?_⟩
  obtain ⟨r, hr⟩ := List.exists_mem_of_ne_nil rs hne
  exact (hshort r hr (hread r hr)).2

/-- In the order in which a result comes last, it is the worst of its test case. -/
theorem isWorst_of_tableRight (hr : r ∈ rs) (hall : ∀ rs', rs'.Perm rs → TableRight rs') :
    IsWorst (sameCase rs r) r.ttype := by
  have hperm : (rs.erase r ++ [r]).Perm rs :=
    (List.perm_append_singleton r _).trans (List.perm_cons_erase hr).symm
  obtain ⟨t, ht, hget⟩ := (hall _ hperm).recorded r (by simp)
  rw [get_tableAfter_concat] at hget
  obtain rfl : r.ttype = t := strttype_injective (by simpa using hget)
  exact ht.perm (hperm.filter _)

/-- The order in which a test case comes last, behind the others of its tcid. -/
theorem exists_lastCase (rs : List TstResult) (r : TstResult) :
    ∃ A B C : List TstResult, (A ++ (B ++ C)).Perm rs ∧ (∀ x ∈ A, x.tcid ≠ r.tcid) ∧
      (∀ x ∈ B, x.tcid = r.tcid ∧ x.tnum ≠ r.tnum) ∧
      ∀ x, x ∈ C ↔ x ∈ rs ∧ x.tcid = r.tcid ∧ x.tnum = r.tnum := by
  let p : TstResult → Bool := fun x => x.tcid ≠ r.tcid
  let q : TstResult → Bool := fun x => x.tnum ≠ r.tnum
  let D := rs.filter fun x => !p x
  have hD : ∀ x, x ∈ D ↔ x ∈ rs ∧ x.tcid = r.tcid := by simp [D, p]
  refine ⟨rs.filter p, D.filter q, D.filter fun x => !q x, ?_, by simp [p], ?_, ?_⟩
  · exact ((List.filter_append_perm q D).append_left _).trans (List.filter_append_perm p rs)
  · intro x hx
    obtain ⟨hx, hnum⟩ := List.mem_filter.mp hx
    exact ⟨((hD x).mp hx).2, by simpa [q] using hnum⟩
  · intro x
    rw [List.mem_filter, hD, and_assoc]
    simp [q]

/-- In the order in which its test case is the last of the table, a result is reported. -/
theorem eq_of_tableRight (hread : ∀ r ∈ rs, Readable r) (hshort : ∀ r ∈ rs, ShortKey r)
    (hcases : ∀ r ∈ rs, ∀ r' ∈ rs, r'.tcid = r.tcid → r'.tnum = r.tnum → r'.ttype = r.ttype)
    (hall : ∀ rs', rs'.Perm rs → TableRight rs') (hr : r ∈ rs) (hkeys : r.tcid ≠ txt "_keys")
    (ht : IsWorst rs t) : r.ttype = t := by
  obtain ⟨A, B, C, hperm, hA, hB, hC⟩ := exists_lastCase rs r
  have hmem : r ∈ C := (hC r).mpr ⟨hr, rfl, rfl⟩
  have hB' : ∀ x ∈ B, x.tcid = r.tcid ∧ intText x.tnum ≠ intText r.tnum := by
    intro x hx
    have hxrs : x ∈ rs := hperm.mem_iff.mp (by simp [hx])
    refine ⟨(hB x hx).1, fun heq => (hB x hx).2 ?_⟩
    exact intText_inj (hread x hxrs).number (hread r hr).number heq
  have hC' : ∀ x ∈ C, x.tcid = r.tcid ∧ intText x.tnum = intText r.tnum := by
    intro x hx
    obtain ⟨-, htcid, hnum⟩ := (hC x).mp hx
    exact ⟨htcid, by rw [hnum]⟩
  obtain ⟨es, cs, x, hx, heq⟩ := tableAfter_last hA hB' hC' (List.ne_nil_of_mem hmem)
  obtain ⟨es', heq', hes'⟩ := tableAfter_holds (A ++ (B ++ C))
  obtain rfl := OrderedTree.dir.inj (heq.symm.trans heq')
  have hoverall := (hall _ hperm).overall t (ht.perm hperm.symm) (.dir []) []
  rw [cutsOverall_tableAfter (fun x hx => hshort x (hperm.mem_iff.mp hx)) heq' hes'] at hoverall
  obtain ⟨hxrs, htcid, hnum⟩ := (hC x).mp hx
  rw [← hcases r hr x hxrs htcid hnum]
  refine strttype_injective ?_
  simpa [reportedValues, hkeys, caseValues, stringAt] using hoverall

/-- The lexer at the output of a cuts test. -/
private def cutsOutput : Scanner :=
  { Scanner.initial with
    cond := .cuts, mode := .output, ctag := some (.dir []), yytextIs := .array }

private def passedTwice : List TstResult :=
  [⟨txt "mmap01", 1, .pass, txt "mapped"⟩, ⟨txt "mmap01", 2, .pass, txt "unmapped"⟩]

private theorem oneVerdict_passedTwice : OneVerdict passedTwice := by
  refine ⟨?_, by decide, by decide, ?_⟩
  · simp only [passedTwice, List.forall_mem_cons]
    exact ⟨⟨⟨by decide, by decide⟩, by decide⟩, ⟨⟨by decide, by decide⟩, by decide⟩, by simp⟩
  · rintro t ⟨⟨r, hr, rfl⟩, -⟩
    have hpass : ∀ r ∈ passedTwice, r.ttype = .pass := by decide
    refine ⟨⟨_, List.mem_cons_self, by decide⟩, fun x hx _ => ?_⟩
    rw [hpass x hx, hpass r hr]

private def failedThenPassed : List TstResult :=
  [⟨txt "mmap01", 1, .fail, txt "no page"⟩, ⟨txt "mmap01", 1, .pass, txt "mapped"⟩]

end Status

end EDDTs.Pan
