import EDDTs.Pan.ScanCuts

/-!
# The table of a cuts test

`cuts_testcase` keeps the results of a test in a table of tcids, each with a table of test
cases, and `cuts_report` goes over both in the order in which they were first seen.
-/

namespace EDDTs.Pan

open Library

/-! ### The record of a result -/

/-- What `cuts_testcase` does with the parts of a result whose key fits its buffer. -/
def recordCase (t : Table) (tcid tc type : Text) : Table :=
  let key := tcid ++ txt "," ++ tc
  match symText t key with
  | some oldresult => (treePut t (keyPath key) (.leaf (some (worstCase oldresult type))) true).2
  | none => putText t key type

section Record

variable {tcid tc type u : Text}

theorem not_mem_blanks {c : Char} (h : isBlank c = false) : c ∉ ['\t', ' '] := by
  intro hmem
  rcases List.mem_cons.mp hmem with rfl | hmem
  · cases h
  · rw [List.mem_singleton.mp hmem] at h
    cases h

theorem isWordChar_not_blank {c : Char} (h : isWordChar c = true) : isBlank c = false := by
  refine Bool.eq_false_iff.mpr fun hblank => ?_
  rcases Bool.or_eq_true_iff.mp hblank with hc | hc
  all_goals
    rw [of_decide_eq_true hc] at h
    cases h

theorem mem_blanks {c : Char} (h : isBlank c = true) : c ∈ ['\t', ' '] := by
  rcases Bool.or_eq_true_iff.mp h with h | h
  all_goals simp [of_decide_eq_true h]

/-- The token in front of some blanks. -/
theorem splitstr_blanks {a b : Text} (hne : a ≠ []) (ha : ∀ c ∈ a, isWordChar c = true)
    (hb : IsRun isBlank b) (rest : Text) :
    splitstr (a ++ (b ++ rest)) ['\t', ' '] = a :: splitstr rest ['\t', ' '] := by
  obtain ⟨c, b, rfl⟩ := List.exists_cons_of_ne_nil hb.1
  obtain ⟨hc, hb⟩ := List.forall_mem_cons.mp hb.2
  rw [List.cons_append, splitstr_append_sep
    (fun d hd => not_mem_blanks (isWordChar_not_blank (ha d hd))) (mem_blanks hc) hne,
    splitstr_eq_runs, splitstr_eq_runs,
    runs_append_of_forall fun d hd => decide_eq_true (mem_blanks (hb d hd))]

theorem IsCase.ne_nil (h : IsCase tc) : tc ≠ [] := by
  cases h with
  | one hd => exact hd.1
  | range hd hd' => simp

/-- The tokens of a result. -/
theorem CutsText.splitstr_eq (h : CutsText tcid tc type u) :
    splitstr u ['\t', ' '] = [tcid, tc, type, [':']] := by
  cases h with
  | mk htcid hb₁ htc hb₂ htype hb₃ =>
      rw [splitstr_blanks htcid.1 htcid.2 hb₁, splitstr_blanks htc.ne_nil htc.isWordChar hb₂,
        splitstr_blanks htype.1 (htype.mono fun _ => isWordChar_of_isAlpha) hb₃]
      rfl

theorem keyPath_case (htcid : IsRun isWordChar tcid) (htc : IsCase tc) :
    keyPath (tcid ++ txt "," ++ tc) = [tcid, tc] := by
  have hcomma : ∀ {w : Text}, (∀ c ∈ w, isWordChar c = true) → ∀ c ∈ w, c ∉ [','] := by
    intro w hw c hc hmem
    have hword := hw c hc
    rw [List.mem_singleton.mp hmem] at hword
    cases hword
  have htext : tcid ++ txt "," ++ tc = tcid ++ ',' :: tc := by simp [txt]
  rw [keyPath, htext, splitstr_append_sep (hcomma htcid.2) (by simp) htcid.1]
  exact congrArg _ (splitstr_of_forall_not_mem htc.ne_nil (hcomma htc.isWordChar))

/-- `cuts_testcase` on a result. -/
theorem cutsTestcase_eq (h : CutsText tcid tc type u) (t : Table) :
    cutsTestcase .array (some t) u =
      if keySize ≤ (tcid ++ txt "," ++ tc).length then none
      else some (some (recordCase t tcid tc type)) := by
  unfold cutsTestcase recordCase
  rw [h.splitstr_eq]
  dsimp only
  split_ifs
  · rfl
  · cases symText t (tcid ++ txt "," ++ tc) <;> rfl

end Record

/-! ### Tables of results -/

section Tables

variable {es : List (Text × Table)} {tcid tc type : Text}

open OrderedTree

/-- The entries of a table of results, with a property of all results in it. -/
def Holds (P : Text → Text → Text → Prop) (es : List (Text × Table)) : Prop :=
  ∀ e ∈ es, ∃ cs, e.2 = .dir cs ∧ cs ≠ [] ∧ ∀ c ∈ cs, ∃ v, c.2 = .leaf (some v) ∧ P e.1 c.1 v

variable {P : Text → Text → Text → Prop}

theorem Holds.mono {Q : Text → Text → Text → Prop} (h : Holds P es)
    (hPQ : ∀ k c v, P k c v → Q k c v) : Holds Q es := by
  intro e he
  obtain ⟨cs, hcs, hne, hv⟩ := h e he
  refine ⟨cs, hcs, hne, fun c hc => ?_⟩
  obtain ⟨v, hleaf, hP⟩ := hv c hc
  exact ⟨v, hleaf, hPQ _ _ _ hP⟩

theorem Holds.not_blocked (h : Holds P es) (tcid tc : Text) :
    (OrderedTree.dir es).blocked [tcid, tc] = false := by
  simp only [blocked]
  cases hentry : entry es tcid with
  | none => rfl
  | some t =>
      obtain ⟨cs, hcs, -⟩ := h _ (mem_of_entry hentry)
      dsimp only at hcs ⊢
      rw [hcs, blocked]
      cases entry cs tc <;> rfl

theorem Holds.get_eq (h : Holds P es) {x : Table}
    (hx : (OrderedTree.dir es).get [tcid, tc] = some x) :
    ∃ v, x = .leaf (some v) ∧ P tcid tc v := by
  rw [get_dir_cons] at hx
  obtain ⟨t, hentry, hget⟩ := Option.bind_eq_some_iff.mp hx
  obtain ⟨cs, hcs, -, hv⟩ := h _ (mem_of_entry hentry)
  dsimp only at hcs hv
  rw [hcs, get_dir_cons] at hget
  obtain ⟨y, hentry', hy⟩ := Option.bind_eq_some_iff.mp hget
  rw [get_nil] at hy
  obtain ⟨v, hleaf, hP⟩ := hv _ (mem_of_entry hentry')
  exact ⟨v, (Option.some.inj hy) ▸ hleaf, hP⟩

/-- The cases of a tcid with a new result. -/
theorem cases_insert {cs : List (Text × Table)} {Q : Text → Text → Prop}
    (hv : ∀ c ∈ cs, ∃ v, c.2 = .leaf (some v) ∧ Q c.1 v) (hQ : Q tc type) :
    ∃ cs', (OrderedTree.dir cs).insert [tc] (.leaf (some type)) = .dir cs' ∧ cs' ≠ [] ∧
      ∀ c ∈ cs', ∃ v, c.2 = .leaf (some v) ∧ Q c.1 v := by
  cases hentry : entry cs tc with
  | none =>
      refine ⟨cs ++ [(tc, .leaf (some type))], by simp [OrderedTree.insert, hentry, single],
        by simp, ?_⟩
      refine List.forall_mem_append.mpr ⟨hv, List.forall_mem_singleton.mpr ?_⟩
      exact ⟨type, rfl, hQ⟩
  | some t =>
      refine ⟨setEntry cs tc (.leaf (some type)), by simp [OrderedTree.insert, hentry], ?_, ?_⟩
      · intro hnil
        rw [setEntry, List.map_eq_nil_iff] at hnil
        rw [hnil] at hentry
        cases hentry
      · intro c hc
        obtain ⟨c₀, hc₀, rfl⟩ := List.mem_map.mp hc
        split_ifs with heq
        · exact ⟨type, rfl, heq ▸ hQ⟩
        · exact hv c₀ hc₀

/-- A new result keeps the form of the table. -/
theorem Holds.insert (h : Holds P es) (hP : P tcid tc type) :
    ∃ es', (OrderedTree.dir es).insert [tcid, tc] (.leaf (some type)) = .dir es' ∧ Holds P es' := by
  cases hentry : entry es tcid with
  | none =>
      refine ⟨es ++ [(tcid, .dir [(tc, .leaf (some type))])],
        by simp [OrderedTree.insert, hentry, single], ?_⟩
      refine List.forall_mem_append.mpr ⟨h, List.forall_mem_singleton.mpr ?_⟩
      exact ⟨_, rfl, by simp, List.forall_mem_singleton.mpr ⟨type, rfl, hP⟩⟩
  | some t =>
      obtain ⟨cs, hcs, -, hv⟩ := h _ (mem_of_entry hentry)
      dsimp only at hcs hv
      obtain ⟨cs', hinsert, hne, hv'⟩ := cases_insert hv hP
      refine ⟨setEntry es tcid (.dir cs'), by simp [OrderedTree.insert, hentry, hcs, ← hinsert], ?_⟩
      intro e he
      obtain ⟨e₀, he₀, rfl⟩ := List.mem_map.mp he
      split_ifs with heq
      · exact ⟨cs', rfl, hne, heq ▸ hv'⟩
      · exact h e₀ he₀

/-- A status that is not in the table of `worst_case` gives way to any other. -/
theorem worstCase_of_not_mem {t1 : Text} (h : t1 ∉ worst) (t2 : Text) : worstCase t1 t2 = t2 := by
  have hlast : worst.idxOf t1 = worst.length := List.idxOf_eq_length h
  have hle : worst.idxOf t2 ≤ worst.length := List.idxOf_le_length
  exact if_neg (by omega)

/-- A result is stored under its test case, whatever was there. -/
theorem recordCase_eq (h : Holds (fun _ _ v => v ∉ worst) es) (htcid : IsRun isWordChar tcid)
    (htc : IsCase tc) :
    recordCase (.dir es) tcid tc type =
      (OrderedTree.dir es).insert [tcid, tc] (.leaf (some type)) := by
  have hblocked := h.not_blocked tcid tc
  unfold recordCase symText putText treePut
  simp only [keyPath_case htcid htc, hblocked, Bool.false_eq_true, if_false]
  cases hget : (OrderedTree.dir es).get [tcid, tc] with
  | none => rfl
  | some x =>
      obtain ⟨v, rfl, hv⟩ := h.get_eq hget
      simp [stringAt, worstCase_of_not_mem hv]

/-- The results of `cuts_testcase` stand under tcids and test cases as the rules match them. -/
def ResultKeys (t : Table) : Prop :=
  ∀ tcid tc x, t.get [tcid, tc] = some x → IsRun isWordChar tcid ∧ IsCase tc

theorem resultKeys_treePut {t v : Table} {replace : Bool} (h : ResultKeys t)
    (htcid : IsRun isWordChar tcid) (htc : IsCase tc) :
    ResultKeys (treePut t [tcid, tc] v replace).2 := by
  unfold treePut
  split_ifs
  · exact h
  · exact h
  · intro tcid' tc' x hget
    by_cases heq : [tcid, tc] = [tcid', tc']
    · obtain ⟨rfl, rfl⟩ : tcid = tcid' ∧ tc = tc' := by simpa using heq
      exact ⟨htcid, htc⟩
    · rw [get_insert_other t v (fun hp => heq (hp.eq_of_length rfl))
        fun hp => heq (hp.eq_of_length rfl).symm] at hget
      exact h tcid' tc' x hget

theorem resultKeys_recordCase {t : Table} (h : ResultKeys t) (htcid : IsRun isWordChar tcid)
    (htc : IsCase tc) : ResultKeys (recordCase t tcid tc type) := by
  unfold recordCase
  simp only [putText, keyPath_case htcid htc]
  split
  · exact resultKeys_treePut h htcid htc
  · exact resultKeys_treePut h htcid htc

end Tables

/-! ### The report -/

section Report

variable {es cs : List (Text × Table)}

open OrderedTree

/-- The overall result that `cuts_report` passes on to `test_result`. -/
def cutsOverall (tags keys : Table) (tag : Text) : Option Text :=
  match tags with
  | .leaf _ => none
  | .dir entries => (cutsTcids tag keys entries ([], 0)).map fun r => r.1.1

/-- The results of a tcid. -/
def caseValues : Table → List Text
  | .leaf _ => []
  | .dir cs => cs.filterMap fun c => stringAt c.2

/-- The results over which `cuts_report` goes. -/
def reportedValues (es : List (Text × Table)) : List Text :=
  es.flatMap fun e => if e.1 = txt "_keys" then [] else caseValues e.2

theorem exists_testResult (tag : Text) (tcid tc : Option Text) (res : Text) (keys : Table) :
    ∃ lines, testResult tag tcid tc (.stored res) keys = some lines := ⟨_, rfl⟩

theorem cutsCases_eq (tag tcid : Text) (keys : Table)
    (hcases : ∀ c ∈ cs, ∃ v, c.2 = .leaf (some v) ∧ v ∉ worst) {result : Text}
    (hresult : result ∉ worst) (tcnum : Nat) :
    ∃ tcnum' lines, cutsCases tag tcid keys cs (result, tcnum) =
      some (((caseValues (.dir cs)).getLastD result, tcnum'), lines) := by
  induction cs generalizing result tcnum with
  | nil => exact ⟨tcnum, [], rfl⟩
  | cons c cs ih =>
      obtain ⟨⟨v, hleaf, hv⟩, hcs⟩ := List.forall_mem_cons.mp hcases
      obtain ⟨tc, data⟩ := c
      dsimp only at hleaf
      subst hleaf
      obtain ⟨lines, hlines⟩ := exists_testResult tag (some tcid) (some tc) v keys
      obtain ⟨tcnum', more, hmore⟩ := ih hcs hv (if atoi tc = 0 then tcnum else tcnum + 1)
      refine ⟨tcnum', lines ++ more, ?_⟩
      simp only [cutsCases, stringAt, worstCase_of_not_mem hresult, hmore, hlines, caseValues,
        List.filterMap_cons, List.getLastD_cons]

theorem not_mem_caseValues (hcases : ∀ c ∈ cs, ∃ v, c.2 = .leaf (some v) ∧ v ∉ worst) :
    ∀ v ∈ caseValues (.dir cs), v ∉ worst := by
  intro v hv
  obtain ⟨c, hc, hstring⟩ := List.mem_filterMap.mp hv
  obtain ⟨v', hleaf, hv'⟩ := hcases c hc
  rw [hleaf] at hstring
  exact (Option.some.inj hstring) ▸ hv'

theorem getLastD_append (l l' : List Text) (d : Text) :
    (l ++ l').getLastD d = l'.getLastD (l.getLastD d) := by
  simp [List.getLastD_eq_getLast?, List.getLast?_append, Option.getD_or]

theorem getLastD_not_mem {l ws : List Text} (hl : ∀ v ∈ l, v ∉ ws) {d : Text} (hd : d ∉ ws) :
    l.getLastD d ∉ ws := by
  rw [List.getLastD_eq_getLast?]
  cases hlast : l.getLast? with
  | none => exact hd
  | some v => exact hl v (List.mem_of_getLast? hlast)

/-- The overall result is the last one of the table. -/
theorem cutsTcids_eq (tag : Text) (keys : Table)
    (hes : ∀ e ∈ es, e.1 ≠ txt "_keys" → e.1.length < keySize ∧
      ∃ cs, e.2 = .dir cs ∧ cs ≠ [] ∧ ∀ c ∈ cs, ∃ v, c.2 = .leaf (some v) ∧ v ∉ worst)
    {result : Text} (hresult : result ∉ worst) (tcnum : Nat) :
    ∃ tcnum' lines, cutsTcids tag keys es (result, tcnum) =
      some (((reportedValues es).getLastD result, tcnum'), lines) := by
  induction es generalizing result tcnum with
  | nil => exact ⟨tcnum, [], rfl⟩
  | cons e es ih =>
      obtain ⟨he, hrest⟩ := List.forall_mem_cons.mp hes
      obtain ⟨tcid, data⟩ := e
      by_cases hkeys : tcid = txt "_keys"
      · obtain ⟨tcnum', lines, heq⟩ := ih hrest hresult tcnum
        refine ⟨tcnum', lines, ?_⟩
        simp only [cutsTcids, if_pos hkeys, heq, reportedValues, List.flatMap_cons,
          List.nil_append]
      · obtain ⟨hshort, cs, rfl, hne, hcases⟩ := he hkeys
        obtain ⟨n, lines, hlines⟩ := cutsCases_eq tag tcid keys hcases hresult tcnum
        have hnext := getLastD_not_mem (not_mem_caseValues hcases) hresult
        obtain ⟨tcnum', more, hmore⟩ := ih hrest hnext n
        obtain ⟨c, cs, rfl⟩ := List.exists_cons_of_ne_nil hne
        refine ⟨tcnum', lines ++ more, ?_⟩
        simp only [cutsTcids, if_neg hkeys, if_neg (Nat.not_le.mpr hshort), hlines, hmore,
          reportedValues, List.flatMap_cons, getLastD_append]

theorem withKeys_dir (es : List (Text × Table)) (keys : Table) :
    withKeys (.dir es) keys = .dir es ∨
      withKeys (.dir es) keys = .dir (es ++ [(txt "_keys", keys)]) := by
  have hpath : keyPath (txt "_keys") = [txt "_keys"] := by decide
  unfold withKeys treePut
  rw [hpath]
  cases hentry : entry es (txt "_keys") with
  | none =>
      right
      simp [blocked, hentry, get_dir_cons, OrderedTree.insert, single]
  | some t =>
      left
      simp [blocked, hentry, get_dir_cons]

/-- The report of a table of results that `worst_case` does not know. -/
theorem cutsOverall_eq (h : Holds (fun k _ v => k.length < keySize ∧ v ∉ worst) es) (keys : Table)
    (tag : Text) :
    cutsOverall (withKeys (.dir es) keys) keys tag = some ((reportedValues es).getLastD []) := by
  have hes : ∀ e ∈ es, e.1 ≠ txt "_keys" → e.1.length < keySize ∧
      ∃ cs, e.2 = .dir cs ∧ cs ≠ [] ∧ ∀ c ∈ cs, ∃ v, c.2 = .leaf (some v) ∧ v ∉ worst := by
    intro e he _
    obtain ⟨cs, hcs, hne, hv⟩ := h e he
    obtain ⟨c, hc⟩ := List.exists_mem_of_ne_nil cs hne
    refine ⟨(hv c hc).choose_spec.2.1, cs, hcs, hne, fun c hc => ?_⟩
    obtain ⟨v, hleaf, -, hnew⟩ := hv c hc
    exact ⟨v, hleaf, hnew⟩
  have hempty : ([] : Text) ∉ worst := by decide
  rcases withKeys_dir es keys with heq | heq
  · obtain ⟨n, lines, hreport⟩ := cutsTcids_eq tag keys hes hempty 0
    rw [heq, cutsOverall, hreport]
    rfl
  · have hes' : ∀ e ∈ es ++ [(txt "_keys", keys)], e.1 ≠ txt "_keys" → e.1.length < keySize ∧
        ∃ cs, e.2 = .dir cs ∧ cs ≠ [] ∧ ∀ c ∈ cs, ∃ v, c.2 = .leaf (some v) ∧ v ∉ worst :=
      List.forall_mem_append.mpr ⟨hes, List.forall_mem_singleton.mpr fun hne => absurd rfl hne⟩
    obtain ⟨n, lines, hreport⟩ := cutsTcids_eq tag keys hes' hempty 0
    rw [heq, cutsOverall, hreport]
    simp [reportedValues]

/-- The report ends with this result for `*`. -/
def ReportsTotal (tag : Text) (keys : Table) (result : Text) (lines : List ReportLine) : Prop :=
  ∃ before total, testResult tag (some (txt "*")) (some (txt "*")) (.stored result) keys =
    some total ∧ lines = before ++ total

/-- `cuts_report` prints the overall result for `*`. -/
theorem cutsReport_total {tags keys : Table} {at_ tag result : Text} {lines : List ReportLine}
    (h : cutsReport tags keys at_ tag = some lines)
    (hoverall : cutsOverall tags keys tag = some result) : ReportsTotal tag keys result lines := by
  unfold cutsReport at h
  cases tags with
  | leaf v => cases h
  | dir entries =>
      cases entries with
      | nil => cases h
      | cons e entries =>
          dsimp only at h
          cases hreport : cutsTcids tag keys (e :: entries) ([], 0) with
          | none => rw [hreport] at h; cases h
          | some r =>
              obtain ⟨⟨result', tcnum⟩, before⟩ := r
              obtain rfl : result' = result := by
                rw [cutsOverall, hreport] at hoverall
                exact Option.some.inj hoverall
              obtain ⟨total, htotal⟩ :=
                exists_testResult tag (some (txt "*")) (some (txt "*")) result' keys
              simp only [hreport, htotal] at h
              refine ⟨before, total, htotal, ?_⟩
              split_ifs at h
              · -- the wrong count would be written over a literal
                have hwrong : testResult tag (some (txt "-")) (some (txt "-"))
                    (.literal (txt "TC count wrong")) keys = none := rfl
                rw [hwrong] at h
                cases h
              · exact (Option.some.inj h).symm

end Report

end EDDTs.Pan
