import EDDTs.Pan.ScanBlock

/-!
# What spoils a block

Output that does not end with a newline hides the execution status, a quote in
the command line ends its keyword early, and no value that the lexer stores has
a newline.
-/

namespace EDDTs.Pan

open Library Scan

variable {mode : ReporterMode} {extended : Bool} {s s' : Scanner} {bol : Bool}
  {initStatus : Text} {duration : Int} {termType : TermType} {termId statLoc : Nat}
  {cutime cstime : Int}

theorem marker_ne_of_head {c : Char} {l : Text} (hc : c ≠ '<') (q : Token) :
    marker q ≠ some (c :: l) := by
  intro h
  obtain ⟨⟨m', hm⟩, -⟩ := marker_spec h
  exact hc (List.cons.inj hm).1

/-- The lines of the status are neither marker lines nor more than one line. -/
theorem statusLines_plain (hstatus : '\n' ∉ initStatus) :
    ∀ l ∈ statusLines initStatus duration termType.text termId statLoc cutime cstime,
      '\n' ∉ l ∧ ∃ c l', c ≠ '<' ∧ l = c :: l' := by
  have hlines := @newline_not_mem_status initStatus duration termType termId statLoc cutime cstime
  simp only [statusLines, List.tail_cons, List.forall_mem_cons] at hlines ⊢
  refine ⟨⟨?_, 'i', _, by decide, rfl⟩, ⟨hlines.1, 'd', _, by decide, rfl⟩,
    ⟨hlines.2.1, 'c', _, by decide, rfl⟩, List.forall_mem_nil _⟩
  simp only [List.mem_append, not_or]
  exact ⟨⟨by decide, hstatus⟩, by decide⟩

/-- A marker that ends with the marker of the status is that marker. -/
theorem marker_eq_of_suffix {q : Token} {m : Text} (hq : marker q = some m)
    (hm : txt "<<<execution_status>>>" <:+ m) : m = txt "<<<execution_status>>>" := by
  cases q <;> cases hq
  case execStatus => rfl
  all_goals exact absurd hm (by decide)

/-- A line that goes on with the marker of the status is no marker line. -/
theorem marker_ne_append {o : Text} (hne : o ≠ []) (q : Token) :
    marker q ≠ some (o ++ txt "<<<execution_status>>>") := by
  intro h
  have heq := marker_eq_of_suffix h (List.suffix_append o _)
  exact hne (List.append_left_eq_self.mp heq)

/-- Behind output without a last newline the status is taken for output. -/
theorem scanFrom_cutOutput {kvs : List (Text × Text)}
    (hfresh : txt "_End_line" ∉ kvs.map Prod.fst) {o : Text} (hne : o ≠ []) (hnl : '\n' ∉ o)
    (hstatus : '\n' ∉ initStatus) (line : Nat) :
    ∃ reports, scanFrom mode extended (some (s.inOutput line kvs)) true
        (o ++ testEndText initStatus duration termType.text termId statLoc cutime cstime) =
      let keys := flat (kvs ++ [(txt "_End_line", natText (line + 4))])
      (testEnd mode extended reports (some (.dir [])) (some keys)).map
        (s.afterTest (line + 5) (.dir []) keys) := by
  have hsplit : o ++ testEndText initStatus duration termType.text termId statLoc cutime cstime =
      unlines ((o ++ txt "<<<execution_status>>>") ::
        statusLines initStatus duration termType.text termId statLoc cutime cstime) ++
        (txt "<<<test_end>>>" ++ ['\n']) := by
    rw [testEndText_lines, unlines_cons, List.append_assoc]
  have hlines : ∀ l ∈ (o ++ txt "<<<execution_status>>>") ::
      statusLines initStatus duration termType.text termId statLoc cutime cstime,
      '\n' ∉ l ∧ ∀ q, marker q ≠ some l := by
    refine List.forall_mem_cons.mpr ⟨⟨?_, marker_ne_append hne⟩, fun l hl => ?_⟩
    · exact fun hmem => (List.mem_append.mp hmem).elim hnl (by decide)
    · obtain ⟨hl, c, l', hc, rfl⟩ := statusLines_plain hstatus l hl
      exact ⟨hl, marker_ne_of_head hc⟩
  have hend := @scanFrom_testEnd mode extended (s.inOutput (line + 4) []) kvs (.dir [])
    (show Cond.out ≠ .cuts by decide) rfl hfresh
  rw [hsplit, scanFrom_outputLines hlines]
  exact ⟨_, hend⟩

section BadCommandLine

variable {kvs : List (Text × Text)} {cmdline : Text}

/-- What stands behind `cmdline=` up to the first blank, if it were stored. -/
theorem cString_plain_ne (hnul : '\x00' ∉ cmdline) (rest : Text) :
    cString (('"' :: (cmdline ++ '"' :: '\n' :: rest)).takeWhile isPlain) ≠ cmdline := by
  intro h
  -- what is stored has no blank, so the command line has none
  have hplain : ∀ c ∈ '"' :: (cmdline ++ ['"']), isPlain c = true := by
    have hstored : ∀ c ∈ cmdline, isPlain c = true := by
      intro c hc
      rw [← h] at hc
      exact List.mem_takeWhile_imp ((List.takeWhile_prefix _).subset hc)
    intro c hc
    simp only [List.mem_cons, List.mem_append, List.not_mem_nil, or_false] at hc
    rcases hc with rfl | hc | rfl
    · decide
    · exact hstored c hc
    · decide
  have htext : '"' :: (cmdline ++ '"' :: '\n' :: rest) =
      '"' :: (cmdline ++ ['"']) ++ (['\n'] ++ rest) := by simp
  have hno : '\x00' ∉ '"' :: (cmdline ++ ['"']) := by simp [hnul]
  rw [htext, (takeWhile_plain hplain (by decide) (by decide) rest).1, cString_eq hno] at h
  have hlength := congrArg List.length h
  simp only [List.length_cons, List.length_append, List.length_nil] at hlength
  omega

/-- A command line with a quote is not stored as it was written. -/
theorem scanFrom_badCmdline (hcond : s.cond = .key) (hfresh : txt "cmdline" ∉ kvs.map Prod.fst)
    (hquote : '"' ∈ cmdline) (hnul : '\x00' ∉ cmdline) (rest : Text) :
    ∃ w t, w ≠ cmdline ∧ t <:+ (cmdlineItem cmdline).text ++ rest ∧
      scanFrom mode extended (some (s.setKeys kvs)) bol ((cmdlineItem cmdline).text ++ rest) =
        scanFrom mode extended (some (s.setKeys (kvs ++ [(txt "cmdline", w)]))) false t := by
  have hkey : IsKey (txt "cmdline") := ⟨by decide, by decide⟩
  have hcond' : (s.setKeys kvs).cond = .key := hcond
  have hput : ∀ v, (s.setKeys kvs).put (txt "cmdline") v =
      s.setKeys (kvs ++ [(txt "cmdline", v)]) := fun v =>
    Scanner.put_setKeys hkey.keyPath_eq hfresh
  have htext : (cmdlineItem cmdline).text ++ rest =
      txt "cmdline" ++ '=' :: '"' :: (cmdline ++ '"' :: '\n' :: rest) := by
    simp [cmdlineItem, KeyItem.text]
  have hsuffix : ∀ t, t <:+ '"' :: (cmdline ++ '"' :: '\n' :: rest) →
      t <:+ (cmdlineItem cmdline).text ++ rest := by
    rintro t ⟨a, ha⟩
    exact ⟨txt "cmdline" ++ '=' :: a, by rw [htext, ← ha]; simp⟩
  have hplain := cString_plain_ne hnul rest
  -- the rule for quoted values takes the text up to the second quote, unless the
  -- rule for words takes more
  by_cases hword : ∀ x y, IsQuoted x →
      '"' :: (cmdline ++ '"' :: '\n' :: rest) = '"' :: (x ++ '"' :: y) →
      x.length + 2 < (('"' :: (cmdline ++ '"' :: '\n' :: rest)).takeWhile isPlain).length
  · refine ⟨_, _, hplain, hsuffix _ (List.dropWhile_suffix isPlain), ?_⟩
    rw [htext, scanFrom_keyword hcond' hkey (by simp [isPlain, isSpace]) hword, hput]
  · push Not at hword
    obtain ⟨x, y, hx, hxy, hlen⟩ := hword
    rw [hxy] at hlen hsuffix htext
    refine ⟨cString x, y, ?_, hsuffix y ⟨'"' :: (x ++ ['"']), by simp⟩, ?_⟩
    · intro h
      rw [← h] at hquote
      have hmem : '"' ∈ x := (List.takeWhile_prefix _).subset hquote
      exact absurd (hx.2 _ hmem) (by decide)
    · rw [htext, scanFrom_quoted hcond' hkey hx hlen, hput]

end BadCommandLine

/-- The lines that begin a fresh table of keys. -/
def startMarkers : List Text := [txt "<<<rts_keyword_start>>>", txt "<<<test_start>>>"]

/-- No line that is still to be read begins a fresh table. -/
def NoRestart (bol : Bool) (t : Text) : Prop :=
  ∀ m ∈ startMarkers, m ∉ (lines t).tail ∧ (bol = true → m ∉ lines t)

theorem NoRestart.rest {u v : Text} (hne : u ≠ []) (h : NoRestart bol (u ++ v)) :
    NoRestart (Flex.atBol bol u) v := by
  intro m hm
  obtain ⟨htail, -⟩ := h m hm
  refine ⟨fun hmem => htail ((tail_lines_suffix u v).subset hmem), ?_⟩
  intro hbol hmem
  obtain ⟨w, c, rfl⟩ := List.eq_nil_or_concat' u |>.resolve_left hne
  obtain rfl : c = '\n' := by simpa [Flex.atBol] using hbol
  -- the lines of the rest are lines behind the first one
  rw [List.append_assoc, List.singleton_append, lines_append_newline, lines_eq_cons w] at htail
  exact htail (List.mem_append_right _ hmem)

theorem startMarkers_of_marker {q : Token} {m : Text} (hq : marker q = some m)
    (h : q = .kwStart ∨ q = .testStart) : m ∈ startMarkers := by
  rcases h with rfl | rfl <;> cases hq <;> decide

/-- Without a fresh table the first value of a key stays to the end. -/
theorem lookup_stays {key w : Text} {t : Text} (h : KeysInv (fun kvs => kvs.lookup key = some w) s)
    (ht : NoRestart bol t) (hrun : scanFrom mode extended (some s) bol t = some s') :
    KeysInv (fun kvs => kvs.lookup key = some w) s' := by
  have hput : PutStable fun kvs => kvs.lookup key = some w := by
    intro kvs k v hkvs _ _
    rw [List.lookup_append, hkvs]
    rfl
  refine scanFrom_keysInv hput NoRestart (fun bol u v hne h => h.rest hne) ?_ h ht hrun
  intro q m v hq hstart hsafe
  have hline : m ∈ lines (m ++ '\n' :: v) := by
    rw [lines_append_newline, lines_eq_self (marker_spec hq).2.1]
    exact List.mem_append_left _ (List.mem_singleton.mpr rfl)
  exact absurd hline ((hsafe m (startMarkers_of_marker hq hstart)).2 rfl)

/-- No value that the lexer stores has a newline. -/
theorem keys_no_newline {t : Text} (h : KeysInv (fun kvs => ∀ e ∈ kvs, '\n' ∉ e.2) s)
    (hrun : scanFrom mode extended (some s) bol t = some s') :
    KeysInv (fun kvs => ∀ e ∈ kvs, '\n' ∉ e.2) s' := by
  have hput : PutStable fun kvs => ∀ e ∈ kvs, '\n' ∉ e.2 := by
    intro kvs k v hkvs _ hv
    exact List.forall_mem_append.mpr ⟨hkvs, List.forall_mem_singleton.mpr hv⟩
  refine scanFrom_keysInv hput (fun _ _ => True) (fun _ _ _ _ _ => trivial) ?_ h trivial hrun
  intro _ _ _ _ _ _
  refine ⟨by simp, fun n e he => ?_⟩
  rw [List.mem_singleton.mp he]
  exact not_mem_natText (by decide) n

theorem startMarkers_spec : ∀ m ∈ startMarkers, (txt "<<<").isPrefixOf m = true ∧
    m.head? = some '<' ∧ ¬ txt "<<<execution_status>>>" <:+ m ∧
    m ∉ [txt "<<<test_output>>>", txt "<<<test_end>>>", []] := by
  decide

/-- The lines behind the output of a test. -/
theorem lines_testEndText {o : Text} (ho : '\n' ∉ o) (hstatus : '\n' ∉ initStatus) :
    lines (o ++ testEndText initStatus duration termType.text termId statLoc cutime cstime) =
      (o ++ txt "<<<execution_status>>>") ::
        (statusLines initStatus duration termType.text termId statLoc cutime cstime ++
          [txt "<<<test_end>>>", []]) := by
  have hfirst : '\n' ∉ o ++ txt "<<<execution_status>>>" :=
    fun hmem => (List.mem_append.mp hmem).elim ho (by decide)
  rw [testEndText_lines, ← List.append_assoc, lines_append_newline, lines_eq_self hfirst,
    lines_unlines_append fun l hl => (statusLines_plain hstatus l hl).1]
  rfl

/-- Output without marker lines, and the status behind it, begin no fresh table. -/
theorem startMarker_not_mem_rest {output : Text} (hout : markers output = [])
    (hstatus : '\n' ∉ initStatus) {m : Text} (hm : m ∈ startMarkers) :
    m ∉ lines (output ++
      testEndText initStatus duration termType.text termId statLoc cutime cstime) := by
  obtain ⟨ls, o, rfl, hls, ho⟩ := exists_unlines output
  obtain ⟨hmark, hhead, hsuffix, hother⟩ := startMarkers_spec m hm
  rw [List.append_assoc, lines_unlines_append hls, lines_testEndText ho hstatus]
  intro hmem
  rcases List.mem_append.mp hmem with hmem | hmem
  · have hline : m ∈ lines (unlines ls ++ o) := by
      rw [lines_unlines_append hls]
      exact List.mem_append_left _ hmem
    have hmarked : m ∈ markers (unlines ls ++ o) := List.mem_filter.mpr ⟨hline, hmark⟩
    rw [hout] at hmarked
    cases hmarked
  · rcases List.mem_cons.mp hmem with rfl | hmem
    · exact hsuffix (List.suffix_append o _)
    · rcases List.mem_append.mp hmem with hmem | hmem
      · obtain ⟨-, c, l, hc, rfl⟩ := statusLines_plain hstatus m hmem
        exact hc (Option.some.inj hhead)
      · exact hother (List.mem_cons_of_mem _ hmem)

/-- Nothing in a block begins a second table of keys. -/
theorem noRestart_block {cmd : CollEntry} (hcmd : cmd.Read) (hnl : '\n' ∉ cmd.cmdline)
    {output : Text} (hout : markers output = []) (hstatus : '\n' ∉ initStatus) {mystime : Int}
    {t : Text} (ht : t <:+ testStartText cmd mystime ++ (output ++
      testEndText initStatus duration termType.text termId statLoc cutime cstime)) :
    NoRestart false t := by
  have hname : '\n' ∉ cmd.name := fun hmem => (hcmd.name_plain _ hmem).2.2.1 rfl
  have hmark := fun rest => markers_testStartText cmd mystime (noMarkerInside_of_no_newline hname)
    (noMarkerInside_of_no_newline hnl) rest
  obtain ⟨u, hu⟩ := ht
  intro m hm
  refine ⟨fun hmem => ?_, by simp⟩
  have htail := (tail_lines_suffix u t).subset hmem
  rw [hu] at htail
  have hrest : m ∉ lines (output ++
      testEndText initStatus duration termType.text termId statLoc cutime cstime) :=
    startMarker_not_mem_rest hout hstatus hm
  generalize output ++ testEndText initStatus duration termType.text termId statLoc cutime
    cstime = rest at htail hrest
  have hmark := hmark rest
  obtain ⟨hstarts, -, -, hother⟩ := startMarkers_spec m hm
  rw [testStartText_eq] at htail hmark
  generalize txt "tag" ++ _ = inner at htail hmark
  rw [lines_append_newline, lines_eq_self (by decide)] at htail
  rw [markers_append_newline] at hmark
  have hinner : markers inner = txt "<<<test_output>>>" :: markers rest :=
    (List.cons.inj hmark).2
  have hmarked : m ∈ markers inner := List.mem_filter.mpr ⟨htail, hstarts⟩
  rw [hinner] at hmarked
  rcases List.mem_cons.mp hmarked with rfl | hmarked
  · exact hother List.mem_cons_self
  · exact hrest (List.mem_filter.mp hmarked).1

end EDDTs.Pan
