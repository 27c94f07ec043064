import EDDTs.Pan.RtsMarkers
import EDDTs.Pan.ScanInvariant

/-!
# Scanning a block of `ltp-pan`

The text that `write_test_start` and `write_test_end` print around the output of
a test, as the lexer takes it apart. The command line is the one place where the
writer's quotes may not be the reader's.
-/

namespace EDDTs.Pan

open Library Scan

def stimeItem (mystime : Int) : KeyItem :=
  { key := txt "stime", value := intText mystime, quoted := false, sep := ['\n'] }

def cmdlineItem (cmdline : Text) : KeyItem :=
  { key := txt "cmdline", value := cmdline, quoted := true, sep := ['\n'] }

def analysisItems : List KeyItem :=
  [{ key := txt "contacts", value := ['"', '"'], quoted := false, sep := ['\n'] },
    { key := txt "analysis", value := txt "exit", quoted := false, sep := ['\n'] }]

/-- The keywords of the execution status. -/
def statusItems (initStatus : Text) (duration : Int) (termType : Text) (termId statLoc : Nat)
    (cutime cstime : Int) : List KeyItem :=
  [{ key := txt "initiation_status", value := initStatus, quoted := true, sep := ['\n'] },
    { key := txt "duration", value := intText duration, quoted := false, sep := [' '] },
    { key := txt "termination_type", value := termType, quoted := false, sep := [' '] },
    { key := txt "termination_id", value := natText termId, quoted := false, sep := [' '] },
    { key := txt "corefile", value := coreText statLoc, quoted := false, sep := ['\n'] },
    { key := txt "cutime", value := intText cutime, quoted := false, sep := [' '] },
    { key := txt "cstime", value := intText cstime, quoted := false, sep := ['\n'] }]

theorem testStartText_eq (cmd : CollEntry) (mystime : Int) (rest : Text) :
    testStartText cmd mystime ++ rest =
      txt "<<<test_start>>>" ++ '\n' :: (txt "tag" ++ '=' :: (cmd.name ++ ' ' ::
        ([stimeItem mystime].flatMap KeyItem.text ++ ((cmdlineItem cmd.cmdline).text ++
          (analysisItems.flatMap KeyItem.text ++
            (txt "<<<test_output>>>" ++ '\n' :: rest)))))) := by
  simp [testStartText, stimeItem, cmdlineItem, analysisItems, KeyItem.text, txt]

theorem testEndText_eq (initStatus : Text) (duration : Int) (termType : Text)
    (termId statLoc : Nat) (cutime cstime : Int) :
    testEndText initStatus duration termType termId statLoc cutime cstime =
      txt "<<<execution_status>>>" ++ '\n' ::
        ((statusItems initStatus duration termType termId statLoc cutime cstime).flatMap
          KeyItem.text ++ (txt "<<<test_end>>>" ++ ['\n'])) := by
  simp [testEndText, statusItems, KeyItem.text, txt]

theorem isPlain_intText (i : Int) : ∀ c ∈ intText i, isPlain c = true := by
  intro c hc
  cases hs : isSpace c with
  | false => simp [isPlain, hs]
  | true =>
      simp only [isSpace, decide_eq_true_eq] at hs
      rcases hs with rfl | rfl | rfl <;>
        exact absurd hc (not_mem_intText (by decide) (by decide) i)

theorem intText_ne_nil (i : Int) : intText i ≠ [] := by
  cases i with
  | ofNat n => exact Nat.toDigits_ne_nil
  | negSucc n => simp [intText]

theorem isValue_intText (i : Int) : IsValue (intText i) := ⟨intText_ne_nil i, isPlain_intText i⟩

/-- The item of a number. -/
theorem good_intText {key sep : Text} (hkey : IsKey key) (hne : sep ≠ [])
    (hsep : ∀ c ∈ sep, isSpace c = true) (i : Int) :
    KeyItem.Good { key := key, value := intText i, quoted := false, sep := sep } := by
  refine ⟨hkey, not_mem_intText (by decide) (by decide) i, by simp, fun _ => ?_, hne, hsep⟩
  refine ⟨isValue_intText i, ?_⟩
  intro hhead
  have hmem : '"' ∈ intText i := List.mem_of_mem_head? hhead
  exact absurd hmem (not_mem_intText (by decide) (by decide) i)

/-- The item of a word. -/
theorem good_word {key value sep : Text} (hkey : IsKey key) (hvalue : IsValue value)
    (hnul : '\x00' ∉ value) (hhead : value.head? = some '"' → value = ['"', '"'])
    (hne : sep ≠ []) (hsep : ∀ c ∈ sep, isSpace c = true) :
    KeyItem.Good { key := key, value := value, quoted := false, sep := sep } :=
  ⟨hkey, hnul, by simp, fun _ => ⟨hvalue, hhead⟩, hne, hsep⟩

/-- The item of a quoted text. -/
theorem good_quoted {key value sep : Text} (hkey : IsKey key) (hvalue : IsQuoted value)
    (hnul : '\x00' ∉ value) (hne : sep ≠ []) (hsep : ∀ c ∈ sep, isSpace c = true) :
    KeyItem.Good { key := key, value := value, quoted := true, sep := sep } :=
  ⟨hkey, hnul, fun _ => hvalue, by simp, hne, hsep⟩

theorem isQuoted_of_not_mem {x : Text} (hne : x ≠ []) (hquote : '"' ∉ x) (hnl : '\n' ∉ x) :
    IsQuoted x := by
  refine ⟨hne, fun c hc => ?_⟩
  simp only [isQuotable, decide_eq_true_eq]
  exact ⟨fun h => hquote (h ▸ hc), fun h => hnl (h ▸ hc)⟩

theorem good_stimeItem (mystime : Int) : (stimeItem mystime).Good :=
  good_intText ⟨by decide, by decide⟩ (by decide) (by decide) mystime

theorem good_cmdlineItem {cmdline : Text} (hne : cmdline ≠ []) (hnul : '\x00' ∉ cmdline)
    (hquote : '"' ∉ cmdline) (hnl : '\n' ∉ cmdline) : (cmdlineItem cmdline).Good :=
  good_quoted ⟨by decide, by decide⟩ (isQuoted_of_not_mem hne hquote hnl) hnul (by decide)
    (by decide)

theorem good_analysisItems : ∀ i ∈ analysisItems, i.Good := by
  intro i hi
  rcases List.mem_cons.mp hi with rfl | hi
  · exact good_word ⟨by decide, by decide⟩ ⟨by decide, by decide⟩ (by decide) (by decide)
      (by decide) (by decide)
  · rw [List.mem_singleton.mp hi]
    exact good_word ⟨by decide, by decide⟩ ⟨by decide, by decide⟩ (by decide) (by decide)
      (by decide) (by decide)

theorem good_statusItems {initStatus : Text} (hstatus : IsQuoted initStatus)
    (hnul : '\x00' ∉ initStatus) (duration : Int) (termType : TermType) (termId statLoc : Nat)
    (cutime cstime : Int) :
    ∀ i ∈ statusItems initStatus duration termType.text termId statLoc cutime cstime, i.Good := by
  have htype : IsValue termType.text ∧ '\x00' ∉ termType.text ∧
      (termType.text.head? = some '"' → termType.text = ['"', '"']) := by
    cases termType <;> exact ⟨⟨by decide, by decide⟩, by decide, by decide⟩
  have hcore : IsValue (coreText statLoc) ∧ '\x00' ∉ coreText statLoc ∧
      ((coreText statLoc).head? = some '"' → coreText statLoc = ['"', '"']) := by
    unfold coreText
    split <;> exact ⟨⟨by decide, by decide⟩, by decide, by decide⟩
  have hnat : natText termId = intText termId := rfl
  intro i hi
  simp only [statusItems, List.mem_cons, List.not_mem_nil, or_false] at hi
  rcases hi with rfl | rfl | rfl | rfl | rfl | rfl | rfl
  · exact good_quoted ⟨by decide, by decide⟩ hstatus hnul (by decide) (by decide)
  · exact good_intText ⟨by decide, by decide⟩ (by decide) (by decide) _
  · exact good_word ⟨by decide, by decide⟩ htype.1 htype.2.1 htype.2.2 (by decide) (by decide)
  · rw [hnat]
    exact good_intText ⟨by decide, by decide⟩ (by decide) (by decide) _
  · exact good_word ⟨by decide, by decide⟩ hcore.1 hcore.2.1 hcore.2.2 (by decide) (by decide)
  · exact good_intText ⟨by decide, by decide⟩ (by decide) (by decide) _
  · exact good_intText ⟨by decide, by decide⟩ (by decide) (by decide) _

/-- A tag that is a quoted text: the lexer takes its quotes for its own. -/
def QuotedTag (name : Text) : Prop := ∃ x, x ≠ [] ∧ '"' ∉ x ∧ name = '"' :: (x ++ ['"'])

/-- The key that the lexer makes of a tag. -/
inductive TagKeys : Text → List (Text × Text) → Prop
  | missing : TagKeys [] []
  | unquoted {x : Text} (hne : x ≠ []) (hx : '"' ∉ x) :
      TagKeys ('"' :: (x ++ ['"'])) [(txt "tag", x)]
  | plain {name : Text} (hne : name ≠ []) (hname : ¬ QuotedTag name) :
      TagKeys name [(txt "tag", name)]

variable {mode : ReporterMode} {extended : Bool} {s : Scanner} {bol : Bool} {name : Text}
  {kvs tags : List (Text × Text)}

/-- A quoted text that begins at the tag ends in it. -/
theorem quoted_in_tag {x y a b : Text} (hx : IsQuoted x) (ha : '"' ∉ a)
    (h : name ++ ' ' :: (a ++ '\n' :: b) = '"' :: (x ++ '"' :: y)) (hne : name ≠ []) :
    ∃ z, name = '"' :: (x ++ '"' :: z) := by
  obtain ⟨c, n, rfl⟩ := List.exists_cons_of_ne_nil hne
  obtain ⟨rfl, htail⟩ := List.cons.inj h
  have hnl : '\n' ∉ x := fun hmem => absurd (hx.2 _ hmem) (by decide)
  rcases List.append_eq_append_iff.mp htail with ⟨w, rfl, hw⟩ | ⟨w, rfl, hw⟩
  · -- the quoted text would go on behind the tag, up to a quote before the newline
    exfalso
    have hw' : ' ' :: a ++ '\n' :: b = w ++ '"' :: y := hw
    rcases List.append_eq_append_iff.mp hw' with ⟨w', hw'', hrest⟩ | ⟨w', hw'', hrest⟩
    · cases w' with
      | nil => exact absurd (List.cons.inj hrest).1 (by decide)
      | cons d w' =>
          obtain ⟨rfl, -⟩ := List.cons.inj hrest
          exact hnl (by simp [hw''])
    · cases w' with
      | nil => exact absurd (List.cons.inj hrest).1 (by decide)
      | cons d w' =>
          obtain ⟨rfl, -⟩ := List.cons.inj hrest
          have hmem : '"' ∈ ' ' :: a := by simp [hw'']
          rcases List.mem_cons.mp hmem with h | h
          · exact absurd h (by decide)
          · exact ha h
  · cases w with
    | nil => exact absurd (List.cons.inj hw).1 (by decide)
    | cons d w =>
        obtain ⟨rfl, -⟩ := List.cons.inj hw
        exact ⟨w, rfl⟩

/-- What the lexer makes of the tag. -/
theorem scanFrom_tag (hcond : s.cond = .key) (hfresh : txt "tag" ∉ kvs.map Prod.fst)
    (hname : ∀ c ∈ name, c ≠ ' ' ∧ c ≠ '\t' ∧ c ≠ '\n' ∧ c ≠ '\x00') {a b r : Text}
    (hahead : NoBlankAhead r) (ha : '"' ∉ a) (hr : r = a ++ '\n' :: b) :
    ∃ tags, TagKeys name tags ∧
      scanFrom mode extended (some (s.setKeys kvs)) bol
          (txt "tag" ++ '=' :: (name ++ ' ' :: r)) =
        scanFrom mode extended (some (s.setKeys (kvs ++ tags))) false r := by
  have hkey : IsKey (txt "tag") := ⟨by decide, by decide⟩
  have hcond' : ∀ kvs, (s.setKeys kvs).cond = .key := fun _ => hcond
  have hblank : ∀ kvs, scanFrom mode extended (some (s.setKeys kvs)) false (' ' :: r) =
      scanFrom mode extended (some (s.setKeys kvs)) false r := by
    intro kvs
    exact scanFrom_keySpace (w := [' ']) (hcond' kvs) (by decide) (by decide) hahead
  have hput : ∀ v, '\x00' ∉ v → (s.setKeys kvs).put (txt "tag") (cString v) =
      s.setKeys (kvs ++ [(txt "tag", v)]) := fun v hv => by
    rw [cString_eq hv, Scanner.put_setKeys hkey.keyPath_eq hfresh]
  have hplain : ∀ d ∈ name, isPlain d = true := by
    intro d hd
    obtain ⟨h1, h2, h3, -⟩ := hname d hd
    simp [isPlain, isSpace, h1, h2, h3]
  by_cases hne : name = []
  · subst hne
    refine ⟨[], .missing, ?_⟩
    rw [List.nil_append, scanFrom_noValue (hcond' kvs) hkey.2 (by rfl), hblank, List.append_nil]
  · by_cases hquoted : QuotedTag name
    · obtain ⟨x, hxne, hx, rfl⟩ := hquoted
      refine ⟨_, .unquoted hxne hx, ?_⟩
      have hmem : ∀ d ∈ x, d ∈ '"' :: (x ++ ['"']) := fun d hd => by simp [hd]
      have hxq : IsQuoted x :=
        isQuoted_of_not_mem hxne hx fun h => (hname _ (hmem _ h)).2.2.1 rfl
      have hnul : '\x00' ∉ x := fun h => (hname _ (hmem _ h)).2.2.2 rfl
      have hlen := takeWhile_quoted (x := x) (show [' '] ≠ [] by decide) (by decide) r
      rw [show '"' :: (x ++ ['"']) ++ ' ' :: r = '"' :: (x ++ '"' :: ([' '] ++ r))
        by simp, scanFrom_quoted (hcond' kvs) hkey hxq hlen, hput x hnul]
      exact hblank _
    · refine ⟨_, .plain hne hquoted, ?_⟩
      have hnul : '\x00' ∉ name := fun h => (hname _ h).2.2.2 rfl
      obtain ⟨htake, hdrop⟩ := takeWhile_plain hplain (show [' '] ≠ [] by decide) (by decide) r
      simp only [List.singleton_append] at htake hdrop
      rw [scanFrom_keyword (hcond' kvs) hkey (by rw [htake]; exact hne), htake, hdrop,
        hput name hnul, hblank]
      intro x y hx hxy
      rw [hr] at hxy
      obtain ⟨z, hz⟩ := quoted_in_tag hx ha hxy hne
      -- a longer tag, as the quoted text alone would be a quoted tag
      have hzne : z ≠ [] := by
        rintro rfl
        exact hquoted ⟨x, hx.1, fun h => absurd (hx.2 _ h) (by decide), hz⟩
      have hpos := List.length_pos_iff.mpr hzne
      rw [htake, hz]
      simp only [List.length_cons, List.length_append]
      omega

/-- The state in which the keywords of a test are read. -/
def Scanner.started (s : Scanner) : Scanner :=
  { s with cond := .key, mode := .tstKey, ctag := some (.dir []) }

theorem Scanner.checkMode_eq {u : Text} {expected : List ScanMode} {m : ScanMode}
    (h : s.mode ∈ expected) : s.checkMode u expected m = { s with mode := m } := by
  simp [Scanner.checkMode, h]

theorem action_testStart (hmode : s.mode = .outside) (u : Text) :
    s.action mode extended u .testStart =
      some (s.started.setKeys [(txt "_Start_line", natText s.yylineno)]) := by
  have hput : putText (.dir []) (txt "_Start_line") (natText s.yylineno) =
      flat [(txt "_Start_line", natText s.yylineno)] := putText_flat keyPath_startLine [] _
  rw [Scanner.action, Scanner.checkMode_eq (by simp [hmode]), hput]
  rfl

/-- The keys of the first line of a block. -/
def tagLineKeys (line : Nat) (tags : List (Text × Text)) (mystime : Int) : List (Text × Text) :=
  (txt "_Start_line", natText line) :: tags ++ [(txt "stime", intText mystime)]

/-- The keys that a tag can have. -/
theorem TagKeys.keys (h : TagKeys name tags) :
    tags.map Prod.fst = [] ∨ tags.map Prod.fst = [txt "tag"] := by
  cases h with
  | missing => exact Or.inl rfl
  | unquoted | plain => exact Or.inr rfl

theorem scanFrom_tagLine (hcond : s.cond = .initial) (hmode : s.mode = .outside)
    (hname : ∀ c ∈ name, c ≠ ' ' ∧ c ≠ '\t' ∧ c ≠ '\n' ∧ c ≠ '\x00') (mystime : Int) {v : Text}
    (hv : NoBlankAhead v) :
    ∃ tags, TagKeys name tags ∧
      scanFrom mode extended (some s) true
          (txt "<<<test_start>>>" ++ '\n' :: (txt "tag" ++ '=' :: (name ++ ' ' ::
            ([stimeItem mystime].flatMap KeyItem.text ++ v)))) =
        scanFrom mode extended (some ((s.started.countLines (txt "\n\n")).setKeys
          (tagLineKeys s.yylineno tags mystime))) true v := by
  have hcuts : s.cond ≠ .cuts := by simp [hcond]
  have hstime : [stimeItem mystime].flatMap KeyItem.text ++ v =
      (txt "stime=" ++ intText mystime) ++ '\n' :: v := by
    simp [stimeItem, KeyItem.text, txt]
  have hahead : NoBlankAhead ([stimeItem mystime].flatMap KeyItem.text ++ v) :=
    ⟨'s', _, by decide, rfl⟩
  have hquote : '"' ∉ txt "stime=" ++ intText mystime := by
    simp only [List.mem_append, not_or]
    exact ⟨by decide, not_mem_intText (by decide) (by decide) mystime⟩
  have hline : ∀ r, scanFrom mode extended (some s) true
      (txt "<<<test_start>>>" ++ '\n' :: (txt "tag" ++ r)) =
      scanFrom mode extended (some ((s.started.countLines ['\n']).setKeys
        [(txt "_Start_line", natText s.yylineno)])) true (txt "tag" ++ r) := by
    intro r
    rw [scanFrom_marker (q := .testStart) rfl hcuts, action_testStart hmode]
    exact scanFrom_keySpace (w := ['\n']) rfl (by decide) (by decide) ⟨'t', _, by decide, rfl⟩
  obtain ⟨tags, htags, htag⟩ := @scanFrom_tag mode extended (s.started.countLines ['\n']) true
    name [(txt "_Start_line", natText s.yylineno)] rfl (by simp [txt]) hname _ _ _ hahead
    hquote hstime
  have hfresh : (((txt "_Start_line", natText s.yylineno) :: tags).map Prod.fst ++
      [stimeItem mystime].map KeyItem.key).Nodup := by
    have hmissing : [txt "_Start_line", txt "stime"].Nodup := by decide
    have htag : [txt "_Start_line", txt "tag", txt "stime"].Nodup := by decide
    rw [List.map_cons]
    rcases htags.keys with h | h <;> rw [h]
    · exact hmissing
    · exact htag
  have hitems := @scanFrom_items mode extended (s.started.countLines ['\n']) false
    ((txt "_Start_line", natText s.yylineno) :: tags) rfl [stimeItem mystime]
    (by simpa using good_stimeItem mystime) hfresh v hv
  refine ⟨tags, htags, ?_⟩
  rw [hline, htag]
  exact hitems

/-- The keys of the start of a block. -/
def startKeys (line : Nat) (tags : List (Text × Text)) (cmd : CollEntry) (mystime : Int) :
    List (Text × Text) :=
  tagLineKeys line tags mystime ++ [(txt "cmdline", cmd.cmdline), (txt "contacts", ['"', '"']),
    (txt "analysis", txt "exit")]

theorem TagKeys.startKeys_keys (h : TagKeys name tags) (line : Nat) (cmd : CollEntry)
    (mystime : Int) :
    ((startKeys line tags cmd mystime).map Prod.fst = [txt "_Start_line", txt "stime",
      txt "cmdline", txt "contacts", txt "analysis"]) ∨
    (startKeys line tags cmd mystime).map Prod.fst = [txt "_Start_line", txt "tag", txt "stime",
      txt "cmdline", txt "contacts", txt "analysis"] := by
  cases h with
  | missing => exact Or.inl rfl
  | unquoted | plain => exact Or.inr rfl

theorem TagKeys.lookup_analysis (h : TagKeys name tags) (line : Nat) (cmd : CollEntry)
    (mystime : Int) :
    (startKeys line tags cmd mystime).lookup (txt "analysis") = some (txt "exit") := by
  cases h <;> rfl

/-- The state in which the output of a test is read. -/
def Scanner.inOutput (s : Scanner) (line : Nat) (kvs : List (Text × Text)) : Scanner :=
  { s with cond := .out, mode := .output, ctag := some (.dir []), yylineno := line
           keys := some (flat kvs) }

theorem action_testOutput (hmode : s.mode = .tstKey)
    (hanalysis : kvs.lookup (txt "analysis") = some (txt "exit")) (u : Text) :
    (s.setKeys kvs).action mode extended u .testOutput =
      some { s.setKeys kvs with cond := .out, mode := .output } := by
  have hpath : keyPath (txt "analysis") = [txt "analysis"] := by decide
  have hexit : (txt "exit").take 4 |>.map Char.toLower |> (· ≠ txt "cuts") := by decide
  rw [Scanner.action, Scanner.checkMode_eq (by simp [Scanner.setKeys, hmode])]
  simp only [Scanner.testOutput, Scanner.setKeys, Option.bind_some, symText_flat hpath, hanalysis]
  rw [if_neg hexit]

/-- The start of a block whose command line has neither quote nor newline. -/
theorem scanFrom_testStart (hcond : s.cond = .initial) (hmode : s.mode = .outside)
    {cmd : CollEntry} (hcmd : cmd.Read) (hquote : '"' ∉ cmd.cmdline) (hnl : '\n' ∉ cmd.cmdline)
    (mystime : Int) (rest : Text) :
    ∃ tags, TagKeys cmd.name tags ∧
      scanFrom mode extended (some s) true (testStartText cmd mystime ++ rest) =
        scanFrom mode extended (some (s.inOutput (s.yylineno + 6)
          (startKeys s.yylineno tags cmd mystime))) true rest := by
  have hgood : ∀ i ∈ cmdlineItem cmd.cmdline :: analysisItems, i.Good :=
    List.forall_mem_cons.mpr
      ⟨good_cmdlineItem hcmd.cmdline_ne hcmd.cmdline_no_nul hquote hnl, good_analysisItems⟩
  obtain ⟨tags, htags, hline⟩ := @scanFrom_tagLine mode extended s cmd.name hcond hmode
    hcmd.name_plain mystime _ (⟨'c', _, by decide, rfl⟩ : NoBlankAhead
      ((cmdlineItem cmd.cmdline :: analysisItems).flatMap KeyItem.text ++
        (txt "<<<test_output>>>" ++ '\n' :: rest)))
  have hfresh : ((tagLineKeys s.yylineno tags mystime).map Prod.fst ++
      (cmdlineItem cmd.cmdline :: analysisItems).map KeyItem.key).Nodup := by
    have hmissing : [txt "_Start_line", txt "stime", txt "cmdline", txt "contacts",
      txt "analysis"].Nodup := by decide
    have htag : [txt "_Start_line", txt "tag", txt "stime", txt "cmdline", txt "contacts",
      txt "analysis"].Nodup := by decide
    have hkeys := htags.startKeys_keys s.yylineno cmd mystime
    rw [startKeys, List.map_append] at hkeys
    rcases hkeys with h | h
    · exact h ▸ hmissing
    · exact h ▸ htag
  have hitems := @scanFrom_items mode extended (s.started.countLines (txt "\n\n")) true
    (tagLineKeys s.yylineno tags mystime) rfl _ hgood hfresh
    (txt "<<<test_output>>>" ++ '\n' :: rest) ⟨'<', _, by decide, rfl⟩
  refine ⟨tags, htags, ?_⟩
  rw [testStartText_eq, ← List.append_assoc (cmdlineItem cmd.cmdline).text,
    ← List.flatMap_cons, hline, hitems]
  change scanFrom mode extended (some (Scanner.setKeys _ (startKeys s.yylineno tags cmd mystime)))
    true _ = _
  rw [scanFrom_marker (q := .testOutput) rfl (show Cond.key ≠ .cuts by decide),
    action_testOutput rfl (htags.lookup_analysis s.yylineno cmd mystime),
    scanFrom_newline (Or.inr rfl)]
  rfl

/-- The lines of the output are passed over. -/
theorem scanFrom_outputLines {ls : List Text} (hls : ∀ l ∈ ls, '\n' ∉ l ∧ ∀ q, marker q ≠ some l)
    (line : Nat) (v : Text) :
    scanFrom mode extended (some (s.inOutput line kvs)) true (unlines ls ++ v) =
      scanFrom mode extended (some (s.inOutput (line + ls.length) kvs)) true v := by
  induction ls generalizing line with
  | nil => rfl
  | cons l ls ih =>
      obtain ⟨hnl, hmarker⟩ := hls l (by simp)
      have hline : scanFrom mode extended (some (s.inOutput line kvs)) true
          (l ++ '\n' :: (unlines ls ++ v)) =
          scanFrom mode extended (some (s.inOutput (line + 1) kvs)) true (unlines ls ++ v) := by
        by_cases hne : l = []
        · rw [hne, List.nil_append, scanFrom_newline (Or.inr rfl)]
          rfl
        · rw [scanFrom_textLine rfl hne hnl hmarker, scanFrom_newline (Or.inr rfl)]
          rfl
      rw [unlines_cons, hline, ih fun l' hl' => hls l' (List.mem_cons_of_mem l hl'),
        List.length_cons, Nat.add_assoc, Nat.add_comm 1]

/-- The state after the end of a test. -/
def Scanner.afterTest (s : Scanner) (line : Nat) (ctag keys : Table) (reports : Reports) :
    Scanner :=
  { s with cond := .initial, mode := .outside, keys := none, ctag := none, yylineno := line
           reports := reports, ended := s.ended ++ [(ctag, keys)] }

theorem action_testEnd {ctag : Table} (hctag : s.ctag = some ctag)
    (hfresh : txt "_End_line" ∉ kvs.map Prod.fst) (u : Text) :
    (s.setKeys kvs).action mode extended u .testEnd =
      (testEnd mode extended ((s.setKeys kvs).checkMode u [.tstKey] .outside).reports (some ctag)
        (some (flat (kvs ++ [(txt "_End_line", natText s.yylineno)])))).map
        (s.afterTest s.yylineno ctag
          (flat (kvs ++ [(txt "_End_line", natText s.yylineno)]))) := by
  have hput : ((s.setKeys kvs).checkMode u [.tstKey] .outside).put (txt "_End_line")
      (natText s.yylineno) = ((s.setKeys kvs).checkMode u [.tstKey] .outside).setKeys
        (kvs ++ [(txt "_End_line", natText s.yylineno)]) :=
    Scanner.put_setKeys (s := (s.setKeys kvs).checkMode u [.tstKey] .outside) keyPath_endLine
      hfresh
  have hctag' : (((s.setKeys kvs).checkMode u [.tstKey] .outside).setKeys
      (kvs ++ [(txt "_End_line", natText s.yylineno)])).ctag = some ctag := hctag
  simp only [Scanner.action]
  rw [show ((s.setKeys kvs).checkMode u [.tstKey] .outside).yylineno = s.yylineno from rfl, hput,
    hctag']
  congr 1
  funext reports
  simp only [Scanner.endCall, hctag, Scanner.setKeys, Scanner.checkMode, Scanner.afterTest]

/-- The end of a test hands its tables to `test_end`. -/
theorem scanFrom_testEnd {ctag : Table} (hcuts : s.cond ≠ .cuts) (hctag : s.ctag = some ctag)
    (hfresh : txt "_End_line" ∉ kvs.map Prod.fst) :
    scanFrom mode extended (some (s.setKeys kvs)) true (txt "<<<test_end>>>" ++ ['\n']) =
      (testEnd mode extended
        ((s.setKeys kvs).checkMode (txt "<<<test_end>>>") [.tstKey] .outside).reports (some ctag)
        (some (flat (kvs ++ [(txt "_End_line", natText s.yylineno)])))).map
        (s.afterTest (s.yylineno + 1) ctag
          (flat (kvs ++ [(txt "_End_line", natText s.yylineno)]))) := by
  have hcuts' : (s.setKeys kvs).cond ≠ .cuts := hcuts
  rw [scanFrom_marker (q := .testEnd) rfl hcuts', action_testEnd hctag hfresh]
  generalize testEnd mode extended _ _ _ = r
  cases r with
  | none => exact scanFrom_none _
  | some reports =>
      rw [Option.map_some, scanFrom_newline (Or.inl rfl), scanFrom_nil]
      rfl

/-- The state in which the execution status is read. -/
def Scanner.inStatus (s : Scanner) (line : Nat) : Scanner :=
  { s with cond := .key, mode := .tstKey, ctag := some (.dir []), yylineno := line }

theorem action_execStatus (line : Nat) (kvs : List (Text × Text)) (u : Text) :
    (s.inOutput line kvs).action mode extended u .execStatus =
      some ((s.inStatus line).setKeys kvs) := by
  rw [Scanner.action, Scanner.checkMode_eq (show ScanMode.output ∈ [.tstKey, .output] by decide)]
  rfl

/-- The keys of the execution status. -/
def statusKeys (initStatus : Text) (duration : Int) (termType : Text) (termId statLoc : Nat)
    (cutime cstime : Int) : List (Text × Text) :=
  (statusItems initStatus duration termType termId statLoc cutime cstime).map
    fun i => (i.key, i.value)

/-- The execution status behind output that ends with its last line. -/
theorem scanFrom_status {cmd : CollEntry} {n : Nat} {mystime : Int} (htags : TagKeys name tags)
    (hkvs : kvs = startKeys n tags cmd mystime) {initStatus : Text} (hstatus : IsQuoted initStatus)
    (hnul : '\x00' ∉ initStatus) (line : Nat) (duration : Int) (termType : TermType)
    (termId statLoc : Nat) (cutime cstime : Int) :
    scanFrom mode extended (some (s.inOutput line kvs)) true
        (testEndText initStatus duration termType.text termId statLoc cutime cstime) =
      let keys := flat (kvs ++ statusKeys initStatus duration termType.text termId statLoc cutime
        cstime ++ [(txt "_End_line", natText (line + 4))])
      (testEnd mode extended s.reports (some (.dir [])) (some keys)).map
        (s.afterTest (line + 5) (.dir []) keys) := by
  have hfresh : (kvs.map Prod.fst ++ (statusItems initStatus duration termType.text termId statLoc
      cutime cstime).map KeyItem.key ++ [txt "_End_line"]).Nodup := by
    have hmissing : [txt "_Start_line", txt "stime", txt "cmdline", txt "contacts", txt "analysis",
      txt "initiation_status", txt "duration", txt "termination_type", txt "termination_id",
      txt "corefile", txt "cutime", txt "cstime", txt "_End_line"].Nodup := by decide
    have htag : [txt "_Start_line", txt "tag", txt "stime", txt "cmdline", txt "contacts",
      txt "analysis", txt "initiation_status", txt "duration", txt "termination_type",
      txt "termination_id", txt "corefile", txt "cutime", txt "cstime",
      txt "_End_line"].Nodup := by decide
    rcases htags.startKeys_keys n cmd mystime with h | h <;> rw [hkvs, h]
    · exact hmissing
    · exact htag
  obtain ⟨hitemsFresh, -, hend⟩ := List.nodup_append.mp hfresh
  have hspace := @scanFrom_keySpace mode extended ((s.inStatus line).setKeys kvs) false ['\n']
    ((statusItems initStatus duration termType.text termId statLoc cutime cstime).flatMap
      KeyItem.text ++ (txt "<<<test_end>>>" ++ ['\n'])) rfl (by decide) (by decide)
    ⟨'i', _, by decide, rfl⟩
  have hitems := @scanFrom_items mode extended (s.inStatus (line + 1)) true kvs rfl _
    (good_statusItems hstatus hnul duration termType termId statLoc cutime cstime) hitemsFresh
    (txt "<<<test_end>>>" ++ ['\n']) ⟨'<', _, by decide, rfl⟩
  have hnew : txt "_End_line" ∉ (kvs ++ statusKeys initStatus duration termType.text termId statLoc
      cutime cstime).map Prod.fst := by
    intro hmem
    rw [List.map_append, statusKeys, List.map_map] at hmem
    exact hend _ hmem _ (by simp) rfl
  have htestEnd := @scanFrom_testEnd mode extended (s.inStatus (line + 4)) _ _
    (show Cond.key ≠ .cuts by decide) rfl hnew
  rw [Scanner.checkMode_eq (show ScanMode.tstKey ∈ [.tstKey] by decide)] at htestEnd
  rw [testEndText_eq, scanFrom_marker (q := .execStatus) rfl (show Cond.out ≠ .cuts by decide),
    action_execStatus]
  exact hspace.trans (hitems.trans htestEnd)

end EDDTs.Pan
