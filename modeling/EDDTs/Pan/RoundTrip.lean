import EDDTs.Pan.ReporterRuns
import EDDTs.Pan.ScanSpoiled

/-!
# From `ltp-pan` to the report

The block that `ltp-pan` writes for a test that was started and has exited, read
by the lexer, stored and reported. The block survives unless a tag, a command
line or an output takes part in its syntax.
-/

namespace EDDTs.Pan

open Library Scan

/-- `ltp-scanner`: the state at the end of the input, and what has been printed
behind the header. -/
def ltpScanner (mode : ReporterMode) (extended : Bool) (date : Text → Text) (input : Text) :
    Option (Scanner × List Printed) :=
  (scanner mode extended input).bind fun s =>
    (reporter mode extended date s.reports.alltags).map fun printed =>
      (s, s.reports.stdout ++ printed)

/-- A test that was started and has exited. -/
structure ExitedTest where
  cmd : CollEntry
  mystime : Int
  output : Text
  duration : Int
  /-- what `WEXITSTATUS` gives -/
  code : Nat
  cutime : Int
  cstime : Int

namespace ExitedTest

/-- The rest of the block behind the output. -/
def statusText (x : ExitedTest) : Text :=
  testEndText (txt "ok") x.duration TermType.exited.text x.code (256 * x.code) x.cutime x.cstime

/-- The block of the test. -/
def text (x : ExitedTest) : Text :=
  testStartText x.cmd x.mystime ++ (x.output ++ x.statusText)

end ExitedTest

/-- The lines of a report that are not of the extended format. -/
def reportLines (printed : List Printed) : List ReportLine :=
  printed.filterMap fun
    | .line l => some l
    | .extended _ => none

/-- The keys of the test are stored as they were written, and its one line says
that it passed if its exit status is zero. -/
def ReportedAsWritten (mode : ReporterMode) (extended : Bool) (date : Text → Text)
    (x : ExitedTest) : Prop :=
  ∃ s printed, ltpScanner mode extended date x.text = some (s, printed) ∧
    (∃ ctag keys, s.ended = [(ctag, keys)] ∧ symText keys (txt "tag") = some x.cmd.name ∧
      symText keys (txt "cmdline") = some x.cmd.cmdline ∧
      symText keys (txt "termination_type") = some TermType.exited.text) ∧
    ∃ l, reportLines printed = [l] ∧ l.tag = x.cmd.name ∧ (l.result = txt "pass" ↔ x.code = 0)

/-- Nothing of the test takes part in the syntax of its block; in the report over
all tags the tag must also be a key of one component. -/
structure ExitedTest.Survives (mode : ReporterMode) (x : ExitedTest) : Prop where
  name_ne : x.cmd.name ≠ []
  name_unquoted : ¬ QuotedTag x.cmd.name
  cmdline_quote : '"' ∉ x.cmd.cmdline
  cmdline_newline : '\n' ∉ x.cmd.cmdline
  output_lines : x.output = [] ∨ ∃ u, x.output = u ++ ['\n']
  component : mode = .scanner → ∃ c, SoleComponent x.cmd.name c ∧ c ≠ txt "_RTS" ∧ c.length ≤ 242

variable {mode : ReporterMode} {extended : Bool} {date : Text → Text} {x : ExitedTest}

/-! ## What is stored -/

namespace ExitedTest

/-- The keys of the whole block. -/
def keys (x : ExitedTest) (tags : List (Text × Text)) (line : Nat) : List (Text × Text) :=
  startKeys 1 tags x.cmd x.mystime ++
    statusKeys (txt "ok") x.duration TermType.exited.text x.code (256 * x.code) x.cutime x.cstime ++
    [(txt "_End_line", natText line)]

/-- The keys of a block whose status was taken for output. -/
def cutKeys (x : ExitedTest) (tags : List (Text × Text)) (line : Nat) : List (Text × Text) :=
  startKeys 1 tags x.cmd x.mystime ++ [(txt "_End_line", natText line)]

end ExitedTest

theorem marker_marked {q : Token} {m : Text} (h : marker q = some m) :
    (txt "<<<").isPrefixOf m = true := by
  cases q <;> cases h <;> decide

theorem output_lines_plain {ls : List Text} {o : Text} (hls : ∀ l ∈ ls, '\n' ∉ l)
    (hout : markers (unlines ls ++ o) = []) :
    ∀ l ∈ ls, '\n' ∉ l ∧ ∀ q, marker q ≠ some l := by
  intro l hl
  refine ⟨hls l hl, fun q hq => ?_⟩
  have hline : l ∈ lines (unlines ls ++ o) := by
    rw [lines_unlines_append hls]
    exact List.mem_append_left _ hl
  have hmarked : l ∈ markers (unlines ls ++ o) := List.mem_filter.mpr ⟨hline, marker_marked hq⟩
  rw [hout] at hmarked
  cases hmarked

section GoodCommandLine

variable (hcmd : x.cmd.Read) (hquote : '"' ∉ x.cmd.cmdline) (hnl : '\n' ∉ x.cmd.cmdline)
  (hout : markers x.output = [])

include hcmd hquote hnl hout

/-- The scanner behind the whole lines of the output. -/
theorem scanner_output : ∃ ls o tags, x.output = unlines ls ++ o ∧ '\n' ∉ o ∧
    TagKeys x.cmd.name tags ∧ scanner mode extended x.text = scanFrom mode extended
      (some (Scanner.initial.inOutput (7 + ls.length) (startKeys 1 tags x.cmd x.mystime))) true
      (o ++ x.statusText) := by
  obtain ⟨ls, o, houtput, hls, ho⟩ := exists_unlines x.output
  obtain ⟨tags, htags, hstart⟩ := @scanFrom_testStart mode extended .initial rfl rfl x.cmd hcmd
    hquote hnl x.mystime (x.output ++ x.statusText)
  refine ⟨ls, o, tags, houtput, ho, htags, ?_⟩
  rw [houtput] at hout
  rw [scanner, ExitedTest.text, hstart, houtput, List.append_assoc,
    scanFrom_outputLines (output_lines_plain hls hout)]
  rfl

/-- A block with whole lines of output. -/
theorem scanner_whole (hend : x.output = [] ∨ ∃ u, x.output = u ++ ['\n']) :
    ∃ tags line, TagKeys x.cmd.name tags ∧
      scanner mode extended x.text =
        (testEnd mode extended .initial (some (.dir [])) (some (flat (x.keys tags line)))).map
          (Scanner.initial.afterTest (line + 1) (.dir []) (flat (x.keys tags line))) := by
  obtain ⟨ls, o, tags, houtput, ho, htags, hscan⟩ := scanner_output hcmd hquote hnl hout
  rw [houtput] at hend
  obtain rfl := (whole_lines_iff ho).mp hend
  refine ⟨tags, 7 + ls.length + 4, htags, hscan.trans ?_⟩
  exact scanFrom_status htags rfl ⟨by decide, by decide⟩ (by decide) _ _ _ _ _ _ _

/-- A block whose output does not end with a newline. -/
theorem scanner_cut (hend : ¬ (x.output = [] ∨ ∃ u, x.output = u ++ ['\n'])) :
    ∃ tags line reports, TagKeys x.cmd.name tags ∧
      scanner mode extended x.text =
        (testEnd mode extended reports (some (.dir [])) (some (flat (x.cutKeys tags line)))).map
          (Scanner.initial.afterTest (line + 1) (.dir []) (flat (x.cutKeys tags line))) := by
  obtain ⟨ls, o, tags, houtput, ho, htags, hscan⟩ := scanner_output hcmd hquote hnl hout
  rw [houtput] at hend
  have hne : o ≠ [] := fun h => hend ((whole_lines_iff ho).mpr h)
  have hfresh : txt "_End_line" ∉ (startKeys 1 tags x.cmd x.mystime).map Prod.fst := by
    rcases htags.startKeys_keys 1 x.cmd x.mystime with h | h <;> rw [h] <;> decide
  obtain ⟨reports, hcut⟩ := @scanFrom_cutOutput mode extended .initial (txt "ok") x.duration .exited
    x.code (256 * x.code) x.cutime x.cstime _ hfresh o hne ho (by decide) (7 + ls.length)
  exact ⟨tags, 7 + ls.length + 4, reports, htags, hscan.trans hcut⟩

end GoodCommandLine

section Stored

variable {s : Scanner} {ctag table : Table}

/-- No value that is handed to `test_end` has a newline. -/
theorem stored_no_newline {t : Text} (hs : scanner mode extended t = some s)
    (hended : (ctag, table) ∈ s.ended) {key value : Text} (hkey : keyPath key = [key])
    (hget : symText table key = some value) : '\n' ∉ value := by
  have hinitial : KeysInv (fun kvs => ∀ e ∈ kvs, '\n' ∉ e.2) .initial :=
    ⟨fun t ht => (by cases ht), fun e he => (by cases he)⟩
  obtain ⟨kvs, hkvs, hvalues⟩ := (keys_no_newline hinitial hs).ended _ hended
  obtain rfl : table = flat kvs := hkvs
  rw [symText_flat hkey] at hget
  obtain ⟨before, after, rfl, -⟩ := List.lookup_eq_some_iff.mp hget
  exact hvalues (key, value) (by simp)

/-- A command line with a quote is not handed to `test_end`. -/
theorem stored_no_quote (hcmd : x.cmd.Read) (hnl : '\n' ∉ x.cmd.cmdline)
    (hout : markers x.output = []) (hs : scanner mode extended x.text = some s)
    (hended : (ctag, table) ∈ s.ended)
    (hget : symText table (txt "cmdline") = some x.cmd.cmdline) : '"' ∉ x.cmd.cmdline := by
  intro hquote
  have hkey : keyPath (txt "cmdline") = [txt "cmdline"] := by decide
  obtain ⟨tags, htags, hline⟩ := @scanFrom_tagLine mode extended .initial x.cmd.name rfl rfl
    hcmd.name_plain x.mystime _ (⟨'c', _, by decide, rfl⟩ : NoBlankAhead
      ((cmdlineItem x.cmd.cmdline).text ++ (analysisItems.flatMap KeyItem.text ++
        (txt "<<<test_output>>>" ++ '\n' :: (x.output ++ x.statusText)))))
  have hfresh : txt "cmdline" ∉ (tagLineKeys 1 tags x.mystime).map Prod.fst := by
    rw [tagLineKeys, List.map_append, List.map_cons]
    rcases htags.keys with h | h <;> rw [h]
    · exact show txt "cmdline" ∉ [txt "_Start_line", txt "stime"] by decide
    · exact show txt "cmdline" ∉ [txt "_Start_line", txt "tag", txt "stime"] by decide
  obtain ⟨w, t, hw, ht, hbad⟩ := @scanFrom_badCmdline mode extended
    (Scanner.initial.started.countLines (txt "\n\n")) true _ _ rfl hfresh hquote
    hcmd.cmdline_no_nul (analysisItems.flatMap KeyItem.text ++
        (txt "<<<test_output>>>" ++ '\n' :: (x.output ++ x.statusText)))
  have hsuffix : t <:+ x.text := by
    refine ht.trans ?_
    rw [ExitedTest.text, testStartText_eq]
    exact ⟨txt "<<<test_start>>>" ++ '\n' :: (txt "tag" ++ '=' :: (x.cmd.name ++ ' ' ::
      [stimeItem x.mystime].flatMap KeyItem.text)), by simp⟩
  have hrest : NoRestart false t := noRestart_block hcmd hnl hout (by decide) hsuffix
  have hstored : KeysInv (fun kvs => kvs.lookup (txt "cmdline") = some w)
      ((Scanner.initial.started.countLines (txt "\n\n")).setKeys
        (tagLineKeys 1 tags x.mystime ++ [(txt "cmdline", w)])) := by
    refine ⟨fun t ht => ⟨_, (Option.some.inj ht).symm, ?_⟩, fun e he => by cases he⟩
    have hnone : (tagLineKeys 1 tags x.mystime).lookup (txt "cmdline") = none :=
      Option.not_isSome_iff_eq_none.mp fun h => hfresh ((lookup_isSome_iff _ _).mp h)
    rw [List.lookup_append, hnone]
    rfl
  rw [scanner, ExitedTest.text, testStartText_eq, hline] at hs
  obtain ⟨kvs, hkvs, hlookup⟩ := (lookup_stays hstored hrest (hbad ▸ hs)).ended _ hended
  obtain rfl : table = flat kvs := hkvs
  rw [symText_flat hkey, hlookup] at hget
  exact hw (Option.some.inj hget)

end Stored

/-! ## What is reported -/

/-- The line of a test that has exited. -/
def exitedLine (name : Text) (code : Nat) : ReportLine :=
  { tag := name, tcid := txt "-", tc := txt "-"
    result := if code = 0 then txt "pass" else txt "fail", contact := ['"', '"'] }

theorem natText_eq_zero {n : Nat} : natText n = txt "0" ↔ n = 0 :=
  ⟨fun h => natText_injective (h.trans rfl), fun h => h ▸ rfl⟩

theorem reportLines_line (l : ReportLine) (tag is : Text) (tt : Option Text) (table : Table) :
    reportLines (.line l :: extendedLine extended tag is tt table) = [l] := by
  cases extended <;> rfl

variable {name : Text} {tags : List (Text × Text)}

/-- `tag_report` of a test that has exited and left no core. -/
theorem tagReport_exited {ctag table : Table} {code : Nat}
    (htag : symText table (txt "tag") = some name)
    (hstatus : symText table (txt "initiation_status") = some (txt "ok"))
    (hcore : symText table (txt "corefile") = some (txt "no"))
    (htype : symText table (txt "termination_type") = some (txt "exited"))
    (hanalysis : symText table (txt "analysis") = some (txt "exit"))
    (hid : symText table (txt "termination_id") = some (natText code))
    (hcontacts : symText table (txt "contacts") = some ['"', '"']) :
    tagReport extended ctag table = some (.line (exitedLine name code) ::
      extendedLine extended name (txt "ok") (some (txt "exited")) table, 0) := by
  have hline : ∀ word : Text, ' ' ∉ word → word ≠ [] →
      testResult name none none (.literal word) table =
        some [{ tag := name, tcid := txt "-", tc := txt "-", result := word,
                contact := ['"', '"'] }] := by
    intro word hblank hne
    simp only [testResult, ResultArg.translated, if_neg hblank, hcontacts, if_neg hne]
    rfl
  have hverdict : verdict ctag table name (txt "exited") (txt "exit") =
      some [exitedLine name code] := by
    have hnone : ¬ (txt "none").isPrefixOf (txt "exit") = true := by decide
    have hcuts : ¬ (txt "cuts").isPrefixOf (txt "exit") = true := by decide
    have htimeout : txt "exited" ≠ txt "timeout" := by decide
    rw [verdict, if_neg hnone, if_neg hcuts, if_neg htimeout, hid, exitedLine]
    by_cases hzero : code = 0
    · simp only [natText_eq_zero.mpr hzero, if_true, if_pos hzero]
      exact hline _ (by decide) (by decide)
    · simp only [if_neg fun h => hzero (natText_eq_zero.mp h), if_neg hzero]
      exact hline _ (by decide) (by decide)
  simp only [tagReport, htag, hstatus, if_true, okReport, hcore, htype, hanalysis, hverdict]
  rfl

theorem coreText_exited (code : Nat) : coreText (256 * code) = txt "no" := by
  have hbit : ¬ 256 * code / 128 % 2 = 1 := by omega
  rw [coreText, if_neg hbit]

/-- The tag of a block is stored as it was written. -/
theorem TagKeys.of_lookup (h : TagKeys name tags) {line : Nat} {cmd : CollEntry} {mystime : Int}
    {rest : List (Text × Text)}
    (hlookup : (startKeys line tags cmd mystime ++ rest).lookup (txt "tag") = some name)
    (hrest : rest.lookup (txt "tag") = none) :
    name ≠ [] ∧ ¬ QuotedTag name ∧ tags = [(txt "tag", name)] := by
  rw [List.lookup_append, hrest, Option.or_none] at hlookup
  cases h with
  | missing => cases hlookup
  | @unquoted x hne hx =>
      have heq : x = '"' :: (x ++ ['"']) := Option.some.inj hlookup
      have hlength := congrArg List.length heq
      simp only [List.length_cons, List.length_append, List.length_nil] at hlength
      omega
  | plain hne hname => exact ⟨hne, hname, rfl⟩

namespace ExitedTest

variable (x : ExitedTest) (line : Nat)

/-- The table of a block whose tag is stored as it was written. -/
def table : Table := flat (x.keys [(txt "tag", x.cmd.name)] line)

theorem symText_table {key value : Text} (hkey : keyPath key = [key])
    (h : (x.keys [(txt "tag", x.cmd.name)] line).lookup key = some value) :
    symText (x.table line) key = some value := (symText_flat hkey _).trans h

theorem table_tag : symText (x.table line) (txt "tag") = some x.cmd.name :=
  x.symText_table line (by decide) rfl

theorem table_status : symText (x.table line) (txt "initiation_status") = some (txt "ok") :=
  x.symText_table line (by decide) rfl

theorem table_type : symText (x.table line) (txt "termination_type") = some (txt "exited") :=
  x.symText_table line (by decide) rfl

theorem table_stime : (symText (x.table line) (txt "stime")).isSome :=
  Option.isSome_iff_exists.mpr ⟨_, x.symText_table line (by decide) rfl⟩

theorem tagReport_table (ctag : Table) :
    tagReport extended ctag (x.table line) = some (.line (exitedLine x.cmd.name x.code) ::
      extendedLine extended x.cmd.name (txt "ok") (some (txt "exited")) (x.table line), 0) := by
  have hcore : symText (x.table line) (txt "corefile") = some (txt "no") :=
    (x.symText_table line (by decide) rfl).trans (congrArg some (coreText_exited x.code))
  exact tagReport_exited (x.table_tag line) (x.table_status line) hcore (x.table_type line)
    (x.symText_table line (by decide) rfl) (x.symText_table line (by decide) rfl)
    (x.symText_table line (by decide) rfl)

/-- The block as the reporters get it. -/
def block (hcmd : x.cmd.Read) (hne : x.cmd.name ≠ []) : TestBlock where
  tag := x.cmd.name
  status := txt "ok"
  results := []
  keys := x.table line
  tag_ne := hne
  tag_plain := hcmd.name_plain
  results_dir := List.forall_mem_nil _
  keys_tag := x.table_tag line
  keys_status := x.table_status line
  keys_stime := x.table_stime line

end ExitedTest

/-- A block that is read whole and reported by its line. -/
theorem reportedAsWritten_of_reports {line : Nat} {reports : Reports} {printed : List Printed}
    (hscan : scanner mode extended x.text =
      some (Scanner.initial.afterTest (line + 1) (.dir []) (x.table line) reports))
    (hreport : reporter mode extended date reports.alltags = some printed)
    (hlines : reportLines (reports.stdout ++ printed) = [exitedLine x.cmd.name x.code]) :
    ReportedAsWritten mode extended date x := by
  refine ⟨Scanner.initial.afterTest (line + 1) (.dir []) (x.table line) reports,
    reports.stdout ++ printed, ?_, ⟨.dir [], x.table line, rfl,
      x.table_tag line, x.symText_table line (by decide) rfl, x.table_type line⟩, _, hlines, rfl,
    ?_⟩
  · rw [ltpScanner, hscan, Option.bind_some]
    exact congrArg _ hreport
  · have hfail : txt "fail" ≠ txt "pass" := by decide
    simp only [exitedLine]
    split
    next h => exact iff_of_true rfl h
    next h => exact iff_of_false hfail h

/-- What is printed comes from a call with a tag. -/
theorem mem_calls_of_printed {calls : List (Table × Table)} {reports : List (List Printed × Int)}
    (h : calls.mapM (fun call => tagReport extended call.1 call.2) = some reports)
    (hprinted : reports.flatMap Prod.fst ≠ []) :
    ∃ call ∈ calls, ∃ tag, symText call.2 (txt "tag") = some tag := by
  induction calls generalizing reports with
  | nil =>
      obtain rfl := Option.some.inj h
      exact absurd rfl hprinted
  | cons call calls ih =>
      rw [List.mapM_cons] at h
      obtain ⟨report, hreport, h⟩ := Option.bind_eq_some_iff.mp h
      obtain ⟨rest, hrest, h⟩ := Option.bind_eq_some_iff.mp h
      obtain rfl := Option.some.inj h
      cases htag : symText call.2 (txt "tag") with
      | some tag => exact ⟨call, by simp, tag, htag⟩
      | none =>
          -- a table without a tag is not reported
          rw [tagReport, htag] at hreport
          obtain rfl := Option.some.inj hreport
          obtain ⟨call', hcall', htag'⟩ := ih hrest (by simpa using hprinted)
          exact ⟨call', List.mem_cons_of_mem call hcall', htag'⟩

section Reports

variable {line : Nat} (hcmd : x.cmd.Read) (hne : x.cmd.name ≠ [])

include hcmd hne

theorem tagsApart_block {c : Text} (hc : SoleComponent x.cmd.name c) (hrts : c ≠ txt "_RTS")
    (hlength : c.length ≤ 242) : TagsApart [x.block line hcmd hne] := by
  refine ⟨?_, ?_, ?_⟩
  · intro b hb
    rw [List.mem_singleton.mp hb]
    exact ⟨c, hc, hrts, Nat.le_trans hlength (by decide)⟩
  · intro b hb b' hb' _ _ _
    rw [List.mem_singleton.mp hb, List.mem_singleton.mp hb']
  · intro b hb c' hc'
    obtain rfl := Option.some.inj hb
    have hpath := (soleComponent_iff.mpr hc).symm.trans (soleComponent_iff.mpr hc')
    rw [← (List.cons.inj hpath).1]
    exact hlength

theorem reported_scanner {c : Text} (hc : SoleComponent x.cmd.name c) (hrts : c ≠ txt "_RTS")
    (hlength : c.length ≤ 242) :
    ∃ reports printed,
      testEnd .scanner extended .initial (some (.dir [])) (some (x.table line)) = some reports ∧
      reporter .scanner extended date reports.alltags = some printed ∧
      reportLines (reports.stdout ++ printed) = [exitedLine x.cmd.name x.code] := by
  have hapart := @tagsApart_block x line hcmd hne c hc hrts hlength
  have hkept : [x.block line hcmd hne].foldl keep [] = [x.block line hcmd hne] := rfl
  have hrecord := recorded_kept hapart
  have hcalls := @scannerReporter_kept _ _ date hapart
  rw [hkept] at hrecord hcalls
  have htestEnd := scannerTestEnd_block .initial (x.block line hcmd hne)
  rw [List.foldlM_cons] at hrecord
  obtain ⟨tags, hblock, htags⟩ := Option.bind_eq_some_iff.mp hrecord
  obtain rfl := Option.some.inj htags
  have hinitial : Reports.initial.alltags = .dir [] := rfl
  rw [hinitial, hblock] at htestEnd
  have hprint : reporter .scanner extended date (keptTable [x.block line hcmd hne]) =
      some (.line (exitedLine x.cmd.name x.code) ::
        extendedLine extended x.cmd.name (txt "ok") (some (txt "exited")) (x.table line)) := by
    have hcall := @ExitedTest.tagReport_table extended x line (x.block line hcmd hne).table
    rw [reporter, hcalls, List.map_cons, List.map_nil]
    simp only [List.mapM_cons, List.mapM_nil, show (x.block line hcmd hne).keys = x.table line
      from rfl, hcall]
    simp
  exact ⟨_, _, htestEnd, hprint, reportLines_line _ _ _ _ _⟩

/-- A line in the report over all tags comes from a tag of one component. -/
theorem component_of_reported {reports : Reports} {printed : List Printed}
    (htestEnd : testEnd .scanner extended .initial (some (.dir [])) (some (x.table line)) =
      some reports)
    (hreport : reporter .scanner extended date reports.alltags = some printed)
    (hlines : reports.stdout ++ printed ≠ []) :
    ∃ c, SoleComponent x.cmd.name c ∧ c ≠ txt "_RTS" ∧ c.length ≤ 242 := by
  have hblock := (scannerTestEnd_block .initial (x.block line hcmd hne)).symm.trans htestEnd
  obtain ⟨tags, hrecord, rfl⟩ := Option.map_eq_some_iff.mp hblock
  have hinv := TagsInv.initial.record hrecord
  have hblocks : [x.block line hcmd hne].foldlM record (.dir []) = some tags := by
    rw [List.foldlM_cons]
    exact Option.bind_eq_some_iff.mpr ⟨tags, hrecord, rfl⟩
  simp only [reporter] at hreport
  split at hreport
  · cases hreport
  next calls hcalls =>
    obtain ⟨tags', hdate, hcalls⟩ := scannerReporter_spec hcalls
    obtain ⟨printedBy, hprinted, rfl⟩ := Option.map_eq_some_iff.mp hreport
    obtain ⟨call, hcall, tag, htag⟩ := mem_calls_of_printed hprinted hlines
    obtain ⟨c, hleaf, hrts, -⟩ := tag_of_call hinv hdate hcalls hcall htag
    rcases tag_of_record hrecord hleaf with hold | ⟨hpath, -⟩
    · cases hold
    · exact ⟨c, soleComponent_iff.mp hpath, hrts, first_fits hblocks hdate hpath⟩

end Reports

theorem TagKeys.eq_plain (h : TagKeys name tags) (hne : name ≠ []) (hname : ¬ QuotedTag name) :
    tags = [(txt "tag", name)] := by
  cases h with
  | missing => exact absurd rfl hne
  | @unquoted x hxne hx => exact absurd ⟨x, hxne, hx, rfl⟩ hname
  | plain _ _ => rfl

theorem ExitedTest.cutKeys_type (h : TagKeys name tags) (x : ExitedTest) (line : Nat) :
    symText (flat (x.cutKeys tags line)) (txt "termination_type") = none := by
  rw [symText_flat (by decide)]
  cases h <;> rfl

theorem reported_iscanner {line : Nat} :
    ∃ reports printed,
      testEnd .iscanner extended .initial (some (.dir [])) (some (x.table line)) = some reports ∧
      reporter .iscanner extended date reports.alltags = some printed ∧
      reportLines (reports.stdout ++ printed) = [exitedLine x.cmd.name x.code] := by
  have htestEnd : iscannerTestEnd extended .initial (.dir []) (x.table line) =
      some { Reports.initial with
        stdout := [] ++ (.line (exitedLine x.cmd.name x.code) ::
          (extendedLine extended x.cmd.name (txt "ok") (some (txt "exited")) (x.table line))) } := by
    rw [iscannerTestEnd, x.tagReport_table]
    rfl
  refine ⟨_, [], htestEnd, rfl, ?_⟩
  rw [List.append_nil]
  exact reportLines_line _ _ _ _ _

theorem reportedAsWritten_of_survives (hcmd : x.cmd.Read) (hout : markers x.output = [])
    (h : x.Survives mode) : ReportedAsWritten mode extended date x := by
  obtain ⟨tags, line, htags, hscan⟩ := @scanner_whole mode extended x hcmd h.cmdline_quote
    h.cmdline_newline hout h.output_lines
  obtain rfl := htags.eq_plain h.name_ne h.name_unquoted
  have hreport : ∃ reports printed,
      testEnd mode extended .initial (some (.dir [])) (some (x.table line)) = some reports ∧
      reporter mode extended date reports.alltags = some printed ∧
      reportLines (reports.stdout ++ printed) = [exitedLine x.cmd.name x.code] := by
    cases mode with
    | scanner =>
        obtain ⟨c, hc, hrts, hlength⟩ := h.component rfl
        exact reported_scanner hcmd h.name_ne hc hrts hlength
    | iscanner => exact reported_iscanner
  obtain ⟨reports, printed, htestEnd, hprinted, hlines⟩ := hreport
  have hafter : scanner mode extended x.text =
      some (Scanner.initial.afterTest (line + 1) (.dir []) (x.table line) reports) :=
    hscan.trans (congrArg _ htestEnd)
  exact reportedAsWritten_of_reports hafter hprinted hlines

theorem survives_of_reportedAsWritten (hcmd : x.cmd.Read) (hout : markers x.output = [])
    (h : ReportedAsWritten mode extended date x) : x.Survives mode := by
  obtain ⟨s, printed, hrun, ⟨ctag, table, hended, htag, hcmdline, htype⟩, l, hlines, -⟩ := h
  obtain ⟨s', hscan, hmap⟩ := Option.bind_eq_some_iff.mp hrun
  obtain ⟨printed', hreport, heq⟩ := Option.map_eq_some_iff.mp hmap
  obtain ⟨rfl, rfl⟩ := Prod.mk.inj heq
  have hmem : (ctag, table) ∈ s'.ended := hended ▸ List.mem_singleton.mpr rfl
  have hnl := stored_no_newline hscan hmem (by decide) hcmdline
  have hquote := stored_no_quote hcmd hnl hout hscan hmem hcmdline
  have hend : x.output = [] ∨ ∃ u, x.output = u ++ ['\n'] := by
    by_contra hcut
    obtain ⟨tags, line, reports, htags, hcutScan⟩ := @scanner_cut mode extended x hcmd hquote hnl
      hout hcut
    obtain ⟨reports', -, rfl⟩ := Option.map_eq_some_iff.mp (hcutScan.symm.trans hscan)
    obtain ⟨-, rfl⟩ := Prod.mk.inj (List.cons.inj hended).1
    rw [x.cutKeys_type htags] at htype
    cases htype
  obtain ⟨tags, line, htags, hwhole⟩ := @scanner_whole mode extended x hcmd hquote hnl hout hend
  obtain ⟨reports, htestEnd, rfl⟩ := Option.map_eq_some_iff.mp (hwhole.symm.trans hscan)
  obtain ⟨-, rfl⟩ := Prod.mk.inj (List.cons.inj hended).1
  rw [symText_flat (by decide), ExitedTest.keys, List.append_assoc] at htag
  obtain ⟨hne, hunquoted, rfl⟩ := htags.of_lookup htag rfl
  refine ⟨hne, hunquoted, hquote, hnl, hend, ?_⟩
  rintro rfl
  refine component_of_reported hcmd hne htestEnd hreport ?_
  intro hnil
  have hline : reportLines (reports.stdout ++ printed') = [l] := hlines
  rw [hnil] at hline
  cases hline

/-- A test with a plain command line and one line of output. -/
def helloTest : ExitedTest :=
  { cmd := { name := txt "t01", cmdline := txt "true -x y", pcntF := false }, mystime := 5
    output := txt "hello\n", duration := 1, code := 0, cutime := 0, cstime := 2 }

/-- A test whose command line has quotes, as a collection may have it. -/
def quotedTest : ExitedTest :=
  { cmd := { name := txt "t01", cmdline := txt "sh -c \"exit 0\"", pcntF := false }, mystime := 5
    output := [], duration := 1, code := 0, cutime := 0, cstime := 2 }

end EDDTs.Pan
