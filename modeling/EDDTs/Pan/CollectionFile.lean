import EDDTs.Pan.FailFile

/-!
# Command files

What `get_collection` reads from a file that is written row by row: entries, comments and
empty lines. The file is read at once, cut at the newlines, and each line of an entry is
cut again at its first blank or tab.
-/

namespace EDDTs.Pan

open Library

/-- The tag of an entry. -/
structure IsTag (tag : Text) : Prop where
  ne_nil : tag ≠ []
  no_space : ∀ c ∈ tag, isspace c = false
  not_comment : tag.head? ≠ some '#'
  no_nul : '\x00' ∉ tag

/-- The command of an entry. -/
structure IsCommand (cmdline : Text) : Prop where
  begins : Begins cmdline
  one_line : '\n' ∉ cmdline
  no_nul : '\x00' ∉ cmdline

/-- A line of a command file. -/
inductive CollRow where
  | entry (tag sep cmdline : Text)
  | comment (text : Text)
  | empty
  deriving DecidableEq, Repr

namespace CollRow

def line : CollRow → Text
  | entry tag sep cmdline => tag ++ (sep ++ cmdline)
  | comment text => '#' :: text
  | empty => []

def WellFormed : CollRow → Prop
  | entry tag sep cmdline => IsTag tag ∧ IsSep sep ∧ IsCommand cmdline
  | comment text => '\n' ∉ text ∧ '\x00' ∉ text
  | empty => True

/-- The tag and the command of a row. -/
def pair? : CollRow → Option (Text × Text)
  | entry tag _ cmdline => some (tag, cmdline)
  | comment _ => none
  | empty => none

end CollRow

/-- The text of a file, with or without a newline at its end. -/
def fileText (rows : List CollRow) (final : Bool) : Text :=
  ['\n'].intercalate (rows.map CollRow.line) ++ if final then ['\n'] else []

/-- The entry that is read for a tag and a command. -/
def pairEntry (pair : Text × Text) : CollEntry := CollEntry.reread ⟨pair.1, pair.2, false⟩

section Rows

variable {row : CollRow} {rows : List CollRow}

theorem IsTag.no_sep {tag : Text} (h : IsTag tag) : ∀ c ∈ tag, c ≠ ' ' ∧ c ≠ '\t' := by
  intro c hc
  have hspace := h.no_space c hc
  constructor
  · rintro rfl
    cases hspace
  · rintro rfl
    cases hspace

/-- The lines of a file have neither newlines nor NULs. -/
theorem CollRow.WellFormed.plain (h : row.WellFormed) : '\n' ∉ row.line ∧ '\x00' ∉ row.line := by
  cases row with
  | entry tag sep cmdline =>
      obtain ⟨htag, hsep, hcmd⟩ := h
      have htagline : '\n' ∉ tag := fun hmem => by cases htag.no_space _ hmem
      have hsepline : '\n' ∉ sep ∧ '\x00' ∉ sep := by
        refine ⟨fun hmem => ?_, fun hmem => ?_⟩
        · exact absurd (hsep.blank _ hmem) (by decide)
        · exact absurd (hsep.blank _ hmem) (by decide)
      simp [line, htagline, hsepline, hcmd.one_line, htag.no_nul, hcmd.no_nul]
  | comment text => simpa [line] using (show '\n' ∉ text ∧ '\x00' ∉ text from h)
  | empty => simp [line]

/-- What a row contributes to the list of entries. -/
theorem fileEntries_row (h : row.WellFormed) (rest : List Text) {ns : List CollEntry}
    (hrest : fileEntries rest = .ok ns) :
    fileEntries (row.line :: rest) = .ok ((row.pair?.map pairEntry).toList ++ ns) := by
  cases row with
  | entry tag sep cmdline =>
      obtain ⟨htag, hsep, hcmd⟩ := h
      obtain ⟨c, t, rfl⟩ := List.exists_cons_of_ne_nil htag.ne_nil
      have hline : isEntryLine (CollRow.line (.entry (c :: t) sep cmdline)) = true := by
        have hc := htag.no_sep c List.mem_cons_self
        exact decide_eq_true ⟨fun hhash => htag.not_comment (by rw [hhash]; rfl), hc.1⟩
      have hentry : collEntry (CollRow.line (.entry (c :: t) sep cmdline)) =
          .ok (pairEntry (c :: t, cmdline)) :=
        collEntry_line (n := ⟨c :: t, cmdline, false⟩) htag.no_sep hsep hcmd.begins
      rw [fileEntries, if_pos hline, hentry, hrest]
      rfl
  | comment text =>
      have hline : ¬ isEntryLine (CollRow.line (.comment text)) = true := by
        simp [CollRow.line, isEntryLine]
      rw [fileEntries, if_neg hline, hrest]
      rfl
  | empty =>
      rw [fileEntries, if_neg (by simp [CollRow.line, isEntryLine]), hrest]
      rfl

variable (h : ∀ row ∈ rows, row.WellFormed)

include h

theorem fileEntries_rows {rest : List Text} (hrest : fileEntries rest = .ok []) :
    fileEntries (rows.map CollRow.line ++ rest) =
      .ok ((rows.filterMap CollRow.pair?).map pairEntry) := by
  induction rows with
  | nil => exact hrest
  | cons row rows ih =>
      obtain ⟨hrow, hrows⟩ := List.forall_mem_cons.mp h
      rw [List.map_cons, List.cons_append, fileEntries_row hrow _ (ih hrows), List.filterMap_cons]
      cases row.pair? with
      | none => rfl
      | some pair => rfl

/-- The lines of a file are those of its rows, and empty ones behind them. -/
theorem lines_fileText (final : Bool) :
    ∃ rest, lines (fileText rows final) = rows.map CollRow.line ++ rest ∧
      fileEntries rest = .ok [] := by
  have hjoined : ∃ rest, lines (['\n'].intercalate (rows.map CollRow.line)) =
      rows.map CollRow.line ++ rest ∧ ∀ l ∈ rest, l = [] := by
    cases rows with
    | nil => exact ⟨[[]], rfl, by simp⟩
    | cons row rows =>
        refine ⟨[], ?_, by simp⟩
        rw [List.append_nil]
        apply lines_intercalate
        intro t ht
        rw [← List.map_cons] at ht
        obtain ⟨row', hrow', rfl⟩ := List.mem_map.mp ht
        exact (h row' hrow').plain.1
  obtain ⟨rest, hlines, hempty⟩ := hjoined
  have hskip : ∀ ls : List Text, (∀ l ∈ ls, l = []) → fileEntries ls = .ok [] := by
    intro ls
    induction ls with
    | nil => exact fun _ => rfl
    | cons l ls ih =>
        intro hls
        obtain ⟨rfl, htail⟩ := List.forall_mem_cons.mp hls
        exact ih htail
  cases final with
  | false =>
      exact ⟨rest, by rw [fileText, if_neg (by simp), List.append_nil, hlines], hskip _ hempty⟩
  | true =>
      refine ⟨rest ++ [[]], ?_, hskip _ ?_⟩
      · rw [fileText, if_pos rfl, lines_append_newline, hlines, List.append_assoc]
        rfl
      · exact List.forall_mem_append.mpr ⟨hempty, List.forall_mem_singleton.mpr rfl⟩

theorem nul_not_mem_fileText (final : Bool) : '\x00' ∉ fileText rows final := by
  intro hmem
  rcases List.mem_append.mp hmem with hmem | hmem
  · rcases mem_intercalate hmem with hmem | ⟨l, hl, hmem⟩
    · exact absurd hmem (by decide)
    · obtain ⟨row, hrow, rfl⟩ := List.mem_map.mp hl
      exact (h row hrow).plain.2 hmem
  · cases final <;> simp at hmem

end Rows

/-- A well-formed command file is read as the list of its entries, in order. -/
theorem getCollection_fileText {rows : List CollRow} (h : ∀ row ∈ rows, row.WellFormed)
    (final : Bool) :
    getCollection (some (fileText rows final)) [] =
      .ok ((rows.filterMap CollRow.pair?).map pairEntry) := by
  obtain ⟨rest, hlines, hrest⟩ := lines_fileText h final
  have hentries := fileEntries_rows h hrest
  simp only [getCollection, cString_eq (nul_not_mem_fileText h final), hlines, hentries, if_true]

/-- The texts of a row have no `%f`. -/
def CollRow.Unmarked (row : CollRow) : Prop :=
  ∀ pair ∈ row.pair?, ¬ txt "%f" <:+: pair.1 ∧ ¬ txt "%f" <:+: pair.2

theorem pairEntry_unmarked {pair : Text × Text}
    (h : ¬ txt "%f" <:+: pair.1 ∧ ¬ txt "%f" <:+: pair.2) :
    pairEntry pair = ⟨pair.1, pair.2, false⟩ := by
  have hmark : ∀ {t : Text}, ¬ txt "%f" <:+: t → (markPcntF t).2 = false := by
    intro t ht
    rwa [← markPcntF_snd_iff, Bool.not_eq_true] at ht
  exact reread_unmarked (hmark h.1) (hmark h.2)

/-- A file whose texts have no `%f` is read as the list of its tags and commands. -/
theorem getCollection_pairs (rows : List CollRow) (final : Bool)
    (hrows : ∀ row ∈ rows, row.WellFormed ∧ row.Unmarked) :
    ∃ ns, getCollection (some (fileText rows final)) [] = .ok ns ∧
      ns.map (fun n => (n.name, n.cmdline)) = rows.filterMap CollRow.pair? ∧
      ns.length = (rows.filterMap CollRow.pair?).length ∧ ∀ n ∈ ns, n.pcntF = false := by
  have hpairs : ∀ pair ∈ rows.filterMap CollRow.pair?,
      pairEntry pair = ⟨pair.1, pair.2, false⟩ := by
    intro pair hpair
    obtain ⟨row, hrow, hpair⟩ := List.mem_filterMap.mp hpair
    exact pairEntry_unmarked ((hrows row hrow).2 pair hpair)
  refine ⟨_, getCollection_fileText (fun row hrow => (hrows row hrow).1) final, ?_,
    List.length_map _, ?_⟩
  · rw [List.map_map]
    nth_rewrite 2 [← List.map_id (rows.filterMap CollRow.pair?)]
    apply List.map_congr_left
    intro pair hpair
    rw [Function.comp_apply, hpairs pair hpair]
    rfl
  · intro n hn
    obtain ⟨pair, hpair, rfl⟩ := List.mem_map.mp hn
    rw [hpairs pair hpair]

/-- A file with a comment, an empty line, a tab and no newline at its end. -/
def sampleRows : List CollRow :=
  [.comment (txt " tests"), .entry (txt "a") (txt " \t ") (txt "sleep 1"), .empty,
    .entry (txt "b") (txt "\t") (txt "echo 100%")]

theorem getCollection_sampleRows :
    ∃ ns, getCollection (some (txt "# tests\na \t sleep 1\n\nb\techo 100%")) [] = .ok ns ∧
      ns.map (fun n => (n.name, n.cmdline)) =
        [(txt "a", txt "sleep 1"), (txt "b", txt "echo 100%")] := by
  have hrows : ∀ row ∈ sampleRows, row.WellFormed ∧ row.Unmarked := by
    intro row hrow
    simp only [sampleRows, List.mem_cons, List.not_mem_nil, or_false] at hrow
    rcases hrow with rfl | rfl | rfl | rfl
    · exact ⟨(by decide : '\n' ∉ txt " tests" ∧ '\x00' ∉ txt " tests"), by rintro _ ⟨⟩⟩
    · refine ⟨⟨⟨by decide, by decide, by decide, by decide⟩, ⟨by decide, by decide⟩,
        ⟨⟨'s', _, rfl, rfl⟩, by decide, by decide⟩⟩, ?_⟩
      rintro _ ⟨⟩
      decide
    · exact ⟨trivial, by rintro _ ⟨⟩⟩
    · refine ⟨⟨⟨by decide, by decide, by decide, by decide⟩, ⟨by decide, by decide⟩,
        ⟨⟨'e', _, rfl, rfl⟩, by decide, by decide⟩⟩, ?_⟩
      rintro _ ⟨⟩
      decide
  obtain ⟨ns, hread, hpairs, -⟩ := getCollection_pairs sampleRows false hrows
  exact ⟨ns, hread, hpairs⟩

end EDDTs.Pan
