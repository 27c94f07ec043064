import EDDTs.Pan.RtsBlock
import EDDTs.Library.Lines

/-!
# The marker lines of the rts output

The lines that begin with `<<<`. The text that `write_test_start` prints has
two of them, the text that `write_test_end` prints the two others, as long as
the tag, the command line and the initiation status have none of their own.
-/

namespace EDDTs.Pan

open Library

/-- The marker lines of a text. -/
def markers (t : Text) : List Text := marked (txt "<<<") t

/-- The text has no marker line after its first line. -/
def NoMarkerInside (t : Text) : Prop := innerMarked (txt "<<<") t = []

/-- The text is made of whole lines, and none is a marker line. -/
def PlainLines (t : Text) : Prop := (t = [] ∨ ∃ u, t = u ++ ['\n']) ∧ markers t = []

/-- The marker lines of a complete block. -/
def blockMarkers : List Text :=
  [txt "<<<test_start>>>", txt "<<<test_output>>>", txt "<<<execution_status>>>",
    txt "<<<test_end>>>"]

theorem markers_append_newline (a b : Text) :
    markers (a ++ '\n' :: b) = markers a ++ markers b := marked_append_newline a b

variable {t : Text}

theorem markers_plainLines (h : PlainLines t) (rest : Text) :
    markers (t ++ rest) = markers rest := by
  obtain ⟨rfl | ⟨u, rfl⟩, hplain⟩ := h
  · rfl
  · have hu : markers u = [] := by
      rw [markers_append_newline] at hplain
      exact (List.append_eq_nil_iff.mp hplain).1
    rw [List.append_assoc, List.singleton_append, markers_append_newline, hu, List.nil_append]

theorem noMarkerInside_of_no_newline (h : '\n' ∉ t) : NoMarkerInside t :=
  innerMarked_eq_nil h

/-- Texts that meet at a character other than `<`. -/
theorem NoMarkerInside.append_cons {a b : Text} {c : Char} (ha : NoMarkerInside a)
    (hmark : c ≠ '<') (hc : c ≠ '\n') (hb : NoMarkerInside b) : NoMarkerInside (a ++ c :: b) := by
  have hmem : c ∉ txt "<<<" := by
    intro h
    have : c = '<' := by simpa [txt] using h
    exact hmark this
  exact (unmarked_append_cons hmem hc a b hb).1 ha

/-- A line that begins with other characters. -/
theorem markers_cons {c : Char} (hmark : c ≠ '<') (hc : c ≠ '\n') (ht : NoMarkerInside t) :
    markers (c :: t) = [] :=
  (marked_cons hmark hc t).trans ht

theorem NoMarkerInside.cons {c : Char} (hc : c ≠ '\n') (ht : NoMarkerInside t) :
    NoMarkerInside (c :: t) := (innerMarked_cons hc t).trans ht

theorem NoMarkerInside.prepend {a : Text} (ha : '\n' ∉ a) (ht : NoMarkerInside t) :
    NoMarkerInside (a ++ t) := by
  induction a with
  | nil => exact ht
  | cons c a ih =>
      obtain ⟨hc, ha⟩ := not_or.mp fun hor => ha (List.mem_cons.mpr hor)
      exact (ih ha).cons (Ne.symm hc)

theorem markers_testStartText (cmd : CollEntry) (mystime : Int) (hname : NoMarkerInside cmd.name)
    (hcmdline : NoMarkerInside cmd.cmdline) (rest : Text) :
    markers (testStartText cmd mystime ++ rest) =
      [txt "<<<test_start>>>", txt "<<<test_output>>>"] ++ markers rest := by
  have hsplit : testStartText cmd mystime ++ rest = txt "<<<test_start>>>" ++ '\n' ::
      ('t' :: (txt "ag=" ++ (cmd.name ++ ' ' :: (txt "stime=" ++ intText mystime))) ++ '\n' ::
      ('c' :: (txt "mdline=\"" ++ (cmd.cmdline ++ '"' :: [])) ++ '\n' ::
      (txt "contacts=\"\"" ++ '\n' :: (txt "analysis=exit" ++ '\n' ::
      (txt "<<<test_output>>>" ++ '\n' :: rest))))) := by
    simp [testStartText, txt]
  have hnumber : NoMarkerInside (txt "stime=" ++ intText mystime) :=
    (noMarkerInside_of_no_newline (not_mem_intText (by decide) (by decide) mystime)).prepend
      (by decide)
  have htag : markers ('t' :: (txt "ag=" ++ (cmd.name ++ ' ' :: (txt "stime=" ++
      intText mystime)))) = [] := by
    refine markers_cons (by decide) (by decide) (.prepend (by decide) ?_)
    exact hname.append_cons (by decide) (by decide) hnumber
  have hcmd : markers ('c' :: (txt "mdline=\"" ++ (cmd.cmdline ++ '"' :: []))) = [] := by
    refine markers_cons (by decide) (by decide) (.prepend (by decide) ?_)
    exact hcmdline.append_cons (by decide) (by decide) rfl
  rw [hsplit, markers_append_newline, markers_append_newline, markers_append_newline,
    markers_append_newline, markers_append_newline, markers_append_newline, htag, hcmd]
  rfl

/-- The lines of the execution status. -/
def statusLines (initStatus : Text) (duration : Int) (termType : Text) (termId statLoc : Nat)
    (cutime cstime : Int) : List Text :=
  [txt "initiation_status=\"" ++ initStatus ++ txt "\"",
    txt "duration=" ++ intText duration ++ txt " termination_type=" ++ termType ++
      txt " termination_id=" ++ natText termId ++ txt " corefile=" ++ coreText statLoc,
    txt "cutime=" ++ intText cutime ++ txt " cstime=" ++ intText cstime]

theorem testEndText_lines (initStatus : Text) (duration : Int) (termType : Text)
    (termId statLoc : Nat) (cutime cstime : Int) :
    testEndText initStatus duration termType termId statLoc cutime cstime =
      txt "<<<execution_status>>>" ++ '\n' ::
        (unlines (statusLines initStatus duration termType termId statLoc cutime cstime) ++
          (txt "<<<test_end>>>" ++ ['\n'])) := by
  simp [testEndText, statusLines, unlines, txt]

section Status

variable {initStatus : Text} {duration : Int} {termType : TermType} {termId statLoc : Nat}
  {cutime cstime : Int}

/-- Only the initiation status may have a newline. -/
theorem newline_not_mem_status :
    ∀ l ∈ (statusLines initStatus duration termType.text termId statLoc cutime cstime).tail,
      '\n' ∉ l := by
  have hint : ∀ i, '\n' ∉ intText i := not_mem_intText (by decide) (by decide)
  have hnat : ∀ n, '\n' ∉ natText n := not_mem_natText (by decide)
  have htype : '\n' ∉ termType.text := by cases termType <;> decide
  have hcore : '\n' ∉ coreText statLoc := by unfold coreText; split <;> decide
  simp only [statusLines, List.tail_cons, List.forall_mem_cons, List.mem_append, not_or]
  refine ⟨?_, ⟨⟨⟨by decide, hint _⟩, by decide⟩, hint _⟩, nofun⟩
  exact ⟨⟨⟨⟨⟨⟨⟨by decide, hint _⟩, by decide⟩, htype⟩, by decide⟩, hnat _⟩, by decide⟩, hcore⟩

theorem markers_line {l : Text} (h : '\n' ∉ l) (hmark : l.head? ≠ some '<') :
    markers l = [] := by
  cases l with
  | nil => rfl
  | cons c l =>
      obtain ⟨hc, hl⟩ := not_or.mp fun hor => h (List.mem_cons.mpr hor)
      exact markers_cons (fun he => hmark (congrArg some he)) (Ne.symm hc)
        (noMarkerInside_of_no_newline hl)

theorem markers_testEndText (hstatus : NoMarkerInside initStatus) :
    markers (testEndText initStatus duration termType.text termId statLoc cutime cstime) =
      [txt "<<<execution_status>>>", txt "<<<test_end>>>"] := by
  have hlines := @newline_not_mem_status initStatus duration termType termId statLoc cutime cstime
  have hinit : markers (txt "initiation_status=\"" ++ initStatus ++ txt "\"") = [] := by
    rw [List.append_assoc]
    refine markers_cons (c := 'i') (by decide) (by decide) (.prepend (by decide) ?_)
    exact hstatus.append_cons (by decide) (by decide) rfl
  rw [testEndText_lines]
  simp only [statusLines, List.tail_cons, List.forall_mem_cons] at hlines ⊢
  rw [unlines_cons, unlines_cons, unlines_cons, markers_append_newline, markers_append_newline,
    markers_append_newline, markers_append_newline, hinit, markers_line hlines.1 (by simp [txt]),
    markers_line hlines.2.1 (by simp [txt])]
  rfl

end Status

end EDDTs.Pan
