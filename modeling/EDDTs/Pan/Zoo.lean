import Mathlib.Data.List.Infix
import EDDTs.Library.Lines
import EDDTs.Library.SlotTable
import EDDTs.Pan.CLibrary

/-!
# The active file of `zoolib.c`

The file has one line for each process that is being run. `zoo_mark` writes over
the first line that begins with `#`, with the width that the line has, or appends
a line of 79 characters; `zoo_clear` writes a `#` over the first character of the
first line that has the pid.

The file is the text that `fgets` reads and `fprintf` writes at an offset. Below
it stands a table of entries: the lines are the slots of the table, and what the
two functions do to the text is first fit on the slots.

## Implementation notes

The file is locked during each call, and `fcntl`, `fseek` and `fflush` succeed.
-/

namespace EDDTs.Pan

open Library
open scoped List

/-- `fprintf(fp, "%-*.*s", w, w, entry)`. -/
def entryLine (w : Nat) (entry : Text) : Text := padRight w (entry.take w)

/-- A write at the offset where `rest` begins. -/
def overwrite (rest new : Text) : Text := new ++ rest.drop new.length

/-- The loop of `zoo_mark` from the offset behind `before`, with `rest` unread, and
the write that follows it. -/
def markFrom (entry : Text) : Nat → Text → Text → Text
  | _, before, [] => before ++ entryLine 79 entry ++ ['\n']
  | 0, before, rest => before ++ rest ++ entryLine 79 entry ++ ['\n']
  | fuel + 1, before, c :: rest =>
      let buf := (fgets 80 (c :: rest)).1
      if c = '#' then
        before ++ overwrite (c :: rest) (entryLine ((cString buf).length - 1) entry ++ ['\n'])
      else markFrom entry fuel (before ++ buf) (fgets 80 (c :: rest)).2

/-- `zoo_mark`. Each turn of its loop reads a character at least. -/
def zooMark (file entry : Text) : Text := markFrom entry file.length [] file

/-- The entry as `zoo_mark_cmdline` prints it. -/
def entryText (p : Nat) (tag cmdline : Text) : Text :=
  natText p ++ ',' :: (tag ++ ',' :: cmdline)

/-- `zoo_mark_cmdline`; its buffer holds 79 characters of the entry. -/
def zooMarkCmdline (file : Text) (p : Nat) (tag cmdline : Text) : Text :=
  zooMark file ((entryText p tag cmdline).take 79)

/-- `cat_args`, the command line of the entry that `zoo_mark_args` marks. -/
def catArgs (argv : List Text) : Text := [' '].intercalate argv

/-- The loop of `zoo_clear`; none if no line has the pid. -/
def clearFrom (p : Nat) : Nat → Text → Text → Option Text
  | _, _, [] => none
  | 0, _, _ => none
  | fuel + 1, before, c :: rest =>
      let buf := (fgets 80 (c :: rest)).1
      if c ≠ '#' ∧ atoi (cString buf) = p then some (before ++ overwrite (c :: rest) ['#'])
      else clearFrom p fuel (before ++ buf) (fgets 80 (c :: rest)).2

/-- `zoo_clear`: its result, and the file after it. -/
def zooClear (file : Text) (p : Nat) : Int × Text :=
  match clearFrom p file.length [] file with
  | some file' => (0, file')
  | none => (1, file)

/-- A call on the file. -/
inductive ZooOp where
  | mark (p : Nat) (tag cmdline : Text)
  | clear (p : Nat)
  deriving DecidableEq, Repr

def ZooOp.apply (file : Text) : ZooOp → Text
  | .mark p tag cmdline => zooMarkCmdline file p tag cmdline
  | .clear p => (zooClear file p).2

/-- The file after a sequence of calls on an empty one. -/
def zooRun (ops : List ZooOp) : Text := ops.foldl ZooOp.apply []

/-! ### Lines -/

/-- The lines of the file. -/
def zooLines (file : Text) : List Text := (lines file).dropLast

/-- The line is free. -/
def isFreeLine (l : Text) : Bool := l.head? = some '#'

/-- The line names a process with this pid. -/
def namesPid (p : Nat) (l : Text) : Bool := isFreeLine l = false ∧ atoi l = p

/-- The line with a `#` over its first character. -/
def freeLine (l : Text) : Text := '#' :: l.tail

/-- The form of a line that `zoo_mark` appends. -/
structure IsZooLine (l : Text) : Prop where
  width : l.length = 79
  no_newline : '\n' ∉ l
  no_nul : '\x00' ∉ l

variable {ls : List Text}

theorem zooLines_unlines (h : ∀ l ∈ ls, IsZooLine l) : zooLines (unlines ls) = ls := by
  have hlines := lines_unlines_append (fun l hl => (h l hl).no_newline) []
  rw [List.append_nil] at hlines
  simp [zooLines, hlines, lines]

namespace IsZooLine

variable {l : Text} (h : IsZooLine l)

include h

theorem eq_cons : ∃ c rest, l = c :: rest := by
  apply List.exists_cons_of_length_pos
  rw [h.width]
  decide

theorem fgets_eq (t : Text) : fgets 80 (l ++ '\n' :: t) = (l ++ ['\n'], t) :=
  fgets_line h.no_newline (by simp [h.width]) t

theorem cString_eq : cString (l ++ ['\n']) = l ++ ['\n'] :=
  Pan.cString_eq (by simp [h.no_nul])

theorem overwrite_eq {new : Text} (hnew : new.length = 79) (t : Text) :
    overwrite (l ++ '\n' :: t) (new ++ ['\n']) = new ++ '\n' :: t := by
  have hdrop : (l ++ '\n' :: t).drop (new ++ ['\n']).length = t := by
    rw [List.length_append, hnew, ← h.width]
    simp
  rw [overwrite, hdrop, List.append_assoc]
  rfl

theorem freed : IsZooLine (freeLine l) := by
  obtain ⟨c, rest, rfl⟩ := h.eq_cons
  obtain ⟨hwidth, hnewline, hnul⟩ := h
  constructor
  · exact hwidth
  · simpa [freeLine] using fun hmem => hnewline (List.mem_cons_of_mem c hmem)
  · simpa [freeLine] using fun hmem => hnul (List.mem_cons_of_mem c hmem)

end IsZooLine

theorem length_entryLine (w : Nat) (entry : Text) : (entryLine w entry).length = w := by
  simp only [entryLine, padRight, List.length_append, List.length_take, List.length_replicate]
  omega

theorem mem_entryLine {w : Nat} {entry : Text} {c : Char} (h : c ∈ entryLine w entry) :
    c ∈ entry ∨ c = ' ' := by
  rcases List.mem_append.mp h with h | h
  · exact Or.inl (List.mem_of_mem_take h)
  · exact Or.inr (List.eq_of_mem_replicate h)

theorem isZooLine_entryLine {entry : Text} (hnewline : '\n' ∉ entry) (hnul : '\x00' ∉ entry) :
    IsZooLine (entryLine 79 entry) := by
  constructor
  · exact length_entryLine 79 entry
  · intro h
    rcases mem_entryLine h with h | h
    · exact hnewline h
    · cases h
  · intro h
    rcases mem_entryLine h with h | h
    · exact hnul h
    · cases h

/-- A turn of the loop of `zoo_mark` at a line. -/
theorem markFrom_line (entry : Text) (fuel : Nat) (before : Text) {l : Text} (h : IsZooLine l)
    (t : Text) :
    markFrom entry (fuel + 1) before (l ++ '\n' :: t) =
      if isFreeLine l then before ++ (entryLine 79 entry ++ '\n' :: t)
      else markFrom entry fuel (before ++ (l ++ ['\n'])) t := by
  have hgets := h.fgets_eq t
  have hwrite := h.overwrite_eq (length_entryLine 79 entry) t
  have hwidth : (cString (l ++ ['\n'])).length - 1 = 79 := by simp [h.cString_eq, h.width]
  obtain ⟨c, rest, rfl⟩ := h.eq_cons
  rw [List.cons_append] at hgets hwrite ⊢
  rw [markFrom, hgets, hwidth, hwrite]
  simp [isFreeLine]

/-- On a file of lines the loop of `zoo_mark` is first fit. -/
theorem markFrom_unlines (entry : Text) (h : ∀ l ∈ ls, IsZooLine l) {fuel : Nat}
    (hfuel : (unlines ls).length ≤ fuel) (before : Text) :
    markFrom entry fuel before (unlines ls) =
      before ++ unlines (firstFit isFreeLine (entryLine 79 entry) ls) := by
  refine unlines_induction (motive := fun ls fuel => ∀ before,
    markFrom entry fuel before (unlines ls) =
      before ++ unlines (firstFit isFreeLine (entryLine 79 entry) ls)) ?_ ?_ h hfuel before
  · intro fuel before
    cases fuel <;> simp [markFrom, unlines, firstFit]
  · intro l ls fuel hl ih before
    rw [unlines_cons_eq, markFrom_line entry fuel before hl, firstFit]
    split
    · rw [unlines_cons_eq]
    · rw [ih, unlines_cons_eq]
      simp

theorem zooMark_unlines (entry : Text) (h : ∀ l ∈ ls, IsZooLine l) :
    zooMark (unlines ls) entry = unlines (firstFit isFreeLine (entryLine 79 entry) ls) :=
  markFrom_unlines entry h le_rfl []

/-- A turn of the loop of `zoo_clear` at a line. -/
theorem clearFrom_line (p fuel : Nat) (before : Text) {l : Text} (h : IsZooLine l) (t : Text) :
    clearFrom p (fuel + 1) before (l ++ '\n' :: t) =
      if namesPid p l then some (before ++ (freeLine l ++ '\n' :: t))
      else clearFrom p fuel (before ++ (l ++ ['\n'])) t := by
  have hgets := h.fgets_eq t
  have hpid : atoi (cString (l ++ ['\n'])) = atoi l := by rw [h.cString_eq, atoi_append_newline]
  obtain ⟨c, rest, rfl⟩ := h.eq_cons
  rw [List.cons_append] at hgets ⊢
  rw [clearFrom, hgets, hpid]
  simp [namesPid, isFreeLine, overwrite, freeLine]

/-- On a file of lines the loop of `zoo_clear` changes the first line with the pid. -/
theorem clearFrom_unlines (p : Nat) (h : ∀ l ∈ ls, IsZooLine l) {fuel : Nat}
    (hfuel : (unlines ls).length ≤ fuel) (before : Text) :
    clearFrom p fuel before (unlines ls) =
      (changeFirst (namesPid p) freeLine ls).map fun ls' => before ++ unlines ls' := by
  refine unlines_induction (motive := fun ls fuel => ∀ before,
    clearFrom p fuel before (unlines ls) =
      (changeFirst (namesPid p) freeLine ls).map fun ls' => before ++ unlines ls')
    ?_ ?_ h hfuel before
  · intro fuel before
    cases fuel <;> rfl
  · intro l ls fuel hl ih before
    rw [unlines_cons_eq, clearFrom_line p fuel before hl, changeFirst]
    split
    · rw [Option.map_some, unlines_cons_eq]
    · rw [ih, Option.map_map]
      congr 1
      funext ls'
      simp [unlines_cons_eq]

theorem zooClear_unlines (p : Nat) (h : ∀ l ∈ ls, IsZooLine l) :
    zooClear (unlines ls) p =
      match changeFirst (namesPid p) freeLine ls with
      | some ls' => (0, unlines ls')
      | none => (1, unlines ls) := by
  unfold zooClear
  rw [clearFrom_unlines p h le_rfl []]
  cases changeFirst (namesPid p) freeLine ls <;> rfl

end EDDTs.Pan
