import EDDTs.Library.Text

/-!
# Lines

The lines of a text, and those of them that begin with a mark. A text that is
put together from pieces has the marked lines of its pieces, as long as the
pieces meet at a newline or at a character that is not in the mark.
-/

namespace EDDTs.Library

/-- The lines of a text; a newline at the end is followed by an empty line. -/
def lines : Text → List Text
  | [] => [[]]
  | c :: t =>
      if c = '\n' then [] :: lines t
      else (c :: (lines t).headD []) :: (lines t).tail

/-- The lines that begin with the mark. -/
def marked (mark t : Text) : List Text := (lines t).filter fun l => mark.isPrefixOf l

/-- The same without the first line. -/
def innerMarked (mark t : Text) : List Text := (lines t).tail.filter fun l => mark.isPrefixOf l

theorem lines_eq_cons (t : Text) : lines t = (lines t).headD [] :: (lines t).tail := by
  cases t with
  | nil => rfl
  | cons c t =>
      unfold lines
      split <;> rfl

theorem firstLine_mem (t : Text) : (lines t).headD [] ∈ lines t := by
  have hlines := lines_eq_cons t
  generalize (lines t).headD [] = first, (lines t).tail = rest at hlines ⊢
  rw [hlines]
  exact List.mem_cons_self

theorem lines_newline (t : Text) : lines ('\n' :: t) = [] :: lines t := rfl

theorem lines_cons {c : Char} (hc : c ≠ '\n') (t : Text) :
    lines (c :: t) = (c :: (lines t).headD []) :: (lines t).tail := if_neg hc

theorem lines_append_newline (a b : Text) : lines (a ++ '\n' :: b) = lines a ++ lines b := by
  induction a with
  | nil => rfl
  | cons c a ih =>
      by_cases hc : c = '\n'
      · subst hc
        simp [lines_newline, ih]
      · rw [List.cons_append, lines_cons hc, lines_cons hc, ih, lines_eq_cons a]
        rfl

theorem lines_eq_self {t : Text} (h : '\n' ∉ t) : lines t = [t] := by
  induction t with
  | nil => rfl
  | cons c t ih =>
      obtain ⟨hc, ht⟩ := not_or.mp fun hor => h (List.mem_cons.mpr hor)
      rw [lines_cons (Ne.symm hc), ih ht]
      rfl

theorem newline_not_mem_line {t line : Text} (h : line ∈ lines t) : '\n' ∉ line := by
  induction t generalizing line with
  | nil =>
      rw [List.mem_singleton.mp h]
      exact List.not_mem_nil
  | cons c t ih =>
      by_cases hc : c = '\n'
      · rw [hc, lines_newline] at h
        rcases List.mem_cons.mp h with rfl | h
        · exact List.not_mem_nil
        · exact ih h
      · rw [lines_cons hc] at h
        have hhead := ih (firstLine_mem t)
        rcases List.mem_cons.mp h with rfl | h
        · simpa [Ne.symm hc] using hhead
        · exact ih (List.mem_of_mem_tail h)

theorem mem_of_mem_line {t line : Text} (h : line ∈ lines t) {c : Char} (hc : c ∈ line) :
    c ∈ t := by
  induction t generalizing line c with
  | nil =>
      rw [List.mem_singleton.mp h] at hc
      cases hc
  | cons d t ih =>
      by_cases hd : d = '\n'
      · rw [hd, lines_newline] at h
        rcases List.mem_cons.mp h with rfl | h
        · cases hc
        · exact List.mem_cons_of_mem d (ih h hc)
      · rw [lines_cons hd] at h
        rcases List.mem_cons.mp h with rfl | h
        · rcases List.mem_cons.mp hc with rfl | hc
          · exact List.mem_cons_self
          · exact List.mem_cons_of_mem d (ih (firstLine_mem t) hc)
        · exact List.mem_cons_of_mem d (ih (List.mem_of_mem_tail h) hc)

/-- The first line goes on with what follows, unless it has ended. -/
theorem firstLine_append_cons {c : Char} (hc : c ≠ '\n') (a b : Text) :
    (lines (a ++ c :: b)).headD [] = (lines a).headD [] ∨
      (lines (a ++ c :: b)).headD [] = (lines a).headD [] ++ c :: (lines b).headD [] := by
  induction a with
  | nil => exact Or.inr (by rw [List.nil_append, lines_cons hc]; rfl)
  | cons x a ih =>
      by_cases hx : x = '\n'
      · subst hx
        exact Or.inl rfl
      · rw [List.cons_append, lines_cons hx, lines_cons hx]
        rcases ih with h | h
        · exact Or.inl (by rw [List.headD_cons, h]; rfl)
        · exact Or.inr (by rw [List.headD_cons, h]; rfl)

/-- Lines with a newline behind each. -/
def unlines (ls : List Text) : Text := ls.flatMap fun l => l ++ ['\n']

theorem unlines_cons (l : Text) (ls : List Text) (v : Text) :
    unlines (l :: ls) ++ v = l ++ '\n' :: (unlines ls ++ v) := by
  simp [unlines]

theorem unlines_cons_eq (l : Text) (ls : List Text) :
    unlines (l :: ls) = l ++ '\n' :: unlines ls := by
  simp [unlines]

variable {ls : List Text}

/-- Induction along the lines of a file, for a loop that reads a line in each turn and has a
turn for every character. -/
theorem unlines_induction {P : Text → Prop} {motive : List Text → Nat → Prop}
    (hnil : ∀ fuel, motive [] fuel)
    (hcons : ∀ l ls fuel, P l → motive ls fuel → motive (l :: ls) (fuel + 1)) (h : ∀ l ∈ ls, P l)
    {fuel : Nat} (hfuel : (unlines ls).length ≤ fuel) : motive ls fuel := by
  induction ls generalizing fuel with
  | nil => exact hnil fuel
  | cons l ls ih =>
      obtain ⟨hl, hls⟩ := List.forall_mem_cons.mp h
      rw [unlines_cons_eq, List.length_append, List.length_cons] at hfuel
      obtain ⟨left, rfl⟩ : ∃ left, fuel = left + 1 := ⟨fuel - 1, by omega⟩
      exact hcons l ls left hl (ih hls (by omega))

theorem lines_unlines_append (h : ∀ l ∈ ls, '\n' ∉ l) (v : Text) :
    lines (unlines ls ++ v) = ls ++ lines v := by
  induction ls with
  | nil => rfl
  | cons l ls ih =>
      rw [unlines_cons, lines_append_newline, lines_eq_self (h l (by simp)),
        ih fun l' hl' => h l' (List.mem_cons_of_mem l hl')]
      rfl

/-- Lines that are joined by newlines. -/
theorem lines_intercalate {l : Text} (h : ∀ t ∈ l :: ls, '\n' ∉ t) :
    lines (['\n'].intercalate (l :: ls)) = l :: ls := by
  induction ls generalizing l with
  | nil => simpa [List.intercalate] using lines_eq_self (h l (by simp))
  | cons t ls ih =>
      obtain ⟨hl, hls⟩ := List.forall_mem_cons.mp h
      have hjoin : ['\n'].intercalate (l :: t :: ls) = l ++ '\n' :: ['\n'].intercalate (t :: ls) := by
        simp [List.intercalate]
      rw [hjoin, lines_append_newline, lines_eq_self hl, ih hls]
      rfl

theorem mem_intercalate {c : Char} (h : c ∈ ['\n'].intercalate ls) :
    c = '\n' ∨ ∃ l ∈ ls, c ∈ l := by
  induction ls with
  | nil => cases h
  | cons l ls ih =>
      cases ls with
      | nil => exact Or.inr ⟨l, by simp, by simpa [List.intercalate] using h⟩
      | cons t ls =>
          have hjoin : c ∈ l ++ '\n' :: ['\n'].intercalate (t :: ls) := by
            simpa [List.intercalate] using h
          rcases List.mem_append.mp hjoin with hc | hc
          · exact Or.inr ⟨l, List.mem_cons_self, hc⟩
          · rcases List.mem_cons.mp hc with hc | hc
            · exact Or.inl hc
            · rcases ih hc with hc | ⟨l', hl', hc⟩
              · exact Or.inl hc
              · exact Or.inr ⟨l', List.mem_cons_of_mem l hl', hc⟩

/-- A text is whole lines and a last one without its newline. -/
theorem exists_unlines (t : Text) :
    ∃ ls o, t = unlines ls ++ o ∧ (∀ l ∈ ls, '\n' ∉ l) ∧ '\n' ∉ o := by
  induction t with
  | nil => exact ⟨[], [], rfl, by simp, by simp⟩
  | cons c t ih =>
      obtain ⟨ls, o, rfl, hls, ho⟩ := ih
      by_cases hc : c = '\n'
      · exact ⟨[] :: ls, o, by simp [unlines, hc], by simpa using hls, ho⟩
      · cases ls with
        | nil => exact ⟨[], c :: o, rfl, by simp, by simp [ho, Ne.symm hc]⟩
        | cons l ls =>
            obtain ⟨hl, hls⟩ := List.forall_mem_cons.mp hls
            refine ⟨(c :: l) :: ls, o, by simp [unlines], ?_, ho⟩
            exact List.forall_mem_cons.mpr ⟨by simp [hl, Ne.symm hc], hls⟩

/-- A text is one line, or its first line with more lines behind it. -/
theorem firstLine_cases (t : Text) : ('\n' ∉ t ∧ lines t = [t]) ∨
    ∃ l rest, '\n' ∉ l ∧ t = l ++ '\n' :: rest ∧ lines t = l :: lines rest := by
  obtain ⟨ls, o, rfl, hls, ho⟩ := exists_unlines t
  cases ls with
  | nil => exact Or.inl ⟨ho, lines_eq_self ho⟩
  | cons l ls =>
      obtain ⟨hl, -⟩ := List.forall_mem_cons.mp hls
      refine Or.inr ⟨l, unlines ls ++ o, hl, unlines_cons l ls o, ?_⟩
      rw [unlines_cons, lines_append_newline, lines_eq_self hl]
      rfl

/-- What begins a text and has no newline begins its first line. -/
theorem prefix_of_append_newline {u l v : Text} (hu : '\n' ∉ u) (h : u <+: l ++ '\n' :: v) :
    u <+: l := by
  rcases List.prefix_or_prefix_of_prefix h (List.prefix_append l _) with hshort | ⟨w, rfl⟩
  · exact hshort
  · cases w with
    | nil => simp
    | cons c w =>
        have hrest := (List.prefix_append_right_inj l).mp h
        obtain rfl := (List.cons_prefix_cons.mp hrest).1
        exact absurd (by simp) hu

/-- A text is made of whole lines if nothing is left behind its last newline. -/
theorem whole_lines_iff {o : Text} (ho : '\n' ∉ o) :
    (unlines ls ++ o = [] ∨ ∃ u, unlines ls ++ o = u ++ ['\n']) ↔ o = [] := by
  constructor
  · rintro (h | ⟨u, h⟩)
    · exact (List.append_eq_nil_iff.mp h).2
    · by_contra hne
      obtain ⟨w, c, rfl⟩ := List.eq_nil_or_concat' o |>.resolve_left hne
      rw [← List.append_assoc] at h
      obtain rfl : c = '\n' := by simpa using (List.append_inj' h rfl).2
      exact ho (by simp)
  · rintro rfl
    cases List.eq_nil_or_concat' ls with
    | inl h => exact Or.inl (by simp [h, unlines])
    | inr h =>
        obtain ⟨ls, l, rfl⟩ := h
        exact Or.inr ⟨unlines ls ++ l, by simp [unlines]⟩

/-- The later lines of a text's end are later lines of the text. -/
theorem tail_lines_suffix (u v : Text) : (lines v).tail <:+ (lines (u ++ v)).tail := by
  induction u with
  | nil => exact List.suffix_refl _
  | cons c u ih =>
      by_cases hc : c = '\n'
      · rw [hc, List.cons_append, lines_newline, List.tail_cons]
        exact ih.trans (List.tail_suffix _)
      · rw [List.cons_append, lines_cons hc, List.tail_cons]
        exact ih

section Marks

variable {mark : Text}

theorem marked_append_newline (a b : Text) :
    marked mark (a ++ '\n' :: b) = marked mark a ++ marked mark b := by
  simp [marked, lines_append_newline]

theorem marked_eq_first (t : Text) : marked mark t =
    (if mark.isPrefixOf ((lines t).headD []) then [(lines t).headD []] else []) ++
      innerMarked mark t := by
  have hlines := lines_eq_cons t
  unfold marked innerMarked
  generalize (lines t).headD [] = first, (lines t).tail = rest at hlines ⊢
  rw [hlines, List.filter_cons]
  split <;> rfl

theorem innerMarked_newline (t : Text) : innerMarked mark ('\n' :: t) = marked mark t := rfl

theorem innerMarked_cons {c : Char} (hc : c ≠ '\n') (t : Text) :
    innerMarked mark (c :: t) = innerMarked mark t := by
  simp [innerMarked, lines_cons hc]

theorem innerMarked_eq_nil {t : Text} (h : '\n' ∉ t) : innerMarked mark t = [] := by
  simp [innerMarked, lines_eq_self h]

/-- A first line that begins with another character is not marked. -/
theorem marked_cons {c m : Char} {rest : Text} (hm : c ≠ m) (hc : c ≠ '\n') (t : Text) :
    marked (m :: rest) (c :: t) = innerMarked (m :: rest) t := by
  simp [marked, innerMarked, lines_cons hc, List.isPrefixOf, Ne.symm hm]

/-- A character that is not in the mark ends what it could match. -/
theorem isPrefixOf_append_cons {c : Char} (hc : c ∉ mark) (l r : Text) :
    mark.isPrefixOf (l ++ c :: r) = mark.isPrefixOf l := by
  induction mark generalizing l with
  | nil => cases l <;> rfl
  | cons m rest ih =>
      obtain ⟨hm, hrest⟩ := not_or.mp fun hor => hc (List.mem_cons.mpr hor)
      cases l with
      | nil => simp [List.isPrefixOf, Ne.symm hm]
      | cons x l => simp [List.isPrefixOf, ih hrest]

section Meet

variable {c : Char} (hmark : c ∉ mark) (hc : c ≠ '\n')

include hmark hc

theorem isPrefixOf_firstLine (x a b : Text) :
    mark.isPrefixOf (x ++ (lines (a ++ c :: b)).headD []) =
      mark.isPrefixOf (x ++ (lines a).headD []) := by
  rcases firstLine_append_cons hc a b with h | h
  · rw [h]
  · rw [h, ← List.append_assoc, isPrefixOf_append_cons hmark]

/-- Two pieces without marked lines that meet at a character that is not in the
mark. -/
theorem unmarked_append_cons (a b : Text) (hb : innerMarked mark b = []) :
    (innerMarked mark a = [] → innerMarked mark (a ++ c :: b) = []) ∧
      (marked mark a = [] → marked mark (a ++ c :: b) = []) := by
  have hmarked : ∀ a : Text, (innerMarked mark a = [] → innerMarked mark (a ++ c :: b) = []) →
      marked mark a = [] → marked mark (a ++ c :: b) = [] := by
    intro a hinner ha
    have hfirst := isPrefixOf_firstLine hmark hc [] a b
    rw [marked_eq_first] at ha ⊢
    obtain ⟨ha, hrest⟩ := List.append_eq_nil_iff.mp ha
    simp only [List.nil_append] at hfirst
    rw [hinner hrest, List.append_nil, hfirst]
    split at ha
    next => cases ha
    next h => exact if_neg h
  induction a with
  | nil =>
      have hinner : innerMarked mark ([] ++ c :: b) = [] := by
        rw [List.nil_append, innerMarked_cons hc]
        exact hb
      exact ⟨fun _ => hinner, hmarked [] fun _ => hinner⟩
  | cons x a ih =>
      have hinner : innerMarked mark (x :: a) = [] → innerMarked mark (x :: a ++ c :: b) = [] := by
        intro ha
        rw [List.cons_append]
        by_cases hx : x = '\n'
        · subst hx
          rw [innerMarked_newline] at ha ⊢
          exact ih.2 ha
        · rw [innerMarked_cons hx] at ha ⊢
          exact ih.1 ha
      exact ⟨hinner, hmarked (x :: a) hinner⟩

end Meet

end Marks

end EDDTs.Library
