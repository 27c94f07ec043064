import Mathlib.Data.List.TakeWhile
import EDDTs.Library.Lines
import EDDTs.Pan.CLibrary
import EDDTs.Pan.RtsBlock

/-!
# The command collection of `get_collection`

The lines of the command file, and the arguments that follow the options as one
more entry with the tag `cmdln`. The first `%f` of an entry becomes `%s`, the
directive that `subst_pcnt_f` later fills in.
-/

namespace EDDTs.Pan

open Library

/-- `n->pcnt_f = strstr(a, "%f")` and `n->pcnt_f[1] = 's'`: the changed text, and
whether the pointer is not null. -/
def markPcntF : Text → Text × Bool
  | [] => ([], false)
  | [c] => ([c], false)
  | c :: d :: t =>
      if c = '%' ∧ d = 'f' then (c :: 's' :: t, true)
      else ((c :: (markPcntF (d :: t)).1), (markPcntF (d :: t)).2)

/-- `strsep`: the text before the first delimiter, and what follows it. -/
def strsep (t delim : Text) : Text × Option Text :=
  match t.dropWhile (· ∉ delim) with
  | [] => (t, none)
  | _ :: rest => (t.takeWhile (· ∉ delim), some rest)

/-- Why there is no collection. -/
inductive CollError where
  /-- `slurp` could not read the file -/
  | unreadable
  | noCommand (name : Text)
  /-- the arguments were written past the end of `workstr` -/
  | overflow
  deriving DecidableEq, Repr

/-- The message of `get_collection` itself; `slurp` prints its own. -/
def CollError.text (panname : Text) : CollError → Text
  | .unreadable => []
  | .noCommand name => txt "pan(" ++ panname ++ txt "): Testcase '" ++ name ++
      txt "' requires a command to execute.\n"
  | .overflow => []

/-- The line is not a comment, not empty and not indented by a blank. -/
def isEntryLine (line : Text) : Bool :=
  match line with
  | [] => false
  | c :: _ => c ≠ '#' ∧ c ≠ ' '

/-- The entry of a line. -/
def collEntry (line : Text) : Except CollError CollEntry :=
  let marked := markPcntF line
  let fields := strsep marked.1 [' ', '\t']
  match fields.2.map fun a => a.dropWhile isspace with
  | some (c :: a) => .ok { name := fields.1, cmdline := c :: a, pcntF := marked.2 }
  | _ => .error (.noCommand fields.1)

/-- The loop over the lines of the file. -/
def fileEntries : List Text → Except CollError (List CollEntry)
  | [] => .ok []
  | line :: rest =>
      if isEntryLine line then
        match collEntry line with
        | .error e => .error e
        | .ok n =>
            match fileEntries rest with
            | .error e => .error e
            | .ok ns => .ok (n :: ns)
      else fileEntries rest

/-- `workstr` and `workstr_left`. -/
structure Workstr where
  workstr : Text
  workstrLeft : Int

/-- `strncat`; a negative count is converted to one that limits nothing. -/
def strncat (dst src : Text) (n : Int) : Text :=
  if n < 0 then dst ++ src else dst ++ src.take n.toNat

/-- One argument in the loop that fills `workstr`. The count is an `int` of 32 bits, also
where the length of the argument is not. -/
def Workstr.add (w : Workstr) (arg : Text) : Workstr :=
  let left := Int.bmod (w.workstrLeft - arg.length) (2 ^ 32)
  { workstr := strncat (strncat w.workstr arg w.workstrLeft) [' '] left
    workstrLeft := Int.bmod (left - 1) (2 ^ 32) }

/-- The loop over the arguments. -/
def fillWorkstr (args : List Text) : Workstr :=
  args.foldl Workstr.add { workstr := [], workstrLeft := 1023 }

/-- The entry of the arguments. -/
def cmdlnEntry (args : List Text) : Except CollError CollEntry :=
  let workstr := (fillWorkstr args).workstr
  if workstr.length ≤ 1023 then
    .ok { name := txt "cmdln", cmdline := (markPcntF workstr).1, pcntF := (markPcntF workstr).2 }
  else .error .overflow

/-- `get_collection`, from the contents of the file and the arguments after the
options. -/
def getCollection (file : Option Text) (args : List Text) : Except CollError (List CollEntry) :=
  match file with
  | none => .error .unreadable
  | some buf =>
      match fileEntries (lines (cString buf)) with
      | .error e => .error e
      | .ok ns =>
          if args = [] then .ok ns
          else
            match cmdlnEntry (args.map cString) with
            | .error e => .error e
            | .ok n => .ok (ns ++ [n])

theorem mem_markPcntF {t : Text} {c : Char} (h : c ∈ (markPcntF t).1) : c ∈ t ∨ c = 's' := by
  induction t using markPcntF.induct with
  | case1 => cases h
  | case2 d => exact Or.inl h
  | case3 a b t hf =>
      rw [markPcntF, if_pos hf] at h
      simp only [List.mem_cons] at h ⊢
      tauto
  | case4 a b t hf ih =>
      rw [markPcntF, if_neg hf] at h
      rcases List.mem_cons.mp h with rfl | h
      · exact Or.inl (by simp)
      · rcases ih h with h | h
        · exact Or.inl (List.mem_cons_of_mem a h)
        · exact Or.inr h

theorem length_markPcntF (t : Text) : (markPcntF t).1.length = t.length := by
  induction t using markPcntF.induct with
  | case1 => rfl
  | case2 d => rfl
  | case3 a b t hf => simp [markPcntF, if_pos hf]
  | case4 a b t hf ih => simp [markPcntF, if_neg hf, ih]

/-- The two parts of `strsep` come from the text, and the first has no delimiter. -/
theorem strsep_spec (t delim : Text) :
    (∀ c ∈ (strsep t delim).1, c ∈ t ∧ c ∉ delim) ∧
      ∀ rest, (strsep t delim).2 = some rest → ∀ c ∈ rest, c ∈ t := by
  unfold strsep
  have happend := List.takeWhile_append_dropWhile (p := fun c => decide (c ∉ delim)) (l := t)
  split
  next hdrop =>
      rw [hdrop, List.append_nil] at happend
      constructor
      · intro c hc
        have hp := List.mem_takeWhile_imp (happend.symm ▸ hc)
        exact ⟨hc, of_decide_eq_true hp⟩
      · intro rest h
        cases h
  next d rest hdrop =>
      constructor
      · intro c hc
        have hp := List.mem_takeWhile_imp (p := fun c => decide (c ∉ delim)) hc
        exact ⟨(List.takeWhile_prefix _).subset hc, of_decide_eq_true hp⟩
      · intro rest' h c hc
        obtain rfl := Option.some.inj h
        rw [← happend, hdrop]
        simp [hc]

theorem cString_no_nul (t : Text) : '\x00' ∉ cString t := fun h => by
  simpa using List.mem_takeWhile_imp h

/-- What the collection guarantees of an entry. -/
structure CollEntry.Read (n : CollEntry) : Prop where
  name_plain : ∀ c ∈ n.name, c ≠ ' ' ∧ c ≠ '\t' ∧ c ≠ '\n' ∧ c ≠ '\x00'
  cmdline_ne : n.cmdline ≠ []
  cmdline_no_nul : '\x00' ∉ n.cmdline

variable {n : CollEntry} {args : List Text} {ns : List CollEntry}

theorem collEntry_read {line : Text} (hnul : '\x00' ∉ line) (hnl : '\n' ∉ line)
    (h : collEntry line = .ok n) : n.Read := by
  have hmarked : ∀ c ∈ (markPcntF line).1, c ≠ '\n' ∧ c ≠ '\x00' := by
    intro c hc
    rcases mem_markPcntF hc with hmem | rfl
    · exact ⟨fun h => hnl (h ▸ hmem), fun h => hnul (h ▸ hmem)⟩
    · decide
  obtain ⟨hname, hrest⟩ := strsep_spec (markPcntF line).1 [' ', '\t']
  simp only [collEntry] at h
  split at h
  next c a ha =>
      obtain rfl := Except.ok.inj h
      obtain ⟨rest, hsep, hdrop⟩ := Option.map_eq_some_iff.mp ha
      refine ⟨?_, by simp, ?_⟩
      · intro d hd
        obtain ⟨hmem, hdelim⟩ := hname d hd
        simp only [List.mem_cons, List.not_mem_nil, or_false, not_or] at hdelim
        exact ⟨hdelim.1, hdelim.2, hmarked d hmem⟩
      · intro hmem
        have hrestMem := (List.dropWhile_suffix isspace).subset (hdrop ▸ hmem)
        exact (hmarked _ (hrest rest hsep _ hrestMem)).2 rfl
  next => cases h

theorem mem_fileEntries {ls : List Text} (h : fileEntries ls = .ok ns) (hn : n ∈ ns) :
    ∃ line ∈ ls, isEntryLine line = true ∧ collEntry line = .ok n := by
  induction ls generalizing ns with
  | nil =>
      obtain rfl := Except.ok.inj h
      cases hn
  | cons line rest ih =>
      have hrest : ∀ {ns'}, fileEntries rest = .ok ns' → n ∈ ns' →
          ∃ l ∈ line :: rest, isEntryLine l = true ∧ collEntry l = .ok n := by
        intro ns' h' hn'
        obtain ⟨l, hl, hentry⟩ := ih h' hn'
        exact ⟨l, List.mem_cons_of_mem line hl, hentry⟩
      unfold fileEntries at h
      split at h
      next hline =>
          split at h
          next => cases h
          next m hm =>
              split at h
              next => cases h
              next ns' hns =>
                  obtain rfl := Except.ok.inj h
                  rcases List.mem_cons.mp hn with rfl | hn
                  · exact ⟨line, List.mem_cons_self, hline, hm⟩
                  · exact hrest hns hn
      next => exact hrest h hn

theorem strncat_spec (dst src : Text) (n : Int) :
    dst <+: strncat dst src n ∧ ∀ c ∈ strncat dst src n, c ∈ dst ∨ c ∈ src := by
  unfold strncat
  split
  next => exact ⟨List.prefix_append _ _, fun c hc => List.mem_append.mp hc⟩
  next =>
      refine ⟨List.prefix_append _ _, ?_⟩
      intro c hc
      rcases List.mem_append.mp hc with hc | hc
      · exact Or.inl hc
      · exact Or.inr (List.mem_of_mem_take hc)

/-- Filling `workstr` puts only blanks and the arguments' characters behind what
is there. -/
theorem foldl_add_spec (args : List Text) (w : Workstr) :
    w.workstr <+: (args.foldl Workstr.add w).workstr ∧
      ∀ c ∈ (args.foldl Workstr.add w).workstr, c ∈ w.workstr ∨ c = ' ' ∨ ∃ a ∈ args, c ∈ a := by
  induction args generalizing w with
  | nil => exact ⟨List.prefix_refl _, fun c hc => Or.inl hc⟩
  | cons arg args ih =>
      obtain ⟨hstarts, hmem⟩ := ih (w.add arg)
      obtain ⟨harg, hargMem⟩ := strncat_spec w.workstr arg w.workstrLeft
      obtain ⟨hblank, hblankMem⟩ := strncat_spec (strncat w.workstr arg w.workstrLeft) [' ']
        (Int.bmod (w.workstrLeft - arg.length) (2 ^ 32))
      refine ⟨(harg.trans hblank).trans hstarts, ?_⟩
      intro c hc
      rcases hmem c hc with hc | hc | ⟨a, ha, hc⟩
      · rcases hblankMem c hc with hc | hc
        · rcases hargMem c hc with hc | hc
          · exact Or.inl hc
          · exact Or.inr (Or.inr ⟨arg, by simp, hc⟩)
        · exact Or.inr (Or.inl (List.mem_singleton.mp hc))
      · exact Or.inr (Or.inl hc)
      · exact Or.inr (Or.inr ⟨a, List.mem_cons_of_mem arg ha, hc⟩)

theorem strncat_ne_nil (dst : Text) (c : Char) (src : Text) {n : Int} (hn : 0 < n) :
    strncat dst (c :: src) n ≠ [] := by
  have htake : (c :: src).take n.toNat ≠ [] := by simp; omega
  rw [strncat, if_neg (by omega)]
  exact fun hnil => htake (List.append_eq_nil_iff.mp hnil).2

theorem Workstr.add_ne_nil {w : Workstr} (hleft : 0 < w.workstrLeft)
    (hsmall : w.workstrLeft < 2 ^ 31) (arg : Text) : (w.add arg).workstr ≠ [] := by
  simp only [Workstr.add]
  cases arg with
  | nil =>
      have hlength : w.workstrLeft - (([] : Text).length : Int) = w.workstrLeft := by simp
      rw [hlength, Int.bmod_eq_of_le_mul_two (by omega) (by omega)]
      exact strncat_ne_nil _ ' ' [] hleft
  | cons c arg =>
      -- the blank is left out only when the argument fills `workstr`
      intro hnil
      have hstarts := (strncat_spec (strncat w.workstr (c :: arg) w.workstrLeft) [' ']
        (Int.bmod (w.workstrLeft - (c :: arg).length) (2 ^ 32))).1
      rw [hnil] at hstarts
      exact strncat_ne_nil _ c arg hleft (List.prefix_nil.mp hstarts)

theorem fillWorkstr_ne_nil (hne : args ≠ []) : (fillWorkstr args).workstr ≠ [] := by
  obtain ⟨arg, args, rfl⟩ := List.exists_cons_of_ne_nil hne
  have hstarts : (Workstr.add ⟨[], 1023⟩ arg).workstr <+: (fillWorkstr (arg :: args)).workstr :=
    (foldl_add_spec args (Workstr.add ⟨[], 1023⟩ arg)).1
  intro hnil
  rw [hnil] at hstarts
  exact Workstr.add_ne_nil (by decide) (by decide) arg (List.prefix_nil.mp hstarts)

theorem cmdlnEntry_read (hne : args ≠ []) (hargs : ∀ a ∈ args, '\x00' ∉ a)
    (h : cmdlnEntry args = .ok n) : n.Read := by
  simp only [cmdlnEntry] at h
  split at h
  next =>
      obtain rfl := Except.ok.inj h
      have hname : ∀ c ∈ txt "cmdln", c ≠ ' ' ∧ c ≠ '\t' ∧ c ≠ '\n' ∧ c ≠ '\x00' := by decide
      refine ⟨hname, ?_, ?_⟩
      · have hlen := length_markPcntF (fillWorkstr args).workstr
        have hpos := List.length_pos_iff.mpr (fillWorkstr_ne_nil hne)
        exact List.ne_nil_of_length_pos (hlen ▸ hpos)
      · intro hmem
        rcases mem_markPcntF hmem with hmem | hs
        · rcases (foldl_add_spec args _).2 _ hmem with h | h | ⟨a, ha, h⟩
          · cases h
          · exact absurd h (by decide)
          · exact hargs a ha h
        · exact absurd hs (by decide)
  next => cases h

/-- Where the entries of a collection come from. -/
theorem mem_getCollection {file : Option Text} (h : getCollection file args = .ok ns)
    (hn : n ∈ ns) :
    (∃ line, '\x00' ∉ line ∧ '\n' ∉ line ∧ isEntryLine line = true ∧ collEntry line = .ok n) ∨
      (args ≠ [] ∧ cmdlnEntry (args.map cString) = .ok n) := by
  unfold getCollection at h
  split at h
  next => cases h
  next buf =>
      split at h
      next => cases h
      next ms hfile =>
          have hmem : n ∈ ms → ∃ line, '\x00' ∉ line ∧ '\n' ∉ line ∧ isEntryLine line = true ∧
              collEntry line = .ok n := by
            intro hn
            obtain ⟨line, hline, hentry⟩ := mem_fileEntries hfile hn
            exact ⟨line, fun hnul => cString_no_nul buf (mem_of_mem_line hline hnul),
              newline_not_mem_line hline, hentry⟩
          split at h
          next =>
              obtain rfl := Except.ok.inj h
              exact Or.inl (hmem hn)
          next hne =>
              split at h
              next => cases h
              next m hm =>
                  obtain rfl := Except.ok.inj h
                  rcases List.mem_append.mp hn with hn | hn
                  · exact Or.inl (hmem hn)
                  · exact Or.inr ⟨hne, List.mem_singleton.mp hn ▸ hm⟩

/-- Every entry of a collection has a name without blanks and newlines and a
command. -/
theorem getCollection_read {file : Option Text} (h : getCollection file args = .ok ns) :
    ∀ n ∈ ns, n.Read := by
  intro n hn
  rcases mem_getCollection h hn with ⟨line, hnul, hnl, -, hentry⟩ | ⟨hne, hcmdln⟩
  · exact collEntry_read hnul hnl hentry
  · refine cmdlnEntry_read (by simpa using hne) ?_ hcmdln
    intro a ha
    obtain ⟨b, -, rfl⟩ := List.mem_map.mp ha
    exact cString_no_nul b

end EDDTs.Pan
