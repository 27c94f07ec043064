import Mathlib.Data.List.Infix
import EDDTs.Pan.Collection
import EDDTs.Pan.DriverEnds

/-!
# Reading a fail command file back

`check_pids` writes the tag and the command of a failed entry as they are in memory, where
`get_collection` has already turned the first `%f` of the line into `%s`. The file is
meant to be used as a collection.
-/

namespace EDDTs.Pan

open Library

/-! ### The substitution of `%f` -/

/-- The text that `snprintf` forms from a format and arguments for `%s`. Other directives
than `%s` and `%%` have no defined result with such arguments, nor has a `%s` without
one. -/
def formatText : Text → List Text → Option Text
  | '%' :: 's' :: t, arg :: args => (formatText t args).map (arg ++ ·)
  | '%' :: '%' :: t, args => (formatText t args).map ('%' :: ·)
  | '%' :: _, _ => none
  | c :: t, args => (formatText t args).map (c :: ·)
  | [], _ => some []

/-- `pid_and_counter` in `subst_pcnt_f`. -/
def pidAndCounter (pid counter : Nat) : Text :=
  (natText pid ++ txt "_" ++ natText counter).take 19

/-- `subst_pcnt_f`: the command line that is executed. -/
def substPcntF (colle : CollEntry) (pid counter : Nat) : Option Text :=
  if colle.pcntF then
    (formatText colle.cmdline [pidAndCounter pid counter]).map (List.take 1023)
  else some colle.cmdline

section Format

/-- A format without directives is copied. -/
theorem formatText_plain {t : Text} (h : '%' ∉ t) (args : List Text) :
    formatText t args = some t := by
  fun_induction formatText t args with
  | case1 | case2 | case3 => simp at h
  | case4 c t args hs hp hc ih =>
      rw [ih fun hmem => h (List.mem_cons_of_mem c hmem)]
      rfl
  | case5 args => rfl

/-- The arguments begin with another character than `%`. -/
def PlainArgs (args : List Text) : Prop := ∀ arg ∈ args, ∃ c t, arg = c :: t ∧ c ≠ '%'

theorem formatText_cons {c : Char} (hc : c ≠ '%') (t : Text) (args : List Text) :
    formatText (c :: t) args = (formatText t args).map (c :: ·) := by
  rw [formatText]
  · exact fun _ hpercent _ => hc hpercent
  · exact fun hpercent => hc hpercent
  · exact fun _ _ _ _ hpercent _ => hc hpercent

theorem formatText_percent (t : Text) (args : List Text) :
    formatText ('%' :: '%' :: t) args = (formatText t args).map ('%' :: ·) := by
  cases args <;> rfl

/-- Of a number of `%` half are printed, and no other `%` behind them; for an odd number a `s`
follows, else the rest is printed. -/
theorem formatText_percents {args : List Text} (hargs : PlainArgs args) {t : Text}
    (ht : t.head? ≠ some '%') (n : ℕ) {out : Text}
    (h : formatText (List.replicate n '%' ++ t) args = some out) :
    ∃ rest, out = List.replicate (n / 2) '%' ++ rest ∧ rest.head? ≠ some '%' ∧
      if n % 2 = 0 then formatText t args = some rest else t.head? = some 's' := by
  induction n using Nat.twoStepInduction generalizing out with
  | zero =>
      refine ⟨out, rfl, ?_, h⟩
      cases t with
      | nil => simp [← Option.some.inj h]
      | cons c t =>
          have hc : c ≠ '%' := by simpa using ht
          rw [List.replicate_zero, List.nil_append, formatText_cons hc] at h
          obtain ⟨out', -, rfl⟩ := Option.map_eq_some_iff.mp h
          exact ht
  | one =>
      rw [List.replicate_one, List.singleton_append, formatText.eq_def] at h
      split at h
      next u arg args heq =>
        obtain rfl := (List.cons.inj heq).2
        obtain ⟨out', -, rfl⟩ := Option.map_eq_some_iff.mp h
        obtain ⟨c, v, rfl, hc⟩ := hargs arg (by simp)
        exact ⟨_, rfl, by simpa using hc, rfl⟩
      next u heq => exact absurd (congrArg List.head? (List.cons.inj heq).2) ht
      next => cases h
      next hpercent heq _ => exact absurd (List.cons.inj heq).1.symm hpercent
      next heq => cases heq
  | more n ih _ =>
      rw [List.replicate_succ, List.replicate_succ, List.cons_append, List.cons_append,
        formatText_percent] at h
      obtain ⟨out', hout, rfl⟩ := Option.map_eq_some_iff.mp h
      obtain ⟨rest, rfl, hrest, hif⟩ := ih hout
      refine ⟨rest, ?_, hrest, by rwa [Nat.add_mod_right]⟩
      rw [Nat.add_div_right n (by decide), List.replicate_succ, List.cons_append]

/-- A text that begins with more `%` is no beginning of another one. -/
theorem not_prefix_percents {m n : ℕ} (h : n < m) (t : Text) {u : Text}
    (hu : u.head? ≠ some '%') :
    ¬ List.replicate m '%' ++ t <+: List.replicate n '%' ++ u := by
  obtain ⟨k, rfl⟩ := Nat.exists_eq_add_of_lt h
  rw [Nat.add_assoc, List.replicate_add, List.append_assoc, List.prefix_append_right_inj,
    List.replicate_succ, List.cons_append]
  rintro ⟨v, rfl⟩
  exact hu rfl

/-- The `%` at the beginning of a text. -/
theorem exists_percents (t : Text) :
    ∃ n u, '%' :: t = List.replicate (n + 1) '%' ++ u ∧ u.head? ≠ some '%' := by
  induction t with
  | nil => exact ⟨0, [], rfl, by simp⟩
  | cons c t ih =>
      by_cases hc : c = '%'
      · obtain ⟨n, u, heq, hu⟩ := ih
        exact ⟨n + 1, u, by rw [hc, heq]; rfl, hu⟩
      · exact ⟨0, c :: t, rfl, by simpa using hc⟩

/-- A format that is copied has no directives. -/
theorem formatText_copied {t out : Text} {args : List Text} (hargs : PlainArgs args)
    (h : formatText t args = some out) (hcopy : t <+: out) : '%' ∉ t := by
  induction t generalizing out with
  | nil => simp
  | cons c t ih =>
      by_cases hc : c = '%'
      · subst hc
        obtain ⟨n, u, heq, hu⟩ := exists_percents t
        rw [heq] at h hcopy
        obtain ⟨rest, rfl, hrest, -⟩ := formatText_percents hargs hu _ h
        exact absurd hcopy (not_prefix_percents (by omega) u hrest)
      · rw [formatText_cons hc] at h
        obtain ⟨out', hout, rfl⟩ := Option.map_eq_some_iff.mp h
        have ht := ih hout (List.cons_prefix_cons.mp hcopy).2
        simpa [ht] using fun hpercent => hc hpercent.symm

theorem exists_pidAndCounter_eq (pid counter : ℕ) :
    ∃ c t, pidAndCounter pid counter = c :: t ∧ c.isDigit = true := by
  obtain ⟨d, ds, hcons⟩ : ∃ d ds, natText pid = d :: ds :=
    List.exists_cons_of_ne_nil Nat.toDigits_ne_nil
  refine ⟨d, (ds ++ txt "_" ++ natText counter).take 18, ?_, ?_⟩
  · rw [pidAndCounter, hcons]
    rfl
  · exact isDigit_of_mem_natText (by rw [hcons]; exact List.mem_cons_self)

theorem plainArgs_of_digit {arg : Text} (h : ∃ c t, arg = c :: t ∧ c.isDigit = true) :
    PlainArgs [arg] := by
  intro arg' harg
  obtain rfl := List.mem_singleton.mp harg
  obtain ⟨c, t, heq, hdigit⟩ := h
  refine ⟨c, t, heq, ?_⟩
  rintro rfl
  exact absurd hdigit (by decide)

/-- The substitution is the command itself, for every process and count, exactly for a
command without directives that fits into the buffer. -/
theorem format_eq_self_iff (t : Text) :
    (∀ pid counter, (formatText t [pidAndCounter pid counter]).map (List.take 1023) = some t) ↔
      '%' ∉ t ∧ t.length ≤ 1023 := by
  constructor
  · intro h
    obtain ⟨out, hout, htake⟩ := Option.map_eq_some_iff.mp (h 0 0)
    refine ⟨formatText_copied (plainArgs_of_digit (exists_pidAndCounter_eq 0 0)) hout ?_, ?_⟩
    · rw [← htake]
      exact List.take_prefix 1023 out
    · rw [← htake]
      exact List.length_take_le 1023 out
  · rintro ⟨hplain, hlength⟩ pid counter
    rw [formatText_plain hplain, Option.map_some, List.take_of_length_le hlength]

end Format

/-! ### Marking a line twice -/

section Marks

theorem markPcntF_snd_iff (t : Text) : (markPcntF t).2 = true ↔ txt "%f" <:+: t := by
  induction t using markPcntF.induct with
  | case1 => simp [markPcntF, txt]
  | case2 c => simp [markPcntF, txt, List.infix_cons_iff]
  | case3 c d t hf =>
      obtain ⟨rfl, rfl⟩ := hf
      exact iff_of_true rfl ⟨[], t, rfl⟩
  | case4 c d t hf ih =>
      rw [markPcntF, if_neg hf, List.infix_cons_iff, ← ih]
      simp only [txt]
      constructor
      · exact Or.inr
      · rintro (hstart | hinner)
        · obtain ⟨hc, hd⟩ := List.cons_prefix_cons.mp hstart
          exact absurd ⟨hc.symm, (List.cons_prefix_cons.mp hd).1.symm⟩ hf
        · exact hinner

theorem markPcntF_eq_self {t : Text} (h : (markPcntF t).2 = false) : (markPcntF t).1 = t := by
  induction t using markPcntF.induct with
  | case1 => rfl
  | case2 c => rfl
  | case3 c d t hf =>
      rw [markPcntF, if_pos hf] at h
      cases h
  | case4 c d t hf ih =>
      rw [markPcntF, if_neg hf] at h ⊢
      rw [ih h]

theorem markPcntF_ne_self {t : Text} (h : (markPcntF t).2 = true) : (markPcntF t).1 ≠ t := by
  induction t using markPcntF.induct with
  | case1 => cases h
  | case2 c => cases h
  | case3 c d t hf =>
      rw [markPcntF, if_pos hf, hf.2]
      simp
  | case4 c d t hf ih =>
      rw [markPcntF, if_neg hf] at h ⊢
      exact fun heq => ih h (List.cons.inj heq).2

/-- The white space between a tag and its command. -/
structure IsSep (sep : Text) : Prop where
  ne_nil : sep ≠ []
  blank : ∀ c ∈ sep, c = ' ' ∨ c = '\t'

theorem markPcntF_cons {c : Char} (hc : c ≠ '%') (t : Text) :
    markPcntF (c :: t) = (c :: (markPcntF t).1, (markPcntF t).2) := by
  cases t with
  | nil => rfl
  | cons d t => exact if_neg fun h => hc h.1

theorem markPcntF_sep {sep : Text} (hsep : ∀ c ∈ sep, c = ' ' ∨ c = '\t') (t : Text) :
    markPcntF (sep ++ t) = (sep ++ (markPcntF t).1, (markPcntF t).2) := by
  induction sep with
  | nil => rfl
  | cons c sep ih =>
      obtain ⟨hc, hsep⟩ := List.forall_mem_cons.mp hsep
      have hpercent : c ≠ '%' := by rcases hc with rfl | rfl <;> decide
      rw [List.cons_append, markPcntF_cons hpercent, ih hsep]
      rfl

/-- White space keeps the `%f` of two texts apart. -/
theorem markPcntF_append_sep {sep : Text} (hsep : IsSep sep) (a b : Text) :
    markPcntF (a ++ (sep ++ b)) =
      if (markPcntF a).2 then ((markPcntF a).1 ++ (sep ++ b), true)
      else (a ++ (sep ++ (markPcntF b).1), (markPcntF b).2) := by
  induction a using markPcntF.induct with
  | case1 => exact markPcntF_sep hsep.blank b
  | case2 c =>
      obtain ⟨d, rest, rfl⟩ := List.exists_cons_of_ne_nil hsep.ne_nil
      have hc : ¬ (c = '%' ∧ d = 'f') := by
        rintro ⟨-, rfl⟩
        exact absurd (hsep.blank 'f' List.mem_cons_self) (by decide)
      have hstep : markPcntF (c :: d :: (rest ++ b)) =
          (c :: (markPcntF (d :: (rest ++ b))).1, (markPcntF (d :: (rest ++ b))).2) := if_neg hc
      have hrest := markPcntF_sep hsep.blank b
      rw [List.cons_append] at hrest
      rw [List.cons_append, List.nil_append, List.cons_append, hstep, hrest]
      rfl
  | case3 c d t hf =>
      rw [List.cons_append, List.cons_append, markPcntF, if_pos hf, markPcntF, if_pos hf]
      rfl
  | case4 c d t hf ih =>
      rw [List.cons_append, List.cons_append, markPcntF, if_neg hf, markPcntF, if_neg hf]
      rw [List.cons_append] at ih
      rw [ih]
      split <;> rfl

/-- The first character of a line is kept. -/
theorem markPcntF_head (c : Char) (t : Text) : ∃ u, (markPcntF (c :: t)).1 = c :: u := by
  cases t with
  | nil => exact ⟨[], rfl⟩
  | cons d t =>
      rw [markPcntF]
      split <;> exact ⟨_, rfl⟩

end Marks

/-! ### Reading a line back -/

/-- The command begins with a character that `get_collection` does not skip. -/
def Begins (cmdline : Text) : Prop := ∃ c t, cmdline = c :: t ∧ isspace c = false

/-- The entry that is read from the line of an entry. -/
def CollEntry.reread (n : CollEntry) : CollEntry :=
  if (markPcntF n.name).2 then ⟨(markPcntF n.name).1, n.cmdline, true⟩
  else ⟨n.name, (markPcntF n.cmdline).1, (markPcntF n.cmdline).2⟩

section Lines

theorem strsep_cons {name : Text} (hname : ∀ c ∈ name, c ≠ ' ' ∧ c ≠ '\t') {d : Char}
    (hd : d = ' ' ∨ d = '\t') (rest : Text) :
    strsep (name ++ d :: rest) [' ', '\t'] = (name, some rest) := by
  have hkeep : ∀ c ∈ name, decide (c ∉ [' ', '\t']) = true := by
    intro c hc
    simpa using hname c hc
  unfold strsep
  rw [List.dropWhile_append_of_pos hkeep, List.takeWhile_append_of_pos hkeep]
  rcases hd with rfl | rfl <;> simp

/-- The white space behind the tag is skipped in two steps. -/
theorem collEntry_fields {name sep cmdline : Text} {flag : Bool} {line : Text}
    (hname : ∀ c ∈ name, c ≠ ' ' ∧ c ≠ '\t') (hsep : IsSep sep) (hcmd : Begins cmdline)
    (hline : markPcntF line = (name ++ (sep ++ cmdline), flag)) :
    collEntry line = .ok ⟨name, cmdline, flag⟩ := by
  obtain ⟨d, rest, rfl⟩ := List.exists_cons_of_ne_nil hsep.ne_nil
  obtain ⟨c, t, rfl, hspace⟩ := hcmd
  obtain ⟨hd, hrest⟩ := List.forall_mem_cons.mp hsep.blank
  have hskip : ∀ e ∈ rest, isspace e = true := by
    intro e he
    rcases hrest e he with rfl | rfl <;> rfl
  have hdrop : (rest ++ c :: t).dropWhile isspace = c :: t := by
    rw [List.dropWhile_append_of_pos hskip, List.dropWhile_cons_of_neg (by simp [hspace])]
  simp only [collEntry, hline, List.cons_append, strsep_cons hname hd, Option.map_some, hdrop]

variable {n : CollEntry}

theorem collEntry_line {sep : Text} (hname : ∀ c ∈ n.name, c ≠ ' ' ∧ c ≠ '\t') (hsep : IsSep sep)
    (hcmd : Begins n.cmdline) : collEntry (n.name ++ (sep ++ n.cmdline)) = .ok n.reread := by
  have happend := markPcntF_append_sep hsep n.name n.cmdline
  unfold CollEntry.reread
  cases hmark : (markPcntF n.name).2 with
  | true =>
      rw [hmark, if_pos rfl] at happend
      refine collEntry_fields ?_ hsep hcmd happend
      intro c hc
      rcases mem_markPcntF hc with hmem | rfl
      · exact hname c hmem
      · decide
  | false =>
      rw [hmark, if_neg nofun] at happend
      refine collEntry_fields hname hsep ?_ happend
      obtain ⟨c, t, hcons, hspace⟩ := hcmd
      obtain ⟨u, hu⟩ := markPcntF_head c t
      exact ⟨c, u, hcons ▸ hu, hspace⟩

theorem isSep_blank : IsSep [' '] := ⟨List.cons_ne_nil _ _, by simp⟩

theorem collEntry_shape {line : Text} (h : collEntry line = .ok n) :
    n.name <+: (markPcntF line).1 ∧ n.cmdline <:+ (markPcntF line).1 ∧
      n.pcntF = (markPcntF line).2 ∧ Begins n.cmdline := by
  simp only [collEntry] at h
  split at h
  next c a ha =>
      obtain rfl := Except.ok.inj h
      obtain ⟨rest, hsep, hdrop⟩ := Option.map_eq_some_iff.mp ha
      have hbegins : isspace c = false := by
        have hhead := List.head?_dropWhile_not isspace rest
        rwa [hdrop] at hhead
      unfold strsep at hsep ⊢
      split at hsep
      next => cases hsep
      next d rest' hrest =>
          obtain rfl := Option.some.inj hsep
          have hdropped : d :: rest' <:+ (markPcntF line).1 := hrest ▸ List.dropWhile_suffix _
          have hcmd : c :: a <:+ rest' := hdrop ▸ List.dropWhile_suffix _
          refine ⟨List.takeWhile_prefix _, ?_, rfl, c, a, rfl, hbegins⟩
          exact hcmd.trans ((List.suffix_cons d rest').trans hdropped)
  next => cases h

/-- What is known of an entry of a collection besides `Read`. -/
structure CollEntry.Parsed (n : CollEntry) : Prop where
  not_comment : n.name.head? ≠ some '#'
  unmarked : n.pcntF = false → (markPcntF n.name).2 = false ∧ (markPcntF n.cmdline).2 = false

theorem unmarked_of_part {t u : Text} (h : t <:+: u) (hu : (markPcntF u).2 = false) :
    (markPcntF t).2 = false := by
  by_contra ht
  have hmarked : (markPcntF u).2 = true :=
    (markPcntF_snd_iff u).mpr (((markPcntF_snd_iff t).mp (by simpa using ht)).trans h)
  rw [hu] at hmarked
  cases hmarked

theorem collEntry_parsed {line : Text} (hline : isEntryLine line = true)
    (h : collEntry line = .ok n) : n.Parsed := by
  obtain ⟨hname, hcmd, hflag, -⟩ := collEntry_shape h
  constructor
  · intro hhash
    obtain ⟨c, t, rfl⟩ : ∃ c t, line = c :: t := by
      cases line with
      | nil => cases hline
      | cons c t => exact ⟨c, t, rfl⟩
    obtain ⟨u, hu⟩ := markPcntF_head c t
    obtain ⟨v, hv⟩ := List.head?_eq_some_iff.mp hhash
    rw [hu, hv] at hname
    rw [← (List.cons_prefix_cons.mp hname).1] at hline
    cases hline
  · intro hoff
    have hmark : (markPcntF line).2 = false := hflag.symm.trans hoff
    rw [markPcntF_eq_self hmark] at hname hcmd
    exact ⟨unmarked_of_part hname.isInfix hmark, unmarked_of_part hcmd.isInfix hmark⟩

theorem getCollection_parsed {file : Option Text} {args : List Text} {ns : List CollEntry}
    (h : getCollection file args = .ok ns) (hn : n ∈ ns) : n.Parsed := by
  rcases mem_getCollection h hn with ⟨line, -, -, hline, hentry⟩ | ⟨-, hcmdln⟩
  · exact collEntry_parsed hline hentry
  · simp only [cmdlnEntry] at hcmdln
    split at hcmdln
    next =>
        obtain rfl := Except.ok.inj hcmdln
        have hname : (txt "cmdln").head? ≠ some '#' ∧ (markPcntF (txt "cmdln")).2 = false := by
          decide
        refine ⟨hname.1, fun hoff => ⟨hname.2, ?_⟩⟩
        rw [markPcntF_eq_self hoff]
        exact hoff
    next => cases hcmdln

/-- The entries of a file have no newline in their commands, which do not begin with white
space. -/
theorem getCollection_file_shape {file : Option Text} {ns : List CollEntry}
    (h : getCollection file [] = .ok ns) (hn : n ∈ ns) : '\n' ∉ n.cmdline ∧ Begins n.cmdline := by
  rcases mem_getCollection h hn with ⟨line, -, hnl, -, hentry⟩ | ⟨hne, -⟩
  · obtain ⟨-, hcmd, -, hbegins⟩ := collEntry_shape hentry
    refine ⟨fun hmem => ?_, hbegins⟩
    rcases mem_markPcntF (hcmd.subset hmem) with hmem | hs
    · exact hnl hmem
    · exact absurd hs (by decide)
  · exact absurd rfl hne

/-- The lines of entries with plain commands: those with a tag are read back. -/
theorem fileEntries_lines {F : List CollEntry}
    (hread : ∀ n ∈ F, n.Read) (hparsed : ∀ n ∈ F, n.Parsed) (hbegins : ∀ n ∈ F, Begins n.cmdline) :
    fileEntries ((F.map fun n => n.name ++ ' ' :: n.cmdline) ++ [[]]) =
      .ok ((F.filter fun n => n.name ≠ []).map CollEntry.reread) := by
  induction F with
  | nil => rfl
  | cons n F ih =>
      have hrest := ih (fun m hm => hread m (List.mem_cons_of_mem n hm))
        (fun m hm => hparsed m (List.mem_cons_of_mem n hm))
        (fun m hm => hbegins m (List.mem_cons_of_mem n hm))
      have hplain := (hread n List.mem_cons_self).name_plain
      rw [List.map_cons, List.cons_append, fileEntries, hrest]
      cases hname : n.name with
      | nil => simp [isEntryLine, hname]
      | cons c t =>
          have hc : c ≠ '#' ∧ c ≠ ' ' := by
            refine ⟨fun hhash => ?_, (hplain c (by simp [hname])).1⟩
            exact (hparsed n List.mem_cons_self).not_comment (by rw [hname, hhash]; rfl)
          have hline : isEntryLine (n.name ++ ' ' :: n.cmdline) = true := by
            rw [hname]
            exact decide_eq_true hc
          have hentry : collEntry (n.name ++ ' ' :: n.cmdline) = .ok n.reread :=
            collEntry_line (fun c hc => ⟨(hplain c hc).1, (hplain c hc).2.1⟩) isSep_blank
              (hbegins n List.mem_cons_self)
          rw [← hname, if_pos hline, hentry]
          simp [hname]

end Lines

/-! ### Reading the file back -/

/-- The same tag, the same command, and the same command lines after the substitution. -/
structure SameEntry (n m : CollEntry) : Prop where
  name : m.name = n.name
  cmdline : m.cmdline = n.cmdline
  subst : ∀ pid counter, substPcntF m pid counter = substPcntF n pid counter

/-- Where a `%f` does no harm to the line of an entry: in the tag, once, when the command
has no directives and fits into the buffer of `subst_pcnt_f`. -/
def CollEntry.Harmless (n : CollEntry) : Prop :=
  n.pcntF = true → ¬ txt "%f" <:+: n.name ∧ '%' ∉ n.cmdline ∧ n.cmdline.length ≤ 1023

/-- An entry whose line is read back as that entry. -/
structure CollEntry.Rereads (n : CollEntry) : Prop where
  tagged : n.name ≠ []
  oneLine : '\n' ∉ n.cmdline
  begins : Begins n.cmdline
  harmless : n.Harmless

section Reread

variable {n : CollEntry}

theorem reread_unmarked (hname : (markPcntF n.name).2 = false)
    (hcmd : (markPcntF n.cmdline).2 = false) : n.reread = ⟨n.name, n.cmdline, false⟩ := by
  rw [CollEntry.reread, if_neg (by simp [hname]), markPcntF_eq_self hcmd, hcmd]

theorem sameEntry_reread_iff (hparsed : n.Parsed) : SameEntry n n.reread ↔ n.Harmless := by
  constructor
  · intro hsame hon
    have hname : (markPcntF n.name).2 = false := by
      by_contra hmark
      have heq := hsame.name
      rw [CollEntry.reread, if_pos (by simpa using hmark)] at heq
      exact markPcntF_ne_self (by simpa using hmark) heq
    have hcmd : (markPcntF n.cmdline).2 = false := by
      by_contra hmark
      have heq := hsame.cmdline
      rw [CollEntry.reread, if_neg (by simp [hname])] at heq
      exact markPcntF_ne_self (by simpa using hmark) heq
    have hsubst := hsame.subst
    rw [reread_unmarked hname hcmd] at hsubst
    refine ⟨fun hpart => ?_, (format_eq_self_iff n.cmdline).mp fun pid counter => ?_⟩
    · rw [(markPcntF_snd_iff n.name).mpr hpart] at hname
      cases hname
    · have hone := hsubst pid counter
      rw [substPcntF, substPcntF, if_pos hon] at hone
      exact hone.symm
  · intro hharmless
    cases hflag : n.pcntF with
    | false =>
        obtain ⟨hname, hcmd⟩ := hparsed.unmarked hflag
        rw [reread_unmarked hname hcmd, ← hflag]
        exact ⟨rfl, rfl, fun _ _ => rfl⟩
    | true =>
        obtain ⟨hpart, hplain, hlength⟩ := hharmless hflag
        have hname : (markPcntF n.name).2 = false := by
          by_contra hmark
          exact hpart ((markPcntF_snd_iff n.name).mp (by simpa using hmark))
        have hcmd : (markPcntF n.cmdline).2 = false := by
          by_contra hmark
          have hmem := ((markPcntF_snd_iff n.cmdline).mp (by simpa using hmark)).subset
            (show '%' ∈ txt "%f" by decide)
          exact hplain hmem
        rw [reread_unmarked hname hcmd]
        refine ⟨rfl, rfl, fun pid counter => ?_⟩
        have hself := (format_eq_self_iff n.cmdline).mpr ⟨hplain, hlength⟩ pid counter
        rw [substPcntF, substPcntF, if_pos hflag, hself]
        rfl

/-- The text of a fail command file is the lines of its entries. -/
theorem getCollection_lines {F : List CollEntry} (hread : ∀ n ∈ F, n.Read)
    (hparsed : ∀ n ∈ F, n.Parsed) (hline : ∀ n ∈ F, '\n' ∉ n.cmdline)
    (hbegins : ∀ n ∈ F, Begins n.cmdline) :
    getCollection (some (F.flatMap cmdFileLine)) [] =
      .ok ((F.filter fun n => n.name ≠ []).map CollEntry.reread) := by
  have htext : F.flatMap cmdFileLine = unlines (F.map fun n => n.name ++ ' ' :: n.cmdline) := by
    rw [unlines, List.flatMap_map]
    apply List.flatMap_congr
    intro n _
    simp [cmdFileLine, txt]
  have hnul : '\x00' ∉ F.flatMap cmdFileLine := by
    intro hmem
    obtain ⟨n, hn, hmem⟩ := List.mem_flatMap.mp hmem
    have hname : '\x00' ∉ n.name := fun h => ((hread n hn).name_plain _ h).2.2.2 rfl
    simp [cmdFileLine, txt, hname, (hread n hn).cmdline_no_nul] at hmem
  have hlines : ∀ l ∈ F.map fun n => n.name ++ ' ' :: n.cmdline, '\n' ∉ l := by
    intro l hl
    obtain ⟨n, hn, rfl⟩ := List.mem_map.mp hl
    have hname : '\n' ∉ n.name := fun h => ((hread n hn).name_plain _ h).2.2.1 rfl
    simp [hname, hline n hn]
  have hsplit : lines (F.flatMap cmdFileLine) =
      (F.map fun n => n.name ++ ' ' :: n.cmdline) ++ [[]] := by
    rw [htext, ← List.append_nil (unlines _)]
    exact lines_unlines_append hlines []
  simp only [getCollection, cString_eq hnul, hsplit, fileEntries_lines hread hparsed hbegins,
    if_true]

theorem exists_of_forall₂ {R : CollEntry → CollEntry → Prop} {F coll : List CollEntry}
    (h : List.Forall₂ R F coll) (hn : n ∈ F) : ∃ m ∈ coll, R n m := by
  induction h with
  | nil => cases hn
  | @cons a b F coll hab _ ih =>
      rcases List.mem_cons.mp hn with rfl | hn
      · exact ⟨b, List.mem_cons_self, hab⟩
      · obtain ⟨m, hm, hnm⟩ := ih hn
        exact ⟨m, List.mem_cons_of_mem b hm, hnm⟩

/-- A fail command file is read back as the entries that failed exactly when each of them
reads back. -/
theorem reread_iff {F : List CollEntry} (hread : ∀ n ∈ F, n.Read) (hparsed : ∀ n ∈ F, n.Parsed) :
    (∃ coll, getCollection (some (F.flatMap cmdFileLine)) [] = .ok coll ∧
      List.Forall₂ SameEntry F coll) ↔ ∀ n ∈ F, n.Rereads := by
  constructor
  · rintro ⟨coll, hcoll, hsame⟩
    have hshape : ∀ n ∈ F, '\n' ∉ n.cmdline ∧ Begins n.cmdline := by
      intro n hn
      obtain ⟨m, hm, hnm⟩ := exists_of_forall₂ hsame hn
      rw [← hnm.cmdline]
      exact getCollection_file_shape hcoll hm
    have hlines := getCollection_lines hread hparsed (fun n hn => (hshape n hn).1)
      fun n hn => (hshape n hn).2
    obtain rfl : coll = _ := Except.ok.inj (hcoll.symm.trans hlines)
    -- the lines of entries without a tag are skipped, so there is none
    have htagged : ∀ n ∈ F, n.name ≠ [] := by
      have hlength := hsame.length_eq
      rw [List.length_map] at hlength
      intro n hn
      simpa using List.length_filter_eq_length_iff.mp hlength.symm n hn
    have hkept : F.filter (fun n => n.name ≠ []) = F := by
      apply List.filter_eq_self.mpr
      intro n hn
      exact decide_eq_true (htagged n hn)
    rw [hkept, List.forall₂_map_right_iff, List.forall₂_same] at hsame
    intro n hn
    refine ⟨htagged n hn, (hshape n hn).1, (hshape n hn).2, ?_⟩
    exact (sameEntry_reread_iff (hparsed n hn)).mp (hsame n hn)
  · intro hall
    refine ⟨_, getCollection_lines hread hparsed (fun n hn => (hall n hn).oneLine)
      fun n hn => (hall n hn).begins, ?_⟩
    have hkept : F.filter (fun n => n.name ≠ []) = F := by
      apply List.filter_eq_self.mpr
      intro n hn
      exact decide_eq_true (hall n hn).tagged
    rw [hkept, List.forall₂_map_right_iff, List.forall₂_same]
    intro n hn
    exact (sameEntry_reread_iff (hparsed n hn)).mpr (hall n hn).harmless

theorem failCmds_mem {o : Options} {coll : List CollEntry} {evs : List Event}
    (hn : n ∈ (panRun o coll evs).failCmds) : n ∈ coll := by
  obtain ⟨results, -, hinv⟩ := ledgerOk_panRun o coll evs
  rw [hinv.failCmds] at hn
  obtain ⟨x, hx, hcmd⟩ := List.mem_filterMap.mp hn
  have hxn : x.cmd = n := by
    unfold Outcome.failCmd at hcmd
    split at hcmd
    · exact Option.some.inj (Option.ite_none_right_eq_some.mp hcmd).2
    · cases hcmd
  rw [← hxn]
  exact ledger_cmd_mem o coll evs x hx

/-- The fail command file of a run is read back as the entries that failed exactly when each
of them has a tag and either no `%f` in its line or a harmless one. -/
theorem failFile_reread_iff {file : Option Text} {args : List Text} {coll : List CollEntry}
    (hcoll : getCollection file args = .ok coll) (o : Options) (evs : List Event) :
    (∃ again, getCollection (some ((panRun o coll evs).failCmds.flatMap cmdFileLine)) [] =
        .ok again ∧ List.Forall₂ SameEntry (panRun o coll evs).failCmds again) ↔
      ∀ n ∈ (panRun o coll evs).failCmds, n.Rereads := by
  apply reread_iff
  · exact fun n hn => getCollection_read hcoll n (failCmds_mem hn)
  · exact fun n hn => getCollection_parsed hcoll (failCmds_mem hn)

end Reread

/-- A run in which one command exits with 1. -/
def failsOnce : List Event :=
  [.step { start := .started 7 }, .step {}, .step {}, .step {}, .step {},
    .step { wait := .child 7 256 }]

theorem failFile_reread_plain :
    ∃ again, getCollection (some ((panRun { failcmdfile := true } [⟨txt "t", txt "echo", false⟩]
        failsOnce).failCmds.flatMap cmdFileLine)) [] = .ok again ∧
      List.Forall₂ SameEntry (panRun { failcmdfile := true } [⟨txt "t", txt "echo", false⟩]
        failsOnce).failCmds again := by
  have hcoll : getCollection (some (txt "t echo\n")) [] = .ok [⟨txt "t", txt "echo", false⟩] := by
    decide
  apply (failFile_reread_iff hcoll { failcmdfile := true } failsOnce).mpr
  have hfailed : (panRun { failcmdfile := true } [⟨txt "t", txt "echo", false⟩] failsOnce).failCmds =
      [⟨txt "t", txt "echo", false⟩] := by
    decide +kernel
  rw [hfailed]
  intro n hn
  obtain rfl := List.mem_singleton.mp hn
  exact ⟨by decide, by decide, ⟨'e', txt "cho", rfl, by decide⟩, nofun⟩

/-- The command `echo %f` runs with the pid and a count in the first run, and with the text
`%s` when it is run again from the fail command file. -/
theorem failFile_loses_substitution :
    ∃ n m : CollEntry,
      getCollection (some (txt "t echo %f\n")) [] = .ok [n] ∧
      (panRun { failcmdfile := true } [n] failsOnce).failCmds = [n] ∧
      getCollection (some ([n].flatMap cmdFileLine)) [] = .ok [m] ∧
      substPcntF n 7 1 = some (txt "echo 7_1") ∧ substPcntF m 7 1 = some (txt "echo %s") := by
  refine ⟨⟨txt "t", txt "echo %s", true⟩, ⟨txt "t", txt "echo %s", false⟩, ?_⟩
  decide +kernel

end EDDTs.Pan
