import EDDTs.Boards.Resm
import EDDTs.Library.Lines
import EDDTs.Pan.CLibrary
import Mathlib.Data.List.Infix
import Mathlib.Data.List.Pairwise

/-!
# The check of the kernel configuration

`tst_kconfig_read` looks in every line of a kernel config for the options that a test needs,
each by the part of the line from the first `CONFIG_` on, and `tst_kconfig_check` ends the
test if one of them is missing, not set, or has another value.

## Implementation notes

The config file was found and opened, or it was not; where `kconfig_path` looks for it is left
out.
-/

namespace EDDTs.LtpLib

open Library Boards
open Pan (isspace fgets)

/-! ### Reading -/

/-- The field `match` of a result, zero for an option that was not found. -/
inductive KMatch where
  | zero
  | y
  | m
  | v
  | n
  deriving DecidableEq, Repr

/-- The character of a field `match`. -/
def KMatch.char : KMatch → Char
  | .zero => '\x00'
  | .y => 'y'
  | .m => 'm'
  | .v => 'v'
  | .n => 'n'

/-- `struct tst_kconfig_res` -/
structure KconfigRes where
  found : KMatch := .zero
  value : Text := []
  deriving DecidableEq, Repr

/-- `strstr` -/
def strstr (pat : Text) : Text → Option Text
  | [] => if pat = [] then some [] else none
  | c :: t => if pat.isPrefixOf (c :: t) then some (c :: t) else strstr pat t

/-- `is_set` -/
def isSet (str val : Text) : Bool :=
  let str := str.dropWhile isspace
  val.isPrefixOf str && decide ((str.drop val.length).headD '\x00' ∈ [' ', '\n', '\x00'])

/-- The name in a requirement: the part before the `=`. -/
def confName (conf : Text) : Text := conf.takeWhile (· ≠ '=')

/-- `strchr(conf, '=')` and the character behind it: the value in a requirement. -/
def confValue (conf : Text) : Option Text := (conf.dropWhile (· ≠ '=')).tail?

/-- The part of `match` from its `switch` on, with `val` behind the name. -/
def matchValue : Text → Option KconfigRes
  | '=' :: rest =>
      if isSet ('=' :: rest) (txt "=y") then some { found := .y }
      else if isSet ('=' :: rest) (txt "=m") then some { found := .m }
      -- `strlen(val) - 2` leaves out the `=` and the newline
      else some { found := .v, value := rest.take (rest.length - 1) }
  | ' ' :: rest => if isSet (' ' :: rest) (txt "is not set") then some { found := .n } else none
  | _ => none

/-- `match`, for an option that was not matched before. -/
def matchLine (conf line : Text) : Option KconfigRes :=
  match strstr (txt "CONFIG_") line with
  | none => none
  | some cfg =>
      if (confName conf).isPrefixOf cfg then matchValue (cfg.drop (confName conf).length) else none

/-- A requirement and its result, once it is matched. -/
structure Slot where
  conf : Text
  res : Option KconfigRes := none

/-- `match` -/
def Slot.tryMatch (s : Slot) (line : Text) : Option Slot :=
  match s.res with
  | some _ => none
  | none => (matchLine s.conf line).map fun res => { s with res := some res }

/-- The loop over the requirements for one line, and whether it leaves the reading. The test
for that looks for a requirement that is matched, and there is one. -/
def matchAll (line : Text) (before : List Slot) : List Slot → List Slot × Bool
  | [] => (before, false)
  | s :: rest =>
      match s.tryMatch line with
      | none => matchAll line (before ++ [s]) rest
      | some s' =>
          if (before ++ s' :: rest).all fun s => s.res.isNone then (before ++ s' :: rest, true)
          else matchAll line (before ++ [s']) rest

/-- The loop over the lines of the file. Each turn reads a character at least. -/
def readLines : ℕ → Text → List Slot → List Slot
  | _, [], slots => slots
  | 0, _, slots => slots
  | fuel + 1, c :: rest, slots =>
      let buf := cString (fgets 1023 (c :: rest)).1
      match matchAll buf [] slots with
      | (slots, true) => slots
      | (slots, false) => readLines fuel (fgets 1023 (c :: rest)).2 slots

/-- `tst_kconfig_read`, or the message with which it ends the test. -/
def tstKconfigRead (kconfigs : List Text) (file : Option Text) :
    Except Message (List KconfigRes) :=
  match kconfigs.find? fun conf => !(txt "CONFIG_").isPrefixOf conf with
  | some conf => .error ⟨.brok, txt "Invalid config string '" ++ conf ++ txt "'", false⟩
  | none =>
      match file with
      | none => .error ⟨.brok, txt "Cannot parse kernel .config", false⟩
      | some file =>
          .ok ((readLines file.length file (kconfigs.map fun conf => { conf := conf })).map
            fun s => s.res.getD {})

/-! ### Checking -/

/-- `compare_res`: the message about a difference. -/
def compareRes (res : KconfigRes) (kconfig : Text) (found : KMatch) (val : Text) : Option Message :=
  if res.found ≠ found then
    some ⟨.info, txt "Needs kernel " ++ kconfig ++ txt ", have " ++ [res.found.char], false⟩
  else if found ≠ .v then none
  else if res.value ≠ val then
    some ⟨.info, txt "Needs kernel " ++ kconfig ++ txt ", have " ++ res.value, false⟩
  else none

/-- The body of the loop in `tst_kconfig_check`: the message for a requirement that aborts the
test. -/
def checkRes (kconfig : Text) (res : KconfigRes) : Option Message :=
  match res.found with
  | .zero => some ⟨.info, txt "Missing kernel " ++ kconfig, false⟩
  | .n => some ⟨.info, txt "Kernel " ++ kconfig ++ txt " is not set", false⟩
  | _ =>
      match confValue kconfig with
      | none => none
      | some val =>
          compareRes res kconfig
            (if val = txt "m" then .m else if val = txt "y" then .y else .v) val

/-- `tst_kconfig_check`. It has no result for an empty list: `array_len` looks for the end
of the list from the second entry on. -/
def tstKconfigCheck (kconfigs : List Text) (file : Option Text) : Option Outcome :=
  if kconfigs = [] then none
  else
    match tstKconfigRead kconfigs file with
    | .error message => some { messages := [message], ended := true }
    | .ok results =>
        let messages := (List.zipWith checkRes kconfigs results).filterMap id
        if messages = [] then some { messages := [] }
        else
          some
            { messages := messages ++
                [⟨.conf, txt "Aborting due to unsuitable kernel config, see above!", false⟩]
              ended := true }

/-! ### The loops -/

section Loops

/-- A requirement after some lines: the first match counts. -/
def Slot.after (ls : List Text) (s : Slot) : Slot :=
  { s with res := s.res.or (ls.findSome? (matchLine s.conf)) }

theorem Slot.tryMatch_eq (s : Slot) (line : Text) :
    (s.tryMatch line).getD s = s.after [line] := by
  obtain ⟨conf, res⟩ := s
  cases res with
  | none =>
      cases h : matchLine conf line with
      | none | some => simp [tryMatch, after, h]
  | some r => simp [tryMatch, after]

theorem Slot.isSome_of_tryMatch {s s' : Slot} {line : Text} (h : s.tryMatch line = some s') :
    s'.res.isSome = true := by
  unfold tryMatch at h
  split at h
  next => cases h
  next =>
    obtain ⟨r, -, rfl⟩ := Option.map_eq_some_iff.mp h
    rfl

/-- The early exit is never taken, so every requirement sees every line. -/
theorem matchAll_eq (line : Text) (before slots : List Slot) :
    matchAll line before slots = (before ++ slots.map (Slot.after [line]), false) := by
  induction slots generalizing before with
  | nil => simp [matchAll]
  | cons s rest ih =>
      have hs := s.tryMatch_eq line
      unfold matchAll
      cases hmatch : s.tryMatch line with
      | none =>
          rw [hmatch, Option.getD_none] at hs
          simp only [ih, ← hs, List.map_cons, List.append_assoc, List.cons_append, List.nil_append]
      | some s' =>
          rw [hmatch, Option.getD_some] at hs
          have hstay : ¬ ((before ++ s' :: rest).all fun s => s.res.isNone) = true := by
            intro hall
            have hnone := List.all_eq_true.mp hall s' (by simp)
            have hsome := Slot.isSome_of_tryMatch hmatch
            rw [Option.isNone_iff_eq_none.mp hnone] at hsome
            cases hsome
          simp only [if_neg hstay, ih, ← hs, List.map_cons, List.append_assoc, List.cons_append,
            List.nil_append]

theorem Slot.after_after (ls ls' : List Text) (s : Slot) :
    (s.after ls).after ls' = s.after (ls ++ ls') := by
  simp [after, List.findSome?_append, Option.or_assoc]

/-- A line that `fgets` reads whole. -/
structure IsConfigLine (l : Text) : Prop where
  short : l.length < 1023
  no_newline : '\n' ∉ l
  no_nul : '\x00' ∉ l

/-- Reading a file of such lines. -/
theorem readLines_unlines {ls : List Text} (h : ∀ l ∈ ls, IsConfigLine l) {fuel : ℕ}
    (hfuel : (unlines ls).length ≤ fuel) (slots : List Slot) :
    readLines fuel (unlines ls) slots = slots.map (Slot.after (ls.map (· ++ ['\n']))) := by
  refine unlines_induction (motive := fun ls fuel => ∀ slots,
    readLines fuel (unlines ls) slots = slots.map (Slot.after (ls.map (· ++ ['\n']))))
    ?_ ?_ h hfuel slots
  · intro fuel slots
    have hafter : Slot.after (List.map (· ++ ['\n']) []) = id := by
      funext s
      simp [Slot.after]
    rw [hafter, List.map_id]
    cases fuel <;> rfl
  · intro l ls fuel hl ih slots
    have hread := Pan.fgets_line hl.no_newline hl.short (unlines ls)
    have hbuf : cString (l ++ ['\n']) = l ++ ['\n'] := Pan.cString_eq (by simp [hl.no_nul])
    obtain ⟨c, rest, hcons⟩ : ∃ c rest, l ++ '\n' :: unlines ls = c :: rest :=
      List.exists_cons_of_ne_nil (by simp)
    rw [unlines_cons_eq, hcons, readLines, ← hcons, hread]
    simp only [hbuf, matchAll_eq, List.nil_append]
    rw [ih, List.map_map]
    congr 1
    funext s
    exact s.after_after [l ++ ['\n']] _

end Loops

/-! ### The lines of a config -/

/-- The name of an option. -/
structure IsOptionName (name : Text) : Prop where
  starts : txt "CONFIG_" <+: name
  no_equals : '=' ∉ name
  no_space : ∀ c ∈ name, isspace c = false

/-- A line of a config: an option with its value, an option that is not set, or a line that
says neither of an option, such as a comment. -/
inductive KconfigRow where
  | assign (name value : Text)
  | notSet (name : Text)
  | other (text : Text)
  deriving DecidableEq, Repr

namespace KconfigRow

def line : KconfigRow → Text
  | assign name value => name ++ '=' :: value
  | notSet name => txt "# " ++ (name ++ txt " is not set")
  | other text => text

def WellFormed : KconfigRow → Prop
  | assign name value => IsOptionName name ∧ ' ' ∉ value
  | notSet name => IsOptionName name
  | other text => ∀ cfg, txt "CONFIG_" <+: cfg → cfg <:+ text →
      '=' ∉ cfg ∧ ¬ txt "is not set" <:+: cfg

def name? : KconfigRow → Option Text
  | assign name _ => some name
  | notSet name => some name
  | other _ => none

end KconfigRow

/-- A well-formed config: its lines are short, and no option has two. -/
structure IsConfig (rows : List KconfigRow) : Prop where
  lines : ∀ row ∈ rows, IsConfigLine row.line
  wellFormed : ∀ row ∈ rows, row.WellFormed
  distinct : (rows.filterMap KconfigRow.name?).Nodup

/-- The result for a value. -/
def classify (value : Text) : KconfigRes :=
  if value = txt "y" then { found := .y }
  else if value = txt "m" then { found := .m }
  else { found := .v, value := value }

/-- The result for an option from a line. -/
def KconfigRow.answer (name : Text) : KconfigRow → Option KconfigRes
  | assign name' value => if name' = name then some (classify value) else none
  | notSet name' => if name' = name then some { found := .n } else none
  | other _ => none

section Rows

variable {name value conf : Text} {row : KconfigRow} {rows : List KconfigRow}

theorem strstr_of_prefix {pat t : Text} (h : pat <+: t) : strstr pat t = some t := by
  cases t with
  | nil => rw [strstr, if_pos (List.prefix_nil.mp h)]
  | cons c t => rw [strstr, if_pos (List.isPrefixOf_iff_prefix.mpr h)]

theorem strstr_eq_some {pat t found : Text} (h : strstr pat t = some found) :
    pat <+: found ∧ found <:+ t := by
  induction t with
  | nil =>
      obtain ⟨rfl, hfound⟩ := Option.ite_none_right_eq_some.mp h
      cases hfound
      exact ⟨List.nil_prefix, List.suffix_rfl⟩
  | cons c t ih =>
      rw [strstr] at h
      split_ifs at h with hstarts
      · cases h
        exact ⟨List.isPrefixOf_iff_prefix.mp hstarts, List.suffix_rfl⟩
      · exact ⟨(ih h).1, (ih h).2.trans (List.suffix_cons c t)⟩

theorem equals_not_mem_confName (conf : Text) : '=' ∉ confName conf := fun h => by
  simpa using List.mem_takeWhile_imp h

theorem matchValue_cons {c : Char} (hequals : c ≠ '=') (hblank : c ≠ ' ') (t : Text) :
    matchValue (c :: t) = none := by
  rw [matchValue]
  · exact fun _ h => hequals (List.cons.inj h).1
  · exact fun _ h => hblank (List.cons.inj h).1

theorem IsOptionName.ne_of_mem (h : IsOptionName name) {c : Char} (hc : c ∈ name) :
    c ≠ '=' ∧ c ≠ ' ' := by
  constructor
  · rintro rfl
    exact h.no_equals hc
  · rintro rfl
    cases h.no_space _ hc

/-- A name that ends before the name of the line does is no match. -/
theorem matchValue_of_shorter (h : IsOptionName name) {short rest : Text} (hbegins : short <+: name)
    (hne : short ≠ name) : matchValue ((name ++ rest).drop short.length) = none := by
  obtain ⟨more, rfl⟩ := hbegins
  cases more with
  | nil => exact absurd (List.append_nil short).symm hne
  | cons c more =>
      obtain ⟨hequals, hblank⟩ := h.ne_of_mem (c := c) (by simp)
      rw [List.append_assoc, List.drop_left, List.cons_append]
      exact matchValue_cons hequals hblank _

/-- `is_set` on a value and its newline. -/
theorem isSet_value {c : Char} (hc : c ≠ '\n') (hblank : ' ' ∉ value) (hnewline : '\n' ∉ value)
    (hnul : '\x00' ∉ value) : isSet ('=' :: (value ++ ['\n'])) ['=', c] = decide (value = [c]) := by
  have hskip : ('=' :: (value ++ ['\n'])).dropWhile isspace = '=' :: (value ++ ['\n']) :=
    List.dropWhile_cons_of_neg (by decide)
  simp only [isSet, hskip]
  cases value with
  | nil => simp [List.isPrefixOf, hc]
  | cons d rest =>
      cases rest with
      | nil =>
          by_cases hd : d = c
          · simp [List.isPrefixOf, hd]
          · simp [List.isPrefixOf, hd, Ne.symm hd]
      | cons e rest =>
          have he : e ≠ ' ' ∧ e ≠ '\n' ∧ e ≠ '\x00' := by
            refine ⟨?_, ?_, ?_⟩
            · rintro rfl
              simp at hblank
            · rintro rfl
              simp at hnewline
            · rintro rfl
              simp at hnul
          simp [List.isPrefixOf, he]

theorem matchLine_assign (conf : Text) (hname : IsOptionName name)
    (hline : IsConfigLine (name ++ '=' :: value)) (hblank : ' ' ∉ value) :
    matchLine conf (name ++ '=' :: value ++ ['\n']) = (KconfigRow.assign name value).answer
      (confName conf) := by
  have hnewline : '\n' ∉ value := fun h => hline.no_newline (by simp [h])
  have hnul : '\x00' ∉ value := fun h => hline.no_nul (by simp [h])
  have hfound : strstr (txt "CONFIG_") (name ++ '=' :: value ++ ['\n']) =
      some (name ++ '=' :: (value ++ ['\n'])) := by
    rw [List.append_assoc]
    exact strstr_of_prefix (hname.starts.trans (List.prefix_append name _))
  have hbegins := isPrefixOf_append_cons (equals_not_mem_confName conf) name (value ++ ['\n'])
  simp only [matchLine, hfound, hbegins, KconfigRow.answer]
  by_cases heq : name = confName conf
  · rw [if_pos heq, ← heq, if_pos (List.isPrefixOf_iff_prefix.mpr List.prefix_rfl), List.drop_left]
    have hy : isSet ('=' :: (value ++ ['\n'])) (txt "=y") = decide (value = txt "y") :=
      isSet_value (by decide) hblank hnewline hnul
    have hm : isSet ('=' :: (value ++ ['\n'])) (txt "=m") = decide (value = txt "m") :=
      isSet_value (by decide) hblank hnewline hnul
    have htake : (value ++ ['\n']).take ((value ++ ['\n']).length - 1) = value := by simp
    simp only [matchValue, hy, hm, htake, decide_eq_true_eq, classify]
    split_ifs <;> rfl
  · rw [if_neg heq]
    split_ifs with hstarts
    · exact matchValue_of_shorter hname (List.isPrefixOf_iff_prefix.mp hstarts) (Ne.symm heq)
    · rfl

/-- A name that goes on behind the blank of the line is no match. -/
theorem matchValue_behind_blank (k : ℕ) (hpos : 0 < k) (hk : k ≤ (txt " is not set\n").length) :
    matchValue ((txt " is not set\n").drop k) = none := by
  have hall : ∀ k ≤ 12, 0 < k → matchValue ((txt " is not set\n").drop k) = none := by decide
  exact hall k hk hpos

theorem matchLine_notSet (conf : Text) (hname : IsOptionName name) :
    matchLine conf (txt "# " ++ (name ++ txt " is not set") ++ ['\n']) =
      (KconfigRow.notSet name).answer (confName conf) := by
  have hfound : strstr (txt "CONFIG_") (txt "# " ++ (name ++ txt " is not set") ++ ['\n']) =
      some (name ++ txt " is not set\n") := by
    have htext : txt "# " ++ (name ++ txt " is not set") ++ ['\n'] =
        '#' :: ' ' :: (name ++ txt " is not set\n") := by simp [txt]
    rw [htext, strstr, if_neg (by simp [txt, List.isPrefixOf]), strstr,
      if_neg (by simp [txt, List.isPrefixOf])]
    exact strstr_of_prefix (hname.starts.trans (List.prefix_append name _))
  simp only [matchLine, hfound, KconfigRow.answer]
  by_cases heq : name = confName conf
  · have hstarts : (confName conf).isPrefixOf (name ++ txt " is not set\n") = true := by
      rw [← heq]
      exact List.isPrefixOf_iff_prefix.mpr (List.prefix_append name _)
    rw [if_pos heq, if_pos hstarts, ← heq, List.drop_left]
    decide
  · rw [if_neg heq]
    split_ifs with hstarts
    · have hbegins := List.isPrefixOf_iff_prefix.mp hstarts
      obtain hshort | ⟨more, hmore⟩ :=
        List.prefix_or_prefix_of_prefix hbegins (List.prefix_append name _)
      · exact matchValue_of_shorter hname hshort (Ne.symm heq)
      · have hne : more ≠ [] := by
          rintro rfl
          exact heq (by rw [← hmore, List.append_nil])
        rw [← hmore, List.length_append, List.drop_length_add_append]
        rw [← hmore] at hbegins
        have hlength := ((List.prefix_append_right_inj name).mp hbegins).length_le
        exact matchValue_behind_blank _ (List.length_pos_iff.mpr hne) hlength
    · rfl

/-- A text that has no `=` and does not say that something is not set is no match. -/
theorem matchValue_of_plain {val : Text} (hequals : '=' ∉ val)
    (hset : ¬ txt "is not set" <:+: val) : matchValue val = none := by
  cases val with
  | nil => rfl
  | cons c val =>
      by_cases hblank : c = ' '
      · have hno : isSet (c :: val) (txt "is not set") = false := by
          refine Bool.eq_false_iff.mpr fun hyes => hset ?_
          have hstarts := List.isPrefixOf_iff_prefix.mp (Bool.and_eq_true_iff.mp hyes).1
          exact hstarts.isInfix.trans (List.dropWhile_suffix isspace).isInfix
        subst hblank
        simp only [matchValue, hno, Bool.false_eq_true, if_false]
      · exact matchValue_cons (fun h => hequals (by simp [h])) hblank val

theorem matchLine_other (conf : Text) {text : Text} (h : (KconfigRow.other text).WellFormed) :
    matchLine conf (text ++ ['\n']) = none := by
  unfold matchLine
  split
  next => rfl
  next cfg hfound =>
    obtain ⟨hstarts, hsuffix⟩ := strstr_eq_some hfound
    obtain rfl | ⟨cfg, rfl, hcfg⟩ := List.suffix_concat_iff.mp hsuffix
    · exact absurd hstarts (by decide)
    · have hbegins : txt "CONFIG_" <+: cfg := by
        obtain hwhole | hbegins := List.prefix_concat_iff.mp hstarts
        · exact absurd (hwhole ▸ List.mem_concat_self) (by decide : '\n' ∉ txt "CONFIG_")
        · exact hbegins
      obtain ⟨hequals, hset⟩ := h cfg hbegins hcfg
      have hset' : ¬ txt "is not set" <:+: cfg ++ ['\n'] := by
        intro hoccurs
        obtain hend | hinside := List.infix_concat_iff.mp hoccurs
        · obtain ⟨front, hfront⟩ := hend
          have hlast := congrArg List.getLast? hfront
          rw [List.getLast?_concat, List.getLast?_append] at hlast
          exact absurd (Option.some.inj hlast) (by decide)
        · exact hset hinside
      split_ifs
      · have hval := List.drop_suffix (confName conf).length (cfg ++ ['\n'])
        refine matchValue_of_plain (fun hmem => ?_) fun hoccurs =>
          hset' (hoccurs.trans hval.isInfix)
        have hmem' := hval.subset hmem
        simp [hequals] at hmem'
      · rfl

/-- `match` on a line. -/
theorem matchLine_line (conf : Text) (hline : IsConfigLine row.line) (hrow : row.WellFormed) :
    matchLine conf (row.line ++ ['\n']) = row.answer (confName conf) := by
  cases row with
  | assign name value => exact matchLine_assign conf hrow.1 hline hrow.2
  | notSet name => exact matchLine_notSet conf hrow
  | other text => exact matchLine_other conf hrow

theorem findSome?_lines (conf : Text) (hlines : ∀ row ∈ rows, IsConfigLine row.line)
    (hrows : ∀ row ∈ rows, row.WellFormed) :
    ((rows.map KconfigRow.line).map (· ++ ['\n'])).findSome? (matchLine conf) =
      rows.findSome? (KconfigRow.answer (confName conf)) := by
  induction rows with
  | nil => rfl
  | cons row rows ih =>
      obtain ⟨hline, hlines⟩ := List.forall_mem_cons.mp hlines
      obtain ⟨hrow, hrows⟩ := List.forall_mem_cons.mp hrows
      simp only [List.map_cons, List.findSome?_cons, matchLine_line conf hline hrow,
        ih hlines hrows]

/-- A requirement that is no option ends the reading. -/
theorem tstKconfigRead_invalid {kconfigs : List Text} (hconf : conf ∈ kconfigs)
    (hstarts : ¬ txt "CONFIG_" <+: conf) (file : Option Text) :
    ∃ message, tstKconfigRead kconfigs file = .error message := by
  have hfind : (kconfigs.find? fun conf => !(txt "CONFIG_").isPrefixOf conf).isSome = true := by
    refine List.find?_isSome.mpr ⟨conf, hconf, ?_⟩
    simpa [Bool.eq_false_iff, List.isPrefixOf_iff_prefix] using hstarts
  obtain ⟨found, hfound⟩ := Option.isSome_iff_exists.mp hfind
  refine ⟨⟨.brok, txt "Invalid config string '" ++ found ++ txt "'", false⟩, ?_⟩
  simp only [tstKconfigRead, hfound]

/-- What `tst_kconfig_read` finds in a well-formed config. -/
theorem tstKconfigRead_config (kconfigs : List Text) (h : IsConfig rows)
    (hvalid : ∀ conf ∈ kconfigs, txt "CONFIG_" <+: conf) :
    tstKconfigRead kconfigs (some (unlines (rows.map KconfigRow.line))) =
      .ok (kconfigs.map fun conf =>
        (rows.findSome? (KconfigRow.answer (confName conf))).getD {}) := by
  have hfind : (kconfigs.find? fun conf => !(txt "CONFIG_").isPrefixOf conf) = none := by
    refine List.find?_eq_none.mpr fun conf hconf => ?_
    simp [List.isPrefixOf_iff_prefix.mpr (hvalid conf hconf)]
  have hlines : ∀ l ∈ rows.map KconfigRow.line, IsConfigLine l := by
    intro l hl
    obtain ⟨row, hrow, rfl⟩ := List.mem_map.mp hl
    exact h.lines row hrow
  have hanswers : ∀ conf : Text, ((rows.map KconfigRow.line).map (· ++ ['\n'])).findSome?
      (matchLine conf) = rows.findSome? (KconfigRow.answer (confName conf)) := by
    exact fun conf => findSome?_lines conf h.lines h.wellFormed
  rw [tstKconfigRead, hfind]
  simp only [readLines_unlines hlines le_rfl, List.map_map (l := kconfigs), Slot.after,
    Function.comp_def, hanswers, Option.none_or]

theorem KconfigRow.name_of_answer {r : KconfigRes} (h : row.answer name = some r) :
    row.name? = some name := by
  cases row with
  | assign name' value =>
      obtain ⟨rfl, -⟩ := Option.ite_none_right_eq_some.mp h
      rfl
  | notSet name' =>
      obtain ⟨rfl, -⟩ := Option.ite_none_right_eq_some.mp h
      rfl
  | other text => cases h

/-- An option has one line. -/
theorem IsConfig.row_unique (h : IsConfig rows) {row row' : KconfigRow} (hrow : row ∈ rows)
    (hrow' : row' ∈ rows) (hname : row.name? = some name) (hname' : row'.name? = some name) :
    row = row' := by
  by_contra hne
  have hpairwise := List.pairwise_filterMap.mp h.distinct
  have hsymm : Std.Symm fun row row' : KconfigRow =>
      ∀ name, row.name? = some name → ∀ name', row'.name? = some name' → name ≠ name' :=
    ⟨fun _ _ h name hname name' hname' => (h name' hname' name hname).symm⟩
  exact hpairwise.forall hrow hrow' hne name hname name hname' rfl

end Rows

/-! ### The check -/

section Check

variable {rows : List KconfigRow}

/-- A requirement holds in a config: its option is set, to its value if it names one. -/
def Satisfied (rows : List KconfigRow) (conf : Text) : Prop :=
  match confValue conf with
  | none => ∃ value, KconfigRow.assign (confName conf) value ∈ rows
  | some value => KconfigRow.assign (confName conf) value ∈ rows

/-- The comparison of values, through the letters of `struct tst_kconfig_res`. -/
theorem compareRes_classify (kconfig value val : Text) :
    compareRes (classify value) kconfig
      (if val = txt "m" then .m else if val = txt "y" then .y else .v) val = none ↔
        value = val := by
  unfold compareRes classify
  split_ifs <;> simp_all [eq_comm, txt]

/-- An option with a value passes if no value is asked for. -/
theorem checkRes_classify (conf value : Text) :
    checkRes conf (classify value) =
      (confValue conf).bind fun val => compareRes (classify value) conf
        (if val = txt "m" then .m else if val = txt "y" then .y else .v) val := by
  have hcases : (classify value).found = .y ∨ (classify value).found = .m ∨
      (classify value).found = .v := by
    unfold classify
    split_ifs <;> simp
  unfold checkRes
  obtain h | h | h := hcases
  all_goals
    rw [h]
    cases confValue conf <;> rfl

theorem checkRes_config (h : IsConfig rows) (conf : Text) :
    checkRes conf ((rows.findSome? (KconfigRow.answer (confName conf))).getD {}) = none ↔
      Satisfied rows conf := by
  cases hfind : rows.findSome? (KconfigRow.answer (confName conf)) with
  | none =>
      have hno : ∀ value, KconfigRow.assign (confName conf) value ∉ rows := by
        intro value hmem
        have hanswer := List.findSome?_eq_none_iff.mp hfind _ hmem
        simp [KconfigRow.answer] at hanswer
      unfold Satisfied
      cases confValue conf with
      | none | some => simp [checkRes, hno]
  | some res =>
      obtain ⟨row, hrow, hanswer⟩ := List.exists_of_findSome?_eq_some hfind
      have hname := KconfigRow.name_of_answer hanswer
      have hiff : ∀ value, KconfigRow.assign (confName conf) value ∈ rows ↔
          row = KconfigRow.assign (confName conf) value := by
        refine fun value => ⟨fun hmem => h.row_unique hrow hmem hname rfl, ?_⟩
        rintro rfl
        exact hrow
      unfold Satisfied
      simp only [hiff, Option.getD_some]
      cases row with
      | assign name value =>
          obtain ⟨rfl, hres⟩ := Option.ite_none_right_eq_some.mp hanswer
          cases hres
          rw [checkRes_classify]
          cases confValue conf with
          | none => simp
          | some val => simp [compareRes_classify]
      | notSet name =>
          obtain ⟨-, hres⟩ := Option.ite_none_right_eq_some.mp hanswer
          cases hres
          cases confValue conf with
          | none | some => simp [checkRes]
      | other text => cases hanswer

theorem Satisfied.starts (h : IsConfig rows) {conf : Text} (hconf : Satisfied rows conf) :
    txt "CONFIG_" <+: conf := by
  have hname : ∀ value, KconfigRow.assign (confName conf) value ∈ rows →
      txt "CONFIG_" <+: conf := fun value hmem =>
    ((h.wellFormed _ hmem).1.starts).trans (List.takeWhile_prefix _)
  unfold Satisfied at hconf
  split at hconf
  next =>
    obtain ⟨value, hmem⟩ := hconf
    exact hname value hmem
  next value _ => exact hname value hconf

/-- The check of a well-formed config ends the test if and only if a requirement does not
hold. -/
theorem tstKconfigCheck_ended_iff (rows : List KconfigRow) (h : IsConfig rows)
    (kconfigs : List Text) (hne : kconfigs ≠ []) :
    ∃ outcome, tstKconfigCheck kconfigs (some (unlines (rows.map KconfigRow.line))) = some outcome ∧
      (outcome.ended = true ↔ ∃ conf ∈ kconfigs, ¬ Satisfied rows conf) := by
  by_cases hvalid : ∀ conf ∈ kconfigs, txt "CONFIG_" <+: conf
  · have hmessages : (List.zipWith checkRes kconfigs (kconfigs.map fun conf =>
        (rows.findSome? (KconfigRow.answer (confName conf))).getD {})).filterMap id = [] ↔
        ∀ conf ∈ kconfigs, Satisfied rows conf := by
      rw [List.zipWith_map_right, List.zipWith_self, List.filterMap_map, List.filterMap_eq_nil_iff]
      exact forall₂_congr fun conf _ => checkRes_config h conf
    rw [tstKconfigCheck, if_neg hne, tstKconfigRead_config kconfigs h hvalid]
    dsimp only
    split_ifs with hnone
    · have hall := hmessages.mp hnone
      exact ⟨_, rfl, by simpa using hall⟩
    · have hnot := mt hmessages.mpr hnone
      exact ⟨_, rfl, by simpa using hnot⟩
  · obtain ⟨conf, hconf, hstarts⟩ : ∃ conf ∈ kconfigs, ¬ txt "CONFIG_" <+: conf := by
      simpa using hvalid
    obtain ⟨message, hmessage⟩ := tstKconfigRead_invalid hconf hstarts
      (some (unlines (rows.map KconfigRow.line)))
    rw [tstKconfigCheck, if_neg hne, hmessage]
    refine ⟨_, rfl, iff_of_true rfl ?_⟩
    exact ⟨conf, hconf, fun hsatisfied => hstarts (hsatisfied.starts h)⟩

/-- A config in which one name begins another. -/
private def sampleConfig : List KconfigRow :=
  [.other (txt "# Kernel hacking"), .assign (txt "CONFIG_MMU") (txt "y"),
    .notSet (txt "CONFIG_MMU_NOTIFIER"), .assign (txt "CONFIG_HZ") (txt "250")]

private theorem sampleConfig_isConfig : IsConfig sampleConfig where
  lines := by
    simp only [sampleConfig, List.forall_mem_cons]
    refine ⟨⟨?_, ?_, ?_⟩, ⟨?_, ?_, ?_⟩, ⟨?_, ?_, ?_⟩, ⟨?_, ?_, ?_⟩, List.forall_mem_nil _⟩ <;>
      decide
  wellFormed := by
    have hcomment : (KconfigRow.other (txt "# Kernel hacking")).WellFormed := by
      have htails : ∀ cfg ∈ (txt "# Kernel hacking").tails, ¬ txt "CONFIG_" <+: cfg := by decide
      exact fun cfg hstarts hcfg => absurd hstarts (htails cfg ((List.mem_tails _ _).mpr hcfg))
    simp only [sampleConfig, List.forall_mem_cons]
    refine ⟨hcomment, ⟨⟨?_, ?_, ?_⟩, ?_⟩, ⟨?_, ?_, ?_⟩, ⟨⟨?_, ?_, ?_⟩, ?_⟩,
      List.forall_mem_nil _⟩ <;> decide
  distinct := by decide

theorem tstKconfigCheck_ended_sample :
    ∃ outcome, tstKconfigCheck [txt "CONFIG_MMU", txt "CONFIG_HZ=1000"]
      (some (unlines (sampleConfig.map KconfigRow.line))) = some outcome ∧
        outcome.ended = true := by
  have hno : KconfigRow.assign (txt "CONFIG_HZ") (txt "1000") ∉ sampleConfig := by decide
  obtain ⟨outcome, houtcome, hiff⟩ := tstKconfigCheck_ended_iff sampleConfig sampleConfig_isConfig
    [txt "CONFIG_MMU", txt "CONFIG_HZ=1000"] (by decide)
  exact ⟨outcome, houtcome, hiff.mpr ⟨txt "CONFIG_HZ=1000", by decide, hno⟩⟩

end Check

end EDDTs.LtpLib
