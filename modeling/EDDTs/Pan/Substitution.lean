import EDDTs.Pan.CollectionFile

/-!
# The identifiers of the starts

`get_collection` turns the first `%f` of a line into `%s`, and `run_child` later uses the
command as the format of an identifier: the process id of `ltp-pan` and a number that
counts the calls of `subst_pcnt_f`. This is compared with replacing every `%f` of the
command.
-/

namespace EDDTs.Pan

open Library

/-- Every `%f` of a command replaced. -/
def replacePcntF (ident : Text) : Text → Text
  | '%' :: 'f' :: t => ident ++ replacePcntF ident t
  | c :: t => c :: replacePcntF ident t
  | [] => []

/-- The commands that `run_child` executes for the entries that are started, from the value
of the static counter on. It is an `int`: a start that counts beyond the type leaves its command
and the later ones open. -/
def runStarts (pid : ℕ) : ℕ → List CollEntry → List (Option Text)
  | _, [] => []
  | counter, n :: ns =>
      if n.pcntF ∧ 2 ^ 31 ≤ counter + 1 then (n :: ns).map fun _ => none
      else substPcntF n pid counter :: runStarts pid (if n.pcntF then counter + 1 else counter) ns

/-- A line with a `%f`, in its tag or in its command. -/
def HasPcntF (pair : Text × Text) : Prop := txt "%f" <:+: pair.1 ∨ txt "%f" <:+: pair.2

instance (pair : Text × Text) : Decidable (HasPcntF pair) := inferInstanceAs (Decidable (_ ∨ _))

/-- The lines that are started, each with one more than the number of lines before it that
have a `%f`. -/
def numbered : ℕ → List (Text × Text) → List (ℕ × Text × Text)
  | _, [] => []
  | k, pair :: rest => (k, pair) :: numbered (if HasPcntF pair then k + 1 else k) rest

/-! ### Formats and replacement -/

section Replace

variable {ident : Text}

/-- An identifier begins with a digit. -/
def BeginsWithDigit (ident : Text) : Prop := ∃ c t, ident = c :: t ∧ c.isDigit = true

theorem beginsWithDigit_pidAndCounter (pid counter : ℕ) :
    BeginsWithDigit (pidAndCounter pid counter) := exists_pidAndCounter_eq pid counter

/-- An identifier is not a beginning of a text that begins with another character than a
digit, nor the other way round. -/
theorem BeginsWithDigit.not_begins (h : BeginsWithDigit ident) {c : Char} (hc : c.isDigit = false)
    (t u v : Text) : ¬ c :: t <+: ident ++ u ∧ ¬ ident ++ u <+: c :: v := by
  obtain ⟨d, ds, rfl, hd⟩ := h
  constructor
  · intro hbegins
    rw [(List.cons_prefix_cons.mp hbegins).1, hd] at hc
    cases hc
  · intro hbegins
    rw [← (List.cons_prefix_cons.mp hbegins).1, hd] at hc
    cases hc

theorem replacePcntF_cons {c : Char} (hc : c ≠ '%') (t : Text) :
    replacePcntF ident (c :: t) = c :: replacePcntF ident t := by
  rw [replacePcntF]
  exact fun t' hpercent _ => hc hpercent

variable {t : Text}

theorem replacePcntF_percent (ht : t.head? ≠ some 'f') :
    replacePcntF ident ('%' :: t) = '%' :: replacePcntF ident t := by
  rw [replacePcntF]
  rintro t' - rfl
  exact ht rfl

theorem replacePcntF_plain (h : ¬ txt "%f" <:+: t) : replacePcntF ident t = t := by
  induction t with
  | nil => rfl
  | cons c t ih =>
      have hrest := ih fun hinner => h (hinner.trans (List.suffix_cons c t).isInfix)
      by_cases hc : c = '%'
      · subst hc
        rw [replacePcntF_percent, hrest]
        intro hf
        obtain ⟨u, rfl⟩ := List.head?_eq_some_iff.mp hf
        exact h ⟨[], u, rfl⟩
      · rw [replacePcntF_cons hc, hrest]

/-- A command is read up to its first `%f`. -/
theorem replacePcntF_append {a : Text} (h : ¬ txt "%f" <:+: a) (b : Text) :
    replacePcntF ident (a ++ '%' :: 'f' :: b) = a ++ (ident ++ replacePcntF ident b) := by
  induction a with
  | nil => rfl
  | cons c a ih =>
      have hrest := ih fun hinner => h (hinner.trans (List.suffix_cons c a).isInfix)
      rw [List.cons_append, List.cons_append, ← hrest]
      by_cases hc : c = '%'
      · subst hc
        apply replacePcntF_percent
        cases a with
        | nil => simp
        | cons d a =>
            intro hf
            obtain rfl : d = 'f' := by simpa using hf
            exact h ⟨[], a, rfl⟩
      · exact replacePcntF_cons hc _

theorem replacePcntF_percents (n : ℕ) (ht : t.head? ≠ some 'f') :
    replacePcntF ident (List.replicate n '%' ++ t) =
      List.replicate n '%' ++ replacePcntF ident t := by
  induction n with
  | zero => rfl
  | succ n ih =>
      rw [List.replicate_succ, List.cons_append, replacePcntF_percent, ih, List.cons_append]
      cases n with
      | zero => exact ht
      | succ n => simp [List.replicate_succ]

/-- A format that prints the replaced text has no directives. -/
theorem formatText_replaced {out : Text} {args : List Text} (hident : BeginsWithDigit ident)
    (hargs : PlainArgs args) (h : formatText t args = some out)
    (hcopy : replacePcntF ident t <+: out) : '%' ∉ t := by
  induction t generalizing out with
  | nil => simp
  | cons c t ih =>
      by_cases hc : c = '%'
      · subst hc
        exfalso
        obtain ⟨n, u, heq, hu⟩ := exists_percents t
        rw [heq] at h hcopy
        obtain ⟨rest, rfl, hrest, hif⟩ := formatText_percents hargs hu _ h
        by_cases hf : u.head? = some 'f'
        · -- The last `%` and the `f` are replaced; what is printed there is the `f`.
          obtain ⟨v, rfl⟩ := List.head?_eq_some_iff.mp hf
          rw [List.replicate_succ', List.append_assoc,
            replacePcntF_percents n (by simp)] at hcopy
          split_ifs at hif with heven
          · rcases Nat.lt_or_ge ((n + 1) / 2) n with hless | hmore
            · exact not_prefix_percents hless _ hrest hcopy
            · obtain rfl : n = 1 := by omega
              rw [formatText_cons (by decide)] at hif
              obtain ⟨rest', -, rfl⟩ := Option.map_eq_some_iff.mp hif
              rw [List.prefix_append_right_inj] at hcopy
              exact (hident.not_begins (by decide) [] _ _).2 hcopy
          · cases hif
        · rw [replacePcntF_percents _ hf] at hcopy
          exact not_prefix_percents (by omega) _ hrest hcopy
      · rw [formatText_cons hc] at h
        obtain ⟨out', hout, rfl⟩ := Option.map_eq_some_iff.mp h
        rw [replacePcntF_cons hc] at hcopy
        have ht := ih hout (List.cons_prefix_cons.mp hcopy).2
        simpa [ht] using fun hpercent => hc hpercent.symm

theorem formatText_append {a : Text} (h : '%' ∉ a) (t : Text) (args : List Text) :
    formatText (a ++ t) args = (formatText t args).map (a ++ ·) := by
  induction a with
  | nil => simp
  | cons c a ih =>
      obtain ⟨hc, ha⟩ := not_or.mp fun hor => h (List.mem_cons.mpr hor)
      rw [List.cons_append, formatText_cons (Ne.symm hc), ih ha, Option.map_map]
      rfl

/-- A format with the mark that prints the text before the mark and the identifier has no
directive before the mark. -/
theorem formatText_marked {arg b r : Text} (hident : BeginsWithDigit ident)
    (harg : BeginsWithDigit arg) {a out : Text}
    (h : formatText (a ++ '%' :: 's' :: b) [arg] = some out) (hcopy : a ++ (ident ++ r) <+: out) :
    '%' ∉ a := by
  have hargs : PlainArgs [arg] := plainArgs_of_digit harg
  induction a generalizing out with
  | nil => simp
  | cons c a ih =>
      by_cases hc : c = '%'
      · subst hc
        exfalso
        obtain ⟨n, u, heq, hu⟩ := exists_percents a
        rw [heq, List.append_assoc] at h hcopy
        cases u with
        | nil =>
            -- One more `%` stands before the `s`.
            rw [List.nil_append, ← List.singleton_append, ← List.append_assoc,
              ← List.replicate_succ'] at h
            obtain ⟨rest, rfl, hrest, hif⟩ := formatText_percents hargs (by simp) _ h
            cases n with
            | zero =>
                rw [if_pos (by decide), formatText_cons (by decide)] at hif
                obtain ⟨rest', -, rfl⟩ := Option.map_eq_some_iff.mp hif
                rw [List.prefix_append_right_inj] at hcopy
                exact (hident.not_begins (by decide) [] _ _).2 hcopy
            | succ n => exact not_prefix_percents (by omega) _ hrest hcopy
        | cons d u =>
            obtain ⟨rest, rfl, hrest, -⟩ := formatText_percents hargs (by simpa using hu) _ h
            exact not_prefix_percents (by omega) _ hrest hcopy
      · rw [List.cons_append, formatText_cons hc] at h
        obtain ⟨out', hout, rfl⟩ := Option.map_eq_some_iff.mp h
        have ha := ih hout (List.cons_prefix_cons.mp hcopy).2
        simpa [ha] using fun hpercent => hc hpercent.symm

/-- The text around the first `%f`. -/
theorem exists_markPcntF (h : txt "%f" <:+: t) :
    ∃ a b, t = a ++ '%' :: 'f' :: b ∧ ¬ txt "%f" <:+: a ∧
      markPcntF t = (a ++ '%' :: 's' :: b, true) := by
  rw [← markPcntF_snd_iff] at h
  induction t using markPcntF.induct with
  | case1 => cases h
  | case2 c => cases h
  | case3 c d t hf =>
      obtain ⟨rfl, rfl⟩ := hf
      exact ⟨[], t, rfl, by simp [txt], rfl⟩
  | case4 c d t hf ih =>
      rw [markPcntF, if_neg hf] at h ⊢
      obtain ⟨a, b, hsplit, ha, hmark⟩ := ih h
      refine ⟨c :: a, b, by rw [hsplit]; rfl, ?_, by rw [hmark]; rfl⟩
      intro hoccurs
      rcases List.infix_cons_iff.mp hoccurs with hstart | hinner
      · -- the two characters would stand at the start of the whole text
        have htwo : ['%', 'f'] <+: c :: a := hstart
        obtain ⟨hpercent, hrest⟩ := List.cons_prefix_cons.mp htwo
        cases a with
        | nil => cases List.prefix_nil.mp hrest
        | cons e a =>
            have he := (List.cons_prefix_cons.mp hrest).1
            exact hf ⟨hpercent.symm, (List.cons.inj hsplit).1.trans he.symm⟩
      · exact ha hinner

end Replace

/-! ### One start -/

/-- A line whose command is printed right: nothing is formatted, or the format has no other
directive than the mark. -/
structure Clean (pair : Text × Text) : Prop where
  tag : txt "%f" <:+: pair.1 → '%' ∉ pair.2
  cmdline : txt "%f" <:+: pair.2 → pair.2.count '%' = 1

section Start

variable {pair : Text × Text} {pid counter : ℕ}

theorem length_pidAndCounter_le (pid counter : ℕ) : (pidAndCounter pid counter).length ≤ 19 :=
  List.length_take_le 19 _

/-- A `%f` in the tag: the command is formatted as it stands. -/
theorem substPcntF_tag_iff (hlength : pair.2.length < 1000) (htag : txt "%f" <:+: pair.1) :
    substPcntF (pairEntry pair) pid counter =
      some (replacePcntF (pidAndCounter pid counter) pair.2) ↔ '%' ∉ pair.2 := by
  have hentry : pairEntry pair = ⟨(markPcntF pair.1).1, pair.2, true⟩ :=
    if_pos ((markPcntF_snd_iff pair.1).mpr htag)
  have hident := beginsWithDigit_pidAndCounter pid counter
  rw [hentry, substPcntF, if_pos rfl]
  constructor
  · intro h
    obtain ⟨out, hout, htake⟩ := Option.map_eq_some_iff.mp h
    refine formatText_replaced hident (plainArgs_of_digit hident) hout ?_
    rw [← htake]
    exact List.take_prefix 1023 out
  · intro hplain
    have hno : ¬ txt "%f" <:+: pair.2 := fun hoccurs => hplain (hoccurs.subset (by decide))
    rw [formatText_plain hplain, Option.map_some, List.take_of_length_le (by omega),
      replacePcntF_plain hno]

/-- A `%f` in the command only: the first one is the mark. -/
theorem substPcntF_cmdline_iff (hlength : pair.2.length < 1000) (htag : ¬ txt "%f" <:+: pair.1)
    (hcmd : txt "%f" <:+: pair.2) :
    substPcntF (pairEntry pair) pid counter =
      some (replacePcntF (pidAndCounter pid counter) pair.2) ↔ pair.2.count '%' = 1 := by
  obtain ⟨a, b, hsplit, ha, hmark⟩ := exists_markPcntF hcmd
  have hentry : pairEntry pair = ⟨pair.1, a ++ '%' :: 's' :: b, true⟩ := by
    have hunmarked : ¬ (markPcntF pair.1).2 = true := fun h => htag ((markPcntF_snd_iff _).mp h)
    rw [pairEntry, CollEntry.reread, if_neg hunmarked, hmark]
  have hident := beginsWithDigit_pidAndCounter pid counter
  have hcount : pair.2.count '%' = 1 ↔ '%' ∉ a ∧ '%' ∉ b := by
    rw [hsplit, List.count_append, List.count_cons_self, List.count_cons_of_ne (by decide),
      ← List.count_eq_zero, ← List.count_eq_zero]
    omega
  rw [hentry, substPcntF, if_pos rfl, hcount, hsplit, replacePcntF_append ha]
  constructor
  · intro h
    obtain ⟨out, hout, htake⟩ := Option.map_eq_some_iff.mp h
    have hcopy : a ++ (pidAndCounter pid counter ++ replacePcntF (pidAndCounter pid counter) b) <+:
        out := by
      rw [← htake]
      exact List.take_prefix 1023 out
    have hbefore := formatText_marked hident hident hout hcopy
    refine ⟨hbefore, ?_⟩
    rw [formatText_append hbefore] at hout
    obtain ⟨out₁, hout₁, rfl⟩ := Option.map_eq_some_iff.mp hout
    obtain ⟨out₂, hout₂, rfl⟩ := Option.map_eq_some_iff.mp hout₁
    refine formatText_replaced hident (by simp [PlainArgs]) hout₂ ?_
    exact (List.prefix_append_right_inj _).mp ((List.prefix_append_right_inj _).mp hcopy)
  · rintro ⟨hbefore, hbehind⟩
    have hno : ¬ txt "%f" <:+: b := fun hoccurs => hbehind (hoccurs.subset (by decide))
    have hformat : formatText ('%' :: 's' :: b) [pidAndCounter pid counter] =
        some (pidAndCounter pid counter ++ b) := by
      rw [formatText, formatText_plain hbehind]
      rfl
    have hshort : (a ++ (pidAndCounter pid counter ++ b)).length ≤ 1023 := by
      have hle := length_pidAndCounter_le pid counter
      rw [hsplit] at hlength
      simp only [List.length_append, List.length_cons] at hlength ⊢
      omega
    rw [formatText_append hbefore, hformat, Option.map_some, Option.map_some,
      List.take_of_length_le hshort, replacePcntF_plain hno]

theorem substPcntF_iff (hlength : pair.2.length < 1000) :
    substPcntF (pairEntry pair) pid counter =
      some (replacePcntF (pidAndCounter pid counter) pair.2) ↔ Clean pair := by
  by_cases htag : txt "%f" <:+: pair.1
  · rw [substPcntF_tag_iff hlength htag]
    constructor
    · intro hplain
      exact ⟨fun _ => hplain, fun hoccurs => absurd (hoccurs.subset (by decide)) hplain⟩
    · exact fun h => h.tag htag
  · by_cases hcmd : txt "%f" <:+: pair.2
    · rw [substPcntF_cmdline_iff hlength htag hcmd]
      constructor
      · exact fun hcount => ⟨fun h => absurd h htag, fun _ => hcount⟩
      · exact fun h => h.cmdline hcmd
    · rw [pairEntry_unmarked ⟨htag, hcmd⟩, substPcntF, if_neg (by simp), replacePcntF_plain hcmd]
      exact iff_of_true rfl ⟨fun h => absurd h htag, fun h => absurd h hcmd⟩

end Start

/-! ### All starts -/

section Starts

variable {pid : ℕ}

theorem pairEntry_pcntF_iff (pair : Text × Text) :
    (pairEntry pair).pcntF = true ↔ HasPcntF pair := by
  unfold pairEntry CollEntry.reread HasPcntF
  rw [← markPcntF_snd_iff, ← markPcntF_snd_iff]
  split_ifs with htag
  · exact iff_of_true rfl (Or.inl htag)
  · simp [htag]

/-- The commands of a run are the right ones exactly when each line is clean and the counter
stays an `int`. -/
theorem runStarts_eq_iff (starts : List (Text × Text)) {counter : ℕ} (hcounter : counter < 2 ^ 31)
    (hlength : ∀ pair ∈ starts, pair.2.length < 1000) :
    runStarts pid counter (starts.map pairEntry) =
      (numbered counter starts).map (fun start =>
        some (replacePcntF (pidAndCounter pid start.1) start.2.2)) ↔
      (∀ pair ∈ starts, Clean pair) ∧ counter + starts.countP (HasPcntF ·) < 2 ^ 31 := by
  induction starts generalizing counter with
  | nil => exact iff_of_true rfl ⟨List.forall_mem_nil _, hcounter⟩
  | cons pair starts ih =>
      obtain ⟨hpair, hrest⟩ := List.forall_mem_cons.mp hlength
      rw [List.map_cons, runStarts, numbered, List.map_cons (l := numbered _ _),
        List.forall_mem_cons]
      simp only [pairEntry_pcntF_iff]
      by_cases hmarked : HasPcntF pair
      · rw [List.countP_cons_of_pos (by simpa using hmarked)]
        by_cases hover : 2 ^ 31 ≤ counter + 1
        · -- The start that leaves the type: nothing is said about its command.
          rw [if_pos ⟨hmarked, hover⟩]
          exact iff_of_false (fun h => by cases (List.cons.inj h).1) (fun h => by omega)
        · rw [if_neg (fun h => hover h.2), if_pos hmarked, List.cons_eq_cons, substPcntF_iff hpair,
            ih (Nat.lt_of_not_le hover) hrest, and_assoc, Nat.add_right_comm, Nat.add_assoc]
      · rw [if_neg (fun h => hmarked h.1), if_neg hmarked, List.cons_eq_cons, substPcntF_iff hpair,
          ih hcounter hrest, and_assoc, List.countP_cons_of_neg (by simpa using hmarked)]

/-- What is left of a number behind the process id and the underscore. -/
def cutNumber (pid k : ℕ) : Text := (natText k).take (18 - (natText pid).length)

/-- Two identifiers are the same if what is left of their numbers is. -/
theorem pidAndCounter_eq_iff (k k' : ℕ) :
    pidAndCounter pid k = pidAndCounter pid k' ↔ cutNumber pid k = cutNumber pid k' := by
  have hcut : ∀ k, pidAndCounter pid k = (natText pid ++ txt "_").take 19 ++ cutNumber pid k := by
    intro k
    have hlength : (natText pid ++ txt "_").length = (natText pid).length + 1 := by
      simp [txt]
    have hroom : 19 - ((natText pid).length + 1) = 18 - (natText pid).length := by omega
    rw [pidAndCounter, List.take_append, hlength, hroom]
    rfl
  rw [hcut, hcut, List.append_cancel_left_eq]

end Starts

/-- The starts whose commands have a `%f`. -/
def identified (starts : List (Text × Text)) : List (ℕ × Text × Text) :=
  (numbered 1 starts).filter fun start => decide (txt "%f" <:+: start.2.2)

/-- What the substitution is meant to do in a process that starts these lines: each command is
executed with every `%f` replaced by an identifier, and no two starts get the same one. -/
structure Substitutes (pid : ℕ) (starts : List (Text × Text)) : Prop where
  executed : runStarts pid 1 (starts.map pairEntry) =
    (numbered 1 starts).map fun start =>
      some (replacePcntF (pidAndCounter pid start.1) start.2.2)
  distinct : (identified starts).Pairwise fun s s' =>
    pidAndCounter pid s.1 ≠ pidAndCounter pid s'.1

/-- The substitution does so exactly when each line is clean, the counter stays an `int` and the
numbers of the starts differ in the digits that fit behind the process id. -/
theorem substitutes_iff (pid : ℕ) (starts : List (Text × Text))
    (hlength : ∀ pair ∈ starts, pair.2.length < 1000) :
    Substitutes pid starts ↔
      ((∀ pair ∈ starts, Clean pair) ∧ 1 + starts.countP (HasPcntF ·) < 2 ^ 31) ∧
        (identified starts).Pairwise fun s s' => cutNumber pid s.1 ≠ cutNumber pid s'.1 := by
  have hdistinct : ((identified starts).Pairwise fun s s' =>
      pidAndCounter pid s.1 ≠ pidAndCounter pid s'.1) ↔
      (identified starts).Pairwise fun s s' => cutNumber pid s.1 ≠ cutNumber pid s'.1 := by
    simp only [ne_eq, pidAndCounter_eq_iff]
  rw [← runStarts_eq_iff starts (by decide) hlength, ← hdistinct]
  exact ⟨fun h => ⟨h.executed, h.distinct⟩, fun h => ⟨h.1, h.2⟩⟩

/-- Two commands with one `%f` each. -/
theorem substitutes_twoStarts :
    Substitutes 5 [(txt "a", txt "touch x%f"), (txt "b", txt "rm x%f.log")] := by
  apply (substitutes_iff 5 [(txt "a", txt "touch x%f"), (txt "b", txt "rm x%f.log")] ?_).mpr
  · refine ⟨⟨?_, by decide⟩, by decide⟩
    intro pair hpair
    simp only [List.mem_cons, List.not_mem_nil, or_false] at hpair
    rcases hpair with rfl | rfl
    · exact ⟨by decide, by decide⟩
    · exact ⟨by decide, by decide⟩
  · intro pair hpair
    simp only [List.mem_cons, List.not_mem_nil, or_false] at hpair
    rcases hpair with rfl | rfl
    · decide
    · decide

/-- A `%%` loses a character, and a second `%f` is a directive without an argument. -/
theorem runStarts_percents :
    runStarts 5 1 [pairEntry (txt "a", txt "echo 100%% > x%f")] = [some (txt "echo 100% > x5_1")] ∧
      runStarts 5 1 [pairEntry (txt "b", txt "cp x%f y%f")] = [none] ∧
      ¬ Substitutes 5 [(txt "a", txt "echo 100%% > x%f")] := by
  have hrun : runStarts 5 1 [pairEntry (txt "a", txt "echo 100%% > x%f")] =
      [some (txt "echo 100% > x5_1")] := by decide
  refine ⟨hrun, by decide, ?_⟩
  intro h
  have hexecuted := hrun.symm.trans h.executed
  exact absurd hexecuted (by decide)

end EDDTs.Pan
