import EDDTs.Pan.ZooTable

/-!
# Finding a process by its tag

`zoo_getpid` looks for the first line that is not free and in which the text behind the
first comma begins with the tag; `ltp-bump` sends a signal to the process of that line.
-/

namespace EDDTs.Pan

open Library

/-- `strchr(buf, ',')` and the comparison of what follows with the tag. -/
def hasTag (tag buf : Text) : Bool :=
  match buf.dropWhile (· ≠ ',') with
  | [] => false
  | _ :: s => tag.isPrefixOf s

/-- The loop of `zoo_getpid`. -/
def getpidFrom (tag : Text) : Nat → Text → Int
  | _, [] => -1
  | 0, _ => -1
  | fuel + 1, c :: rest =>
      let buf := cString (fgets 80 (c :: rest)).1
      if c ≠ '#' ∧ hasTag tag buf then atoi buf
      else getpidFrom tag fuel (fgets 80 (c :: rest)).2

/-- `zoo_getpid` -/
def zooGetpid (file tag : Text) : Int := getpidFrom tag file.length file

/-! ### The program `ltp-bump` -/

/-- What `kill` answers. -/
inductive KillAnswer where
  | sent
  /-- the error `ESRCH` -/
  | noProcess
  | failed
  deriving DecidableEq, Repr

/-- The active file, the calls of `kill` and what was printed. -/
structure Bump where
  file : Text
  kills : List (Int × Int)
  messages : List Text

/-- The body of the loop in `main` of `ltp-bump`. -/
def bumpName (sig : Int) (s : Bump) (call : Text × KillAnswer) : Bump :=
  let nanny := zooGetpid s.file call.1
  if nanny = -1 then
    { s with messages := s.messages ++ [txt "ltp-bump: Did not find tag '" ++ call.1 ++ txt "'\n"] }
  else
    let dead := txt "ltp-bump: Tag " ++ call.1 ++ txt " (pid " ++ intText nanny ++
      txt ") seems to be dead already.\n"
    let notFound := txt "ltp-bump: zoo_clear() did not find pid(" ++ intText nanny ++ txt ")\n"
    match call.2 with
    | .noProcess =>
        { file := (zooClear s.file nanny.toNat).2
          kills := s.kills ++ [(nanny, sig)]
          messages := s.messages ++ dead ::
            if (zooClear s.file nanny.toNat).1 = 0 then [] else [notFound] }
    | _ => { s with kills := s.kills ++ [(nanny, sig)] }

/-- The loop of `ltp-bump` over the names, with the answers of `kill`. -/
def ltpBump (sig : Int) (file : Text) (calls : List (Text × KillAnswer)) : Bump :=
  calls.foldl (bumpName sig) ⟨file, [], []⟩

/-! ### The lookup on the lines -/

section Lines

/-- A turn of the loop of `zoo_getpid` at a line. -/
theorem getpidFrom_line (tag : Text) (fuel : Nat) {l : Text} (h : IsZooLine l) (t : Text) :
    getpidFrom tag (fuel + 1) (l ++ '\n' :: t) =
      if !isFreeLine l && hasTag tag (l ++ ['\n']) then atoi l else getpidFrom tag fuel t := by
  have hgets := h.fgets_eq t
  have hline := h.cString_eq
  have hpid := atoi_append_newline l
  obtain ⟨c, rest, rfl⟩ := h.eq_cons
  rw [List.cons_append] at hgets ⊢
  rw [getpidFrom, hgets, hline, hpid]
  simp [isFreeLine]

theorem getpidFrom_unlines (tag : Text) {ls : List Text} (h : ∀ l ∈ ls, IsZooLine l) {fuel : Nat}
    (hfuel : (unlines ls).length ≤ fuel) :
    getpidFrom tag fuel (unlines ls) =
      (ls.find? fun l => !isFreeLine l && hasTag tag (l ++ ['\n'])).elim (-1) atoi := by
  refine unlines_induction (motive := fun ls fuel => getpidFrom tag fuel (unlines ls) =
    (ls.find? fun l => !isFreeLine l && hasTag tag (l ++ ['\n'])).elim (-1) atoi) ?_ ?_ h hfuel
  · intro fuel
    cases fuel <;> rfl
  · intro l ls fuel hl ih
    rw [unlines_cons_eq, getpidFrom_line tag fuel hl, List.find?_cons]
    cases hmatch : !isFreeLine l && hasTag tag (l ++ ['\n']) with
    | true => rw [if_pos rfl, Option.elim_some]
    | false =>
        rw [if_neg nofun]
        exact ih

end Lines

/-! ### The lookup on the table -/

/-- The pid, a comma and the tag fit into the 79 characters of a line. -/
def ZooEntry.TagFits (e : ZooEntry) : Prop := (natText e.pid).length + 1 + e.tag.length ≤ 79

instance (e : ZooEntry) : Decidable e.TagFits := inferInstanceAs (Decidable (_ ≤ _))

/-- A call with a tag that fits into its line. -/
def ZooOp.TagFits : ZooOp → Prop
  | .mark p tag cmdline => ZooEntry.TagFits ⟨p, tag, cmdline⟩
  | .clear _ => True

section Table

/-- In the buffer a tag that fits is followed by a comma, or by the newline if the line is
full. -/
theorem ZooEntry.TagFits.line_eq {e : ZooEntry} (h : e.TagFits) :
    ∃ c rest, (c = ',' ∨ c = '\n') ∧
      e.line ++ ['\n'] = natText e.pid ++ ',' :: (e.tag ++ c :: rest) := by
  have hentry : entryText e.pid e.tag e.cmdline =
      (natText e.pid ++ ',' :: e.tag) ++ ',' :: e.cmdline := by
    simp [entryText]
  have hlength :
      (natText e.pid ++ ',' :: e.tag).length = (natText e.pid).length + 1 + e.tag.length := by
    simp only [List.length_append, List.length_cons]
    omega
  unfold TagFits at h
  rw [ZooEntry.line, hentry, List.take_append, List.take_of_length_le (by omega)]
  obtain hfull | ⟨room, hroom⟩ : 79 - (natText e.pid ++ ',' :: e.tag).length = 0 ∨
      ∃ room, 79 - (natText e.pid ++ ',' :: e.tag).length = room + 1 := by
    cases 79 - (natText e.pid ++ ',' :: e.tag).length with
    | zero => exact Or.inl rfl
    | succ room => exact Or.inr ⟨room, rfl⟩
  · refine ⟨'\n', [], Or.inr rfl, ?_⟩
    rw [hfull, List.take_zero, List.append_nil, padRight, hfull]
    simp
  · rw [hroom, List.take_succ_cons, padRight]
    simp only [List.append_assoc, List.cons_append]
    exact ⟨',', _, Or.inl rfl, rfl⟩

/-- The line of an entry is found by every beginning of its tag. -/
theorem ZooEntry.hasTag_line {e : ZooEntry} (hfits : e.TagFits) {tag : Text} (hcomma : ',' ∉ tag)
    (hplain : IsPlain tag) : hasTag tag (e.line ++ ['\n']) = decide (tag <+: e.tag) := by
  obtain ⟨c, rest, hc, hline⟩ := hfits.line_eq
  have hdigits : ∀ d ∈ natText e.pid, decide (d ≠ ',') = true := by
    intro d hd
    apply decide_eq_true
    rintro rfl
    exact not_mem_natText (by decide) e.pid hd
  have hdrop : (e.line ++ ['\n']).dropWhile (· ≠ ',') = ',' :: (e.tag ++ c :: rest) := by
    rw [hline, List.dropWhile_append_of_pos hdigits, List.dropWhile_cons_of_neg (by simp)]
  have hnot : c ∉ tag := by
    rcases hc with rfl | rfl
    · exact hcomma
    · exact hplain.not_mem.1
  unfold hasTag
  rw [hdrop]
  simp only
  rw [isPrefixOf_append_cons hnot, Bool.eq_iff_iff, decide_eq_true_iff, List.isPrefixOf_iff_prefix]

/-- The lookup finds the first entry whose tag begins with the text. -/
theorem find?_of_shows {table : ZooTable} {ls : List Text} (h : List.Forall₂ ShowsSlot table ls)
    (hfits : ∀ e ∈ items id table, e.TagFits) {tag : Text} (hcomma : ',' ∉ tag)
    (hplain : IsPlain tag) :
    (ls.find? fun l => !isFreeLine l && hasTag tag (l ++ ['\n'])).elim (-1) atoi =
      ((items id table).find? fun e => decide (tag <+: e.tag)).elim (-1)
        fun e => (e.pid : Int) := by
  induction h with
  | nil => rfl
  | @cons slot l table ls hslot _ ih =>
      rw [items_cons] at hfits ⊢
      rw [List.find?_cons, ← hslot.isFreeLine_eq]
      cases slot with
      | none => exact ih fun e he => hfits e (List.mem_append_right _ he)
      | some e =>
          obtain ⟨he, rfl⟩ := hslot
          have hrest := ih fun e' he' => hfits e' (List.mem_append_right _ he')
          have htag : e.TagFits := hfits e (by simp)
          rw [e.hasTag_line htag hcomma hplain]
          by_cases hbegins : tag <+: e.tag
          · simp [hbegins, he.atoi_line]
          · simpa [hbegins] using hrest

theorem outstanding_clear_subset (ops : List ZooOp) (p : Nat) :
    outstanding (ops ++ [.clear p]) ⊆ outstanding ops := by
  intro e he
  by_cases hsome : ∃ e ∈ outstanding ops, e.pid = p
  · obtain ⟨e', -, hperm⟩ := outstanding_clear hsome
    exact hperm.subset (List.mem_cons_of_mem e' he)
  · have hnone : changeFirst (hasPid p) (fun _ => none) (zooTable ops) = none :=
      not_not.mp fun hne => hsome ((exists_outstanding_iff ops p).mpr hne)
    rw [outstanding, zooTable_concat, ZooTable.apply, hnone] at he
    exact he

/-- An entry that is outstanding was marked. -/
theorem mark_mem_of_outstanding {ops : List ZooOp} {e : ZooEntry} (h : e ∈ outstanding ops) :
    ZooOp.mark e.pid e.tag e.cmdline ∈ ops := by
  induction ops using List.reverseRecOn with
  | nil => cases h
  | append_singleton ops op ih =>
      rw [List.mem_append]
      cases op with
      | mark p tag cmdline =>
          rcases List.mem_cons.mp ((outstanding_mark ops p tag cmdline).subset h) with rfl | hold
          · exact Or.inr List.mem_cons_self
          · exact Or.inl (ih hold)
      | clear p => exact Or.inl (ih (outstanding_clear_subset ops p h))

end Table

/-- Calls whose texts have no newlines and whose tags fit into their lines. -/
structure Registered (ops : List ZooOp) : Prop where
  plain : ∀ op ∈ ops, op.Plain
  fits : ∀ op ∈ ops, op.TagFits

/-- The first entry whose tag begins with a text. -/
def firstBegins (ops : List ZooOp) (tag : Text) : Option ZooEntry :=
  (outstanding ops).find? fun e => decide (tag <+: e.tag)

/-- `zoo_getpid` on a file that the calls have made. -/
theorem zooGetpid_zooRun {ops : List ZooOp} (hops : Registered ops) {tag : Text}
    (hcomma : ',' ∉ tag) (hplain : IsPlain tag) :
    zooGetpid (zooRun ops) tag = (firstBegins ops tag).elim (-1) fun e => (e.pid : Int) := by
  obtain ⟨ls, hrun, hshows⟩ := zooRun_shows hops.plain
  have hfits : ∀ e ∈ items id (zooTable ops), e.TagFits :=
    fun e he => hops.fits _ (mark_mem_of_outstanding he)
  rw [zooGetpid, hrun, getpidFrom_unlines tag (isZooLine_of_shows hshows) le_rfl]
  exact find?_of_shows hshows hfits hcomma hplain

/-! ### Runs of `ltp-bump` -/

section Runs

/-- One name changes the file as a call of `zoo_clear` does, or not at all, and signals the
process that is found for the name, if one is. -/
theorem bumpName_spec (sig : Int) (s : Bump) (call : Text × KillAnswer) :
    ((bumpName sig s call).file = s.file ∨
        ∃ p, (bumpName sig s call).file = (ZooOp.clear p).apply s.file) ∧
      (bumpName sig s call).kills = s.kills ++
        if zooGetpid s.file call.1 = -1 then [] else [(zooGetpid s.file call.1, sig)] := by
  obtain ⟨name, answer⟩ := call
  by_cases hnone : zooGetpid s.file name = -1
  · simp [bumpName, hnone]
  · cases answer with
    | sent | failed => simp [bumpName, hnone]
    | noProcess =>
        simp only [bumpName, if_neg hnone, and_true]
        exact Or.inr ⟨_, rfl⟩

/-- Whatever `kill` answers, only processes are signalled that are registered before the run,
each under a tag that begins with one of the names. -/
theorem kills_outstanding {sig : Int} {ops : List ZooOp} (hops : Registered ops)
    {calls : List (Text × KillAnswer)} (hcalls : ∀ call ∈ calls, ',' ∉ call.1 ∧ IsPlain call.1)
    {k : Int × Int} (h : k ∈ (ltpBump sig (zooRun ops) calls).kills) :
    ∃ e ∈ outstanding ops, ∃ call ∈ calls, call.1 <+: e.tag ∧ k = ((e.pid : Int), sig) := by
  have hrun : ∀ s : Bump, s.file = zooRun ops → k ∈ (calls.foldl (bumpName sig) s).kills →
      k ∈ s.kills ∨
        ∃ e ∈ outstanding ops, ∃ call ∈ calls, call.1 <+: e.tag ∧ k = ((e.pid : Int), sig) := by
    clear h
    induction calls generalizing ops with
    | nil => exact fun s _ hk => Or.inl hk
    | cons call calls ih =>
        intro s hfile hk
        obtain ⟨hfile', hkills⟩ := bumpName_spec sig s call
        obtain ⟨hcall, hcalls⟩ := List.forall_mem_cons.mp hcalls
        obtain ⟨ops', hops', hsub, hnext⟩ : ∃ ops', Registered ops' ∧
            outstanding ops' ⊆ outstanding ops ∧ (bumpName sig s call).file = zooRun ops' := by
          rcases hfile' with hsame | ⟨p, hclear⟩
          · exact ⟨ops, hops, List.Subset.refl _, hsame.trans hfile⟩
          · refine ⟨ops ++ [.clear p], ⟨?_, ?_⟩, outstanding_clear_subset ops p, ?_⟩
            · exact List.forall_mem_append.mpr ⟨hops.plain, by simp [ZooOp.Plain]⟩
            · exact List.forall_mem_append.mpr ⟨hops.fits, by simp [ZooOp.TagFits]⟩
            · rw [hclear, hfile, zooRun_concat]
        rcases ih hops' hcalls _ hnext hk with hk | ⟨e, he, call', hcall', hk⟩
        · rw [hkills, List.mem_append, hfile, zooGetpid_zooRun hops hcall.1 hcall.2] at hk
          refine hk.imp_right fun hk => ?_
          cases hfirst : firstBegins ops call.1 with
          | none => simp [hfirst] at hk
          | some e =>
              refine ⟨e, List.mem_of_find?_eq_some hfirst, call, List.mem_cons_self, ?_, ?_⟩
              · simpa using List.find?_some hfirst
              · split_ifs at hk
                · cases hk
                · simpa [hfirst] using hk
        · exact Or.inr ⟨e, hsub he, call', List.mem_cons_of_mem call hcall', hk⟩
  exact (hrun ⟨zooRun ops, [], []⟩ rfl h).resolve_left List.not_mem_nil

end Runs

/-- What the lookup is for: it answers with the pid of an entry that has the tag, or that there
is none, and `ltp-bump` signals no process that is not registered under the tag. -/
structure FindsTag (ops : List ZooOp) (tag : Text) : Prop where
  found : (∃ e ∈ outstanding ops, e.tag = tag ∧ zooGetpid (zooRun ops) tag = e.pid) ∨
    (¬ ∃ e ∈ outstanding ops, e.tag = tag) ∧ zooGetpid (zooRun ops) tag = -1
  signals : ∀ sig answer, ∀ k ∈ (ltpBump sig (zooRun ops) [(tag, answer)]).kills,
    ∃ e ∈ outstanding ops, e.tag = tag ∧ k.1 = e.pid

/-- The lookup finds the tag exactly when the process of the first entry whose tag begins with
it, if there is such an entry, is also registered under the tag itself. -/
theorem findsTag_iff (ops : List ZooOp) (hops : Registered ops) (tag : Text) (hcomma : ',' ∉ tag)
    (hplain : IsPlain tag) :
    FindsTag ops tag ↔
      ∀ e ∈ firstBegins ops tag, ∃ e' ∈ outstanding ops, e'.tag = tag ∧ e'.pid = e.pid := by
  have hgetpid := zooGetpid_zooRun hops hcomma hplain
  constructor
  · rintro ⟨hfound, -⟩ e he
    rw [Option.mem_def.mp he, Option.elim_some] at hgetpid
    rcases hfound with ⟨e', he', htag, hpid⟩ | ⟨-, hnone⟩
    · exact ⟨e', he', htag, by omega⟩
    · omega
  · intro h
    have hfound : (∃ e ∈ outstanding ops, e.tag = tag ∧ zooGetpid (zooRun ops) tag = e.pid) ∨
        (¬ ∃ e ∈ outstanding ops, e.tag = tag) ∧ zooGetpid (zooRun ops) tag = -1 := by
      cases hfirst : firstBegins ops tag with
      | none =>
          refine Or.inr ⟨?_, by rw [hgetpid, hfirst]; rfl⟩
          rintro ⟨e, he, rfl⟩
          have hno := List.find?_eq_none.mp hfirst e he
          exact hno (decide_eq_true List.prefix_rfl)
      | some e =>
          obtain ⟨e', he', htag, hpid⟩ := h e hfirst
          refine Or.inl ⟨e', he', htag, ?_⟩
          rw [hgetpid, hfirst, Option.elim_some, hpid]
    refine ⟨hfound, ?_⟩
    intro sig answer k hk
    have hkills := (bumpName_spec sig ⟨zooRun ops, [], []⟩ (tag, answer)).2
    change k ∈ (bumpName sig ⟨zooRun ops, [], []⟩ (tag, answer)).kills at hk
    rw [hkills] at hk
    simp only [List.nil_append] at hk
    split_ifs at hk with hnone
    · cases hk
    · obtain rfl := List.mem_singleton.mp hk
      rcases hfound with hfound | ⟨-, hminus⟩
      · exact hfound
      · exact absurd hminus hnone

/-- Two processes, the tag of the second of which begins the tag of the first. -/
def fooAndFoobar : List ZooOp :=
  [.mark 7 (txt "foobar") (txt "sleep 100"), .mark 12 (txt "foo") (txt "true")]

/-- The other process is found, and gets the signal. -/
theorem zooGetpid_fooAndFoobar :
    zooGetpid (zooRun fooAndFoobar) (txt "foo") = 7 ∧
      (ltpBump 2 (zooRun fooAndFoobar) [(txt "foo", .sent)]).kills = [(7, 2)] ∧
      ¬ FindsTag fooAndFoobar (txt "foo") := by
  have hgetpid : zooGetpid (zooRun fooAndFoobar) (txt "foo") = 7 := by decide +kernel
  have houtstanding : outstanding fooAndFoobar =
      [⟨7, txt "foobar", txt "sleep 100"⟩, ⟨12, txt "foo", txt "true"⟩] := by decide +kernel
  refine ⟨hgetpid, by decide +kernel, ?_⟩
  rintro ⟨⟨e, he, htag, hpid⟩ | ⟨-, hnone⟩, -⟩
  · rw [hgetpid] at hpid
    rw [houtstanding] at he
    rcases List.mem_cons.mp he with rfl | he
    · exact absurd htag (by decide)
    · obtain rfl := List.mem_singleton.mp he
      exact absurd hpid (by decide)
  · rw [hgetpid] at hnone
    exact absurd hnone (by decide)

theorem kills_outstanding_foobar :
    ∃ e ∈ outstanding [.mark 7 (txt "foobar") []], ∃ call ∈ [(txt "foo", KillAnswer.sent)],
      call.1 <+: e.tag ∧ ((7 : Int), (2 : Int)) = ((e.pid : Int), 2) :=
  kills_outstanding ⟨by simpa [ZooOp.Plain] using ⟨by decide, by decide, by decide⟩,
    by simp [ZooOp.TagFits]; decide⟩ (by decide) (by decide +kernel)

/-- A tag that begins no other one. -/
theorem findsTag_foobar : FindsTag fooAndFoobar (txt "foobar") := by
  have hops : Registered fooAndFoobar := by
    refine ⟨?_, ?_⟩
    all_goals
      intro op hop
      simp only [fooAndFoobar, List.mem_cons, List.not_mem_nil, or_false] at hop
      rcases hop with rfl | rfl
    · exact ⟨by decide, by decide, by decide⟩
    · exact ⟨by decide, by decide, by decide⟩
    · exact (by decide : ZooEntry.TagFits ⟨7, txt "foobar", txt "sleep 100"⟩)
    · exact (by decide : ZooEntry.TagFits ⟨12, txt "foo", txt "true"⟩)
  apply (findsTag_iff fooAndFoobar hops (txt "foobar") (by decide) (by decide)).mpr
  have hfirst : firstBegins fooAndFoobar (txt "foobar") =
      some ⟨7, txt "foobar", txt "sleep 100"⟩ := by decide +kernel
  intro e he
  obtain rfl := Option.some.inj (hfirst.symm.trans he)
  exact ⟨_, List.mem_of_find?_eq_some hfirst, rfl, rfl⟩

end EDDTs.Pan
