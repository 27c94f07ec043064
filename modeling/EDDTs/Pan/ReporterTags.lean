import EDDTs.Pan.Reporter
import EDDTs.Pan.SymbolRuns

/-!
# Tags as keys of the symbol table

`scanner_test_end` and `scanner_reporter` take the tag of a block for a key of the
symbol table, which is split at its commas. What a complete report says of the tags
of its blocks: each is one component, and no two of them meet.
-/

namespace EDDTs.Pan

open Library

/-- What `test_end` gets of a complete block: the results of a cuts test under
their tcids, and the keywords. -/
structure TestBlock where
  tag : Text
  status : Text
  results : List (Text × Table)
  keys : Table
  tag_ne : tag ≠ []
  tag_plain : ∀ c ∈ tag, c ≠ ' ' ∧ c ≠ '\t' ∧ c ≠ '\n' ∧ c ≠ '\x00'
  results_dir : ∀ e ∈ results, e.1 ≠ txt "_keys" ∧ ∃ es, e.2 = .dir es
  keys_tag : symText keys (txt "tag") = some tag
  keys_status : symText keys (txt "initiation_status") = some status
  keys_stime : (symText keys (txt "stime")).isSome = true

namespace TestBlock

/-- The table that is stored for a block. -/
def table (b : TestBlock) : Table := .dir (b.results ++ [(txt "_keys", b.keys)])

end TestBlock

/-- The reports before the first block. -/
def Reports.initial : Reports := { alltags := .dir [], notag := 0, stdout := [], stderr := [] }

/-- `scanner_test_end` for each block of a sequence. -/
def recordBlocks (r : Reports) (bs : List TestBlock) : Option Reports :=
  bs.foldlM (fun r b => scannerTestEnd r (.dir b.results) b.keys) r

/-- The block whose keys are reported for a tag: the last one whose initiation
status is `ok`, or the first one if there is none. -/
def chosen (bs : List TestBlock) (tag : Text) : Option TestBlock :=
  let own := bs.filter fun b => b.tag = tag
  (own.filter fun b => b.status = txt "ok").getLast?.or own.head?

/-- The calls of `tag_report` whose keys have a tag. -/
def callsFor (calls : List (Table × Table)) (tag : Text) : List (Table × Table) :=
  calls.filter fun call => symText call.2 (txt "tag") = some tag

/-- The report is made, and has one call for each tag, with the keys of the
chosen block. -/
def ReportsEveryTag (date : Text → Text) (bs : List TestBlock) : Prop :=
  ∃ r calls, recordBlocks .initial bs = some r ∧ scannerReporter date r.alltags = some calls ∧
    ∀ b ∈ bs, ∃ b', chosen bs b.tag = some b' ∧
      (callsFor calls b.tag).map Prod.snd = [b'.keys]

/-- A tag has one component between commas. -/
def SoleComponent (tag c : Text) : Prop :=
  c ≠ [] ∧ ',' ∉ c ∧ ∃ a b, (∀ d ∈ a ++ b, d = ',') ∧ tag = a ++ (c ++ b)

/-- No two tags meet in the symbol table, and the keys made of them fit. -/
structure TagsApart (bs : List TestBlock) : Prop where
  sole : ∀ b ∈ bs, ∃ c, SoleComponent b.tag c ∧ c ≠ txt "_RTS" ∧ c.length ≤ 248
  apart : ∀ b ∈ bs, ∀ b' ∈ bs, ∀ c, SoleComponent b.tag c → SoleComponent b'.tag c →
    b.tag = b'.tag
  first : ∀ b, bs.head? = some b → ∀ c, SoleComponent b.tag c → c.length ≤ 242

section KeyPaths

theorem soleComponent_iff {tag c : Text} : keyPath tag = [c] ↔ SoleComponent tag c := by
  simp only [keyPath, splitstr_eq_singleton_iff, List.mem_singleton, SoleComponent]
  refine and_congr_right fun _ => and_congr_left fun _ => ?_
  exact ⟨fun h hmem => h _ hmem rfl, fun h d hd hcomma => h (hcomma ▸ hd)⟩

theorem keyPath_component {t c : Text} (h : c ∈ keyPath t) : c ≠ [] ∧ ',' ∉ c := by
  obtain ⟨hne, hc⟩ := mem_splitstr h
  exact ⟨hne, fun hmem => hc _ hmem (by simp)⟩

/-- A key that is made of a component and another key. -/
theorem keyPath_append {c : Text} (hne : c ≠ []) (hc : ',' ∉ c) (rest : Text) :
    keyPath (c ++ ',' :: rest) = c :: keyPath rest :=
  splitstr_append_sep (fun d hd => by simpa using fun h : d = ',' => hc (h ▸ hd)) (by simp) hne rest

theorem keyPath_keys {c : Text} (hne : c ≠ []) (hc : ',' ∉ c) :
    keyPath (c ++ txt ",_keys") = [c, txt "_keys"] := keyPath_append hne hc (txt "_keys")

theorem keyPath_stime {c : Text} (hne : c ≠ []) (hc : ',' ∉ c) :
    keyPath (c ++ txt ",_keys,stime") = [c, txt "_keys", txt "stime"] :=
  keyPath_append hne hc (txt "_keys,stime")

end KeyPaths

section Step

variable {r : Reports} {b : TestBlock}

theorem TestBlock.entry_results (b : TestBlock) :
    OrderedTree.entry b.results (txt "_keys") = none := by
  apply (OrderedTree.entry_eq_none_iff _ _).mpr
  intro hmem
  obtain ⟨e, he, hkey⟩ := List.mem_map.mp hmem
  exact (b.results_dir e he).1 hkey

theorem withKeys_results (b : TestBlock) : withKeys (.dir b.results) b.keys = b.table := by
  have hpath : keyPath (txt "_keys") = [txt "_keys"] := by decide
  rw [withKeys, hpath, treePut]
  simp [OrderedTree.blocked, OrderedTree.get, OrderedTree.insert, b.entry_results,
    OrderedTree.single, TestBlock.table]

/-- `scanner_test_end` on the table of all tags. -/
def record (t : Table) (b : TestBlock) : Option Table :=
  if keyPath b.tag = [] then none
  else if isData (t.get (keyPath b.tag)) ∧ b.status ≠ txt "ok" then some t
  else some (treePut t (keyPath b.tag) b.table true).2

theorem scannerTestEnd_block (r : Reports) (b : TestBlock) :
    scannerTestEnd r (.dir b.results) b.keys =
      (record r.alltags b).map fun t => { r with alltags := t } := by
  have htag : tagOfKeys r.notag b.keys = (b.tag, b.keys, r.notag, []) := by
    rw [tagOfKeys, b.keys_tag]
  simp only [scannerTestEnd, htag, withKeys_results, b.keys_status, record, List.append_nil,
    Option.some.injEq]
  by_cases hpath : keyPath b.tag = []
  · simp [hpath]
  · by_cases hold : isData (r.alltags.get (keyPath b.tag)) = true
    · by_cases hok : b.status = txt "ok" <;> simp [hpath, hold, hok]
    · simp [hpath, hold]

/-- The table of all tags after a sequence of blocks. -/
theorem recordBlocks_eq (r : Reports) (bs : List TestBlock) :
    recordBlocks r bs = (bs.foldlM record r.alltags).map fun t => { r with alltags := t } := by
  induction bs generalizing r with
  | nil => rfl
  | cons b bs ih =>
      rw [recordBlocks, List.foldlM_cons, List.foldlM_cons, scannerTestEnd_block]
      cases record r.alltags b with
      | none => rfl
      | some t => exact ih { r with alltags := t }

end Step

/-! ## What a report says of its tags -/

/-- The leaves that the reporter reads as tags stand under their own component,
and the keys of the root are components. -/
structure TagsInv (t : Table) : Prop where
  isDir : ∃ es, t = .dir es
  component : ∀ k ∈ t.keys, k ≠ [] ∧ ',' ∉ k
  tag : ∀ k a, t.get [k, txt "_keys", txt "tag"] = some (.leaf (some a)) → keyPath a = [k]

theorem leaf_of_get_treePut {t v : Table} {p q : List Text} {replace : Bool} {a : Option Text}
    (h : (treePut t p v replace).2.get q = some (.leaf a)) :
    t.get q = some (.leaf a) ∨ ∃ r, q = p ++ r ∧ v.get r = some (.leaf a) := by
  unfold treePut at h
  split at h
  · exact Or.inl h
  · split at h
    · exact Or.inl h
    · exact OrderedTree.leaf_of_get_insert h

theorem TestBlock.get_table_keys (b : TestBlock) (r : List Text) :
    b.table.get (txt "_keys" :: r) = b.keys.get r := by
  rw [TestBlock.table, OrderedTree.get_dir_cons, OrderedTree.entry_append,
    b.entry_results]
  simp [OrderedTree.entry]

theorem TestBlock.get_table_ne_leaf (b : TestBlock) {k : Text} (hk : k ≠ txt "_keys")
    (a : Option Text) : b.table.get [k] ≠ some (.leaf a) := by
  intro h
  rw [TestBlock.table, OrderedTree.get_dir_cons, OrderedTree.entry_append] at h
  cases hentry : OrderedTree.entry b.results k with
  | none => simp [hentry, OrderedTree.entry, Ne.symm hk] at h
  | some t =>
      obtain ⟨-, es, hes⟩ := b.results_dir _ (OrderedTree.mem_of_entry hentry)
      obtain rfl : t = .dir es := hes
      simp [hentry] at h

theorem keyPath_tag : keyPath (txt "tag") = [txt "tag"] := by decide

variable {b : TestBlock} {bs : List TestBlock}

/-- The leaf that is read as the tag of a block is the block's tag, if the block
stands under one component. -/
theorem TestBlock.tag_of_table {k a : Text} {p r : List Text} (hp : p ≠ [])
    (hsplit : [k, txt "_keys", txt "tag"] = p ++ r) (h : b.table.get r = some (.leaf (some a))) :
    p = [k] ∧ a = b.tag := by
  obtain ⟨k', p, rfl⟩ := List.exists_cons_of_ne_nil hp
  obtain ⟨rfl, hrest⟩ := List.cons.inj hsplit
  cases p with
  | nil =>
      obtain rfl : [txt "_keys", txt "tag"] = r := hrest
      rw [b.get_table_keys] at h
      have hkeys := b.keys_tag
      rw [symText, keyPath_tag, h] at hkeys
      exact ⟨rfl, Option.some.inj hkeys⟩
  | cons k₂ p =>
      obtain ⟨rfl, hrest₂⟩ := List.cons.inj hrest
      cases p with
      | nil =>
          obtain rfl : [txt "tag"] = r := hrest₂
          exact absurd h (b.get_table_ne_leaf (by decide) _)
      | cons k₃ p =>
          obtain ⟨rfl, hrest₃⟩ := List.cons.inj hrest₂
          obtain ⟨-, rfl⟩ := List.append_eq_nil_iff.mp hrest₃.symm
          simp [TestBlock.table] at h

theorem keys_record {es : List (Text × Table)} {t : Table} (hrec : record (.dir es) b = some t) :
    ∃ k ks, keyPath b.tag = k :: ks ∧ t.keys = OrderedTree.appendNew (es.map Prod.fst) k := by
  unfold record at hrec
  split at hrec
  · cases hrec
  next hpath =>
    obtain ⟨k, ks, hk⟩ := List.exists_cons_of_ne_nil hpath
    refine ⟨k, ks, hk, ?_⟩
    rw [hk] at hrec
    split at hrec
    next hold =>
      -- the old data lies under the component, which is among the keys
      obtain rfl := Option.some.inj hrec
      have hmem : k ∈ es.map Prod.fst := by
        by_contra hnot
        rw [OrderedTree.get_dir_cons, (OrderedTree.entry_eq_none_iff es k).mpr hnot] at hold
        exact Bool.false_ne_true hold.1
      rw [OrderedTree.appendNew, if_pos hmem]
      rfl
    next =>
      obtain rfl := Option.some.inj hrec
      exact keys_treePut es k ks b.table true

theorem isDir_record {es : List (Text × Table)} {t : Table} (hrec : record (.dir es) b = some t) :
    ∃ es', t = .dir es' := by
  unfold record at hrec
  split at hrec
  · cases hrec
  next hpath =>
    obtain ⟨k, ks, hk⟩ := List.exists_cons_of_ne_nil hpath
    split at hrec
    · exact ⟨es, (Option.some.inj hrec).symm⟩
    · rw [← Option.some.inj hrec, hk]
      exact isDir_treePut es k ks b.table true

/-- What is read as a tag after a block was there before, or is its tag. -/
theorem tag_of_record {t t' : Table} (hrec : record t b = some t') {k a : Text}
    (hget : t'.get [k, txt "_keys", txt "tag"] = some (.leaf (some a))) :
    t.get [k, txt "_keys", txt "tag"] = some (.leaf (some a)) ∨ keyPath b.tag = [k] ∧ a = b.tag := by
  unfold record at hrec
  split at hrec
  · cases hrec
  next hpath =>
    split at hrec
    · exact Or.inl (Option.some.inj hrec ▸ hget)
    · obtain rfl := Option.some.inj hrec
      rcases leaf_of_get_treePut hget with hget | ⟨r, hsplit, hr⟩
      · exact Or.inl hget
      · exact Or.inr (TestBlock.tag_of_table hpath hsplit hr)

theorem TagsInv.record {t t' : Table} (h : TagsInv t) (hrec : Pan.record t b = some t') :
    TagsInv t' := by
  obtain ⟨es, rfl⟩ := h.isDir
  obtain ⟨k, ks, hk, hkeys⟩ := keys_record hrec
  refine ⟨isDir_record hrec, ?_, ?_⟩
  · intro k' hk'
    rw [hkeys, OrderedTree.appendNew] at hk'
    split at hk'
    next => exact h.component k' hk'
    next =>
      rcases List.mem_append.mp hk' with hk' | hk'
      · exact h.component k' hk'
      · rw [List.mem_singleton.mp hk']
        exact keyPath_component (t := b.tag) (by simp [hk])
  · intro k' a hget
    rcases tag_of_record hrec hget with hget | ⟨hpath, rfl⟩
    · exact h.tag k' a hget
    · exact hpath

theorem TagsInv.initial : TagsInv (.dir []) :=
  ⟨⟨[], rfl⟩, fun k hk => (List.not_mem_nil hk).elim, fun k a h => by cases h⟩

/-- The invariant holds after every sequence of blocks, and the first tag's first
component is the first key. -/
theorem tagsInv_blocks {t t' : Table} (h : TagsInv t) (hrec : bs.foldlM record t = some t') :
    TagsInv t' ∧ ∀ k, t.keys.head? = some k → t'.keys.head? = some k := by
  induction bs generalizing t with
  | nil =>
      obtain rfl := Option.some.inj hrec
      exact ⟨h, fun _ hk => hk⟩
  | cons b bs ih =>
      rw [List.foldlM_cons] at hrec
      obtain ⟨t₁, hb, hbs⟩ := Option.bind_eq_some_iff.mp hrec
      obtain ⟨hinv, hhead⟩ := ih (h.record hb) hbs
      refine ⟨hinv, fun k hk => hhead k ?_⟩
      obtain ⟨es, rfl⟩ := h.isDir
      obtain ⟨k', ks, -, hkeys⟩ := keys_record hb
      have hhead' : (es.map Prod.fst).head? = some k := hk
      rw [hkeys, OrderedTree.appendNew]
      split
      · exact hhead'
      · rw [List.head?_append, hhead']
        rfl

theorem firstKey_blocks {t : Table} (hrec : (b :: bs).foldlM record (.dir []) = some t) :
    t.keys.head? = (keyPath b.tag).head? := by
  rw [List.foldlM_cons] at hrec
  obtain ⟨t₁, hb, hbs⟩ := Option.bind_eq_some_iff.mp hrec
  obtain ⟨k, ks, hk, hkeys⟩ := keys_record hb
  rw [hk]
  exact (tagsInv_blocks (TagsInv.initial.record hb) hbs).2 k (by rw [hkeys]; rfl)

section Calls

variable {date : Text → Text} {tags tags' : Table} {ks : List Text}
  {calls : List (Table × Table)} {call : Table × Table}

theorem symText_eq_some {t : Table} {key a : Text} :
    symText t key = some a ↔ t.get (keyPath key) = some (.leaf (some a)) := by
  rw [symText, Option.bind_eq_some_iff]
  constructor
  · rintro ⟨u, hu, ha⟩
    cases u with
    | leaf v => rw [hu, show v = some a from ha]
    | dir es => cases ha
  · exact fun h => ⟨_, h, rfl⟩

/-- A call is made for a key that fits its buffer. -/
theorem mem_reportCalls (h : reportCalls tags ks = some calls) (hcall : call ∈ calls) :
    ∃ k ∈ ks, k ≠ txt "_RTS" ∧ fitsKey k (txt ",_keys") = true ∧
      tags.get (keyPath (k ++ txt ",_keys")) = some call.2 := by
  induction ks generalizing calls with
  | nil =>
      obtain rfl := Option.some.inj h
      cases hcall
  | cons k ks ih =>
      have hlater : ∀ {calls}, reportCalls tags ks = some calls → call ∈ calls →
          ∃ k' ∈ k :: ks, k' ≠ txt "_RTS" ∧ fitsKey k' (txt ",_keys") = true ∧
            tags.get (keyPath (k' ++ txt ",_keys")) = some call.2 := by
        intro calls h hcall
        obtain ⟨k', hk', hrest⟩ := ih h hcall
        exact ⟨k', List.mem_cons_of_mem k hk', hrest⟩
      rw [reportCalls] at h
      split at h
      next => exact hlater h hcall
      next hrts =>
        split at h
        next => cases h
        next hfits =>
          split at h
          next es hkeys =>
            split at h
            next ctag _ =>
              obtain ⟨rest, hrest, rfl⟩ := Option.map_eq_some_iff.mp h
              rcases List.mem_cons.mp hcall with rfl | hcall
              · exact ⟨k, by simp, hrts, by simpa using hfits, hkeys⟩
              · exact hlater hrest hcall
            next => exact hlater h hcall
          next => cases h
          next =>
            obtain rfl := Option.some.inj h
            cases hcall

/-- Looking for the date changes no leaf but the date. -/
theorem leaf_of_putDate (h : putDate date tags ks = some tags') {k k' : Text} {p : List Text}
    (hk' : k' ≠ txt "date") {a : Option Text}
    (hget : tags'.get (k :: k' :: p) = some (.leaf a)) :
    tags.get (k :: k' :: p) = some (.leaf a) := by
  induction ks with
  | nil => exact Option.some.inj h ▸ hget
  | cons tag ks ih =>
      simp only [putDate] at h
      split at h
      · cases h
      · split at h
        · obtain rfl := Option.some.inj h
          rcases leaf_of_get_treePut hget with hget | ⟨r, hsplit, -⟩
          · exact hget
          · have hpath : keyPath (txt "_RTS,date") = [txt "_RTS", txt "date"] := by decide
            rw [hpath] at hsplit
            exact absurd (List.cons.inj (List.cons.inj hsplit).2).1 hk'
        · exact ih h

theorem scannerReporter_spec (h : scannerReporter date tags = some calls) :
    ∃ tags', putDate date tags tags.keys = some tags' ∧
      reportCalls tags' tags.keys = some calls := by
  unfold scannerReporter at h
  split at h
  · cases h
  · split at h
    next => cases h
    next tags' hdate => exact ⟨tags', hdate, h⟩

/-- The tag in the keys of a call is found under the call's key. -/
theorem tag_of_call (hinv : TagsInv tags) (hdate : putDate date tags tags.keys = some tags')
    (hcalls : reportCalls tags' tags.keys = some calls) (hcall : call ∈ calls) {tag : Text}
    (htag : symText call.2 (txt "tag") = some tag) :
    ∃ c, tags.get [c, txt "_keys", txt "tag"] = some (.leaf (some tag)) ∧ c ≠ txt "_RTS" ∧
      fitsKey c (txt ",_keys") = true ∧ tags'.get [c, txt "_keys"] = some call.2 := by
  obtain ⟨c, hmem, hrts, hfits, hget⟩ := mem_reportCalls hcalls hcall
  obtain ⟨hne, hcomma⟩ := hinv.component c hmem
  rw [keyPath_keys hne hcomma] at hget
  have hleaf : tags'.get ([c, txt "_keys"] ++ [txt "tag"]) = some (.leaf (some tag)) := by
    rw [OrderedTree.get_append, hget]
    rw [symText_eq_some, keyPath_tag] at htag
    exact htag
  exact ⟨c, leaf_of_putDate hdate (by decide) hleaf, hrts, hfits, hget⟩

theorem fitsKey_of_putDate {k : Text} (h : putDate date tags (k :: ks) = some tags') :
    fitsKey k (txt ",_keys,stime") = true := by
  simp only [putDate] at h
  split at h
  · cases h
  next hfits => simpa using hfits

end Calls

theorem fitsKey_keys {c : Text} : fitsKey c (txt ",_keys") = true ↔ c.length ≤ 248 := by
  have hlen : (txt ",_keys").length = 6 := rfl
  simp only [fitsKey, keySize, hlen, decide_eq_true_eq]
  omega

theorem fitsKey_stime {c : Text} : fitsKey c (txt ",_keys,stime") = true ↔ c.length ≤ 242 := by
  have hlen : (txt ",_keys,stime").length = 12 := rfl
  simp only [fitsKey, keySize, hlen, decide_eq_true_eq]
  omega

/-- The key of the first tag's start time fits its buffer if the date is found. -/
theorem first_fits {date : Text → Text} {tags tags' : Table}
    (hblocks : (b :: bs).foldlM record (.dir []) = some tags)
    (hdate : putDate date tags tags.keys = some tags') {c : Text} (hc : keyPath b.tag = [c]) :
    c.length ≤ 242 := by
  have hfirst := firstKey_blocks hblocks
  rw [hc] at hfirst
  cases hkeys : tags.keys with
  | nil => simp [hkeys] at hfirst
  | cons k ks =>
      rw [hkeys] at hfirst hdate
      obtain rfl : k = c := Option.some.inj hfirst
      exact fitsKey_stime.mp (fitsKey_of_putDate hdate)

theorem tagsApart_of_reportsEveryTag {date : Text → Text} (h : ReportsEveryTag date (b :: bs)) :
    TagsApart (b :: bs) := by
  obtain ⟨r, calls, hrec, hreport, hevery⟩ := h
  rw [recordBlocks_eq] at hrec
  obtain ⟨tags, hblocks, rfl⟩ := Option.map_eq_some_iff.mp hrec
  have hinv := (tagsInv_blocks TagsInv.initial hblocks).1
  obtain ⟨tags', hdate, hcalls⟩ := scannerReporter_spec hreport
  have hcall : ∀ b' ∈ b :: bs, ∃ c K, keyPath b'.tag = [c] ∧ c ≠ txt "_RTS" ∧
      fitsKey c (txt ",_keys") = true ∧ tags'.get [c, txt "_keys"] = some K ∧
      symText K (txt "tag") = some b'.tag := by
    intro b' hb'
    obtain ⟨chosen, -, hmap⟩ := hevery b' hb'
    obtain ⟨call, hmem, -⟩ := List.mem_map.mp (hmap ▸ List.mem_singleton.mpr rfl)
    obtain ⟨hmem, htag⟩ := List.mem_filter.mp hmem
    have htag := of_decide_eq_true htag
    obtain ⟨c, hc, hrts, hfits, hget⟩ := tag_of_call hinv hdate hcalls hmem htag
    exact ⟨c, call.2, hinv.tag c b'.tag hc, hrts, hfits, hget, htag⟩
  refine ⟨?_, ?_, ?_⟩
  · intro b' hb'
    obtain ⟨c, -, hc, hrts, hfits, -⟩ := hcall b' hb'
    exact ⟨c, soleComponent_iff.mp hc, hrts, fitsKey_keys.mp hfits⟩
  · intro b₁ hb₁ b₂ hb₂ c hc₁ hc₂
    obtain ⟨c₁, K₁, hpath₁, -, -, hget₁, htag₁⟩ := hcall b₁ hb₁
    obtain ⟨c₂, K₂, hpath₂, -, -, hget₂, htag₂⟩ := hcall b₂ hb₂
    rw [soleComponent_iff.mpr hc₁] at hpath₁
    rw [soleComponent_iff.mpr hc₂] at hpath₂
    obtain ⟨rfl, -⟩ := List.cons.inj hpath₁
    obtain ⟨rfl, -⟩ := List.cons.inj hpath₂
    obtain rfl : K₁ = K₂ := Option.some.inj (hget₁.symm.trans hget₂)
    exact Option.some.inj (htag₁.symm.trans htag₂)
  · intro b' hb' c hc
    obtain rfl : b = b' := Option.some.inj hb'
    exact first_fits hblocks hdate (soleComponent_iff.mpr hc)

end EDDTs.Pan
