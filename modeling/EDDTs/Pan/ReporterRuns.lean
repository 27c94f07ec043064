import EDDTs.Pan.ReporterTags
import Mathlib.Data.List.Induction

/-!
# The report over a sequence of blocks

`scanner_test_end` keeps one block for each tag, the last one that was initiated
or else the first, and `scanner_reporter` calls `tag_report` for each of them, as
long as the tags are kept apart.
-/

namespace EDDTs.Pan

open Library

/-! ## What is kept of the blocks -/

/-- The blocks that are kept after one more. -/
def keep (kept : List TestBlock) (b : TestBlock) : List TestBlock :=
  if b.tag ∈ kept.map TestBlock.tag then
    if b.status = txt "ok" then kept.map fun b' => if b'.tag = b.tag then b else b' else kept
  else kept ++ [b]

/-- The block that is kept of a tag after one more. -/
theorem chosen_append (bs : List TestBlock) (b : TestBlock) (tag : Text) :
    chosen (bs ++ [b]) tag =
      if b.tag = tag then if b.status = txt "ok" then some b else (chosen bs tag).or (some b)
      else chosen bs tag := by
  unfold chosen
  by_cases htag : b.tag = tag
  · by_cases hok : b.status = txt "ok"
    · simp [List.filter_append, htag, hok]
    · simp [List.filter_append, htag, hok]
  · simp [List.filter_append, htag]

variable {bs : List TestBlock}

theorem chosen_isSome {b : TestBlock} (hb : b ∈ bs) : (chosen bs b.tag).isSome = true := by
  have hmem : b ∈ bs.filter fun b' => b'.tag = b.tag := List.mem_filter.mpr ⟨hb, by simp⟩
  obtain ⟨b₀, own, hown⟩ := List.exists_cons_of_ne_nil (List.ne_nil_of_mem hmem)
  simp [chosen, hown]

theorem filter_keep (kept : List TestBlock) (b : TestBlock) (tag : Text) :
    (keep kept b).filter (fun b' => b'.tag = tag) =
      if b.tag = tag then
        if kept.filter (fun b' => b'.tag = tag) = [] then [b]
        else if b.status = txt "ok" then
          (kept.filter fun b' => b'.tag = tag).map fun _ => b
        else kept.filter fun b' => b'.tag = tag
      else kept.filter fun b' => b'.tag = tag := by
  have hmem : b.tag ∈ kept.map TestBlock.tag ↔ kept.filter (fun b' => b'.tag = b.tag) ≠ [] := by
    simp [List.filter_eq_nil_iff]
  have hreplace : (kept.map fun b' => if b'.tag = b.tag then b else b').filter
      (fun b' => b'.tag = tag) =
      (kept.filter fun b' => b'.tag = tag).map fun b' => if b'.tag = b.tag then b else b' := by
    rw [List.filter_map]
    congr 1
    refine List.filter_congr fun b' _ => ?_
    by_cases h : b'.tag = b.tag <;> simp [h]
  by_cases htag : b.tag = tag
  · subst htag
    rw [if_pos rfl, keep]
    by_cases hnil : kept.filter (fun b' => b'.tag = b.tag) = []
    · have hnot : b.tag ∉ kept.map TestBlock.tag := fun h => hmem.mp h hnil
      simp [hnot, hnil, List.filter_append]
    · rw [if_pos (hmem.mpr hnil), if_neg hnil]
      split
      · rw [hreplace]
        refine List.map_congr_left fun b' hb' => if_pos ?_
        exact of_decide_eq_true (List.mem_filter.mp hb').2
      · rfl
  · rw [if_neg htag, keep]
    split
    · split
      · rw [hreplace]
        apply (List.map_congr_left fun b' hb' => if_neg ?_).trans (List.map_id _)
        intro h
        exact htag (h.symm.trans (of_decide_eq_true (List.mem_filter.mp hb').2))
      · rfl
    · simp [List.filter_append, htag]

/-- Of each tag the chosen block is kept, and no other. -/
theorem filter_kept (bs : List TestBlock) (tag : Text) :
    (bs.foldl keep []).filter (fun b => b.tag = tag) = (chosen bs tag).toList := by
  induction bs using List.reverseRecOn with
  | nil => rfl
  | append_singleton bs b ih =>
      rw [List.foldl_append, List.foldl_cons, List.foldl_nil, filter_keep, ih, chosen_append]
      split
      · by_cases hok : b.status = txt "ok" <;> cases chosen bs tag <;> simp [hok]
      · rfl

theorem kept_unique {b b' : TestBlock} (hb : b ∈ bs.foldl keep []) (hb' : b' ∈ bs.foldl keep [])
    (htag : b'.tag = b.tag) : b' = b := by
  have hmem : b ∈ (chosen bs b.tag).toList := by
    rw [← filter_kept]
    exact List.mem_filter.mpr ⟨hb, by simp⟩
  have hmem' : b' ∈ (chosen bs b.tag).toList := by
    rw [← filter_kept]
    exact List.mem_filter.mpr ⟨hb', by simpa using htag⟩
  exact Option.some.inj ((Option.mem_toList.mp hmem').symm.trans (Option.mem_toList.mp hmem))

theorem mem_of_mem_kept {kept : List TestBlock} {b : TestBlock} (hb : b ∈ bs.foldl keep kept) :
    b ∈ kept ∨ b ∈ bs := by
  induction bs generalizing kept with
  | nil => exact Or.inl hb
  | cons b₀ bs ih =>
      rcases ih hb with h | h
      · have hstep : b ∈ kept ∨ b = b₀ := by
          unfold keep at h
          split at h
          · split at h
            · obtain ⟨b', hb', rfl⟩ := List.mem_map.mp h
              split
              · exact Or.inr rfl
              · exact Or.inl hb'
            · exact Or.inl h
          · simpa using h
        exact hstep.imp_right fun (h : b = b₀) => h ▸ List.mem_cons_self
      · exact Or.inr (List.mem_cons_of_mem b₀ h)

/-! ## The table of all tags holds what is kept -/

/-- The first component of a tag. -/
def component (tag : Text) : Text := (keyPath tag).headD []

/-- The table of the blocks that are kept. -/
def keptTable (kept : List TestBlock) : Table :=
  .dir (kept.map fun b => (component b.tag, b.table))

theorem treePut_singleton (es : List (Text × Table)) (c : Text) (v : Table) :
    (treePut (.dir es) [c] v true).2 =
      .dir (if c ∈ es.map Prod.fst then OrderedTree.setEntry es c v else es ++ [(c, v)]) := by
  have hiff := OrderedTree.entry_eq_none_iff es c
  cases hentry : OrderedTree.entry es c with
  | none =>
      rw [if_neg (hiff.mp hentry)]
      simp [treePut, OrderedTree.blocked, OrderedTree.insert, OrderedTree.single, hentry]
  | some t =>
      rw [if_pos (by_contra fun h => by simp [hiff.mpr h] at hentry)]
      simp [treePut, OrderedTree.blocked, OrderedTree.insert, hentry]

/-- The tags of some blocks are keys of one component each, which tell them apart. -/
structure Apart (bs : List TestBlock) : Prop where
  path : ∀ b ∈ bs, keyPath b.tag = [component b.tag]
  inj : ∀ b ∈ bs, ∀ b' ∈ bs, component b'.tag = component b.tag → b'.tag = b.tag

theorem Apart.mono {bs' : List TestBlock} (h : Apart bs) (hsub : bs' ⊆ bs) : Apart bs' :=
  ⟨fun b hb => h.path b (hsub hb), fun b hb b' hb' => h.inj b (hsub hb) b' (hsub hb')⟩

theorem TagsApart.apart_components (h : TagsApart bs) : Apart bs := by
  have hpath : ∀ b ∈ bs, keyPath b.tag = [component b.tag] := by
    intro b hb
    obtain ⟨c, hc, -⟩ := h.sole b hb
    rw [component, soleComponent_iff.mpr hc]
    rfl
  refine ⟨hpath, ?_⟩
  intro b hb b' hb' heq
  have hc := soleComponent_iff.mp (hpath b hb)
  have hc' := soleComponent_iff.mp (hpath b' hb')
  rw [heq] at hc'
  exact h.apart b' hb' b hb _ hc' hc

theorem record_keptTable {kept : List TestBlock} {b : TestBlock} (h : Apart (b :: kept)) :
    record (keptTable kept) b = some (keptTable (keep kept b)) := by
  have hpath := h.path b (by simp)
  have hkeys : component b.tag ∈ (kept.map fun b' => (component b'.tag, b'.table)).map Prod.fst ↔
      b.tag ∈ kept.map TestBlock.tag := by
    rw [List.map_map]
    constructor
    · intro hmem
      obtain ⟨b', hb', heq⟩ := List.mem_map.mp hmem
      exact List.mem_map.mpr ⟨b', hb', h.inj b (by simp) b' (List.mem_cons_of_mem b hb') heq⟩
    · intro hmem
      obtain ⟨b', hb', heq⟩ := List.mem_map.mp hmem
      exact List.mem_map.mpr ⟨b', hb', congrArg component heq⟩
  have hdata : isData ((keptTable kept).get [component b.tag]) = true ↔
      b.tag ∈ kept.map TestBlock.tag := by
    rw [← hkeys, keptTable, OrderedTree.get_dir_cons]
    generalize hes : (kept.map fun b' => (component b'.tag, b'.table)) = es
    cases hentry : OrderedTree.entry es (component b.tag) with
    | none => simp [isData, (OrderedTree.entry_eq_none_iff es _).mp hentry]
    | some t =>
        have hmem := OrderedTree.mem_of_entry hentry
        refine iff_of_true ?_ (List.mem_map.mpr ⟨_, hmem, rfl⟩)
        rw [← hes] at hmem
        obtain ⟨b', -, heq⟩ := List.mem_map.mp hmem
        rw [← (Prod.mk.inj heq).2]
        rfl
  have hset : OrderedTree.setEntry (kept.map fun b' => (component b'.tag, b'.table))
      (component b.tag) b.table =
      (kept.map fun b' => if b'.tag = b.tag then b else b').map
        fun b' => (component b'.tag, b'.table) := by
    rw [OrderedTree.setEntry, List.map_map, List.map_map]
    refine List.map_congr_left fun b' hb' => ?_
    by_cases htag : b'.tag = b.tag
    · simp [htag]
    · have hne : component b'.tag ≠ component b.tag :=
        fun heq => htag (h.inj b (by simp) b' (List.mem_cons_of_mem b hb') heq)
      simp [htag, hne]
  rw [record, hpath, if_neg (by simp), keep]
  by_cases hmem : b.tag ∈ kept.map TestBlock.tag
  · rw [if_pos hmem]
    by_cases hok : b.status = txt "ok"
    · rw [if_neg (by simp [hok]), if_pos hok, keptTable, treePut_singleton,
        if_pos (hkeys.mpr hmem), hset]
      rfl
    · rw [if_pos ⟨hdata.mpr hmem, hok⟩, if_neg hok]
  · rw [if_neg fun hold => hmem (hdata.mp hold.1), if_neg hmem, keptTable, treePut_singleton,
      if_neg fun hold => hmem (hkeys.mp hold)]
    simp [keptTable]

/-- The blocks are recorded as they are kept. -/
theorem foldlM_record {kept : List TestBlock} (h : Apart (bs ++ kept)) :
    bs.foldlM record (keptTable kept) = some (keptTable (bs.foldl keep kept)) := by
  induction bs generalizing kept with
  | nil => rfl
  | cons b bs ih =>
      have hstep : Apart (b :: kept) := h.mono fun b' hb' => by
        rcases List.mem_cons.mp hb' with rfl | hb' <;> simp [*]
      have hrest : Apart (bs ++ keep kept b) := h.mono fun b' hb' => by
        rcases List.mem_append.mp hb' with hb' | hb'
        · simp [hb']
        · rcases @mem_of_mem_kept [b] kept b' hb' with hb' | hb' <;> simp_all
      rw [List.foldlM_cons, record_keptTable hstep]
      exact ih hrest

section Report

variable {b : TestBlock} {tags : Table} {date : Text → Text}

theorem entry_keptTable {l : List TestBlock} (hb : b ∈ l)
    (h : ∀ b' ∈ l, component b'.tag = component b.tag → b' = b) :
    OrderedTree.entry (l.map fun b' => (component b'.tag, b'.table)) (component b.tag) =
      some b.table := by
  induction l with
  | nil => cases hb
  | cons b₀ l ih =>
      rw [List.map_cons, OrderedTree.entry]
      by_cases heq : component b₀.tag = component b.tag
      · rw [if_pos heq, h b₀ (by simp) heq]
      · rw [if_neg heq]
        refine ih ?_ fun b' hb' => h b' (List.mem_cons_of_mem b₀ hb')
        exact (List.mem_cons.mp hb).resolve_left fun h => heq (by rw [h])

/-- A block that is kept is found under its component. -/
theorem get_keptTable (h : Apart bs) (hb : b ∈ bs.foldl keep []) :
    (keptTable (bs.foldl keep [])).get [component b.tag] = some b.table := by
  have hsub : ∀ b' ∈ bs.foldl keep [], b' ∈ bs := fun b' hb' =>
    (mem_of_mem_kept hb').resolve_left List.not_mem_nil
  have hunique : ∀ b' ∈ bs.foldl keep [], component b'.tag = component b.tag → b' = b :=
    fun b' hb' heq => kept_unique hb hb' (h.inj b (hsub b hb) b' (hsub b' hb') heq)
  rw [keptTable, OrderedTree.get_dir_cons, entry_keptTable hb hunique]
  simp

theorem get_block_keys {c : Text} (hget : tags.get [c] = some b.table) (p : List Text) :
    tags.get (c :: txt "_keys" :: p) = b.keys.get p := by
  have happend := OrderedTree.get_append tags [c] (txt "_keys" :: p)
  rw [hget] at happend
  exact happend.trans (b.get_table_keys p)

theorem TestBlock.keys_dir (b : TestBlock) : ∃ es, b.keys = .dir es := by
  have htag := symText_eq_some.mp b.keys_tag
  rw [keyPath_tag] at htag
  cases hkeys : b.keys with
  | leaf a => simp [hkeys] at htag
  | dir es => exact ⟨es, rfl⟩

/-- The calls for blocks whose tables are found under their components. -/
theorem reportCalls_eq {l : List TestBlock} (hpath : ∀ b ∈ l, keyPath b.tag = [component b.tag])
    (hrts : ∀ b ∈ l, component b.tag ≠ txt "_RTS") (hfits : ∀ b ∈ l, (component b.tag).length ≤ 248)
    (hget : ∀ b ∈ l, tags.get [component b.tag] = some b.table) :
    reportCalls tags (l.map fun b => component b.tag) =
      some (l.map fun b => (b.table, b.keys)) := by
  induction l with
  | nil => rfl
  | cons b l ih =>
      obtain ⟨hpath, hpaths⟩ := List.forall_mem_cons.mp hpath
      obtain ⟨hrts, hrtss⟩ := List.forall_mem_cons.mp hrts
      obtain ⟨hfits, hfitss⟩ := List.forall_mem_cons.mp hfits
      obtain ⟨hget, hgets⟩ := List.forall_mem_cons.mp hget
      obtain ⟨hne, hcomma⟩ := keyPath_component (t := b.tag) (hpath ▸ List.mem_singleton.mpr rfl)
      obtain ⟨es, hes⟩ := b.keys_dir
      have hkeys : tags.get (keyPath (component b.tag ++ txt ",_keys")) = some (.dir es) := by
        rw [keyPath_keys hne hcomma, get_block_keys hget, hes]
        rfl
      have hself : tags.get (keyPath (component b.tag)) = some b.table := by
        rw [keyPath, splitstr_of_forall_not_mem hne fun d hd => by
          simpa using fun h : d = ',' => hcomma (h ▸ hd), hget]
      rw [List.map_cons, reportCalls, if_neg hrts, if_neg (by simp [fitsKey_keys.mpr hfits]),
        hkeys]
      simp only [hself, ih hpaths hrtss hfitss hgets, Option.map_some, List.map_cons, hes]

/-- The date is taken from the first key if the start time is found there. -/
theorem putDate_first {k stime : Text} {ks : List Text}
    (hfits : fitsKey k (txt ",_keys,stime") = true)
    (hget : tags.get (keyPath (k ++ txt ",_keys,stime")) = some (.leaf (some stime))) :
    putDate date tags (k :: ks) = some (putText tags (txt "_RTS,date") (date stime)) := by
  have hstime : symText tags (k ++ txt ",_keys,stime") = some stime := symText_eq_some.mpr hget
  simp [putDate, hfits, hget, hstime, isData]

/-- The date does not change what stands under other keys. -/
theorem get_putDate (tags : Table) (value : Text) {c : Text} (hc : c ≠ txt "_RTS")
    (p : List Text) : (putText tags (txt "_RTS,date") value).get (c :: p) = tags.get (c :: p) := by
  have hpath : keyPath (txt "_RTS,date") = [txt "_RTS", txt "date"] := by decide
  rw [putText, hpath]
  apply treePut_get_other
  · exact fun h => hc (List.cons_prefix_cons.mp h).1.symm
  · exact fun h => hc (List.cons_prefix_cons.mp h).1

theorem callsFor_kept (l : List TestBlock) (tag : Text) :
    callsFor (l.map fun b => (b.table, b.keys)) tag =
      (l.filter fun b => b.tag = tag).map fun b => (b.table, b.keys) := by
  rw [callsFor, List.filter_map]
  congr 1
  refine List.filter_congr fun b _ => ?_
  simp [b.keys_tag]

theorem recorded_kept (h : TagsApart (b :: bs)) :
    (b :: bs).foldlM record (.dir []) = some (keptTable ((b :: bs).foldl keep [])) :=
  @foldlM_record _ [] (by simpa using h.apart_components)

/-- The report calls `tag_report` for each block that is kept. -/
theorem scannerReporter_kept (h : TagsApart (b :: bs)) :
    scannerReporter date (keptTable ((b :: bs).foldl keep [])) =
      some (((b :: bs).foldl keep []).map fun b' => (b'.table, b'.keys)) := by
  have hapart := h.apart_components
  have hsub : ∀ b' ∈ (b :: bs).foldl keep [], b' ∈ b :: bs := fun b' hb' =>
    (mem_of_mem_kept hb').resolve_left List.not_mem_nil
  have hfirst := firstKey_blocks (recorded_kept h)
  rw [hapart.path b (by simp)] at hfirst
  have hget := fun b' => @get_keptTable (b :: bs) b' hapart
  generalize (b :: bs).foldl keep [] = kept at *
  have hkeys : (keptTable kept).keys = kept.map fun b' => component b'.tag := by
    simp [keptTable, OrderedTree.keys]
  -- the first block that is kept has the first tag
  obtain ⟨b₁, rest, rfl⟩ : ∃ b₁ rest, kept = b₁ :: rest := by
    cases kept with
    | nil => simp [keptTable, OrderedTree.keys] at hfirst
    | cons b₁ rest => exact ⟨b₁, rest, rfl⟩
  have hcomp : component b₁.tag = component b.tag := Option.some.inj hfirst
  have hsole : ∀ b' ∈ b₁ :: rest, component b'.tag ≠ txt "_RTS" ∧
      (component b'.tag).length ≤ 248 := by
    intro b' hb'
    obtain ⟨c, hc, hrts, hlen⟩ := h.sole b' (hsub b' hb')
    have hpath := hapart.path b' (hsub b' hb')
    rw [soleComponent_iff.mpr hc] at hpath
    obtain ⟨rfl, -⟩ := List.cons.inj hpath
    exact ⟨hrts, hlen⟩
  have hlength : (component b₁.tag).length ≤ 242 := by
    rw [hcomp]
    exact h.first b rfl _ (soleComponent_iff.mp (hapart.path b (by simp)))
  obtain ⟨stime, hstime⟩ := Option.isSome_iff_exists.mp b₁.keys_stime
  have hstimeGet : (keptTable (b₁ :: rest)).get
      (keyPath (component b₁.tag ++ txt ",_keys,stime")) = some (.leaf (some stime)) := by
    have hpath₁ := hapart.path b₁ (hsub b₁ (by simp))
    obtain ⟨hne, hcomma⟩ := keyPath_component (t := b₁.tag)
      (hpath₁ ▸ List.mem_singleton.mpr rfl)
    have hpath : keyPath (txt "stime") = [txt "stime"] := by decide
    rw [keyPath_stime hne hcomma, get_block_keys (hget b₁ (by simp)), ← hpath]
    exact symText_eq_some.mp hstime
  rw [scannerReporter, hkeys, if_neg (by simp), List.map_cons,
    putDate_first (fitsKey_stime.mpr hlength) hstimeGet]
  refine reportCalls_eq (fun b' hb' => hapart.path b' (hsub b' hb'))
    (fun b' hb' => (hsole b' hb').1) (fun b' hb' => (hsole b' hb').2) fun b' hb' => ?_
  rw [get_putDate _ _ (hsole b' hb').1, hget b' hb']

theorem reportsEveryTag_of_tagsApart (h : TagsApart (b :: bs)) :
    ReportsEveryTag date (b :: bs) := by
  refine ⟨_, _, by rw [recordBlocks_eq]; exact congrArg _ (recorded_kept h),
    scannerReporter_kept h, ?_⟩
  intro b' hb'
  obtain ⟨b₀, hb₀⟩ := Option.isSome_iff_exists.mp (chosen_isSome hb')
  refine ⟨b₀, hb₀, ?_⟩
  rw [callsFor_kept, filter_kept, hb₀]
  rfl

end Report

/-- A block with no more keys than it needs. -/
def smallBlock (tag status : Text) (hne : tag ≠ [])
    (hplain : ∀ c ∈ tag, c ≠ ' ' ∧ c ≠ '\t' ∧ c ≠ '\n' ∧ c ≠ '\x00') : TestBlock where
  tag := tag
  status := status
  results := []
  keys := .dir [(txt "tag", .leaf (some tag)), (txt "stime", .leaf (some (txt "0"))),
    (txt "initiation_status", .leaf (some status))]
  tag_ne := hne
  tag_plain := hplain
  results_dir := by simp
  keys_tag := rfl
  keys_status := rfl
  keys_stime := rfl

end EDDTs.Pan
