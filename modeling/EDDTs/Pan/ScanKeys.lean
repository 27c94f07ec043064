import EDDTs.Pan.ScanTokens

/-!
# Scanning keywords into a table

The keywords of a test go into a table without levels, the first value of a key
staying. A line of keywords as `ltp-pan` writes it puts each of its values there.
-/

namespace EDDTs.Pan

open Library Scan

/-- A table of strings without levels. -/
def flat (kvs : List (Text × Text)) : Table := .dir (kvs.map fun e => (e.1, .leaf (some e.2)))

theorem entry_flat (kvs : List (Text × Text)) (k : Text) :
    OrderedTree.entry (kvs.map fun e => (e.1, (.leaf (some e.2) : Table))) k =
      (kvs.lookup k).map fun v => .leaf (some v) := by
  induction kvs with
  | nil => rfl
  | cons e kvs ih =>
      rw [List.map_cons, OrderedTree.entry, List.lookup_cons]
      by_cases h : e.1 = k
      · simp [h]
      · have hne : (k == e.1) = false := by simpa using Ne.symm h
        rw [if_neg h, ih, hne]

theorem get_flat (kvs : List (Text × Text)) (k : Text) :
    (flat kvs).get [k] = (kvs.lookup k).map fun v => .leaf (some v) := by
  rw [flat, OrderedTree.get_dir_cons, entry_flat]
  cases kvs.lookup k <;> rfl

variable {k : Text}

theorem symText_flat (hk : keyPath k = [k]) (kvs : List (Text × Text)) :
    symText (flat kvs) k = kvs.lookup k := by
  rw [symText, hk, get_flat]
  cases kvs.lookup k <;> rfl

theorem lookup_isSome_iff (kvs : List (Text × Text)) (k : Text) :
    (kvs.lookup k).isSome = true ↔ k ∈ kvs.map Prod.fst := by
  induction kvs with
  | nil => simp
  | cons e kvs ih =>
      rw [List.lookup_cons, List.map_cons, List.mem_cons]
      by_cases h : k = e.1
      · simp [h]
      · have hne : (k == e.1) = false := by simpa using h
        rw [hne]
        simp [ih, h]

/-- The first value of a key stays. -/
theorem putText_flat (hk : keyPath k = [k]) (kvs : List (Text × Text)) (v : Text) :
    putText (flat kvs) k v =
      if k ∈ kvs.map Prod.fst then flat kvs else flat (kvs ++ [(k, v)]) := by
  have hblocked : (flat kvs).blocked [k] = false := by
    rw [flat, OrderedTree.blocked, entry_flat]
    cases kvs.lookup k <;> rfl
  rw [putText, hk, treePut, hblocked, get_flat]
  have hiff := lookup_isSome_iff kvs k
  by_cases hmem : k ∈ kvs.map Prod.fst
  · simp [hmem, hiff.mpr hmem]
  · have hnone : kvs.lookup k = none :=
      Option.not_isSome_iff_eq_none.mp fun h => hmem (hiff.mp h)
    simp only [Bool.false_eq_true, if_false, hnone, Option.map_none, Option.isSome_none,
      Bool.false_and, if_neg hmem]
    rw [flat, OrderedTree.insert, entry_flat, hnone]
    simp [flat, OrderedTree.single]

theorem keyPath_eq_singleton (hne : k ≠ []) (hk : ',' ∉ k) : keyPath k = [k] :=
  splitstr_of_forall_not_mem hne fun c hc => by
    simpa using fun h : c = ',' => hk (h ▸ hc)

theorem Scan.IsKey.keyPath_eq (hk : IsKey k) : keyPath k = [k] :=
  keyPath_eq_singleton hk.1 (hk.not_mem (by decide))

variable {mode : ReporterMode} {extended : Bool} {s : Scanner} {bol : Bool} {q : Token}

/-- A keyword of a test, with the blanks behind it. -/
structure KeyItem where
  key : Text
  value : Text
  quoted : Bool
  sep : Text

namespace KeyItem

def text (i : KeyItem) : Text :=
  i.key ++ '=' :: (if i.quoted then '"' :: (i.value ++ '"' :: i.sep) else i.value ++ i.sep)

/-- The keyword is read back as it was written. -/
structure Good (i : KeyItem) : Prop where
  key : IsKey i.key
  nul : '\x00' ∉ i.value
  quoted : i.quoted = true → IsQuoted i.value
  plain : i.quoted = false → IsValue i.value ∧ (i.value.head? = some '"' → i.value = ['"', '"'])
  sep_ne : i.sep ≠ []
  sep_space : ∀ c ∈ i.sep, isSpace c = true

end KeyItem

theorem takeWhile_plain {w sep : Text} (hw : ∀ c ∈ w, isPlain c = true) (hne : sep ≠ [])
    (hsep : ∀ c ∈ sep, isSpace c = true) (v : Text) :
    (w ++ (sep ++ v)).takeWhile isPlain = w ∧ (w ++ (sep ++ v)).dropWhile isPlain = sep ++ v := by
  obtain ⟨c, sep', rfl⟩ := List.exists_cons_of_ne_nil hne
  have hc : isPlain c = false := by simp [isPlain, hsep c (by simp)]
  constructor
  · rw [List.takeWhile_append_of_pos hw, List.cons_append, List.takeWhile_cons, hc]
    simp
  · rw [List.dropWhile_append_of_pos hw, List.cons_append, List.dropWhile_cons, hc]
    simp

/-- The plain form does not reach behind the quoted one when nothing follows it. -/
theorem takeWhile_quoted {x sep : Text} (hne : sep ≠ []) (hsep : ∀ c ∈ sep, isSpace c = true)
    (v : Text) :
    (('"' :: (x ++ '"' :: (sep ++ v))).takeWhile isPlain).length ≤ x.length + 2 := by
  obtain ⟨c, sep', rfl⟩ := List.exists_cons_of_ne_nil hne
  have hc : isPlain c = false := by simp [isPlain, hsep c (by simp)]
  have hle : ∀ w : Text, ((w ++ c :: (sep' ++ v)).takeWhile isPlain).length ≤ w.length := by
    intro w
    rw [List.takeWhile_append]
    split
    next => simp [hc]
    next => exact (List.takeWhile_prefix isPlain).length_le
  have := hle ('"' :: (x ++ ['"']))
  simpa using this

/-- The state with a table of keys. -/
def Scanner.setKeys (s : Scanner) (kvs : List (Text × Text)) : Scanner :=
  { s with keys := some (flat kvs) }

/-- A new key goes to the end of the table. -/
theorem Scanner.put_setKeys {v : Text} {kvs : List (Text × Text)} (hk : keyPath k = [k])
    (hfresh : k ∉ kvs.map Prod.fst) : (s.setKeys kvs).put k v = s.setKeys (kvs ++ [(k, v)]) := by
  rw [Scanner.put, Scanner.setKeys, Option.map_some, putText_flat hk, if_neg hfresh]
  rfl

section Items

variable {kvs : List (Text × Text)} (hcond : s.cond = .key)

include hcond

/-- A keyword whose value is read back as written. -/
theorem scanFrom_item_key {i : KeyItem} (hi : i.Good) (hfresh : i.key ∉ kvs.map Prod.fst)
    (v : Text) :
    scanFrom mode extended (some (s.setKeys kvs)) bol (i.text ++ v) =
      scanFrom mode extended (some (s.setKeys (kvs ++ [(i.key, i.value)]))) false
        (i.sep ++ v) := by
  rw [← Scanner.put_setKeys hi.key.keyPath_eq hfresh, ← cString_eq hi.nul, KeyItem.text,
    List.append_assoc, List.cons_append, cString_eq hi.nul]
  have hcond' : (s.setKeys kvs).cond = .key := hcond
  cases hquoted : i.quoted with
  | true =>
      have htext : '"' :: (i.value ++ '"' :: i.sep) ++ v =
          '"' :: (i.value ++ '"' :: (i.sep ++ v)) := by simp
      rw [if_pos rfl, htext, scanFrom_quoted hcond' hi.key (hi.quoted hquoted)
        (takeWhile_quoted hi.sep_ne hi.sep_space v), cString_eq hi.nul]
  | false =>
      obtain ⟨hvalue, hhead⟩ := hi.plain hquoted
      obtain ⟨htake, hdrop⟩ := takeWhile_plain hvalue.2 hi.sep_ne hi.sep_space v
      rw [if_neg Bool.false_ne_true, List.append_assoc,
        scanFrom_keyword hcond' hi.key (by rw [htake]; exact hvalue.1), htake, hdrop,
        cString_eq hi.nul]
      intro x y hx hr
      -- a value that begins with a quote is a pair of quotes, with nothing between
      obtain ⟨d, w, hd⟩ := List.exists_cons_of_ne_nil hvalue.1
      rw [hd] at hr hhead
      obtain ⟨rfl, htail⟩ := List.cons.inj hr
      obtain rfl := (List.cons.inj (hhead rfl)).2
      obtain ⟨e, x', rfl⟩ := List.exists_cons_of_ne_nil hx.1
      have he := hx.2 e (by simp)
      rw [← (List.cons.inj htail).1] at he
      exact absurd he (by decide)

/-- The keywords of a list, one after the other. -/
theorem scanFrom_items {items : List KeyItem} (hgood : ∀ i ∈ items, i.Good)
    (hfresh : (kvs.map Prod.fst ++ items.map KeyItem.key).Nodup) {v : Text}
    (hv : NoBlankAhead v) :
    scanFrom mode extended (some (s.setKeys kvs)) bol (items.flatMap KeyItem.text ++ v) =
      scanFrom mode extended
        (some ((s.countLines (items.flatMap KeyItem.sep)).setKeys
          (kvs ++ items.map fun i => (i.key, i.value))))
        (items.foldl (fun b i => Flex.atBol b i.sep) bol) v := by
  induction items generalizing s bol kvs with
  | nil =>
      rw [List.map_nil, List.append_nil]
      rfl
  | cons i items ih =>
      have hi : i.Good := hgood i (by simp)
      have hnew : i.key ∉ kvs.map Prod.fst := by
        intro hmem
        have hdisjoint := (List.nodup_append.mp hfresh).2.2
        exact hdisjoint i.key hmem i.key (by simp) rfl
      have hahead : NoBlankAhead (items.flatMap KeyItem.text ++ v) := by
        cases items with
        | nil => exact hv
        | cons j items =>
            have hj : j.Good := hgood j (by simp)
            obtain ⟨d, k, hk⟩ := List.exists_cons_of_ne_nil hj.key.1
            have hd := isKeyChar_not_space (hj.key.2 d (by simp [hk]))
            rw [List.flatMap_cons, KeyItem.text, hk]
            exact ⟨d, _, hd, rfl⟩
      have hfresh' : ((kvs ++ [(i.key, i.value)]).map Prod.fst ++
          items.map KeyItem.key).Nodup := by
        simpa using hfresh
      have hcond' : (s.setKeys (kvs ++ [(i.key, i.value)])).cond = .key := hcond
      rw [List.flatMap_cons, List.append_assoc, scanFrom_item_key hcond hi hnew,
        scanFrom_keySpace hcond' hi.sep_ne hi.sep_space hahead]
      have hrest := @ih (s.countLines i.sep) (Flex.atBol false i.sep) _ hcond
        (fun j hj => hgood j (List.mem_cons_of_mem i hj)) hfresh'
      have hbol : Flex.atBol false i.sep = Flex.atBol bol i.sep := by
        obtain ⟨w', e, he⟩ := List.eq_nil_or_concat' i.sep |>.resolve_left hi.sep_ne
        simp [Flex.atBol, he]
      have hlines : (s.countLines i.sep).countLines (items.flatMap KeyItem.sep) =
          s.countLines ((i :: items).flatMap KeyItem.sep) := by
        simp [Scanner.countLines, Nat.add_assoc]
      rw [hlines, List.append_assoc, List.singleton_append, hbol] at hrest
      rw [hbol]
      exact hrest

end Items

end EDDTs.Pan
