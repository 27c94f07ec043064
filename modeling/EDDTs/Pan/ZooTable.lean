import Mathlib.Order.Bounds.Basic
import Mathlib.Order.MinMax
import EDDTs.Pan.Zoo

/-!
# The active file as a table of processes

What the active file is for: a table of the processes that are being run. A
process that starts takes the first free slot, and the first slot with its pid
is freed when it ends. The lines of the file show the slots of this table after
any sequence of calls.
-/

namespace EDDTs.Pan

open Library
open scoped List

/-- A process that is being run. -/
structure ZooEntry where
  pid : Nat
  tag : Text
  cmdline : Text
  deriving DecidableEq, Repr

/-- The characters of a C string without newlines. -/
def IsPlain (t : Text) : Prop := ∀ c ∈ t, c ≠ '\n' ∧ c ≠ '\x00'

instance (t : Text) : Decidable (IsPlain t) := decidableForallMem t _

/-- The pid is a `pid_t` and the texts have no newlines. -/
structure ZooEntry.Plain (e : ZooEntry) : Prop where
  pid_lt : e.pid < 2 ^ 31
  tag : IsPlain e.tag
  cmdline : IsPlain e.cmdline

/-- The first 79 characters of the entry, padded with blanks. -/
def ZooEntry.line (e : ZooEntry) : Text :=
  padRight 79 ((entryText e.pid e.tag e.cmdline).take 79)

/-- The slots of the table, some of them free. -/
abbrev ZooTable := List (Option ZooEntry)

def hasPid (p : Nat) (slot : Option ZooEntry) : Bool := slot.any fun e => e.pid = p

def ZooTable.apply (table : ZooTable) : ZooOp → ZooTable
  | .mark p tag cmdline => firstFit Option.isNone (some ⟨p, tag, cmdline⟩) table
  | .clear p => (changeFirst (hasPid p) (fun _ => none) table).getD table

/-- The table after a sequence of calls on an empty file. -/
def zooTable (ops : List ZooOp) : ZooTable := ops.foldl ZooTable.apply []

/-- The entries that were marked and not yet cleared. -/
def outstanding (ops : List ZooOp) : List ZooEntry := items id (zooTable ops)

/-- A call with a `pid_t` and with texts without newlines. -/
def ZooOp.Plain : ZooOp → Prop
  | .mark p tag cmdline => ZooEntry.Plain ⟨p, tag, cmdline⟩
  | .clear _ => True

theorem zooTable_concat (ops : List ZooOp) (op : ZooOp) :
    zooTable (ops ++ [op]) = (zooTable ops).apply op := by
  simp [zooTable]

theorem zooRun_concat (ops : List ZooOp) (op : ZooOp) :
    zooRun (ops ++ [op]) = op.apply (zooRun ops) := by
  simp [zooRun]

/-! ### What is outstanding -/

theorem isNone_iff (slot : Option ZooEntry) : slot.isNone = true ↔ id slot = none :=
  Option.isNone_iff_eq_none

theorem outstanding_mark (ops : List ZooOp) (p : Nat) (tag cmdline : Text) :
    outstanding (ops ++ [.mark p tag cmdline]) ~ ⟨p, tag, cmdline⟩ :: outstanding ops := by
  rw [outstanding, zooTable_concat]
  exact items_firstFit isNone_iff rfl (zooTable ops)

theorem exists_outstanding_iff (ops : List ZooOp) (p : Nat) :
    (∃ e ∈ outstanding ops, e.pid = p) ↔
      changeFirst (hasPid p) (fun _ => none) (zooTable ops) ≠ none := by
  rw [ne_eq, changeFirst_eq_none]
  constructor
  · rintro ⟨e, he, hpid⟩ hall
    obtain ⟨slot, hslot, rfl⟩ := List.mem_filterMap.mp he
    simpa [hasPid, hpid] using hall _ hslot
  · intro h
    push Not at h
    obtain ⟨slot, hslot, hpid⟩ := h
    cases slot with
    | none => cases hpid rfl
    | some e => exact ⟨e, List.mem_filterMap.mpr ⟨_, hslot, rfl⟩, by simpa [hasPid] using hpid⟩

variable {ls : List Text} {ops : List ZooOp} {table : ZooTable}

/-- A call of `zoo_clear` gives up one entry with the pid. -/
theorem outstanding_clear {p : Nat} (h : ∃ e ∈ outstanding ops, e.pid = p) :
    ∃ e, e.pid = p ∧ e :: outstanding (ops ++ [.clear p]) ~ outstanding ops := by
  obtain ⟨table, htable⟩ := Option.ne_none_iff_exists'.mp ((exists_outstanding_iff ops p).mp h)
  obtain ⟨a, slot, b, ha, hb, hpid, -⟩ := changeFirst_eq_some htable
  cases slot with
  | none => cases hpid
  | some e =>
      refine ⟨e, by simpa [hasPid] using hpid, ?_⟩
      have happly : zooTable (ops ++ [.clear p]) = a ++ none :: b := by
        simp [zooTable_concat, ZooTable.apply, htable, hb]
      rw [outstanding, outstanding, happly, ha]
      exact items_give_up id rfl rfl a b

/-- The table is as long as it had to be. -/
theorem length_zooTable_concat (ops : List ZooOp) (op : ZooOp) :
    (zooTable (ops ++ [op])).length =
      max (zooTable ops).length (outstanding (ops ++ [op])).length := by
  cases op with
  | mark p tag cmdline =>
      rw [(outstanding_mark ops p tag cmdline).length_eq, zooTable_concat]
      exact length_firstFit isNone_iff _ (zooTable ops)
  | clear p =>
      have hlength : (zooTable (ops ++ [.clear p])).length = (zooTable ops).length := by
        rw [zooTable_concat, ZooTable.apply]
        cases h : changeFirst (hasPid p) (fun _ => none) (zooTable ops) with
        | none => rfl
        | some table =>
            obtain ⟨a, slot, b, ha, rfl, -, -⟩ := changeFirst_eq_some h
            simp [ha]
      have hle := length_items_le id (zooTable (ops ++ [.clear p]))
      rw [hlength] at hle ⊢
      exact (max_eq_left hle).symm

/-- The table has as many slots as processes were ever run at the same time. -/
theorem isGreatest_length_zooTable (ops : List ZooOp) :
    IsGreatest {n | ∃ before, before <+: ops ∧ (outstanding before).length = n}
      (zooTable ops).length := by
  induction ops using List.reverseRecOn with
  | nil =>
      constructor
      · exact ⟨[], List.prefix_rfl, rfl⟩
      · rintro n ⟨before, hbefore, rfl⟩
        rw [List.prefix_nil.mp hbefore]
        rfl
  | append_singleton ops op ih =>
      rw [length_zooTable_concat]
      obtain ⟨⟨before, hbefore, hlength⟩, hupper⟩ := ih
      constructor
      · rcases max_choice (zooTable ops).length (outstanding (ops ++ [op])).length with h | h
        · exact ⟨before, hbefore.trans (List.prefix_append ops [op]), hlength.trans h.symm⟩
        · exact ⟨ops ++ [op], List.prefix_rfl, h.symm⟩
      · rintro n ⟨before', hbefore', rfl⟩
        rcases List.prefix_concat_iff.mp hbefore' with rfl | hbefore'
        · exact le_max_right _ _
        · exact le_max_of_le_left (hupper ⟨before', hbefore', rfl⟩)

/-! ### The line of an entry -/

theorem IsPlain.not_mem {t : Text} (h : IsPlain t) : '\n' ∉ t ∧ '\x00' ∉ t :=
  ⟨fun hmem => (h _ hmem).1 rfl, fun hmem => (h _ hmem).2 rfl⟩

namespace ZooEntry.Plain

variable {e : ZooEntry} (h : e.Plain)

include h

theorem not_mem_entryText {c : Char} (hc : c = '\n' ∨ c = '\x00') :
    c ∉ entryText e.pid e.tag e.cmdline := by
  have hnat : c ∉ natText e.pid := not_mem_natText (by rcases hc with rfl | rfl <;> rfl) _
  have htag : c ∉ e.tag := by
    rcases hc with rfl | rfl
    · exact h.tag.not_mem.1
    · exact h.tag.not_mem.2
  have hcmdline : c ∉ e.cmdline := by
    rcases hc with rfl | rfl
    · exact h.cmdline.not_mem.1
    · exact h.cmdline.not_mem.2
  have hcomma : c ≠ ',' := by rcases hc with rfl | rfl <;> decide
  simp [entryText, hnat, htag, hcmdline, hcomma]

theorem isZooLine : IsZooLine e.line := by
  have hline : e.line = entryLine 79 (entryText e.pid e.tag e.cmdline) := rfl
  rw [hline]
  apply isZooLine_entryLine
  · exact h.not_mem_entryText (Or.inl rfl)
  · exact h.not_mem_entryText (Or.inr rfl)

/-- The pid and the comma behind it are not cut off. -/
theorem line_eq : ∃ rest, e.line = natText e.pid ++ ',' :: rest := by
  have hdigits : (natText e.pid).length ≤ 10 :=
    (Nat.length_toDigits_le_iff (by decide) (by decide)).mpr (h.pid_lt.trans (by decide))
  have htake : (entryText e.pid e.tag e.cmdline).take 79 =
      natText e.pid ++ ',' :: (e.tag ++ ',' :: e.cmdline).take (78 - (natText e.pid).length) := by
    rw [entryText, List.take_append, List.take_of_length_le (by omega),
      show 79 - (natText e.pid).length = (78 - (natText e.pid).length) + 1 by omega]
    rfl
  rw [line, padRight, htake, List.append_assoc]
  exact ⟨_, rfl⟩

theorem atoi_line : atoi e.line = e.pid := by
  obtain ⟨rest, hrest⟩ := h.line_eq
  rw [hrest]
  exact atoi_natText (by decide) e.pid rest

theorem isFreeLine_line : isFreeLine e.line = false := by
  obtain ⟨rest, hrest⟩ := h.line_eq
  obtain ⟨d, ds, hcons⟩ : ∃ d ds, natText e.pid = d :: ds :=
    List.exists_cons_of_ne_nil Nat.toDigits_ne_nil
  have hd : d.isDigit = true := isDigit_of_mem_natText (hcons ▸ List.mem_cons_self)
  rw [hrest, hcons]
  apply decide_eq_false
  intro hhash
  obtain rfl : d = '#' := by simpa using hhash
  cases hd

end ZooEntry.Plain

/-! ### The lines show the table -/

/-- The line of a slot. -/
def ShowsSlot : Option ZooEntry → Text → Prop
  | none, l => IsZooLine l ∧ isFreeLine l = true
  | some e, l => e.Plain ∧ l = e.line

namespace ShowsSlot

variable {slot : Option ZooEntry} {l : Text} (h : ShowsSlot slot l)

include h

theorem isZooLine : IsZooLine l := by
  cases slot with
  | none => exact h.1
  | some e =>
      obtain ⟨he, rfl⟩ := h
      exact he.isZooLine

theorem isFreeLine_eq : slot.isNone = isFreeLine l := by
  cases slot with
  | none => exact h.2.symm
  | some e =>
      obtain ⟨he, rfl⟩ := h
      exact he.isFreeLine_line.symm

theorem namesPid_eq (p : Nat) : hasPid p slot = namesPid p l := by
  cases slot with
  | none => simp [hasPid, namesPid, h.2]
  | some e =>
      obtain ⟨he, rfl⟩ := h
      simp [hasPid, namesPid, he.isFreeLine_line, he.atoi_line]

theorem freed : ShowsSlot none (freeLine l) := ⟨h.isZooLine.freed, rfl⟩

end ShowsSlot

theorem isZooLine_of_shows (h : List.Forall₂ ShowsSlot table ls) : ∀ l ∈ ls, IsZooLine l := by
  induction h with
  | nil => simp
  | cons hslot _ ih => exact List.forall_mem_cons.mpr ⟨hslot.isZooLine, ih⟩

/-- A call on the file does what it does to the table. -/
theorem shows_apply (h : List.Forall₂ ShowsSlot table ls) {op : ZooOp} (hop : op.Plain) :
    ∃ ls', op.apply (unlines ls) = unlines ls' ∧ List.Forall₂ ShowsSlot (table.apply op) ls' := by
  have hls := isZooLine_of_shows h
  cases op with
  | mark p tag cmdline =>
      have hline : ZooEntry.line ⟨p, tag, cmdline⟩ =
          entryLine 79 ((entryText p tag cmdline).take 79) := by
        simp [ZooEntry.line, entryLine, List.take_take]
      have hnew : ShowsSlot (some ⟨p, tag, cmdline⟩)
          (entryLine 79 ((entryText p tag cmdline).take 79)) := ⟨hop, hline.symm⟩
      exact ⟨_, zooMark_unlines _ hls,
        firstFit_forall₂ (fun _ _ hslot => hslot.isFreeLine_eq) hnew h⟩
  | clear p =>
      rw [ZooOp.apply, zooClear_unlines p hls, ZooTable.apply]
      rcases changeFirst_forall₂ (fun _ _ hslot => hslot.namesPid_eq p) (fun _ => none) freeLine h
        with ⟨htable, hlines⟩ | ⟨a, slot, b, a', l, b', -, -, hslot, -, -, ha, hb, htable, hlines⟩
      · rw [htable, hlines]
        exact ⟨ls, rfl, h⟩
      · rw [htable, hlines]
        exact ⟨_, rfl, List.rel_append ha (.cons hslot.freed hb)⟩

/-- After any sequence of calls the lines of the file show the table. -/
theorem zooRun_shows (h : ∀ op ∈ ops, op.Plain) :
    ∃ ls, zooRun ops = unlines ls ∧ List.Forall₂ ShowsSlot (zooTable ops) ls := by
  induction ops using List.reverseRecOn with
  | nil => exact ⟨[], rfl, .nil⟩
  | append_singleton ops op ih =>
      obtain ⟨ls, hrun, hshows⟩ := ih fun op' hop' => h op' (by simp [hop'])
      obtain ⟨ls', happly, hshows'⟩ := shows_apply hshows (h op (by simp))
      exact ⟨ls', by rw [zooRun_concat, hrun, happly], by rw [zooTable_concat]; exact hshows'⟩

/-- The lines that are not free. -/
def liveLines (file : Text) : List Text := (zooLines file).filter fun l => !isFreeLine l

theorem liveLines_of_shows (h : List.Forall₂ ShowsSlot table ls) :
    ls.filter (fun l => !isFreeLine l) = (items id table).map ZooEntry.line := by
  induction h with
  | nil => rfl
  | @cons slot l table ls hslot _ ih =>
      rw [List.filter_cons, items_cons, ih, ← hslot.isFreeLine_eq]
      cases slot with
      | none => rfl
      | some e =>
          obtain ⟨-, rfl⟩ := hslot
          rfl

theorem atoi_of_shows (h : List.Forall₂ ShowsSlot table ls) :
    ((items id table).map ZooEntry.line).map atoi = (items id table).map fun e => (e.pid : Int) := by
  induction h with
  | nil => rfl
  | @cons slot l table ls hslot _ ih =>
      rw [items_cons, List.map_append, List.map_append, List.map_append, ih]
      cases slot with
      | none => rfl
      | some e =>
          obtain ⟨he, -⟩ := hslot
          simp [he.atoi_line]

theorem zooLines_zooRun (hrun : zooRun ops = unlines ls)
    (h : List.Forall₂ ShowsSlot (zooTable ops) ls) : zooLines (zooRun ops) = ls := by
  rw [hrun]
  exact zooLines_unlines (isZooLine_of_shows h)

/-- `zoo_clear` on a file that shows the table: it finds the first slot with the
pid, if there is one, and changes its line only. -/
theorem zooClear_zooRun (hrun : zooRun ops = unlines ls)
    (h : List.Forall₂ ShowsSlot (zooTable ops) ls) (p : Nat) :
    (zooClear (zooRun ops) p = (1, zooRun ops) ∧ ¬ ∃ e ∈ outstanding ops, e.pid = p) ∨
      ∃ e a b, ls = a ++ e.line :: b ∧ e.pid = p ∧ (∀ l ∈ a, namesPid p l = false) ∧
        e :: outstanding (ops ++ [.clear p]) ~ outstanding ops ∧
        zooClear (zooRun ops) p = (0, unlines (a ++ freeLine e.line :: b)) := by
  have hclear := zooClear_unlines p (isZooLine_of_shows h)
  have hexists := exists_outstanding_iff ops p
  have hlater : zooTable (ops ++ [.clear p]) = _ := zooTable_concat ops (.clear p)
  rcases changeFirst_forall₂ (fun _ _ hslot => hslot.namesPid_eq p) (fun _ => none) freeLine h
    with ⟨htable, hlines⟩ | ⟨a, slot, b, a', l, b', ha, hb, hslot, hpid, hfirst, -, -, htable, hlines⟩
  · left
    rw [hrun, hclear, hlines, hexists, htable]
    exact ⟨rfl, fun hne => hne rfl⟩
  · right
    cases slot with
    | none => cases hpid
    | some e =>
        obtain ⟨-, rfl⟩ := hslot
        refine ⟨e, a', b', hb, by simpa [hasPid] using hpid, hfirst, ?_, ?_⟩
        · simp only [ZooTable.apply, htable, Option.getD_some] at hlater
          rw [outstanding, outstanding, hlater, ha]
          exact items_give_up id rfl rfl a b
        · rw [hrun, hclear, hlines]

/-- After any sequence of calls on an empty file: its lines have 79 characters; the
lines that are not free show the entries that are outstanding; `zoo_clear` frees the
first line with the pid and changes nothing else, or there is none; and the file has
as many lines as entries were ever outstanding at the same time. -/
theorem zooRun_spec (ops : List ZooOp) (hops : ∀ op ∈ ops, op.Plain) :
    zooRun ops = unlines (zooLines (zooRun ops)) ∧
      (∀ l ∈ zooLines (zooRun ops), l.length = 79 ∧ '\n' ∉ l) ∧
      liveLines (zooRun ops) ~ (outstanding ops).map ZooEntry.line ∧
      (∀ p,
        ((zooClear (zooRun ops) p).1 = 0 ↔ ∃ e ∈ outstanding ops, e.pid = p) ∧
        ((zooClear (zooRun ops) p).1 ≠ 0 → zooClear (zooRun ops) p = (1, zooRun ops)) ∧
        ((zooClear (zooRun ops) p).1 = 0 → ∃ e a b,
          zooLines (zooRun ops) = a ++ e.line :: b ∧ e.pid = p ∧
          (∀ l ∈ a, namesPid p l = false) ∧
          e :: outstanding (ops ++ [.clear p]) ~ outstanding ops ∧
          (zooClear (zooRun ops) p).2 = unlines (a ++ freeLine e.line :: b))) ∧
      IsGreatest {n | ∃ before, before <+: ops ∧ (outstanding before).length = n}
        (zooLines (zooRun ops)).length := by
  obtain ⟨ls, hrun, hshows⟩ := zooRun_shows hops
  have hls := isZooLine_of_shows hshows
  have hlines := zooLines_zooRun hrun hshows
  have hlength : ls.length = (zooTable ops).length := hshows.length_eq.symm
  refine ⟨by rw [hlines, hrun], ?_, ?_, ?_, ?_⟩
  · rw [hlines]
    exact fun l hl => ⟨(hls l hl).width, (hls l hl).no_newline⟩
  · rw [liveLines, hlines, liveLines_of_shows hshows]
    exact List.Perm.refl _
  · intro p
    rcases zooClear_zooRun hrun hshows p with ⟨hclear, hnone⟩ |
      ⟨e, a, b, hsplit, hpid, hfirst, hperm, hclear⟩
    · rw [hclear]
      exact ⟨iff_of_false (by simp) hnone, fun _ => rfl, fun h => absurd h (by simp)⟩
    · have hmem : e ∈ outstanding ops := hperm.subset List.mem_cons_self
      rw [hclear, hlines]
      exact ⟨iff_of_true rfl ⟨e, hmem, hpid⟩, fun h => absurd rfl h,
        fun _ => ⟨e, a, b, hsplit, hpid, hfirst, hperm, rfl⟩⟩
  · rw [hlines, hlength]
    exact isGreatest_length_zooTable ops

/-- Two processes, one after the other. -/
def twoInTurn : List ZooOp :=
  [.mark 7 (txt "a") (txt "sleep 100"), .clear 7, .mark 12 (txt "b") (txt "true")]

/-- They share a line, which keeps nothing of the first entry. -/
theorem zooRun_spec_twoInTurn :
    zooLines (zooRun twoInTurn) = [padRight 79 (txt "12,b,true")] ∧
      IsGreatest {n | ∃ before, before <+: twoInTurn ∧ (outstanding before).length = n} 1 := by
  have hops : ∀ op ∈ twoInTurn, op.Plain := by
    intro op hop
    simp only [twoInTurn, List.mem_cons, List.not_mem_nil, or_false] at hop
    rcases hop with rfl | rfl | rfl
    · exact ⟨by decide, by decide, by decide⟩
    · exact trivial
    · exact ⟨by decide, by decide, by decide⟩
  have hlines : zooLines (zooRun twoInTurn) = [padRight 79 (txt "12,b,true")] := by decide +kernel
  have hspec := (zooRun_spec _ hops).2.2.2.2
  rw [hlines] at hspec
  exact ⟨hlines, hspec⟩

end EDDTs.Pan
