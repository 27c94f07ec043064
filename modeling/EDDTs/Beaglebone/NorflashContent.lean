import Mathlib.Data.Nat.Count
import EDDTs.Beaglebone.NorflashVerdict

/-!
# The flash content after the NOR flash test

The test on a device that stores what is written, with any sequence of full, short and
failing transfers. When it reports `TPASS` the first blocks hold the pattern, as many as
there were successful writes, and the rest of the four is erased: what was there before is
not written back.
-/

namespace EDDTs.Beaglebone

open Library

/-- How the calls on the device go, in their order. A transfer fails, or moves at most so
many bytes. -/
structure FlashAnswers where
  reads : ℕ → Option ℕ
  erases : ℕ → Bool
  writes : ℕ → Option ℕ

/-- The device and the calls that were made. -/
structure FlashFile where
  file : ByteFile UInt8
  calls : Calls := {}

/-- The device with a content. -/
def flash (a : FlashAnswers) : Mtd FlashFile where
  read n s :=
    let out := s.file.read n (a.reads s.calls.reads)
    ((a.reads s.calls.reads).map fun _ => out.1.2,
      ⟨out.2, { s.calls with reads := s.calls.reads + 1 }⟩)
  read_le n s data h := by
    obtain ⟨k, hk, rfl⟩ := Option.map_eq_some_iff.mp h
    rw [hk]
    exact (length_slice_le _ _ _).trans (Nat.min_le_right k n)
  erase start length s :=
    let calls := { s.calls with erases := s.calls.erases + 1 }
    if a.erases s.calls.erases then
      (0, ⟨{ s.file with content := splice s.file.content start (List.replicate length 0xFF) },
        calls⟩)
    else (-1, ⟨s.file, calls⟩)
  write data s :=
    let out := s.file.write data (a.writes s.calls.writes)
    ((a.writes s.calls.writes).map fun _ => out.1.toNat,
      ⟨out.2, { s.calls with writes := s.calls.writes + 1 }⟩)
  write_le data s k h := by
    obtain ⟨m, hm, rfl⟩ := Option.map_eq_some_iff.mp h
    rw [hm]
    exact List.length_take_le' _ _
  rewind s := { s with file := s.file.rewind }

/-- The transfer fails or can be full. -/
def Unshort (E : EraseSize) (k : Option ℕ) : Prop := ∀ m, k = some m → E.size ≤ m

/-- How many of the first `n` transfers, counted from the call `i`, do not fail. -/
def succeeded (f : ℕ → Option ℕ) (i n : ℕ) : ℕ := Nat.count (fun j => (f (i + j)).isSome) n

/-- The four blocks, of which the first `w` hold the pattern and the others are erased. -/
def programmed (E : EraseSize) (w : ℕ) : List UInt8 :=
  List.replicate (w * E.size) 0xAA ++ List.replicate ((4 - w) * E.size) 0xFF

section Calls

variable {E : EraseSize} {a : FlashAnswers} {s : FlashFile}

theorem succeeded_le (f : ℕ → Option ℕ) (i n : ℕ) : succeeded f i n ≤ n :=
  Nat.count_le _

theorem succeeded_succ (f : ℕ → Option ℕ) (i n : ℕ) :
    succeeded f i (n + 1) = succeeded f i n + if (f (i + n)).isSome then 1 else 0 :=
  Nat.count_succ _ _

/-- A block that is reached within the four ends within them. -/
theorem block_room {w : ℕ} (hw : w < 4) {n : ℕ} (hroom : 4 * E.size ≤ n) :
    w * E.size + E.size ≤ n := by
  have hblock := Nat.mul_le_mul_right E.size (Nat.succ_le_of_lt hw)
  rw [Nat.succ_mul] at hblock
  exact hblock.trans hroom

theorem goesOn_min_iff {k : Option ℕ} : GoesOn E (k.map (min · E.size)) ↔ Unshort E k := by
  cases k with
  | none => exact iff_of_true (Or.inl rfl) nofun
  | some m => simp [GoesOn, Unshort]

theorem flash_erase (start : ℕ) :
    ((flash a).erase start E.size s).1 = 0 ↔ a.erases s.calls.erases = true := by
  simp only [flash]
  cases a.erases s.calls.erases <;> simp

theorem flash_erased (start : ℕ) (h : a.erases s.calls.erases = true) :
    ((flash a).erase start E.size s).2 =
      ⟨⟨splice s.file.content start (List.replicate E.size 0xFF), s.file.offset⟩,
        { s.calls with erases := s.calls.erases + 1 }⟩ := by
  simp only [flash, h, if_true]

variable (hroom : s.file.offset + E.size ≤ s.file.content.length)

include hroom

theorem flash_read_length :
    ((flash a).read E.size s).1.map List.length =
      (a.reads s.calls.reads).map (min · E.size) := by
  simp only [flash]
  cases hk : a.reads s.calls.reads with
  | none => rfl
  | some m =>
      have hlength : (slice s.file.content s.file.offset (min m E.size)).length = min m E.size :=
        length_slice (by omega)
      exact congrArg some hlength

/-- A read that is not short: what it returns, and the device after it. -/
theorem flash_read (hk : Unshort E (a.reads s.calls.reads)) :
    (flash a).read E.size s =
      ((a.reads s.calls.reads).map fun _ => slice s.file.content s.file.offset E.size,
        ⟨⟨s.file.content,
            s.file.offset + if (a.reads s.calls.reads).isSome then E.size else 0⟩,
          { s.calls with reads := s.calls.reads + 1 }⟩) := by
  simp only [flash]
  cases hm : a.reads s.calls.reads with
  | none => rfl
  | some m =>
      have hfull : min m E.size = E.size := Nat.min_eq_right (hk m hm)
      simp only [ByteFile.read, hfull, length_slice hroom, Option.map_some, Option.isSome_some,
        if_true]

theorem flash_write_length :
    ((flash a).write (pattern E) s).1 = (a.writes s.calls.writes).map (min · E.size) := by
  simp only [flash]
  cases hk : a.writes s.calls.writes with
  | none => rfl
  | some m =>
      simp only [ByteFile.write, pattern, Option.map_some, Int.toNat_natCast, List.length_take,
        List.length_replicate, Option.some.injEq]
      omega

/-- A write that is not short stores the pattern, or nothing when it fails. -/
theorem flash_write (hk : Unshort E (a.writes s.calls.writes)) :
    ((flash a).write (pattern E) s).2 =
      ⟨if (a.writes s.calls.writes).isSome then
          ⟨splice s.file.content s.file.offset (pattern E), s.file.offset + E.size⟩
        else s.file, { s.calls with writes := s.calls.writes + 1 }⟩ := by
  simp only [flash]
  cases hm : a.writes s.calls.writes with
  | none => rfl
  | some m =>
      have hlength : (pattern E).length = E.size := List.length_replicate
      have hfull := hk m hm
      have htake : (pattern E).take (min m (s.file.content.length - s.file.offset)) = pattern E :=
        List.take_of_length_le (by omega)
      simp only [ByteFile.write, htake, hlength, Option.isSome_some, if_true]

end Calls

section Loops

variable {E : EraseSize} {a : FlashAnswers} {s : FlashFile}

/-- The loops that read leave the content alone. -/
theorem flash_afterReads (hstart : s.file.offset = 0)
    (hroom : 4 * E.size ≤ s.file.content.length) {n : ℕ} (hn : n ≤ 4)
    (hreads : ∀ k < n, Unshort E (a.reads (s.calls.reads + k))) :
    afterReads (flash a) E n s =
      ⟨⟨s.file.content, succeeded a.reads s.calls.reads n * E.size⟩,
        { s.calls with reads := s.calls.reads + n }⟩ := by
  induction n with
  | zero =>
      obtain ⟨⟨content, offset⟩, calls⟩ := s
      subst hstart
      rw [succeeded, Nat.count_zero, Nat.zero_mul]
      rfl
  | succ n ih =>
      have hbefore := ih (by omega) fun k hk => hreads k (by omega)
      have hfits := block_room (lt_of_le_of_lt (succeeded_le a.reads s.calls.reads n) hn) hroom
      have hread := flash_read (s := afterReads (flash a) E n s) (E := E) (a := a)
        (by rw [hbefore]; exact hfits) (by rw [hbefore]; exact hreads n (by omega))
      rw [afterReads, hread, hbefore, succeeded_succ]
      cases (a.reads (s.calls.reads + n)).isSome <;> simp [Nat.add_mul, Nat.add_assoc]

/-- Two conditions on the turns of a loop agree when they agree at every turn that is reached. -/
theorem forall_lt_congr {P Q : ℕ → Prop} {n : ℕ} (h : ∀ m < n, (∀ k < m, Q k) → (P m ↔ Q m)) :
    (∀ k < n, P k) ↔ ∀ k < n, Q k := by
  constructor
  · intro hP k
    induction k using Nat.strong_induction_on with
    | _ k ih =>
        intro hk
        exact (h k hk fun j hj => ih j hj (hj.trans hk)).mp (hP k hk)
  · intro hQ k hk
    exact (h k hk fun j hj => hQ j (hj.trans hk)).mpr (hQ k hk)

theorem flash_readsOk_iff (hstart : s.file.offset = 0)
    (hroom : 4 * E.size ≤ s.file.content.length) :
    ReadsOk (flash a) E 4 s ↔ ∀ k < 4, Unshort E (a.reads (s.calls.reads + k)) := by
  apply forall_lt_congr
  intro n hn hreads
  have hfits := block_room (lt_of_le_of_lt (succeeded_le a.reads s.calls.reads n) hn) hroom
  rw [flash_afterReads hstart hroom hn.le hreads, flash_read_length hfits, goesOn_min_iff]

/-- After the first `n` blocks were erased. -/
theorem flash_afterErases {n : ℕ} (herases : ∀ k < n, a.erases (s.calls.erases + k) = true) :
    afterErases (flash a) E n s =
      ⟨⟨List.replicate (n * E.size) 0xFF ++ s.file.content.drop (n * E.size), s.file.offset⟩,
        { s.calls with erases := s.calls.erases + n }⟩ := by
  induction n with
  | zero =>
      rw [Nat.zero_mul]
      rfl
  | succ n ih =>
      have hbefore := ih fun k hk => herases k (by omega)
      have herased := flash_erased (s := afterErases (flash a) E n s) (E := E) (a := a) (n * E.size)
        (by rw [hbefore]; exact herases n (by omega))
      rw [afterErases, herased, hbefore, splice_append List.length_replicate,
        List.replicate_append_replicate, List.length_replicate, List.drop_drop, ← Nat.succ_mul]
      rfl

theorem flash_erasesOk_iff :
    ErasesOk (flash a) E 4 s ↔ ∀ k < 4, a.erases (s.calls.erases + k) = true := by
  apply forall_lt_congr
  intro n _ herases
  rw [flash_erase, flash_afterErases herases]

/-- Storing the pattern in the first block that is erased. -/
theorem splice_programmed {w : ℕ} (hw : w < 4) (rest : List UInt8) :
    splice (programmed E w ++ rest) (w * E.size) (pattern E) = programmed E (w + 1) ++ rest := by
  have herased : (4 - w) * E.size = E.size + (4 - (w + 1)) * E.size := by
    rw [show 4 - w = 1 + (4 - (w + 1)) by omega, Nat.add_mul, Nat.one_mul]
  have hdrop : (List.replicate ((4 - w) * E.size) (0xFF : UInt8) ++ rest).drop (pattern E).length =
      List.replicate ((4 - (w + 1)) * E.size) 0xFF ++ rest := by
    rw [herased, List.replicate_add, List.append_assoc, pattern, List.length_replicate,
      List.drop_left' List.length_replicate]
  rw [programmed, List.append_assoc, splice_append List.length_replicate, hdrop,
    ← List.append_assoc, pattern, List.replicate_append_replicate, ← Nat.succ_mul]
  rfl

theorem length_programmed {w : ℕ} (hw : w ≤ 4) : (programmed E w).length = 4 * E.size := by
  rw [programmed, List.length_append, List.length_replicate, List.length_replicate, ← Nat.add_mul,
    Nat.add_sub_cancel' hw]

theorem four_blocks_le {w : ℕ} (hw : w ≤ 4) (rest : List UInt8) :
    4 * E.size ≤ (programmed E w ++ rest).length := by
  rw [List.length_append, length_programmed hw]
  exact Nat.le_add_right _ _

variable {rest : List UInt8}

theorem programmed_room {w : ℕ} (hw : w < 4) :
    w * E.size + E.size ≤ (programmed E w ++ rest).length :=
  block_room hw (four_blocks_le hw.le rest)

/-- After `n` writes to erased blocks. -/
theorem flash_afterWrites (hfile : s.file = ⟨programmed E 0 ++ rest, 0⟩) {n : ℕ} (hn : n ≤ 4)
    (hwrites : ∀ k < n, Unshort E (a.writes (s.calls.writes + k))) :
    afterWrites (flash a) E n s =
      ⟨⟨programmed E (succeeded a.writes s.calls.writes n) ++ rest,
          succeeded a.writes s.calls.writes n * E.size⟩,
        { s.calls with writes := s.calls.writes + n }⟩ := by
  induction n with
  | zero =>
      obtain ⟨file, calls⟩ := s
      subst hfile
      rw [succeeded, Nat.count_zero, Nat.zero_mul]
      rfl
  | succ n ih =>
      have hbefore := ih (by omega) fun k hk => hwrites k (by omega)
      have hw := lt_of_le_of_lt (succeeded_le a.writes s.calls.writes n) hn
      have hwrite := flash_write (s := afterWrites (flash a) E n s) (E := E) (a := a)
        (by rw [hbefore]; exact programmed_room hw) (by rw [hbefore]; exact hwrites n (by omega))
      rw [afterWrites, hwrite, hbefore, succeeded_succ]
      cases (a.writes (s.calls.writes + n)).isSome with
      | false => rfl
      | true => simp only [if_true, splice_programmed hw, Nat.succ_mul, Nat.add_assoc]

theorem flash_writesOk_iff (hfile : s.file = ⟨programmed E 0 ++ rest, 0⟩) :
    WritesOk (flash a) E 4 s ↔ ∀ k < 4, Unshort E (a.writes (s.calls.writes + k)) := by
  apply forall_lt_congr
  intro n hn hwrites
  have hw := lt_of_le_of_lt (succeeded_le a.writes s.calls.writes n) hn
  rw [flash_afterWrites hfile hn.le hwrites, flash_write_length (programmed_room hw),
    goesOn_min_iff]

/-- The blocks with the pattern are those that were programmed. -/
theorem slice_programmed_iff {w j : ℕ} (hw : w ≤ 4) (hj : j < 4) (rest : List UInt8) :
    slice (programmed E w ++ rest) (j * E.size) E.size = pattern E ↔ j < w := by
  have hpos := E.pos
  rw [slice_append_left (by rw [length_programmed hw]; exact block_room hj le_rfl), programmed]
  rcases Nat.lt_or_ge j w with hjw | hwj
  · have hblock := Nat.mul_le_mul_right E.size (Nat.succ_le_of_lt hjw)
    rw [Nat.succ_mul] at hblock
    rw [slice_append_left (by rwa [List.length_replicate]), slice_replicate hblock]
    exact iff_of_true rfl hjw
  · have hbefore := Nat.mul_le_mul_right E.size hwj
    have hblock : j * E.size - w * E.size + E.size ≤ (4 - w) * E.size := by
      have := block_room (E := E) hj le_rfl
      rw [Nat.sub_mul]
      omega
    rw [slice_append_right (by rwa [List.length_replicate]), List.length_replicate,
      slice_replicate hblock, pattern, List.replicate_right_inj (by omega)]
    exact iff_of_false (by decide) (by omega)

end Loops

/-! ### The test on the device -/

namespace FlashAnswers

variable (a : FlashAnswers) (E : EraseSize)

/-- The block in the second place of the second buffer, of which `buffer2` is the content
before, is one with the pattern. It is the block behind the first read back, unless that read
failed. -/
def SecondMatches (buffer2 : List UInt8) : Prop :=
  match a.reads 5 with
  | none => slice buffer2 E.size E.size = pattern E
  | some _ => succeeded a.reads 4 1 < succeeded a.writes 0 4

/-- No call is short, and the second block is the pattern. -/
structure Unnoticed (buffer2 : List UInt8) : Prop where
  reads : ∀ k < 8, Unshort E (a.reads k)
  erases : ∀ k < 4, a.erases k = true
  writes : ∀ k < 4, Unshort E (a.writes k)
  second : a.SecondMatches E buffer2

end FlashAnswers

section Content

variable {E : EraseSize} {a : FlashAnswers} {file : ByteFile UInt8} {buffer2 : List UInt8}
  (hroom : 4 * E.size ≤ file.content.length)

include hroom

theorem flash_erasing (hreads : ∀ k < 4, Unshort E (a.reads k)) :
    erasing (flash a) E ⟨file, {}⟩ =
      ⟨⟨file.content, succeeded a.reads 0 4 * E.size⟩, { reads := 4 }⟩ := by
  have hread := flash_afterReads (s := (flash a).rewind ⟨file, {}⟩) rfl hroom le_rfl
    (by simpa only [flash, Nat.zero_add] using hreads)
  exact hread

theorem flash_writing (hreads : ∀ k < 4, Unshort E (a.reads k))
    (herases : ∀ k < 4, a.erases k = true) :
    writing (flash a) E ⟨file, {}⟩ =
      ⟨⟨programmed E 0 ++ file.content.drop (4 * E.size), 0⟩, { reads := 4, erases := 4 }⟩ := by
  rw [writing, flash_erasing hroom hreads,
    flash_afterErases (by simpa only [Nat.zero_add] using herases), programmed, Nat.zero_mul]
  rfl

theorem flash_readingBack (hreads : ∀ k < 4, Unshort E (a.reads k))
    (herases : ∀ k < 4, a.erases k = true) (hwrites : ∀ k < 4, Unshort E (a.writes k)) :
    readingBack (flash a) E ⟨file, {}⟩ =
      ⟨⟨programmed E (succeeded a.writes 0 4) ++ file.content.drop (4 * E.size), 0⟩,
        { reads := 4, erases := 4, writes := 4 }⟩ := by
  rw [readingBack, flash_writing hroom hreads herases,
    flash_afterWrites rfl le_rfl (by simpa only [Nat.zero_add] using hwrites)]
  rfl

theorem flash_secondBlock_iff (hreads : ∀ k < 8, Unshort E (a.reads k))
    (herases : ∀ k < 4, a.erases k = true) (hwrites : ∀ k < 4, Unshort E (a.writes k)) :
    secondBlock (flash a) E buffer2 ⟨file, {}⟩ = pattern E ↔ a.SecondMatches E buffer2 := by
  have hw := succeeded_le a.writes 0 4
  have hj : succeeded a.reads 4 1 < 4 :=
    lt_of_le_of_lt (succeeded_le a.reads 4 1) (by decide)
  have hback := four_blocks_le (E := E) hw (file.content.drop (4 * E.size))
  have hfirst : ∀ k < 1, Unshort E (a.reads (4 + k)) := fun k hk => hreads (4 + k) (by omega)
  rw [secondBlock, flash_readingBack hroom (fun k hk => hreads k (by omega)) herases hwrites,
    flash_afterReads rfl hback (by decide) hfirst,
    flash_read (block_room hj hback) (hreads 5 (by decide)), FlashAnswers.SecondMatches]
  cases a.reads 5 with
  | none => rfl
  | some m => exact slice_programmed_iff hw hj _

theorem flash_passes_iff : Passes (flash a) E buffer2 ⟨file, {}⟩ ↔ a.Unnoticed E buffer2 := by
  have hfirst : ReadsOk (flash a) E 4 ((flash a).rewind ⟨file, {}⟩) ↔
      ∀ k < 4, Unshort E (a.reads (0 + k)) := flash_readsOk_iff rfl hroom
  have hback (hreads : ∀ k < 4, Unshort E (a.reads k)) (herases : ∀ k < 4, a.erases k = true)
      (hwrites : ∀ k < 4, Unshort E (a.writes k)) :
      ReadsOk (flash a) E 4 (readingBack (flash a) E ⟨file, {}⟩) ↔
        ∀ k < 4, Unshort E (a.reads (4 + k)) := by
    rw [flash_readingBack hroom hreads herases hwrites]
    exact flash_readsOk_iff rfl (four_blocks_le (succeeded_le a.writes 0 4) _)
  simp only [Nat.zero_add] at hfirst
  constructor
  · intro h
    have hreads := hfirst.mp h.read
    have herases : ∀ k < 4, a.erases k = true := by
      have hall := h.erase
      rw [flash_erasing hroom hreads, flash_erasesOk_iff] at hall
      simpa only [Nat.zero_add] using hall
    have hwrites : ∀ k < 4, Unshort E (a.writes k) := by
      have hall := h.write
      rw [flash_writing hroom hreads herases, flash_writesOk_iff rfl] at hall
      simpa only [Nat.zero_add] using hall
    have hreads : ∀ k < 8, Unshort E (a.reads k) :=
      forall_lt_eight_iff.mpr ⟨hreads, (hback hreads herases hwrites).mp h.back⟩
    exact ⟨hreads, herases, hwrites,
      (flash_secondBlock_iff hroom hreads herases hwrites).mp h.second⟩
  · intro h
    obtain ⟨hreads, hlast⟩ := forall_lt_eight_iff.mp h.reads
    refine ⟨hfirst.mpr hreads, ?_, ?_, ?_, ?_⟩
    · rw [flash_erasing hroom hreads, flash_erasesOk_iff]
      simpa only [Nat.zero_add] using h.erases
    · rw [flash_writing hroom hreads h.erases, flash_writesOk_iff rfl]
      simpa only [Nat.zero_add] using h.writes
    · exact (hback hreads h.erases h.writes).mpr hlast
    · exact (flash_secondBlock_iff hroom h.reads h.erases h.writes).mpr h.second

/-- After a test that passed, the four blocks are programmed and erased. -/
theorem flash_content_of_unnoticed (h : a.Unnoticed E buffer2) :
    (afterReads (flash a) E 4 (readingBack (flash a) E ⟨file, {}⟩)).file.content.take (4 * E.size) =
      programmed E (succeeded a.writes 0 4) := by
  have hw := succeeded_le a.writes 0 4
  rw [flash_readingBack hroom (fun k hk => h.reads k (by omega)) h.erases h.writes,
    flash_afterReads rfl (four_blocks_le hw _) le_rfl fun k hk => h.reads (4 + k) (by omega)]
  exact List.take_left' (length_programmed hw)

end Content

/-- A test that reports `TPASS` leaves the first four blocks as they were exactly when they held
what the test stores there. -/
theorem norflash_preserves_iff (E : EraseSize) (a : FlashAnswers) (buffers : Buffers)
    (file : ByteFile UInt8) (hroom : spimtdTestSize * E.size ≤ file.content.length)
    (hlength : buffers.buffer2.length = spimtdTestSize * E.size) :
    let out := spidevMtdTest (flash a) E ⟨buffers, ⟨file, {}⟩⟩
    ((∃ r, out.2 = some r ∧ r.result = .pass) →
        out.1.dev.file.content.take (spimtdTestSize * E.size) =
          file.content.take (spimtdTestSize * E.size)) ↔
      (a.Unnoticed E buffers.buffer2 →
        file.content.take (spimtdTestSize * E.size) = programmed E (succeeded a.writes 0 4)) := by
  intro out
  obtain ⟨r, hr, hpass, hdev⟩ := spidevMtdTest_spec (flash a) E ⟨buffers, ⟨file, {}⟩⟩ hlength
  have hreport : (∃ r, out.2 = some r ∧ r.result = .pass) ↔ a.Unnoticed E buffers.buffer2 := by
    rw [← flash_passes_iff hroom, ← hpass, show out.2 = some r from hr]
    simp
  rw [hreport]
  refine forall_congr' fun hunnoticed => ?_
  have hcontent := flash_content_of_unnoticed hroom hunnoticed
  have hlast := hdev (hpass.mpr ((flash_passes_iff hroom).mpr hunnoticed))
  rw [show out.1.dev = _ from hlast, show spimtdTestSize = 4 from rfl, hcontent]
  exact eq_comm

/-- A device on which every call completes. -/
def healthy : FlashAnswers where
  reads _ := some 1
  erases _ := true
  writes _ := some 1

theorem norflash_preserves_iff_healthy :
    ¬ (let out := spidevMtdTest (flash healthy) oneByte
          ⟨⟨[0, 0, 0, 0], [0, 0, 0, 0]⟩, ⟨⟨[1, 2, 3, 4], 0⟩, {}⟩⟩
      (∃ r, out.2 = some r ∧ r.result = .pass) →
        out.1.dev.file.content.take (spimtdTestSize * oneByte.size) =
          [1, 2, 3, 4].take (spimtdTestSize * oneByte.size)) := by
  intro hpreserved
  have hstored := (norflash_preserves_iff oneByte healthy ⟨[0, 0, 0, 0], [0, 0, 0, 0]⟩
    ⟨[1, 2, 3, 4], 0⟩ (by decide) rfl).mp hpreserved
  have hfull : Unshort oneByte (some 1) := by
    rintro m ⟨⟩
    exact le_rfl
  have hunnoticed : healthy.Unnoticed oneByte [0, 0, 0, 0] :=
    ⟨fun _ _ => hfull, fun _ _ => rfl, fun _ _ => hfull,
      show succeeded healthy.reads 4 1 < succeeded healthy.writes 0 4 by decide⟩
  exact absurd (hstored hunnoticed) (by decide)

/-- Every call completes in full, the test reports `TPASS` and the data is gone. -/
theorem norflash_overwrites :
    let out := spidevMtdTest (flash healthy) oneByte
      ⟨⟨[0, 0, 0, 0], [0, 0, 0, 0]⟩, ⟨⟨[1, 2, 3, 4], 0⟩, {}⟩⟩
    out.2 = some ⟨.pass, txt "SPI MTD Erase, Write and Read Test passed .......!", []⟩ ∧
      out.1.dev.file.content = [0xAA, 0xAA, 0xAA, 0xAA] := by
  decide +kernel

end EDDTs.Beaglebone
