import EDDTs.Beaglebone.Norflash

/-!
# The verdict of the NOR flash test

The calls of the test are answered from a script: any sequence of full, short and failing
transfers, with any bytes. The test should report `TPASS` when all the calls complete and
the bytes read back are the pattern; it does so too when a transfer fails or when another
block than the second differs.
-/

namespace EDDTs.Beaglebone

open Library

/-- The answers to the calls, in their order. The first four calls of `read` are those of the
first loop, the next four read back. -/
structure Script (E : EraseSize) where
  reads : ℕ → Option (List UInt8)
  reads_le : ∀ n data, reads n = some data → data.length ≤ E.size
  erases : ℕ → Int
  writes : ℕ → Option ℕ
  writes_le : ∀ n k, writes n = some k → k ≤ E.size

/-- How many calls have been answered. -/
structure Calls where
  reads : ℕ := 0
  erases : ℕ := 0
  writes : ℕ := 0
  deriving DecidableEq, Repr

/-- The device that answers from a script. -/
def scripted {E : EraseSize} (script : Script E) : Mtd Calls where
  read n s := ((script.reads s.reads).map (List.take n), { s with reads := s.reads + 1 })
  read_le n s data h := by
    obtain ⟨bytes, -, rfl⟩ := Option.map_eq_some_iff.mp h
    exact List.length_take_le n bytes
  erase _ _ s := (script.erases s.erases, { s with erases := s.erases + 1 })
  write data s := ((script.writes s.writes).map (min data.length), { s with writes := s.writes + 1 })
  write_le data s k h := by
    obtain ⟨m, -, rfl⟩ := Option.map_eq_some_iff.mp h
    exact Nat.min_le_left _ _
  rewind s := s

namespace Script

variable {E : EraseSize} (script : Script E)

/-- Every call completes, and in full. -/
structure AllFull : Prop where
  reads : ∀ k < 8, (script.reads k).map List.length = some E.size
  erases : ∀ k < 4, script.erases k = 0
  writes : ∀ k < 4, script.writes k = some E.size

/-- The bytes read back. -/
def readBack : List UInt8 := (List.range 4).flatMap fun k => (script.reads (4 + k)).getD []

/-- The bytes written. -/
def written (_ : Script E) : List UInt8 := List.replicate (spimtdTestSize * E.size) 0xAA

/-- The second block of the second buffer, of which `buffer2` is the content before. -/
def second (buffer2 : List UInt8) : List UInt8 :=
  match script.reads 5 with
  | none => slice buffer2 E.size E.size
  | some data => data

/-- No call is short, and the second block is the pattern. -/
structure NoneShort (buffer2 : List UInt8) : Prop where
  reads : ∀ k < 8, GoesOn E ((script.reads k).map List.length)
  erases : ∀ k < 4, script.erases k = 0
  writes : ∀ k < 4, GoesOn E (script.writes k)
  second : script.second buffer2 = pattern E

/-- A failure that the test does not notice: no call is short and the second block is the
pattern, but a transfer failed or the bytes differ elsewhere. -/
def Unnoticed (buffer2 : List UInt8) : Prop :=
  script.NoneShort buffer2 ∧
    ((∃ k < 8, script.reads k = none) ∨ (∃ k < 4, script.writes k = none) ∨
      script.readBack ≠ script.written)

end Script

section Verdict

variable {E : EraseSize} {script : Script E} {buffer2 : List UInt8}

theorem scripted_afterReads (n : ℕ) (s : Calls) :
    afterReads (scripted script) E n s = { s with reads := s.reads + n } := by
  induction n with
  | zero => rfl
  | succ n ih => rw [afterReads, ih]; rfl

theorem scripted_afterErases (n : ℕ) (s : Calls) :
    afterErases (scripted script) E n s = { s with erases := s.erases + n } := by
  induction n with
  | zero => rfl
  | succ n ih => rw [afterErases, ih]; rfl

theorem scripted_afterWrites (n : ℕ) (s : Calls) :
    afterWrites (scripted script) E n s = { s with writes := s.writes + n } := by
  induction n with
  | zero => rfl
  | succ n ih => rw [afterWrites, ih]; rfl

theorem scripted_read (s : Calls) :
    ((scripted script).read E.size s).1 = script.reads s.reads := by
  simp only [scripted]
  cases hread : script.reads s.reads with
  | none => rfl
  | some data =>
      rw [Option.map_some, List.take_of_length_le (script.reads_le _ _ hread)]

theorem scripted_write (s : Calls) :
    ((scripted script).write (pattern E) s).1 = script.writes s.writes := by
  simp only [scripted, pattern, List.length_replicate]
  cases hwrite : script.writes s.writes with
  | none => rfl
  | some k => rw [Option.map_some, Nat.min_eq_right (script.writes_le _ _ hwrite)]

theorem scripted_erase (start length : ℕ) (s : Calls) :
    ((scripted script).erase start length s).1 = script.erases s.erases := rfl

theorem scripted_erasing : erasing (scripted script) E {} = { reads := 4 } :=
  scripted_afterReads 4 {}

theorem scripted_writing : writing (scripted script) E {} = { reads := 4, erases := 4 } := by
  rw [writing, scripted_erasing, scripted_afterErases]
  rfl

theorem scripted_readingBack :
    readingBack (scripted script) E {} = { reads := 4, erases := 4, writes := 4 } := by
  rw [readingBack, scripted_writing, scripted_afterWrites]
  rfl

theorem scripted_readsOk (n : ℕ) (s : Calls) :
    ReadsOk (scripted script) E n s ↔
      ∀ k < n, GoesOn E ((script.reads (s.reads + k)).map List.length) := by
  simp only [ReadsOk, scripted_afterReads, scripted_read]

theorem scripted_secondBlock :
    secondBlock (scripted script) E buffer2 {} = script.second buffer2 := by
  have hread : ((scripted script).read E.size
      (afterReads (scripted script) E 1 (readingBack (scripted script) E {}))).1 =
        script.reads 5 := by
    rw [scripted_readingBack, scripted_afterReads]
    exact scripted_read _
  cases hdata : script.reads 5 with
  | none =>
      rw [hdata] at hread
      simp only [secondBlock, hread, Script.second, hdata]
  | some data =>
      rw [hdata] at hread
      simp only [secondBlock, hread, Script.second, hdata]

theorem scripted_passes_iff :
    Passes (scripted script) E buffer2 {} ↔ script.NoneShort buffer2 := by
  have herases : ErasesOk (scripted script) E 4 (erasing (scripted script) E {}) ↔
      ∀ k < 4, script.erases k = 0 := by
    simp only [ErasesOk, scripted_erasing, scripted_afterErases, scripted_erase, Nat.zero_add]
  have hwrites : WritesOk (scripted script) E 4 (writing (scripted script) E {}) ↔
      ∀ k < 4, GoesOn E (script.writes k) := by
    simp only [WritesOk, scripted_writing, scripted_afterWrites, scripted_write, Nat.zero_add]
  have hreads : ReadsOk (scripted script) E 4 ((scripted script).rewind {}) ↔
      ∀ k < 4, GoesOn E ((script.reads k).map List.length) := by
    rw [scripted_readsOk]
    simp only [scripted, Nat.zero_add]
  have hback : ReadsOk (scripted script) E 4 (readingBack (scripted script) E {}) ↔
      ∀ k < 4, GoesOn E ((script.reads (4 + k)).map List.length) := by
    rw [scripted_readingBack, scripted_readsOk]
  constructor
  · intro h
    refine ⟨forall_lt_eight_iff.mpr ⟨hreads.mp h.read, hback.mp h.back⟩, herases.mp h.erase,
      hwrites.mp h.write, ?_⟩
    rw [← scripted_secondBlock]
    exact h.second
  · intro h
    obtain ⟨hfirst, hlast⟩ := forall_lt_eight_iff.mp h.reads
    refine ⟨hreads.mpr hfirst, herases.mpr h.erases, hwrites.mpr h.writes, hback.mpr hlast, ?_⟩
    rw [scripted_secondBlock]
    exact h.second

/-- Calls that complete in full are not short, and when the bytes read back are the pattern the
second block is. -/
theorem noneShort_of_allFull (hfull : script.AllFull) (hback : script.readBack = script.written) :
    script.NoneShort buffer2 := by
  refine ⟨fun k hk => Or.inr (hfull.reads k hk), hfull.erases,
    fun k hk => Or.inr (hfull.writes k hk), ?_⟩
  obtain ⟨data, hdata, hlength⟩ := Option.map_eq_some_iff.mp (hfull.reads 5 (by decide))
  rw [Script.second, hdata]
  apply List.eq_replicate_iff.mpr
  refine ⟨hlength, fun byte hbyte => ?_⟩
  have hmem : byte ∈ script.readBack := by
    apply List.mem_flatMap.mpr
    exact ⟨1, by decide, by rw [hdata]; exact hbyte⟩
  rw [hback] at hmem
  exact List.eq_of_mem_replicate hmem

/-- When no call is short, what is missing from a complete test is a failed transfer or a
difference. -/
theorem noneShort_not_complete (h : script.NoneShort buffer2) :
    ¬ (script.AllFull ∧ script.readBack = script.written) ↔
      (∃ k < 8, script.reads k = none) ∨ (∃ k < 4, script.writes k = none) ∨
        script.readBack ≠ script.written := by
  have hreads : (∀ k < 8, (script.reads k).map List.length = some E.size) ↔
      ¬ ∃ k < 8, script.reads k = none := by
    constructor
    · rintro hall ⟨k, hk, hnone⟩
      have hk := hall k hk
      rw [hnone] at hk
      cases hk
    · intro hno k hk
      refine (h.reads k hk).resolve_left fun hnone => hno ⟨k, hk, ?_⟩
      exact Option.map_eq_none_iff.mp hnone
  have hwrites : (∀ k < 4, script.writes k = some E.size) ↔ ¬ ∃ k < 4, script.writes k = none := by
    constructor
    · rintro hall ⟨k, hk, hnone⟩
      rw [hall k hk] at hnone
      cases hnone
    · intro hno k hk
      exact (h.writes k hk).resolve_left fun hnone => hno ⟨k, hk, hnone⟩
  have hall : script.AllFull ↔
      (∀ k < 8, (script.reads k).map List.length = some E.size) ∧
        ∀ k < 4, script.writes k = some E.size :=
    ⟨fun hfull => ⟨hfull.reads, hfull.writes⟩, fun hfull => ⟨hfull.1, h.erases, hfull.2⟩⟩
  rw [hall, hreads, hwrites, not_and_or, not_and_or, not_not, not_not, or_assoc]

/-- The test reports `TPASS` exactly for complete transfers and equal bytes, unless the script
has a failure that it does not notice. -/
theorem norflash_verdict_iff (E : EraseSize) (script : Script E) (buffers : Buffers)
    (hlength : buffers.buffer2.length = spimtdTestSize * E.size) :
    ((∃ r, (spidevMtdTest (scripted script) E ⟨buffers, {}⟩).2 = some r ∧ r.result = .pass) ↔
        script.AllFull ∧ script.readBack = script.written) ↔
      ¬ script.Unnoticed buffers.buffer2 := by
  obtain ⟨r, hr, hpass, -⟩ := spidevMtdTest_spec (scripted script) E ⟨buffers, {}⟩ hlength
  have hreport : (∃ r, (spidevMtdTest (scripted script) E ⟨buffers, {}⟩).2 = some r ∧
      r.result = .pass) ↔ script.NoneShort buffers.buffer2 := by
    rw [← scripted_passes_iff, ← hpass, hr]
    simp
  rw [hreport]
  constructor
  · rintro hiff ⟨hnone, hbad⟩
    exact (noneShort_not_complete hnone).mpr hbad (hiff.mp hnone)
  · intro hnot
    refine ⟨fun hnone => ?_, fun h => noneShort_of_allFull h.1 h.2⟩
    by_contra hbad
    exact hnot ⟨hnone, (noneShort_not_complete hnone).mp hbad⟩

end Verdict

/-- Blocks of one byte. -/
def oneByte : EraseSize := ⟨1, by decide, by decide⟩

/-- A device that fails every write and reads back the pattern from the second block only. -/
def deadWrites : Script oneByte where
  reads n := some [if n = 5 then 0xAA else 0xFF]
  reads_le n data h := by
    obtain rfl := Option.some.inj h
    exact Nat.le_refl 1
  erases _ := 0
  writes _ := none
  writes_le n k h := by cases h

theorem norflash_verdict_iff_deadWrites :
    ¬ ((∃ r, (spidevMtdTest (scripted deadWrites) oneByte
        ⟨⟨[0, 0, 0, 0], [0, 0, 0, 0]⟩, {}⟩).2 = some r ∧ r.result = .pass) ↔
      deadWrites.AllFull ∧ deadWrites.readBack = deadWrites.written) := by
  rw [norflash_verdict_iff oneByte deadWrites ⟨[0, 0, 0, 0], [0, 0, 0, 0]⟩ rfl, not_not]
  refine ⟨⟨fun k _ => Or.inr rfl, fun k _ => rfl, fun k _ => Or.inl rfl, rfl⟩, ?_⟩
  exact Or.inr (Or.inl ⟨0, by decide, rfl⟩)

/-- No write succeeds and three of the four blocks differ, and the test reports `TPASS`. -/
theorem norflash_passes_dead_writes :
    (spidevMtdTest (scripted deadWrites) oneByte ⟨⟨[0, 0, 0, 0], [0, 0, 0, 0]⟩, {}⟩).2 =
        some ⟨.pass, txt "SPI MTD Erase, Write and Read Test passed .......!", []⟩ ∧
      deadWrites.writes 0 = none ∧ deadWrites.readBack = [0xFF, 0xAA, 0xFF, 0xFF] ∧
      deadWrites.written = [0xAA, 0xAA, 0xAA, 0xAA] := by
  decide +kernel

end EDDTs.Beaglebone
