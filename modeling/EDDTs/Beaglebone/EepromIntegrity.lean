import EDDTs.Beaglebone.Eeprom

/-!
# What the EEPROM test can tell about writes

The test writes the bytes that it has just read. A device that acknowledges a write and stores
nothing therefore looks like one that stores it: the verdict depends on the reads alone.
-/

namespace EDDTs.Beaglebone

open Library

/-- `write` of a device that acknowledges all the bytes and stores none of them. -/
def acknowledge : DeviceWrite := fun data _ f =>
  (data.length, { f with offset := f.offset + data.length })

/-- The transfers of the two loops that read. -/
def readTurns : List ℕ := List.range 8 ++ List.range' 16 8

theorem mem_readTurns {n : ℕ} : n ∈ readTurns ↔ n < 24 ∧ ¬ (8 ≤ n ∧ n < 16) := by
  simp only [readTurns, List.mem_append, List.mem_range, List.mem_range'_1]
  omega

/-- A write is always acknowledged. -/
theorem transfers_acknowledge (answers : ℕ → Option ℕ) :
    Transfers acknowledge answers fun n => 8 ≤ n ∧ n < 16 ∨ Full (answers n) := by
  constructor
  · intro n hn
    exact or_iff_right (by omega)
  · intro n hn hn' data f _ hlength _
    refine Or.inl ⟨Or.inl ⟨hn, hn'⟩, ?_⟩
    rw [acknowledge, hlength]

section Test

variable {answers : ℕ → Option ℕ} {buffer1 buffer2 : List UInt8}

/-- The test ends with `TPASS` exactly when all its reads are full. -/
theorem acknowledge_pass_iff (answers : ℕ → Option ℕ) (content : List UInt8)
    (h1 : buffer1.length = eepromTestSize) (h2 : buffer2.length = eepromTestSize) :
    ∃ r, (eepromReadWriteTestOn acknowledge answers
        ⟨⟨buffer1, buffer2⟩, ⟨content, 0⟩, []⟩).2 = some r ∧
      (r.result = .pass ↔
        eepromTestSize ≤ content.length ∧ ∀ n ∈ readTurns, Full (answers n)) := by
  obtain ⟨r, hr, hleft⟩ := eepromReadWriteTestOn_left (transfers_acknowledge answers) content h1 h2
  refine ⟨r, hr, hleft.answered.trans (and_congr_right fun _ => forall_congr' fun n => ?_)⟩
  rw [mem_readTurns, and_imp, or_iff_not_imp_left]

/-- A device that stores nothing is told from one that stores every write by no verdict. -/
theorem acknowledge_indistinguishable (hfull : ∀ n, 8 ≤ n → n < 16 → Full (answers n))
    {content buffer1 buffer2 : List UInt8} (h1 : buffer1.length = eepromTestSize)
    (h2 : buffer2.length = eepromTestSize) :
    let start : EepromState := ⟨⟨buffer1, buffer2⟩, ⟨content, 0⟩, []⟩
    (eepromReadWriteTestOn acknowledge answers start).2.map Report.result =
      (eepromReadWriteTest answers start).2.map Report.result := by
  intro start
  obtain ⟨r, hr, hdead⟩ := eepromReadWriteTestOn_left (transfers_acknowledge answers) content h1 h2
  obtain ⟨r', hr', hstores⟩ := eepromReadWriteTestOn_left (transfers_store answers) content h1 h2
  rw [eepromReadWriteTest, hr, hr', Option.map_some, Option.map_some]
  -- the writes are full on both devices
  have hsame : r.result = .pass ↔ r'.result = .pass := by
    rw [hdead.answered, hstores.answered]
    refine and_congr_right fun _ => forall₂_congr fun n _ => ?_
    exact or_iff_right_of_imp fun hn => hfull n hn.1 hn.2
  cases h : r.result <;> cases h' : r'.result <;> simp [h, h'] at hsame ⊢

theorem acknowledge_indistinguishable_full :
    let start : EepromState :=
      ⟨⟨List.replicate 256 0, List.replicate 256 0⟩, ⟨List.replicate 256 0x5A, 0⟩, []⟩
    (eepromReadWriteTestOn acknowledge (fun _ => some 32) start).2.map Report.result =
      (eepromReadWriteTest (fun _ => some 32) start).2.map Report.result :=
  acknowledge_indistinguishable (fun _ _ _ => le_rfl) List.length_replicate List.length_replicate

end Test

/-- On a device that acknowledges every write and stores nothing, the test reports no `TPASS`
exactly when the device is too small or some read of the test is not full. -/
theorem acknowledge_never_passes_iff (content buffer1 buffer2 : List UInt8)
    (answers : ℕ → Option ℕ) (h1 : buffer1.length = eepromTestSize)
    (h2 : buffer2.length = eepromTestSize) :
    (∀ r, (eepromReadWriteTestOn acknowledge answers
        ⟨⟨buffer1, buffer2⟩, ⟨content, 0⟩, []⟩).2 = some r → r.result ≠ .pass) ↔
      content.length < eepromTestSize ∨ ∃ n ∈ readTurns, ¬ Full (answers n) := by
  obtain ⟨r, hr, hpass⟩ := acknowledge_pass_iff answers content h1 h2
  have hnever : (∀ r', some r = some r' → r'.result ≠ .pass) ↔ r.result ≠ .pass :=
    ⟨fun h => h r rfl, fun h r' hr' => Option.some.inj hr' ▸ h⟩
  rw [hr, hnever, ne_eq, hpass, not_and_or, Nat.not_le]
  simp only [not_forall, exists_prop]

/-- The writes are made, and a read behind them is short. -/
theorem acknowledge_never_passes_iff_late :
    let answers : ℕ → Option ℕ := fun n => if n = 20 then some 5 else some 32
    (∀ r, (eepromReadWriteTestOn acknowledge answers ⟨⟨List.replicate 256 0,
        List.replicate 256 0⟩, ⟨List.replicate 256 0, 0⟩, []⟩).2 = some r → r.result ≠ .pass) ↔
      (List.replicate 256 (0 : UInt8)).length < eepromTestSize ∨
        ∃ n ∈ readTurns, ¬ Full (answers n) :=
  acknowledge_never_passes_iff (List.replicate 256 0) (List.replicate 256 0)
    (List.replicate 256 0) _ List.length_replicate List.length_replicate

/-- A device of 256 erased bytes passes without storing anything. -/
theorem acknowledge_passes_erased :
    ((eepromReadWriteTestOn acknowledge (fun _ => some 32) ⟨⟨List.replicate 256 0,
        List.replicate 256 0⟩, ⟨List.replicate 256 0xFF, 0⟩, []⟩).2.map Report.result) =
      some .pass := by
  decide +kernel

end EDDTs.Beaglebone
