import EDDTs.Beaglebone.DeviceTest
import EDDTs.Library.ByteFile
import EDDTs.Library.EarlyExit

/-!
# The EEPROM test

`eeprom_read_write_test` reads the first 256 bytes of the device in chunks, writes them
back, reads them again and compares. Every chunk that is not transferred in full ends the
test.
-/

namespace EDDTs.Beaglebone

open Library

/-- `EEPROM_TEST_SIZE` -/
def eepromTestSize : ℕ := 256

/-- `EEPROM_RDWR_LEN` -/
def eepromRdwrLen : ℕ := 32

/-- The two buffers, the device, and the results of the transfers so far. -/
structure EepromState extends Buffers where
  file : ByteFile UInt8
  transfers : List Int := []

/-- The values of `rd_wr_len` in a loop. -/
def chunks : List ℕ := (List.range (eepromTestSize / eepromRdwrLen)).map (eepromRdwrLen * ·)

/-- The `write` of a device, with the answer that the device gives to the call. -/
abbrev DeviceWrite := List UInt8 → Option ℕ → ByteFile UInt8 → Int × ByteFile UInt8

/-- `write` of a device that stores the bytes it transfers. -/
def store : DeviceWrite := fun data answer f => f.write data answer

namespace EepromState

/-- `read(eeprom_fd, buffer + rd_wr_len, EEPROM_RDWR_LEN)` into one of the buffers, and the
test of its result. The transfers are answered in their order. -/
def readChunk (answers : ℕ → Option ℕ) (b : Buffer) (printed : Int → ℕ → Text) (rdWrLen : ℕ) :
    Segment EepromState Report := fun s =>
  let answer := s.file.read eepromRdwrLen (answers s.transfers.length)
  let len := answer.1.1
  ({ s with
      toBuffers := s.modify b fun buffer => splice buffer rdWrLen answer.1.2
      file := answer.2
      transfers := s.transfers ++ [len] },
    if len < eepromRdwrLen then
      some ⟨.fail, txt "Read EEPROM failed ...", printed len rdWrLen⟩
    else none)

/-- A chunk of the first loop. -/
def readChunk1 (answers : ℕ → Option ℕ) : ℕ → Segment EepromState Report :=
  readChunk answers .one fun len rdWrLen =>
    txt "Len  " ++ intText len ++ txt " @ " ++ natText rdWrLen ++ txt "\n"

/-- A chunk of the last loop. -/
def readChunk2 (answers : ℕ → Option ℕ) : ℕ → Segment EepromState Report :=
  readChunk answers .two fun len _ => txt "Len  " ++ intText len ++ txt "\n"

/-- A chunk of the loop that writes, on a device with this `write`. -/
def writeChunkOn (write : DeviceWrite) (answers : ℕ → Option ℕ) (rdWrLen : ℕ) :
    Segment EepromState Report := fun s =>
  let answer := write (slice s.buffer1 rdWrLen eepromRdwrLen) (answers s.transfers.length) s.file
  let len := answer.1
  ({ s with file := answer.2, transfers := s.transfers ++ [len] },
    if len < eepromRdwrLen then
      some ⟨.fail, txt "Write EEPROM failed ...", txt "Len  " ++ intText len ++ txt "\n"⟩
    else none)

/-- `lseek(eeprom_fd, 0, SEEK_SET)`. -/
def seek : Segment EepromState Report := fun s => ({ s with file := s.file.rewind }, none)

/-- `memcmp`, and the last report. -/
def compare : Segment EepromState Report := fun s =>
  (s, if s.buffer1.take eepromTestSize ≠ s.buffer2.take eepromTestSize then
      some ⟨.fail, txt "Read back data mismatch Block", []⟩
    else some ⟨.pass, txt "EEPROM READ TEST Passed", []⟩)

end EepromState

open EepromState Segment in
/-- `eeprom_read_write_test`, after the device was opened and the buffers allocated, on a device
with this `write`. -/
def eepromReadWriteTestOn (write : DeviceWrite) (answers : ℕ → Option ℕ) :
    Segment EepromState Report :=
  (forEach (readChunk1 answers) chunks).andThen <|
    seek.andThen <|
      (forEach (writeChunkOn write answers) chunks).andThen <|
        seek.andThen <|
          (forEach (readChunk2 answers) chunks).andThen compare

/-- `eeprom_read_write_test` on a device that stores what is written. -/
def eepromReadWriteTest (answers : ℕ → Option ℕ) : Segment EepromState Report :=
  eepromReadWriteTestOn store answers

/-! ### The loops -/

/-- The device is willing to transfer a whole chunk. -/
def Full : Option ℕ → Prop := ByteFile.Willing eepromRdwrLen

instance : DecidablePred Full := inferInstanceAs (DecidablePred (ByteFile.Willing _))

/-- Which transfers are full: reads as they are answered, writes of what the device holds as
`ok` says, and these leave the device as it is. -/
structure Transfers (write : DeviceWrite) (answers : ℕ → Option ℕ) (ok : ℕ → Prop) : Prop where
  reads : ∀ n, n < 8 ∨ 16 ≤ n → (ok n ↔ Full (answers n))
  writes : ∀ n, 8 ≤ n → n < 16 → ∀ (data : List UInt8) (f : ByteFile UInt8),
    data <+: f.content.drop f.offset → data.length = eepromRdwrLen →
    f.offset + eepromRdwrLen ≤ f.content.length →
    ok n ∧ write data (answers n) f =
        ((eepromRdwrLen : Int), ⟨f.content, f.offset + eepromRdwrLen⟩) ∨
      ¬ ok n ∧ (write data (answers n) f).1 < eepromRdwrLen ∧
        (write data (answers n) f).2.content = f.content

section Loops

variable {write : DeviceWrite} {answers : ℕ → Option ℕ} {ok : ℕ → Prop} {c : List UInt8}

/-- What holds when the test is left with a report: the device holds what it held, and the
report is `TPASS` when all transfers were full and the images agree. -/
structure Left (ok : ℕ → Prop) (c : List UInt8) (s : EepromState) (r : Report) : Prop where
  content : s.file.content = c
  answered : r.result = .pass ↔ eepromTestSize ≤ c.length ∧ ∀ n < 24, ok n
  full : r.result = .pass ↔
    s.transfers = List.replicate 24 (eepromRdwrLen : Int) ∧ s.buffer1 = s.buffer2

variable {k done : ℕ} {s : EepromState}

/-- A transfer that was not full is the last one. -/
theorem left_of_short {r : Report} (hcontent : s.file.content = c) (hresult : r.result = .fail)
    {before : List Int} {len : Int} (htransfers : s.transfers = before ++ [len])
    (hshort : len < eepromRdwrLen) (hnot : ¬ (eepromTestSize ≤ c.length ∧ ∀ n < 24, ok n)) :
    Left ok c s r := by
  have hfail : r.result ≠ .pass := by rw [hresult]; rintro ⟨⟩
  refine ⟨hcontent, iff_of_false hfail hnot, iff_of_false hfail ?_⟩
  rintro ⟨hfull, -⟩
  have hlen : len ∈ List.replicate 24 (eepromRdwrLen : Int) := by
    rw [← hfull, htransfers]
    simp
  rw [List.eq_of_mem_replicate hlen] at hshort
  exact Int.lt_irrefl _ hshort

/-- The state before the chunk `k` of a loop, with `done` transfers before the loop. -/
structure AtChunk (ok : ℕ → Prop) (c : List UInt8) (done k : ℕ) (s : EepromState) : Prop where
  content : s.file.content = c
  offset : s.file.offset = eepromRdwrLen * k
  transfers : s.transfers = List.replicate (done + k) (eepromRdwrLen : Int)
  answered : ∀ n < done + k, ok n

theorem AtChunk.turn (h : AtChunk ok c done k s) : s.transfers.length = done + k := by
  rw [h.transfers, List.length_replicate]

theorem AtChunk.seek (h : AtChunk ok c done 8 s) :
    AtChunk ok c (done + 8) 0 (EepromState.seek s).1 :=
  ⟨h.content, rfl, h.transfers, h.answered⟩

/-- A full transfer that leaves the device as it was ends the chunk. -/
theorem AtChunk.next {s' : EepromState} (h : AtChunk ok c done k s) (hok : ok (done + k))
    (hfile : s'.file = ⟨s.file.content, s.file.offset + eepromRdwrLen⟩)
    (htransfers : s'.transfers = s.transfers ++ [(eepromRdwrLen : Int)]) :
    AtChunk ok c done (k + 1) s' := by
  refine ⟨by rw [hfile]; exact h.content, ?_, ?_, fun n hn => ?_⟩
  · rw [hfile, Nat.mul_succ, ← h.offset]
  · rw [htransfers, h.transfers, ← Nat.add_assoc, List.replicate_succ']
  · rcases Nat.lt_succ_iff_lt_or_eq.mp hn with hlt | rfl
    · exact h.answered n hlt
    · exact hok

/-- The buffer holds the chunks that were read. -/
def Holds (c : List UInt8) (k : ℕ) (buffer : List UInt8) : Prop :=
  buffer.length = eepromTestSize ∧ eepromRdwrLen * k ≤ c.length ∧
    buffer.take (eepromRdwrLen * k) = c.take (eepromRdwrLen * k)

/-- Before a chunk of the first loop. -/
def BeforeRead (ok : ℕ → Prop) (c : List UInt8) (k : ℕ) (s : EepromState) : Prop :=
  AtChunk ok c 0 k s ∧ Holds c k s.buffer1 ∧ s.buffer2.length = eepromTestSize

/-- Before a chunk of the loop that writes. -/
def BeforeWrite (ok : ℕ → Prop) (c : List UInt8) (k : ℕ) (s : EepromState) : Prop :=
  AtChunk ok c 8 k s ∧ Holds c 8 s.buffer1 ∧ s.buffer2.length = eepromTestSize

/-- Before a chunk of the last loop. -/
def BeforeReadBack (ok : ℕ → Prop) (c : List UInt8) (k : ℕ) (s : EepromState) : Prop :=
  AtChunk ok c 16 k s ∧ Holds c k s.buffer2 ∧ Holds c 8 s.buffer1

theorem getElem_chunks (hk : k < chunks.length) : chunks[k] = eepromRdwrLen * k := by
  simp [chunks]

theorem Holds.splice {buffer : List UInt8} (h : Holds c k buffer) (hk : k < 8)
    (hroom : eepromRdwrLen * k + eepromRdwrLen ≤ c.length) :
    Holds c (k + 1) (Library.splice buffer (eepromRdwrLen * k)
      (slice c (eepromRdwrLen * k) eepromRdwrLen)) := by
  obtain ⟨hlength, -, htake⟩ := h
  have hdata := length_slice hroom
  have hfits : eepromRdwrLen * k + (slice c (eepromRdwrLen * k) eepromRdwrLen).length ≤
      buffer.length := by
    rw [hdata, hlength]
    simp only [eepromRdwrLen, eepromTestSize]
    omega
  refine ⟨(length_splice hfits).trans hlength, ?_, ?_⟩
  · rw [Nat.mul_succ]
    exact hroom
  · have hnext := take_splice hfits htake (by rw [hdata])
    rwa [hdata, ← Nat.mul_succ] at hnext

/-- A chunk is read in full, or the test is left. -/
theorem readChunk_cases (b : Buffer) (printed : Int → ℕ → Text) (h : AtChunk ok c done k s)
    (hk : k < 8) (hturn : done + k < 24) (hok : ok (done + k) ↔ Full (answers (done + k))) :
    let out := EepromState.readChunk answers b printed (eepromRdwrLen * k) s
    (out.2 = none → AtChunk ok c done (k + 1) out.1 ∧
        eepromRdwrLen * k + eepromRdwrLen ≤ c.length ∧
        out.1.toBuffers = s.modify b fun buffer => splice buffer (eepromRdwrLen * k)
          (slice c (eepromRdwrLen * k) eepromRdwrLen)) ∧
      ∀ r, out.2 = some r → Left ok c out.1 r := by
  intro out
  have hread := s.file.read_short_or_full (show 0 < eepromRdwrLen by decide) (answers (done + k))
  rw [h.offset, h.content] at hread
  rcases hread with ⟨hshort, hnot⟩ | ⟨⟨hfull, hroom⟩, hread⟩
  · have hleft : out.2 = some ⟨.fail, txt "Read EEPROM failed ...",
        printed (s.file.read eepromRdwrLen (answers s.transfers.length)).1.1
          (eepromRdwrLen * k)⟩ := if_pos (h.turn.symm ▸ hshort)
    refine ⟨fun hnone => ?_, fun r hr => ?_⟩
    · rw [hleft] at hnone
      cases hnone
    · obtain rfl := Option.some.inj (hleft.symm.trans hr)
      refine left_of_short ?_ rfl rfl (h.turn.symm ▸ hshort) ?_
      · exact (ByteFile.read_content _ _ _).trans h.content
      · rintro ⟨hlength, hall⟩
        refine hnot ⟨hok.mp (hall _ hturn), ?_⟩
        simp only [eepromRdwrLen, eepromTestSize] at hlength ⊢
        omega
  · have hout : out = ({ s with
          toBuffers := s.modify b fun buffer =>
            splice buffer (eepromRdwrLen * k) (slice c (eepromRdwrLen * k) eepromRdwrLen)
          file := ⟨c, eepromRdwrLen * k + eepromRdwrLen⟩
          transfers := s.transfers ++ [(eepromRdwrLen : Int)] }, none) := by
      simp only [out, EepromState.readChunk, h.turn, hread, Int.lt_irrefl, if_false]
    rw [hout]
    refine ⟨fun _ => ⟨h.next (hok.mpr hfull) ?_ rfl, hroom, rfl⟩, by rintro _ ⟨⟩⟩
    rw [h.content, h.offset]

variable (hdevice : Transfers write answers ok)

include hdevice

open EepromState in
/-- The first loop fills the first buffer. -/
theorem readChunk1_triple (hk : k < 8) :
    Segment.Triple (BeforeRead ok c k) (readChunk1 answers (eepromRdwrLen * k))
      (BeforeRead ok c (k + 1)) (Left ok c) := by
  rintro s ⟨hat, hholds, hlength⟩
  obtain ⟨hon, hleft⟩ := readChunk_cases .one _ hat hk (by omega)
    (hdevice.reads _ (Or.inl (by omega)))
  refine ⟨fun hnone => ?_, hleft⟩
  obtain ⟨hat', hroom, hbuffers⟩ := hon hnone
  refine ⟨hat', ?_, ?_⟩
  · exact (congrArg (fun t => Holds c (k + 1) t.buffer1) hbuffers).mpr (hholds.splice hk hroom)
  · exact (congrArg (fun t => t.buffer2.length) hbuffers).trans hlength

open EepromState in
/-- The last loop fills the second buffer. -/
theorem readChunk2_triple (hk : k < 8) :
    Segment.Triple (BeforeReadBack ok c k) (readChunk2 answers (eepromRdwrLen * k))
      (BeforeReadBack ok c (k + 1)) (Left ok c) := by
  rintro s ⟨hat, hholds, hholds1⟩
  obtain ⟨hon, hleft⟩ := readChunk_cases .two _ hat hk (by omega)
    (hdevice.reads _ (Or.inr (by omega)))
  refine ⟨fun hnone => ?_, hleft⟩
  obtain ⟨hat', hroom, hbuffers⟩ := hon hnone
  refine ⟨hat', ?_, ?_⟩
  · exact (congrArg (fun t => Holds c (k + 1) t.buffer2) hbuffers).mpr (hholds.splice hk hroom)
  · exact (congrArg (fun t => Holds c 8 t.buffer1) hbuffers).mpr hholds1

omit hdevice in
/-- A full buffer holds the beginning of the device. -/
theorem Holds.eq_take {buffer : List UInt8} (h : Holds c 8 buffer) :
    buffer = c.take eepromTestSize := by
  obtain ⟨hlength, -, htake⟩ := h
  rwa [List.take_of_length_le (by rw [hlength]; decide)] at htake

omit hdevice in
/-- The chunk to be written is the one that the device holds at its offset. -/
theorem Holds.slice_prefix (h : Holds c 8 s.buffer1) (hat : AtChunk ok c done k s) :
    slice s.buffer1 (eepromRdwrLen * k) eepromRdwrLen <+: s.file.content.drop s.file.offset := by
  rw [hat.content, hat.offset, h.eq_take, slice, List.drop_take]
  exact (List.take_prefix _ _).trans (List.take_prefix _ _)

open EepromState in
/-- The loop that writes stores what the device holds. -/
theorem writeChunkOn_triple (hk : k < 8) :
    Segment.Triple (BeforeWrite ok c k) (writeChunkOn write answers (eepromRdwrLen * k))
      (BeforeWrite ok c (k + 1)) (Left ok c) := by
  rintro s ⟨hat, hholds, hlength⟩
  have hbound : eepromRdwrLen * k + eepromRdwrLen ≤ eepromTestSize := by
    simp only [eepromRdwrLen, eepromTestSize]
    omega
  have hroom : s.file.offset + eepromRdwrLen ≤ s.file.content.length := by
    rw [hat.offset, hat.content]
    exact Nat.le_trans hbound hholds.2.1
  rcases hdevice.writes (8 + k) (by omega) (by omega) _ s.file (hholds.slice_prefix hat)
    (length_slice (hholds.1.symm ▸ hbound)) hroom with ⟨hok, hfull⟩ | ⟨hnot, hshort, hcontent⟩
  · have hout : writeChunkOn write answers (eepromRdwrLen * k) s = ({ s with
        file := ⟨s.file.content, s.file.offset + eepromRdwrLen⟩
        transfers := s.transfers ++ [(eepromRdwrLen : Int)] }, none) := by
      simp only [writeChunkOn, hat.turn, hfull, Int.lt_irrefl, if_false]
    rw [hout]
    exact ⟨fun _ => ⟨hat.next hok rfl rfl, hholds, hlength⟩, by rintro _ ⟨⟩⟩
  · rw [← hat.turn] at hshort hcontent
    have hleft : (writeChunkOn write answers (eepromRdwrLen * k) s).2 = some _ := if_pos hshort
    refine ⟨fun hnone => ?_, fun r hr => ?_⟩
    · rw [hleft] at hnone
      cases hnone
    · obtain rfl := Option.some.inj (hleft.symm.trans hr)
      exact left_of_short (hcontent.trans hat.content) rfl rfl hshort fun h =>
        hnot (h.2 _ (by omega))

end Loops

/-! ### The test -/

section Test

variable {write : DeviceWrite} {answers : ℕ → Option ℕ} {ok : ℕ → Prop} {c : List UInt8}

open EepromState Segment

theorem triple_chunks {body : ℕ → Segment EepromState Report} {Inv : ℕ → EepromState → Prop}
    {R : EepromState → Report → Prop}
    (h : ∀ k < 8, Triple (Inv k) (body (eepromRdwrLen * k)) (Inv (k + 1)) R) :
    Triple (Inv 0) (forEach body chunks) (Inv 8) R := by
  apply Triple.forEach
  intro k hk
  rw [getElem_chunks hk]
  exact h k hk

/-- The last comparison is reached with equal images only. -/
theorem compare_triple :
    Triple (BeforeReadBack ok c 8) compare (fun _ => False) (Left ok c) := by
  rintro s ⟨hat, hholds2, hholds1⟩
  have hsame : s.buffer1 = s.buffer2 := hholds1.eq_take.trans hholds2.eq_take.symm
  have hpass : (compare s).2 = some ⟨.pass, txt "EEPROM READ TEST Passed", []⟩ :=
    if_neg (by simp [hsame])
  constructor
  · intro hnone
    rw [hpass] at hnone
    cases hnone
  · intro r hr
    obtain rfl := Option.some.inj (hpass.symm.trans hr)
    exact ⟨hat.content, iff_of_true rfl ⟨hholds1.2.1, hat.answered⟩,
      iff_of_true rfl ⟨hat.transfers, hsame⟩⟩

theorem holds_zero {buffer : List UInt8} (h : buffer.length = eepromTestSize) :
    Holds c 0 buffer :=
  ⟨h, Nat.zero_le _, by simp⟩

/-- The parts of the test, from the start to the report. -/
theorem eepromReadWriteTestOn_triple (hdevice : Transfers write answers ok) :
    Triple (BeforeRead ok c 0) (eepromReadWriteTestOn write answers) (fun _ => False)
      (Left ok c) := by
  have hfirst : Triple (BeforeRead ok c 8) seek (BeforeWrite ok c 0) (Left ok c) :=
    triple_goesOn fun _ hs => ⟨hs.1.seek, hs.2⟩
  have hsecond : Triple (BeforeWrite ok c 8) seek (BeforeReadBack ok c 0) (Left ok c) :=
    triple_goesOn fun _ hs => ⟨hs.1.seek, holds_zero hs.2.2, hs.2.1⟩
  apply (triple_chunks fun k hk => readChunk1_triple hdevice hk).andThen
  apply hfirst.andThen
  apply (triple_chunks fun k hk => writeChunkOn_triple hdevice hk).andThen
  apply hsecond.andThen
  exact (triple_chunks fun k hk => readChunk2_triple hdevice hk).andThen compare_triple

/-- The test ends with a report. -/
theorem eepromReadWriteTestOn_left (hdevice : Transfers write answers ok)
    (content : List UInt8) {buffer1 buffer2 : List UInt8} (h1 : buffer1.length = eepromTestSize)
    (h2 : buffer2.length = eepromTestSize) :
    let out := eepromReadWriteTestOn write answers ⟨⟨buffer1, buffer2⟩, ⟨content, 0⟩, []⟩
    ∃ r, out.2 = some r ∧ Left ok content out.1 r := by
  intro out
  obtain ⟨hon, hleft⟩ := eepromReadWriteTestOn_triple hdevice
    ⟨⟨buffer1, buffer2⟩, ⟨content, 0⟩, []⟩ ⟨⟨rfl, rfl, rfl, nofun⟩, holds_zero h1, h2⟩
  cases hreport : out.2 with
  | none => exact absurd (hon hreport) id
  | some r => exact ⟨r, rfl, hleft r hreport⟩

end Test

/-- On a device that stores what is written the transfers are full as they are answered. -/
theorem transfers_store (answers : ℕ → Option ℕ) :
    Transfers store answers fun n => Full (answers n) := by
  refine ⟨fun _ _ => Iff.rfl, fun n _ _ data f hsame hlength hroom => ?_⟩
  have hcontent := ByteFile.write_same hsame (answers n)
  rw [← hlength] at hroom
  rcases ByteFile.write_short_or_full hroom (answers n) with ⟨hshort, hnot⟩ | ⟨hfull, hwrite⟩
  · rw [hlength] at hshort hnot
    exact Or.inr ⟨hnot, hshort, hcontent⟩
  · rw [hlength] at hfull hwrite
    rw [splice_of_isPrefix hsame] at hwrite
    exact Or.inl ⟨hfull, hwrite⟩

/-- The test leaves the device as it was, and reports `TPASS` exactly when the device has the
bytes and answers all the transfers in full; then, and only then, were all of them full and the
images agree. -/
theorem eepromReadWriteTest_spec (content buffer1 buffer2 : List UInt8) (answers : ℕ → Option ℕ)
    (h1 : buffer1.length = eepromTestSize) (h2 : buffer2.length = eepromTestSize) :
    let out := eepromReadWriteTest answers ⟨⟨buffer1, buffer2⟩, ⟨content, 0⟩, []⟩
    out.1.file.content = content ∧
      ∃ r, out.2 = some r ∧
        (r.result = .pass ↔
          eepromTestSize ≤ content.length ∧ ∀ n < 24, Full (answers n)) ∧
        (r.result = .pass ↔
          out.1.transfers = List.replicate 24 (eepromRdwrLen : Int) ∧
            out.1.buffer1 = out.1.buffer2) := by
  intro out
  obtain ⟨r, hr, hleft⟩ := eepromReadWriteTestOn_left (transfers_store answers) content h1 h2
  exact ⟨hleft.content, r, hr, hleft.answered, hleft.full⟩

theorem eepromReadWriteTest_spec_short :
    let answers : ℕ → Option ℕ := fun n => if n = 9 then some 5 else some 32
    let out := eepromReadWriteTest answers
      ⟨⟨List.replicate 256 0, List.replicate 256 0⟩, ⟨List.replicate 300 0x5A, 0⟩, []⟩
    out.1.file.content = List.replicate 300 0x5A ∧
      ∃ r, out.2 = some r ∧
        (r.result = .pass ↔
          eepromTestSize ≤ (List.replicate 300 (0x5A : UInt8)).length ∧
            ∀ n < 24, Full (answers n)) ∧
        (r.result = .pass ↔
          out.1.transfers = List.replicate 24 (eepromRdwrLen : Int) ∧
            out.1.buffer1 = out.1.buffer2) :=
  eepromReadWriteTest_spec (List.replicate 300 0x5A) (List.replicate 256 0) (List.replicate 256 0)
    _ (List.length_replicate) (List.length_replicate)

end EDDTs.Beaglebone
