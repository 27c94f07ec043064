import EDDTs.Beaglebone.DeviceTest
import EDDTs.Library.ByteFile
import EDDTs.Library.EarlyExit

/-!
# The NOR flash test

`spidev_mtd_test` reads the first four erase blocks of a flash device, erases them, writes
a pattern, reads it back and compares. The device is given by its operations, and the
verdict of the test is characterised by their answers.

## Implementation notes

A result of `-1` is compared with an unsigned length. It is converted to `2 ^ 32 - 1`, so
that a call which failed passes for one that was not short.
-/

namespace EDDTs.Beaglebone

open Library

/-- `SPIMTD_TEST_SIZE` -/
def spimtdTestSize : ℕ := 4

/-- An erase size for which the counters of the loops do not overflow. -/
structure EraseSize where
  size : ℕ
  pos : 0 < size
  small : spimtdTestSize * size < 2 ^ 31

/-- The operations on a device; `none` is the result `-1`. -/
structure Mtd (σ : Type) where
  /-- `read`: the bytes that are put into the buffer -/
  read : ℕ → σ → Option (List UInt8) × σ
  read_le : ∀ n s data, (read n s).1 = some data → data.length ≤ n
  /-- `ioctl(fd, MEMERASE, &ei)` -/
  erase : ℕ → ℕ → σ → Int × σ
  /-- `write`: how many bytes are taken from the buffer -/
  write : List UInt8 → σ → Option ℕ × σ
  write_le : ∀ data s k, (write data s).1 = some k → k ≤ data.length
  /-- `lseek(fd, 0, SEEK_SET)` -/
  rewind : σ → σ

/-- The result of a call as an `int`. -/
def result : Option ℕ → Int
  | none => -1
  | some k => k

/-- `ret < ei.length`, where `ret` is converted to `__u32`. -/
def isShort (ret : Int) (length : ℕ) : Prop := ret % 2 ^ 32 < length

instance (ret : Int) (length : ℕ) : Decidable (isShort ret length) :=
  inferInstanceAs (Decidable (ret % 2 ^ 32 < length))

/-- The buffers and the device. -/
structure FlashState (σ : Type) extends Buffers where
  dev : σ

/-- The values of `ei.start` in a loop. -/
def starts (E : EraseSize) : List ℕ := (List.range spimtdTestSize).map (· * E.size)

section Segments

variable {σ : Type} (d : Mtd σ) (E : EraseSize)

/-- A block of the loops that read. -/
def readBlock (b : Buffer) (start : ℕ) : Segment (FlashState σ) Report := fun s =>
  let answer := d.read E.size s.dev
  ({ s with
      toBuffers := s.modify b fun buffer => splice buffer start (answer.1.getD [])
      dev := answer.2 },
    if isShort (result (answer.1.map List.length)) E.size then
      some ⟨.fail, txt "Read failed at offset " ++ natText start, []⟩
    else none)

/-- A block of the loop that erases. -/
def eraseBlock (start : ℕ) : Segment (FlashState σ) Report := fun s =>
  let answer := d.erase start E.size s.dev
  ({ s with dev := answer.2 },
    if answer.1 ≠ 0 then
      some ⟨.fail, txt "IOCTL - MEMERASE failed st offset " ++ natText start, []⟩
    else none)

/-- A block of the loop that writes. -/
def writeBlock (start : ℕ) : Segment (FlashState σ) Report := fun s =>
  let answer := d.write (slice s.buffer1 start E.size) s.dev
  ({ s with dev := answer.2 },
    if isShort (result answer.1) E.size then
      some ⟨.fail, txt "Write failed at offset " ++ natText start, []⟩
    else none)

/-- A block of the loop that compares: it is the second block in every turn. -/
def compareBlock (start : ℕ) : Segment (FlashState σ) Report := fun s =>
  (s, if slice s.buffer1 E.size E.size ≠ slice s.buffer2 E.size E.size then
      some ⟨.fail, txt "Read back data mismatch Block " ++ natText (start / E.size), []⟩
    else none)

def rewindDevice : Segment (FlashState σ) Report := fun s => ({ s with dev := d.rewind s.dev }, none)

/-- `memset(test_buffer_data1, 0xAA, ...)`. -/
def fillPattern : Segment (FlashState σ) Report := fun s =>
  ({ s with buffer1 := List.replicate (spimtdTestSize * E.size) 0xAA }, none)

def reportPass : Segment (FlashState σ) Report := fun s =>
  (s, some ⟨.pass, txt "SPI MTD Erase, Write and Read Test passed .......!", []⟩)

open Segment in
/-- `spidev_mtd_test`, after the device was opened, its erase size read and the buffers
allocated. -/
def spidevMtdTest : Segment (FlashState σ) Report :=
  (rewindDevice d).andThen <|
    (forEach (readBlock d E .one) (starts E)).andThen <|
      (forEach (eraseBlock d E) (starts E)).andThen <|
        (rewindDevice d).andThen <|
          (fillPattern E).andThen <|
            (forEach (writeBlock d E) (starts E)).andThen <|
              (rewindDevice d).andThen <|
                (forEach (readBlock d E .two) (starts E)).andThen <|
                  (forEach (compareBlock E) (starts E)).andThen reportPass

end Segments

/-! ### The answers of the device -/

section Answers

variable {σ : Type} (d : Mtd σ) (E : EraseSize)

/-- The pattern in a block. -/
def pattern : List UInt8 := List.replicate E.size 0xAA

/-- The device after reading, erasing or writing `n` blocks. -/
def afterReads : ℕ → σ → σ
  | 0, s => s
  | n + 1, s => (d.read E.size (afterReads n s)).2

def afterErases : ℕ → σ → σ
  | 0, s => s
  | n + 1, s => (d.erase (n * E.size) E.size (afterErases n s)).2

def afterWrites : ℕ → σ → σ
  | 0, s => s
  | n + 1, s => (d.write (pattern E) (afterWrites n s)).2

/-- The device before the loops that erase, write and read back. -/
def erasing (s : σ) : σ := afterReads d E 4 (d.rewind s)

def writing (s : σ) : σ := d.rewind (afterErases d E 4 (erasing d E s))

def readingBack (s : σ) : σ := d.rewind (afterWrites d E 4 (writing d E s))

/-- The loops go on after a transfer of this length. -/
def GoesOn (k : Option ℕ) : Prop := k = none ∨ k = some E.size

/-- The second block of the second buffer after reading back. -/
def secondBlock (buffer2 : List UInt8) (s : σ) : List UInt8 :=
  match (d.read E.size (afterReads d E 1 (readingBack d E s))).1 with
  | none => slice buffer2 E.size E.size
  | some data => data

/-- The loops go on after the first `n` blocks that are read from the device. -/
def ReadsOk (n : ℕ) (s : σ) : Prop :=
  ∀ k < n, GoesOn E ((d.read E.size (afterReads d E k s)).1.map List.length)

def ErasesOk (n : ℕ) (s : σ) : Prop :=
  ∀ k < n, (d.erase (k * E.size) E.size (afterErases d E k s)).1 = 0

def WritesOk (n : ℕ) (s : σ) : Prop :=
  ∀ k < n, GoesOn E (d.write (pattern E) (afterWrites d E k s)).1

/-- The answers with which the test ends with `TPASS`. -/
structure Passes (buffer2 : List UInt8) (s : σ) : Prop where
  read : ReadsOk d E 4 (d.rewind s)
  erase : ErasesOk d E 4 (erasing d E s)
  write : WritesOk d E 4 (writing d E s)
  back : ReadsOk d E 4 (readingBack d E s)
  second : secondBlock d E buffer2 s = pattern E

/-- A transfer is short unless it failed or was full. -/
theorem not_isShort_iff {k : Option ℕ} (hk : ∀ m, k = some m → m ≤ E.size) :
    ¬ isShort (result k) E.size ↔ GoesOn E k := by
  have hsmall := E.small
  simp only [spimtdTestSize] at hsmall
  unfold isShort GoesOn
  cases k with
  | none =>
      simp only [result, true_or, iff_true]
      omega
  | some m =>
      have hm := hk m rfl
      simp only [result, reduceCtorEq, false_or, Option.some.injEq]
      omega

/-- The calls of `read` are those of the first loop and those that read back. -/
theorem forall_lt_eight_iff {P : ℕ → Prop} :
    (∀ k < 8, P k) ↔ (∀ k < 4, P k) ∧ ∀ k < 4, P (4 + k) := by
  constructor
  · intro h
    exact ⟨fun k hk => h k (by omega), fun k hk => h (4 + k) (by omega)⟩
  · rintro ⟨hfirst, hback⟩ k hk
    by_cases hearly : k < 4
    · exact hfirst k hearly
    · have hlate := hback (k - 4) (by omega)
      rwa [Nat.add_sub_cancel' (Nat.not_lt.mp hearly)] at hlate

end Answers

/-! ### The loops -/

section Loops

variable {σ : Type} {d : Mtd σ} {E : EraseSize} {x : σ} {b2 : List UInt8}

/-- What holds when the test is left: the report is `TPASS` when the answers say so. -/
def LeftFlash (d : Mtd σ) (E : EraseSize) (x : σ) (b2 : List UInt8) (s : FlashState σ)
    (r : Report) : Prop :=
  (r.result = .pass ↔ Passes d E b2 x) ∧
    (r.result = .pass → s.dev = afterReads d E 4 (readingBack d E x))

variable {k : ℕ} {s : FlashState σ}

theorem leftFlash_of_fail {r : Report} (hr : r.result = .fail) (hnot : ¬ Passes d E b2 x) :
    LeftFlash d E x b2 s r := by
  have hne : r.result ≠ .pass := by
    rw [hr]
    nofun
  exact ⟨iff_of_false hne hnot, fun h => absurd h hne⟩

/-- A check of `q`: there is no report when `q` holds, and a failed one otherwise. -/
structure Checks (q : Prop) (report : Option Report) : Prop where
  goes : report = none → q
  fails : ∀ r, report = some r → r.result = .fail ∧ ¬ q

theorem checks_ite {p q : Prop} [Decidable p] {r : Report} (hr : r.result = .fail)
    (hpq : ¬ p ↔ q) : Checks q (if p then some r else none) := by
  by_cases hp : p
  · rw [if_pos hp]
    refine ⟨nofun, ?_⟩
    rintro r' ⟨⟩
    exact ⟨hr, fun hq => hpq.mpr hq hp⟩
  · rw [if_neg hp]
    exact ⟨fun _ => hpq.mp hp, nofun⟩

theorem readBlock_checks (b : Buffer) (start : ℕ) (s : FlashState σ) :
    Checks (GoesOn E ((d.read E.size s.dev).1.map List.length)) (readBlock d E b start s).2 := by
  refine checks_ite rfl (not_isShort_iff E ?_)
  intro m hm
  obtain ⟨data, hdata, rfl⟩ := Option.map_eq_some_iff.mp hm
  exact d.read_le _ _ _ hdata

theorem eraseBlock_checks (start : ℕ) (s : FlashState σ) :
    Checks ((d.erase start E.size s.dev).1 = 0) (eraseBlock d E start s).2 :=
  checks_ite rfl Decidable.not_not

theorem writeBlock_checks {start : ℕ} (hdata : slice s.buffer1 start E.size = pattern E) :
    Checks (GoesOn E (d.write (pattern E) s.dev).1) (writeBlock d E start s).2 := by
  rw [← hdata]
  refine checks_ite rfl (not_isShort_iff E ?_)
  intro m hm
  have hle := d.write_le _ _ _ hm
  rwa [hdata, pattern, List.length_replicate] at hle

open Segment in
/-- A block that checks what a passing test needs. -/
theorem triple_of_checks {P Q : FlashState σ → Prop} {block : Segment (FlashState σ) Report}
    {q : Prop} (hpass : Passes d E b2 x → q)
    (h : ∀ s, P s → Checks q (block s).2 ∧ (q → Q (block s).1)) :
    Triple P block Q (LeftFlash d E x b2) := by
  intro s hs
  obtain ⟨hcheck, hnext⟩ := h s hs
  refine ⟨fun hnone => hnext (hcheck.goes hnone), fun r hr => ?_⟩
  obtain ⟨hfail, hbad⟩ := hcheck.fails r hr
  exact leftFlash_of_fail hfail fun hp => hbad (hpass hp)

open Segment in
theorem triple_starts {body : ℕ → Segment (FlashState σ) Report} {Inv : ℕ → FlashState σ → Prop}
    {R : FlashState σ → Report → Prop}
    (h : ∀ k < 4, Triple (Inv k) (body (k * E.size)) (Inv (k + 1)) R) :
    Triple (Inv 0) (forEach body (starts E)) (Inv 4) R := by
  apply Triple.forEach
  intro k hk
  rw [show (starts E)[k] = k * E.size by simp [starts]]
  exact h k hk

/-- Before the block `k` of the first loop. -/
structure Reading (d : Mtd σ) (E : EraseSize) (x : σ) (b2 : List UInt8) (k : ℕ)
    (s : FlashState σ) : Prop where
  dev : s.dev = afterReads d E k (d.rewind x)
  buffer2 : s.buffer2 = b2
  reads : ReadsOk d E k (d.rewind x)

/-- Before the block `k` of the loop that erases. -/
structure Erasing (d : Mtd σ) (E : EraseSize) (x : σ) (b2 : List UInt8) (k : ℕ)
    (s : FlashState σ) : Prop where
  dev : s.dev = afterErases d E k (erasing d E x)
  buffer2 : s.buffer2 = b2
  reads : ReadsOk d E 4 (d.rewind x)
  erases : ErasesOk d E k (erasing d E x)

/-- Before the block `k` of the loop that writes. -/
structure Writing (d : Mtd σ) (E : EraseSize) (x : σ) (b2 : List UInt8) (k : ℕ)
    (s : FlashState σ) : Prop where
  dev : s.dev = afterWrites d E k (writing d E x)
  buffer1 : s.buffer1 = List.replicate (spimtdTestSize * E.size) 0xAA
  buffer2 : s.buffer2 = b2
  reads : ReadsOk d E 4 (d.rewind x)
  erases : ErasesOk d E 4 (erasing d E x)
  writes : WritesOk d E k (writing d E x)

/-- Before the block `k` of the loop that reads back. -/
structure ReadingBack (d : Mtd σ) (E : EraseSize) (x : σ) (b2 : List UInt8) (k : ℕ)
    (s : FlashState σ) : Prop where
  dev : s.dev = afterReads d E k (readingBack d E x)
  buffer1 : s.buffer1 = List.replicate (spimtdTestSize * E.size) 0xAA
  length : s.buffer2.length = spimtdTestSize * E.size
  second : slice s.buffer2 E.size E.size =
    if 2 ≤ k then secondBlock d E b2 x else slice b2 E.size E.size
  reads : ReadsOk d E 4 (d.rewind x)
  erases : ErasesOk d E 4 (erasing d E x)
  writes : WritesOk d E 4 (writing d E x)
  backs : ReadsOk d E k (readingBack d E x)

open Segment

theorem readBlock_triple (hk : k < 4) :
    Triple (Reading d E x b2 k) (readBlock d E .one (k * E.size)) (Reading d E x b2 (k + 1))
      (LeftFlash d E x b2) := by
  refine triple_of_checks (fun hpass => hpass.read k hk) fun s hs => ?_
  refine ⟨hs.dev ▸ readBlock_checks .one _ s, fun hgoes => ?_⟩
  exact ⟨congrArg (fun t => (d.read E.size t).2) hs.dev, hs.buffer2,
    Nat.forall_lt_succ_right.mpr ⟨hs.reads, hgoes⟩⟩

theorem eraseBlock_triple (hk : k < 4) :
    Triple (Erasing d E x b2 k) (eraseBlock d E (k * E.size)) (Erasing d E x b2 (k + 1))
      (LeftFlash d E x b2) := by
  refine triple_of_checks (fun hpass => hpass.erase k hk) fun s hs => ?_
  refine ⟨hs.dev ▸ eraseBlock_checks _ s, fun hzero => ?_⟩
  exact ⟨congrArg (fun t => (d.erase (k * E.size) E.size t).2) hs.dev, hs.buffer2, hs.reads,
    Nat.forall_lt_succ_right.mpr ⟨hs.erases, hzero⟩⟩

theorem slice_pattern (hk : k < 4) :
    slice (List.replicate (spimtdTestSize * E.size) (0xAA : UInt8)) (k * E.size) E.size =
      pattern E := by
  apply slice_replicate
  rw [← Nat.succ_mul]
  exact Nat.mul_le_mul_right E.size hk

theorem writeBlock_triple (hk : k < 4) :
    Triple (Writing d E x b2 k) (writeBlock d E (k * E.size)) (Writing d E x b2 (k + 1))
      (LeftFlash d E x b2) := by
  refine triple_of_checks (fun hpass => hpass.write k hk) fun s hs => ?_
  have hdata : slice s.buffer1 (k * E.size) E.size = pattern E := by
    rw [hs.buffer1]
    exact slice_pattern hk
  refine ⟨hs.dev ▸ writeBlock_checks hdata, fun hgoes => ?_⟩
  have hdev : (writeBlock d E (k * E.size) s).1.dev = afterWrites d E (k + 1) (writing d E x) := by
    rw [afterWrites, ← hs.dev, ← hdata]
    rfl
  exact ⟨hdev, hs.buffer1, hs.buffer2, hs.reads, hs.erases,
    Nat.forall_lt_succ_right.mpr ⟨hs.writes, hgoes⟩⟩

/-- Reading back the block `k` fills the second block of the buffer when `k` is `1`, and leaves
it alone otherwise. -/
theorem ReadingBack.second_succ (hk : k < 4) (hs : ReadingBack d E x b2 k s)
    (hgoes : GoesOn E ((d.read E.size s.dev).1.map List.length)) :
    let data := (d.read E.size s.dev).1.getD []
    (splice s.buffer2 (k * E.size) data).length = spimtdTestSize * E.size ∧
      slice (splice s.buffer2 (k * E.size) data) E.size E.size =
        if 2 ≤ k + 1 then secondBlock d E b2 x else slice b2 E.size E.size := by
  intro data
  have hdata : data.length ≤ E.size := by
    cases hanswer : (d.read E.size s.dev).1 with
    | none => simp [data, hanswer]
    | some bytes => simpa [data, hanswer] using d.read_le _ _ _ hanswer
  have hfits : k * E.size + data.length ≤ s.buffer2.length := by
    rw [hs.length, spimtdTestSize]
    have := Nat.mul_le_mul_right E.size (Nat.succ_le_of_lt hk)
    rw [Nat.succ_mul] at this
    omega
  refine ⟨(length_splice hfits).trans hs.length, ?_⟩
  have hsecond := hs.second
  match k with
  | 0 =>
      rw [slice_splice_after (by omega) hfits]
      exact hsecond
  | 1 =>
      rw [if_neg (by omega)] at hsecond
      rw [if_pos (by omega), secondBlock, ← hs.dev, Nat.one_mul]
      cases hanswer : (d.read E.size s.dev).1 with
      | none =>
          rw [show data = [] by simp [data, hanswer], splice_of_isPrefix (List.nil_prefix)]
          exact hsecond
      | some bytes =>
          have hbytes : data = bytes := by simp [data, hanswer]
          have hlength : bytes.length = E.size := by
            rw [hanswer] at hgoes
            simpa [GoesOn] using hgoes
          rw [Nat.one_mul] at hfits
          rw [hbytes]
          nth_rewrite 3 [← hlength]
          exact slice_splice (by omega)
  | k + 2 =>
      rw [if_pos (by omega)] at hsecond ⊢
      rw [slice_splice_before _ (by omega)]
      · exact hsecond
      · rw [Nat.add_mul]
        omega

theorem readBackBlock_triple (hk : k < 4) :
    Triple (ReadingBack d E x b2 k) (readBlock d E .two (k * E.size)) (ReadingBack d E x b2 (k + 1))
      (LeftFlash d E x b2) := by
  refine triple_of_checks (fun hpass => hpass.back k hk) fun s hs => ?_
  refine ⟨hs.dev ▸ readBlock_checks .two _ s, fun hgoes => ?_⟩
  obtain ⟨hlength, hsecond⟩ := hs.second_succ hk (hs.dev.symm ▸ hgoes)
  exact ⟨congrArg (fun t => (d.read E.size t).2) hs.dev, hs.buffer1, hlength, hsecond, hs.reads,
    hs.erases, hs.writes, Nat.forall_lt_succ_right.mpr ⟨hs.backs, hgoes⟩⟩

theorem compareBlock_triple (k : ℕ) :
    Triple (fun s => ReadingBack d E x b2 4 s ∧ (0 < k → secondBlock d E b2 x = pattern E))
      (compareBlock E (k * E.size))
      (fun s => ReadingBack d E x b2 4 s ∧ (0 < k + 1 → secondBlock d E b2 x = pattern E))
      (LeftFlash d E x b2) := by
  refine triple_of_checks (fun hpass => hpass.second) ?_
  rintro s ⟨hs, -⟩
  have hfirst : slice s.buffer1 E.size E.size = pattern E := by
    rw [hs.buffer1]
    simpa using slice_pattern (E := E) (show 1 < 4 by decide)
  have hsecond : slice s.buffer2 E.size E.size = secondBlock d E b2 x := hs.second
  refine ⟨checks_ite rfl ?_, fun h => ⟨hs, fun _ => h⟩⟩
  rw [hfirst, hsecond, not_not]
  exact eq_comm

theorem reportPass_triple :
    Triple (fun s => ReadingBack d E x b2 4 s ∧ (0 < 4 → secondBlock d E b2 x = pattern E))
      reportPass (fun _ => False) (LeftFlash d E x b2) := by
  rintro s ⟨hs, hsecond⟩
  refine ⟨nofun, ?_⟩
  rintro r ⟨⟩
  have hpass : Passes d E b2 x :=
    ⟨hs.reads, hs.erases, hs.writes, hs.backs, hsecond (by decide)⟩
  exact ⟨iff_of_true rfl hpass, fun _ => hs.dev⟩

/-- The parts of the test, from the start to the report. -/
theorem spidevMtdTest_triple (d : Mtd σ) (E : EraseSize) (x : σ) (b2 : List UInt8)
    (hlength : b2.length = spimtdTestSize * E.size) :
    Triple (fun s => s.dev = x ∧ s.buffer2 = b2) (spidevMtdTest d E) (fun _ => False)
      (LeftFlash d E x b2) := by
  apply Triple.andThen (Q := Reading d E x b2 0)
  · exact triple_goesOn fun s hs => ⟨congrArg d.rewind hs.1, hs.2, nofun⟩
  apply (triple_starts fun _ hk => readBlock_triple hk).andThen
  apply Triple.andThen (Q := Erasing d E x b2 4)
  · refine (triple_starts fun _ hk => eraseBlock_triple hk).weaken fun s hs => ?_
    exact ⟨hs.dev, hs.buffer2, hs.reads, nofun⟩
  apply Triple.andThen (Q := fun s => s.dev = writing d E x ∧ s.buffer2 = b2 ∧
    ReadsOk d E 4 (d.rewind x) ∧ ErasesOk d E 4 (erasing d E x))
  · exact triple_goesOn fun s hs => ⟨congrArg d.rewind hs.dev, hs.buffer2, hs.reads, hs.erases⟩
  apply Triple.andThen (Q := Writing d E x b2 0)
  · exact triple_goesOn fun s ⟨hdev, hbuffer2, hreads, herases⟩ =>
      ⟨hdev, rfl, hbuffer2, hreads, herases, nofun⟩
  apply (triple_starts fun _ hk => writeBlock_triple hk).andThen
  apply Triple.andThen (Q := ReadingBack d E x b2 0)
  · refine triple_goesOn fun s hs => ?_
    exact ⟨congrArg d.rewind hs.dev, hs.buffer1, hs.buffer2.symm ▸ hlength,
      congrArg (slice · E.size E.size) hs.buffer2, hs.reads, hs.erases, hs.writes, nofun⟩
  apply (triple_starts fun _ hk => readBackBlock_triple hk).andThen
  apply Triple.andThen _ reportPass_triple
  exact (triple_starts fun k _ => compareBlock_triple k).weaken fun s hs => ⟨hs, nofun⟩

/-- The test ends with one report, which is `TPASS` for the answers in `Passes`. -/
theorem spidevMtdTest_spec (d : Mtd σ) (E : EraseSize) (s : FlashState σ)
    (hlength : s.buffer2.length = spimtdTestSize * E.size) :
    ∃ r, (spidevMtdTest d E s).2 = some r ∧
      (r.result = .pass ↔ Passes d E s.buffer2 s.dev) ∧
      (r.result = .pass →
        (spidevMtdTest d E s).1.dev = afterReads d E 4 (readingBack d E s.dev)) := by
  obtain ⟨hon, hleft⟩ := spidevMtdTest_triple d E s.dev s.buffer2 hlength s ⟨rfl, rfl⟩
  cases hreport : (spidevMtdTest d E s).2 with
  | none => exact absurd (hon hreport) id
  | some r =>
      obtain ⟨hpass, hdev⟩ := hleft r hreport
      exact ⟨r, rfl, hpass, hdev⟩

end Loops

end EDDTs.Beaglebone
