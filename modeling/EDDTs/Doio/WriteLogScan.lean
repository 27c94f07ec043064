import EDDTs.Doio.WriteLog

/-!
# Scanning the write log backward

`wlog_scan_backward` reads the file from its end through a buffer of fixed size. What is left of
a record at the front of the buffer is moved to its end, and the bytes before it are read.
-/

namespace EDDTs.Doio

open Library

/-- `sizeof(buf)`: `BSIZE * 32` -/
def bufSize : ℕ := 512 * 32

/-- `WLOG_REC_MAX_SIZE`: a `struct wlog_rec` has 248 bytes. -/
def wlogRecMaxSize : ℕ := 248 + wlogMaxPath + wlogMaxPattern + wlogMaxHost + 2

/-- The value of a plain `char`. -/
def charValue (signed : Bool) (c : UInt8) : ℤ := if signed then c.toBitVec.toInt else c.toNat

/-- The bytes from `bufstart` to `bufend`. -/
structure Window where
  bytes : List UInt8
  fits : bytes.length ≤ bufSize

/-- The bytes that are kept at the end of the buffer. -/
structure Leftover where
  bytes : List UInt8
  short : bytes.length < bufSize

/-- Nothing is kept. -/
def Leftover.nothing : Leftover := ⟨[], by decide⟩

/-- `memcpy` of the first `n` bytes to the end; none if the areas overlap. -/
def Window.keep (w : Window) (n : ℕ) : Option Leftover :=
  if h : n = 0 ∨ 2 * n ≤ w.bytes.length then
    some ⟨w.bytes.take n, by
      have hfits := w.fits
      have hpos : 0 < bufSize := by decide
      have htake := List.length_take_le n w.bytes
      omega⟩
  else none

/-- The next offset, and the buffer after the read. -/
def fillBuffer (file : List UInt8) (offset : ℕ) (leftover : Leftover) : ℕ × Window :=
  if h : offset + leftover.bytes.length < bufSize then
    (0, ⟨slice file 0 offset ++ leftover.bytes, by
      have hslice := length_slice_le file 0 offset
      rw [List.length_append]
      omega⟩)
  else
    let nbytes := bufSize - leftover.bytes.length
    (offset - nbytes, ⟨slice file (offset - nbytes) nbytes ++ leftover.bytes, by
      have hslice := length_slice_le file (offset - nbytes) nbytes
      have hshort := leftover.short
      rw [List.length_append]
      omega⟩)

theorem fillBuffer_lt (file : List UInt8) {offset : ℕ} (h : 0 < offset) (leftover : Leftover) :
    (fillBuffer file offset leftover).1 < offset := by
  have hshort := leftover.short
  unfold fillBuffer
  split_ifs
  · exact h
  · dsimp only
    omega

/-- The record buffer, and what was passed so far. -/
structure Scan where
  albuf : List UInt8
  recnum : ℤ := 0
  passed : List WlogRec := []

/-- A record is copied, unpacked and passed to the user's function, which answers by all it has
been passed. The flag says whether the inner loop goes on. -/
def passRecord (nrecs : ℤ) (func : List WlogRec → Bool) (record : List UInt8) (s : Scan) :
    Option (Scan × Bool) := do
  let albuf := splice s.albuf 0 record
  let wrec ← wlogRecUnpack albuf
  let s := { s with albuf, passed := s.passed ++ [wrec] }
  if func s.passed then
    let s := { s with recnum := s.recnum + 1 }
    some (s, nrecs = 0 ∨ s.recnum < nrecs)
  else some (s, false)

/-- The length in front of `cp`. -/
def recordLength (signed : Bool) (w : Window) (cp : ℕ) : ℤ :=
  charValue signed (w.bytes.getD (cp - 2) 0) * 256 + charValue signed (w.bytes.getD (cp - 1) 0)

/-- The inner loop of `wlog_scan_backward`; none where a record cannot be copied. -/
def scanWindow (signed : Bool) (nrecs : ℤ) (func : List WlogRec → Bool) (w : Window) (cp : ℕ)
    (s : Scan) : Option (Leftover × Scan) :=
  if cp < 2 then (w.keep cp).map (·, s)
  else
    let reclen := recordLength signed w cp
    if (cp : ℤ) < reclen + 2 then (w.keep cp).map (·, s)
    else if reclen < 0 ∨ (wlogRecMaxSize : ℤ) < reclen then none
    else
      let start := cp - (reclen.toNat + 2)
      (passRecord nrecs func (slice w.bytes start reclen.toNat) s).bind fun (s, more) =>
        if more then scanWindow signed nrecs func w start s else some (Leftover.nothing, s)
termination_by cp
decreasing_by omega

/-- The outer loop. -/
def scanFrom (signed : Bool) (nrecs : ℤ) (func : List WlogRec → Bool) (file : List UInt8)
    (offset : ℕ) (leftover : Leftover) (s : Scan) : Option Scan :=
  if (nrecs = 0 ∨ s.recnum < nrecs) ∧ 0 < offset then
    let filled := fillBuffer file offset leftover
    (scanWindow signed nrecs func filled.2 filled.2.bytes.length s).bind fun (leftover, s) =>
      scanFrom signed nrecs func file filled.1 leftover s
  else some s
termination_by offset
decreasing_by exact fillBuffer_lt file (And.right ‹_›) _

/-- `wlog_scan_backward`: what it returns, and the records it passes. The offset is an `int`;
`albuf` is what the record buffer happens to hold. -/
def wlogScanBackward (signed : Bool) (nrecs : ℤ) (func : List WlogRec → Bool)
    (file albuf : List UInt8) : Option (ℤ × List WlogRec) :=
  let offset := Int.bmod file.length (2 ^ 32)
  if offset = -1 then some (-1, [])
  else
    (scanFrom signed nrecs func file offset.toNat Leftover.nothing { albuf }).map fun s =>
      (0, s.passed)

/-! ### One window -/

/-- The length of the record can be read from its two bytes. -/
def LengthReads (signed : Bool) (wrec : WlogRec) : Prop :=
  signed = true → diskSize + wrec.texts.length < 128

instance (signed : Bool) (wrec : WlogRec) : Decidable (LengthReads signed wrec) :=
  inferInstanceAs (Decidable (_ → _))

/-- The records from the last to the first, as they are passed. -/
def backward (signed : Bool) : List Written → List WlogRec → Option (List WlogRec)
  | [], passed => some passed
  | w :: ws, passed =>
      if LengthReads signed w.wrec then backward signed ws (passed ++ [w.wrec.readBack]) else none

/-- Every record is passed, unless the length of one cannot be read. -/
theorem backward_eq_some_iff {signed : Bool} {ws : List Written} {passed all : List WlogRec} :
    backward signed ws passed = some all ↔
      (∀ w ∈ ws, LengthReads signed w.wrec) ∧ all = passed ++ ws.map (·.wrec.readBack) := by
  induction ws generalizing passed with
  | nil => simp [backward, eq_comm]
  | cons w ws ih =>
      rw [backward]
      split_ifs with hreads
      · rw [ih]
        simp [hreads]
      · simp [hreads]

section Window

variable {signed : Bool} {w : Window} {s : Scan}

theorem texts_length_le {wrec : WlogRec} (h : wrec.Documented) : wrec.texts.length ≤ 198 := by
  have hpath : wrec.path.length % 128 < 128 := Nat.mod_lt _ (by decide)
  have hhost : wrec.host.length ≤ 8 := h.host
  have hpattern : wrec.pattern.length % 64 < 64 := Nat.mod_lt _ (by decide)
  rw [WlogRec.texts, List.length_append, List.length_append, length_take_mod, length_take_mod,
    length_take_mod]
  omega

/-- The value of the two bytes behind a record. -/
theorem charValue_length {wrec : WlogRec} (h : wrec.Documented) :
    charValue signed (UInt8.ofNat ((diskSize + wrec.texts.length) / 256)) * 256 +
        charValue signed (UInt8.ofNat ((diskSize + wrec.texts.length) % 256)) =
      if LengthReads signed wrec then ((diskSize + wrec.texts.length : ℕ) : ℤ)
      else (diskSize + wrec.texts.length : ℕ) - 256 := by
  have hle := texts_length_le h
  have hdisk : diskSize = 28 := rfl
  generalize hn : diskSize + wrec.texts.length = n
  have hhigh : n / 256 = 0 := by omega
  have hlow : n % 256 = n := by omega
  have htoNat : (UInt8.ofNat n).toNat = n := by
    rw [UInt8.toNat_ofNat']
    omega
  rw [hhigh, hlow]
  cases signed with
  | false => simp [charValue, LengthReads, htoNat]
  | true =>
      have hvalue : (UInt8.ofNat n).toBitVec.toInt = if n < 128 then (n : ℤ) else n - 256 := by
        rw [BitVec.toInt_eq_toNat_cond, UInt8.toNat_toBitVec, htoNat]
        split_ifs <;> omega
      simp [charValue, LengthReads, hvalue, hn]

/-- The two bytes are found in front of `cp`. -/
theorem recordLength_eq {front rest : List UInt8} {a b : UInt8}
    (hw : w.bytes = front ++ [a, b] ++ rest) :
    recordLength signed w (front.length + 2) = charValue signed a * 256 + charValue signed b := by
  have hfirst : w.bytes.getD (front.length + 2 - 2) 0 = a := by
    simp [hw]
  have hsecond : w.bytes.getD (front.length + 2 - 1) 0 = b := by
    simp [hw]
  rw [recordLength, hfirst, hsecond]

theorem keep_eq {taken rest : List UInt8} (hw : w.bytes = taken ++ rest)
    (hroom : taken.length = 0 ∨ 2 * taken.length ≤ w.bytes.length) :
    ∃ leftover, w.keep taken.length = some leftover ∧ leftover.bytes = taken := by
  refine ⟨_, dif_pos hroom, ?_⟩
  exact (congrArg _ hw).trans List.take_left

/-- Unpacking takes place in the record buffer, whatever was there. -/
theorem passRecord_eq (nrecs : ℤ) (func : List WlogRec → Bool) {x : Written}
    (h : x.wrec.Documented) (s : Scan) :
    ∃ albuf, passRecord nrecs func (wlogRecPack x.wrec x.wbuf true) s =
      if func (s.passed ++ [x.wrec.readBack]) then
        some (⟨albuf, s.recnum + 1, s.passed ++ [x.wrec.readBack]⟩,
          decide (nrecs = 0 ∨ s.recnum + 1 < nrecs))
      else some (⟨albuf, s.recnum, s.passed ++ [x.wrec.readBack]⟩, false) := by
  have hunpack : wlogRecUnpack (splice s.albuf 0 (wlogRecPack x.wrec x.wbuf true)) =
      some x.wrec.readBack :=
    wlogRecUnpack_pack h.host _
  refine ⟨splice s.albuf 0 (wlogRecPack x.wrec x.wbuf true), ?_⟩
  simp only [passRecord, Option.bind_eq_bind]
  rw [hunpack]
  rfl

/-- A record is passed, and the inner loop goes on only as long as the outer one does. -/
theorem passRecord_eq_some {nrecs : ℤ} {func : List WlogRec → Bool} {record : List UInt8}
    {s' : Scan} {more : Bool} (h : passRecord nrecs func record s = some (s', more)) :
    (∃ wrec, s'.passed = s.passed ++ [wrec]) ∧
      (more = true → nrecs = 0 ∨ s'.recnum < nrecs) := by
  simp only [passRecord, Option.bind_eq_bind, Option.bind_eq_some_iff] at h
  obtain ⟨wrec, -, h⟩ := h
  split_ifs at h
  · obtain ⟨rfl, rfl⟩ := Prod.mk.inj (Option.some.inj h)
    exact ⟨⟨wrec, rfl⟩, of_decide_eq_true⟩
  · obtain ⟨rfl, rfl⟩ := Prod.mk.inj (Option.some.inj h)
    exact ⟨⟨wrec, rfl⟩, by rintro ⟨⟩⟩

variable {front taken rest : List UInt8} {x : Written} {ws : List Written}

theorem image_reverse_cons (x : Written) (ws : List Written) :
    image (x :: ws).reverse = image ws.reverse ++ x.record := by
  rw [List.reverse_cons, image_append]
  exact congrArg _ (List.append_nil _)

/-- A record that is not complete is kept. -/
theorem keep_incomplete (hw : w.bytes = taken ++ rest)
    (hbytes : front ++ taken = image (x :: ws).reverse) (hdoc : x.wrec.Documented)
    (hfull : front ≠ [] → w.bytes.length = bufSize) (hshort : taken.length < x.record.length) :
    front ≠ [] ∧ ∃ leftover, w.keep taken.length = some leftover ∧ leftover.bytes = taken := by
  have hfront : front ≠ [] := by
    rintro rfl
    have hlength := congrArg List.length hbytes
    rw [image_reverse_cons, List.length_append, List.length_append, List.length_nil] at hlength
    omega
  have hle := texts_length_le hdoc
  have hrecord := x.length_record
  have hsize : w.bytes.length = 16384 := hfull hfront
  have hdisk : diskSize = 28 := rfl
  exact ⟨hfront, keep_eq hw (.inr (by omega))⟩

/-- The two bytes in front of `cp` are the length of the last record. -/
theorem recordLength_record (signed : Bool) (hw : w.bytes = taken ++ rest)
    (hbytes : front ++ taken = image (x :: ws).reverse) (hdoc : x.wrec.Documented)
    (htwo : 2 ≤ taken.length) :
    recordLength signed w taken.length =
      if LengthReads signed x.wrec then ((diskSize + x.wrec.texts.length : ℕ) : ℤ)
      else (diskSize + x.wrec.texts.length : ℕ) - 256 := by
  rw [image_reverse_cons, Written.record_eq, WlogRec.behind, ← List.append_assoc,
    ← List.append_assoc] at hbytes
  obtain ⟨before, rfl, -⟩ := append_eq_append_suffix hbytes htwo
  rw [List.length_append, ← charValue_length hdoc]
  exact recordLength_eq hw

/-- One turn of the inner loop passes a record that is there with its length. -/
theorem scanWindow_pass {before : List UInt8} (signed : Bool) (nrecs : ℤ)
    (func : List WlogRec → Bool) (s : Scan) (hw : w.bytes = before ++ x.record ++ rest)
    (hdoc : x.wrec.Documented)
    (hreclen : recordLength signed w (before ++ x.record).length =
      ((diskSize + x.wrec.texts.length : ℕ) : ℤ)) :
    scanWindow signed nrecs func w (before ++ x.record).length s =
      (passRecord nrecs func (wlogRecPack x.wrec x.wbuf true) s).bind fun (s, more) =>
        if more then scanWindow signed nrecs func w before.length s
        else some (Leftover.nothing, s) := by
  have hle := texts_length_le hdoc
  have hrecord := x.length_record
  have hdisk : diskSize = 28 := rfl
  have hmax : wlogRecMaxSize = 450 := rfl
  have hlength : (before ++ x.record).length = before.length + x.record.length :=
    List.length_append
  have hstart : (before ++ x.record).length - (diskSize + x.wrec.texts.length + 2) =
      before.length := by omega
  have hcopied : slice w.bytes before.length (diskSize + x.wrec.texts.length) =
      wlogRecPack x.wrec x.wbuf true := by
    rw [hw, Written.record, List.append_assoc, List.append_assoc]
    exact slice_append_middle rfl x.length_pack
  rw [scanWindow, if_neg (by omega)]
  simp only [hreclen, Int.toNat_natCast, hstart, hcopied]
  rw [if_neg (by omega), if_neg (by omega)]

end Window

/-! ### The whole file -/

section File

variable {file : List UInt8} {ws : List Written}

/-- The buffer gets the bytes in front of those it keeps, and is full unless the file is read up
to its beginning. -/
theorem fillBuffer_spec {offset : ℕ} (hoffset : offset ≤ file.length) (leftover : Leftover) :
    let filled := fillBuffer file offset leftover
    file.take filled.1 ++ filled.2.bytes = file.take offset ++ leftover.bytes ∧
      (file.take filled.1 ≠ [] → filled.2.bytes.length = bufSize) ∧
      filled.1 = offset + leftover.bytes.length - bufSize := by
  have hshort := leftover.short
  unfold fillBuffer
  split_ifs with hfirst
  · refine ⟨?_, fun h => absurd List.take_zero h, by dsimp only; omega⟩
    simp only [slice, List.take_zero, List.nil_append, List.drop_zero]
  · dsimp only
    generalize hnbytes : bufSize - leftover.bytes.length = nbytes
    have hle : nbytes ≤ offset := by omega
    have hback : offset - nbytes + nbytes = offset := Nat.sub_add_cancel hle
    refine ⟨?_, fun _ => ?_, by omega⟩
    · rw [← List.append_assoc, slice, ← List.take_add, hback]
    · rw [List.length_append, length_slice (by omega)]
      omega

/-- The offset of the window in which the next record is read: that of the present one, unless
the record is not complete in it. -/
def windowStart (offset : ℕ) : List Written → ℕ
  | [] => offset
  | x :: ws =>
      if (image (x :: ws).reverse).length < offset + x.record.length then
        (image (x :: ws).reverse).length - bufSize
      else offset

/-- The records as they are passed from the window at an offset on. The scan ends, or goes on
with the offset that is returned. -/
def follow (signed : Bool) (nrecs : ℤ) (func : List WlogRec → Bool) :
    ℕ → List Written → Scan → Option (ℕ × Scan)
  | _, [], s => some (0, s)
  | offset, x :: ws, s =>
      let start := windowStart offset (x :: ws)
      if LengthReads signed x.wrec then
        (passRecord nrecs func (wlogRecPack x.wrec x.wbuf true) s).bind fun (s, more) =>
          if more then follow signed nrecs func start ws s else some (start, s)
      else none

section Follow

variable {signed : Bool} {nrecs : ℤ} {func : List WlogRec → Bool} {offset : ℕ}

/-- Only the window of the next record matters. -/
theorem follow_congr {o₁ o₂ : ℕ} (s : Scan)
    (h : ∀ x ws', ws = x :: ws' → windowStart o₁ ws = windowStart o₂ ws) :
    follow signed nrecs func o₁ ws s = follow signed nrecs func o₂ ws s := by
  cases ws with
  | nil => rfl
  | cons x ws => rw [follow, follow, h x ws rfl]

/-- A record that is not complete is read in the window that ends with it. -/
theorem windowStart_open {x : Written} {o : ℕ}
    (h : (image (x :: ws).reverse).length < o + x.record.length) :
    windowStart o (x :: ws) = (image (x :: ws).reverse).length - bufSize :=
  if_pos h

/-- A record is complete in the window that ends with it. -/
theorem windowStart_complete {x : Written} (hdoc : x.wrec.Documented) :
    windowStart ((image (x :: ws).reverse).length - bufSize) (x :: ws) =
      (image (x :: ws).reverse).length - bufSize := by
  have hle := texts_length_le hdoc
  have hrecord := x.length_record
  have hdisk : diskSize = 28 := rfl
  have hbuf : bufSize = 16384 := rfl
  have htotal : (image (x :: ws).reverse).length =
      (image ws.reverse).length + x.record.length := by
    rw [image_reverse_cons, List.length_append]
  exact if_neg (by omega)

/-- Where the outer loop goes on behind a whole record. -/
def scanOn (signed : Bool) (nrecs : ℤ) (func : List WlogRec → Bool) (file : List UInt8)
    (after : ℕ × Scan) : Option Scan :=
  scanFrom signed nrecs func file after.1 Leftover.nothing after.2

/-- The outer loop from an offset on, at a place where the bytes that are left are whole
records. -/
def ScansFrom (signed : Bool) (nrecs : ℤ) (func : List WlogRec → Bool) (file : List UInt8)
    (offset : ℕ) : Prop :=
  ∀ {leftover : Leftover} {ws : List Written} (s : Scan),
    file.take offset ++ leftover.bytes = image ws.reverse → (offset = 0 → ws = []) →
    (∀ x ∈ ws, x.wrec.Documented) → (nrecs = 0 ∨ s.recnum < nrecs) →
    scanFrom signed nrecs func file offset leftover s =
      (follow signed nrecs func (image ws.reverse).length ws s).bind
        (scanOn signed nrecs func file)

/-- The inner loop with all that follows it. -/
theorem scanWindow_follow {w : Window} {taken rest : List UInt8}
    (houter : ScansFrom signed nrecs func file offset) (hoffset : offset ≤ file.length)
    (hfull : file.take offset ≠ [] → w.bytes.length = bufSize) (s : Scan)
    (hw : w.bytes = taken ++ rest) (hbytes : file.take offset ++ taken = image ws.reverse)
    (hdoc : ∀ x ∈ ws, x.wrec.Documented) (hmore : nrecs = 0 ∨ s.recnum < nrecs) :
    ((scanWindow signed nrecs func w taken.length s).bind fun (leftover, s) =>
        scanFrom signed nrecs func file offset leftover s) =
      (follow signed nrecs func offset ws s).bind (scanOn signed nrecs func file) := by
  induction ws generalizing taken rest s with
  | nil =>
      have hnil : taken = [] := (List.append_eq_nil_iff.mp hbytes).2
      obtain ⟨leftover, hkeep, hleft⟩ := keep_eq hw (.inl (congrArg _ hnil))
      rw [scanWindow, if_pos (by simp [hnil]), hkeep]
      exact houter s (hleft ▸ hbytes) (fun _ => rfl) hdoc hmore
  | cons x ws ih =>
      have hx : x.wrec.Documented := hdoc x List.mem_cons_self
      have hle := texts_length_le hx
      have hrecord := x.length_record
      have hdisk : diskSize = 28 := rfl
      have htotal : (image (x :: ws).reverse).length = offset + taken.length := by
        rw [← hbytes, List.length_append, List.length_take, Nat.min_eq_left hoffset]
      have hincomplete (hshort : taken.length < x.record.length) :
          (((w.keep taken.length).map (·, s)).bind fun (leftover, s) =>
              scanFrom signed nrecs func file offset leftover s) =
            (follow signed nrecs func offset (x :: ws) s).bind
              (scanOn signed nrecs func file) := by
        obtain ⟨hfront, leftover, hkeep, hleft⟩ := keep_incomplete hw hbytes hx hfull hshort
        have hreopen : follow signed nrecs func offset (x :: ws) s =
            follow signed nrecs func (image (x :: ws).reverse).length (x :: ws) s :=
          follow_congr s fun _ _ _ => by
            rw [windowStart_open (by omega), windowStart_open (by omega)]
        rw [hkeep, hreopen]
        exact houter s (hleft ▸ hbytes) (fun h => absurd (by rw [h, List.take_zero]) hfront)
          hdoc hmore
      by_cases hcp : taken.length < 2
      · rw [scanWindow, if_pos hcp]
        exact hincomplete (by omega)
      have hreclen := recordLength_record signed hw hbytes hx (by omega)
      by_cases hreads : LengthReads signed x.wrec
      · rw [if_pos hreads] at hreclen
        by_cases hshort : taken.length < x.record.length
        · rw [scanWindow, if_neg hcp]
          simp only [hreclen]
          rw [if_pos (by omega)]
          exact hincomplete hshort
        · have hstart : windowStart offset (x :: ws) = offset := if_neg (by omega)
          rw [image_reverse_cons] at hbytes
          obtain ⟨before, rfl, hbefore⟩ := append_eq_append_suffix hbytes (by omega)
          rw [scanWindow_pass signed nrecs func s hw hx hreclen, follow, if_pos hreads, hstart,
            Option.bind_assoc, Option.bind_assoc]
          refine Option.bind_congr fun after hafter => ?_
          obtain ⟨s₁, more⟩ := after
          cases more with
          | false => rfl
          | true =>
              exact ih s₁ (hw.trans (List.append_assoc ..)) hbefore
                (fun y hy => hdoc y (List.mem_cons_of_mem x hy)) ((passRecord_eq_some hafter).2 rfl)
      · rw [if_neg hreads] at hreclen
        rw [scanWindow, if_neg hcp, follow, if_neg hreads]
        simp only [hreclen]
        rw [if_neg (by omega), if_pos (by omega)]
        rfl

/-- The outer loop, by induction on the offset. -/
theorem scanFrom_follow (signed : Bool) (nrecs : ℤ) (func : List WlogRec → Bool)
    (hoffset : offset ≤ file.length) : ScansFrom signed nrecs func file offset := by
  induction offset using Nat.strong_induction_on with
  | _ offset ih =>
      intro leftover ws s hbytes hstart hdoc hmore
      by_cases hpos : 0 < offset
      · obtain ⟨hfilled, hfull, hnext⟩ := fillBuffer_spec hoffset leftover
        have hlt := fillBuffer_lt file hpos leftover
        have htotal : (image ws.reverse).length = offset + leftover.bytes.length := by
          rw [← hbytes, List.length_append, List.length_take, Nat.min_eq_left hoffset]
        rw [scanFrom, if_pos ⟨hmore, hpos⟩]
        dsimp only
        generalize fillBuffer file offset leftover = filled at *
        have hle : filled.1 ≤ file.length := hlt.le.trans hoffset
        rw [← htotal] at hnext
        have hopen : follow signed nrecs func filled.1 ws s =
            follow signed nrecs func (image ws.reverse).length ws s := by
          refine follow_congr s fun x ws' hws => ?_
          subst hws
          have hrecord := x.length_record
          rw [hnext, windowStart_complete (hdoc x List.mem_cons_self),
            windowStart_open (by omega)]
        rw [scanWindow_follow (ih filled.1 hlt hle) hle hfull s (List.append_nil _).symm
          (hfilled.trans hbytes) hdoc hmore, hopen]
      · obtain rfl : ws = [] := hstart (by omega)
        obtain rfl : offset = 0 := by omega
        rw [scanFrom, if_neg fun h => hpos h.2, follow, Option.bind_some, scanOn, scanFrom,
          if_neg fun h => hpos h.2]

end Follow

/-- The scan of a log whose size is an `int`. -/
theorem wlogScanBackward_follow {log : List Written} (hdoc : ∀ x ∈ log, x.wrec.Documented)
    (hsize : (image log).length < 2 ^ 31) (signed : Bool) {nrecs : ℤ} (hnrecs : 0 ≤ nrecs)
    (func : List WlogRec → Bool) (albuf : List UInt8) :
    wlogScanBackward signed nrecs func (image log) albuf =
      ((follow signed nrecs func (image log).length log.reverse { albuf }).bind
        (scanOn signed nrecs func (image log))).map fun s => (0, s.passed) := by
  have hoffset : Int.bmod (image log).length (2 ^ 32) = (image log).length :=
    Int.bmod_eq_of_le_mul_two (by omega) (by omega)
  have hempty (h : (image log).length = 0) : log.reverse = [] := by
    cases log with
    | nil => rfl
    | cons x log =>
        have hrecord := x.length_record
        rw [length_image, List.map_cons, List.sum_cons] at h
        omega
  have hbytes : (image log).take (image log).length ++ Leftover.nothing.bytes =
      image log.reverse.reverse := by
    rw [List.take_length, List.reverse_reverse]
    exact List.append_nil _
  have hmore : nrecs = 0 ∨ (0 : ℤ) < nrecs := by omega
  have hscan : scanFrom signed nrecs func (image log) (image log).length Leftover.nothing
        { albuf } = _ :=
    scanFrom_follow signed nrecs func le_rfl { albuf } hbytes hempty
      (fun x hx => hdoc x (List.mem_reverse.mp hx)) hmore
  rw [List.reverse_reverse] at hscan
  unfold wlogScanBackward
  rw [hoffset]
  dsimp only
  rw [if_neg (by omega), Int.toNat_natCast, hscan]

/-- A scan that is not to stop passes every record. -/
theorem follow_backward (file : List UInt8) (signed : Bool)
    (hdoc : ∀ x ∈ ws, x.wrec.Documented) (offset : ℕ) (s : Scan) :
    ((follow signed 0 (fun _ => true) offset ws s).bind
        (scanOn signed 0 (fun _ => true) file)).map Scan.passed =
      backward signed ws s.passed := by
  induction ws generalizing offset s with
  | nil =>
      rw [follow, Option.bind_some, scanOn, scanFrom, if_neg (by simp)]
      rfl
  | cons x ws ih =>
      obtain ⟨albuf, hpass⟩ :=
        passRecord_eq 0 (fun _ => true) (hdoc x List.mem_cons_self) s
      rw [follow, backward]
      split_ifs with hreads
      · rw [hpass]
        exact ih (fun y hy => hdoc y (List.mem_cons_of_mem x hy)) _ _
      · rfl

theorem wlogScanBackward_image {log : List Written} (hdoc : ∀ x ∈ log, x.wrec.Documented)
    (hsize : (image log).length < 2 ^ 31) (signed : Bool) (albuf : List UInt8) :
    wlogScanBackward signed 0 (fun _ => true) (image log) albuf =
      (backward signed log.reverse []).map fun passed => (0, passed) := by
  have hfollow := follow_backward (image log) signed
    (fun x hx => hdoc x (List.mem_reverse.mp hx)) (image log).length { albuf }
  rw [wlogScanBackward_follow hdoc hsize signed le_rfl, ← hfollow, Option.map_map]
  rfl

/-- The offset of a longer log is negative. -/
theorem wlogScanBackward_long (hlong : 2 ^ 31 ≤ file.length) (hsize : file.length < 2 ^ 32)
    (signed : Bool) (nrecs : ℤ) (func : List WlogRec → Bool) (albuf : List UInt8) :
    ∃ result, wlogScanBackward signed nrecs func file albuf = some (result, []) := by
  have hoffset : Int.bmod file.length (2 ^ 32) = file.length - 2 ^ 32 :=
    (Int.bmod_eq_iff (by decide)).mpr ⟨by omega, by omega, ⟨-1, by omega⟩⟩
  unfold wlogScanBackward
  rw [hoffset]
  dsimp only
  split_ifs
  · exact ⟨_, rfl⟩
  · have hzero : ((file.length : ℤ) - 2 ^ 32).toNat = 0 := by omega
    rw [hzero, scanFrom, if_neg (by simp)]
    exact ⟨_, rfl⟩

end File

/-! ### The round trip -/

/-- The length of a record whose texts are all stored. -/
def WlogRec.reclen (wrec : WlogRec) : ℕ :=
  diskSize + wrec.path.length + wrec.host.length + wrec.pattern.length

/-- The values fit their fields, the lengths are values of a plain `char`, and the size of the
log is an `int`. -/
structure Readable (signed : Bool) (log : List WlogRec) : Prop where
  pid : ∀ r ∈ log, r.pid.toNat < 2 ^ 17
  path : ∀ r ∈ log, r.path.length < 128
  pattern : ∀ r ∈ log, r.pattern.length < 64
  length : signed = true → ∀ r ∈ log, r.reclen < 128
  size : (log.map fun r => r.reclen + 2).sum < 2 ^ 31

section RoundTrip

variable {log : List Written}

theorem reclen_eq {wrec : WlogRec} (hdoc : wrec.Documented) (hpath : wrec.path.length < 128)
    (hpattern : wrec.pattern.length < 64) : diskSize + wrec.texts.length = wrec.reclen := by
  have hhost : wrec.host.length ≤ 8 := hdoc.host
  rw [WlogRec.texts, WlogRec.reclen, List.length_append, List.length_append, length_take_mod,
    length_take_mod, length_take_mod]
  omega

/-- The size of a log whose texts are all stored. -/
theorem length_image_eq (hdoc : ∀ x ∈ log, x.wrec.Documented)
    (hpath : ∀ x ∈ log, x.wrec.path.length < 128)
    (hpattern : ∀ x ∈ log, x.wrec.pattern.length < 64) :
    (image log).length = ((log.map (·.wrec)).map fun r => r.reclen + 2).sum := by
  rw [length_image, List.map_map]
  refine congrArg List.sum (List.map_congr_left fun x hx => ?_)
  rw [x.length_record, reclen_eq (hdoc x hx) (hpath x hx) (hpattern x hx)]
  rfl

/-- A log is readable if every record comes back, every length can be read and all of it can be
reached. -/
theorem readable_iff (hdoc : ∀ x ∈ log, x.wrec.Documented) (signed : Bool) :
    Readable signed (log.map (·.wrec)) ↔
      (∀ x ∈ log, x.wrec.readBack = x.wrec) ∧ (∀ x ∈ log, LengthReads signed x.wrec) ∧
        (image log).length < 2 ^ 31 := by
  constructor
  · rintro ⟨hpid, hpath, hpattern, hlength, hsize⟩
    simp only [List.forall_mem_map] at hpid hpath hpattern hlength
    refine ⟨fun x hx => ?_, fun x hx hsigned => ?_, ?_⟩
    · exact (WlogRec.readBack_eq_iff (hdoc x hx)).mpr ⟨hpid x hx, hpath x hx, hpattern x hx⟩
    · rw [reclen_eq (hdoc x hx) (hpath x hx) (hpattern x hx)]
      exact hlength hsigned x hx
    · rwa [length_image_eq hdoc hpath hpattern]
  · rintro ⟨hback, hreads, hsize⟩
    have hfits x hx := (WlogRec.readBack_eq_iff (hdoc x hx)).mp (hback x hx)
    have hpath x hx := (hfits x hx).2.1
    have hpattern x hx := (hfits x hx).2.2
    constructor
    · exact List.forall_mem_map.mpr fun x hx => (hfits x hx).1
    · exact List.forall_mem_map.mpr hpath
    · exact List.forall_mem_map.mpr hpattern
    · refine fun hsigned => List.forall_mem_map.mpr fun x hx => ?_
      rw [← reclen_eq (hdoc x hx) (hpath x hx) (hpattern x hx)]
      exact hreads x hx hsigned
    · rwa [← length_image_eq hdoc hpath hpattern]

/-- The scan of a log that is not too long is right exactly if the log is readable. -/
theorem wlogScanBackward_image_iff (hdoc : ∀ x ∈ log, x.wrec.Documented)
    (hsize : (image log).length < 2 ^ 31) (signed : Bool) (albuf : List UInt8) :
    wlogScanBackward signed 0 (fun _ => true) (image log) albuf =
        some (0, (log.map (·.wrec)).reverse) ↔
      Readable signed (log.map (·.wrec)) := by
  have hpassed : (log.map (·.wrec)).reverse = log.reverse.map (·.wrec.readBack) ↔
      ∀ x ∈ log, x.wrec.readBack = x.wrec := by
    rw [← List.map_reverse, List.map_inj_left]
    simp only [List.mem_reverse, eq_comm]
  rw [wlogScanBackward_image hdoc hsize, readable_iff hdoc, ← hpassed]
  simp only [Option.map_eq_some_iff, Prod.mk.injEq, true_and, exists_eq_right,
    backward_eq_some_iff, List.mem_reverse, List.nil_append, hsize, and_true]
  exact and_comm

/-- The records last written come from the calls. -/
theorem forall_enter {P : Written → Prop} {cs : List LogCall} {log : List Entry}
    (hlog : ∀ x ∈ log, P x.last) (hcs : ∀ c ∈ cs, P c.written) :
    ∀ x ∈ cs.foldl LogCall.enter log, P x.last := by
  induction cs generalizing log with
  | nil => exact hlog
  | cons c cs ih =>
      obtain ⟨hc, hcs⟩ := List.forall_mem_cons.mp hcs
      refine ih ?_ hcs
      cases c with
      | append w => exact List.forall_mem_append.mpr ⟨hlog, List.forall_mem_singleton.mpr hc⟩
      | overlay which w =>
          intro x hx
          obtain ⟨k, hk⟩ := List.mem_iff_getElem?.mp hx
          rw [LogCall.enter, List.getElem?_modify] at hk
          obtain ⟨y, hy, rfl⟩ := Option.map_eq_some_iff.mp hk
          split_ifs
          · exact hc
          · exact hlog y (List.mem_of_getElem? hy)

end RoundTrip

/-- For every sequence of records that are appended and overlaid, at last with their own texts: the
backward scan passes each record once, from the last to the first and as last written, if the log
is readable; and up to a size of 4 GiB only if it is. -/
theorem wlogScanBackward_iff (signed : Bool) (cs : List LogCall) (s : LogState)
    (albuf : List UInt8) (hcalls : LogState.calls {} cs = some s)
    (hdoc : ∀ c ∈ cs, c.written.wrec.Documented) :
    let entries := cs.foldl LogCall.enter []
    let log := entries.map (·.last.wrec)
    let Right := wlogScanBackward signed 0 (fun _ => true) s.file albuf = some (0, log.reverse)
    (KeepsTexts entries ∧ Readable signed log → Right) ∧
      (KeepsTexts entries → s.file.length < 2 ^ 32 → Right → Readable signed log) := by
  intro entries log Right
  have hlog : log = (entries.map Entry.last).map (·.wrec) := (List.map_map ..).symm
  have hdocLog : ∀ x ∈ entries.map Entry.last, x.wrec.Documented :=
    List.forall_mem_map.mpr (forall_enter (P := (·.wrec.Documented)) (List.forall_mem_nil _) hdoc)
  rw [hlog]
  constructor
  · rintro ⟨hkeeps, hreadable⟩
    have hsize := ((readable_iff hdocLog signed).mp hreadable).2.2
    have hfile := file_eq_image hcalls hkeeps (.inl hsize)
    simp only [Right, hfile, hlog]
    exact (wlogScanBackward_image_iff hdocLog hsize signed albuf).mpr hreadable
  · intro hkeeps hlength hright
    have hsize : s.file.length < 2 ^ 31 := by
      by_contra hlong
      obtain ⟨result, hscan⟩ := wlogScanBackward_long (not_lt.mp hlong) hlength signed 0
        (fun _ => true) albuf
      have hnil : entries = [] := by
        have hpassed := (Prod.mk.inj (Option.some.inj (hscan.symm.trans hright))).2
        simpa [log] using hpassed
      have hfile := file_eq_image hcalls hkeeps (.inl (by
        rw [show cs.foldl LogCall.enter [] = [] from hnil]
        decide))
      rw [hfile, show cs.foldl LogCall.enter [] = [] from hnil] at hlong
      exact hlong (by decide)
    have hfile := file_eq_image hcalls hkeeps (.inr hsize)
    simp only [Right, hfile, hlog] at hright
    exact (wlogScanBackward_image_iff hdocLog (hfile ▸ hsize) signed albuf).mp hright

/-- An asynchronous write of the process 700 on the host `n` to the file `f`. -/
def firstWrite : WlogRec := ⟨700, 0, 512, 1, 0, 1, [110], [102], [65, 66]⟩

/-- Another one, at once. -/
def secondWrite : WlogRec := ⟨131071, 4096, 80, 1, 1, 0, [110], [102, 50], []⟩

/-- The first write is completed after the second. -/
def logged : List LogCall :=
  [.append ⟨firstWrite, []⟩, .append ⟨secondWrite, [255, 255]⟩,
    .overlay 0 ⟨{ firstWrite with done := 1 }, [7]⟩]

theorem wlogScanBackward_iff_logged :
    ∃ s, LogState.calls {} logged = some s ∧
      wlogScanBackward true 0 (fun _ => true) s.file [] =
        some (0, [secondWrite, { firstWrite with done := 1 }]) := by
  have hdoc : ∀ c ∈ logged, c.written.wrec.Documented := by
    simp only [logged, List.forall_mem_cons]
    refine ⟨?_, ?_, ?_, by simp⟩ <;> constructor <;> decide
  have hkeeps : KeepsTexts (logged.foldl LogCall.enter []) := by
    intro x hx
    rcases List.mem_pair.mp hx with rfl | rfl <;> exact ⟨rfl, rfl, rfl⟩
  have hreadable : Readable true ((logged.foldl LogCall.enter []).map (·.last.wrec)) := by
    constructor <;> decide
  exact ⟨_, rfl, (wlogScanBackward_iff true logged _ [] rfl hdoc).1 ⟨hkeeps, hreadable⟩⟩

/-- A log of one record. -/
theorem wlogScanBackward_single (signed : Bool) (w : Written) (hdoc : w.wrec.Documented) :
    ∃ s, LogState.calls {} [.append w] = some s ∧
      wlogScanBackward signed 0 (fun _ => true) s.file [] =
        if LengthReads signed w.wrec then some (0, [w.wrec.readBack]) else none := by
  have himage : image [w] = w.record := List.append_nil w.record
  have hsize : (image [w]).length < 2 ^ 31 := by
    have hle := texts_length_le hdoc
    have hdisk : diskSize = 28 := rfl
    rw [himage, w.length_record]
    omega
  refine ⟨_, rfl, ?_⟩
  have hdocs : ∀ x ∈ [w], x.wrec.Documented := by simpa using hdoc
  have hscan := wlogScanBackward_image hdocs hsize signed []
  rw [himage, List.reverse_singleton, backward] at hscan
  refine hscan.trans ?_
  split_ifs <;> rfl

/-- The process number 131072 comes back as 0; and the length of a record with a path of 100
characters is negative where a plain `char` is signed. -/
theorem wlogScanBackward_wrong :
    (∃ s, LogState.calls {} [.append ⟨{ firstWrite with pid := 131072 }, []⟩] = some s ∧
      wlogScanBackward false 0 (fun _ => true) s.file [] =
        some (0, [{ firstWrite with pid := 0 }])) ∧
    ∃ s, LogState.calls {} [.append ⟨{ firstWrite with path := List.replicate 100 102 }, []⟩] =
        some s ∧
      wlogScanBackward true 0 (fun _ => true) s.file [] = none := by
  constructor
  · exact wlogScanBackward_single false ⟨{ firstWrite with pid := 131072 }, []⟩
      (by constructor <;> decide)
  · let w : Written := ⟨{ firstWrite with path := List.replicate 100 102 }, []⟩
    have hlong : ¬ LengthReads true w.wrec := by
      simp [w, LengthReads, WlogRec.texts, firstWrite, diskSize]
    have hscan := wlogScanBackward_single true w (by constructor <;> decide)
    rwa [if_neg hlong] at hscan

end EDDTs.Doio
