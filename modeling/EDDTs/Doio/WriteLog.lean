import EDDTs.Library.ByteFile
import EDDTs.Library.LittleEndian
import Mathlib.Algebra.Order.Ring.Int

/-!
# The write log of doio

The records of `write_log.c` on disk: a fixed part of bit-fields, the texts, and two bytes of
length. All calls of `write` and `lseek` succeed, and the bit-fields lie as on targets that store
the lowest byte first.
-/

namespace EDDTs.Doio

open Library

/-- `struct wlog_rec`. An array and its length are the list of that many characters, and the
array is zero behind them. -/
structure WlogRec where
  pid : BitVec 32
  offset : BitVec 32
  nbytes : BitVec 32
  oflags : BitVec 32
  done : BitVec 32
  async : BitVec 32
  host : List UInt8
  path : List UInt8
  pattern : List UInt8
  deriving DecidableEq

/-- `WLOG_MAX_PATH` -/
def wlogMaxPath : ℕ := 128

/-- `WLOG_MAX_PATTERN` -/
def wlogMaxPattern : ℕ := 64

/-- `WLOG_MAX_HOST` -/
def wlogMaxHost : ℕ := 8

/-- `struct wlog_rec_disk`, with the bits that belong to no field. A field that does not fit into
the rest of its unit of 32 bits starts the next one. -/
structure WlogRecDisk where
  offset : BitVec 32
  extra0 : BitVec 32
  nbytes : BitVec 32
  oflags : BitVec 32
  pid : BitVec 17
  pathlen : BitVec 7
  patternlen : BitVec 6
  unused4 : BitVec 2
  hostlen : BitVec 4
  done : BitVec 1
  async : BitVec 1
  unused5 : BitVec 26
  extra2 : BitVec 28
  unused6 : BitVec 4

/-- `sizeof(struct wlog_rec_disk)` -/
def diskSize : ℕ := 28

namespace WlogRecDisk

/-- The structure as one number. -/
def bits (d : WlogRecDisk) : BitVec 224 :=
  d.unused6 ++ d.extra2 ++ d.unused5 ++ d.async ++ d.done ++ d.hostlen ++ d.unused4 ++
    d.patternlen ++ d.pathlen ++ d.pid ++ d.oflags ++ d.nbytes ++ d.extra0 ++ d.offset

/-- The structure with these bits. -/
def ofBits (x : BitVec 224) : WlogRecDisk where
  offset := x.extractLsb' 0 32
  extra0 := x.extractLsb' 32 32
  nbytes := x.extractLsb' 64 32
  oflags := x.extractLsb' 96 32
  pid := x.extractLsb' 128 17
  pathlen := x.extractLsb' 145 7
  patternlen := x.extractLsb' 152 6
  unused4 := x.extractLsb' 158 2
  hostlen := x.extractLsb' 160 4
  done := x.extractLsb' 164 1
  async := x.extractLsb' 165 1
  unused5 := x.extractLsb' 166 26
  extra2 := x.extractLsb' 192 28
  unused6 := x.extractLsb' 220 4

theorem ofBits_bits (d : WlogRecDisk) : ofBits d.bits = d := by
  simp (disch := decide) only [ofBits, bits, BitVec.extractLsb'_append_eq_of_le,
    BitVec.extractLsb'_append_eq_of_add_le, Nat.reduceSub, BitVec.extractLsb'_eq_self]

/-- What is in memory. -/
def bytes (d : WlogRecDisk) : List UInt8 := toBytes diskSize d.bits.toNat

/-- What is read from memory. -/
def read (buf : List UInt8) : WlogRecDisk := ofBits (BitVec.ofNat 224 (ofBytes (buf.take diskSize)))

theorem read_bytes (d : WlogRecDisk) (behind : List UInt8) : read (d.bytes ++ behind) = d := by
  have htake : (d.bytes ++ behind).take diskSize = d.bytes := List.take_left' (length_toBytes ..)
  have hbits : BitVec.ofNat 224 (ofBytes d.bytes) = d.bits :=
    ofNat_ofBytes_toBytes diskSize (by decide) d.bits
  rw [read, htake, hbits, ofBits_bits]

end WlogRecDisk

/-! ### Packing -/

/-- The fixed part that `wlog_rec_pack` leaves in `buf`; the bits it does not set stay. -/
def packFixed (wrec : WlogRec) (buf : List UInt8) : WlogRecDisk :=
  { WlogRecDisk.read buf with
    pid := wrec.pid.setWidth 17
    offset := wrec.offset
    nbytes := wrec.nbytes
    oflags := wrec.oflags
    done := wrec.done.setWidth 1
    async := wrec.async.setWidth 1
    pathlen := BitVec.ofNat 7 wrec.path.length
    hostlen := BitVec.ofNat 4 wrec.host.length
    patternlen := BitVec.ofNat 6 wrec.pattern.length }

/-- `wlog_rec_pack`: the bytes of `buf` up to the length it returns. -/
def wlogRecPack (wrec : WlogRec) (buf : List UInt8) (flag : Bool) : List UInt8 :=
  let wrecd := packFixed wrec buf
  if flag then
    wrecd.bytes ++ (wrec.path.take wrecd.pathlen.toNat ++ wrec.host.take wrecd.hostlen.toNat ++
      wrec.pattern.take wrecd.patternlen.toNat)
  else wrecd.bytes

/-- `wlog_rec_unpack`; none where the host is copied past the end of its array. -/
def wlogRecUnpack (buf : List UInt8) : Option WlogRec :=
  let wrecd := WlogRecDisk.read buf
  let pathlen := wrecd.pathlen.toNat
  let hostlen := wrecd.hostlen.toNat
  if wlogMaxHost + 1 < hostlen then none
  else some {
    pid := wrecd.pid.setWidth 32
    offset := wrecd.offset
    nbytes := wrecd.nbytes
    oflags := wrecd.oflags
    done := wrecd.done.setWidth 32
    async := wrecd.async.setWidth 32
    path := slice buf diskSize pathlen
    host := slice buf (diskSize + pathlen) hostlen
    pattern := slice buf (diskSize + pathlen + hostlen) wrecd.patternlen.toNat }

/-- A record as the header wants it: its texts are within the maxima, its flags are 0 or 1. -/
structure WlogRec.Documented (wrec : WlogRec) : Prop where
  path : wrec.path.length ≤ wlogMaxPath
  host : wrec.host.length ≤ wlogMaxHost
  pattern : wrec.pattern.length ≤ wlogMaxPattern
  done : wrec.done.toNat ≤ 1
  async : wrec.async.toNat ≤ 1

/-- The texts of a record as they are stored. -/
def WlogRec.texts (wrec : WlogRec) : List UInt8 :=
  wrec.path.take (wrec.path.length % 128) ++ wrec.host.take (wrec.host.length % 16) ++
    wrec.pattern.take (wrec.pattern.length % 64)

/-- A record as it comes back. -/
def WlogRec.readBack (wrec : WlogRec) : WlogRec :=
  { wrec with
    pid := (wrec.pid.setWidth 17).setWidth 32
    done := (wrec.done.setWidth 1).setWidth 32
    async := (wrec.async.setWidth 1).setWidth 32
    path := wrec.path.take (wrec.path.length % 128)
    pattern := wrec.pattern.take (wrec.pattern.length % 64) }

section Pack

variable {wrec : WlogRec} {buf : List UInt8}

theorem length_wlogRecPack_fixed : (wlogRecPack wrec buf false).length = diskSize :=
  length_toBytes ..

/-- The record on disk is the fixed part and the texts. -/
theorem wlogRecPack_eq :
    wlogRecPack wrec buf true = wlogRecPack wrec buf false ++ wrec.texts := by
  simp only [wlogRecPack, if_true, Bool.false_eq_true, if_false, packFixed, BitVec.toNat_ofNat,
    WlogRec.texts]

theorem length_take_mod {α : Type*} (l : List α) (n : ℕ) :
    (l.take (l.length % n)).length = l.length % n :=
  List.length_take_of_le (Nat.mod_le _ _)

/-- Unpacking gives back what fitted. -/
theorem wlogRecUnpack_pack (hhost : wrec.host.length ≤ wlogMaxHost) (behind : List UInt8) :
    wlogRecUnpack (wlogRecPack wrec buf true ++ behind) = some wrec.readBack := by
  have hmod : wrec.host.length % 16 = wrec.host.length := by
    have hmax : wlogMaxHost = 8 := rfl
    omega
  have hread : WlogRecDisk.read (wlogRecPack wrec buf true ++ behind) = packFixed wrec buf := by
    rw [wlogRecPack_eq, List.append_assoc]
    exact WlogRecDisk.read_bytes _ _
  have hfixed : (wlogRecPack wrec buf false).length = diskSize := length_wlogRecPack_fixed
  have hpath := length_take_mod wrec.path 128
  have hpattern := length_take_mod wrec.pattern 64
  -- the three texts lie one behind the other, each as long as its field says
  have hparts : wlogRecPack wrec buf true ++ behind = wlogRecPack wrec buf false ++
      (wrec.path.take (wrec.path.length % 128) ++ (wrec.host ++
        (wrec.pattern.take (wrec.pattern.length % 64) ++ behind))) := by
    rw [wlogRecPack_eq, WlogRec.texts, hmod, List.take_length]
    simp only [List.append_assoc]
  have hpathAt := slice_append_middle (r := wrec.host ++
    (wrec.pattern.take (wrec.pattern.length % 64) ++ behind)) hfixed hpath
  have hhostAt := slice_append_middle (m := wrec.host)
    (r := wrec.pattern.take (wrec.pattern.length % 64) ++ behind)
    (l := wlogRecPack wrec buf false ++ wrec.path.take (wrec.path.length % 128))
    (by rw [List.length_append, hfixed, hpath]) rfl
  have hpatternAt := slice_append_middle (r := behind)
    (l := wlogRecPack wrec buf false ++ wrec.path.take (wrec.path.length % 128) ++ wrec.host)
    (by rw [List.length_append, List.length_append, hfixed, hpath]) hpattern
  simp only [List.append_assoc] at hhostAt hpatternAt
  have hfields : ¬ wlogMaxHost + 1 < wrec.host.length := by omega
  rw [hparts] at hread ⊢
  simp only [wlogRecUnpack, hread, packFixed, BitVec.toNat_ofNat, Nat.reducePow, hmod,
    if_neg hfields, hpathAt, hhostAt, hpatternAt]
  rfl

/-- A text survives if its length does. -/
theorem take_mod_eq_iff {α : Type*} (l : List α) {n : ℕ} (hn : 0 < n) :
    l.take (l.length % n) = l ↔ l.length < n := by
  constructor
  · intro h
    have hlength := congrArg List.length h
    rw [length_take_mod] at hlength
    exact hlength ▸ Nat.mod_lt _ hn
  · intro h
    rw [Nat.mod_eq_of_lt h, List.take_length]

/-- A documented record comes back as it is if its process number and the lengths of path and
pattern fit their fields. -/
theorem WlogRec.readBack_eq_iff (h : wrec.Documented) :
    wrec.readBack = wrec ↔
      wrec.pid.toNat < 2 ^ 17 ∧ wrec.path.length < 128 ∧ wrec.pattern.length < 64 := by
  have hdone : (wrec.done.setWidth 1).setWidth 32 = wrec.done :=
    (setWidth_setWidth_eq_iff (by decide) _).mpr (Nat.lt_succ_of_le h.done)
  have hasync : (wrec.async.setWidth 1).setWidth 32 = wrec.async :=
    (setWidth_setWidth_eq_iff (by decide) _).mpr (Nat.lt_succ_of_le h.async)
  rw [← setWidth_setWidth_eq_iff (by decide) wrec.pid, ← take_mod_eq_iff wrec.path (by decide),
    ← take_mod_eq_iff wrec.pattern (by decide)]
  obtain ⟨pid, offset, nbytes, oflags, done, async, host, path, pattern⟩ := wrec
  simp only [readBack, mk.injEq, hdone, hasync, true_and]

end Pack

/-! ### Writing -/

/-- What `wlog_record_write` is called with, and what its buffer happens to hold. -/
structure Written where
  wrec : WlogRec
  wbuf : List UInt8

/-- A whole record, with its length behind it. -/
def Written.record (w : Written) : List UInt8 :=
  let packed := wlogRecPack w.wrec w.wbuf true
  packed ++ [UInt8.ofNat (packed.length / 256), UInt8.ofNat (packed.length % 256)]

/-- `wlog_record_write`: what it returns, as an `int`, and the file. -/
def wlogRecordWrite (w : Written) (offset : ℤ) (file : List UInt8) : ℤ × List UInt8 :=
  if offset < 0 then (Int.bmod file.length (2 ^ 32), file ++ w.record)
  else (Int.bmod offset (2 ^ 32), splice file offset.toNat (wlogRecPack w.wrec w.wbuf false))

/-- A call that appends a record, or overlays the one that was appended as number `which`. -/
inductive LogCall where
  | append (w : Written)
  | overlay (which : ℕ) (w : Written)

/-- The record of a call. -/
def LogCall.written : LogCall → Written
  | .append w => w
  | .overlay _ w => w

/-- The file, and what the calls that append returned. -/
structure LogState where
  file : List UInt8 := []
  returned : List ℤ := []

/-- One call; none if the record to overlay is not there. -/
def LogState.call (s : LogState) : LogCall → Option LogState
  | .append w =>
      let (offset, file) := wlogRecordWrite w (-1) s.file
      some { file, returned := s.returned ++ [offset] }
  | .overlay which w => do
      let offset ← s.returned[which]?
      some { s with file := (wlogRecordWrite w offset s.file).2 }

/-- The calls, one after the other. -/
def LogState.calls (s : LogState) : List LogCall → Option LogState
  | [] => some s
  | c :: cs => do (← s.call c).calls cs

/-! ### What was last written -/

/-- A record of the log, as it was appended and as it was last written. -/
structure Entry where
  first : Written
  last : Written

/-- The records after a call. -/
def LogCall.enter (log : List Entry) : LogCall → List Entry
  | .append w => log ++ [⟨w, w⟩]
  | .overlay which w => log.modify which fun x => { x with last := w }

/-- Both have the same texts, which an overlay does not write. -/
def SameTexts (a b : WlogRec) : Prop := a.path = b.path ∧ a.host = b.host ∧ a.pattern = b.pattern

/-- Every record was last written with the texts it was appended with. -/
def KeepsTexts (log : List Entry) : Prop := ∀ x ∈ log, SameTexts x.first.wrec x.last.wrec

/-- The bytes of a log. -/
def image (log : List Written) : List UInt8 := log.flatMap Written.record

/-- What an overlay leaves of a record: its texts and its length. -/
def WlogRec.behind (wrec : WlogRec) : List UInt8 :=
  let reclen := diskSize + wrec.texts.length
  wrec.texts ++ [UInt8.ofNat (reclen / 256), UInt8.ofNat (reclen % 256)]

/-- A record in the file. -/
def Entry.bytes (x : Entry) : List UInt8 :=
  wlogRecPack x.last.wrec x.last.wbuf false ++ x.first.wrec.behind

/-- The file holds the records, and each was returned its place. -/
structure Represents (log : List Entry) (s : LogState) : Prop where
  file : s.file = log.flatMap Entry.bytes
  returned : ∀ k < log.length, s.returned[k]? = some (((log.take k).flatMap Entry.bytes).length : ℤ)
  count : s.returned.length = log.length

section Write

variable {log : List Entry} {s s' : LogState}

theorem Written.length_pack (w : Written) :
    (wlogRecPack w.wrec w.wbuf true).length = diskSize + w.wrec.texts.length := by
  rw [wlogRecPack_eq, List.length_append, length_wlogRecPack_fixed]

theorem Written.record_eq (w : Written) :
    w.record = wlogRecPack w.wrec w.wbuf false ++ w.wrec.behind := by
  simp only [record, WlogRec.behind, length_pack]
  rw [wlogRecPack_eq, List.append_assoc]

theorem Written.length_record (w : Written) :
    w.record.length = diskSize + w.wrec.texts.length + 2 := by
  rw [record_eq, List.length_append, length_wlogRecPack_fixed, WlogRec.behind, List.length_append,
    Nat.add_assoc]
  rfl

theorem length_image (log : List Written) : (image log).length = (log.map (·.record.length)).sum :=
  List.length_flatMap

theorem image_append (log log' : List Written) : image (log ++ log') = image log ++ image log' :=
  List.flatMap_append

/-- The records as they were appended decide how much of the file each takes. -/
theorem length_bytes (log : List Entry) :
    (log.flatMap Entry.bytes).length = (image (log.map Entry.first)).length := by
  rw [length_image, List.length_flatMap, List.map_map]
  refine congrArg List.sum (List.map_congr_left fun x _ => ?_)
  rw [Function.comp, Written.record_eq, Entry.bytes, List.length_append, List.length_append,
    length_wlogRecPack_fixed, length_wlogRecPack_fixed]

/-- A log that keeps its texts is in the file as last written. -/
theorem KeepsTexts.bytes_eq (h : KeepsTexts log) :
    log.flatMap Entry.bytes = image (log.map Entry.last) := by
  rw [image, List.flatMap_map]
  refine List.flatMap_congr fun x hx => ?_
  rw [Written.record_eq, Entry.bytes]
  simp only [WlogRec.behind, WlogRec.texts, (h x hx).1, (h x hx).2.1, (h x hx).2.2]

theorem map_first_overlay (which : ℕ) (w : Written) :
    (LogCall.enter log (.overlay which w)).map Entry.first = log.map Entry.first := by
  refine List.ext_getElem? fun k => ?_
  rw [LogCall.enter, List.getElem?_map, List.getElem?_map, List.getElem?_modify]
  cases log[k]? with
  | none => rfl
  | some x => by_cases hk : which = k <;> simp [hk]

theorem Represents.append (h : Represents log s) (w : Written) (hfits : s.file.length < 2 ^ 31) :
    ∃ s', s.call (.append w) = some s' ∧ Represents (log ++ [⟨w, w⟩]) s' := by
  have hoffset : Int.bmod s.file.length (2 ^ 32) = s.file.length :=
    Int.bmod_eq_of_le_mul_two (by omega) (by omega)
  refine ⟨⟨s.file ++ w.record, s.returned ++ [(s.file.length : ℤ)]⟩, ?_, ?_, ?_, ?_⟩
  · rw [LogState.call, wlogRecordWrite, if_pos (by decide), hoffset]
  · rw [h.file, List.flatMap_append, w.record_eq]
    exact congrArg _ (List.append_nil _).symm
  · intro k hk
    rw [List.length_append, List.length_singleton] at hk
    by_cases hlast : k = log.length
    · rw [hlast, ← h.count, List.getElem?_concat_length, h.count, List.take_left, h.file]
    · rw [List.getElem?_append_left (by rw [h.count]; omega), h.returned k (by omega),
        List.take_append_of_le_length (by omega)]
  · rw [List.length_append, List.length_append, h.count]
    rfl

theorem Represents.overlay (h : Represents log s) {which : ℕ} {w : Written}
    (hcall : s.call (.overlay which w) = some s') :
    Represents (LogCall.enter log (.overlay which w)) s' := by
  simp only [LogState.call, Option.bind_eq_bind, Option.bind_eq_some_iff,
    Option.some.injEq] at hcall
  obtain ⟨offset, hoffset, rfl⟩ := hcall
  have hwhich : which < log.length := by
    rw [← h.count]
    exact (List.getElem?_eq_some_iff.mp hoffset).1
  have hpos : offset = ((log.take which).flatMap Entry.bytes).length :=
    Option.some.inj (hoffset.symm.trans (h.returned which hwhich))
  refine ⟨?_, fun k hk => ?_, h.count.trans (List.length_modify ..).symm⟩
  · have hsplit : log.flatMap Entry.bytes = (log.take which).flatMap Entry.bytes ++
        (log[which].bytes ++ (log.drop (which + 1)).flatMap Entry.bytes) := by
      rw [← List.flatMap_cons, ← List.drop_eq_getElem_cons hwhich, ← List.flatMap_append,
        List.take_append_drop]
    -- the texts and the length of the old record stay
    have hdrop : (log[which].bytes ++ (log.drop (which + 1)).flatMap Entry.bytes).drop
        (wlogRecPack w.wrec w.wbuf false).length =
        log[which].first.wrec.behind ++ (log.drop (which + 1)).flatMap Entry.bytes := by
      rw [Entry.bytes, List.append_assoc, List.drop_left' (by
        rw [length_wlogRecPack_fixed, length_wlogRecPack_fixed])]
    rw [wlogRecordWrite, if_neg (by omega)]
    dsimp only
    rw [h.file, hpos, Int.toNat_natCast, hsplit, splice_append rfl, hdrop, LogCall.enter,
      List.modify_eq_take_cons_drop hwhich, List.flatMap_append, List.flatMap_cons, Entry.bytes,
      List.append_assoc, List.append_assoc]
  · rw [h.returned k (by rwa [LogCall.enter, List.length_modify] at hk), length_bytes,
      length_bytes, List.map_take, List.map_take, map_first_overlay]

/-- The file never gets shorter. -/
theorem length_le_call {c : LogCall} (h : s.call c = some s') : s.file.length ≤ s'.file.length := by
  have hwrite (w : Written) (offset : ℤ) :
      s.file.length ≤ (wlogRecordWrite w offset s.file).2.length := by
    unfold wlogRecordWrite
    split_ifs
    · rw [List.length_append]
      omega
    · simp only [splice, List.length_append, List.length_take, List.length_drop]
      omega
  cases c with
  | append w =>
      cases h
      exact hwrite w (-1)
  | overlay which w =>
      simp only [LogState.call, Option.bind_eq_bind, Option.bind_eq_some_iff,
        Option.some.injEq] at h
      obtain ⟨offset, -, rfl⟩ := h
      exact hwrite w offset

/-- A log whose size is an `int` is in the file. -/
def Kept (log : List Entry) (s : LogState) : Prop :=
  (image (log.map Entry.first)).length < 2 ^ 31 ∨ s.file.length < 2 ^ 31 → Represents log s

theorem Kept.call (h : Kept log s) {c : LogCall} (hcall : s.call c = some s') :
    Kept (c.enter log) s' := by
  intro hsize
  have hfile := length_le_call hcall
  cases c with
  | append w =>
      rw [LogCall.enter, List.map_append, image_append, List.length_append] at hsize
      have hbefore : Represents log s := h (by omega)
      have hsame : s.file.length = _ := (congrArg _ hbefore.file).trans (length_bytes log)
      obtain ⟨s₁, hcall₁, hrepresents⟩ := hbefore.append w (by omega)
      rw [hcall] at hcall₁
      cases hcall₁
      exact hrepresents
  | overlay which w =>
      rw [map_first_overlay] at hsize
      exact (h (by omega)).overlay hcall

theorem Kept.calls (h : Kept log s) {cs : List LogCall} (hcalls : s.calls cs = some s') :
    Kept (cs.foldl LogCall.enter log) s' := by
  induction cs generalizing log s with
  | nil =>
      cases hcalls
      exact h
  | cons c cs ih =>
      rw [LogState.calls, Option.bind_eq_bind, Option.bind_eq_some_iff] at hcalls
      obtain ⟨s₁, hcall, hrest⟩ := hcalls
      exact ih (h.call hcall) hrest

/-- The file of a log that is not too long and keeps its texts holds its records as last
written. -/
theorem file_eq_image {cs : List LogCall} (hcalls : LogState.calls {} cs = some s)
    (hkeeps : KeepsTexts (cs.foldl LogCall.enter []))
    (hsize : (image ((cs.foldl LogCall.enter []).map Entry.last)).length < 2 ^ 31 ∨
      s.file.length < 2 ^ 31) :
    s.file = image ((cs.foldl LogCall.enter []).map Entry.last) := by
  have hempty : Kept [] {} := fun _ => ⟨rfl, fun k hk => absurd hk (Nat.not_lt_zero k), rfl⟩
  rw [← hkeeps.bytes_eq, length_bytes] at hsize
  rw [← hkeeps.bytes_eq]
  exact (hempty.calls hcalls hsize).file

end Write

end EDDTs.Doio
