import Mathlib.Data.List.Basic

/-!
# Files with an offset

A device of fixed size as `read`, `write` and `lseek` see it. A transfer can fail, or be
shorter than asked for; it moves the offset by the number of bytes transferred.
-/

namespace EDDTs.Library

variable {α : Type*}

/-- The `n` elements at the position `i`. -/
def slice (l : List α) (i n : ℕ) : List α := (l.drop i).take n

/-- The list with `data` stored at the position `i`. -/
def splice (l : List α) (i : ℕ) (data : List α) : List α :=
  l.take i ++ data ++ l.drop (i + data.length)

section Splice

variable {l data : List α} {i n : ℕ}

theorem length_slice_le (l : List α) (i n : ℕ) : (slice l i n).length ≤ n :=
  List.length_take_le n _

theorem length_slice (h : i + n ≤ l.length) : (slice l i n).length = n := by
  rw [slice, List.length_take, List.length_drop]
  omega

theorem length_splice (h : i + data.length ≤ l.length) : (splice l i data).length = l.length := by
  simp only [splice, List.length_append, List.length_take, List.length_drop]
  omega

/-- What is stored is read back. -/
theorem slice_splice (h : i ≤ l.length) : slice (splice l i data) i data.length = data := by
  have htake : (l.take i).length = i := List.length_take_of_le h
  rw [slice, splice, List.append_assoc, List.drop_left' htake, List.take_left]

/-- Storing what is there changes nothing. -/
theorem splice_of_isPrefix (h : data <+: l.drop i) : splice l i data = l := by
  have hdrop : data ++ l.drop (i + data.length) = l.drop i := by
    rw [← List.drop_drop]
    exact (List.prefix_iff_eq_append.mp h)
  rw [splice, List.append_assoc, hdrop, List.take_append_drop]

/-- A list that agrees up to `i` agrees further once the next elements are stored. -/
theorem take_splice {m : List α} (hi : i + data.length ≤ l.length) (htake : l.take i = m.take i)
    (hdata : data = slice m i data.length) :
    (splice l i data).take (i + data.length) = m.take (i + data.length) := by
  have hlength : (l.take i ++ data).length = i + data.length := by
    rw [List.length_append, List.length_take]
    omega
  rw [splice, List.take_left' hlength, List.take_add, htake]
  exact congrArg _ hdata

variable {j : ℕ} {l' : List α}

/-- What is stored behind a slice does not change it. -/
theorem slice_splice_before (h : j + n ≤ i) (hi : i ≤ l.length) :
    slice (splice l i data) j n = slice l j n := by
  have htake : (l.take i).length = i := List.length_take_of_le hi
  rw [slice, slice, splice, List.append_assoc, List.drop_append_of_le_length (by omega),
    List.take_append_of_le_length (by rw [List.length_drop]; omega), List.drop_take,
    List.take_take, Nat.min_eq_left (by omega)]

/-- Nor does what is stored in front of it. -/
theorem slice_splice_after (h : i + data.length ≤ j) (hi : i + data.length ≤ l.length) :
    slice (splice l i data) j n = slice l j n := by
  have hlength : (l.take i ++ data).length = i + data.length := by
    rw [List.length_append, List.length_take]
    omega
  have hbehind : (splice l i data).drop j = l.drop j := by
    rw [splice, List.drop_append, hlength, List.drop_eq_nil_of_le (hlength.symm ▸ h),
      List.nil_append, List.drop_drop, Nat.add_sub_cancel' h]
  rw [slice, slice, hbehind]

theorem slice_append_left (h : i + n ≤ l.length) : slice (l ++ l') i n = slice l i n := by
  have hdrop : n ≤ (l.drop i).length := by
    rw [List.length_drop]
    omega
  rw [slice, slice, List.drop_append_of_le_length (by omega), List.take_append_of_le_length hdrop]

theorem slice_append_right (h : l.length ≤ i) :
    slice (l ++ l') i n = slice l' (i - l.length) n := by
  rw [slice, slice, List.drop_append, List.drop_eq_nil_of_le h, List.nil_append]

/-- A part between two others. -/
theorem slice_append_middle {m r : List α} (hl : l.length = i) (hm : m.length = n) :
    slice (l ++ (m ++ r)) i n = m := by
  rw [slice, List.drop_left' hl, List.take_left' hm]

theorem slice_replicate {m : ℕ} {x : α} (h : i + n ≤ m) :
    slice (List.replicate m x) i n = List.replicate n x := by
  rw [slice, List.drop_replicate, List.take_replicate, Nat.min_eq_left (by omega)]

theorem getElem?_slice (l : List α) (i : ℕ) {n : ℕ} (h : j < n) :
    (slice l i n)[j]? = l[i + j]? := by
  rw [slice, List.getElem?_take_of_lt h, List.getElem?_drop]

/-- Two slices are equal when they agree position by position. -/
theorem slice_eq_slice_iff {i' : ℕ} (h : i + n ≤ l.length) (h' : i' + n ≤ l'.length) :
    slice l i n = slice l' i' n ↔ ∀ j < n, l[i + j]? = l'[i' + j]? := by
  constructor
  · intro heq j hj
    rw [← getElem?_slice l i hj, ← getElem?_slice l' i' hj, heq]
  · intro hall
    apply List.ext_getElem?
    intro j
    by_cases hj : j < n
    · rw [getElem?_slice l i hj, getElem?_slice l' i' hj, hall j hj]
    · rw [List.getElem?_eq_none (by rw [length_slice h]; omega),
        List.getElem?_eq_none (by rw [length_slice h']; omega)]

theorem getElem?_splice_before (hj : j < i) (hi : i ≤ l.length) :
    (splice l i data)[j]? = l[j]? := by
  have htake : j < (l.take i).length := by
    rw [List.length_take]
    omega
  rw [splice, List.append_assoc, List.getElem?_append_left htake, List.getElem?_take_of_lt hj]

theorem getElem?_splice_within (hj : j < data.length) (hi : i ≤ l.length) :
    (splice l i data)[i + j]? = data[j]? := by
  have hread : slice (splice l i data) i data.length = data := slice_splice hi
  rw [← getElem?_slice (splice l i data) i hj, hread]

theorem getElem?_splice_behind (hj : i + data.length ≤ j) (hi : i + data.length ≤ l.length) :
    (splice l i data)[j]? = l[j]? := by
  have hread := slice_splice_after (n := 1) hj hi
  have hfirst := getElem?_slice (splice l i data) j Nat.one_pos
  rw [hread, getElem?_slice l j Nat.one_pos] at hfirst
  exact hfirst.symm

/-- Storing at the end of a first part. -/
theorem splice_append (h : l.length = i) :
    splice (l ++ l') i data = l ++ data ++ l'.drop data.length := by
  rw [splice, List.take_left' h, ← List.drop_drop, List.drop_left' h]

/-- The end of one list is the end of the other. -/
theorem append_eq_append_suffix {front taken q m : List α} (h : front ++ taken = q ++ m)
    (hlength : m.length ≤ taken.length) :
    ∃ before, taken = before ++ m ∧ front ++ before = q := by
  obtain ⟨before, hbefore⟩ : m <:+ taken :=
    List.suffix_of_suffix_length_le ⟨q, h.symm⟩ ⟨front, rfl⟩ hlength
  refine ⟨before, hbefore.symm, ?_⟩
  rw [← hbefore, ← List.append_assoc] at h
  exact List.append_cancel_right h

end Splice

/-- The bytes of a device, and the offset of an open file on it. -/
structure ByteFile (α : Type*) where
  content : List α
  offset : ℕ := 0

namespace ByteFile

/-- `read` of `n` bytes, of which at most `k` are transferred; `none` is an error. The
result, and what is put into the buffer. -/
def read (n : ℕ) (k : Option ℕ) (f : ByteFile α) : (Int × List α) × ByteFile α :=
  match k with
  | none => ((-1, []), f)
  | some k =>
      let data := slice f.content f.offset (min k n)
      ((data.length, data), { f with offset := f.offset + data.length })

/-- `write` of `data`, of which at most `k` bytes are transferred. -/
def write (data : List α) (k : Option ℕ) (f : ByteFile α) : Int × ByteFile α :=
  match k with
  | none => (-1, f)
  | some k =>
      let data := data.take (min k (f.content.length - f.offset))
      (data.length, { content := splice f.content f.offset data, offset := f.offset + data.length })

/-- `lseek(fd, 0, SEEK_SET)`. -/
def rewind (f : ByteFile α) : ByteFile α := { f with offset := 0 }

@[simp] theorem read_content (n : ℕ) (k : Option ℕ) (f : ByteFile α) :
    (f.read n k).2.content = f.content := by
  cases k <;> rfl

/-- At least `n` bytes may be transferred. -/
def Willing (n : ℕ) : Option ℕ → Prop
  | none => False
  | some k => n ≤ k

instance (n : ℕ) : DecidablePred (Willing n)
  | none => inferInstanceAs (Decidable False)
  | some k => inferInstanceAs (Decidable (n ≤ k))

/-- A `read` returns less than it was asked for, or transfers all of it. -/
theorem read_short_or_full {n : ℕ} (hn : 0 < n) (k : Option ℕ) (f : ByteFile α) :
    (f.read n k).1.1 < n ∧ ¬ (Willing n k ∧ f.offset + n ≤ f.content.length) ∨
      (Willing n k ∧ f.offset + n ≤ f.content.length) ∧
        f.read n k =
          (((n : Int), slice f.content f.offset n), { f with offset := f.offset + n }) := by
  cases k with
  | none =>
      left
      refine ⟨?_, fun h => h.1⟩
      simp only [read]
      omega
  | some k =>
      by_cases hfull : n ≤ k ∧ f.offset + n ≤ f.content.length
      · right
        have hlength := length_slice hfull.2
        refine ⟨hfull, ?_⟩
        simp only [read, Nat.min_eq_right hfull.1, hlength]
      · left
        have hlength : (slice f.content f.offset (min k n)).length < n := by
          rw [slice, List.length_take, List.length_drop]
          omega
        exact ⟨by simpa only [read, Int.ofNat_lt] using hlength, hfull⟩

/-- Writing what is there changes nothing. -/
theorem write_same {data : List α} {f : ByteFile α} (h : data <+: f.content.drop f.offset)
    (k : Option ℕ) : (f.write data k).2.content = f.content := by
  cases k with
  | none => rfl
  | some k => exact splice_of_isPrefix ((List.take_prefix _ data).trans h)

/-- A `write` returns less than it was asked for, or transfers all of it. -/
theorem write_short_or_full {data : List α} {f : ByteFile α}
    (hroom : f.offset + data.length ≤ f.content.length) (k : Option ℕ) :
    (f.write data k).1 < data.length ∧ ¬ Willing data.length k ∨
      Willing data.length k ∧ f.write data k =
        ((data.length : Int), ⟨splice f.content f.offset data, f.offset + data.length⟩) := by
  cases k with
  | none =>
      left
      refine ⟨?_, id⟩
      simp only [write]
      omega
  | some k =>
      by_cases hfull : data.length ≤ k
      · right
        have htake : data.take (min k (f.content.length - f.offset)) = data :=
          List.take_of_length_le (by omega)
        exact ⟨hfull, by simp only [write, htake]⟩
      · left
        have hlength : (data.take (min k (f.content.length - f.offset))).length < data.length := by
          rw [List.length_take]
          omega
        exact ⟨by simpa only [write, Int.ofNat_lt] using hlength, hfull⟩

end ByteFile

end EDDTs.Library
