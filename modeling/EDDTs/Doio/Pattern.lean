import EDDTs.Library.ByteFile
import Mathlib.Algebra.Order.Ring.Int

/-!
# The data patterns of doio

`pattern_fill` and `pattern_check` treat the first period of the buffer with the pattern
itself and the rest with what is already done, in steps that double. The buffer is the memory
behind `buf`, so that positions from `buflen` on are there too.
-/

namespace EDDTs.Doio

open Library

variable {α : Type*}

/-- The reduction at the head of both functions. -/
def reduceShift (patlen patshift : ℕ) : ℕ :=
  if patlen ≠ 0 then patshift % patlen else patshift

section Check

variable [DecidableEq α]

/-- The last loop of `pattern_check`; `cp` is `buf + ncmp`. Without fuel it has not returned. -/
def checkRest (buf : List α) (buflen : ℕ) : ℕ → ℕ → ℕ → Option ℤ
  | 0, _, _ => none
  | fuel + 1, ncmp, nleft =>
      if ncmp < buflen then
        let nb := if ncmp < nleft then ncmp else nleft
        if slice buf 0 nb ≠ slice buf ncmp nb then some (-1)
        else checkRest buf buflen fuel (ncmp + nb) (nleft - nb)
      else some 0

/-- Compare `buf` with the shifted pattern; `patlen` is at least 1. -/
def patternCheck (buf : List α) (buflen : ℕ) (pat : List α) (patlen patshift : ℕ) : Option ℤ :=
  let patshift := reduceShift patlen patshift
  let nb := patlen - patshift
  if buflen < nb then
    some (if slice buf 0 buflen ≠ slice pat patshift buflen then -1 else 0)
  else if slice buf 0 nb ≠ slice pat patshift nb then some (-1)
  else
    let nleft := buflen - nb
    if 0 < patshift then
      if nleft < patshift then
        some (if slice buf nb nleft ≠ slice pat 0 nleft then -1 else 0)
      else if slice buf nb patshift ≠ slice pat 0 patshift then some (-1)
      else checkRest buf buflen (buflen + 1) (nb + patshift) (nleft - patshift)
    else checkRest buf buflen (buflen + 1) nb nleft

end Check

/-- The last loop of `pattern_fill`; `cp` is `buf + ncopied`. -/
def fillRest (buflen : ℕ) : ℕ → ℕ → ℕ → List α → Option (List α)
  | 0, _, _, _ => none
  | fuel + 1, ncopied, nleft, buf =>
      if ncopied < buflen then
        let trans := if ncopied < nleft then ncopied else nleft
        fillRest buflen fuel (ncopied + trans) (nleft - trans)
          (splice buf ncopied (slice buf 0 trans))
      else some buf

/-- Fill `buf` with the shifted pattern: the buffer on return, with the result 0. -/
def patternFill (buf : List α) (buflen : ℕ) (pat : List α) (patlen patshift : ℕ) :
    Option (ℤ × List α) :=
  let patshift := reduceShift patlen patshift
  let trans := patlen - patshift
  if buflen < trans then some (0, splice buf 0 (slice pat patshift buflen))
  else
    let buf := splice buf 0 (slice pat patshift trans)
    let nleft := buflen - trans
    if 0 < patshift then
      if nleft < patshift then some (0, splice buf trans (slice pat 0 nleft))
      else
        (fillRest buflen (buflen + 1) (trans + patshift) (nleft - patshift)
          (splice buf trans (slice pat 0 patshift))).map (0, ·)
    else (fillRest buflen (buflen + 1) trans nleft buf).map (0, ·)

/-- The first `n` bytes of `buf` are those of the repeated pattern. -/
def Repeats (pat : List α) (patlen patshift : ℕ) (buf : List α) (n : ℕ) : Prop :=
  ∀ i < n, buf[i]? = pat[(patshift + i) % patlen]?

section Repeats

variable {pat buf : List α} {patlen patshift m n : ℕ}

theorem reduceShift_lt (hpos : 1 ≤ patlen) (patshift : ℕ) :
    reduceShift patlen patshift < patlen := by
  rw [reduceShift, if_pos (by omega)]
  exact Nat.mod_lt _ (by omega)

theorem repeats_reduceShift :
    Repeats pat patlen (reduceShift patlen patshift) buf n ↔
      Repeats pat patlen patshift buf n := by
  unfold reduceShift
  split
  · simp only [Repeats, Nat.mod_add_mod]
  · rfl

/-- A repeated pattern goes on when the next bytes do. -/
theorem repeats_add :
    Repeats pat patlen patshift buf (m + n) ↔
      Repeats pat patlen patshift buf m ∧
        ∀ j < n, buf[m + j]? = pat[(patshift + (m + j)) % patlen]? := by
  constructor
  · intro h
    exact ⟨fun i hi => h i (by omega), fun j hj => h (m + j) (by omega)⟩
  · rintro ⟨hm, hn⟩ i hi
    by_cases him : i < m
    · exact hm i him
    · have hnext := hn (i - m) (by omega)
      rwa [Nat.add_sub_cancel' (by omega)] at hnext

/-- The bytes of a first period, before the pattern wraps. -/
theorem pat_before_wrap {j : ℕ} (hj : j < patlen - patshift) :
    pat[(patshift + j) % patlen]? = pat[patshift + j]? := by
  rw [Nat.mod_eq_of_lt (by omega)]

/-- The bytes of a first period, after it wrapped. -/
theorem pat_after_wrap (hshift : patshift < patlen) {j : ℕ} (hj : j < patshift) :
    pat[(patshift + (patlen - patshift + j)) % patlen]? = pat[0 + j]? := by
  have hsum : patshift + (patlen - patshift + j) = j + patlen := by omega
  rw [hsum, Nat.add_mod_right, Nat.mod_eq_of_lt (by omega), Nat.zero_add]

/-- A whole number of periods further the pattern is where it was. -/
theorem pat_periodic (hdvd : patlen ∣ m) (j : ℕ) :
    pat[(patshift + (m + j)) % patlen]? = pat[(patshift + j) % patlen]? := by
  obtain ⟨k, rfl⟩ := hdvd
  have hsum : patshift + (patlen * k + j) = patshift + j + patlen * k := by omega
  rw [hsum, Nat.add_mul_mod_self_left]

/-- What is done so far serves as the pattern for what follows. -/
theorem repeats_source (hdone : Repeats pat patlen patshift buf m) (hdvd : patlen ∣ m)
    (hn : n ≤ m) : ∀ j < n, buf[0 + j]? = pat[(patshift + (m + j)) % patlen]? := by
  intro j hj
  rw [Nat.zero_add, hdone j (by omega), pat_periodic hdvd]

/-- The step of both loops: it keeps to whole periods, unless it is the last. -/
theorem step_whole_or_last {buflen : ℕ} (hdvd : patlen ∣ m) (hpos : 0 < m) (hm : m < buflen) :
    let nb := if m < buflen - m then m else buflen - m
    0 < nb ∧ nb ≤ m ∧ m + nb ≤ buflen ∧ (patlen ∣ m + nb ∨ m + nb = buflen) := by
  intro nb
  by_cases hlast : m < buflen - m
  · have hnb : nb = m := if_pos hlast
    rw [hnb]
    exact ⟨hpos, le_rfl, by omega, Or.inl (Nat.dvd_add hdvd hdvd)⟩
  · have hnb : nb = buflen - m := if_neg hlast
    rw [hnb]
    exact ⟨by omega, by omega, by omega, Or.inr (by omega)⟩

/-- Bytes that are equal to a right source continue the repeated pattern, and only they. -/
theorem compare_iff {src : List α} {k : ℕ} (hdone : Repeats pat patlen patshift buf m)
    (hsrc : ∀ j < n, src[k + j]? = pat[(patshift + (m + j)) % patlen]?)
    (hbuf : m + n ≤ buf.length) (hk : k + n ≤ src.length) :
    slice buf m n = slice src k n ↔ Repeats pat patlen patshift buf (m + n) := by
  rw [slice_eq_slice_iff hbuf hk, repeats_add]
  constructor
  · intro h
    exact ⟨hdone, fun j hj => (h j hj).trans (hsrc j hj)⟩
  · intro h j hj
    exact (h.2 j hj).trans (hsrc j hj).symm

/-- Bytes copied from a right source continue the repeated pattern. -/
theorem copy_repeats {src : List α} {k : ℕ} (hdone : Repeats pat patlen patshift buf m)
    (hsrc : ∀ j < n, src[k + j]? = pat[(patshift + (m + j)) % patlen]?)
    (hbuf : m + n ≤ buf.length) (hk : k + n ≤ src.length) :
    Repeats pat patlen patshift (splice buf m (slice src k n)) (m + n) := by
  have hlength : (slice src k n).length = n := length_slice hk
  rw [repeats_add]
  constructor
  · intro i hi
    rw [getElem?_splice_before hi (by omega), hdone i hi]
  · intro j hj
    rw [getElem?_splice_within (by omega) (by omega), getElem?_slice src k hj, hsrc j hj]

end Repeats

section CheckSpec

variable [DecidableEq α] {pat buf : List α} {buflen patlen patshift : ℕ}

instance (pat : List α) (patlen patshift : ℕ) (buf : List α) (n : ℕ) :
    Decidable (Repeats pat patlen patshift buf n) :=
  inferInstanceAs (Decidable (∀ i < n, buf[i]? = pat[(patshift + i) % patlen]?))

/-- The result that the bytes of the buffer call for. -/
def verdict (pat : List α) (patlen patshift : ℕ) (buf : List α) (buflen : ℕ) : ℤ :=
  if Repeats pat patlen patshift buf buflen then 0 else -1

theorem verdict_of_not_repeats {n : ℕ} (hn : n ≤ buflen)
    (h : ¬ Repeats pat patlen patshift buf n) : verdict pat patlen patshift buf buflen = -1 := by
  apply if_neg
  intro hall
  exact h fun i hi => hall i (by omega)

/-- A last comparison decides. -/
theorem verdict_of_compare {n m : ℕ} (hlast : m + n = buflen) {p : Prop} [Decidable p]
    (h : p ↔ Repeats pat patlen patshift buf (m + n)) :
    (if ¬ p then (-1 : ℤ) else 0) = verdict pat patlen patshift buf buflen := by
  subst hlast
  by_cases hp : p
  · rw [if_neg (not_not_intro hp), verdict, if_pos (h.mp hp)]
  · rw [if_pos hp, verdict, if_neg (mt h.mpr hp)]

variable (hbuf : buflen ≤ buf.length)

include hbuf

/-- The last loop, by induction on its fuel: what is compared repeats the pattern, and is a
whole number of periods until the end of the buffer is reached. -/
theorem checkRest_eq (fuel m : ℕ) (hdone : Repeats pat patlen patshift buf m) (hpos : 0 < m)
    (hle : m ≤ buflen) (hdvd : patlen ∣ m ∨ m = buflen) (hfuel : buflen - m < fuel) :
    checkRest buf buflen fuel m (buflen - m) = some (verdict pat patlen patshift buf buflen) := by
  induction fuel generalizing m with
  | zero => omega
  | succ fuel ih =>
      rw [checkRest]
      by_cases hm : m < buflen
      · have hwhole := hdvd.resolve_right (by omega)
        obtain ⟨hnb, hnbm, hroom, hnext⟩ := step_whole_or_last hwhole hpos hm
        generalize (if m < buflen - m then m else buflen - m) = nb at hnb hnbm hroom hnext
        have hcompare := compare_iff hdone (repeats_source hdone hwhole hnbm) (by omega) (by omega)
        rw [if_pos hm]
        dsimp only
        by_cases hsame : slice buf 0 nb = slice buf m nb
        · rw [if_neg (not_not_intro hsame), Nat.sub_sub]
          exact ih (m + nb) (hcompare.mp hsame.symm) (by omega) hroom hnext (by omega)
        · rw [if_pos hsame, verdict_of_not_repeats hroom]
          exact fun h => hsame (hcompare.mpr h).symm
      · rw [if_neg hm, verdict, if_pos]
        exact fun i hi => hdone i (by omega)

omit [DecidableEq α] in
/-- The first bytes, up to the end of the pattern. -/
theorem compare_first {s n : ℕ} (hpat : patlen ≤ pat.length) (hshift : s < patlen)
    (hn : n ≤ patlen - s) (hle : n ≤ buflen) :
    slice buf 0 n = slice pat s n ↔ Repeats pat patlen s buf (0 + n) := by
  have hstart : Repeats pat patlen s buf 0 := fun i hi => absurd hi (Nat.not_lt_zero i)
  refine compare_iff hstart (fun j hj => ?_) (by omega) (by omega)
  rw [Nat.zero_add, pat_before_wrap (by omega)]

omit [DecidableEq α] in
/-- The bytes behind them, of the pattern in front of the shift. -/
theorem compare_second {s n : ℕ} (hpat : patlen ≤ pat.length) (hshift : s < patlen)
    (hdone : Repeats pat patlen s buf (patlen - s)) (hn : n ≤ s) (hle : patlen - s + n ≤ buflen) :
    slice buf (patlen - s) n = slice pat 0 n ↔ Repeats pat patlen s buf (patlen - s + n) := by
  refine compare_iff hdone (fun j hj => ?_) (by omega) (by omega)
  rw [pat_after_wrap hshift (by omega)]

/-- `pattern_check` returns, with the result that the bytes call for. -/
theorem patternCheck_eq (hpat : patlen ≤ pat.length) (hpos : 1 ≤ patlen) :
    patternCheck buf buflen pat patlen patshift =
      some (verdict pat patlen patshift buf buflen) := by
  have hsame : verdict pat patlen patshift buf buflen =
      verdict pat patlen (reduceShift patlen patshift) buf buflen :=
    if_congr repeats_reduceShift.symm rfl rfl
  have hshift := reduceShift_lt hpos patshift
  rw [hsame, patternCheck]
  generalize reduceShift patlen patshift = s at hshift
  dsimp only
  by_cases hshort : buflen < patlen - s
  · have hone := compare_first hbuf hpat hshift hshort.le le_rfl
    rw [if_pos hshort]
    exact congrArg some (verdict_of_compare (by omega) hone)
  have hone := compare_first hbuf hpat hshift (le_refl (patlen - s)) (by omega)
  rw [Nat.zero_add] at hone
  rw [if_neg hshort]
  by_cases heq : slice buf 0 (patlen - s) = slice pat s (patlen - s)
  swap
  · rw [if_pos heq, verdict_of_not_repeats (by omega) (mt hone.mpr heq)]
  have hdone := hone.mp heq
  rw [if_neg (not_not_intro heq)]
  by_cases hs : 0 < s
  swap
  · rw [if_neg hs]
    exact checkRest_eq hbuf _ _ hdone (by omega) (by omega)
      (Or.inl (by rw [Nat.eq_zero_of_not_pos hs, Nat.sub_zero])) (by omega)
  rw [if_pos hs]
  by_cases hleft : buflen - (patlen - s) < s
  · have htwo := compare_second hbuf hpat hshift hdone hleft.le (by omega)
    rw [if_pos hleft]
    exact congrArg some (verdict_of_compare (by omega) htwo)
  have htwo := compare_second hbuf hpat hshift hdone le_rfl (by omega)
  rw [if_neg hleft]
  by_cases heq2 : slice buf (patlen - s) s = slice pat 0 s
  · rw [if_neg (not_not_intro heq2), Nat.sub_sub]
    exact checkRest_eq hbuf _ _ (htwo.mp heq2) (by omega) (by omega)
      (Or.inl (by rw [Nat.sub_add_cancel (by omega)])) (by omega)
  · rw [if_pos heq2, verdict_of_not_repeats (by omega) (mt htwo.mpr heq2)]

end CheckSpec

section FillSpec

variable {pat buf : List α} {buflen patlen patshift : ℕ}

/-- What a call of `pattern_fill` leaves: the pattern, and the memory behind it as it was. -/
structure Filled (pat : List α) (patlen patshift : ℕ) (buf : List α) (buflen : ℕ)
    (buf' : List α) : Prop where
  repeats : Repeats pat patlen patshift buf' buflen
  length : buf'.length = buf.length
  behind : ∀ i, buflen ≤ i → buf'[i]? = buf[i]?

/-- One `memcpy` from a right source, inside the buffer. -/
theorem Filled.copy {m n k : ℕ} {src buf' : List α} (hbuf : buflen ≤ buf.length)
    (h : Filled pat patlen patshift buf m buf') (hle : m + n ≤ buflen)
    (hsrc : ∀ j < n, src[k + j]? = pat[(patshift + (m + j)) % patlen]?)
    (hk : k + n ≤ src.length) :
    Filled pat patlen patshift buf (m + n) (splice buf' m (slice src k n)) := by
  have hlength : (slice src k n).length = n := length_slice hk
  have hroom : m + n ≤ buf'.length := by
    rw [h.length]
    omega
  constructor
  · exact copy_repeats h.repeats hsrc hroom hk
  · rw [length_splice (by omega), h.length]
  · intro i hi
    rw [getElem?_splice_behind (by omega) (by omega), h.behind i (by omega)]

/-- The last loop, by induction on its fuel. -/
theorem fillRest_filled (hbuf : buflen ≤ buf.length) (fuel m : ℕ) (buf' : List α)
    (hfilled : Filled pat patlen patshift buf m buf') (hpos : 0 < m) (hle : m ≤ buflen)
    (hdvd : patlen ∣ m ∨ m = buflen) (hfuel : buflen - m < fuel) :
    ∃ out, fillRest buflen fuel m (buflen - m) buf' = some out ∧
      Filled pat patlen patshift buf buflen out := by
  induction fuel generalizing m buf' with
  | zero => omega
  | succ fuel ih =>
      rw [fillRest]
      by_cases hm : m < buflen
      · have hwhole := hdvd.resolve_right (by omega)
        obtain ⟨hnb, hnbm, hroom, hnext⟩ := step_whole_or_last hwhole hpos hm
        generalize (if m < buflen - m then m else buflen - m) = nb at hnb hnbm hroom hnext
        have hcopied := hfilled.copy hbuf hroom (repeats_source hfilled.repeats hwhole hnbm)
          (by rw [hfilled.length]; omega)
        rw [if_pos hm]
        dsimp only
        rw [Nat.sub_sub]
        exact ih (m + nb) _ hcopied (by omega) hroom hnext (by omega)
      · have hend : m = buflen := by omega
        rw [if_neg hm]
        exact ⟨buf', rfl, hend ▸ hfilled⟩

/-- `pattern_fill` returns 0 and leaves the buffer filled. -/
theorem patternFill_filled (patshift : ℕ) (hbuf : buflen ≤ buf.length)
    (hpat : patlen ≤ pat.length) (hpos : 1 ≤ patlen) :
    ∃ out, patternFill buf buflen pat patlen patshift = some (0, out) ∧
      Filled pat patlen patshift buf buflen out := by
  suffices h : ∃ out, patternFill buf buflen pat patlen patshift = some (0, out) ∧
      Filled pat patlen (reduceShift patlen patshift) buf buflen out by
    obtain ⟨out, heq, hfilled⟩ := h
    exact ⟨out, heq, repeats_reduceShift.mp hfilled.repeats, hfilled.length, hfilled.behind⟩
  have hshift := reduceShift_lt hpos patshift
  rw [patternFill]
  generalize reduceShift patlen patshift = s at hshift
  dsimp only
  have hstart : Filled pat patlen s buf 0 buf :=
    ⟨fun i hi => absurd hi (Nat.not_lt_zero i), rfl, fun _ _ => rfl⟩
  have hfirst : ∀ n ≤ patlen - s, n ≤ buflen →
      Filled pat patlen s buf (0 + n) (splice buf 0 (slice pat s n)) := by
    intro n hn hle
    refine hstart.copy hbuf (by omega) (fun j hj => ?_) (by omega)
    rw [Nat.zero_add, pat_before_wrap (by omega)]
  simp only [Nat.zero_add] at hfirst
  by_cases hshort : buflen < patlen - s
  · rw [if_pos hshort]
    exact ⟨_, rfl, hfirst buflen (by omega) le_rfl⟩
  have hone := hfirst (patlen - s) le_rfl (by omega)
  rw [if_neg hshort]
  by_cases hs : 0 < s
  swap
  · obtain ⟨out, heq, hfilled⟩ := fillRest_filled hbuf (buflen + 1) _ _ hone (by omega) (by omega)
      (Or.inl (by rw [Nat.eq_zero_of_not_pos hs, Nat.sub_zero])) (by omega)
    rw [if_neg hs, heq]
    exact ⟨out, rfl, hfilled⟩
  have hsecond : ∀ n ≤ s, patlen - s + n ≤ buflen →
      Filled pat patlen s buf (patlen - s + n)
        (splice (splice buf 0 (slice pat s (patlen - s))) (patlen - s) (slice pat 0 n)) := by
    intro n hn hle
    refine hone.copy hbuf hle (fun j hj => ?_) (by omega)
    rw [pat_after_wrap hshift (by omega)]
  rw [if_pos hs]
  by_cases hleft : buflen - (patlen - s) < s
  · have htwo := hsecond (buflen - (patlen - s)) (by omega) (by omega)
    rw [Nat.add_sub_cancel' (by omega)] at htwo
    rw [if_pos hleft]
    exact ⟨_, rfl, htwo⟩
  · obtain ⟨out, heq, hfilled⟩ := fillRest_filled hbuf (buflen + 1) _ _
      (hsecond s le_rfl (by omega)) (by omega) (by omega)
      (Or.inl (by rw [Nat.sub_add_cancel (by omega)])) (by omega)
    rw [if_neg hleft, Nat.sub_sub, heq]
    exact ⟨out, rfl, hfilled⟩

end FillSpec

/-- `pattern_fill` and `pattern_check` agree with the shifted pattern byte by byte, for every
buffer length, pattern and shift. -/
theorem pattern_bytes [DecidableEq α] (buf pat : List α) (buflen patlen patshift : ℕ)
    (hbuf : buflen ≤ buf.length) (hpat : patlen ≤ pat.length) (hpos : 1 ≤ patlen) :
    (∃ out, patternFill buf buflen pat patlen patshift = some (0, out) ∧
      (∀ i < buflen, out[i]? = pat[(patshift + i) % patlen]?) ∧
      ∀ i, buflen ≤ i → out[i]? = buf[i]?) ∧
    ∃ result, patternCheck buf buflen pat patlen patshift = some result ∧
      (result = 0 ↔ ∀ i < buflen, buf[i]? = pat[(patshift + i) % patlen]?) := by
  constructor
  · obtain ⟨out, heq, hfilled⟩ := patternFill_filled patshift hbuf hpat hpos
    exact ⟨out, heq, hfilled.repeats, hfilled.behind⟩
  · refine ⟨_, patternCheck_eq hbuf hpat hpos, ?_⟩
    rw [verdict]
    split
    · exact iff_of_true rfl ‹_›
    · exact iff_of_false (by decide) ‹_›

theorem pattern_bytes_seven :
    (∃ out, patternFill [9, 9, 9, 9, 9, 9, 9, 9] 7 [1, 2, 3] 3 5 = some (0, out) ∧
      (∀ i < 7, out[i]? = [1, 2, 3][(5 + i) % 3]?) ∧
      ∀ i, 7 ≤ i → out[i]? = [9, 9, 9, 9, 9, 9, 9, 9][i]?) ∧
    ∃ result, patternCheck [9, 9, 9, 9, 9, 9, 9, 9] 7 [1, 2, 3] 3 5 = some result ∧
      (result = 0 ↔ ∀ i < 7, [9, 9, 9, 9, 9, 9, 9, 9][i]? = [1, 2, 3][(5 + i) % 3]?) :=
  pattern_bytes [9, 9, 9, 9, 9, 9, 9, 9] [1, 2, 3] 7 3 5 (by decide) (by decide) (by decide)

/-- `pattern_check` accepts what `pattern_fill` has written, and no longer does when any one of
its bytes is changed. -/
theorem patternCheck_patternFill [DecidableEq α] {buf pat : List α} {buflen patlen : ℕ}
    (patshift : ℕ) (hbuf : buflen ≤ buf.length) (hpat : patlen ≤ pat.length) (hpos : 1 ≤ patlen) :
    ∃ out, patternFill buf buflen pat patlen patshift = some (0, out) ∧
      patternCheck out buflen pat patlen patshift = some 0 ∧
      ∀ i < buflen, ∀ x, out[i]? ≠ some x →
        patternCheck (out.set i x) buflen pat patlen patshift = some (-1) := by
  obtain ⟨out, hfill, hfilled⟩ := patternFill_filled patshift hbuf hpat hpos
  have hout : buflen ≤ out.length := hfilled.length.symm ▸ hbuf
  refine ⟨out, hfill, ?_, fun i hi x hx => ?_⟩
  · rw [patternCheck_eq hout hpat hpos, verdict, if_pos hfilled.repeats]
  · rw [patternCheck_eq (by rwa [List.length_set]) hpat hpos, verdict, if_neg]
    intro hrepeats
    have hsame := (hrepeats i hi).trans (hfilled.repeats i hi).symm
    rw [List.getElem?_set_self (hi.trans_le hout)] at hsame
    exact hx hsame.symm

theorem patternCheck_patternFill_seven :
    ∃ out, patternFill [9, 9, 9, 9, 9, 9, 9, 9] 7 [1, 2, 3] 3 5 = some (0, out) ∧
      patternCheck out 7 [1, 2, 3] 3 5 = some 0 ∧
      ∀ i < 7, ∀ x, out[i]? ≠ some x → patternCheck (out.set i x) 7 [1, 2, 3] 3 5 = some (-1) :=
  patternCheck_patternFill 5 (by decide) (by decide) (by decide)

end EDDTs.Doio
