import EDDTs.Doio.WriteLogScan

/-!
# Ending the scan of the write log

The user's function ends the scan by its answer. `wlog_scan_backward` then leaves its inner loop
only: it fills the buffer again, as long as there are bytes in front of the window.
-/

namespace EDDTs.Doio

open Library

/-! ### Where a scan should end -/

section Until

variable {α : Type*} {goesOn : List α → Bool} {all xs ys : List α}

/-- The elements that have been passed when it is first not to go on. -/
def upToStop (goesOn : List α → Bool) : List α → List α → List α
  | passed, [] => passed
  | passed, x :: rest =>
      if goesOn (passed ++ [x]) then upToStop goesOn (passed ++ [x]) rest else passed ++ [x]

/-- The first elements of a list, up to one at which it is not to go on. -/
structure EndsAt (goesOn : List α → Bool) (all passed : List α) : Prop where
  initial : passed <+: all
  before : ∀ n, 0 < n → n < passed.length → goesOn (passed.take n) = true
  after : passed ≠ all → passed ≠ [] ∧ goesOn passed = false

theorem EndsAt.length_le (hx : EndsAt goesOn all xs) (hy : EndsAt goesOn all ys) :
    ys.length ≤ xs.length := by
  by_contra hlt
  have htake : xs = ys.take xs.length :=
    List.prefix_iff_eq_take.mp (List.prefix_of_prefix_length_le hx.initial hy.initial (by omega))
  have hall : xs ≠ all := by
    rintro rfl
    exact hlt hy.initial.length_le
  obtain ⟨hne, hstop⟩ := hx.after hall
  have hgo := hy.before xs.length (List.length_pos_of_ne_nil hne) (by omega)
  rw [← htake, hstop] at hgo
  cases hgo

theorem EndsAt.unique (hx : EndsAt goesOn all xs) (hy : EndsAt goesOn all ys) : xs = ys := by
  have hlength : xs.length = ys.length := le_antisymm (hy.length_le hx) (hx.length_le hy)
  rw [List.prefix_iff_eq_take.mp hx.initial, List.prefix_iff_eq_take.mp hy.initial, hlength]

theorem endsAt_upToStop {passed rest : List α}
    (hgo : ∀ n, 0 < n → n ≤ passed.length → goesOn (passed.take n) = true) :
    EndsAt goesOn (passed ++ rest) (upToStop goesOn passed rest) := by
  induction rest generalizing passed with
  | nil =>
      rw [List.append_nil]
      exact ⟨List.prefix_rfl, fun n hpos hlt => hgo n hpos hlt.le, fun h => absurd rfl h⟩
  | cons x rest ih =>
      have hgo' (n : ℕ) (hpos : 0 < n) (hlt : n < (passed ++ [x]).length) :
          goesOn ((passed ++ [x]).take n) = true := by
        rw [List.length_append, List.length_singleton] at hlt
        rw [List.take_append_of_le_length (by omega)]
        exact hgo n hpos (by omega)
      rw [upToStop, List.append_cons]
      split_ifs with hx
      · refine ih fun n hpos hle => ?_
        rcases hle.lt_or_eq with hlt | rfl
        · exact hgo' n hpos hlt
        · rwa [List.take_length]
      · exact ⟨List.prefix_append .., hgo', fun _ => ⟨by simp, Bool.eq_false_iff.mpr hx⟩⟩

/-- There is one place to end at. -/
theorem endsAt_iff : EndsAt goesOn all xs ↔ xs = upToStop goesOn [] all := by
  have hends : EndsAt goesOn ([] ++ all) (upToStop goesOn [] all) :=
    endsAt_upToStop fun n hpos hle => absurd hle (by simpa using hpos.ne')
  exact ⟨fun h => h.unique hends, fun h => h ▸ hends⟩

end Until

/-- The user's function has not answered `WLOG_STOP_SCAN`, and more records are asked for. -/
def goesOn (nrecs : ℤ) (func : List WlogRec → Bool) (passed : List WlogRec) : Bool :=
  func passed && decide (nrecs = 0 ∨ (passed.length : ℤ) < nrecs)

/-! ### Where it ends -/

section Grows

variable {signed : Bool} {nrecs : ℤ} {func : List WlogRec → Bool} {s s' : Scan}

variable {leftover : Leftover}

/-- The inner loop keeps what is left of the window, or passes a record. -/
theorem scanWindow_cases {w : Window} {cp : ℕ}
    (h : scanWindow signed nrecs func w cp s = some (leftover, s')) :
    (w.keep cp = some leftover ∧ s' = s) ∨
      ∃ s₁, s.passed.length < s₁.passed.length ∧
        (s' = s₁ ∨
          ∃ start < cp, scanWindow signed nrecs func w start s₁ = some (leftover, s')) := by
  have hkept (hmap : (w.keep cp).map (·, s) = some (leftover, s')) :
      w.keep cp = some leftover ∧ s' = s := by
    obtain ⟨kept, hkeep, hpair⟩ := Option.map_eq_some_iff.mp hmap
    obtain ⟨rfl, rfl⟩ := Prod.mk.inj hpair
    exact ⟨hkeep, rfl⟩
  rw [scanWindow] at h
  dsimp only at h
  split_ifs at h
  · exact .inl (hkept h)
  · exact .inl (hkept h)
  · obtain ⟨⟨s₁, more⟩, hpass, h⟩ := Option.bind_eq_some_iff.mp h
    obtain ⟨wrec, hpassed⟩ := (passRecord_eq_some hpass).1
    refine .inr ⟨s₁, by simp [hpassed], ?_⟩
    cases more with
    | true => exact .inr ⟨_, by omega, h⟩
    | false => exact .inl (Prod.mk.inj (Option.some.inj h)).2.symm

/-- What was passed stays passed. -/
theorem scanWindow_grows {w : Window} {cp : ℕ}
    (h : scanWindow signed nrecs func w cp s = some (leftover, s')) :
    s.passed.length ≤ s'.passed.length := by
  induction cp using Nat.strong_induction_on generalizing s with
  | _ cp ih =>
      rcases scanWindow_cases h with ⟨-, rfl⟩ | ⟨s₁, hgrown, rfl | ⟨start, hlt, hrest⟩⟩
      · exact le_rfl
      · exact hgrown.le
      · exact hgrown.le.trans (ih start hlt hrest)

theorem scanFrom_grows {file : List UInt8} {offset : ℕ}
    (h : scanFrom signed nrecs func file offset leftover s = some s') :
    s.passed.length ≤ s'.passed.length := by
  induction offset using Nat.strong_induction_on generalizing leftover s with
  | _ offset ih =>
      rw [scanFrom] at h
      split_ifs at h with hloop
      · obtain ⟨⟨leftover', s₁⟩, hwindow, h⟩ := Option.bind_eq_some_iff.mp h
        exact (scanWindow_grows hwindow).trans (ih _ (fillBuffer_lt file hloop.2 leftover) h)
      · rw [Option.some.inj h]

/-- A whole window cannot be kept. -/
theorem keep_all {w : Window} (h : 0 < w.bytes.length) : w.keep w.bytes.length = none :=
  dif_neg (by omega)

/-- With bytes in front of the window, the outer loop passes something else, if it ends at all. -/
theorem scanFrom_astray {file : List UInt8} {offset : ℕ} (hpos : 0 < offset)
    (hoffset : offset ≤ file.length) (hmore : nrecs = 0 ∨ s.recnum < nrecs)
    (h : scanFrom signed nrecs func file offset Leftover.nothing s = some s') :
    s.passed.length < s'.passed.length := by
  obtain ⟨hfilled, -, hnext⟩ := fillBuffer_spec hoffset Leftover.nothing
  rw [scanFrom, if_pos ⟨hmore, hpos⟩] at h
  dsimp only at h
  have hlt := fillBuffer_lt file hpos Leftover.nothing
  generalize fillBuffer file offset Leftover.nothing = filled at *
  have hlength : 0 < filled.2.bytes.length := by
    have hcount := congrArg List.length hfilled
    simp only [List.length_append, List.length_take, Leftover.nothing, List.length_nil] at hcount
    omega
  obtain ⟨⟨leftover, s₁⟩, hwindow, h⟩ := Option.bind_eq_some_iff.mp h
  refine lt_of_lt_of_le ?_ (scanFrom_grows h)
  rcases scanWindow_cases hwindow with ⟨hkeep, -⟩ | ⟨s₂, hgrown, rfl | ⟨start, -, hrest⟩⟩
  · rw [keep_all hlength] at hkeep
    cases hkeep
  · exact hgrown
  · exact hgrown.trans_le (scanWindow_grows hrest)

end Grows

/-! ### The condition -/

/-- Every length up to the end of the scan can be read, and the user's function stops it, if at
all, at a record in the window that begins the file. -/
def StopsInLastWindow (signed : Bool) (nrecs : ℤ) (func : List WlogRec → Bool) :
    ℕ → List Written → List WlogRec → Prop
  | _, [], _ => True
  | offset, x :: ws, passed =>
      let start := windowStart offset (x :: ws)
      let passed := passed ++ [x.wrec.readBack]
      LengthReads signed x.wrec ∧
        if func passed = true then
          (nrecs = 0 ∨ (passed.length : ℤ) < nrecs) →
            StopsInLastWindow signed nrecs func start ws passed
        else start = 0

section Stops

variable {signed : Bool} {nrecs : ℤ} {func : List WlogRec → Bool} {file : List UInt8}
  {ws : List Written}

theorem windowStart_le {offset : ℕ} (hoffset : offset ≤ file.length)
    (hws : (image ws.reverse).length ≤ file.length) : windowStart offset ws ≤ file.length := by
  cases ws with
  | nil => exact hoffset
  | cons x ws =>
      rw [windowStart]
      split_ifs
      · omega
      · exact hoffset

/-- The outer loop ends where the file begins. -/
theorem scanOn_zero (s : Scan) : scanOn signed nrecs func file (0, s) = some s := by
  rw [scanOn, scanFrom, if_neg (by simp)]

theorem scanOn_done {offset : ℕ} {s : Scan} (h : ¬(nrecs = 0 ∨ s.recnum < nrecs)) :
    scanOn signed nrecs func file (offset, s) = some s := by
  rw [scanOn, scanFrom, if_neg fun hloop => h hloop.1]

/-- The scan ends where it should exactly if the condition holds. -/
theorem follow_right_iff (signed : Bool) (func : List WlogRec → Bool)
    (hdoc : ∀ x ∈ ws, x.wrec.Documented) {offset : ℕ} (hoffset : offset ≤ file.length)
    (hws : (image ws.reverse).length ≤ file.length) (s : Scan)
    (hrecnum : s.recnum = s.passed.length) (hmore : nrecs = 0 ∨ s.recnum < nrecs) :
    ((follow signed nrecs func offset ws s).bind (scanOn signed nrecs func file)).map
          Scan.passed =
        some (upToStop (goesOn nrecs func) s.passed (ws.map (·.wrec.readBack))) ↔
      StopsInLastWindow signed nrecs func offset ws s.passed := by
  induction ws generalizing offset s with
  | nil => simp [follow, scanOn_zero, upToStop, StopsInLastWindow]
  | cons x ws ih =>
      have hx : x.wrec.Documented := hdoc x List.mem_cons_self
      have hstart := windowStart_le hoffset hws
      rw [follow, StopsInLastWindow]
      by_cases hreads : LengthReads signed x.wrec
      · obtain ⟨albuf, hpass⟩ := passRecord_eq nrecs func hx s
        rw [if_pos hreads, hpass, List.map_cons, upToStop]
        simp only [hreads, true_and]
        have hlength : s.recnum + 1 = ((s.passed ++ [x.wrec.readBack]).length : ℤ) := by
          simp [hrecnum]
        generalize hpassed : s.passed ++ [x.wrec.readBack] = passed at *
        by_cases hfunc : func passed = true
        · by_cases hnext : nrecs = 0 ∨ s.recnum + 1 < nrecs
          · have hgoes : goesOn nrecs func passed = true := by
              simp [goesOn, hfunc, ← hlength, hnext]
            have hshorter : (image ws.reverse).length ≤ file.length := by
              rw [image_reverse_cons, List.length_append] at hws
              omega
            have hrest := ih (fun y hy => hdoc y (List.mem_cons_of_mem x hy)) hstart hshorter
              ⟨albuf, s.recnum + 1, passed⟩ hlength hnext
            simpa [hfunc, hnext, hgoes, ← hlength] using hrest
          · have hgoes : goesOn nrecs func passed = false := by
              simp [goesOn, hfunc, ← hlength, hnext]
            simp [hfunc, hgoes, ← hlength, hnext, scanOn_done]
        · have hgoes : goesOn nrecs func passed = false := by simp [goesOn, hfunc]
          rw [if_neg hfunc, if_neg hfunc, if_neg (by simp [hgoes]), Option.bind_some]
          dsimp only
          rw [if_neg Bool.false_ne_true, Option.bind_some]
          rcases Nat.eq_zero_or_pos (windowStart offset (x :: ws)) with hzero | hpos
          · simp [hzero, scanOn_zero]
          · refine iff_of_false (fun h => ?_) hpos.ne'
            obtain ⟨s', hscan, hsame⟩ := Option.map_eq_some_iff.mp h
            have hlonger := scanFrom_astray hpos hstart (by exact hmore) hscan
            rw [hsame] at hlonger
            exact lt_irrefl _ hlonger
      · simp [hreads]

/-- The scan of a log whose size is an `int` is right exactly if the condition holds. -/
theorem wlogScanBackward_endsAt_iff {log : List Written} (hdoc : ∀ x ∈ log, x.wrec.Documented)
    (hsize : (image log).length < 2 ^ 31) (signed : Bool) (hnrecs : 0 ≤ nrecs)
    (func : List WlogRec → Bool) (albuf : List UInt8) :
    (∃ result passed, wlogScanBackward signed nrecs func (image log) albuf =
        some (result, passed) ∧
        EndsAt (goesOn nrecs func) (log.reverse.map (·.wrec.readBack)) passed) ↔
      StopsInLastWindow signed nrecs func (image log).length log.reverse [] := by
  have hwhole : (image log.reverse.reverse).length ≤ (image log).length := by
    rw [List.reverse_reverse]
  have hfollow := follow_right_iff signed func (fun x hx => hdoc x (List.mem_reverse.mp hx))
    (le_refl (image log).length) hwhole { albuf } rfl (show nrecs = 0 ∨ (0 : ℤ) < nrecs by omega)
  rw [← hfollow, wlogScanBackward_follow hdoc hsize signed hnrecs func albuf]
  simp only [endsAt_iff, Option.map_eq_some_iff, Prod.mk.injEq]
  constructor
  · rintro ⟨_, _, ⟨s, hscan, -, rfl⟩, hpassed⟩
    exact ⟨s, hscan, hpassed⟩
  · rintro ⟨s, hscan, hpassed⟩
    exact ⟨0, s.passed, ⟨s, hscan, rfl, rfl⟩, hpassed⟩

/-- Nothing is not where the scan of a log that has a record should end. -/
theorem not_endsAt_nil {goesOn : List WlogRec → Bool} {log : List Written} (h : log ≠ []) :
    ¬EndsAt goesOn (log.reverse.map (·.wrec.readBack)) [] := fun hends =>
  (hends.after fun hnil => h (by simpa using hnil.symm)).1 rfl

end Stops

/-- For every log, every number of records and every user's function: the records passed are
those from the last one on, up to the one at which the scan is to end, if the size of the log is
an `int`, the lengths can be read and the function stops in the window that begins the file; and
up to a size of 4 GiB only then. -/
theorem wlogScanBackward_stop_iff (signed : Bool) (nrecs : ℤ) (hnrecs : 0 ≤ nrecs)
    (func : List WlogRec → Bool) (log : List Written) (hdoc : ∀ x ∈ log, x.wrec.Documented)
    (albuf : List UInt8) :
    let size := (image log).length
    let Right := ∃ result passed,
      wlogScanBackward signed nrecs func (image log) albuf = some (result, passed) ∧
        EndsAt (goesOn nrecs func) (log.reverse.map (·.wrec.readBack)) passed
    let Condition := size < 2 ^ 31 ∧ StopsInLastWindow signed nrecs func size log.reverse []
    (Condition → Right) ∧ (size < 2 ^ 32 → Right → Condition) := by
  intro size Right Condition
  have hiff (hsize : size < 2 ^ 31) :=
    wlogScanBackward_endsAt_iff hdoc hsize signed hnrecs func albuf
  refine ⟨fun h => (hiff h.1).mpr h.2, fun hlength hright => ?_⟩
  have hsize : size < 2 ^ 31 := by
    by_contra hlong
    obtain ⟨result, hscan⟩ :=
      wlogScanBackward_long (not_lt.mp hlong) hlength signed nrecs func albuf
    obtain ⟨_, passed, hsome, hends⟩ := hright
    obtain ⟨-, rfl⟩ := Prod.mk.inj (Option.some.inj (hscan.symm.trans hsome))
    refine not_endsAt_nil (fun hnil => hlong ?_) hends
    simp only [size, hnil]
    decide
  exact ⟨hsize, (hiff hsize).mp hright⟩

/-- A scan that stops at the last of three records. -/
theorem wlogScanBackward_stop_three :
    let log : List Written := [⟨firstWrite, []⟩, ⟨secondWrite, []⟩, ⟨firstWrite, []⟩]
    ∃ result passed, wlogScanBackward true 2 (fun _ => false) (image log) [] =
        some (result, passed) ∧
      EndsAt (goesOn 2 fun _ => false) (log.reverse.map (·.wrec.readBack)) passed := by
  intro log
  have hdoc : ∀ x ∈ log, x.wrec.Documented := by
    simp only [log, List.forall_mem_cons]
    refine ⟨?_, ?_, ?_, by simp⟩ <;> constructor <;> decide
  refine (wlogScanBackward_stop_iff true 2 (by decide) (fun _ => false) log hdoc []).1 ⟨?_, ?_⟩
  · decide
  · simp only [log, List.reverse_cons, List.reverse_nil, List.nil_append, List.cons_append,
      StopsInLastWindow]
    decide

section Boundary

variable {front last : Written} {back : List Written}

/-- The user's function stops at the first record it is passed. -/
theorem follow_stop (offset : ℕ) {x : Written} (ws : List Written) (hdoc : x.wrec.Documented)
    (s : Scan) :
    ∃ albuf, follow false 0 (fun _ => false) offset (x :: ws) s =
      some (windowStart offset (x :: ws), ⟨albuf, s.recnum, s.passed ++ [x.wrec.readBack]⟩) := by
  have hreads : LengthReads false x.wrec := fun h => absurd h Bool.false_ne_true
  obtain ⟨albuf, hpass⟩ := passRecord_eq 0 (fun _ => false) hdoc s
  refine ⟨albuf, ?_⟩
  rw [follow, if_pos hreads, hpass]
  rfl

/-- With the first record in front of the window, it is passed next. -/
theorem scanOn_front {file : List UInt8} (hfront : front.wrec.Documented)
    (hfile : front.record <+: file) (s : Scan) :
    ∃ albuf, scanOn false 0 (fun _ => false) file (front.record.length, s) =
      some ⟨albuf, s.recnum, s.passed ++ [front.wrec.readBack]⟩ := by
  have hrecord := front.length_record
  have hle := texts_length_le hfront
  have hdisk : diskSize = 28 := rfl
  have hbuf : bufSize = 16384 := rfl
  have hbytes : file.take front.record.length ++ Leftover.nothing.bytes =
      image [front].reverse := by
    rw [← List.prefix_iff_eq_take.mp hfile]
    rfl
  have hsingle : (image [front].reverse).length = front.record.length :=
    congrArg List.length (List.append_nil front.record)
  obtain ⟨albuf, hstop⟩ := follow_stop (image [front].reverse).length [] hfront s
  refine ⟨albuf, ?_⟩
  rw [windowStart_open (by omega), hsingle, Nat.sub_eq_zero_of_le (by omega)] at hstop
  have hscan := scanFrom_follow false 0 (fun _ => false) hfile.length_le s hbytes (by omega)
    (by simpa using hfront) (.inl rfl)
  rw [scanOn, hscan, hsingle, hstop, Option.bind_some, scanOn_zero]

/-- If the records behind the first one fill the buffer, and the user's function stops at the
last one, it is passed the first one nevertheless. -/
theorem wlogScanBackward_boundary (hdoc : ∀ x ∈ front :: (back ++ [last]), x.wrec.Documented)
    (hfull : (image (back ++ [last])).length = bufSize) (albuf : List UInt8) :
    wlogScanBackward false 0 (fun _ => false) (image (front :: (back ++ [last]))) albuf =
      some (0, [last.wrec.readBack, front.wrec.readBack]) := by
  have hfront : front.wrec.Documented := hdoc front List.mem_cons_self
  have hlast : last.wrec.Documented := hdoc last (by simp)
  have himage : image (front :: (back ++ [last])) = front.record ++ image (back ++ [last]) := rfl
  have hlength : (image (front :: (back ++ [last]))).length = front.record.length + bufSize := by
    rw [himage, List.length_append, hfull]
  have hsize : (image (front :: (back ++ [last]))).length < 2 ^ 31 := by
    have hle := texts_length_le hfront
    have hdisk : diskSize = 28 := rfl
    have hbuf : bufSize = 16384 := rfl
    rw [hlength, front.length_record]
    omega
  have hreverse : (front :: (back ++ [last])).reverse = last :: (front :: back).reverse := by
    simp
  have htotal : (image (last :: (front :: back).reverse).reverse).length =
      front.record.length + bufSize := by
    rw [← hreverse, List.reverse_reverse, hlength]
  -- the window begins behind the first record
  obtain ⟨albuf₁, hstop⟩ :=
    follow_stop (front.record.length + bufSize) (front :: back).reverse hlast { albuf }
  have hpos := last.length_record
  rw [windowStart_open (by omega), htotal, Nat.add_sub_cancel] at hstop
  obtain ⟨albuf₂, hscan⟩ := scanOn_front hfront (List.prefix_append _ (image (back ++ [last])))
    ⟨albuf₁, 0, [last.wrec.readBack]⟩
  rw [wlogScanBackward_follow hdoc hsize false le_rfl, hreverse, hlength, hstop,
    Option.bind_some, himage]
  exact congrArg _ hscan

end Boundary

/-- A record of 32 bytes: 512 of them fill the buffer. -/
def shortWrite (pid : BitVec 32) : Written := ⟨⟨pid, 0, 512, 0, 0, 0, [110], [102], []⟩, []⟩

/-- The scan that is stopped at the last of 513 records passes the first one behind it. -/
theorem wlogScanBackward_passes_first :
    let log := shortWrite 1 :: (List.replicate 511 (shortWrite 2) ++ [shortWrite 3])
    wlogScanBackward false 0 (fun _ => false) (image log) [] =
        some (0, [(shortWrite 3).wrec, (shortWrite 1).wrec]) ∧
      ¬EndsAt (goesOn 0 fun _ => false) (log.reverse.map (·.wrec.readBack))
        [(shortWrite 3).wrec, (shortWrite 1).wrec] := by
  intro log
  have hshort (pid : BitVec 32) : (shortWrite pid).wrec.Documented := by
    constructor <;> simp [shortWrite, wlogMaxPath, wlogMaxHost, wlogMaxPattern]
  have hrecord (pid : BitVec 32) : (shortWrite pid).record.length = 32 :=
    (shortWrite pid).length_record
  have hmem (n : ℕ) : ∀ x ∈ shortWrite 1 :: (List.replicate n (shortWrite 2) ++ [shortWrite 3]),
      x.wrec.Documented := by
    simp +contextual [hshort, or_imp]
  have hlength (n : ℕ) :
      (image (List.replicate n (shortWrite 2) ++ [shortWrite 3])).length = n * 32 + 32 := by
    simp [length_image, hrecord]
  refine ⟨wlogScanBackward_boundary (hmem 511) (hlength 511) [], fun hends => ?_⟩
  have hfirst := hends.before 1 (by decide) (by decide)
  exact absurd hfirst (by decide)

end EDDTs.Doio
