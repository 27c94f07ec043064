import EDDTs.LtpLib.Condense

/-!
# Hex dumps

`tst_resm_hexd_` (`lib/tst_res.c`): a message and the bytes of a buffer, on one line if they are
few, else on lines of sixteen. The lines are built in the array `tmesg` and go to `res_func`,
which is `tst_res_` or `tst_res__`. A call of it need not return: `tst_print` of the old library
aborts if a line is too long for its buffer.
-/

namespace EDDTs.LtpLib

open Library

/-- `%02x` of a byte. -/
def hexByte (b : UInt8) : Text := [Nat.digitChar (b.toNat / 16), Nat.digitChar (b.toNat % 16)]

/-- `symb_num` -/
def symbNum : ℕ := 2

/-- `size_max` -/
def sizeMax : ℕ := 16

/-- What stops `tst_resm_hexd_`: the assertion of `EXPAND_VAR_ARGS`, a write past `tmesg`, or a
call of `res_func` that does not return. -/
inductive HexdFault
  | assertion
  | outside
  | aborted
  deriving DecidableEq

variable {σ : Type}

/-- Calls of `res_func`, one after the other. -/
def handOn (resFunc : Resm → σ → Option σ) : List Resm → σ → Except HexdFault σ
  | [], s => .ok s
  | r :: rs, s =>
      match resFunc r s with
      | some s' => handOn resFunc rs s'
      | none => .error .aborted

/-- The next byte behind what stands in `tmesg` before `pmesg`; `sprintf` also writes a NUL. -/
def addByte (line : Text) (b : UInt8) : Except HexdFault Text :=
  let line := (if line = [] then [] else line ++ txt " ") ++ hexByte b
  if line.length < userMesg then .ok line else .error .outside

/-- The loop over the bytes from the `i`-th on, with what stands in `tmesg` before `pmesg`: the
lines it hands on. -/
def hexdLoop (size : ℕ) : ℕ → List UInt8 → Text → Except HexdFault (List Text)
  | _, [], _ => .ok []
  | i, b :: rest, line => do
      let line ← addByte line b
      if (i + 1) % sizeMax = 0 ∨ i + 1 = size then
        let lines ← hexdLoop size (i + 1) rest []
        .ok (line :: lines)
      else hexdLoop size (i + 1) rest line

/-- The lines of `tst_resm_hexd_` once the message stands in `tmesg`. -/
def hexdLines (tmesg : Text) (buf : List UInt8) : Except HexdFault (List Text) :=
  if sizeMax < buf.length ∨ buf.length = 0 ∨
      userMesg ≤ tmesg.length + buf.length * (symbNum + 1) then do
    let lines ← hexdLoop buf.length 0 buf []
    .ok (tmesg :: lines)
  else hexdLoop buf.length 0 buf tmesg

/-- `tst_resm_hexd_`, for a call with this message. -/
def tstResmHexd (resFunc : Resm → σ → Option σ) (r : Resm) (buf : List UInt8) (s : σ) :
    Except HexdFault σ := do
  let tmesg ← ((expandVarArgs userMesg r.mesg).elim (.error .assertion) .ok :
    Except HexdFault Text)
  let lines ← hexdLines tmesg buf
  handOn resFunc (lines.map fun line => { r with mesg := line }) s

/-- Bytes on one line. -/
def hexLine (bytes : List UInt8) : Text := (txt " ").intercalate (bytes.map hexByte)

/-- The lines are the message and the bytes of the buffer in order, at most sixteen on a line:
on lines of their own, or all behind the message. -/
def IsHexDump (tmesg : Text) (buf : List UInt8) (lines : List Text) : Prop :=
  ∃ groups : List (List UInt8), groups.flatten = buf ∧
    (∀ g ∈ groups, g ≠ [] ∧ g.length ≤ sizeMax) ∧
    (lines = tmesg :: groups.map hexLine ∨
      groups = [buf] ∧ lines = [tmesg ++ txt " " ++ hexLine buf])

@[simp] theorem length_hexByte (b : UInt8) : (hexByte b).length = symbNum := rfl

@[simp] theorem hexLine_nil : hexLine [] = [] := rfl

@[simp] theorem hexLine_singleton (b : UInt8) : hexLine [b] = hexByte b := by
  simp [hexLine]

theorem hexLine_cons_cons (b c : UInt8) (bytes : List UInt8) :
    hexLine (b :: c :: bytes) = hexByte b ++ txt " " ++ hexLine (c :: bytes) := by
  simp [hexLine, List.intercalate]

theorem hexLine_eq_nil_iff {bytes : List UInt8} : hexLine bytes = [] ↔ bytes = [] := by
  rcases bytes with _ | ⟨b, _ | ⟨c, rest⟩⟩
  · simp
  · simp [hexByte]
  · simp [hexLine_cons_cons, hexByte]

/-- A byte behind those of a line. -/
theorem hexLine_append_byte (bytes : List UInt8) (b : UInt8) :
    hexLine (bytes ++ [b]) =
      (if hexLine bytes = [] then [] else hexLine bytes ++ txt " ") ++ hexByte b := by
  induction bytes with
  | nil => simp
  | cons c rest ih =>
      rcases rest with _ | ⟨d, rest⟩
      · simp [hexLine_cons_cons, hexByte]
      · have hrest : hexLine (d :: rest) ≠ [] := by simp [hexLine_eq_nil_iff]
        have hall : hexLine (c :: d :: rest) ≠ [] := by simp [hexLine_eq_nil_iff]
        rw [if_neg hrest] at ih
        rw [if_neg hall, List.cons_append, List.cons_append, hexLine_cons_cons,
          hexLine_cons_cons c d rest, ← List.cons_append, ih]
        simp

theorem length_hexLine_le (bytes : List UInt8) : (hexLine bytes).length ≤ 3 * bytes.length := by
  induction bytes with
  | nil => simp
  | cons b rest ih =>
      rcases rest with _ | ⟨c, rest⟩
      · simp [symbNum]
      · rw [hexLine_cons_cons]
        simp only [List.length_append, List.length_cons, length_hexByte, symbNum, txt] at ih ⊢
        simp
        omega

theorem addByte_hexLine {group : List UInt8} (hgroup : group.length < sizeMax) (b : UInt8) :
    addByte (hexLine group) b = .ok (hexLine (group ++ [b])) := by
  have hlength := length_hexLine_le (group ++ [b])
  rw [List.length_append, List.length_singleton] at hlength
  have hfits : (hexLine (group ++ [b])).length < userMesg := by
    unfold sizeMax at hgroup
    unfold userMesg
    omega
  rw [hexLine_append_byte] at hfits ⊢
  exact if_pos hfits

theorem hexdLoop_cons {size i : ℕ} {b : UInt8} {rest : List UInt8} {line line' : Text}
    (h : addByte line b = .ok line') :
    hexdLoop size i (b :: rest) line =
      if (i + 1) % sizeMax = 0 ∨ i + 1 = size then
        (hexdLoop size (i + 1) rest []).map (line' :: ·)
      else hexdLoop size (i + 1) rest line' := by
  rw [hexdLoop, h]
  simp only [Except.bind, bind]
  split_ifs
  · cases hexdLoop size (i + 1) rest [] <;> rfl
  · rfl

/-- The loop on lines of their own: `group` are the bytes on the line so far. -/
theorem hexdLoop_groups {size : ℕ} (rest : List UInt8) :
    ∀ (i : ℕ) (group : List UInt8), i + rest.length = size → group.length = i % sizeMax →
      (rest = [] → group = []) →
      ∃ groups : List (List UInt8), hexdLoop size i rest (hexLine group) =
          .ok (groups.map hexLine) ∧
        groups.flatten = group ++ rest ∧ ∀ g ∈ groups, g ≠ [] ∧ g.length ≤ sizeMax := by
  induction rest with
  | nil =>
      intro i group _ _ hgroup
      exact ⟨[], by simp [hexdLoop], by simp [hgroup rfl], by simp⟩
  | cons b rest ih =>
      intro i group hsize hlength _
      have hroom : group.length < sizeMax := by
        rw [hlength]
        exact Nat.mod_lt i (by decide)
      rw [List.length_cons] at hsize
      rw [hexdLoop_cons (addByte_hexLine hroom b)]
      split_ifs with hend
      · -- The line is full, or the last: the next one begins empty.
        have hnext : ([] : List UInt8).length = (i + 1) % sizeMax ∨ rest = [] := by
          rcases hend with h | h
          · exact .inl h.symm
          · exact .inr (List.eq_nil_of_length_eq_zero (by omega))
        have hgroup : group ++ [b] ≠ [] ∧ (group ++ [b]).length ≤ sizeMax := by
          simp
          omega
        obtain ⟨groups, hloop, hflat, hall⟩ : ∃ groups : List (List UInt8),
            hexdLoop size (i + 1) rest [] = .ok (groups.map hexLine) ∧
              groups.flatten = rest ∧ ∀ g ∈ groups, g ≠ [] ∧ g.length ≤ sizeMax := by
          rcases hnext with h | h
          · exact ih (i + 1) [] (by omega) h (by simp)
          · exact ⟨[], by simp [h, hexdLoop], by simp [h], by simp⟩
        refine ⟨(group ++ [b]) :: groups, by rw [hloop]; rfl, by simp [hflat], ?_⟩
        intro g hg
        rcases List.mem_cons.mp hg with rfl | hg
        · exact hgroup
        · exact hall g hg
      · push Not at hend
        have hmod : (i + 1) % sizeMax = i % sizeMax + 1 := by
          have := hend.1
          unfold sizeMax at *
          omega
        obtain ⟨groups, hloop, hflat, hall⟩ := ih (i + 1) (group ++ [b]) (by omega)
          (by simp [hlength, hmod]) (by rintro rfl; simp at hsize; omega)
        exact ⟨groups, hloop, by simp [hflat], hall⟩

/-- A byte behind a message, if there is room for it. -/
theorem addByte_of_ne_nil {line : Text} (hline : line ≠ []) (b : UInt8)
    (hroom : line.length + (symbNum + 1) < userMesg) :
    addByte line b = .ok (line ++ txt " " ++ hexByte b) := by
  rw [addByte, if_neg hline]
  exact if_pos (by simpa [txt, Nat.add_right_comm _ 1] using hroom)

/-- The loop behind a message: the bytes are at most sixteen, and all on its line. -/
theorem hexdLoop_behind {size : ℕ} (hmax : size ≤ sizeMax) (b : UInt8) (rest : List UInt8) :
    ∀ (i : ℕ) (line : Text), i + (rest.length + 1) = size → line ≠ [] →
      line.length + (rest.length + 1) * (symbNum + 1) < userMesg →
      hexdLoop size i (b :: rest) line = .ok [line ++ txt " " ++ hexLine (b :: rest)] := by
  induction rest generalizing b with
  | nil =>
      intro i line hsize hline hroom
      rw [hexdLoop_cons (addByte_of_ne_nil hline b (by simpa using hroom)), if_pos (.inr hsize)]
      simp [hexdLoop, Except.map]
  | cons c rest ih =>
      intro i line hsize hline hroom
      rw [List.length_cons, Nat.succ_mul] at hroom
      rw [List.length_cons] at hsize
      have hmore : ¬ ((i + 1) % sizeMax = 0 ∨ i + 1 = size) := by
        unfold sizeMax at *
        omega
      have hlength : (line ++ txt " " ++ hexByte b).length = line.length + (symbNum + 1) := by
        simp [txt]
      rw [hexdLoop_cons (addByte_of_ne_nil hline b (by omega)), if_neg hmore,
        ih c (i + 1) _ (by omega) (by simp [hexByte]) (by rw [hlength]; omega), hexLine_cons_cons]
      simp

/-- The lines are the dump of the buffer. -/
theorem hexdLines_isHexDump {tmesg : Text} (hmesg : tmesg ≠ []) (buf : List UInt8) :
    ∃ lines, hexdLines tmesg buf = .ok lines ∧ IsHexDump tmesg buf lines := by
  unfold hexdLines
  split_ifs with h
  · obtain ⟨groups, hloop, hflat, hall⟩ :=
      hexdLoop_groups buf 0 [] (Nat.zero_add _) rfl fun _ => rfl
    rw [hexLine_nil] at hloop
    exact ⟨_, by rw [hloop]; rfl, groups, hflat, hall, .inl rfl⟩
  · push Not at h
    obtain ⟨hmax, hne, hroom⟩ := h
    obtain ⟨b, rest, rfl⟩ := List.exists_cons_of_length_pos (Nat.pos_of_ne_zero hne)
    refine ⟨_, hexdLoop_behind hmax b rest 0 tmesg (by simp) hmesg hroom, [b :: rest], by simp,
      ?_, .inr ⟨rfl, rfl⟩⟩
    simpa using hmax

/-- What is not empty is cut to the size of the buffer. -/
theorem expandVarArgs_take {size : ℕ} (hsize : 1 < size) {mesg : Text} (h : mesg ≠ []) :
    expandVarArgs size mesg = some (mesg.take (size - 1)) ∧ mesg.take (size - 1) ≠ [] := by
  have htake : mesg.take (size - 1) ≠ [] := by
    simp [h]
    omega
  exact ⟨if_neg htake, htake⟩

section Dump

variable (resFunc : Resm → σ → Option σ)

theorem tstResmHexd_empty {r : Resm} (h : r.mesg = []) (buf : List UInt8) (s : σ) :
    tstResmHexd resFunc r buf s = .error .assertion := by
  simp [tstResmHexd, h, expandVarArgs, bind, Except.bind]

theorem tstResmHexd_eq {r : Resm} (h : r.mesg ≠ []) (buf : List UInt8) :
    ∃ lines, IsHexDump (r.mesg.take (userMesg - 1)) buf lines ∧
      ∀ s, tstResmHexd resFunc r buf s =
        handOn resFunc (lines.map fun line => { r with mesg := line }) s := by
  obtain ⟨hexpand, hne⟩ := expandVarArgs_take (by decide : 1 < userMesg) h
  obtain ⟨lines, hlines, hdump⟩ := hexdLines_isHexDump hne buf
  exact ⟨lines, hdump, fun s => by simp [tstResmHexd, hexpand, hlines, bind, Except.bind]⟩

theorem handOn_ne_outside (rs : List Resm) (s : σ) : handOn resFunc rs s ≠ .error .outside := by
  induction rs generalizing s with
  | nil => rintro ⟨⟩
  | cons r rs ih =>
      rw [handOn]
      split
      · exact ih _
      · rintro ⟨⟩

/-- For every buffer, no write of `tst_resm_hexd_` leaves `tmesg`, and for every message that is
not empty its calls of `res_func` are made with the message, as far as `tmesg` holds it, and the
bytes of the buffer in order, at most sixteen on a line, and with the place and the type given;
the first call that does not return is the last. -/
theorem tstResmHexd_dump (r : Resm) (buf : List UInt8) :
    (∀ s, tstResmHexd resFunc r buf s ≠ .error .outside) ∧
      (r.mesg ≠ [] → ∃ lines, IsHexDump (r.mesg.take (userMesg - 1)) buf lines ∧
        ∀ s, tstResmHexd resFunc r buf s =
          handOn resFunc (lines.map fun line => { r with mesg := line }) s) := by
  refine ⟨fun s houtside => ?_, fun h => tstResmHexd_eq resFunc h buf⟩
  by_cases h : r.mesg = []
  · rw [tstResmHexd_empty resFunc h buf] at houtside
    cases houtside
  · obtain ⟨lines, -, hlines⟩ := tstResmHexd_eq resFunc h buf
    exact handOn_ne_outside resFunc _ s ((hlines s).symm.trans houtside)

end Dump

/-- Seventeen bytes behind the message `"reply"`, reported with the old library. -/
theorem tstResmHexd_dump_reply :
    ∃ lines, IsHexDump (txt "reply") (List.replicate 17 255) lines ∧
      ∀ s, tstResmHexd (tstRes (txt "t")) ⟨txt "a.c", 7, .info, txt "reply", []⟩
          (List.replicate 17 255) s =
        handOn (tstRes (txt "t")) (lines.map fun line => ⟨txt "a.c", 7, .info, line, []⟩) s :=
  (tstResmHexd_dump (tstRes (txt "t")) ⟨txt "a.c", 7, .info, txt "reply", []⟩
    (List.replicate 17 255)).2 (by decide)

/-- With an empty message the byte of the buffer does not appear: the assertion fails. -/
theorem tstResmHexd_empty_message :
    ¬ ∃ lines, IsHexDump [] [255] lines ∧
      tstResmHexd (fun r emitted => some (emitted ++ [r.mesg])) ⟨txt "a.c", 7, .info, [], []⟩
        [255] [] = .ok lines := by
  rintro ⟨lines, -, hlines⟩
  rw [tstResmHexd_empty _ rfl] at hlines
  cases hlines

end EDDTs.LtpLib
