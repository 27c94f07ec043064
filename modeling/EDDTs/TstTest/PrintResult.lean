import EDDTs.Library.PrintBuffer
import EDDTs.TstTest.Results

/-!
# The lines of the results

`print_result` (`lib/tst_test.c`): a result is put together in an array of 1024 bytes and
written to standard error; if its message is cut, a warning is printed before by the same
function.

## Implementation notes

Only the result types that exist are modelled; for another number the test breaks. `tst_strerrno`
is a table of names and can be any here. A formatted text is taken as it is, and `vsnprintf`
returns −1 if its length is not the value of an `int`.
-/

namespace EDDTs.TstTest

open Library

/-- A call of `tst_res_`: its result type and the flags `TERRNO`, `TTERRNO` and `TRERRNO`, and the
formatted message. -/
structure ResultCall where
  file : Text
  lineno : ℤ
  ttype : TType
  terrno : Bool := false
  tterrno : Bool := false
  trerrno : Bool := false
  message : Text

/-- What the functions find around them: the variables for errors, the variable of the
environment for colours, and what the C library answers. -/
structure Surroundings where
  errno : ℤ
  tstErr : ℤ
  tstRet : ℤ
  strErrno : ℤ → Text
  /-- `LTP_COLORIZE_OUTPUT` -/
  colorizeOutput : Option Text
  isatty : Bool
  /-- what the `k`-th call of `write` returns -/
  write : ℕ → Text → ℤ

/-- What the functions change: the variable `color`, the counters once they are mapped, and what
each call of `print_result` has written. -/
structure ResultState where
  color : ℤ := 0
  results : Option Results := none
  writes : ℕ := 0
  emitted : List Text := []

/-- The word for a result type. -/
def resText : TType → Text
  | .pass => txt "PASS"
  | .fail => txt "FAIL"
  | .brok => txt "BROK"
  | .conf => txt "CONF"
  | .warn => txt "WARN"
  | .info => txt "INFO"

/-- `tst_ttype2color` -/
def ttype2color : TType → Text
  | .pass => txt "\x1b[1;32m"
  | .fail => txt "\x1b[1;31m"
  | .brok => txt "\x1b[1;31m"
  | .conf => txt "\x1b[1;33m"
  | .warn => txt "\x1b[1;35m"
  | .info => txt "\x1b[1;34m"

/-- `ANSI_COLOR_RESET` -/
def colorReset : Text := txt "\x1b[0m"

/-- `tst_color_enabled`: the new value of `color`, and what is returned. -/
def colorEnabled (env : Surroundings) (color : ℤ) : ℤ × ℤ :=
  if color ≠ 0 then (color, color - 1)
  else
    match env.colorizeOutput with
    | some value =>
        let color := if value = txt "n" ∨ value = txt "0" then 1 else color
        let color := if value = txt "y" ∨ value = txt "1" then 2 else color
        (color, color - 1)
    | none =>
        let color := if env.isatty then 2 else 1
        (color, color - 1)

/-- The place of a result. -/
def ResultCall.place (c : ResultCall) : Text := c.file ++ txt ":" ++ intText c.lineno ++ txt ": "

/-- The result type as it is printed. -/
def typeText (colored : Bool) (t : TType) : Text :=
  if colored then ttype2color t ++ resText t ++ txt ": " ++ colorReset else resText t ++ txt ": "

/-- The number of an error in `TST_RET`. -/
def retErrno (tstRet : ℤ) : ℤ :=
  (if tstRet < 0 then -BitVec.ofInt 32 tstRet else BitVec.ofInt 32 tstRet).toInt

/-- The last flag that is set says which error is printed. -/
def ResultCall.intErrno (env : Surroundings) (c : ResultCall) : Option ℤ :=
  if c.trerrno then some (retErrno env.tstRet)
  else if c.tterrno then some env.tstErr
  else if c.terrno then some env.errno
  else none

/-- The text of the error, behind the message. -/
def ResultCall.suffix (env : Surroundings) (c : ResultCall) : Option Text :=
  (c.intErrno env).map fun i => txt ": " ++ env.strErrno i ++ txt " (" ++ intText i ++ txt ")"

/-- The bytes of `buf`. -/
def bufSize : ℕ := 1024

/-- The bytes kept for the newline and the NUL. -/
def lineEnd : ℕ := 2

/-- The place and the type are printed into `buf`. -/
def ResultCall.printLead (colored : Bool) (c : ResultCall) : Option Cursor := do
  let cursor ← (Cursor.start bufSize).print c.place
  cursor.print (typeText colored c.ttype)

/-- The message is printed behind them, and the error unless the message was cut; whether
something was cut. -/
def ResultCall.printBody (env : Surroundings) (c : ResultCall) (cursor : Cursor) : Cursor × Bool :=
  let body := cursor.printUpTo lineEnd c.message
  if body.2 then body
  else
    match c.suffix env with
    | none => body
    | some suffix => body.1.printUpTo lineEnd suffix

/-- The line ends in a newline, or in the NUL alone if there is no room for it; none if there is
no room at all. -/
def endLine (cursor : Cursor) : Option Text :=
  if 2 ≤ cursor.size then some (cursor.text ++ txt "\n")
  else if cursor.size = 1 then some (cursor.text ++ ['\x00'])
  else none

/-- The line is written to standard error. -/
def ResultState.emit (env : Surroundings) (line : Text) (s : ResultState) : ResultState :=
  let written := writeLoop env.write line.length s.writes line
  { s with writes := written.2, emitted := s.emitted ++ [written.1] }

/-- The warning before a line that is cut. -/
def ResultCall.warning (c : ResultCall) : ResultCall where
  file := c.file
  lineno := c.lineno
  ttype := .warn
  message := txt "Next message is too long and truncated:"

/-- `tst_vres_`, with what prints the result. -/
def tstVres (print : ResultCall → ResultState → Option ResultState) (c : ResultCall)
    (s : ResultState) : Option ResultState := do
  let s ← print c s
  some { s with results := s.results.map (updateResults c.ttype) }

/-- The colours are asked for. -/
def ResultState.askColor (env : Surroundings) (s : ResultState) : ResultState :=
  { s with color := (colorEnabled env s.color).1 }

/-- Whether the lines are coloured. -/
def ResultState.colored (env : Surroundings) (s : ResultState) : Bool :=
  (colorEnabled env s.color).2 ≠ 0

/-- `print_result`; none if the calls nest deeper than `fuel`, or the place does not fit. -/
def printResult (env : Surroundings) : ℕ → ResultCall → ResultState → Option ResultState
  | 0, _, _ => none
  | fuel + 1, c, s => do
      let lead ← c.printLead (s.colored env)
      let s := s.askColor env
      let body := c.printBody env lead
      let s ← if body.2 then tstVres (printResult env fuel) c.warning s else some s
      let line ← endLine body.1
      some (s.emit env line)

/-- What stands in front of the message. -/
def ResultCall.lead (colored : Bool) (c : ResultCall) : Text :=
  c.place ++ typeText colored c.ttype

/-- The message and the text of the error. -/
def ResultCall.whole (env : Surroundings) (c : ResultCall) : Text :=
  c.message ++ (c.suffix env).getD []

/-- The call prints its line, of at most 1024 bytes and with one newline at its end, with the
whole message and error or with what is left of them after a warning; the room that is left is
positive all the time, and the calls nest at most twice. -/
def PrintsRight (env : Surroundings) (c : ResultCall) (s : ResultState) : Prop :=
  (∃ lead, c.printLead (s.colored env) = some lead ∧
    ∀ size ∈ (c.printBody env lead).1.sizes, 0 < size) ∧
  ∃ (s' : ResultState) (warned : Bool) (kept : Text),
    (∀ fuel ≥ 2, printResult env fuel c s = some s') ∧
    s'.emitted = s.emitted ++
      (if warned then [c.warning.lead (s.colored env) ++ c.warning.message ++ txt "\n"] else []) ++
      [c.lead (s.colored env) ++ kept ++ txt "\n"] ∧
    (c.lead (s.colored env) ++ kept ++ txt "\n").length ≤ bufSize ∧
    kept <+: c.whole env ∧ (kept ≠ c.whole env → warned = true)

/-- The lengths that `snprintf` returns: that of the message, and that of the error if it is
printed. -/
def ResultCall.LengthsFit (env : Surroundings) (colored : Bool) (c : ResultCall) : Prop :=
  c.message.length < 2 ^ 31 ∧
    ((c.lead colored).length + c.message.length + lineEnd < bufSize →
      ∀ suffix ∈ c.suffix env, suffix.length < 2 ^ 31)

section Lead

variable (colored : Bool) (c : ResultCall)

/-- All result types take the same room. -/
theorem length_typeText (t : TType) :
    (typeText colored t).length = if colored then 17 else 6 := by
  have hres : (resText t).length = 4 := by cases t <;> simp [resText, txt]
  have hcolor : (ttype2color t).length = 7 := by cases t <;> simp [ttype2color, txt]
  cases colored <;> simp [typeText, hres, hcolor, colorReset, txt]

/-- Two characters at least stand in front of the message, the last of them no colon. -/
theorem exists_lead_eq :
    ∃ front last, c.lead colored = front ++ [last] ∧ front ≠ [] ∧ last ≠ ':' := by
  have htype : ∃ front last, typeText colored c.ttype = front ++ [last] ∧ last ≠ ':' := by
    cases colored with
    | false => exact ⟨resText c.ttype ++ [':'], ' ', by simp [typeText, txt], by decide⟩
    | true =>
        exact ⟨ttype2color c.ttype ++ resText c.ttype ++ txt ": \x1b[0", 'm',
          by simp [typeText, colorReset, txt], by decide⟩
  obtain ⟨front, last, heq, hlast⟩ := htype
  exact ⟨c.place ++ front, last, by rw [ResultCall.lead, heq, List.append_assoc],
    by simp [ResultCall.place, txt], hlast⟩

theorem length_lead_warning : (c.warning.lead colored).length = (c.lead colored).length := by
  rw [ResultCall.lead, ResultCall.lead, List.length_append, List.length_append,
    length_typeText, length_typeText]
  rfl

/-- The colours do not change after they were asked for. -/
theorem colorEnabled_again (env : Surroundings) (color : ℤ) :
    colorEnabled env (colorEnabled env color).1 = colorEnabled env color := by
  by_cases hcolor : color = 0
  · subst hcolor
    unfold colorEnabled
    cases env.colorizeOutput with
    | none => cases env.isatty <;> rfl
    | some value =>
        by_cases hy : value = txt "y" ∨ value = txt "1"
        · simp [hy]
        · by_cases hn : value = txt "n" ∨ value = txt "0" <;> simp [hy, hn]
  · simp [colorEnabled, hcolor]

end Lead

section Print

variable {env : Surroundings} {colored : Bool} {c : ResultCall} {s : ResultState}

/-- A hundred bytes are left behind the place and the type, which are printed whole. -/
theorem printLead_eq (h : (c.lead colored).length + 100 ≤ bufSize) :
    ∃ lead, c.printLead colored = some lead ∧ lead.text = c.lead colored ∧
      lead.InBounds bufSize lineEnd := by
  have hbuf : bufSize = 1024 := rfl
  have hend : lineEnd = 2 := rfl
  rw [ResultCall.lead, List.length_append] at h
  have hstart : (Cursor.start bufSize).InBounds bufSize lineEnd :=
    Cursor.inBounds_start (by decide) (by decide)
  obtain ⟨placed, hplaced, htext, hbounds⟩ := Cursor.print_of_room (t := c.place) hstart
    (by decide) (by omega) (by simp only [Cursor.start]; omega)
  have htotal := hbounds.total
  rw [htext] at htotal
  obtain ⟨lead, hlead, htext', hbounds'⟩ := Cursor.print_of_room
    (t := typeText colored c.ttype) hbounds (by decide) (by omega)
    (by simp [Cursor.start] at htotal; omega)
  refine ⟨lead, by simp [ResultCall.printLead, hplaced, hlead], ?_, hbounds'⟩
  rw [htext', htext]
  rfl

/-- The error is printed where the message was not cut. -/
theorem printBody_eq (env : Surroundings) (c : ResultCall) (lead : Cursor) :
    c.printBody env lead =
      if (lead.printUpTo lineEnd c.message).2 then lead.printUpTo lineEnd c.message
      else (c.suffix env).elim (lead.printUpTo lineEnd c.message)
        ((lead.printUpTo lineEnd c.message).1.printUpTo lineEnd) := by
  unfold ResultCall.printBody
  cases c.suffix env <;> rfl

section Body

variable {lead : Cursor} (hbounds : lead.InBounds bufSize lineEnd)
  (htext : lead.text = c.lead colored)
include hbounds htext

/-- A part of what stands in front of the message stays. -/
theorem printMessage_ne_nil : (lead.printUpTo lineEnd c.message).1.text ≠ [] := by
  obtain ⟨front, last, heq, hfront, -⟩ := exists_lead_eq colored c
  rcases lt_or_ge c.message.length (2 ^ 31) with hlength | hlength
  · rw [(Cursor.printUpTo_of_lt hbounds hlength).1, htext, heq]
    simp
  · rw [(Cursor.printUpTo_of_le hbounds hlength).1, htext, heq, List.dropLast_concat]
    exact hfront

theorem printMessage_inBounds :
    (lead.printUpTo lineEnd c.message).1.InBounds bufSize lineEnd := by
  obtain ⟨front, last, heq, -⟩ := exists_lead_eq colored c
  exact hbounds.printUpTo (by decide) (by simp [htext, heq]) c.message

theorem printBody_inBounds : (c.printBody env lead).1.InBounds bufSize lineEnd := by
  have hmessage := printMessage_inBounds hbounds htext
  rw [printBody_eq]
  split_ifs
  · exact hmessage
  · cases c.suffix env with
    | none => exact hmessage
    | some suffix =>
        exact hmessage.printUpTo (by decide) (printMessage_ne_nil hbounds htext) suffix

/-- A message that is not cut stands whole in the buffer. -/
theorem printMessage_whole (hlength : c.message.length < 2 ^ 31)
    (hcut : (lead.printUpTo lineEnd c.message).2 ≠ true) :
    (lead.printUpTo lineEnd c.message).1.text = c.lead colored ++ c.message ∧
      (c.lead colored).length + c.message.length + lineEnd < bufSize := by
  obtain ⟨hmessage, hiff⟩ := Cursor.printUpTo_of_lt hbounds hlength
  have hless := mt hiff.mpr hcut
  have htotal := hbounds.total
  rw [htext] at htotal
  refine ⟨?_, by omega⟩
  rw [hmessage, htext, List.take_of_length_le (by omega)]

/-- If the lengths fit, what is printed is the whole text, or a part of it that counts as cut. -/
theorem printBody_of_lengthsFit (hfit : c.LengthsFit env colored) :
    ∃ kept, (c.printBody env lead).1.text = c.lead colored ++ kept ∧ kept <+: c.whole env ∧
      (kept ≠ c.whole env → (c.printBody env lead).2 = true) := by
  obtain ⟨hmessage, hroom⟩ := hfit
  rw [printBody_eq, ResultCall.whole]
  by_cases hcut : (lead.printUpTo lineEnd c.message).2 = true
  · rw [if_pos hcut]
    refine ⟨_, by rw [(Cursor.printUpTo_of_lt hbounds hmessage).1, htext], ?_, fun _ => hcut⟩
    exact (List.take_prefix _ _).trans (List.prefix_append _ _)
  · rw [if_neg hcut]
    obtain ⟨hwhole, hless⟩ := printMessage_whole hbounds htext hmessage hcut
    cases hsuffix : c.suffix env with
    | none => exact ⟨c.message, hwhole, by simp, by simp⟩
    | some suffix =>
        obtain ⟨hprinted, hiff⟩ := Cursor.printUpTo_of_lt (printMessage_inBounds hbounds htext)
          (hroom hless suffix hsuffix)
        rw [hwhole, List.append_assoc] at hprinted
        refine ⟨_, hprinted, ?_, fun hne => ?_⟩
        · exact (List.prefix_append_right_inj _).mpr (List.take_prefix _ _)
        · -- A text that is taken whole would be the whole text.
          rw [Option.elim_some, hiff]
          by_contra hlong
          exact hne (by rw [List.take_of_length_le (by omega)]; rfl)

/-- If something was cut and the line begins as it should, then the lengths fit. -/
theorem lengthsFit_of_printBody {kept : Text} (hcut : (c.printBody env lead).2 = true)
    (hkept : (c.printBody env lead).1.text = c.lead colored ++ kept) :
    c.LengthsFit env colored := by
  rw [printBody_eq] at hcut hkept
  rcases lt_or_ge c.message.length (2 ^ 31) with hlength | hlength
  · refine ⟨hlength, fun hless suffix hsuffix => ?_⟩
    have hmessage : ¬ (lead.printUpTo lineEnd c.message).2 = true := by
      have htotal := hbounds.total
      rw [htext] at htotal
      rw [(Cursor.printUpTo_of_lt hbounds hlength).2]
      omega
    rw [if_neg hmessage, Option.mem_def.mp hsuffix, Option.elim_some] at hcut
    by_contra hlong
    rw [(Cursor.printUpTo_of_le (printMessage_inBounds hbounds htext) (not_lt.mp hlong)).2] at hcut
    cases hcut
  · -- The error is printed over the last character in front of the message.
    exfalso
    obtain ⟨hmessage, hnot⟩ := Cursor.printUpTo_of_le hbounds hlength
    have hbounds₁ := printMessage_inBounds hbounds htext
    rw [hnot, if_neg (by decide)] at hcut hkept
    cases hsuffix : c.suffix env with
    | none =>
        rw [hsuffix, Option.elim_none, hnot] at hcut
        cases hcut
    | some suffix =>
        rw [hsuffix, Option.elim_some] at hcut hkept
        obtain ⟨front, last, heq, -, hlast⟩ := exists_lead_eq colored c
        rcases lt_or_ge suffix.length (2 ^ 31) with hshort | hlong
        · rw [(Cursor.printUpTo_of_lt hbounds₁ hshort).1, hmessage, htext, heq,
            List.dropLast_concat, List.append_assoc, List.append_cancel_left_eq] at hkept
          obtain ⟨rest, rfl⟩ : ∃ rest, suffix = ':' :: rest := by
            obtain ⟨i, -, rfl⟩ := Option.map_eq_some_iff.mp hsuffix
            exact ⟨_, rfl⟩
          cases hn : ((lead.printUpTo lineEnd c.message).1.size - lineEnd).toNat with
          | zero => simp [hn] at hkept
          | succ n =>
              rw [hn, List.take_succ_cons] at hkept
              exact hlast (List.cons.inj hkept).1.symm
        · rw [(Cursor.printUpTo_of_le hbounds₁ hlong).2] at hcut
          cases hcut

end Body

theorem emit_emitted (htakes : Takes env.write) (line : Text) (s : ResultState) :
    (s.emit env line).emitted = s.emitted ++ [line] := by
  rw [ResultState.emit, writeLoop_takes htakes _ _ line le_rfl]

theorem endLine_eq {cursor : Cursor} (h : cursor.InBounds bufSize lineEnd) :
    endLine cursor = some (cursor.text ++ txt "\n") := if_pos h.room

/-- The run of a call whose line is laid out. -/
theorem printResult_succ {lead : Cursor} (hlead : c.printLead (s.colored env) = some lead)
    (hbounds : (c.printBody env lead).1.InBounds bufSize lineEnd) (fuel : ℕ) :
    printResult env (fuel + 1) c s =
      (if (c.printBody env lead).2 then
          tstVres (printResult env fuel) c.warning (s.askColor env)
        else some (s.askColor env)).map
        (ResultState.emit env ((c.printBody env lead).1.text ++ txt "\n")) := by
  simp only [printResult, hlead, endLine_eq hbounds, Option.bind_eq_bind, Option.bind_some]
  split_ifs
  · exact Option.map_eq_bind.symm
  · rfl

/-- The warning fits wherever a hundred bytes are left. -/
theorem printBody_warning (env : Surroundings) {lead : Cursor}
    (hbounds : lead.InBounds bufSize lineEnd)
    (htext : lead.text = c.warning.lead colored)
    (h : (c.warning.lead colored).length + 100 ≤ bufSize) :
    (c.warning.printBody env lead).1.text = c.warning.lead colored ++ c.warning.message ∧
      (c.warning.printBody env lead).2 = false := by
  have hlength : c.warning.message.length = 39 := by simp [ResultCall.warning, txt]
  have htotal := hbounds.total
  rw [htext] at htotal
  have hend : lineEnd = 2 := rfl
  have hcut : ¬ (lead.printUpTo lineEnd c.warning.message).2 = true := by
    rw [(Cursor.printUpTo_of_lt hbounds (by omega)).2]
    omega
  have hsuffix : c.warning.suffix env = none := rfl
  rw [printBody_eq, if_neg hcut, hsuffix, Option.elim_none]
  exact ⟨(printMessage_whole hbounds htext (by omega) hcut).1, Bool.eq_false_iff.mpr hcut⟩

variable (htakes : Takes env.write)

include htakes

/-- The nested call ends and prints the warning. -/
theorem printResult_warning (h : (c.warning.lead (s.colored env)).length + 100 ≤ bufSize) :
    ∃ s', (∀ fuel, printResult env (fuel + 1) c.warning s = some s') ∧
      s'.emitted = s.emitted ++
        [c.warning.lead (s.colored env) ++ c.warning.message ++ txt "\n"] := by
  obtain ⟨lead, hlead, htext, hbounds⟩ := printLead_eq h
  obtain ⟨hbody, hcut⟩ := printBody_warning env hbounds htext h
  refine ⟨(s.askColor env).emit env _, fun fuel => ?_, emit_emitted htakes _ _⟩
  rw [printResult_succ hlead (printBody_inBounds hbounds htext), hcut, hbody]
  rfl

variable (h : (c.lead (s.colored env)).length + 100 ≤ bufSize)

include h

/-- What happens before a line is written: nothing, or the warning if it is cut. -/
theorem exists_before (cut : Bool) :
    ∃ before,
      (∀ fuel, (if cut then tstVres (printResult env (fuel + 1)) c.warning (s.askColor env)
        else some (s.askColor env)) = some before) ∧
      before.emitted = s.emitted ++
        if cut then [c.warning.lead (s.colored env) ++ c.warning.message ++ txt "\n"] else [] := by
  -- The warning is coloured as the line is.
  have hcolored : (s.askColor env).colored env = s.colored env := by
    simp only [ResultState.colored, ResultState.askColor, colorEnabled_again]
  cases cut with
  | false => exact ⟨s.askColor env, fun _ => rfl, (List.append_nil _).symm⟩
  | true =>
      rw [← length_lead_warning, ← hcolored] at h
      obtain ⟨s', hnested, hemitted⟩ := printResult_warning htakes h
      refine ⟨{ s' with results := s'.results.map (updateResults .warn) }, fun fuel => ?_, ?_⟩
      · rw [if_pos rfl, tstVres, hnested]
        rfl
      · rw [← hcolored]
        exact hemitted

/-- What a call prints, for a message of any length. -/
theorem printResult_eq :
    ∃ lead, c.printLead (s.colored env) = some lead ∧ lead.text = c.lead (s.colored env) ∧
      lead.InBounds bufSize lineEnd ∧
      ∃ s', (∀ fuel ≥ 2, printResult env fuel c s = some s') ∧
        s'.emitted = s.emitted ++
          (if (c.printBody env lead).2 then
            [c.warning.lead (s.colored env) ++ c.warning.message ++ txt "\n"] else []) ++
          [(c.printBody env lead).1.text ++ txt "\n"] := by
  obtain ⟨lead, hlead, htext, hbounds⟩ := printLead_eq h
  obtain ⟨before, hbefore, hemitted⟩ := exists_before htakes h (c.printBody env lead).2
  refine ⟨lead, hlead, htext, hbounds,
    before.emit env ((c.printBody env lead).1.text ++ txt "\n"), fun fuel hfuel => ?_, ?_⟩
  · obtain ⟨fuel, rfl⟩ := Nat.exists_eq_add_of_le' hfuel
    rw [printResult_succ hlead (printBody_inBounds hbounds htext), hbefore, Option.map_some]
  · rw [emit_emitted htakes, hemitted]

/-- The lengths fit, then the call prints right. -/
theorem printsRight_of_lengthsFit (hfit : c.LengthsFit env (s.colored env)) :
    PrintsRight env c s := by
  obtain ⟨lead, hlead, htext, hbounds, s', hrun, hemitted⟩ := printResult_eq htakes h
  have hbody : (c.printBody env lead).1.InBounds bufSize lineEnd :=
    printBody_inBounds hbounds htext
  obtain ⟨kept, hkept, hprefix, hwhole⟩ := printBody_of_lengthsFit hbounds htext hfit
  refine ⟨⟨lead, hlead, hbody.positive⟩, s', (c.printBody env lead).2, kept, hrun, ?_, ?_,
    hprefix, hwhole⟩
  · rw [hemitted, hkept]
  · have htotal := hbody.total
    have hroom := hbody.room
    have hend : lineEnd = 2 := rfl
    rw [← hkept, List.length_append]
    simp [txt]
    omega

/-- A call that prints right has lengths that fit. -/
theorem PrintsRight.lengthsFit (hright : PrintsRight env c s) :
    c.LengthsFit env (s.colored env) := by
  obtain ⟨lead, hlead, htext, hbounds, s', hrun, hemitted⟩ := printResult_eq htakes h
  obtain ⟨-, s'', warned, kept, hrun', hemitted', hlength, -, hwhole⟩ := hright
  obtain rfl : s' = s'' := Option.some.inj ((hrun 2 le_rfl).symm.trans (hrun' 2 le_rfl))
  obtain ⟨hbefore, hline⟩ := List.append_inj' (hemitted.symm.trans hemitted') rfl
  have hkept : (c.printBody env lead).1.text = c.lead (s.colored env) ++ kept :=
    (List.append_inj' (List.singleton_inj.mp hline) rfl).1
  cases hwarned : warned with
  | true =>
      -- With a warning the layout has cut something.
      refine lengthsFit_of_printBody hbounds htext ?_ hkept
      by_contra hcut
      rw [hwarned, if_neg hcut, if_pos rfl] at hbefore
      simp at hbefore
  | false =>
      -- Without one the whole text stands in the line, which is short.
      have hall : kept = c.whole env := by
        by_contra hne
        rw [hwhole hne] at hwarned
        cases hwarned
      rw [hall, ResultCall.whole] at hlength
      simp only [List.length_append] at hlength
      have hbuf : bufSize = 1024 := rfl
      refine ⟨by omega, fun _ suffix hsuffix => ?_⟩
      rw [Option.mem_def.mp hsuffix, Option.getD_some] at hlength
      omega

end Print

/-- Where the place and the type leave a hundred bytes and standard error takes what is written,
a call of `print_result` prints right exactly if `snprintf` can return the length of its message,
and that of the error where it is printed. -/
theorem printResult_right_iff (env : Surroundings) (c : ResultCall) (s : ResultState)
    (htakes : Takes env.write) (h : (c.lead (s.colored env)).length + 100 ≤ bufSize) :
    PrintsRight env c s ↔ c.LengthsFit env (s.colored env) :=
  ⟨PrintsRight.lengthsFit htakes h, printsRight_of_lengthsFit htakes h⟩

/-- Standard error is a file that takes all that is written; `errno` is 5. -/
def toFile : Surroundings where
  errno := 5
  tstErr := 0
  tstRet := 0
  strErrno := fun _ => txt "EIO"
  colorizeOutput := none
  isatty := false
  write := fun _ text => text.length

theorem takes_toFile : Takes toFile.write := by
  intro k text htext
  exact ⟨Int.natCast_pos.mpr (List.length_pos_of_ne_nil htext), le_rfl⟩

/-- A failure with the text of an error. -/
theorem printResult_right_eio :
    PrintsRight toFile ⟨txt "a.c", 7, .fail, true, false, false, txt "open() failed"⟩ {} := by
  refine (printResult_right_iff toFile _ {} takes_toFile ?_).mpr ⟨?_, ?_⟩
  · rw [ResultCall.lead, List.length_append, length_typeText]
    decide
  · decide
  · intro _ suffix hsuffix
    obtain rfl := Option.some.inj hsuffix
    decide

/-- A failure with a message of `n` characters. -/
def failureOf (n : ℕ) : ResultCall where
  file := txt "a.c"
  lineno := 7
  ttype := .fail
  message := List.replicate n 'x'

/-- A message of 2^31 bytes is lost without a warning, though the place leaves more than a hundred
bytes. -/
theorem printResult_drops_message :
    ((failureOf (2 ^ 31)).lead false).length + 100 ≤ bufSize ∧
      ¬ PrintsRight toFile (failureOf (2 ^ 31)) {} := by
  have hroom (n : ℕ) : ((failureOf n).lead false).length + 100 ≤ bufSize := by
    have hplace : (failureOf n).place = txt "a.c:7: " := rfl
    rw [ResultCall.lead, List.length_append, length_typeText, hplace]
    decide
  refine ⟨hroom _, fun hright => ?_⟩
  have hfit := (PrintsRight.lengthsFit (s := {}) takes_toFile (hroom (2 ^ 31)) hright).1
  rw [failureOf, List.length_replicate] at hfit
  exact hfit.false

end EDDTs.TstTest
