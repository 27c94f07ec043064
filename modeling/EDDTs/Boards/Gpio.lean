import EDDTs.Boards.Resm
import EDDTs.Library.Trace
import EDDTs.Pan.CLibrary

/-!
# The GPIO test

`gpio_test` exports a pin, reads it or drives it a number of times, and unexports it. Every
failure ends the process through `tst_brkm`. The two boards have the same source, except that
only one of them looks at the result of the writes to `export` and `unexport`.
-/

namespace EDDTs.Boards

open Library Pan

inductive Board
  | beagleboneevm
  | rpi2evm
  deriving DecidableEq, Repr

/-- What the test does, as far as it can be seen from outside. `readBack` is what a call of
`GPIORead` returns; it returns nothing when the process ends in it. -/
inductive GpioEvent
  | opened (path : Text) (ok : Bool)
  | wrote (path data : Text) (ret : Int)
  | readBack (path : Text) (value : Option Int)
  | resm (message : Message)
  | print (text : Text)
  deriving DecidableEq, Repr

/-- How the calls of one pass of the loop are answered. What `read` does not fill of
`value_str` is left over. -/
structure RoundAnswers where
  writeOpen : Bool
  write : Int
  readOpen : Bool
  read : Option Text
  leftover : Text
  deriving DecidableEq, Repr

/-- How the calls are answered; `stack` is what follows the number in the two buffers. The
passes are numbered by the value of `loop`. -/
structure GpioAnswers where
  exportOpen : Bool
  exportWrite : Int
  exportStack : Text
  directionOpen : Bool
  directionWrite : Int
  round : ℕ → RoundAnswers
  unexportOpen : Bool
  unexportWrite : Int
  unexportStack : Text

/-! ### The operations -/

/-- The process goes on. -/
def goOn : Trace GpioEvent := ⟨[], false⟩

/-- `tst_brkm(TCONF, NULL, text)`. -/
def brkm (text : String) : Trace GpioEvent := ⟨[.resm ⟨.conf, txt text, false⟩], true⟩

/-- `open`, and the test of its result. -/
def openFile (path : Text) (ok : Bool) (failure : String) : Trace GpioEvent :=
  Trace.andThen ⟨[.opened path ok], false⟩ (if ok then goOn else brkm failure)

/-- What `snprintf` stores in a buffer of this size. -/
def snprintf (size : ℕ) (t : Text) : Text := t.take (size - 1) ++ ['\x00']

/-- `BUFFER_MAX` -/
def bufferMax : ℕ := 3

/-- `DIRECTION_MAX` -/
def directionMax : ℕ := 35

/-- `VALUE_MAX` -/
def valueMax : ℕ := 30

/-- The bytes that are written to `export` and `unexport`: as many as the number has
characters, from a buffer that may not hold them all. -/
def pinData (pin : Int) (stack : Text) : Text :=
  (snprintf bufferMax (intText pin) ++ stack).take (intText pin).length

def exportFile : Text := txt "/sys/class/gpio/export"

def unexportFile : Text := txt "/sys/class/gpio/unexport"

/-- The part that `GPIOExport` and `GPIOUnexport` have in common. -/
def writePin (board : Board) (file : Text) (failure : String) (pin : Int) (ok : Bool) (ret : Int)
    (stack : Text) : Trace GpioEvent :=
  (openFile file ok failure).andThen <|
    Trace.andThen ⟨[.wrote file (pinData pin stack) ret], false⟩ <|
      match board with
      | .beagleboneevm =>
          if ret ≠ (intText pin).length then brkm "GPIOExport write Failed!!!\n" else goOn
      | .rpi2evm => goOn

/-- `GPIOExport` -/
def gpioExport (board : Board) (pin : Int) (answers : GpioAnswers) : Trace GpioEvent :=
  writePin board exportFile "Failed to open export for writing!!!\n" pin answers.exportOpen
    answers.exportWrite answers.exportStack

/-- `GPIOUnexport` -/
def gpioUnexport (board : Board) (pin : Int) (answers : GpioAnswers) : Trace GpioEvent :=
  writePin board unexportFile "Failed to open unexport for writing!!!\n" pin answers.unexportOpen
    answers.unexportWrite answers.unexportStack

/-- The path of a file of the pin. -/
def gpioPath (pin : Int) (file : String) : Text :=
  txt "/sys/class/gpio/gpio" ++ intText pin ++ txt file

/-- The path that is opened in `GPIODirection`. -/
def directionPath (pin : Int) : Text := cString (snprintf directionMax (gpioPath pin "/direction"))

/-- The path that is opened in `GPIORead`. -/
def valueReadPath (pin : Int) : Text := cString (snprintf valueMax (gpioPath pin "/value"))

/-- The path that is opened in `GPIOWrite`. -/
def valueWritePath (pin : Int) : Text := cString (snprintf valueMax (gpioPath pin "/value"))

/-- `GPIODirection`; the direction `IN` is 0. -/
def gpioDirection (pin dir : Int) (answers : GpioAnswers) : Trace GpioEvent :=
  (openFile (directionPath pin) answers.directionOpen
      "Failed to open gpio direction for writing!!\n").andThen <|
    Trace.andThen ⟨[.wrote (directionPath pin) (if dir = 0 then txt "in" else txt "out")
        answers.directionWrite], false⟩ <|
      if answers.directionWrite = -1 then brkm "Failed to set direction!\n" else goOn

/-- What `GPIORead` returns: `atoi` of `value_str`, which `read` filled from the start. -/
def RoundAnswers.value (a : RoundAnswers) : Option Int :=
  if a.readOpen then a.read.map fun bytes => atoi (bytes ++ a.leftover.drop bytes.length) else none

/-- `GPIORead` -/
def gpioRead (pin : Int) (a : RoundAnswers) : Trace GpioEvent :=
  let failure := if a.readOpen then "Failed to read value!\n"
    else "Failed to open gpio value for reading!\n"
  Trace.andThen ⟨[.opened (valueReadPath pin) a.readOpen, .readBack (valueReadPath pin) a.value],
    false⟩ (if a.value = none then brkm failure else goOn)

/-- `GPIOWrite`; the value `LOW` is 0. -/
def gpioWrite (pin : Int) (value : ℕ) (a : RoundAnswers) : Trace GpioEvent :=
  (openFile (valueWritePath pin) a.writeOpen "Failed to open gpio value for writing!\n").andThen <|
    Trace.andThen ⟨[.wrote (valueWritePath pin) (if value = 0 then txt "0" else txt "1") a.write],
      false⟩ <|
      if a.write ≠ 1 then brkm "Failed to write value!\n" else goOn

/-! ### The test -/

/-- The loop that reads the pin, up to the pass `n`. -/
def readLoop (pin : Int) (round : ℕ → RoundAnswers) : ℕ → Trace GpioEvent
  | 0 => goOn
  | n + 1 =>
      (readLoop pin round n).andThen <| (gpioRead pin (round n)).andThen
        ⟨[.print (txt "Read " ++ intText ((round n).value.getD 0) ++ txt " in GPIO " ++
          intText pin ++ txt "\n")], false⟩

/-- The body of the loop that drives the pin. -/
def driveRound (pin : Int) (round : ℕ → RoundAnswers) (loop : ℕ) : Trace GpioEvent :=
  (gpioWrite pin (loop % 2) (round loop)).andThen <|
    (gpioRead pin (round loop)).andThen <|
      if (round loop).value ≠ some ((loop % 2 : ℕ) : Int) then brkm "GPIO Test Failed!\n" else goOn

/-- `do { … } while (loop--)` -/
def driveLoop (pin : Int) (round : ℕ → RoundAnswers) : ℕ → Trace GpioEvent
  | 0 => driveRound pin round 0
  | loop + 1 => (driveRound pin round (loop + 1)).andThen (driveLoop pin round loop)

def passedMessage : GpioEvent := .resm ⟨.info, txt "GPIO Tests Passed!", false⟩

/-- `main` of `gpio_test`, with a number of passes that is not negative. -/
def gpioMain (board : Board) (pin direction : Int) (loop : ℕ) (answers : GpioAnswers) :
    Trace GpioEvent :=
  (gpioExport board pin answers).andThen <|
    ((if direction = 0 then
        (gpioDirection pin 0 answers).andThen (readLoop pin answers.round loop)
      else (gpioDirection pin 1 answers).andThen (driveLoop pin answers.round loop))).andThen <|
      (gpioUnexport board pin answers).andThen
        ⟨[passedMessage, .resm ⟨.info, txt "GPIO Tests Done!", false⟩], false⟩

/-! ### The texts -/

section Texts

theorem cString_snprintf {size : ℕ} {t : Text} (h : '\x00' ∉ t) :
    cString (snprintf size t) = t.take (size - 1) := by
  have hnul : '\x00' ∉ t.take (size - 1) := fun hmem => h (List.mem_of_mem_take hmem)
  have hall : ∀ c ∈ t.take (size - 1), decide (c ≠ '\x00') = true := by
    intro c hc
    exact decide_eq_true fun heq => hnul (heq ▸ hc)
  rw [cString, snprintf, List.takeWhile_append_of_pos hall, List.takeWhile_cons_of_neg (by decide),
    List.append_nil]

theorem nul_not_mem_gpioPath (pin : Int) {file : String} (h : '\x00' ∉ file.toList) :
    '\x00' ∉ gpioPath pin file := by
  rw [gpioPath, List.mem_append, List.mem_append]
  rintro ((hmem | hmem) | hmem)
  · exact absurd hmem (by decide)
  · exact not_mem_intText (by decide) (by decide) pin hmem
  · exact h hmem

theorem length_gpioPath (pin : Int) (file : String) :
    (gpioPath pin file).length = 20 + (intText pin).length + file.toList.length := by
  rw [gpioPath, List.length_append, List.length_append, txt, txt]
  rfl

/-- A path is right exactly when it fits into its buffer. -/
theorem cString_gpioPath_iff (pin : Int) {file : String} (h : '\x00' ∉ file.toList) (size : ℕ) :
    cString (snprintf size (gpioPath pin file)) = gpioPath pin file ↔
      20 + (intText pin).length + file.toList.length ≤ size - 1 := by
  rw [cString_snprintf (nul_not_mem_gpioPath pin h), ← length_gpioPath]
  constructor
  · intro hsame
    have hlength := congrArg List.length hsame
    rw [List.length_take] at hlength
    omega
  · exact List.take_of_length_le

theorem directionPath_iff (pin : Int) :
    directionPath pin = gpioPath pin "/direction" ↔ (intText pin).length ≤ 4 := by
  rw [directionPath, cString_gpioPath_iff pin (by decide),
    show "/direction".toList.length = 10 by rfl, directionMax]
  omega

theorem valuePath_iff (pin : Int) :
    cString (snprintf valueMax (gpioPath pin "/value")) = gpioPath pin "/value" ↔
      (intText pin).length ≤ 3 := by
  rw [cString_gpioPath_iff pin (by decide), show "/value".toList.length = 6 by rfl, valueMax]
  omega

/-- The number is written as it is exactly when it has at most two characters. -/
theorem pinData_iff (pin : Int) (stack : Text) :
    pinData pin stack = intText pin ↔ (intText pin).length ≤ 2 := by
  rw [pinData, snprintf, bufferMax]
  constructor
  · intro h
    by_contra hlong
    -- the third byte is the NUL of the buffer
    have hthird := congrArg (fun t : Text => t[2]?) h
    simp only [List.append_assoc, List.getElem?_take] at hthird
    rw [if_pos (by omega), List.getElem?_append_right (by rw [List.length_take]; omega),
      List.length_take] at hthird
    have hnul : '\x00' ∈ intText pin := by
      rw [show 2 - min (3 - 1) (intText pin).length = 0 by omega] at hthird
      exact List.mem_of_getElem? hthird.symm
    exact not_mem_intText (by decide) (by decide) pin hnul
  · intro hshort
    rw [List.take_of_length_le hshort, List.append_assoc, List.take_left]

end Texts

/-- The five operations address the pin exactly when it has at most two digits. -/
theorem gpioTexts_iff (pin : ℕ) (exportStack unexportStack : Text) :
    (pinData pin exportStack = natText pin ∧ pinData pin unexportStack = natText pin ∧
        directionPath pin = txt "/sys/class/gpio/gpio" ++ natText pin ++ txt "/direction" ∧
        valueReadPath pin = txt "/sys/class/gpio/gpio" ++ natText pin ++ txt "/value" ∧
        valueWritePath pin = txt "/sys/class/gpio/gpio" ++ natText pin ++ txt "/value") ↔
      pin < 100 := by
  have hlength : (intText (pin : Int)).length ≤ 2 ↔ pin < 100 :=
    Nat.length_toDigits_le_iff (by decide) (by decide)
  have hexport := pinData_iff pin exportStack
  have hunexport := pinData_iff pin unexportStack
  have hdirection := directionPath_iff pin
  have hvalue := valuePath_iff pin
  constructor
  · rintro ⟨h, -⟩
    exact hlength.mp (hexport.mp h)
  · intro h
    have hshort := hlength.mpr h
    have hpath := hvalue.mpr (hshort.trans (by decide))
    exact ⟨hexport.mpr hshort, hunexport.mpr hshort,
      hdirection.mpr (hshort.trans (by decide)), hpath, hpath⟩

/-- The pin 100 is exported as the pin 10, followed by a NUL. -/
theorem pinData_hundred :
    pinData 100 [] = ['1', '0', '\x00'] ∧ pinData 100 [] ≠ natText 100 := by
  decide

end EDDTs.Boards
