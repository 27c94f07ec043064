import EDDTs.Boards.Gpio
import Mathlib.Data.List.Chain

/-!
# Runs of the GPIO test in output direction

The values that are driven, the values that are read back, and the pins that stay exported.
-/

namespace EDDTs.Boards

open Library

/-- The value that an event drives the pin with. -/
def drivenBy (pin : Int) : GpioEvent → Option ℕ
  | .wrote path data ret =>
      if ret = 1 ∧ path = gpioPath pin "/value" then
        if data = txt "0" then some 0 else if data = txt "1" then some 1 else none
      else none
  | _ => none

/-- The values that the pin is driven with, in order. -/
def driven (pin : Int) (events : List GpioEvent) : List ℕ := events.filterMap (drivenBy pin)

/-- Every read returns the value just driven, with the value that was driven before. -/
def ReadsMatch (pin : Int) : Option ℕ → List GpioEvent → Prop
  | _, [] => True
  | last, .readBack _ value :: rest =>
      (∃ d : ℕ, last = some d ∧ value = some (d : Int)) ∧ ReadsMatch pin last rest
  | last, e :: rest => ReadsMatch pin ((drivenBy pin e).or last) rest

/-- The write to `export` was accepted. -/
def Exported (pin : Int) (events : List GpioEvent) : Prop :=
  ∃ data, GpioEvent.wrote exportFile data (intText pin).length ∈ events

/-- The pin was written to `unexport`. -/
def Unexported (pin : Int) (events : List GpioEvent) : Prop :=
  GpioEvent.wrote unexportFile (intText pin) (intText pin).length ∈ events

/-- What the test is meant to do in output direction. -/
structure DrivesPin (pin : Int) (loop : ℕ) (events : List GpioEvent) : Prop where
  count : (driven pin events).length = loop + 1
  alternate : (driven pin events).IsChain (· ≠ ·)
  last : (driven pin events).getLast? = some 0
  passes : passedMessage ∈ events ↔ ReadsMatch pin none events
  cleansUp : Exported pin events → Unexported pin events

/-! ### Events of the parts -/

section Parts

variable {pin : Int} {board : Board} {file : Text} {failure : String} {ok : Bool} {ret : Int}
  {stack : Text} {dir : Int} {answers : GpioAnswers}

theorem driven_append (e e' : List GpioEvent) :
    driven pin (e ++ e') = driven pin e ++ driven pin e' :=
  List.filterMap_append

/-- An event that neither drives the pin nor reads it. -/
def Quiet (pin : Int) : GpioEvent → Prop
  | .readBack _ _ => False
  | e => drivenBy pin e = none

theorem driven_of_quiet {e : List GpioEvent} (h : ∀ event ∈ e, Quiet pin event) :
    driven pin e = [] := by
  apply List.filterMap_eq_nil_iff.mpr
  intro event hmem
  have hquiet := h event hmem
  cases event <;> first | exact hquiet | exact hquiet.elim

theorem readsMatch_of_quiet {e : List GpioEvent} (h : ∀ event ∈ e, Quiet pin event)
    (last : Option ℕ) (e' : List GpioEvent) :
    ReadsMatch pin last (e ++ e') ↔ ReadsMatch pin last e' := by
  induction e generalizing last with
  | nil => rfl
  | cons event rest ih =>
      have hrest := ih fun event' hmem => h event' (List.mem_cons_of_mem _ hmem)
      have hquiet := h event List.mem_cons_self
      cases event with
      | readBack path value => exact hquiet.elim
      | opened path ok => exact hrest last
      | wrote path data ret =>
          have hnone : drivenBy pin (.wrote path data ret) = none := hquiet
          rw [List.cons_append, ReadsMatch, hnone]
          · exact hrest last
          · nofun
      | resm | print => exact hrest last

/-- An event that writes to no other file and reports no success. -/
def Only (path : Text) : GpioEvent → Prop
  | .wrote path' _ _ => path' = path
  | .resm message => message.ttype = .conf
  | _ => True

section Forall

variable {P : GpioEvent → Prop}

theorem forall_singleton {event : GpioEvent} (h : P event) :
    ∀ e ∈ (⟨[event], false⟩ : Trace GpioEvent).events, P e := by
  intro e hmem
  rwa [List.mem_singleton.mp hmem]

theorem forall_ite_brkm {p : Prop} [Decidable p] {text : String}
    (h : P (.resm ⟨.conf, txt text, false⟩)) :
    ∀ e ∈ (if p then brkm text else goOn).events, P e := by
  split
  · exact forall_singleton h
  · nofun

theorem forall_openFile (hopen : P (.opened file ok)) (h : P (.resm ⟨.conf, txt failure, false⟩)) :
    ∀ e ∈ (openFile file ok failure).events, P e := by
  apply Trace.forall_andThen (forall_singleton hopen)
  split
  · nofun
  · exact forall_singleton h

/-- What is to be checked of the events of `writePin`. -/
theorem forall_writePin (hopen : P (.opened file ok))
    (hwrote : P (.wrote file (pinData pin stack) ret)) (hresm : ∀ text, P (.resm ⟨.conf, text, false⟩)) :
    ∀ e ∈ (writePin board file failure pin ok ret stack).events, P e := by
  apply Trace.forall_andThen (forall_openFile hopen (hresm _))
  apply Trace.forall_andThen (forall_singleton hwrote)
  cases board with
  | beagleboneevm => exact forall_ite_brkm (hresm _)
  | rpi2evm => nofun

/-- What is to be checked of the events of `GPIODirection`. -/
theorem forall_gpioDirection
    (hopen : P (.opened (directionPath pin) answers.directionOpen))
    (hwrote : P (.wrote (directionPath pin) (if dir = 0 then txt "in" else txt "out")
      answers.directionWrite))
    (hresm : ∀ text, P (.resm ⟨.conf, text, false⟩)) :
    ∀ e ∈ (gpioDirection pin dir answers).events, P e := by
  apply Trace.forall_andThen (forall_openFile hopen (hresm _))
  exact Trace.forall_andThen (forall_singleton hwrote) (forall_ite_brkm (hresm _))

end Forall

theorem quiet_writePin (h : file ≠ gpioPath pin "/value") :
    ∀ e ∈ (writePin board file failure pin ok ret stack).events, Quiet pin e :=
  forall_writePin rfl (if_neg fun hpath => h hpath.2) fun _ => rfl

theorem quiet_gpioDirection :
    ∀ e ∈ (gpioDirection pin dir answers).events, Quiet pin e := by
  refine forall_gpioDirection rfl ?_ fun _ => rfl
  have hdata : (if dir = 0 then txt "in" else txt "out") ≠ txt "0" ∧
      (if dir = 0 then txt "in" else txt "out") ≠ txt "1" := by
    split <;> decide
  simp [Quiet, drivenBy, hdata]

theorem only_writePin :
    ∀ e ∈ (writePin board file failure pin ok ret stack).events, Only file e :=
  forall_writePin trivial rfl fun _ => rfl

theorem only_gpioDirection :
    ∀ e ∈ (gpioDirection pin dir answers).events, Only (directionPath pin) e :=
  forall_gpioDirection trivial rfl fun _ => rfl

/-- The files of a pin are told from `export` and `unexport` by their first letter. -/
theorem getElem?_gpioPath (file : String) : (gpioPath pin file)[16]? = some 'g' := by
  simp [gpioPath, txt]

theorem getElem?_cString_gpioPath {file : String} (h : '\x00' ∉ file.toList) {size : ℕ}
    (hsize : 17 < size) : (cString (snprintf size (gpioPath pin file)))[16]? = some 'g' := by
  rw [cString_snprintf (nul_not_mem_gpioPath pin h), List.getElem?_take_of_lt (by omega),
    getElem?_gpioPath]

variable {path : Text}

theorem exportFile_ne (h : path[16]? = some 'g') : path ≠ exportFile := by
  rintro rfl
  exact absurd h (by decide)

theorem unexportFile_ne (h : path[16]? = some 'g') : path ≠ unexportFile := by
  rintro rfl
  exact absurd h (by decide)

theorem getElem?_directionPath : (directionPath pin)[16]? = some 'g' :=
  getElem?_cString_gpioPath (by decide) (by decide)

theorem getElem?_valueWritePath : (valueWritePath pin)[16]? = some 'g' :=
  getElem?_cString_gpioPath (by decide) (by decide)

theorem not_wrote_of_only {events : List GpioEvent} {file data : Text} {n : Int}
    (h : ∀ e ∈ events, Only path e) (hne : path ≠ file) : .wrote file data n ∉ events :=
  fun hmem => hne (h _ hmem).symm

theorem not_passed_of_only {events : List GpioEvent} (h : ∀ e ∈ events, Only path e) :
    passedMessage ∉ events := by
  intro hmem
  have hconf : TType.info = .conf := h _ hmem
  cases hconf

end Parts

/-! ### The loop -/

section Loop

variable {pin : Int}

/-- The value is written. -/
def WriteOk (a : RoundAnswers) : Prop := a.writeOpen = true ∧ a.write = 1

/-- The value of the pass is read back. -/
def ReadOk (n : ℕ) (a : RoundAnswers) : Prop := a.value = some ((n % 2 : ℕ) : Int)

theorem gpioWrite_ended (v : ℕ) (a : RoundAnswers) :
    (gpioWrite pin v a).ended = false ↔ WriteOk a := by
  rw [gpioWrite, Trace.ended_andThen_eq_false, Trace.ended_andThen_eq_false, WriteOk]
  cases a.writeOpen <;> by_cases h : a.write = 1 <;>
    simp [openFile, Trace.andThen, goOn, brkm, h]

variable {a : RoundAnswers}

theorem gpioWrite_events (h : WriteOk a) (v : ℕ) :
    (gpioWrite pin v a).events = [.opened (valueWritePath pin) true,
      .wrote (valueWritePath pin) (if v = 0 then txt "0" else txt "1") 1] := by
  obtain ⟨hopen, hwrite⟩ := h
  simp [gpioWrite, openFile, Trace.andThen, goOn, hopen, hwrite]

/-- What is to be checked of the events of `GPIOWrite`. -/
theorem forall_gpioWrite {P : GpioEvent → Prop} {v : ℕ}
    (hopen : P (.opened (valueWritePath pin) a.writeOpen))
    (hwrote : a.writeOpen = true → P (.wrote (valueWritePath pin)
      (if v = 0 then txt "0" else txt "1") a.write))
    (hresm : ∀ text, P (.resm ⟨.conf, text, false⟩)) :
    ∀ e ∈ (gpioWrite pin v a).events, P e := by
  intro e hmem
  rcases Trace.mem_events_andThen.mp hmem with h | ⟨hok, h⟩
  · exact forall_openFile hopen (hresm _) e h
  · have hopened : a.writeOpen = true := by
      by_contra hclosed
      simp [openFile, Trace.andThen, brkm, hclosed] at hok
    exact Trace.forall_andThen (forall_singleton (hwrote hopened)) (forall_ite_brkm (hresm _)) e h

/-- A value that is not written is not driven. -/
theorem quiet_gpioWrite (h : ¬ WriteOk a) (v : ℕ) : ∀ e ∈ (gpioWrite pin v a).events, Quiet pin e :=
  forall_gpioWrite rfl (fun hopen => if_neg fun hpath => h ⟨hopen, hpath.1⟩) fun _ => rfl

theorem drivenBy_value {v : ℕ} (hv : v < 2) :
    drivenBy pin (.wrote (gpioPath pin "/value") (if v = 0 then txt "0" else txt "1") 1) =
      some v := by
  have hcases : v = 0 ∨ v = 1 := by omega
  rcases hcases with rfl | rfl
  · exact if_pos ⟨rfl, rfl⟩
  · exact if_pos ⟨rfl, rfl⟩

/-- The part of a pass after the write. -/
def checkRound (pin : Int) (n : ℕ) (a : RoundAnswers) : Trace GpioEvent :=
  (gpioRead pin a).andThen <|
    if a.value ≠ some ((n % 2 : ℕ) : Int) then brkm "GPIO Test Failed!\n" else goOn

theorem driveRound_eq (round : ℕ → RoundAnswers) (n : ℕ) :
    driveRound pin round n =
      (gpioWrite pin (n % 2) (round n)).andThen (checkRound pin n (round n)) :=
  rfl

theorem checkRound_ended (n : ℕ) (a : RoundAnswers) :
    (checkRound pin n a).ended = false ↔ ReadOk n a := by
  rw [checkRound, Trace.ended_andThen_eq_false, ReadOk]
  by_cases h : a.value = some ((n % 2 : ℕ) : Int)
  · rw [if_neg (not_not_intro h)]
    exact iff_of_true ⟨by rw [gpioRead, Trace.ended_andThen, h]; rfl, rfl⟩ h
  · rw [if_pos h]
    exact iff_of_false (fun hended => Bool.false_ne_true hended.2.symm) h

theorem quiet_brkm {text : String} : ∀ e ∈ (brkm text).events, Quiet pin e :=
  forall_singleton rfl

/-- The check of a pass reads once. -/
theorem checkRound_events (n : ℕ) (a : RoundAnswers) :
    ∃ tail, (checkRound pin n a).events =
        [.opened (valueReadPath pin) a.readOpen, .readBack (valueReadPath pin) a.value] ++ tail ∧
      ∀ event ∈ tail, Quiet pin event := by
  by_cases hnone : a.value = none
  · refine ⟨_, ?_, @quiet_brkm pin (if a.readOpen then "Failed to read value!\n"
      else "Failed to open gpio value for reading!\n")⟩
    rw [checkRound, Trace.andThen_of_ended] <;> rw [gpioRead, if_pos hnone]
    · rfl
    · rfl
  · have hread : gpioRead pin a = ⟨[.opened (valueReadPath pin) a.readOpen,
        .readBack (valueReadPath pin) a.value], false⟩ := by
      rw [gpioRead, if_neg hnone]
      rfl
    refine ⟨(if a.value ≠ some ((n % 2 : ℕ) : Int) then brkm "GPIO Test Failed!\n"
      else goOn).events, ?_, ?_⟩
    · rw [checkRound, hread]
      rfl
    · split
      · exact quiet_brkm
      · nofun

variable {round : ℕ → RoundAnswers}

theorem driveRound_ended (n : ℕ) :
    (driveRound pin round n).ended = false ↔ WriteOk (round n) ∧ ReadOk n (round n) := by
  rw [driveRound_eq, Trace.ended_andThen_eq_false, gpioWrite_ended, checkRound_ended]

theorem forall_le_succ {P : ℕ → Prop} {n : ℕ} :
    (∀ k ≤ n + 1, P k) ↔ P (n + 1) ∧ ∀ k ≤ n, P k := by
  simp only [Nat.le_succ_iff, or_imp, forall_and, forall_eq]
  exact and_comm

theorem driveLoop_ended (n : ℕ) :
    (driveLoop pin round n).ended = false ↔
      ∀ k ≤ n, WriteOk (round k) ∧ ReadOk k (round k) := by
  induction n with
  | zero =>
      rw [driveLoop, driveRound_ended]
      simp
  | succ n ih =>
      rw [driveLoop, Trace.ended_andThen_eq_false, driveRound_ended, ih, forall_le_succ]

/-- A pass that does not write ends the process, with nothing driven. -/
theorem driveRound_of_not_writeOk {n : ℕ} (h : ¬ WriteOk (round n)) :
    driven pin (driveRound pin round n).events = [] ∧
      (driveRound pin round n).ended = true := by
  have hended : (gpioWrite pin (n % 2) (round n)).ended = true :=
    eq_true_of_ne_false fun hfalse => h ((gpioWrite_ended _ _).mp hfalse)
  rw [driveRound_eq, Trace.andThen_of_ended hended]
  exact ⟨driven_of_quiet (quiet_gpioWrite h _), hended⟩

/-- The loop drives all its values when every write succeeds and every read but the last one
gives the value back. -/
def AllDriven (round : ℕ → RoundAnswers) (n : ℕ) : Prop :=
  (∀ k ≤ n, WriteOk (round k)) ∧ ∀ k, 0 < k → k ≤ n → ReadOk k (round k)

theorem allDriven_zero : AllDriven round 0 ↔ WriteOk (round 0) := by
  simp [AllDriven, fun k => @forall_comm (0 < k)]

theorem allDriven_succ {n : ℕ} :
    AllDriven round (n + 1) ↔
      (WriteOk (round (n + 1)) ∧ ReadOk (n + 1) (round (n + 1))) ∧ AllDriven round n := by
  have hreads : (∀ k, 0 < k → k ≤ n + 1 → ReadOk k (round k)) ↔
      ReadOk (n + 1) (round (n + 1)) ∧ ∀ k, 0 < k → k ≤ n → ReadOk k (round k) := by
    simp only [fun k => @forall_comm (0 < k), forall_le_succ, n.succ_pos, forall_const]
  rw [AllDriven, AllDriven, forall_le_succ, hreads]
  exact and_and_and_comm

/-- The values of the passes. -/
def passValues : ℕ → List ℕ
  | 0 => [0]
  | n + 1 => (n + 1) % 2 :: passValues n

theorem head?_passValues (n : ℕ) : (passValues n).head? = some (n % 2) := by
  cases n <;> rfl

theorem passValues_isChain (n : ℕ) : (passValues n).IsChain (· ≠ ·) := by
  induction n with
  | zero => exact List.IsChain.singleton 0
  | succ n ih =>
      apply List.isChain_cons.mpr
      refine ⟨fun v hv => ?_, ih⟩
      rw [head?_passValues, Option.mem_some_iff] at hv
      omega

theorem getLast?_passValues (n : ℕ) : (passValues n).getLast? = some 0 := by
  induction n with
  | zero => rfl
  | succ n ih =>
      rw [passValues, List.getLast?_cons, ih]
      rfl

/-- What is to be checked of the events of the loop. -/
theorem forall_driveLoop {P : GpioEvent → Prop} (hopened : ∀ path ok, P (.opened path ok))
    (hwrote : ∀ data ret, P (.wrote (valueWritePath pin) data ret))
    (hread : ∀ path value, P (.readBack path value))
    (hresm : ∀ text, P (.resm ⟨.conf, text, false⟩)) (n : ℕ) :
    ∀ e ∈ (driveLoop pin round n).events, P e := by
  have hround : ∀ k, ∀ e ∈ (driveRound pin round k).events, P e := by
    intro k
    apply Trace.forall_andThen
    · exact forall_gpioWrite (hopened _ _) (fun _ => hwrote _ _) hresm
    · apply Trace.forall_andThen
      · apply Trace.forall_andThen _ (forall_ite_brkm (hresm _))
        intro e hmem
        rcases List.mem_cons.mp hmem with rfl | hmem
        · exact hopened _ _
        · rw [List.mem_singleton.mp hmem]
          exact hread _ _
      · exact forall_ite_brkm (hresm _)
  induction n with
  | zero => exact hround 0
  | succ n ih => exact Trace.forall_andThen (hround (n + 1)) ih

theorem only_driveLoop (n : ℕ) :
    ∀ e ∈ (driveLoop pin round n).events, Only (valueWritePath pin) e :=
  forall_driveLoop (fun _ _ => trivial) (fun _ _ => rfl) (fun _ _ => trivial) (fun _ => rfl) n

/-- Nothing is driven through a path that is cut off. -/
theorem driven_driveLoop_of_long (h : ¬ (intText pin).length ≤ 3) (n : ℕ) :
    driven pin (driveLoop pin round n).events = [] := by
  apply List.filterMap_eq_nil_iff.mpr
  refine forall_driveLoop (fun _ _ => rfl) (fun _ _ => ?_) (fun _ _ => rfl) (fun _ => rfl) n
  exact if_neg fun hpath => h ((valuePath_iff pin).mp hpath.2)

section Path

variable (hpath : (intText pin).length ≤ 3)

include hpath

/-- A pass that writes drives its value, and the reads match when that value is read. -/
theorem driveRound_of_writeOk {n : ℕ} (h : WriteOk (round n)) :
    driven pin (driveRound pin round n).events = [n % 2] ∧
      ∀ last e, ReadsMatch pin last ((driveRound pin round n).events ++ e) ↔
        ReadOk n (round n) ∧ ReadsMatch pin (some (n % 2)) e := by
  have hvalue : valueWritePath pin = gpioPath pin "/value" := (valuePath_iff pin).mpr hpath
  have hdriven := @drivenBy_value pin _ (Nat.mod_lt n Nat.zero_lt_two)
  obtain ⟨tail, hevents, hquiet⟩ := @checkRound_events pin n (round n)
  rw [driveRound_eq, Trace.events_andThen, (gpioWrite_ended _ _).mpr h, gpioWrite_events h,
    hevents, hvalue, if_neg Bool.false_ne_true]
  constructor
  · rw [driven_append, driven_append, driven_of_quiet hquiet, driven, List.filterMap_cons_none rfl,
      List.filterMap_cons_some hdriven]
    rfl
  intro last e
  simp only [List.cons_append, List.nil_append, ReadsMatch, hdriven, Option.some_or,
    readsMatch_of_quiet hquiet]
  apply and_congr_left'
  constructor
  · rintro ⟨d, hd, hread⟩
    rwa [← Option.some.inj hd] at hread
  · intro hread
    exact ⟨_, rfl, hread⟩

theorem driven_driveLoop_iff (n : ℕ) :
    (driven pin (driveLoop pin round n).events).length = n + 1 ↔ AllDriven round n := by
  induction n with
  | zero =>
      rw [driveLoop, allDriven_zero]
      by_cases hwrite : WriteOk (round 0)
      · rw [(driveRound_of_writeOk hpath hwrite).1]
        exact iff_of_true rfl hwrite
      · rw [(driveRound_of_not_writeOk hwrite).1]
        exact iff_of_false (by decide) hwrite
  | succ n ih =>
      have hround : (driveRound pin round (n + 1)).ended = false ↔ _ := driveRound_ended (n + 1)
      rw [driveLoop, allDriven_succ, ← hround, ← ih]
      by_cases hended : (driveRound pin round (n + 1)).ended = false
      · have hwrite := ((driveRound_ended _).mp hended).1
        rw [Trace.andThen_of_not_ended hended, driven_append, List.length_append,
          (driveRound_of_writeOk hpath hwrite).1, and_iff_right hended, List.length_singleton]
        omega
      · rw [Trace.andThen_of_ended (eq_true_of_ne_false hended)]
        apply iff_of_false _ fun h => hended h.1
        by_cases hwrite : WriteOk (round (n + 1))
        · rw [(driveRound_of_writeOk hpath hwrite).1]
          exact fun h => absurd h (by simp)
        · rw [(driveRound_of_not_writeOk hwrite).1]
          exact fun h => absurd h (by simp)

/-- What the loop does when it drives all its values. -/
theorem driveLoop_of_allDriven {n : ℕ} (h : AllDriven round n) (last : Option ℕ) :
    driven pin (driveLoop pin round n).events = passValues n ∧
      ∀ e, ReadsMatch pin last ((driveLoop pin round n).events ++ e) ↔
        ReadOk 0 (round 0) ∧ ReadsMatch pin (some 0) e := by
  induction n generalizing last with
  | zero =>
      have hwrite := allDriven_zero.mp h
      exact (driveRound_of_writeOk hpath hwrite).imp_right (· last)
  | succ n ih =>
      obtain ⟨hround, hrest⟩ := allDriven_succ.mp h
      have hended : (driveRound pin round (n + 1)).ended = false := (driveRound_ended _).mpr hround
      obtain ⟨hdriven, hmatch⟩ := ih hrest (some ((n + 1) % 2))
      obtain ⟨hvalue, hread⟩ := driveRound_of_writeOk hpath hround.1
      rw [driveLoop, Trace.andThen_of_not_ended hended]
      constructor
      · rw [driven_append, hvalue, hdriven]
        rfl
      · intro e
        rw [List.append_assoc, hread, hmatch e, and_iff_right hround.2]

end Path

end Loop

/-! ### The run -/

section Run

variable {board : Board} {pin direction : Int} {answers : GpioAnswers}

theorem writePin_ended {file : Text} {failure : String} {ok : Bool} {ret : Int} {stack : Text} :
    (writePin board file failure pin ok ret stack).ended = false ↔
      ok = true ∧ (board = .beagleboneevm → ret = (intText pin).length) := by
  unfold writePin
  rw [Trace.ended_andThen_eq_false, Trace.ended_andThen_eq_false]
  cases ok <;> cases board <;> by_cases h : ret = (intText pin).length <;>
    simp [openFile, Trace.andThen, goOn, brkm, h]

theorem gpioDirection_ended {dir : Int} :
    (gpioDirection pin dir answers).ended = false ↔
      answers.directionOpen = true ∧ answers.directionWrite ≠ -1 := by
  rw [gpioDirection, Trace.ended_andThen_eq_false, Trace.ended_andThen_eq_false]
  cases answers.directionOpen <;> by_cases h : answers.directionWrite = -1 <;>
    simp [openFile, Trace.andThen, goOn, brkm, h]

/-- What `writePin` writes. -/
theorem wrote_mem_writePin {file data : Text} {failure : String} {ok : Bool} {ret n : Int}
    {stack : Text} :
    .wrote file data n ∈ (writePin board file failure pin ok ret stack).events ↔
      ok = true ∧ data = pinData pin stack ∧ n = ret := by
  unfold writePin
  rw [Trace.mem_events_andThen, Trace.mem_events_andThen]
  cases ok <;> cases board <;> by_cases h : ret = (intText pin).length <;>
    simp [openFile, Trace.andThen, goOn, brkm, h]

theorem quiet_gpioExport : ∀ e ∈ (gpioExport board pin answers).events, Quiet pin e :=
  quiet_writePin (exportFile_ne (getElem?_gpioPath _)).symm

theorem only_gpioExport : ∀ e ∈ (gpioExport board pin answers).events, Only exportFile e :=
  only_writePin

theorem only_gpioUnexport : ∀ e ∈ (gpioUnexport board pin answers).events, Only unexportFile e :=
  only_writePin

/-- The part after the loop. -/
def finishRun (board : Board) (pin : Int) (answers : GpioAnswers) : Trace GpioEvent :=
  (gpioUnexport board pin answers).andThen
    ⟨[passedMessage, .resm ⟨.info, txt "GPIO Tests Done!", false⟩], false⟩

theorem quiet_finishRun : ∀ e ∈ (finishRun board pin answers).events, Quiet pin e := by
  apply Trace.forall_andThen
  · exact quiet_writePin (unexportFile_ne (getElem?_gpioPath _)).symm
  · simp [passedMessage, Quiet, drivenBy]

theorem passed_mem_finishRun :
    passedMessage ∈ (finishRun board pin answers).events ↔
      (gpioUnexport board pin answers).ended = false := by
  rw [finishRun, Trace.mem_events_andThen, or_iff_right (not_passed_of_only only_gpioUnexport)]
  exact and_iff_left List.mem_cons_self

theorem wrote_mem_finishRun {file data : Text} {n : Int} :
    .wrote file data n ∈ (finishRun board pin answers).events ↔
      .wrote file data n ∈ (gpioUnexport board pin answers).events := by
  rw [finishRun, Trace.mem_events_andThen, or_iff_left]
  simp [passedMessage]

theorem gpioMain_eq (h : direction ≠ 0) (loop : ℕ) :
    gpioMain board pin direction loop answers =
      (gpioExport board pin answers).andThen ((gpioDirection pin 1 answers).andThen
        ((driveLoop pin answers.round loop).andThen (finishRun board pin answers))) := by
  rw [gpioMain, if_neg h, Trace.andThen_assoc]
  rfl

theorem driven_of_not_started (hdir : direction ≠ 0) (loop : ℕ)
    (h : ¬ ((gpioExport board pin answers).ended = false ∧
      (gpioDirection pin 1 answers).ended = false)) :
    driven pin (gpioMain board pin direction loop answers).events = [] := by
  rw [gpioMain_eq hdir]
  by_cases hexport : (gpioExport board pin answers).ended = false
  · have hdirection := eq_true_of_ne_false fun hd => h ⟨hexport, hd⟩
    rw [Trace.andThen_of_ended hdirection, Trace.andThen_of_not_ended hexport, driven_append,
      driven_of_quiet quiet_gpioExport, driven_of_quiet quiet_gpioDirection]
    rfl
  · rw [Trace.andThen_of_ended (eq_true_of_ne_false hexport), driven_of_quiet quiet_gpioExport]

section Started

variable (hexport : (gpioExport board pin answers).ended = false)
  (hdirection : (gpioDirection pin 1 answers).ended = false)
  {direction : Int} (hdir : direction ≠ 0) (loop : ℕ)

include hexport hdirection hdir

theorem gpioMain_events :
    (gpioMain board pin direction loop answers).events =
      (gpioExport board pin answers).events ++ ((gpioDirection pin 1 answers).events ++
        ((driveLoop pin answers.round loop).events ++
          if (driveLoop pin answers.round loop).ended then []
          else (finishRun board pin answers).events)) := by
  rw [gpioMain_eq hdir, Trace.andThen_of_not_ended hexport,
    Trace.andThen_of_not_ended hdirection, Trace.events_andThen]

theorem driven_gpioMain :
    driven pin (gpioMain board pin direction loop answers).events =
      driven pin (driveLoop pin answers.round loop).events := by
  rw [gpioMain_events hexport hdirection hdir, driven_append, driven_append, driven_append,
    driven_of_quiet quiet_gpioExport, driven_of_quiet quiet_gpioDirection]
  split
  · exact List.append_nil _
  · rw [driven_of_quiet quiet_finishRun]
    exact List.append_nil _

theorem readsMatch_gpioMain (hpath : (intText pin).length ≤ 3)
    (hall : AllDriven answers.round loop) :
    ReadsMatch pin none (gpioMain board pin direction loop answers).events ↔
      ReadOk 0 (answers.round 0) := by
  rw [gpioMain_events hexport hdirection hdir, readsMatch_of_quiet quiet_gpioExport,
    readsMatch_of_quiet quiet_gpioDirection, (driveLoop_of_allDriven hpath hall none).2]
  apply and_iff_left
  split
  · trivial
  · rw [← List.append_nil (finishRun board pin answers).events,
      readsMatch_of_quiet quiet_finishRun]
    trivial

theorem passed_gpioMain :
    passedMessage ∈ (gpioMain board pin direction loop answers).events ↔
      (driveLoop pin answers.round loop).ended = false ∧
        (gpioUnexport board pin answers).ended = false := by
  rw [gpioMain_events hexport hdirection hdir, List.mem_append, List.mem_append, List.mem_append,
    or_iff_right (not_passed_of_only only_gpioExport),
    or_iff_right (not_passed_of_only only_gpioDirection),
    or_iff_right (not_passed_of_only (only_driveLoop loop)), ← passed_mem_finishRun]
  cases (driveLoop pin answers.round loop).ended <;> simp

theorem exported_gpioMain :
    Exported pin (gpioMain board pin direction loop answers).events ↔
      answers.exportWrite = (intText pin).length := by
  have hopen := (writePin_ended.mp hexport).1
  constructor
  · rintro ⟨data, hmem⟩
    rw [gpioMain_events hexport hdirection hdir, List.mem_append, List.mem_append,
      List.mem_append] at hmem
    rcases hmem with hmem | hmem | hmem | hmem
    · exact (wrote_mem_writePin.mp hmem).2.2.symm
    · exact absurd hmem (not_wrote_of_only only_gpioDirection
        (exportFile_ne getElem?_directionPath))
    · exact absurd hmem (not_wrote_of_only (only_driveLoop loop)
        (exportFile_ne getElem?_valueWritePath))
    · split at hmem
      · cases hmem
      · exact absurd (wrote_mem_finishRun.mp hmem)
          (not_wrote_of_only only_gpioUnexport (by decide))
  · intro hwrite
    refine ⟨pinData pin answers.exportStack, ?_⟩
    rw [gpioMain_events hexport hdirection hdir]
    apply List.mem_append_left
    exact wrote_mem_writePin.mpr ⟨hopen, rfl, hwrite.symm⟩

theorem unexported_gpioMain :
    Unexported pin (gpioMain board pin direction loop answers).events ↔
      (driveLoop pin answers.round loop).ended = false ∧ answers.unexportOpen = true ∧
        (intText pin).length ≤ 2 ∧ answers.unexportWrite = (intText pin).length := by
  rw [Unexported, gpioMain_events hexport hdirection hdir, List.mem_append, List.mem_append,
    List.mem_append, or_iff_right (not_wrote_of_only only_gpioExport (by decide)),
    or_iff_right (not_wrote_of_only only_gpioDirection (unexportFile_ne getElem?_directionPath)),
    or_iff_right (not_wrote_of_only (only_driveLoop loop)
      (unexportFile_ne getElem?_valueWritePath)), ← pinData_iff pin answers.unexportStack]
  cases (driveLoop pin answers.round loop).ended with
  | true => simp
  | false =>
      rw [if_neg Bool.false_ne_true, wrote_mem_finishRun, gpioUnexport, wrote_mem_writePin,
        and_iff_right rfl]
      exact and_congr_right' (and_congr eq_comm eq_comm)

end Started

/-- The answers with which the test does in output direction what it is meant to do. After an
export that was not accepted, which only one of the boards notices, nothing has to be cleaned
up. -/
structure Smooth (board : Board) (pin : Int) (loop : ℕ) (answers : GpioAnswers) : Prop where
  exportOpen : answers.exportOpen = true
  exportWrite : board = .beagleboneevm → answers.exportWrite = (intText pin).length
  directionOpen : answers.directionOpen = true
  directionWrite : answers.directionWrite ≠ -1
  path : (intText pin).length ≤ 3
  writes : ∀ k ≤ loop, WriteOk (answers.round k)
  reads : ∀ k, 0 < k → k ≤ loop → ReadOk k (answers.round k)
  exported : answers.exportWrite = (intText pin).length →
    (intText pin).length ≤ 2 ∧ ReadOk 0 (answers.round 0) ∧ answers.unexportOpen = true ∧
      answers.unexportWrite = (intText pin).length
  notExported : answers.exportWrite ≠ (intText pin).length → ReadOk 0 (answers.round 0) →
    answers.unexportOpen = true

/-- After an accepted export the pin has to be written to `unexport`; otherwise it is enough
that the pass message is printed when it should. -/
theorem passes_and_cleansUp_iff (hexport : (gpioExport board pin answers).ended = false)
    (hdirection : (gpioDirection pin 1 answers).ended = false) (hdir : direction ≠ 0) {loop : ℕ}
    (hpath : (intText pin).length ≤ 3) (hall : AllDriven answers.round loop) :
    let events := (gpioMain board pin direction loop answers).events
    ((passedMessage ∈ events ↔ ReadsMatch pin none events) ∧
        (Exported pin events → Unexported pin events)) ↔
      (answers.exportWrite = (intText pin).length →
          (intText pin).length ≤ 2 ∧ ReadOk 0 (answers.round 0) ∧ answers.unexportOpen = true ∧
            answers.unexportWrite = (intText pin).length) ∧
        (answers.exportWrite ≠ (intText pin).length → ReadOk 0 (answers.round 0) →
          answers.unexportOpen = true) := by
  intro events
  have hended : (driveLoop pin answers.round loop).ended = false ↔ ReadOk 0 (answers.round 0) := by
    rw [driveLoop_ended]
    constructor
    · intro h
      exact (h 0 (Nat.zero_le loop)).2
    · intro hread k hk
      rcases Nat.eq_zero_or_pos k with rfl | hpos
      · exact ⟨hall.1 0 hk, hread⟩
      · exact ⟨hall.1 k hk, hall.2 k hpos hk⟩
  have hchecked := (writePin_ended.mp hexport).2
  rw [passed_gpioMain hexport hdirection hdir, readsMatch_gpioMain hexport hdirection hdir loop hpath
    hall, exported_gpioMain hexport hdirection hdir, unexported_gpioMain hexport hdirection hdir,
    hended, gpioUnexport, writePin_ended]
  cases board with
  | beagleboneevm =>
      have hwrite := hchecked rfl
      simp only [hwrite, forall_const, ne_eq, not_true_eq_false, false_implies, and_true]
      tauto
  | rpi2evm =>
      simp only [reduceCtorEq, false_implies, and_true]
      tauto

end Run

/-- In output direction the test drives its values, reports its success and cleans up exactly
when the answers are smooth. -/
theorem gpioMain_drivesPin_iff (board : Board) (pin direction : Int) (hdir : direction ≠ 0)
    (loop : ℕ) (answers : GpioAnswers) :
    DrivesPin pin loop (gpioMain board pin direction loop answers).events ↔
      Smooth board pin loop answers := by
  by_cases hstarted : (gpioExport board pin answers).ended = false ∧
      (gpioDirection pin 1 answers).ended = false
  swap
  · -- a test that ends before its loop drives nothing
    apply iff_of_false
    · intro h
      have hcount := h.count
      rw [driven_of_not_started hdir loop hstarted] at hcount
      cases hcount
    · intro h
      exact hstarted ⟨writePin_ended.mpr ⟨h.exportOpen, h.exportWrite⟩,
        gpioDirection_ended.mpr ⟨h.directionOpen, h.directionWrite⟩⟩
  obtain ⟨hexport, hdirection⟩ := hstarted
  have hdriven := driven_gpioMain hexport hdirection hdir loop
  by_cases hpath : (intText pin).length ≤ 3
  swap
  · apply iff_of_false
    · intro h
      have hcount := h.count
      rw [hdriven, driven_driveLoop_of_long hpath] at hcount
      cases hcount
    · intro h
      exact hpath h.path
  by_cases hall : AllDriven answers.round loop
  swap
  · apply iff_of_false
    · intro h
      have hcount := h.count
      rw [hdriven, driven_driveLoop_iff hpath] at hcount
      exact hall hcount
    · intro h
      exact hall ⟨h.writes, h.reads⟩
  have hrest := passes_and_cleansUp_iff hexport hdirection hdir hpath hall
  have hvalues := (driveLoop_of_allDriven hpath hall none).1
  constructor
  · intro h
    obtain ⟨hyes, hno⟩ := hrest.mp ⟨h.passes, h.cleansUp⟩
    obtain ⟨hopen, hwrite⟩ := writePin_ended.mp hexport
    obtain ⟨hopen', hwrite'⟩ := gpioDirection_ended.mp hdirection
    exact ⟨hopen, hwrite, hopen', hwrite', hpath, hall.1, hall.2, hyes, hno⟩
  · intro h
    obtain ⟨hpasses, hcleans⟩ := hrest.mpr ⟨h.exported, h.notExported⟩
    refine ⟨?_, ?_, ?_, hpasses, hcleans⟩
    · rw [hdriven, driven_driveLoop_iff hpath]
      exact hall
    · rw [hdriven, hvalues]
      exact passValues_isChain loop
    · rw [hdriven, hvalues]
      exact getLast?_passValues loop

/-- A pin that is read back as it is driven. -/
def loopedBack : GpioAnswers where
  exportOpen := true
  exportWrite := 1
  exportStack := []
  directionOpen := true
  directionWrite := 3
  round n := ⟨true, 1, true, some (if n % 2 = 0 then txt "0\n" else txt "1\n"), []⟩
  unexportOpen := true
  unexportWrite := 1
  unexportStack := []

theorem gpioMain_drivesPin_loopedBack :
    DrivesPin 4 3 (gpioMain .beagleboneevm 4 1 3 loopedBack).events := by
  apply (gpioMain_drivesPin_iff .beagleboneevm 4 1 (by decide) 3 loopedBack).mpr
  have hread : ∀ k, ReadOk k (loopedBack.round k) := by
    intro k
    rcases Nat.mod_two_eq_zero_or_one k with h | h <;>
      simp only [ReadOk, loopedBack, h] <;> rfl
  exact {
    exportOpen := rfl
    exportWrite := fun _ => rfl
    directionOpen := rfl
    directionWrite := by decide
    path := by decide
    writes := fun _ _ => ⟨rfl, rfl⟩
    reads := fun k _ _ => hread k
    exported := fun _ => ⟨by decide, hread 0, rfl, rfl⟩
    notExported := fun h => absurd rfl h }

/-- A pin that is always read as high. -/
def stuckHigh : GpioAnswers :=
  { loopedBack with round := fun _ => ⟨true, 1, true, some (txt "1\n"), []⟩ }

/-- The test of the stuck pin ends with the pin still exported. -/
theorem gpioMain_stuckHigh :
    let events := (gpioMain .beagleboneevm 4 1 0 stuckHigh).events
    Exported 4 events ∧ ¬ Unexported 4 events :=
  ⟨⟨txt "4", by decide⟩, by unfold Unexported; decide⟩

end EDDTs.Boards
