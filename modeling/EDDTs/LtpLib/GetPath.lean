import EDDTs.Library.Text
import Mathlib.Algebra.Order.Ring.Int

/-!
# Searching PATH

`tst_get_path` (`lib/get_path.c`) puts one component of PATH after the other into the buffer of
its caller, with the name of the program behind it. The buffer is the C string in it.
-/

namespace EDDTs.LtpLib

open Library

/-- What `access(path, R_OK)` and `stat` tell of a file that exists. -/
structure FileMode where
  readable : Bool
  regular : Bool

/-- `file_exist` -/
def fileExist (fs : Text → Option FileMode) (path : Text) : Bool :=
  match fs path with
  | some mode => mode.readable && mode.regular
  | none => false

/-- `strchr`: the text from the first `c` on. -/
def strchr (t : Text) (c : Char) : Option Text :=
  match t.dropWhile (· ≠ c) with
  | [] => none
  | rest => some rest

/-- The two cases of `strchr`. -/
theorem strchr_cases (t : Text) (c : Char) :
    (c ∉ t ∧ strchr t c = none) ∨
      ∃ comp rest, c ∉ comp ∧ t = comp ++ c :: rest ∧ strchr t c = some (c :: rest) := by
  induction t with
  | nil => exact Or.inl ⟨List.not_mem_nil, rfl⟩
  | cons d t ih =>
      by_cases hd : d = c
      · subst hd
        exact Or.inr ⟨[], t, List.not_mem_nil, rfl, by simp [strchr]⟩
      · have hskip : strchr (d :: t) c = strchr t c := by simp [strchr, hd]
        rw [hskip]
        rcases ih with ⟨hnot, hnone⟩ | ⟨comp, rest, hnot, rfl, hsome⟩
        · exact Or.inl ⟨by simp [Ne.symm hd, hnot], hnone⟩
        · exact Or.inr ⟨d :: comp, rest, by simp [Ne.symm hd, hnot], rfl, hsome⟩

theorem length_of_strchr {t e : Text} {c : Char} (h : strchr t c = some e) :
    e.tail.length < t.length := by
  rcases strchr_cases t c with ⟨-, hnone⟩ | ⟨comp, rest, -, rfl, hsome⟩
  · rw [hnone] at h
    cases h
  · rw [hsome] at h
    cases h
    simp only [List.tail_cons, List.length_append, List.length_cons]
    omega

/-- What the first `snprintf` leaves in the buffer: the text from `start` to the separator. -/
def componentCut (bufLen : ℕ) (start : Text) : Option Text → Text
  | some stop => start.take (min bufLen (start.length - stop.length + 1) - 1)
  | none => start.take (bufLen - 1)

/-- An empty component is the current directory. -/
def componentIn (bufLen : ℕ) (start : Text) (stop : Option Text) : Text :=
  let buf := componentCut bufLen start stop
  if buf.length = 0 then (txt ".").take (bufLen - 1) else buf

/-- What is put behind a component. -/
def nameBehind (progName dir : Text) : Text :=
  if dir.getLast? ≠ some '/' then '/' :: progName else progName

section GetPath

variable (fs : Text → Option FileMode) (progName : Text) (bufLen : ℕ)

/-- The name is put behind the directory in the buffer: whether the search ends here, and the
buffer. -/
def tryDirectory (dir : Text) : Bool × Text :=
  let name := nameBehind progName dir
  let buf := dir ++ name.take (bufLen - dir.length - 1)
  (decide (name.length < bufLen - dir.length) && fileExist fs buf, buf)

/-- The loop, from the component that begins at `start`: the result and the buffer. -/
def getPathFrom (start : Text) : ℤ × Text :=
  let attempt := tryDirectory fs progName bufLen (componentIn bufLen start (strchr start ':'))
  if attempt.1 then (0, attempt.2)
  else
    match h : strchr start ':' with
    | some stop => getPathFrom stop.tail
    | none => (-1, attempt.2)
termination_by start.length
decreasing_by exact length_of_strchr h

/-- `tst_get_path`, with the value of PATH. -/
def tstGetPath (path : Option Text) (buf : Text) : ℤ × Text :=
  match path with
  | none => (-1, buf)
  | some path => getPathFrom fs progName bufLen path

end GetPath

/-- The directory that a component names. -/
def directory (component : Text) : Text := if component = [] then txt "." else component

/-- The path of the program under a component. -/
def joined (progName component : Text) : Text :=
  directory component ++ nameBehind progName (directory component)

/-- The path fits the buffer with its terminator and names a readable regular file. -/
def Found (fs : Text → Option FileMode) (progName : Text) (bufLen : ℕ) (component : Text) : Prop :=
  (joined progName component).length + 1 ≤ bufLen ∧ fileExist fs (joined progName component) = true

section Component

variable {fs : Text → Option FileMode} {progName : Text} {bufLen : ℕ}

/-- The buffer holds as much of the directory as fits. -/
theorem componentIn_eq (hlen : 2 ≤ bufLen) {start component : Text} {stop : Option Text}
    (h : (stop = none ∧ start = component) ∨ ∃ rest, stop = some rest ∧ start = component ++ rest) :
    componentIn bufLen start stop = (directory component).take (bufLen - 1) := by
  have hfirst : componentCut bufLen start stop = component.take (bufLen - 1) := by
    rcases h with ⟨rfl, rfl⟩ | ⟨rest, rfl, rfl⟩
    · rfl
    · have hcut : min bufLen ((component ++ rest).length - rest.length + 1) - 1 =
          min (bufLen - 1) component.length := by
        rw [List.length_append]
        omega
      rw [componentCut, hcut, ← List.take_take, List.take_left]
  rw [componentIn, hfirst]
  cases component with
  | nil => simp [directory]
  | cons c component =>
      have hsome : ((c :: component).take (bufLen - 1)).length ≠ 0 := by
        rw [List.length_take, List.length_cons]
        omega
      rw [if_neg hsome]
      rfl

variable (hname : progName ≠ [])

include hname

theorem nameBehind_ne_nil (dir : Text) : nameBehind progName dir ≠ [] := by
  unfold nameBehind
  split
  · exact List.cons_ne_nil _ _
  · exact hname

/-- The test of the lengths: it is met when the joined path fits, and then the buffer holds
this path. A directory that was cut leaves no room for a name. -/
theorem fits_iff (dir : Text) :
    (nameBehind progName (dir.take (bufLen - 1))).length < bufLen - (dir.take (bufLen - 1)).length ↔
      (dir ++ nameBehind progName dir).length + 1 ≤ bufLen := by
  by_cases hcut : dir.length ≤ bufLen - 1
  · rw [List.take_of_length_le hcut, List.length_append]
    omega
  · have hpos := List.length_pos_of_ne_nil (nameBehind_ne_nil hname (dir.take (bufLen - 1)))
    rw [List.length_take, List.length_append]
    omega

/-- The search ends at a component that has the file, with its path in the buffer. -/
theorem tryDirectory_found {component : Text} (h : Found fs progName bufLen component) :
    tryDirectory fs progName bufLen ((directory component).take (bufLen - 1)) =
      (true, joined progName component) := by
  obtain ⟨hfits, hfile⟩ := h
  have hroom := (fits_iff hname (directory component)).mpr hfits
  have hlength := hfits
  rw [joined, List.length_append] at hlength
  have hcut : (directory component).take (bufLen - 1) = directory component :=
    List.take_of_length_le (by omega)
  have hbuf : (nameBehind progName (directory component)).take
      (bufLen - (directory component).length - 1) = nameBehind progName (directory component) :=
    List.take_of_length_le (by omega)
  rw [hcut] at hroom ⊢
  simp only [tryDirectory, hbuf, decide_eq_true hroom, Bool.true_and]
  exact congrArg₂ Prod.mk hfile rfl

/-- And only there. -/
theorem found_of_tryDirectory {component : Text}
    (h : (tryDirectory fs progName bufLen ((directory component).take (bufLen - 1))).1 = true) :
    Found fs progName bufLen component := by
  obtain ⟨hroom, hfile⟩ := Bool.and_eq_true_iff.mp h
  have hfits := (fits_iff hname (directory component)).mp (of_decide_eq_true hroom)
  have hlength := hfits
  rw [List.length_append] at hlength
  have hcut : (directory component).take (bufLen - 1) = directory component :=
    List.take_of_length_le (by omega)
  rw [hcut, List.take_of_length_le (by omega)] at hfile
  exact ⟨hfits, hfile⟩

end Component

section Search

variable {fs : Text → Option FileMode} {progName : Text} {bufLen : ℕ}

theorem getPathFrom_last (hlen : 2 ≤ bufLen) {start : Text} (hnone : strchr start ':' = none) :
    getPathFrom fs progName bufLen start =
      let attempt := tryDirectory fs progName bufLen ((directory start).take (bufLen - 1))
      if attempt.1 then (0, attempt.2) else (-1, attempt.2) := by
  rw [getPathFrom, hnone, componentIn_eq hlen (Or.inl ⟨rfl, rfl⟩)]

theorem getPathFrom_next (hlen : 2 ≤ bufLen) {component rest : Text}
    (hsome : strchr (component ++ ':' :: rest) ':' = some (':' :: rest)) :
    getPathFrom fs progName bufLen (component ++ ':' :: rest) =
      let attempt := tryDirectory fs progName bufLen ((directory component).take (bufLen - 1))
      if attempt.1 then (0, attempt.2) else getPathFrom fs progName bufLen rest := by
  rw [getPathFrom, hsome, componentIn_eq hlen (Or.inr ⟨_, rfl, rfl⟩)]
  rfl

/-- The first component that has the file. -/
def FirstFound (fs : Text → Option FileMode) (progName : Text) (bufLen : ℕ)
    (components : List Text) (component : Text) : Prop :=
  ∃ before behind, components = before ++ component :: behind ∧
    (∀ other ∈ before, ¬ Found fs progName bufLen other) ∧ Found fs progName bufLen component

/-- The first component with the file is the first of all, or it is the first of the others and
the first of all does not have it. -/
theorem FirstFound.cons_cases {first component : Text} {components : List Text}
    (h : FirstFound fs progName bufLen (first :: components) component) :
    (component = first ∧ Found fs progName bufLen first) ∨
      (¬ Found fs progName bufLen first ∧ FirstFound fs progName bufLen components component) := by
  obtain ⟨before, behind, heq, hbefore, hfound⟩ := h
  cases before with
  | nil =>
      obtain ⟨rfl, -⟩ := List.cons.inj heq
      exact Or.inl ⟨rfl, hfound⟩
  | cons other before =>
      obtain ⟨rfl, rfl⟩ := List.cons.inj heq
      refine Or.inr ⟨hbefore first List.mem_cons_self, before, behind, rfl, ?_, hfound⟩
      exact fun other hother => hbefore other (List.mem_cons_of_mem _ hother)

theorem firstFound_of_exists {components : List Text}
    (h : ∃ component ∈ components, Found fs progName bufLen component) :
    ∃ component, FirstFound fs progName bufLen components component := by
  induction components with
  | nil =>
      obtain ⟨_, hmem, -⟩ := h
      cases hmem
  | cons first components ih =>
      by_cases hfirst : Found fs progName bufLen first
      · exact ⟨first, [], components, rfl, fun _ h => absurd h List.not_mem_nil, hfirst⟩
      · obtain ⟨component, hmem, hfound⟩ := h
        have hother : component ∈ components := by
          rcases List.mem_cons.mp hmem with rfl | hother
          · exact absurd hfound hfirst
          · exact hother
        obtain ⟨component, before, behind, rfl, hbefore, hfound⟩ := ih ⟨component, hother, hfound⟩
        refine ⟨component, first :: before, behind, rfl, ?_, hfound⟩
        exact List.forall_mem_cons.mpr ⟨hfirst, hbefore⟩

/-- The loop ends with the first component that has the file. Induction on the text that is
left of PATH. -/
theorem getPathFrom_spec (hname : progName ≠ []) (hlen : 2 ≤ bufLen) (start : Text) :
    (∀ component, FirstFound fs progName bufLen (start.splitOn ':') component →
      getPathFrom fs progName bufLen start = (0, joined progName component)) ∧
    ((∀ component ∈ start.splitOn ':', ¬ Found fs progName bufLen component) →
      (getPathFrom fs progName bufLen start).1 = -1) := by
  have hstep : ∀ component, ¬ Found fs progName bufLen component →
      (tryDirectory fs progName bufLen ((directory component).take (bufLen - 1))).1 = false :=
    fun component hnot => Bool.eq_false_iff.mpr fun h => hnot (found_of_tryDirectory hname h)
  induction hn : start.length using Nat.strong_induction_on generalizing start with
  | _ n ih =>
      subst hn
      rcases strchr_cases start ':' with ⟨hnot, hnone⟩ | ⟨first, rest, hnot, rfl, hsome⟩
      · -- the last component
        rw [List.splitOn_eq_singleton hnot, getPathFrom_last hlen hnone]
        constructor
        · intro component hfirst
          obtain ⟨rfl, hfound⟩ | ⟨-, before, behind, hnil, -⟩ := hfirst.cons_cases
          · rw [tryDirectory_found hname hfound]
            rfl
          · simp at hnil
        · intro hnone
          have hfail := hstep start (hnone start List.mem_cons_self)
          simp [hfail]
      · have hshorter : rest.length < (first ++ ':' :: rest).length := by
          rw [List.length_append, List.length_cons]
          omega
        obtain ⟨hyes, hno⟩ := ih rest.length hshorter rest rfl
        rw [List.splitOn_append_cons_self_of_not_mem hnot, getPathFrom_next hlen hsome]
        constructor
        · intro component hfirst
          obtain ⟨rfl, hfound⟩ | ⟨hfail, hothers⟩ := hfirst.cons_cases
          · rw [tryDirectory_found hname hfound]
            rfl
          · simp only [hstep first hfail, Bool.false_eq_true, if_false]
            exact hyes component hothers
        · intro hnone
          simp only [hstep first (hnone first List.mem_cons_self), Bool.false_eq_true, if_false]
          exact hno fun component hmem => hnone component (List.mem_cons_of_mem _ hmem)

end Search

/-- `tst_get_path` finds the program exactly when some component of PATH has it with a path
that fits, and then the buffer holds the path under the first such component. -/
theorem tstGetPath_spec (fs : Text → Option FileMode) (progName path buf : Text) (bufLen : ℕ)
    (hname : progName ≠ []) (hlen : 2 ≤ bufLen) :
    ((tstGetPath fs progName bufLen (some path) buf).1 = 0 ↔
      ∃ component ∈ path.splitOn ':',
        (joined progName component).length + 1 ≤ bufLen ∧
          fileExist fs (joined progName component) = true) ∧
    ∀ before component behind, path.splitOn ':' = before ++ component :: behind →
      (∀ other ∈ before, ¬ ((joined progName other).length + 1 ≤ bufLen ∧
        fileExist fs (joined progName other) = true)) →
      (joined progName component).length + 1 ≤ bufLen →
      fileExist fs (joined progName component) = true →
      tstGetPath fs progName bufLen (some path) buf = (0, joined progName component) := by
  obtain ⟨hyes, hno⟩ := @getPathFrom_spec fs _ _ hname hlen path
  refine ⟨⟨fun hzero => ?_, fun hsome => ?_⟩, ?_⟩
  · by_contra hnone
    have hminus := hno fun component hmem hfound => hnone ⟨component, hmem, hfound⟩
    rw [tstGetPath, hminus] at hzero
    cases hzero
  · obtain ⟨component, hfirst⟩ := firstFound_of_exists hsome
    rw [tstGetPath, hyes component hfirst]
  · intro before component behind heq hbefore hfits hfile
    exact hyes component ⟨before, behind, heq, hbefore, hfits, hfile⟩

/-- A system with one program, in the current directory. -/
def onlyHere (path : Text) : Option FileMode :=
  if path = txt "./ls" then some ⟨true, true⟩ else none

theorem tstGetPath_spec_onlyHere :
    tstGetPath onlyHere (txt "ls") 6 (some (txt "/usr/bin::/bin/")) [] = (0, txt "./ls") :=
  (tstGetPath_spec onlyHere (txt "ls") (txt "/usr/bin::/bin/") [] 6 (by decide) (by decide)).2
    [txt "/usr/bin"] [] [txt "/bin/"] (by decide) (by decide) (by decide) (by decide)

end EDDTs.LtpLib
