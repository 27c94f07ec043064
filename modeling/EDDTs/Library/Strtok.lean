import Mathlib.Data.List.TakeWhile
import Mathlib.Tactic.Common

/-!
# Tokens between separators

`strtok` and the loop that calls it until there is no token any more. The tokens are the maximal
runs of elements that are no separators.
-/

namespace EDDTs.Library

variable {α : Type*}

/-- The maximal runs, not empty, of elements that are no separators. -/
def runs (sep : α → Bool) (s : List α) : List (List α) := (s.splitOnP sep).filter (!·.isEmpty)

/-- One call of `strtok`: the token and what is left for the next call. -/
def strtok (sep : α → Bool) (s : List α) : Option (List α × List α) :=
  let t := s.dropWhile sep
  if t = [] then none else some (t.takeWhile (!sep ·), (t.dropWhile (!sep ·)).drop 1)

section Runs

variable {sep : α → Bool} {gap t s : List α}

theorem runs_nil (sep : α → Bool) : runs sep [] = [] := rfl

theorem runs_cons_of_sep {c : α} (hc : sep c = true) (s : List α) :
    runs sep (c :: s) = runs sep s := by
  rw [runs, List.splitOnP_cons_eq_if_modifyHead, if_pos hc, List.filter_cons_of_neg (by simp)]
  rfl

/-- Separators in front make no run. -/
theorem runs_append_of_forall (hgap : ∀ c ∈ gap, sep c = true) (s : List α) :
    runs sep (gap ++ s) = runs sep s := by
  induction gap with
  | nil => rfl
  | cons c gap ih =>
      rw [List.cons_append, runs_cons_of_sep (hgap c List.mem_cons_self)]
      exact ih fun d hd => hgap d (List.mem_cons_of_mem c hd)

theorem runs_singleton (ht : ∀ c ∈ t, sep c = false) (hne : t ≠ []) : runs sep t = [t] := by
  rw [runs, List.splitOnP_eq_singleton ht, List.filter_cons_of_pos (by simpa using hne)]
  rfl

/-- The run that a separator ends. -/
theorem runs_append_cons (ht : ∀ c ∈ t, sep c = false) (hne : t ≠ []) {c : α} (hc : sep c = true)
    (s : List α) : runs sep (t ++ c :: s) = t :: runs sep s := by
  rw [runs, List.splitOnP_append_cons_of_forall_mem ht c hc,
    List.filter_cons_of_pos (by simpa using hne)]
  rfl

theorem strtok_eq_none_iff : strtok sep s = none ↔ ∀ c ∈ s, sep c = true := by
  simp [strtok, List.dropWhile_eq_nil_iff]

/-- What is behind the first separators begins with a token. -/
theorem takeWhile_ne_nil (hne : s.dropWhile sep ≠ []) :
    (s.dropWhile sep).takeWhile (!sep ·) ≠ [] := by
  have hhead := List.head_dropWhile_not sep hne
  cases hdrop : s.dropWhile sep with
  | nil => exact absurd hdrop hne
  | cons c u =>
      simp only [hdrop, List.head_cons] at hhead
      rw [List.takeWhile_cons_of_pos (by simpa using hhead)]
      exact List.cons_ne_nil _ _

/-- The run `t` is behind the separators `gap`, and `tail` is what follows it. -/
structure FirstRun (sep : α → Bool) (gap t tail : List α) : Prop where
  gap : ∀ c ∈ gap, sep c = true
  ne_nil : t ≠ []
  run : ∀ c ∈ t, sep c = false
  tail : ∀ c ∈ tail.head?, sep c = true

theorem FirstRun.runs_eq {tail : List α} (h : FirstRun sep gap t tail) :
    runs sep (gap ++ (t ++ tail)) = t :: runs sep tail := by
  rw [runs_append_of_forall h.gap]
  cases tail with
  | nil => rw [List.append_nil, runs_singleton h.run h.ne_nil, runs_nil]
  | cons c tail =>
      have hc := h.tail c rfl
      rw [runs_append_cons h.run h.ne_nil hc, runs_cons_of_sep hc]

/-- A call finds the first run and skips the separator behind it. -/
theorem strtok_firstRun {rest : List α} (h : strtok sep s = some (t, rest)) :
    ∃ gap tail, FirstRun sep gap t tail ∧ s = gap ++ (t ++ tail) ∧ rest = tail.drop 1 := by
  simp only [strtok, Option.ite_none_left_eq_some, Option.some.injEq, Prod.mk.injEq] at h
  obtain ⟨hne, rfl, rfl⟩ := h
  refine ⟨s.takeWhile sep, (s.dropWhile sep).dropWhile (!sep ·), ?_, ?_, rfl⟩
  · refine ⟨fun c hc => List.mem_takeWhile_imp hc, takeWhile_ne_nil hne, ?_, ?_⟩
    · intro c hc
      simpa using List.mem_takeWhile_imp hc
    · intro c hc
      have hhead := List.head?_dropWhile_not (!sep ·) (s.dropWhile sep)
      simpa [Option.mem_def.mp hc] using hhead
  · rw [List.takeWhile_append_dropWhile, List.takeWhile_append_dropWhile]

theorem strtok_eq_some {rest : List α} (h : strtok sep s = some (t, rest)) :
    runs sep s = t :: runs sep rest ∧ rest.length < s.length := by
  obtain ⟨gap, tail, hrun, rfl, rfl⟩ := strtok_firstRun h
  have hlength := List.length_pos_iff.mpr hrun.ne_nil
  refine ⟨?_, by simp; omega⟩
  rw [hrun.runs_eq]
  cases tail with
  | nil => rfl
  | cons c tail => rw [runs_cons_of_sep (hrun.tail c rfl), List.drop_one, List.tail_cons]

theorem runs_eq_nil_iff : runs sep s = [] ↔ ∀ c ∈ s, sep c = true := by
  constructor
  · intro hruns
    rw [← strtok_eq_none_iff]
    cases htok : strtok sep s with
    | none => rfl
    | some p => simp [(strtok_eq_some htok).1] at hruns
  · intro hall
    simpa [runs_nil] using runs_append_of_forall hall []

/-- The only run is between separators. -/
theorem runs_eq_singleton_iff : runs sep s = [t] ↔ t ≠ [] ∧ (∀ c ∈ t, sep c = false) ∧
    ∃ a b, (∀ c ∈ a ++ b, sep c = true) ∧ s = a ++ (t ++ b) := by
  constructor
  · intro hruns
    cases htok : strtok sep s with
    | none => simp [runs_eq_nil_iff.mpr (strtok_eq_none_iff.mp htok)] at hruns
    | some p =>
        obtain ⟨gap, tail, hrun, rfl, -⟩ := strtok_firstRun htok
        rw [hrun.runs_eq] at hruns
        obtain ⟨rfl, htail⟩ := List.cons.inj hruns
        exact ⟨hrun.ne_nil, hrun.run, gap, tail,
          List.forall_mem_append.mpr ⟨hrun.gap, runs_eq_nil_iff.mp htail⟩, rfl⟩
  · rintro ⟨hne, ht, a, b, hab, rfl⟩
    obtain ⟨ha, hb⟩ := List.forall_mem_append.mp hab
    have hrun : FirstRun sep a t b := ⟨ha, hne, ht, fun c hc => hb c (List.mem_of_mem_head? hc)⟩
    rw [hrun.runs_eq, runs_eq_nil_iff.mpr hb]

theorem mem_runs (h : t ∈ runs sep s) : t ≠ [] ∧ ∀ c ∈ t, sep c = false := by
  obtain ⟨hmem, hne⟩ := List.mem_filter.mp h
  refine ⟨by simpa using hne, ?_⟩
  clear h hne
  induction s generalizing t with
  | nil => simp [List.mem_singleton.mp hmem]
  | cons c s ih =>
      rw [List.splitOnP_cons_eq_if_modifyHead] at hmem
      split_ifs at hmem with hc
      · rcases List.mem_cons.mp hmem with rfl | hmem
        · nofun
        · exact ih hmem
      · cases hsplit : s.splitOnP sep with
        | nil => simp [hsplit] at hmem
        | cons u us =>
            rw [hsplit] at ih hmem
            rcases List.mem_cons.mp hmem with rfl | hmem
            · exact List.forall_mem_cons.mpr ⟨by simpa using hc, ih List.mem_cons_self⟩
            · exact ih (List.mem_cons_of_mem u hmem)

end Runs

/-- `for (tok = strtok(s, sep); tok != NULL; tok = strtok(NULL, sep))` -/
def strtokLoop {ε β : Type*} (sep : α → Bool) (body : List α → β → Except ε β) (s : List α)
    (b : β) : Except ε β :=
  match _ : strtok sep s with
  | none => .ok b
  | some (tok, rest) => (body tok b).bind (strtokLoop sep body rest)
termination_by s.length
decreasing_by exact (strtok_eq_some ‹_›).2

/-- The loop is a fold over the runs. -/
theorem strtokLoop_eq {ε β : Type*} (sep : α → Bool) (body : List α → β → Except ε β)
    (s : List α) (b : β) :
    strtokLoop sep body s b = (runs sep s).foldlM (fun b tok => body tok b) b := by
  fun_induction strtokLoop sep body s b with
  | case1 s b hnone =>
      rw [runs_eq_nil_iff.mpr (strtok_eq_none_iff.mp hnone)]
      rfl
  | case2 s b tok rest hsome ih =>
      rw [(strtok_eq_some hsome).1, List.foldlM_cons]
      exact bind_congr ih

section Pieces

variable {sep : α → Bool} {s : List α}

/-- There is at most one run more than there are separators. -/
theorem length_runs_le (sep : α → Bool) (s : List α) :
    (runs sep s).length ≤ s.countP sep + 1 := by
  refine (List.length_filter_le _ _).trans (Nat.le_of_eq ?_)
  induction s with
  | nil => rfl
  | cons c s ih =>
      rw [List.splitOnP_cons_eq_if_modifyHead]
      split_ifs with hc
      · rw [List.length_cons, ih, List.countP_cons_of_pos hc]
      · rw [List.length_modifyHead, ih, List.countP_cons_of_neg hc]

/-- Pieces without separators are the runs of the list with a separator between them. -/
theorem runs_intercalate {c : α} (hc : sep c = true) {pieces : List (List α)}
    (hne : ∀ p ∈ pieces, p ≠ []) (hpieces : ∀ p ∈ pieces, ∀ d ∈ p, sep d = false) :
    runs sep ([c].intercalate pieces) = pieces := by
  induction pieces with
  | nil => rfl
  | cons p pieces ih =>
      have hp := hpieces p List.mem_cons_self
      have hpne := hne p List.mem_cons_self
      cases pieces with
      | nil => simpa [List.intercalate] using runs_singleton hp hpne
      | cons q pieces =>
          have hrest := ih (fun r hr => hne r (List.mem_cons_of_mem p hr))
            fun r hr => hpieces r (List.mem_cons_of_mem p hr)
          rw [List.intercalate_cons_cons, List.append_assoc, List.singleton_append,
            runs_append_cons hp hpne hc, hrest]

end Pieces

end EDDTs.Library
