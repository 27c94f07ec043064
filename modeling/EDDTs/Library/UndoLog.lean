import Mathlib.Data.List.Basic
import Mathlib.Logic.Function.Basic

/-!
# Undo logs

A map whose values are noted in a log before they are changed. The log is a stack: replaying
it from the top writes the oldest value of a key last.
-/

namespace EDDTs.Library

variable {K V : Type*} [DecidableEq K]

/-- The map, and what was noted of it; the newest note is the first. -/
structure UndoLog (K V : Type*) where
  now : K → V
  log : List (K × V)

/-- The operations: note the value of a key, set it. -/
inductive UndoOp (K V : Type*)
  | note (key : K)
  | set (key : K) (value : V)

/-- The value that was noted first. -/
def oldest (key : K) : List (K × V) → Option V
  | [] => none
  | entry :: log => (oldest key log).or (if entry.1 = key then some entry.2 else none)

namespace UndoLog

/-- One operation. A note may lose a part of the value: `cut` is what is kept of it. -/
def step (cut : V → V) (s : UndoLog K V) : UndoOp K V → UndoLog K V
  | .note key => { s with log := (key, cut (s.now key)) :: s.log }
  | .set key value => { s with now := Function.update s.now key value }

def run (cut : V → V) (ops : List (UndoOp K V)) (s : UndoLog K V) : UndoLog K V :=
  ops.foldl (step cut) s

/-- Write all notes back, the newest first. -/
def replay (s : UndoLog K V) : K → V :=
  s.log.foldl (fun m entry => Function.update m entry.1 entry.2) s.now

/-- The value of a key when it is first noted. -/
def firstNoted (key : K) : List (UndoOp K V) → (K → V) → Option V
  | [], _ => none
  | .note other :: ops, m => if other = key then some (m key) else firstNoted key ops m
  | .set other value :: ops, m => firstNoted key ops (Function.update m other value)

theorem run_append (cut : V → V) (ops ops' : List (UndoOp K V)) (s : UndoLog K V) :
    run cut (ops ++ ops') s = run cut ops' (run cut ops s) := List.foldl_append

/-- Of all notes of a key the oldest stands after the replay. -/
theorem replay_apply (s : UndoLog K V) (key : K) :
    s.replay key = (oldest key s.log).getD (s.now key) := by
  obtain ⟨m, log⟩ := s
  induction log generalizing m with
  | nil => rfl
  | cons entry log ih =>
      have htail := ih (Function.update m entry.1 entry.2)
      rw [replay, List.foldl_cons, oldest]
      refine htail.trans ?_
      cases oldest key log with
      | some value => rfl
      | none =>
          by_cases hkey : entry.1 = key
          · subst hkey
            simp
          · simp [hkey, Function.update_of_ne (Ne.symm hkey)]

/-- A run adds nothing in front of the notes that are there: a key that had one keeps it, and
another key has the first note of the run. -/
theorem oldest_run (cut : V → V) (key : K) (ops : List (UndoOp K V)) (s : UndoLog K V) :
    oldest key (run cut ops s).log =
      (oldest key s.log).or ((firstNoted key ops s.now).map cut) := by
  induction ops generalizing s with
  | nil => simp [run, firstNoted]
  | cons op ops ih =>
      rw [run, List.foldl_cons]
      refine (ih (s.step cut op)).trans ?_
      cases op with
      | set other value => rfl
      | note other =>
          by_cases hkey : other = key
          · subst hkey
            cases hold : oldest other s.log <;> simp [step, oldest, firstNoted, hold]
          · simp [step, oldest, firstNoted, hkey]

/-- From an empty log the replay brings a key back to what its first note kept, and leaves
the keys that were not noted. -/
theorem replay_run (cut : V → V) (ops : List (UndoOp K V)) (m : K → V) (key : K) :
    (run cut ops ⟨m, []⟩).replay key =
      ((firstNoted key ops m).map cut).getD ((run cut ops ⟨m, []⟩).now key) := by
  rw [replay_apply, oldest_run]
  rfl

end UndoLog

end EDDTs.Library
