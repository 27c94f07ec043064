import Mathlib.Data.Nat.Init
import Mathlib.Logic.Function.Basic
import Mathlib.Order.Basic
import Mathlib.Order.Nat
import Mathlib.Tactic.Common

/-!
# Interleaved executions of a step function

An action names the party that moves and resolves whatever the party leaves
open. A finite interleaving is a list of actions; an infinite one is a
sequence. Safety is proved by induction over the finite ones, progress from
a rank that the helpful actions of a fair sequence keep lowering.
-/

namespace EDDTs.Library.Interleaving

variable {σ ι : Type*} (step : ι → σ → σ)

/-- The state after the actions of a finite interleaving, in order. -/
def exec (s : σ) (acts : List ι) : σ := acts.foldl (fun t a => step a t) s

@[simp] theorem exec_nil (s : σ) : exec step s [] = s := rfl

@[simp] theorem exec_cons (s : σ) (a : ι) (acts : List ι) :
    exec step s (a :: acts) = exec step (step a s) acts := rfl

theorem exec_append (s : σ) (acts more : List ι) :
    exec step s (acts ++ more) = exec step (exec step s acts) more := by
  simp [exec, List.foldl_append]

/-- Some interleaving leads from `init` to `s`. -/
def Reachable (init s : σ) : Prop := ∃ acts, exec step init acts = s

theorem Reachable.refl (init : σ) : Reachable step init init := ⟨[], rfl⟩

variable {step} {s : σ} {acts : List ι} {enabled : ι → σ → Prop} {P : ι → Prop}

theorem Reachable.snoc {init : σ} (h : Reachable step init s) (a : ι) :
    Reachable step init (step a s) := by
  obtain ⟨acts, rfl⟩ := h
  exact ⟨acts ++ [a], by simp [exec_append]⟩

/-- A property of the initial state that every action preserves holds in
every reachable state. -/
theorem Reachable.invariant {Inv : σ → Prop} {init : σ} (h : Reachable step init s)
    (hinit : Inv init) (hstep : ∀ t a, Inv t → Inv (step a t)) : Inv s := by
  obtain ⟨acts, rfl⟩ := h
  induction acts generalizing init with
  | nil => exact hinit
  | cons a acts ih => exact ih (hstep init a hinit)

/-- The same for the interleavings of some of the actions. -/
theorem exec_invariant {Inv : σ → Prop} (hacts : ∀ a ∈ acts, P a) (hinit : Inv s)
    (hstep : ∀ t a, P a → Inv t → Inv (step a t)) : Inv (exec step s acts) := by
  induction acts generalizing s with
  | nil => exact hinit
  | cons a acts ih =>
      exact ih (fun b hb => hacts b (by simp [hb])) (hstep s a (hacts a (by simp)) hinit)

/-- Every action of an interleaving is enabled when its turn comes. -/
def AllEnabled (step : ι → σ → σ) (enabled : ι → σ → Prop) : σ → List ι → Prop
  | _, [] => True
  | s, a :: acts => enabled a s ∧ AllEnabled step enabled (step a s) acts

instance AllEnabled.decidable {enabled : ι → σ → Prop} [∀ a s, Decidable (enabled a s)] :
    (s : σ) → (acts : List ι) → Decidable (AllEnabled step enabled s acts)
  | _, [] => isTrue trivial
  | s, a :: acts => @instDecidableAnd _ _ _ (AllEnabled.decidable (step a s) acts)

theorem allEnabled_of_forall (h : ∀ a s, enabled a s) (s : σ) (acts : List ι) :
    AllEnabled step enabled s acts := by
  induction acts generalizing s with
  | nil => trivial
  | cons a acts ih => exact ⟨h a s, ih (step a s)⟩

/-- A property that the enabled actions among `P` keep holds after any number of
them. -/
theorem AllEnabled.invariant (Inv : σ → Prop)
    (hstep : ∀ s a, P a → enabled a s → Inv s → Inv (step a s)) (hacts : ∀ a ∈ acts, P a)
    (henabled : AllEnabled step enabled s acts) (hs : Inv s) : Inv (exec step s acts) := by
  induction acts generalizing s with
  | nil => exact hs
  | cons a acts ih =>
      exact ih (fun b hb => hacts b (by simp [hb])) henabled.2
        (hstep s a (hacts a (by simp)) henabled.1 hs)

/-- Termination rule. The enabled actions among `P` keep `Inv` and the goal;
while the goal is not met they do not raise the rank, and the helpful ones lower
it. So an interleaving of them with more helpful actions than the rank meets
the goal. -/
theorem exec_goal_of_rank (helpful : ι → Bool) (Inv Goal : σ → Prop) (rank : σ → ℕ)
    (hstep : ∀ s a, P a → enabled a s → Inv s → Inv (step a s) ∧ (Goal s → Goal (step a s)) ∧
      (¬ Goal (step a s) → rank (step a s) + (if helpful a then 1 else 0) ≤ rank s))
    (hacts : ∀ a ∈ acts, P a) (hs : Inv s) (henabled : AllEnabled step enabled s acts)
    (hmany : rank s < acts.countP helpful) : Goal (exec step s acts) := by
  -- the goal is met along the way, or every helpful action has been paid for
  have hpaid : Goal (exec step s acts) ∨
      rank (exec step s acts) + acts.countP helpful ≤ rank s := by
    clear hmany
    induction acts generalizing s with
    | nil => exact Or.inr (by simp)
    | cons a acts ih =>
        have hmem : ∀ b ∈ acts, P b := fun b hb => hacts b (by simp [hb])
        obtain ⟨hinv, -, hrank⟩ := hstep s a (hacts a (by simp)) henabled.1 hs
        by_cases hgoal : Goal (step a s)
        · have hkept : Inv (exec step (step a s) acts) ∧ Goal (exec step (step a s) acts) :=
            AllEnabled.invariant (fun t => Inv t ∧ Goal t)
              (fun t b hb hen ht =>
                ⟨(hstep t b hb hen ht.1).1, (hstep t b hb hen ht.1).2.1 ht.2⟩)
              hmem henabled.2 ⟨hinv, hgoal⟩
          exact Or.inl hkept.2
        · rcases ih hmem hinv henabled.2 with hg | hle
          · exact Or.inl hg
          · refine Or.inr ?_
            have hpay := hrank hgoal
            rw [exec_cons, List.countP_cons]
            omega
  rcases hpaid with hgoal | hle
  · exact hgoal
  · omega

/-- When every enabled action lowers the rank, an interleaving has at most that many actions. -/
theorem length_le_of_rank (Inv : σ → Prop) (rank : σ → ℕ)
    (hstep : ∀ s a, enabled a s → Inv s → Inv (step a s) ∧ rank (step a s) + 1 ≤ rank s)
    (hs : Inv s) (henabled : AllEnabled step enabled s acts) : acts.length ≤ rank s := by
  induction acts generalizing s with
  | nil => exact Nat.zero_le _
  | cons a acts ih =>
      obtain ⟨hinv, hrank⟩ := hstep s a henabled.1 hs
      have hrest := ih hinv henabled.2
      rw [List.length_cons]
      omega

/-- The states of an infinite interleaving. -/
def trace (step : ι → σ → σ) (sched : ℕ → ι) (s : σ) : ℕ → σ
  | 0 => s
  | n + 1 => step (sched n) (trace step sched s n)

@[simp] theorem trace_zero (sched : ℕ → ι) (s : σ) : trace step sched s 0 = s := rfl

theorem trace_succ (sched : ℕ → ι) (s : σ) (n : ℕ) :
    trace step sched s (n + 1) = step (sched n) (trace step sched s n) := rfl

theorem trace_add (sched : ℕ → ι) (s : σ) (m n : ℕ) :
    trace step sched s (m + n) =
      trace step (fun j => sched (m + j)) (trace step sched s m) n := by
  induction n with
  | zero => rfl
  | succ n ih => rw [← Nat.add_assoc, trace_succ, ih, trace_succ]

/-- A prefix of an infinite interleaving is a finite one. -/
theorem trace_eq_exec (sched : ℕ → ι) (s : σ) (n : ℕ) :
    trace step sched s n = exec step s ((List.range n).map sched) := by
  induction n with
  | zero => rfl
  | succ n ih => rw [trace_succ, ih, List.range_succ, List.map_append, exec_append]; rfl

theorem Reachable.trace {init : σ} (h : Reachable step init s) (sched : ℕ → ι) (n : ℕ) :
    Reachable step init (trace step sched s n) := by
  induction n with
  | zero => exact h
  | succ n ih => exact ih.snoc (sched n)

section Sequence

variable {x : ℕ → σ} {sched : ℕ → ι}

/-- A property kept by every step of a sequence of states holds from the
position where it is first met. -/
theorem stable_of_succ {P : σ → Prop} (hstep : ∀ n, P (x n) → P (x (n + 1)))
    {m n : ℕ} (hm : P (x m)) (hn : m ≤ n) : P (x n) := by
  induction n, hn using Nat.le_induction with
  | base => exact hm
  | succ n _ ih => exact hstep n ih

/-- The helpful actions occur infinitely often. -/
def InfinitelyOften (sched : ℕ → ι) (helpful : ι → Prop) : Prop :=
  ∀ n, ∃ m, n ≤ m ∧ helpful (sched m)

/-- Progress rule. While the goal is not met every step keeps `Inv` and does
not raise the rank, and the step of a helpful action lowers it; so a sequence
with infinitely many helpful actions meets the goal. -/
theorem eventually_of_rank {helpful : ι → Prop} (hfair : InfinitelyOften sched helpful)
    (Inv Goal : σ → Prop) (rank : σ → ℕ)
    (hstep : ∀ n, Inv (x n) → ¬ Goal (x n) → Goal (x (n + 1)) ∨
      (Inv (x (n + 1)) ∧ rank (x (n + 1)) ≤ rank (x n) ∧
        (helpful (sched n) → rank (x (n + 1)) < rank (x n))))
    (n : ℕ) (hn : Inv (x n)) : ∃ m, n ≤ m ∧ Goal (x m) := by
  -- induction on the rank at `n`; between two helpful actions the rank is carried along
  obtain ⟨r, hr⟩ : ∃ r, rank (x n) = r := ⟨_, rfl⟩
  induction r using Nat.strong_induction_on generalizing n with
  | _ r ih =>
      by_contra hno
      have hgoal : ∀ m, n ≤ m → ¬ Goal (x m) := fun m hm hg => hno ⟨m, hm, hg⟩
      have hcarry : ∀ m, n ≤ m → Inv (x m) ∧ rank (x m) ≤ r := by
        intro m hm
        induction m, hm using Nat.le_induction with
        | base => exact ⟨hn, hr.le⟩
        | succ m hm ihm =>
            rcases hstep m ihm.1 (hgoal m hm) with hg | ⟨hi, hle, _⟩
            · exact absurd hg (hgoal (m + 1) (by omega))
            · exact ⟨hi, hle.trans ihm.2⟩
      obtain ⟨m, hm, hhelp⟩ := hfair n
      obtain ⟨hi, hle⟩ := hcarry m hm
      rcases hstep m hi (hgoal m hm) with hg | ⟨hi', _, hlt⟩
      · exact hgoal (m + 1) (by omega) hg
      · obtain ⟨k, hk, hg⟩ := ih _ ((hlt hhelp).trans_le hle) (m + 1) hi' rfl
        exact hgoal k (by omega) hg

end Sequence

end EDDTs.Library.Interleaving
