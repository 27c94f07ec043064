import Mathlib.Data.List.Basic

/-!
# Functions that are left early

A C function that jumps to its end as soon as a call fails is a sequence of parts. Each
part changes the state and either goes on or leaves the function with a report. Pre- and
postconditions for such parts have one condition for going on and one for leaving.
-/

namespace EDDTs.Library

variable {ι τ ε : Type*}

/-- The state after the part, and the report with which the function is left there. -/
abbrev Segment (τ ε : Type*) := τ → τ × Option ε

namespace Segment

/-- `q` follows unless the function is left in `p`. -/
def andThen (p q : Segment τ ε) : Segment τ ε := fun s =>
  match p s with
  | (s', none) => q s'
  | (s', some e) => (s', some e)

/-- A loop over the values of its counter. -/
def forEach (body : ι → Segment τ ε) : List ι → Segment τ ε
  | [] => fun s => (s, none)
  | i :: rest => (body i).andThen (forEach body rest)

/-- From a state with `P` the part goes on with `Q`, or leaves the function with `R`. -/
def Triple (P : τ → Prop) (p : Segment τ ε) (Q : τ → Prop) (R : τ → ε → Prop) : Prop :=
  ∀ s, P s → ((p s).2 = none → Q (p s).1) ∧ ∀ e, (p s).2 = some e → R (p s).1 e

variable {P Q S : τ → Prop} {R : τ → ε → Prop} {p q : Segment τ ε} {body : ι → Segment τ ε}

theorem andThen_eq (p q : Segment τ ε) (s : τ) :
    p.andThen q s = if (p s).2 = none then q (p s).1 else p s := by
  unfold andThen
  rcases p s with ⟨s', _ | e⟩ <;> rfl

/-- A part that goes on hands its state to the next one. -/
theorem andThen_of_goesOn {s s' : τ} (h : p s = (s', none)) : p.andThen q s = q s' := by
  rw [Segment.andThen, h]

theorem Triple.andThen (hp : Triple P p Q R) (hq : Triple Q q S R) :
    Triple P (p.andThen q) S R := by
  intro s hs
  obtain ⟨hon, hleft⟩ := hp s hs
  rw [andThen_eq]
  split
  next h => exact hq (p s).1 (hon h)
  next h => exact ⟨fun h' => absurd h' h, hleft⟩

theorem Triple.weaken (hp : Triple P p Q R) (h : ∀ s, S s → P s) : Triple S p Q R :=
  fun s hs => hp s (h s hs)

/-- A part that never leaves the function. -/
theorem triple_goesOn {f : τ → τ} (h : ∀ s, P s → Q (f s)) :
    Triple P (fun s => (f s, none)) Q R :=
  fun s hs => ⟨fun _ => h s hs, nofun⟩

/-- An invariant that counts the turns carries through a loop. -/
theorem Triple.forEach {Inv : ℕ → τ → Prop} {l : List ι}
    (h : ∀ k (hk : k < l.length), Triple (Inv k) (body l[k]) (Inv (k + 1)) R) :
    Triple (Inv 0) (forEach body l) (Inv l.length) R := by
  induction l generalizing Inv with
  | nil => exact fun s hs => ⟨fun _ => hs, nofun⟩
  | cons i rest ih =>
      have hfirst := h 0 (Nat.zero_lt_succ _)
      have hrest : Triple (Inv 1) (Segment.forEach body rest) (Inv (rest.length + 1)) R :=
        @ih (fun k => Inv (k + 1)) fun k hk => h (k + 1) (Nat.succ_lt_succ hk)
      exact hfirst.andThen hrest

end Segment

end EDDTs.Library
