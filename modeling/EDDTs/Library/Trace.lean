import Mathlib.Data.List.Basic

/-!
# Traces that may end early

What a program does is a list of events, and it may end before it is through. Parts of a
program that are run one after the other have their events one after the other, up to the
first part that ends the program.
-/

namespace EDDTs.Library

variable {ε : Type*}

/-- The events of a part of a program, and whether the program ends in it. -/
structure Trace (ε : Type*) where
  events : List ε
  ended : Bool := false

namespace Trace

/-- `u` follows unless the program ends in `t`. -/
def andThen (t u : Trace ε) : Trace ε :=
  if t.ended then t else ⟨t.events ++ u.events, u.ended⟩

variable {t u : Trace ε}

theorem andThen_of_ended (h : t.ended = true) : t.andThen u = t := if_pos h

theorem andThen_of_not_ended (h : t.ended = false) :
    t.andThen u = ⟨t.events ++ u.events, u.ended⟩ := by
  rw [andThen, h]
  exact if_neg Bool.false_ne_true

theorem ended_andThen : (t.andThen u).ended = (t.ended || u.ended) := by
  cases h : t.ended with
  | true => rw [andThen_of_ended h, h, Bool.true_or]
  | false => rw [andThen_of_not_ended h, Bool.false_or]

/-- The events of the first part come first. -/
theorem events_andThen : (t.andThen u).events = t.events ++ if t.ended then [] else u.events := by
  cases h : t.ended with
  | true => rw [andThen_of_ended h, if_pos rfl, List.append_nil]
  | false => rw [andThen_of_not_ended h, if_neg Bool.false_ne_true]

theorem andThen_assoc (t u v : Trace ε) : (t.andThen u).andThen v = t.andThen (u.andThen v) := by
  cases ht : t.ended with
  | true => rw [andThen_of_ended ht, andThen_of_ended ht, andThen_of_ended ht]
  | false =>
      rw [andThen_of_not_ended ht, andThen_of_not_ended ht]
      cases hu : u.ended with
      | true => rw [andThen_of_ended rfl, andThen_of_ended hu, hu]
      | false => rw [andThen_of_not_ended rfl, andThen_of_not_ended hu, List.append_assoc]

theorem mem_events_andThen {e : ε} :
    e ∈ (t.andThen u).events ↔ e ∈ t.events ∨ (t.ended = false ∧ e ∈ u.events) := by
  rw [events_andThen, List.mem_append]
  cases t.ended <;> simp

/-- What holds of the events of both parts holds of all events. -/
theorem forall_andThen {P : ε → Prop} (ht : ∀ e ∈ t.events, P e) (hu : ∀ e ∈ u.events, P e) :
    ∀ e ∈ (t.andThen u).events, P e := by
  intro e hmem
  rcases mem_events_andThen.mp hmem with h | ⟨-, h⟩
  · exact ht e h
  · exact hu e h

theorem ended_andThen_eq_false :
    (t.andThen u).ended = false ↔ t.ended = false ∧ u.ended = false := by
  rw [ended_andThen, Bool.or_eq_false_iff]

end Trace

end EDDTs.Library
