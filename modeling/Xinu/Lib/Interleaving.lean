import Mathlib.Tactic.Common

/-!
# Interleaved runs

A system takes one event at a time. `allowed` says which events may be taken in a state,
and an event that the system cannot take in a state has no successor.
-/

namespace Xinu.Lib.Interleaving

set_option autoImplicit false

universe u v

variable {State : Type u} {Event : Type v}

inductive Reached (act : State → Event → Option State) (start : State → Prop)
    (allowed : State → Event → Prop) : State → Prop
  | start {x : State} (started : start x) : Reached act start allowed x
  | step {x y : State} {event : Event} (run : Reached act start allowed x)
      (may : allowed x event) (did : act x event = some y) : Reached act start allowed y

variable {act : State → Event → Option State} {start : State → Prop}
  {allowed : State → Event → Prop}

/-- What holds at the start and what every allowed event keeps holds in every state reached. -/
theorem reached_invariant {holds : State → Prop} {x : State}
    (run : Reached act start allowed x) (initially : ∀ x, start x → holds x)
    (keeps : ∀ x y event, holds x → allowed x event → act x event = some y → holds y) :
    holds x := by
  induction run with
  | start started => exact initially _ started
  | step _ may did induction => exact keeps _ _ _ induction may did

theorem reached_weaken {allowed' : State → Event → Prop} {x : State}
    (weaker : ∀ x event, allowed x event → allowed' x event)
    (run : Reached act start allowed x) : Reached act start allowed' x := by
  induction run with
  | start started => exact .start started
  | step _ may did induction => exact .step induction (weaker _ _ may) did

/-- Events one after the other, as long as each of them is allowed and can be taken. -/
def takeEvents (act : State → Event → Option State) (allowed : State → Event → Prop)
    [∀ x event, Decidable (allowed x event)] : List Event → State → Option State
  | [], x => some x
  | event :: rest, x =>
      if allowed x event then (act x event).bind (takeEvents act allowed rest) else none

theorem take_events [∀ x event, Decidable (allowed x event)] {events : List Event} {x y : State}
    (run : Reached act start allowed x) (took : takeEvents act allowed events x = some y) :
    Reached act start allowed y := by
  induction events generalizing x with
  | nil =>
      cases took
      exact run
  | cons event rest induction =>
      unfold takeEvents at took
      split at took
      · rename_i may
        obtain ⟨middle, did, took⟩ := Option.bind_eq_some_iff.mp took
        exact induction (.step run may did) took
      · cases took

/-- A run that ends in a state with a property that can be decided. -/
theorem take_events_end [∀ x event, Decidable (allowed x event)] {events : List Event} {x : State}
    {holds : State → Prop} [DecidablePred holds] (run : Reached act start allowed x)
    (ends : (takeEvents act allowed events x).any (fun y => decide (holds y)) = true) :
    ∃ y, Reached act start allowed y ∧ holds y := by
  cases took : takeEvents act allowed events x with
  | none =>
      rw [took] at ends
      cases ends
  | some y =>
      rw [took] at ends
      exact ⟨y, take_events run took, of_decide_eq_true ends⟩

end Xinu.Lib.Interleaving
