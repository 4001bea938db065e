import Xinu.Lib.StateError

/-!
# Saved masks

A processor has a mask beside the state of its machine. A call saves the mask and clears it, and is
expected to restore what it has saved on each of its exits. `Leaves` says of the rest of a call that
wherever it returns, the mask is a given one; nothing in front of the last `restore` matters for it.
-/

namespace Xinu.Lib.Masks

open Xinu.Lib.StateError

set_option autoImplicit false

section Definitions

structure Cpu (S : Type) where
  mask : Bool
  machine : S

/-- The processor has stopped for good. -/
inductive Halt where
  | halted
  deriving DecidableEq

abbrev Call (S α : Type) := EStateM Halt (Cpu S) α

variable {S α : Type}

def disable : Call S Bool := fun c => .ok c.mask { c with mask := false }

def restore (mask : Bool) : Call S PUnit := modify fun c => { c with mask := mask }

def halt : Call S α := throw .halted

def getMachine : Call S S := fun c => .ok c.machine c

def change (f : S → S) : Call S PUnit := modify fun c => { c with machine := f c.machine }

/-- Something that happens outside of the call, with what it returns -/
def outcome (f : S → α × S) : Call S α :=
  fun c => .ok (f c.machine).1 { c with machine := (f c.machine).2 }

/-- An exit: the mask is restored, and the call returns. -/
def leave (mask : Bool) (value : α) : Call S α := do
  restore mask
  return value

/-- Every run that returns does so with a mask. -/
def Leaves (mask : Bool) (call : Call S α) : Prop :=
  ∀ c value final, call c = .ok value final → final.mask = mask

/-- A call returns with the mask that it was called with, from a state. -/
def RestoresFrom (c : Cpu S) (call : Call S α) : Prop :=
  ∀ value final, call c = .ok value final → final.mask = c.mask

end Definitions

section Rules

variable {S α β : Type} {mask : Bool}

/-- The mask counts at the end only. -/
theorem leaves_bind {first : Call S α} {next : α → Call S β}
    (leaves : ∀ value, Leaves mask (next value)) : Leaves mask (first >>= next) := by
  intro c result final ran
  obtain ⟨value, middle, -, ran⟩ := bind_ok_inv ran
  exact leaves value middle result final ran

/-- Where only some values come back, the others do not matter. -/
theorem leaves_bind_of {first : Call S α} {next : α → Call S β} {may : α → Prop}
    (gives : ∀ c value final, first c = .ok value final → may value)
    (leaves : ∀ value, may value → Leaves mask (next value)) : Leaves mask (first >>= next) := by
  intro c result final ran
  obtain ⟨value, middle, came, ran⟩ := bind_ok_inv ran
  exact leaves value (gives c value middle came) middle result final ran

theorem leaves_ite {condition : Prop} [Decidable condition] {yes no : Call S α}
    (leavesYes : Leaves mask yes) (leavesNo : Leaves mask no) :
    Leaves mask (if condition then yes else no) := by
  split
  · exact leavesYes
  · exact leavesNo

theorem leaves_leave (mask : Bool) (value : α) : Leaves mask (leave mask value : Call S α) := by
  rintro c result final ⟨⟩
  rfl

theorem disable_bind (next : Bool → Call S β) (c : Cpu S) :
    (disable >>= next) c = next c.mask { c with mask := false } := rfl

theorem get_machine_bind (next : S → Call S β) (c : Cpu S) :
    (getMachine >>= next) c = next c.machine c := rfl

theorem change_bind (f : S → S) (next : PUnit → Call S β) (c : Cpu S) :
    (change f >>= next) c = next () { c with machine := f c.machine } := rfl

theorem outcome_bind (f : S → α × S) (next : α → Call S β) (c : Cpu S) :
    (outcome f >>= next) c = next (f c.machine).1 { c with machine := (f c.machine).2 } := rfl

/-- A call that saves the mask, and leaves it on every exit, restores it. -/
theorem returns_disable {next : Bool → Call S α} (leaves : ∀ mask, Leaves mask (next mask)) :
    Returns Cpu.mask (disable >>= next) := by
  intro c value final ran
  rw [disable_bind] at ran
  exact leaves c.mask _ value final ran

theorem returns_get_machine : Returns Cpu.mask (getMachine : Call S S) := by
  rintro c value final ⟨⟩
  rfl

theorem returns_change (f : S → S) : Returns Cpu.mask (change f) := returns_modify fun _ => rfl

theorem returns_outcome (f : S → α × S) : Returns Cpu.mask (outcome f) := by
  rintro c value final ⟨⟩
  rfl

theorem returns_halt : Returns Cpu.mask (halt : Call S α) := returns_throw _

end Rules

end Xinu.Lib.Masks
