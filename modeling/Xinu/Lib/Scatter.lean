import Xinu.Lib.ByteMemory
import Mathlib.Data.List.Range

/-!
# Data that is spread over buffers

Buffers are addresses with sizes. Their places in order are filled from the first one on with the
bytes of some data, and what is at no place of a buffer stays as it is.
-/

namespace Xinu.Lib.Scatter

open Xinu.Lib.ByteMemory (Memory)

set_option autoImplicit false

/-- The places of buffers -/
def cells (bufs : List (Nat × Nat)) : List Nat := bufs.flatMap fun buf => List.range' buf.1 buf.2

/-- The first places hold the first bytes. -/
structure Filled (before after : Memory) (places : List Nat) (data : List UInt8) (count : Nat) :
    Prop where
  holds : ∀ (k place : Nat) (byte : UInt8), k < count → places[k]? = some place →
    data[k]? = some byte → after place = byte
  others : ∀ place, place ∉ places → after place = before place

variable {before after : Memory} {places : List Nat} {data : List UInt8} {count : Nat}
  {front back : List (Nat × Nat)} {buf : Nat × Nat}

theorem cells_append : cells (front ++ back) = cells front ++ cells back := List.flatMap_append

theorem cells_snoc : (cells (front ++ [buf])).length = (cells front).length + buf.2 := by
  simp [cells]

theorem cell_at {used : Nat} (inside : used < buf.2) :
    (cells (front ++ buf :: back))[(cells front).length + used]? = some (buf.1 + used) := by
  have first : (List.range' buf.1 buf.2)[used]? = some (buf.1 + used) := by
    rw [List.getElem?_range' inside, Nat.one_mul]
  have here : cells (buf :: back) = List.range' buf.1 buf.2 ++ cells back := rfl
  rw [cells_append, List.getElem?_append_right (Nat.le_add_right _ _), Nat.add_sub_cancel_left, here,
    List.getElem?_append_left (by rwa [List.length_range'])]
  exact first

theorem filled_start (before : Memory) (places : List Nat) (data : List UInt8) :
    Filled before before places data 0 :=
  ⟨fun _ _ _ none => absurd none (Nat.not_lt_zero _), fun _ _ => rfl⟩

/-- One more byte at the next place, which is no place in front of it -/
theorem filled_next {place : Nat} {byte : UInt8} (apart : places.Nodup)
    (filled : Filled before after places data count) (at_ : places[count]? = some place)
    (next : data[count]? = some byte) :
    Filled before (Function.update after place byte) places data (count + 1) := by
  have member := List.mem_of_getElem? at_
  refine ⟨?_, ?_⟩
  · intro k other value bound atOther atValue
    by_cases last : k = count
    · subst last
      cases at_.symm.trans atOther
      cases next.symm.trans atValue
      exact Function.update_self _ _ _
    · have different : other ≠ place := by
        rintro rfl
        have bounds := (List.getElem?_eq_some_iff.mp atOther).1
        exact last ((List.getElem?_inj bounds apart).mp (atOther.trans at_.symm))
      rw [Function.update_of_ne different]
      exact filled.holds k other value (by omega) atOther atValue
  · intro other outside
    have different : other ≠ place := fun same => outside (same ▸ member)
    rw [Function.update_of_ne different]
    exact filled.others other outside

end Xinu.Lib.Scatter
