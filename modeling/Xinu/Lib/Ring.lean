import Mathlib.Data.Nat.ModEq
import Mathlib.Data.List.Basic

/-!
# Circular queues

A queue in an array that is used in a circle: an index to the first element, and the number of
elements. Putting one at the end and taking the first one are seen on the list of elements.
-/

namespace Xinu.Lib.Ring

set_option autoImplicit false

universe u

variable {α : Type u} {size head count : Nat} {cells : Nat → α}

/-- The index behind another one. -/
def advance (size i : Nat) : Nat := if size ≤ i + 1 then 0 else i + 1

/-- The index before another one. -/
def retreat (size i : Nat) : Nat := if i = 0 then size - 1 else i - 1

def elements (size : Nat) (cells : Nat → α) (head count : Nat) : List α :=
  (List.range count).map fun i => cells ((head + i) % size)

theorem advance_lt (here : head < size) : advance size head < size := by
  unfold advance
  split_ifs <;> omega

theorem advance_mod (here : head < size) : advance size head = (head + 1) % size := by
  unfold advance
  split_ifs with last
  · have same : head + 1 = size := by omega
    rw [same, Nat.mod_self]
  · rw [Nat.mod_eq_of_lt (by omega)]

theorem retreat_advance (here : head < size) : retreat size (advance size head) = head := by
  unfold retreat advance
  by_cases last : size ≤ head + 1
  · rw [if_pos last, if_pos rfl]
    omega
  · rw [if_neg last, if_neg (Nat.succ_ne_zero head), Nat.add_sub_cancel]

@[simp] theorem elements_zero : elements size cells head 0 = [] := rfl

theorem elements_length : (elements size cells head count).length = count := by
  simp [elements]

/-- Two places of the queue are different when it has room. -/
theorem places_differ {i j : Nat} (less : i < j) (near : j < i + size) :
    (head + i) % size ≠ (head + j) % size := by
  intro same
  have congruent : i ≡ j [MOD size] := Nat.ModEq.add_left_cancel' head same
  have divides := (Nat.modEq_iff_dvd' (Nat.le_of_lt less)).mp congruent
  have large := Nat.le_of_dvd (by omega) divides
  omega

/-- An element is put behind the last one. -/
theorem elements_push (room : count < size) (value : α) :
    elements size (Function.update cells ((head + count) % size) value) head (count + 1) =
      elements size cells head count ++ [value] := by
  unfold elements
  rw [List.range_succ, List.map_append]
  congr 1
  · refine List.map_congr_left fun i member => ?_
    have inside := List.mem_range.mp member
    rw [Function.update_of_ne (places_differ inside (by omega))]
  · simp

theorem elements_last :
    elements size cells head (count + 1) =
      elements size cells head count ++ [cells ((head + count) % size)] := by
  simp [elements, List.range_succ]

/-- The first element is taken. -/
theorem elements_pop (here : head < size) :
    elements size cells head (count + 1) =
      cells head :: elements size cells (advance size head) count := by
  unfold elements
  rw [List.range_succ_eq_map, List.map_cons, List.map_map, Nat.add_zero, Nat.mod_eq_of_lt here]
  congr 1
  refine List.map_congr_left fun i _ => ?_
  simp only [Function.comp_apply]
  rw [advance_mod here, Nat.mod_add_mod]
  congr 2
  omega

/-- A queue of at most `size` elements, with what was ever put into it and what has left it. -/
structure Fifo (size : Nat) (cells : Nat → α) (head tail count : Nat) (entered left : List α) :
    Prop where
  bounded : count ≤ size
  inside : head < size
  last : tail = (head + count) % size
  order : entered = left ++ elements size cells head count

section Fifo

variable {tail : Nat} {entered left : List α}

theorem fifo_start (positive : 0 < size) : Fifo size cells 0 0 0 [] [] :=
  ⟨Nat.zero_le _, positive, rfl, rfl⟩

theorem Fifo.tail_lt (fifo : Fifo size cells head tail count entered left) : tail < size := by
  rw [fifo.last]
  exact Nat.mod_lt _ (Nat.zero_lt_of_lt fifo.inside)

theorem Fifo.push (fifo : Fifo size cells head tail count entered left) (room : count < size)
    (value : α) : Fifo size (Function.update cells tail value) head (advance size tail) (count + 1)
      (entered ++ [value]) left := by
  refine ⟨room, fifo.inside, ?_, ?_⟩
  · rw [advance_mod fifo.tail_lt, fifo.last, Nat.mod_add_mod, Nat.add_assoc]
  · rw [fifo.last, elements_push room, fifo.order, List.append_assoc]

theorem Fifo.pop (fifo : Fifo size cells head tail (count + 1) entered left) :
    Fifo size cells (advance size head) tail count entered (left ++ [cells head]) := by
  refine ⟨Nat.le_of_succ_le fifo.bounded, advance_lt fifo.inside, ?_, ?_⟩
  · rw [fifo.last, advance_mod fifo.inside, Nat.mod_add_mod, Nat.add_assoc, Nat.add_comm count]
  · rw [fifo.order, elements_pop fifo.inside, List.append_assoc]
    rfl

/-- The last element is taken back. -/
theorem Fifo.unpush (fifo : Fifo size cells head tail (count + 1) entered left) :
    Fifo size cells head (retreat size tail) count entered.dropLast left := by
  have here : (head + count) % size < size := Nat.mod_lt _ (Nat.zero_lt_of_lt fifo.inside)
  have next : tail = advance size ((head + count) % size) := by
    rw [advance_mod here, Nat.mod_add_mod, fifo.last, Nat.add_assoc]
  refine ⟨Nat.le_of_succ_le fifo.bounded, fifo.inside, ?_, ?_⟩
  · rw [next, retreat_advance here]
  · rw [fifo.order, elements_last, ← List.append_assoc, List.dropLast_concat]

/-- The last elements are taken back, where they do not lie on both ends of the array. -/
theorem Fifo.unpush_many {times : Nat} (fifo : Fifo size cells head tail count entered left)
    (some_left : times ≤ count) (straight : times ≤ tail) :
    Fifo size cells head (tail - times) (count - times) (entered.take (entered.length - times))
      left := by
  induction times generalizing tail count entered with
  | zero => simpa using fifo
  | succ times induction =>
      obtain ⟨fewer, rfl⟩ : ∃ fewer, count = fewer + 1 := ⟨count - 1, by omega⟩
      have back : retreat size tail = tail - 1 := if_neg (by omega)
      have shorter := fifo.unpush
      rw [back] at shorter
      have rest := induction shorter (by omega) (by omega)
      have same : (entered.dropLast).take (entered.dropLast.length - times) =
          entered.take (entered.length - (times + 1)) := by
        rw [List.dropLast_eq_take, List.take_take, List.length_take]
        congr 1
        omega
      rw [same] at rest
      convert rest using 1 <;> omega

theorem Fifo.lengths (fifo : Fifo size cells head tail count entered left) :
    entered.length = left.length + count := by
  rw [fifo.order, List.length_append, elements_length]

end Fifo

end Xinu.Lib.Ring
