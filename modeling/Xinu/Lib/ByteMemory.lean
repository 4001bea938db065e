import Mathlib.Data.List.Basic
import Mathlib.Tactic.Common

/-!
# Words in a memory of bytes

A memory has a byte at each address. A word is four bytes, the lowest first. Copies, stores of words
and the pushes of a stack that grows downwards, with what each of them leaves as it is.
-/

namespace Xinu.Lib.ByteMemory

set_option autoImplicit false

abbrev Memory := Nat → UInt8

variable (mem : Memory) (place : Nat)

def copy (bytes : List UInt8) : Memory :=
  fun x => if place ≤ x then (bytes[x - place]?).getD (mem x) else mem x

def bytesOf (value : Nat) : List UInt8 :=
  [UInt8.ofNat value, UInt8.ofNat (value / 256), UInt8.ofNat (value / 65536),
    UInt8.ofNat (value / 16777216)]

def store (value : Nat) : Memory := copy mem place (bytesOf value)

def load : Nat :=
  (mem place).toNat + 256 * (mem (place + 1)).toNat + 65536 * (mem (place + 2)).toNat +
    16777216 * (mem (place + 3)).toNat

def storeWords : Memory → Nat → List Nat → Memory
  | mem, _, [] => mem
  | mem, place, value :: values => storeWords (store mem place value) (place + 4) values

/-- Each value goes below the one in front of it, the first below `sp`. -/
def pushWords : Memory → Nat → List Nat → Memory × Nat
  | mem, sp, [] => (mem, sp)
  | mem, sp, value :: values => pushWords (store mem (sp - 4) value) (sp - 4) values

def HoldsBytes (bytes : List UInt8) : Prop := ∀ i byte, bytes[i]? = some byte → mem (place + i) = byte

section Copies

variable {mem mem' : Memory} {place x : Nat} {bytes more : List UInt8} {value : Nat}

theorem copy_outside (outside : x < place ∨ place + bytes.length ≤ x) :
    copy mem place bytes x = mem x := by
  unfold copy
  split
  · rw [List.getElem?_eq_none (by omega)]
    rfl
  · rfl

theorem copy_holds : HoldsBytes (copy mem place bytes) place bytes := by
  intro i byte at_
  unfold copy
  rw [if_pos (Nat.le_add_right place i), Nat.add_sub_cancel_left, at_]
  rfl

theorem holds_congr (holds : HoldsBytes mem place bytes)
    (same : ∀ x, place ≤ x → x < place + bytes.length → mem' x = mem x) :
    HoldsBytes mem' place bytes := by
  intro i byte at_
  have bound := (List.getElem?_eq_some_iff.mp at_).1
  rw [same _ (Nat.le_add_right _ _) (by omega)]
  exact holds i byte at_

/-- A part of what is held, from an offset on -/
theorem holds_part {offset : Nat} (holds : HoldsBytes mem place bytes)
    (part : more <+: bytes.drop offset) : HoldsBytes mem (place + offset) more := by
  intro i byte at_
  obtain ⟨rest, same⟩ := part
  have bound := (List.getElem?_eq_some_iff.mp at_).1
  have here : bytes[offset + i]? = some byte := by
    rw [← List.getElem?_drop, ← same, List.getElem?_append_left bound]
    exact at_
  rw [Nat.add_assoc]
  exact holds _ _ here

theorem store_outside (outside : x < place ∨ place + 4 ≤ x) : store mem place value x = mem x :=
  copy_outside outside

theorem load_congr (same : ∀ x, place ≤ x → x < place + 4 → mem' x = mem x) :
    load mem' place = load mem place := by
  unfold load
  rw [same place (by omega) (by omega), same (place + 1) (by omega) (by omega),
    same (place + 2) (by omega) (by omega), same (place + 3) (by omega) (by omega)]

theorem load_store (small : value < 4294967296) : load (store mem place value) place = value := by
  have holds : HoldsBytes (store mem place value) place (bytesOf value) := copy_holds
  unfold load
  rw [holds 1 _ rfl, holds 2 _ rfl, holds 3 _ rfl]
  have first : store mem place value place = UInt8.ofNat value := holds 0 _ rfl
  rw [first]
  simp only [UInt8.toNat_ofNat']
  omega

theorem load_store_apart {other : Nat} (apart : other + 4 ≤ place ∨ place + 4 ≤ other) :
    load (store mem place value) other = load mem other :=
  load_congr fun _ _ _ => store_outside (by omega)

end Copies

section Words

variable {x : Nat}

theorem store_words_outside (mem : Memory) (place : Nat) (values : List Nat)
    (outside : x < place ∨ place + 4 * values.length ≤ x) : storeWords mem place values x = mem x := by
  induction values generalizing mem place with
  | nil => rfl
  | cons value values induction =>
      rw [List.length_cons] at outside
      rw [storeWords, induction _ _ (by omega)]
      exact store_outside (by omega)

theorem load_store_words (mem : Memory) (place : Nat) {values : List Nat} {i value : Nat}
    (at_ : values[i]? = some value) (small : value < 4294967296) :
    load (storeWords mem place values) (place + 4 * i) = value := by
  induction values generalizing mem place i with
  | nil => cases at_
  | cons first values induction =>
      rw [storeWords]
      cases i with
      | zero =>
          cases at_
          refine Eq.trans (load_congr fun x _ _ => ?_) (@load_store mem place _ small)
          exact store_words_outside _ _ _ (Or.inl (by omega))
      | succ i =>
          rw [← induction (store mem place first) (place + 4) at_]
          congr 1
          omega

theorem push_words (mem : Memory) (sp : Nat) (values : List Nat)
    (room : 4 * values.length ≤ sp) (small : ∀ value ∈ values, value < 4294967296) :
    (pushWords mem sp values).2 = sp - 4 * values.length ∧
      (∀ i value, values[i]? = some value →
        load (pushWords mem sp values).1 (sp - 4 * (i + 1)) = value) ∧
      ∀ x, x < sp - 4 * values.length ∨ sp ≤ x → (pushWords mem sp values).1 x = mem x := by
  induction values generalizing mem sp with
  | nil => exact ⟨rfl, fun _ _ none => (by cases none), fun _ _ => rfl⟩
  | cons value values induction =>
      rw [List.length_cons] at room
      obtain ⟨pointer, words, others⟩ := induction (store mem (sp - 4) value) (sp - 4) (by omega)
        fun other member => small other (List.mem_cons_of_mem _ member)
      rw [pushWords, List.length_cons]
      refine ⟨by omega, ?_, ?_⟩
      · intro i word at_
        cases i with
        | zero =>
            cases at_
            have kept : ∀ x, sp - 4 ≤ x → x < sp - 4 + 4 →
                (pushWords (store mem (sp - 4) value) (sp - 4) values).1 x =
                  store mem (sp - 4) value x := fun x low _ => others x (Or.inr low)
            rw [Nat.zero_add, Nat.mul_one, load_congr kept, load_store (small _ List.mem_cons_self)]
        | succ i =>
            have bound := (List.getElem?_eq_some_iff.mp at_).1
            have word := words i word at_
            rw [show sp - 4 * (i + 1 + 1) = sp - 4 - 4 * (i + 1) by omega]
            exact word
      · intro x outside
        rw [others x (by omega)]
        exact store_outside (by omega)

end Words

end Xinu.Lib.ByteMemory
