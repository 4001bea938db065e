import Mathlib.Algebra.GroupWithZero.Nat
import Mathlib.Data.List.Basic
import Mathlib.Tactic.Common

/-!
# Ones'-complement sums

Sums of 16-bit words in which a carry out of the highest place is added to the lowest one, and the
checksum of a string of bytes that is made with them. A sum is known from the sum of the words as
natural numbers.
-/

namespace Xinu.Lib.OnesComplement

set_option autoImplicit false

section Sums

/-- The addition with its carry around the end -/
def addCarry (a b : Nat) : Nat := if 65536 ≤ a + b then a + b - 65535 else a + b

def onesSum (ws : List Nat) : Nat := ws.foldl addCarry 0

/-- A sum of natural numbers with all of its carries put back -/
def settled (total : Nat) : Nat := if total = 0 then 0 else (total - 1) % 65535 + 1

/-- One carry settles a sum. -/
def CarriesOnce (total : Nat) : Prop := total / 65536 + total % 65536 < 65536

instance : DecidablePred CarriesOnce := fun _ => inferInstanceAs (Decidable (_ < _))

variable {total w : Nat} {ws : List Nat}

theorem add_carry_settled (small : w < 65536) :
    addCarry (settled total) w = settled (total + w) := by
  unfold addCarry settled
  split_ifs <;> omega

theorem foldl_settled (small : ∀ w ∈ ws, w < 65536) :
    ws.foldl addCarry (settled total) = settled (total + ws.sum) := by
  induction ws generalizing total with
  | nil => rfl
  | cons w rest induction =>
      have here := small w List.mem_cons_self
      rw [List.foldl_cons, add_carry_settled here,
        induction fun v member => small v (List.mem_cons_of_mem w member), List.sum_cons,
        Nat.add_assoc]

theorem ones_sum_settled (small : ∀ w ∈ ws, w < 65536) : onesSum ws = settled ws.sum := by
  have folded := @foldl_settled 0 ws small
  rwa [Nat.zero_add] at folded

/-- Where one carry settles a sum, it is the sum of its halves. -/
theorem settled_once (once : CarriesOnce total) : settled total = total / 65536 + total % 65536 := by
  unfold CarriesOnce at once
  unfold settled
  split_ifs <;> omega

/-- A second carry is one more to add. -/
theorem settled_twice (twice : ¬CarriesOnce total) (bounded : total < 4294967296) :
    settled total = total / 65536 + total % 65536 - 65535 := by
  unfold CarriesOnce at twice
  unfold settled
  split_ifs <;> omega

end Sums

section Words

/-- The 16-bit words of a string of bytes, with the first byte high. A last byte without a partner
is padded on the right. -/
def words : List UInt8 → List Nat
  | [] => []
  | [byte] => [byte.toNat * 256]
  | high :: low :: rest => (high.toNat * 256 + low.toNat) :: words rest

/-- The Internet checksum of a string of bytes -/
def checksum (bytes : List UInt8) : Nat := 65535 - onesSum (words bytes)

theorem words_lt (bytes : List UInt8) : ∀ w ∈ words bytes, w < 65536 := by
  induction bytes using words.induct with
  | case1 => nofun
  | case2 byte =>
      intro w member
      have small := byte.toNat_lt
      obtain rfl := List.mem_singleton.mp member
      omega
  | case3 high low rest induction =>
      intro w member
      have first := high.toNat_lt
      have second := low.toNat_lt
      rcases List.mem_cons.mp member with rfl | member
      · omega
      · exact induction w member

theorem sum_words (bytes : List UInt8) : onesSum (words bytes) = settled (words bytes).sum :=
  ones_sum_settled (words_lt bytes)

theorem words_append {front : List UInt8} (even : front.length % 2 = 0) (back : List UInt8) :
    words (front ++ back) = words front ++ words back := by
  induction front using words.induct with
  | case1 => rfl
  | case2 byte => exact absurd even (by simp)
  | case3 high low rest induction =>
      have shorter : rest.length % 2 = 0 := by
        rw [List.length_cons, List.length_cons] at even
        omega
      change _ :: words (rest ++ back) = _ :: (words rest ++ words back)
      rw [induction shorter]

variable (buffer : Nat → UInt8)

theorem words_even (count : Nat) : words ((List.range (2 * count)).map buffer) =
    (List.range count).map fun i =>
      (buffer (2 * i)).toNat * 256 + (buffer (2 * i + 1)).toNat := by
  induction count with
  | zero => rfl
  | succ count induction =>
      rw [Nat.mul_add, List.range_succ, List.range_succ, List.map_append, List.map_append,
        List.append_assoc, words_append (by simp), induction, List.range_succ, List.map_append]
      rfl

theorem words_odd (count : Nat) : words ((List.range (2 * count + 1)).map buffer) =
    ((List.range count).map fun i =>
      (buffer (2 * i)).toNat * 256 + (buffer (2 * i + 1)).toNat) ++
        [(buffer (2 * count)).toNat * 256] := by
  rw [List.range_succ, List.map_append, words_append (by simp), words_even]
  rfl

end Words

end Xinu.Lib.OnesComplement
