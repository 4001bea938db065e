import Mathlib.Tactic.Common

/-!
# Bit fields of a machine word

A C bit field of `len` bits at offset `lo` is read with `field` and written with
`setField`. The two laws are the usual ones: a field reads back what was written
to it, and a write leaves every disjoint field alone. Bytes of a word are the
eight-bit fields at the multiples of eight.
-/

namespace Xinu.Lib.BitField

set_option autoImplicit false

variable {width : Nat}

def field (word : BitVec width) (lo len : Nat) : BitVec len := word.extractLsb' lo len

def setField {len : Nat} (word : BitVec width) (lo : Nat) (value : BitVec len) : BitVec width :=
  (word &&& ~~~((BitVec.allOnes len).setWidth width <<< lo)) ||| (value.setWidth width <<< lo)

theorem bit_set_field {len : Nat} (word : BitVec width) (lo : Nat) (value : BitVec len)
    (index : Nat) (bound : index < width) :
    (setField word lo value).getLsbD index =
      if lo ≤ index ∧ index < lo + len then value.getLsbD (index - lo)
      else word.getLsbD index := by
  unfold setField
  simp only [BitVec.getLsbD_or, BitVec.getLsbD_and, BitVec.getLsbD_not, BitVec.getLsbD_shiftLeft,
    BitVec.getLsbD_setWidth, BitVec.getLsbD_allOnes, bound, decide_true, Bool.true_and]
  by_cases low : index < lo
  · have outside : ¬(lo ≤ index ∧ index < lo + len) := by omega
    simp [low, outside]
  · have shifted : index - lo < width := by omega
    by_cases high : index < lo + len
    · have inside : lo ≤ index ∧ index < lo + len := by omega
      have offset : index - lo < len := by omega
      simp [low, inside, shifted, offset]
    · have outside : ¬(lo ≤ index ∧ index < lo + len) := by omega
      have offset : ¬index - lo < len := by omega
      have past : value.getLsbD (index - lo) = false :=
        BitVec.getLsbD_of_ge value (index - lo) (by omega)
      simp [low, outside, shifted, offset, past]

theorem field_set_field {len : Nat} (word : BitVec width) (lo : Nat) (value : BitVec len)
    (inside : lo + len ≤ width) : field (setField word lo value) lo len = value := by
  apply BitVec.eq_of_getLsbD_eq
  intro index bound
  unfold field
  rw [BitVec.getLsbD_extractLsb', bit_set_field word lo value (lo + index) (by omega)]
  have within : lo ≤ lo + index ∧ lo + index < lo + len := by omega
  simp [within, bound]

theorem field_set_field_disjoint {len : Nat} (word : BitVec width) (lo : Nat) (value : BitVec len)
    (otherLo otherLen : Nat) (inside : otherLo + otherLen ≤ width)
    (disjoint : otherLo + otherLen ≤ lo ∨ lo + len ≤ otherLo) :
    field (setField word lo value) otherLo otherLen = field word otherLo otherLen := by
  apply BitVec.eq_of_getLsbD_eq
  intro index bound
  unfold field
  rw [BitVec.getLsbD_extractLsb', BitVec.getLsbD_extractLsb',
    bit_set_field word lo value (otherLo + index) (by omega)]
  have outside : ¬(lo ≤ otherLo + index ∧ otherLo + index < lo + len) := by omega
  rw [if_neg outside]

/-- A single bit read as a one-bit field. -/
theorem bit_of_set_bit (word : BitVec width) (lo : Nat) (value : Bool) (bound : lo < width) :
    (setField word lo (BitVec.ofBool value)).getLsbD lo = value := by
  rw [bit_set_field word lo _ lo bound]
  simp

theorem bit_of_set_field_disjoint {len : Nat} (word : BitVec width) (lo : Nat) (value : BitVec len)
    (index : Nat) (bound : index < width) (disjoint : index < lo ∨ lo + len ≤ index) :
    (setField word lo value).getLsbD index = word.getLsbD index := by
  rw [bit_set_field word lo value index bound, if_neg (by omega)]

theorem bit_of_set_field_inside {len : Nat} (word : BitVec width) (lo : Nat) (value : BitVec len)
    (index : Nat) (bound : index < width) (above : lo ≤ index) (below : index < lo + len) :
    (setField word lo value).getLsbD index = value.getLsbD (index - lo) := by
  rw [bit_set_field word lo value index bound, if_pos ⟨above, below⟩]

end Xinu.Lib.BitField
