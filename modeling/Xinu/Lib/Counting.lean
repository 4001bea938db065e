import Mathlib.Data.Finset.Card
import Mathlib.Tactic.Common

/-!
# Counting below a bound

The number of indices below `n` with a property, and how it moves when the property
changes at one index.
-/

namespace Xinu.Lib.Counting

set_option autoImplicit false

def count (n : Nat) (p : Nat → Bool) : Nat :=
  ((Finset.range n).filter fun i => p i = true).card

variable {n index : Nat} {p q : Nat → Bool}

theorem count_congr (same : ∀ i < n, q i = p i) : count n q = count n p := by
  unfold count
  congr 1
  apply Finset.filter_congr
  intro i member
  rw [same i (Finset.mem_range.mp member)]

theorem count_zero : count n p = 0 ↔ ∀ i < n, p i = false := by
  unfold count
  rw [Finset.card_eq_zero, Finset.filter_eq_empty_iff]
  simp only [Finset.mem_range, Bool.not_eq_true]

theorem count_bound : count n p ≤ n := by
  have bound := Finset.card_filter_le (Finset.range n) fun i => p i = true
  rwa [Finset.card_range] at bound

theorem count_le (grown : ∀ i < n, p i = true → q i = true) : count n p ≤ count n q := by
  apply Finset.card_le_card
  intro i member
  simp only [Finset.mem_filter, Finset.mem_range] at member ⊢
  exact ⟨member.1, grown i member.1 member.2⟩

theorem count_all (all : ∀ i < n, p i = true) : count n p = n := by
  unfold count
  rw [Finset.filter_true_of_mem, Finset.card_range]
  intro i member
  exact all i (Finset.mem_range.mp member)

theorem count_clear (bound : index < n) (was : p index = true) (now : q index = false)
    (others : ∀ i < n, i ≠ index → q i = p i) : count n q + 1 = count n p := by
  have member : index ∈ (Finset.range n).filter fun i => p i = true := by
    simp [bound, was]
  have erased : ((Finset.range n).filter fun i => q i = true) =
      ((Finset.range n).filter fun i => p i = true).erase index := by
    ext i
    by_cases here : i = index
    · simp [here, now]
    · simp only [Finset.mem_filter, Finset.mem_range, Finset.mem_erase]
      exact ⟨fun held => ⟨here, held.1, others i held.1 here ▸ held.2⟩,
        fun held => ⟨held.2.1, (others i held.2.1 here).trans held.2.2⟩⟩
  unfold count
  rw [erased, Finset.card_erase_add_one member]

theorem count_set (bound : index < n) (was : p index = false) (now : q index = true)
    (others : ∀ i < n, i ≠ index → q i = p i) : count n q = count n p + 1 :=
  (count_clear bound now was fun i inside different => (others i inside different).symm).symm

theorem exists_of_count (some : 0 < count n p) : ∃ i < n, p i = true := by
  by_contra none
  have zero : count n p = 0 := by
    rw [count_zero]
    intro i bound
    by_contra holds
    exact none ⟨i, bound, by simpa using holds⟩
  omega

end Xinu.Lib.Counting
