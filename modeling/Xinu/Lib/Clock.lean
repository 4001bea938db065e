import Mathlib.Tactic.Common
import Mathlib.Logic.Function.Basic

/-!
# The clock algorithm

A hand goes round over `n` slots. A slot without a class is passed over; a slot of
class zero is chosen; any other slot loses one class when the hand passes it. The
score of a slot is the number of turns before the hand would choose it if it met no
other. A scan with enough fuel chooses the slot with the smallest score.
-/

namespace Xinu.Lib.Clock

set_option autoImplicit false

variable {n : Nat} {classes : Nat → Option Nat} {hand slot k : Nat}

/-- How far the hand is away from a slot. -/
def distance (n hand slot : Nat) : Nat := (slot + n - hand % n) % n

def Scores (n : Nat) (classes : Nat → Option Nat) (hand slot k : Nat) : Prop :=
  slot < n ∧ ∃ c, classes slot = some c ∧ k = c * n + distance n hand slot

/-- The hand passes a slot. -/
def pass (classes : Nat → Option Nat) (slot : Nat) : Nat → Option Nat :=
  Function.update classes slot ((classes slot).map Nat.pred)

/-- The scan with at most `fuel` turns. -/
def scan (n : Nat) : Nat → (Nat → Option Nat) → Nat → Option Nat
  | 0, _, _ => none
  | fuel + 1, classes, hand =>
      if classes (hand % n) = some 0 then some (hand % n)
      else scan n fuel (pass classes (hand % n)) (hand % n + 1)

theorem distance_eq (bound : slot < n) :
    distance n hand slot =
      if hand % n ≤ slot then slot - hand % n else slot + n - hand % n := by
  have handBound := Nat.mod_lt hand (show 0 < n by omega)
  unfold distance
  split
  · rw [show slot + n - hand % n = slot - hand % n + n by omega, Nat.add_mod_right,
      Nat.mod_eq_of_lt (by omega)]
  · exact Nat.mod_eq_of_lt (by omega)

theorem distance_zero (positive : 0 < n) : distance n hand (hand % n) = 0 := by
  rw [distance_eq (Nat.mod_lt hand positive), if_pos (Nat.le_refl _), Nat.sub_self]

/-- A turn takes the hand to the next slot, and around after the last. -/
theorem hand_after (positive : 0 < n) :
    (hand % n + 1) % n = if hand % n + 1 = n then 0 else hand % n + 1 := by
  have bound := Nat.mod_lt hand positive
  split
  · rename_i last
    rw [last, Nat.mod_self]
  · exact Nat.mod_eq_of_lt (by omega)

/-- After a turn the slot just passed is the farthest. -/
theorem distance_passed (positive : 0 < n) : distance n (hand % n + 1) (hand % n) = n - 1 := by
  have bound := Nat.mod_lt hand positive
  rw [distance_eq bound, hand_after positive]
  split <;> split <;> omega

/-- After a turn every other slot is one nearer. -/
theorem distance_other (bound : slot < n) (different : slot ≠ hand % n) :
    distance n hand slot = distance n (hand % n + 1) slot + 1 := by
  have positive : 0 < n := by omega
  have handBound := Nat.mod_lt hand positive
  rw [distance_eq bound, distance_eq bound, hand_after positive]
  split <;> split <;> split <;> omega

theorem scores_zero (positive : 0 < n) (chosen : classes (hand % n) = some 0) :
    Scores n classes hand (hand % n) 0 :=
  ⟨Nat.mod_lt hand positive, 0, chosen, by rw [distance_zero positive, Nat.zero_mul]⟩

/-- A turn that chooses nothing takes one off every score. -/
theorem scores_pass (positive : 0 < n) (notChosen : classes (hand % n) ≠ some 0) :
    Scores n classes hand slot (k + 1) ↔
      Scores n (pass classes (hand % n)) (hand % n + 1) slot k := by
  unfold Scores
  refine and_congr_right fun bound => ?_
  by_cases here : slot = hand % n
  · subst here
    rw [distance_zero positive, distance_passed positive]
    unfold pass
    rw [Function.update_self]
    cases held : classes (hand % n) with
    | none => simp
    | some c =>
        cases c with
        | zero => exact absurd held notChosen
        | succ c =>
            simp only [Option.some.injEq, exists_eq_left', Option.map_some, Nat.pred_eq_sub_one,
              Nat.add_sub_cancel, Nat.add_mul]
            omega
  · unfold pass
    rw [Function.update_of_ne here, distance_other bound here]
    constructor
    · rintro ⟨c, held, score⟩
      exact ⟨c, held, by omega⟩
    · rintro ⟨c, held, score⟩
      exact ⟨c, held, by omega⟩

theorem not_scores_zero (positive : 0 < n) (notChosen : classes (hand % n) ≠ some 0) :
    ¬Scores n classes hand slot 0 := by
  rintro ⟨bound, c, held, score⟩
  have nearest : distance n hand slot = 0 := by omega
  have here : slot = hand % n := by
    by_contra different
    rw [distance_other bound different] at nearest
    omega
  have noClass : c = 0 := by
    have product : c * n = 0 := by omega
    rcases Nat.mul_eq_zero.mp product with zero | zero
    · exact zero
    · omega
  rw [here, noClass] at held
  exact notChosen held

/-- The scan chooses the slot with the smallest score, when that is below the fuel. -/
theorem scan_chooses (classes : Nat → Option Nat) (hand : Nat) (positive : 0 < n) (fuel : Nat) :
    match scan n fuel classes hand with
    | some slot => ∃ k < fuel, Scores n classes hand slot k ∧
        ∀ other score, Scores n classes hand other score → k ≤ score
    | none => ∀ other score, Scores n classes hand other score → fuel ≤ score := by
  induction fuel generalizing classes hand with
  | zero => exact fun _ _ _ => Nat.zero_le _
  | succ fuel induction =>
      by_cases chosen : classes (hand % n) = some 0
      · rw [scan, if_pos chosen]
        exact ⟨0, Nat.succ_pos fuel, scores_zero positive chosen, fun _ _ _ => Nat.zero_le _⟩
      · have rest := induction (pass classes (hand % n)) (hand % n + 1)
        have later : ∀ other score, Scores n classes hand other score →
            ∃ less, score = less + 1 ∧
              Scores n (pass classes (hand % n)) (hand % n + 1) other less := by
          intro other score scores
          cases score with
          | zero => exact absurd scores (not_scores_zero positive chosen)
          | succ less => exact ⟨less, rfl, (scores_pass positive chosen).mp scores⟩
        rw [scan, if_neg chosen]
        cases found : scan n fuel (pass classes (hand % n)) (hand % n + 1) with
        | some slot =>
            rw [found] at rest
            obtain ⟨k, bound, scores, least⟩ := rest
            refine ⟨k + 1, Nat.succ_lt_succ bound, (scores_pass positive chosen).mpr scores, ?_⟩
            intro other score otherScores
            obtain ⟨less, rfl, now⟩ := later other score otherScores
            exact Nat.succ_le_succ (least other less now)
        | none =>
            rw [found] at rest
            intro other score otherScores
            obtain ⟨less, rfl, now⟩ := later other score otherScores
            exact Nat.succ_le_succ (rest other less now)

/-- The scan looks at the slots below `n` only. -/
theorem scan_congr (positive : 0 < n) (fuel hand : Nat) {left right : Nat → Option Nat}
    (same : ∀ slot < n, left slot = right slot) : scan n fuel left hand = scan n fuel right hand := by
  induction fuel generalizing left right hand with
  | zero => rfl
  | succ fuel induction =>
      have bound := Nat.mod_lt hand positive
      rw [scan, scan, same _ bound]
      split
      · rfl
      · apply induction
        intro slot slotBound
        unfold pass
        by_cases here : slot = hand % n
        · rw [here, Function.update_self, Function.update_self, same _ bound]
        · rw [Function.update_of_ne here, Function.update_of_ne here, same slot slotBound]

/-- The slots that the scan passes, one after the other. -/
def passed (n : Nat) : Nat → (Nat → Option Nat) → Nat → List Nat
  | 0, _, _ => []
  | fuel + 1, classes, hand =>
      if classes (hand % n) = some 0 then []
      else (hand % n) :: passed n fuel (pass classes (hand % n)) (hand % n + 1)

/-- The slots at which the hand is in its first turns. -/
def turns (n hand count : Nat) : List Nat := (List.range count).map fun t => (hand + t) % n

theorem turns_succ (count : Nat) :
    turns n hand (count + 1) = hand % n :: turns n (hand % n + 1) count := by
  unfold turns
  rw [List.range_succ_eq_map, List.map_cons, List.map_map]
  refine congrArg _ (List.map_congr_left fun t _ => ?_)
  dsimp only [Function.comp_apply]
  rw [Nat.add_assoc, Nat.mod_add_mod, Nat.add_comm 1 t]

theorem passed_turns (fuel : Nat) :
    passed n fuel classes hand = turns n hand (passed n fuel classes hand).length := by
  induction fuel generalizing classes hand with
  | zero => rfl
  | succ fuel induction =>
      unfold passed
      split_ifs
      · rfl
      · rw [List.length_cons, turns_succ, ← induction]

/-- The score of the slot that is chosen is the number of turns before. -/
theorem passed_score (positive : 0 < n) (fuel : Nat) (found : scan n fuel classes hand = some slot) :
    Scores n classes hand slot (passed n fuel classes hand).length := by
  induction fuel generalizing classes hand with
  | zero => cases found
  | succ fuel induction =>
      unfold scan at found
      unfold passed
      by_cases chosen : classes (hand % n) = some 0
      · rw [if_pos chosen] at found ⊢
        cases found
        exact scores_zero positive chosen
      · rw [if_neg chosen] at found ⊢
        exact (scores_pass positive chosen).mpr (induction found)

/-- The scan passes the slots below `n` only. -/
theorem passed_congr (positive : 0 < n) (fuel hand : Nat) {left right : Nat → Option Nat}
    (same : ∀ slot < n, left slot = right slot) :
    passed n fuel left hand = passed n fuel right hand := by
  induction fuel generalizing left right hand with
  | zero => rfl
  | succ fuel induction =>
      have bound := Nat.mod_lt hand positive
      rw [passed, passed, same _ bound]
      split
      · rfl
      · refine congrArg _ (induction _ fun slot slotBound => ?_)
        unfold pass
        by_cases here : slot = hand % n
        · rw [here, Function.update_self, Function.update_self, same _ bound]
        · rw [Function.update_of_ne here, Function.update_of_ne here, same slot slotBound]

/-- Scores are ordered by the class and then by the distance. -/
theorem score_le {c c' d d' : Nat} (near : d' < n) (least : c * n + d ≤ c' * n + d') :
    c < c' ∨ c = c' ∧ d ≤ d' := by
  rcases Nat.lt_trichotomy c c' with less | same | more
  · exact .inl less
  · subst same
    exact .inr ⟨rfl, by omega⟩
  · have product := Nat.mul_le_mul_right n more
    rw [Nat.succ_mul] at product
    omega

end Xinu.Lib.Clock
