import Mathlib.Data.List.Basic

/-!
# Singly linked lists

The nodes that follow one another through an optional next node, up to the first node of
whatever comes behind them.
-/

namespace Xinu.Lib.SingleList

set_option autoImplicit false

variable {Node : Type*} {next next' : Node → Option Node} {stop : Option Node}
  {nodes front back : List Node} {node : Node}

/-- Each node leads to the one behind it, and the last one to `stop`. -/
def Follows (next : Node → Option Node) : List Node → Option Node → Prop
  | [], _ => True
  | node :: rest, stop => next node = rest.head?.or stop ∧ Follows next rest stop

theorem follows_congr (follows : Follows next nodes stop)
    (same : ∀ node ∈ nodes, next' node = next node) : Follows next' nodes stop := by
  induction nodes with
  | nil => trivial
  | cons first rest ih =>
      exact ⟨(same first List.mem_cons_self).trans follows.1,
        ih follows.2 fun node member => same node (List.mem_cons_of_mem first member)⟩

theorem head_append (front back : List Node) (stop : Option Node) :
    (front ++ back).head?.or stop = front.head?.or (back.head?.or stop) := by
  cases front <;> simp

theorem follows_append : Follows next (front ++ back) stop ↔
    Follows next front (back.head?.or stop) ∧ Follows next back stop := by
  induction front with
  | nil => simp [Follows]
  | cons first rest ih =>
      rw [List.cons_append, Follows, Follows, ih, head_append, and_assoc]

theorem follows_next {k : Nat} (follows : Follows next nodes stop) (at_ : nodes[k]? = some node) :
    next node = nodes[k + 1]?.or stop := by
  induction nodes generalizing k with
  | nil => simp at at_
  | cons first rest ih =>
      cases k with
      | zero =>
          obtain rfl : first = node := by simpa using at_
          simpa [List.head?_eq_getElem?] using follows.1
      | succ k => simpa using ih follows.2 (by simpa using at_)

/-- A list is known by its first node. -/
theorem follows_unique {nodes' : List Node} (follows : Follows next nodes none)
    (other : Follows next nodes' none) (heads : nodes.head? = nodes'.head?) : nodes = nodes' := by
  induction nodes generalizing nodes' with
  | nil => exact (List.head?_eq_none_iff.mp heads.symm).symm
  | cons first rest ih =>
      cases nodes' with
      | nil => cases heads
      | cons first' rest' =>
          obtain rfl := Option.some.inj heads
          have leads : rest.head? = rest'.head? := by
            have here := follows.1
            rw [other.1, Option.or_none, Option.or_none] at here
            exact here.symm
          rw [ih follows.2 other.2 leads]

/-- A node put behind the last one. -/
theorem follows_snoc (follows : Follows next (front ++ [node]) none) {last : Node}
    (leads : next' node = some last) (ends : next' last = none)
    (same : ∀ other ∈ front, next' other = next other) :
    Follows next' (front ++ [node] ++ [last]) none := by
  obtain ⟨before, -⟩ := follows_append.mp follows
  refine follows_append.mpr ⟨follows_append.mpr ⟨?_, by simpa [Follows] using leads⟩,
    by simpa [Follows] using ends⟩
  simpa using follows_congr before same

/-- Neighbours that lead to one another. -/
theorem follows_range' {next : Nat → Option Nat} (start count : Nat)
    (inner : ∀ i, start ≤ i → i + 1 < start + count → next i = some (i + 1))
    (last : ∀ i, i + 1 = start + count → next i = none) :
    Follows next (List.range' start count) none := by
  induction count generalizing start with
  | zero => trivial
  | succ count ih =>
      refine ⟨?_, ih (start + 1) (fun i above below => inner i (by omega) (by omega))
        fun i ends => last i (by omega)⟩
      cases count with
      | zero => simpa using last start rfl
      | succ count => simpa [List.range'_succ] using inner start (Nat.le_refl start) (by omega)

end Xinu.Lib.SingleList
