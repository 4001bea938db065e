import Mathlib.Data.List.Nodup
import Mathlib.Logic.Function.Basic
import Mathlib.Tactic.Common

/-!
# Intrusive doubly linked queues

A queue whose links are two functions on the nodes, with a head and a tail
pointer and a null node. `Queue next prev null head tail nodes` says that the
pointers represent exactly the list `nodes`, head first. The three operations
are stated on pointwise facts about the new links, so a program may perform its
pointer updates in any order as long as those facts hold afterwards.
-/

namespace Xinu.Lib.LinkedQueue

set_option autoImplicit false

universe u

variable {Node : Type u}

/-- The links of a stretch of nodes that starts after `before` and ends in
front of `after`. -/
def LinksTo (next prev : Node → Node) : Node → List Node → Node → Prop
  | _, [], _ => True
  | before, node :: rest, after =>
      prev node = before ∧ next node = rest.headD after ∧ LinksTo next prev node rest after

theorem links_append (next prev : Node → Node) (before after : Node) (front back : List Node) :
    LinksTo next prev before (front ++ back) after ↔
      LinksTo next prev before front (back.headD after) ∧
        LinksTo next prev (front.getLastD before) back after := by
  induction front generalizing before with
  | nil => simp [LinksTo]
  | cons node rest induction =>
      have heads : (rest ++ back).headD after = rest.headD (back.headD after) := by
        cases rest <;> rfl
      have lasts : (node :: rest).getLastD before = rest.getLastD node :=
        List.getLastD_cons
      simp only [List.cons_append, LinksTo, induction node, heads, lasts, and_assoc]

/-- A stretch keeps its links when only its two outer pointers are redirected. -/
theorem links_retarget {next prev next' prev' : Node → Node} {before before' after after' : Node}
    {nodes : List Node} (links : LinksTo next prev before nodes after)
    (front : ∀ node ∈ nodes.head?, prev' node = before')
    (inner : ∀ node ∈ nodes.tail, prev' node = prev node)
    (back : ∀ node ∈ nodes.getLast?, next' node = after')
    (leading : ∀ node ∈ nodes.dropLast, next' node = next node) :
    LinksTo next' prev' before' nodes after' := by
  induction nodes generalizing before before' with
  | nil => trivial
  | cons node rest induction =>
      obtain ⟨_, nextNode, restLinks⟩ := links
      refine ⟨front node (by simp), ?_, ?_⟩
      · cases rest with
        | nil => exact back node (by simp)
        | cons second others =>
            rw [leading node (by simp), nextNode]
            rfl
      · apply induction restLinks
        · intro second isHead
          cases rest with
          | nil => simp at isHead
          | cons head others =>
              have same : second = head := by simpa using isHead.symm
              subst same
              rw [inner second (by simp)]
              exact restLinks.1
        · intro other member
          exact inner other (List.mem_of_mem_tail member)
        · intro last isLast
          cases rest with
          | nil => simp at isLast
          | cons head others => exact back last (by simpa using isLast)
        · intro other member
          cases rest with
          | nil => simp at member
          | cons head others => exact leading other (by simp [member])

structure Queue (next prev : Node → Node) (null head tail : Node) (nodes : List Node) : Prop where
  headEq : head = nodes.headD null
  tailEq : tail = nodes.getLastD null
  links : LinksTo next prev null nodes null
  nodup : nodes.Nodup
  proper : null ∉ nodes

section Shape

variable {next prev : Node → Node} {null head tail : Node} {nodes : List Node}

theorem queue_nil (next prev : Node → Node) (null : Node) : Queue next prev null null null [] :=
  ⟨rfl, rfl, trivial, List.nodup_nil, by simp⟩

theorem head_null_iff (queue : Queue next prev null head tail nodes) :
    head = null ↔ nodes = [] := by
  rw [queue.headEq]
  cases nodes with
  | nil => simp
  | cons node rest =>
      have proper := queue.proper
      simp only [List.mem_cons, not_or] at proper
      simp [Ne.symm proper.1]

theorem tail_null_iff (queue : Queue next prev null head tail nodes) :
    tail = null ↔ nodes = [] := by
  rw [queue.tailEq]
  constructor
  · intro isNull
    by_contra nonempty
    have member := List.getLast_mem nonempty
    rw [List.getLastD_eq_getLast?, List.getLast?_eq_some_getLast nonempty] at isNull
    exact queue.proper (isNull ▸ member)
  · rintro rfl
    rfl

/-- What is not on the queue may change freely. -/
theorem queue_congr {next' prev' : Node → Node} (queue : Queue next prev null head tail nodes)
    (nexts : ∀ node ∈ nodes, next' node = next node)
    (prevs : ∀ node ∈ nodes, prev' node = prev node) :
    Queue next' prev' null head tail nodes := by
  refine ⟨queue.headEq, queue.tailEq, ?_, queue.nodup, queue.proper⟩
  apply links_retarget queue.links
  · intro node isHead
    cases nodes with
    | nil => simp at isHead
    | cons first rest =>
        have same : node = first := by simpa using isHead.symm
        subst same
        rw [prevs node (by simp)]
        exact queue.links.1
  · intro node member
    exact prevs node (List.mem_of_mem_tail member)
  · intro node isLast
    have member := List.mem_of_getLast? isLast
    rw [nexts node member]
    obtain ⟨front, split⟩ := List.getLast?_eq_some_iff.mp isLast
    have lastLinks := (split ▸ queue.links)
    rw [links_append] at lastLinks
    exact lastLinks.2.2.1
  · intro node member
    exact nexts node (List.dropLast_subset _ member)

end Shape

section PushFront

variable {next prev next' prev' : Node → Node} {null head tail fresh : Node} {nodes : List Node}

theorem push_front (queue : Queue next prev null head tail nodes)
    (absent : fresh ∉ nodes) (notNull : fresh ≠ null)
    (nextFresh : next' fresh = head) (prevFresh : prev' fresh = null)
    (nexts : ∀ node ∈ nodes, next' node = next node)
    (prevHead : ∀ node ∈ nodes.head?, prev' node = fresh)
    (prevs : ∀ node ∈ nodes.tail, prev' node = prev node) :
    Queue next' prev' null fresh ((fresh :: nodes).getLastD null) (fresh :: nodes) := by
  refine ⟨rfl, rfl, ⟨prevFresh, ?_, ?_⟩, List.nodup_cons.mpr ⟨absent, queue.nodup⟩, ?_⟩
  · rw [nextFresh, queue.headEq]
  · apply links_retarget queue.links prevHead prevs
    · intro node isLast
      rw [nexts node (List.mem_of_getLast? isLast)]
      obtain ⟨front, split⟩ := List.getLast?_eq_some_iff.mp isLast
      have lastLinks := (split ▸ queue.links)
      rw [links_append] at lastLinks
      exact lastLinks.2.2.1
    · intro node member
      exact nexts node (List.dropLast_subset _ member)
  · simp only [List.mem_cons, not_or]
    exact ⟨Ne.symm notNull, queue.proper⟩

end PushFront

section InsertBetween

variable {next prev next' prev' : Node → Node} {null head tail last fresh first : Node}
  {front back : List Node}

theorem insert_between (queue : Queue next prev null head tail (front ++ last :: first :: back))
    (absent : fresh ∉ front ++ last :: first :: back) (notNull : fresh ≠ null)
    (nextFresh : next' fresh = first) (prevFresh : prev' fresh = last)
    (nextLast : next' last = fresh) (prevFirst : prev' first = fresh)
    (nexts : ∀ other, other ≠ fresh → other ≠ last → next' other = next other)
    (prevs : ∀ other, other ≠ fresh → other ≠ first → prev' other = prev other) :
    Queue next' prev' null head tail (front ++ last :: fresh :: first :: back) := by
  have split : front ++ last :: first :: back = (front ++ [last]) ++ first :: back := by simp
  have joined : front ++ last :: fresh :: first :: back =
      (front ++ [last]) ++ fresh :: first :: back := by simp
  have nodup := queue.nodup
  have links := queue.links
  rw [split] at absent nodup
  rw [split, links_append] at links
  obtain ⟨frontLinks, backLinks⟩ := links
  have lastEq : (front ++ [last]).getLastD null = last := List.getLastD_concat
  rw [lastEq] at backLinks
  rw [List.nodup_append] at nodup
  obtain ⟨frontNodup, backNodup, apart⟩ := nodup
  rw [List.mem_append, not_or] at absent
  refine ⟨?_, ?_, ?_, ?_, ?_⟩
  · rw [queue.headEq]
    cases front <;> rfl
  · rw [queue.tailEq]
    simp [List.getLastD_eq_getLast?, List.getLast?_append, List.getLast?_cons]
  · rw [joined, links_append, lastEq]
    refine ⟨?_, prevFresh, nextFresh, ?_⟩
    · apply links_retarget frontLinks
      · intro node isHead
        have member : node ∈ front ++ [last] := List.mem_of_mem_head? isHead
        rw [prevs node (fun same => absent.1 (same ▸ member))
          (fun same => apart node member first (by simp) same)]
        cases front with
        | nil =>
            have same : node = last := by simpa using isHead.symm
            exact same ▸ frontLinks.1
        | cons start rest =>
            have same : node = start := by simpa using isHead.symm
            exact same ▸ frontLinks.1
      · intro node inTail
        have member : node ∈ front ++ [last] := List.mem_of_mem_tail inTail
        exact prevs node (fun same => absent.1 (same ▸ member))
          (fun same => apart node member first (by simp) same)
      · intro node isLast
        have same : node = last := by simpa using isLast.symm
        rw [same, nextLast]
        rfl
      · intro node leading
        rw [List.dropLast_concat] at leading
        have notLast : node ≠ last := by
          rintro rfl
          rw [List.nodup_append] at frontNodup
          exact frontNodup.2.2 node leading node (by simp) rfl
        exact nexts node (fun same => absent.1 (same ▸ List.mem_append_left _ leading)) notLast
    · apply links_retarget backLinks
      · intro node isHead
        have same : node = first := by simpa using isHead.symm
        rw [same, prevFirst]
      · intro node inTail
        have notFirst : node ≠ first := by
          rintro rfl
          exact (List.nodup_cons.mp backNodup).1 inTail
        exact prevs node (fun same => absent.2 (same ▸ List.mem_of_mem_tail inTail)) notFirst
      · intro node isLast
        have member : node ∈ first :: back := List.mem_of_getLast? isLast
        rw [nexts node (fun same => absent.2 (same ▸ member))
          (fun same => apart last (by simp) node member same.symm)]
        obtain ⟨others, ends⟩ := List.getLast?_eq_some_iff.mp isLast
        rw [ends, links_append] at backLinks
        exact backLinks.2.2.1
      · intro node leading
        have member : node ∈ first :: back := List.dropLast_subset _ leading
        exact nexts node (fun same => absent.2 (same ▸ member))
          (fun same => apart last (by simp) node member same.symm)
  · rw [joined, List.nodup_append]
    refine ⟨frontNodup, List.nodup_cons.mpr ⟨absent.2, backNodup⟩, ?_⟩
    intro node inFront other inBack
    rcases List.mem_cons.mp inBack with rfl | inBack
    · rintro rfl
      exact absent.1 inFront
    · exact apart node inFront other inBack
  · intro member
    have proper := queue.proper
    simp only [List.mem_append, List.mem_cons, not_or] at member proper
    grind

/-- A node is linked in between two inner stretches. -/
theorem insert_inner [DecidableEq Node] (queue : Queue next prev null head tail (front ++ back))
    (before : front ≠ []) (behind : back ≠ []) (absent : fresh ∉ front ++ back)
    (notNull : fresh ≠ null) :
    Queue
      (Function.update (Function.update next fresh (back.headD null)) (front.getLastD null) fresh)
      (Function.update (Function.update prev fresh (front.getLastD null)) (back.headD null) fresh)
      null head tail (front ++ fresh :: back) := by
  rcases List.eq_nil_or_concat front with rfl | ⟨start, last, rfl⟩
  · exact absurd rfl before
  cases back with
  | nil => exact absurd rfl behind
  | cons first rest =>
      rw [List.concat_eq_append] at queue absent ⊢
      rw [List.getLastD_concat, List.headD_cons]
      have split : start ++ [last] ++ first :: rest = start ++ last :: first :: rest := by simp
      have joined : start ++ [last] ++ fresh :: first :: rest =
          start ++ last :: fresh :: first :: rest := by simp
      rw [split] at queue absent
      rw [joined]
      have notLast : fresh ≠ last := fun same => absent (by simp [same])
      have notFirst : fresh ≠ first := fun same => absent (by simp [same])
      refine insert_between queue absent notNull ?_ ?_ ?_ ?_ ?_ ?_
      · rw [Function.update_of_ne notLast, Function.update_self]
      · rw [Function.update_of_ne notFirst, Function.update_self]
      · rw [Function.update_self]
      · rw [Function.update_self]
      · intro other notFresh different
        rw [Function.update_of_ne different, Function.update_of_ne notFresh]
      · intro other notFresh different
        rw [Function.update_of_ne different, Function.update_of_ne notFresh]

end InsertBetween

section Unlink

variable {next prev next' prev' : Node → Node} {null head tail node : Node}
  {front back : List Node}

theorem unlinked_prev (queue : Queue next prev null head tail (front ++ node :: back)) :
    prev node = front.getLastD null := by
  have links := queue.links
  rw [links_append] at links
  exact links.2.1

theorem unlinked_next (queue : Queue next prev null head tail (front ++ node :: back)) :
    next node = back.headD null := by
  have links := queue.links
  rw [links_append] at links
  exact links.2.2.1

theorem unlinked_prev_mem (queue : Queue next prev null head tail (front ++ node :: back))
    (before : front ≠ []) : prev node ∈ front := by
  rw [unlinked_prev queue, List.getLastD_eq_getLast?, List.getLast?_eq_some_getLast before]
  exact List.getLast_mem before

theorem unlinked_next_mem (queue : Queue next prev null head tail (front ++ node :: back))
    (behind : back ≠ []) : next node ∈ back := by
  rw [unlinked_next queue, List.headD_eq_head?_getD, List.head?_eq_some_head behind]
  exact List.head_mem behind

theorem head_is_node_iff (queue : Queue next prev null head tail (front ++ node :: back)) :
    node = head ↔ front = [] := by
  rw [queue.headEq]
  cases front with
  | nil => simp
  | cons first rest =>
      have nodup := queue.nodup
      simp only [List.cons_append, List.nodup_cons, List.mem_append, List.mem_cons] at nodup
      simp only [List.cons_append, List.headD_cons, reduceCtorEq, iff_false]
      intro same
      exact nodup.1 (Or.inr (Or.inl same.symm))

theorem tail_is_node_iff (queue : Queue next prev null head tail (front ++ node :: back)) :
    node = tail ↔ back = [] := by
  rw [queue.tailEq]
  rcases List.eq_nil_or_concat back with rfl | ⟨others, last, rfl⟩
  · simp
  · have nodup := queue.nodup
    simp only [List.nodup_append, List.nodup_cons, List.concat_eq_append] at nodup
    have different : node ≠ last := by
      intro same
      exact nodup.2.1.1 (by simp [same])
    have lastEq : (front ++ node :: (others ++ [last])).getLastD null = last := by
      rw [List.getLastD_eq_getLast?]
      simp [List.getLast?_append, List.getLast?_cons]
    simp only [List.concat_eq_append, lastEq, different, List.append_eq_nil_iff, reduceCtorEq,
      and_false]

/-- The two link functions are inverse to each other on a queue. -/
theorem next_prev_iff {nodes : List Node} (queue : Queue next prev null head tail nodes)
    {left right : Node} (leftMember : left ∈ nodes) (rightMember : right ∈ nodes) :
    next left = right ↔ prev right = left := by
  have proper := queue.proper
  constructor
  · intro linked
    obtain ⟨front, back, rfl⟩ := List.append_of_mem leftMember
    rw [unlinked_next queue] at linked
    cases back with
    | nil =>
        have same : null = right := linked
        exact absurd (same ▸ rightMember) proper
    | cons first rest =>
        have same : first = right := linked
        have split : front ++ left :: first :: rest = (front ++ [left]) ++ first :: rest := by simp
        rw [split] at queue
        rw [← same, unlinked_prev queue, List.getLastD_concat]
  · intro linked
    obtain ⟨front, back, rfl⟩ := List.append_of_mem rightMember
    rw [unlinked_prev queue] at linked
    rcases List.eq_nil_or_concat front with rfl | ⟨before, last, rfl⟩
    · have same : null = left := linked
      exact absurd (same ▸ leftMember) proper
    · have same : last = left := by
        rwa [List.concat_eq_append, List.getLastD_concat] at linked
      have split : before.concat last ++ right :: back = before ++ last :: right :: back := by simp
      rw [split] at queue
      rw [← same, unlinked_next queue]
      rfl

theorem next_null_iff {nodes : List Node} (queue : Queue next prev null head tail nodes)
    (member : node ∈ nodes) : next node = null ↔ node = tail := by
  have proper := queue.proper
  obtain ⟨front, back, rfl⟩ := List.append_of_mem member
  rw [tail_is_node_iff queue, unlinked_next queue]
  cases back with
  | nil => simp
  | cons first rest =>
      simp only [List.headD_cons, reduceCtorEq, iff_false]
      rintro rfl
      exact proper (by simp)

theorem prev_null_iff {nodes : List Node} (queue : Queue next prev null head tail nodes)
    (member : node ∈ nodes) : prev node = null ↔ node = head := by
  have proper := queue.proper
  obtain ⟨front, back, rfl⟩ := List.append_of_mem member
  rw [head_is_node_iff queue, unlinked_prev queue]
  rcases List.eq_nil_or_concat front with rfl | ⟨before, last, rfl⟩
  · simp
  · simp only [List.concat_eq_append, List.getLastD_concat, List.append_eq_nil_iff, reduceCtorEq,
      and_false, iff_false]
    rintro rfl
    exact proper (by simp)

/-- Taking `node` out of the queue: the last node in front of it is linked to
the first node behind it, in both directions, and nothing else moves. -/
theorem unlink (queue : Queue next prev null head tail (front ++ node :: back))
    (nextFront : ∀ last ∈ front.getLast?, next' last = back.headD null)
    (nexts : ∀ other ∈ front.dropLast ++ back, next' other = next other)
    (prevBack : ∀ first ∈ back.head?, prev' first = front.getLastD null)
    (prevs : ∀ other ∈ front ++ back.tail, prev' other = prev other) :
    Queue next' prev' null ((front ++ back).headD null) ((front ++ back).getLastD null)
      (front ++ back) := by
  have links := queue.links
  rw [links_append] at links
  obtain ⟨frontLinks, _, _, backLinks⟩ := links
  refine ⟨rfl, rfl, ?_, ?_, ?_⟩
  · rw [links_append]
    constructor
    · apply links_retarget frontLinks _ _ nextFront
      · intro other member
        exact nexts other (List.mem_append_left _ member)
      · intro first isHead
        cases front with
        | nil => simp at isHead
        | cons start rest =>
            have same : first = start := by simpa using isHead.symm
            subst same
            rw [prevs first (by simp)]
            exact frontLinks.1
      · intro other member
        exact prevs other (List.mem_append_left _ (List.mem_of_mem_tail member))
    · apply links_retarget backLinks prevBack
      · intro other member
        exact prevs other (List.mem_append_right _ member)
      · intro last isLast
        rw [nexts last (List.mem_append_right _ (List.mem_of_getLast? isLast))]
        obtain ⟨others, split⟩ := List.getLast?_eq_some_iff.mp isLast
        rw [split, links_append] at backLinks
        exact backLinks.2.2.1
      · intro other member
        exact nexts other (List.mem_append_right _ (List.dropLast_subset _ member))
  · have nodup := queue.nodup
    rw [List.nodup_middle] at nodup
    exact (List.nodup_cons.mp nodup).2
  · intro member
    apply queue.proper
    rcases List.mem_append.mp member with inFront | inBack
    · exact List.mem_append_left _ inFront
    · exact List.mem_append_right _ (List.mem_cons_of_mem _ inBack)

variable [DecidableEq Node] {last first : Node}

/-- Removal at the tail of a queue with at least two nodes. -/
theorem pop_back (queue : Queue next prev null head tail (front ++ [last, node])) :
    Queue (Function.update next last null) prev null head last (front ++ [last]) := by
  have split : front ++ [last, node] = (front ++ [last]) ++ node :: [] := by simp
  rw [split] at queue
  have nodup := queue.nodup
  have headEq : head = (front ++ [last] ++ []).headD null := by
    rw [queue.headEq]
    cases front <;> rfl
  have tailEq : last = (front ++ [last] ++ []).getLastD null := by
    rw [List.append_nil, List.getLastD_concat]
  have popped : Queue (Function.update next last null) prev null
      ((front ++ [last] ++ []).headD null) ((front ++ [last] ++ []).getLastD null)
      (front ++ [last] ++ []) := by
    apply unlink queue
    · simp
    · intro other member
      have different : other ≠ last := by
        rintro rfl
        simp only [List.dropLast_concat, List.append_nil] at member
        grind
      rw [Function.update_of_ne different]
    · simp
    · intro other _
      rfl
  rwa [← headEq, ← tailEq, List.append_nil] at popped

/-- Removal at the head of a queue with at least two nodes. -/
theorem pop_front (queue : Queue next prev null head tail (node :: first :: back)) :
    Queue next (Function.update prev first null) null first tail (first :: back) := by
  have nodup := queue.nodup
  have tailEq : tail = ([] ++ first :: back).getLastD null := by
    rw [queue.tailEq]
    rfl
  have popped : Queue next (Function.update prev first null) null
      (([] ++ first :: back).headD null) (([] ++ first :: back).getLastD null)
      ([] ++ first :: back) := by
    refine unlink (show Queue next prev null head tail ([] ++ node :: first :: back) from queue)
      ?_ ?_ ?_ ?_
    · simp
    · intro other _
      rfl
    · simp
    · intro other member
      have different : other ≠ first := by
        rintro rfl
        simp only [List.nodup_cons] at nodup
        exact nodup.2.1 (by simpa using member)
      rw [Function.update_of_ne different]
  rwa [← tailEq] at popped

/-- Removal between two nodes. -/
theorem unlink_between
    (queue : Queue next prev null head tail (front ++ last :: node :: first :: back)) :
    Queue (Function.update next last first) (Function.update prev first last) null head tail
      (front ++ last :: first :: back) := by
  have split : front ++ last :: node :: first :: back =
      (front ++ [last]) ++ node :: first :: back := by simp
  have joined : front ++ last :: first :: back = (front ++ [last]) ++ first :: back := by
    simp
  rw [split] at queue
  rw [joined]
  have nodup := queue.nodup
  have headEq : head = (front ++ [last] ++ first :: back).headD null := by
    rw [queue.headEq]
    cases front <;> rfl
  have tailEq : tail = (front ++ [last] ++ first :: back).getLastD null := by
    rw [queue.tailEq]
    simp [List.getLastD_eq_getLast?, List.getLast?_append, List.getLast?_cons]
  have unlinked : Queue (Function.update next last first) (Function.update prev first last) null
      ((front ++ [last] ++ first :: back).headD null)
      ((front ++ [last] ++ first :: back).getLastD null) (front ++ [last] ++ first :: back) := by
    apply unlink queue
    · simp
    · intro other member
      have different : other ≠ last := by
        rintro rfl
        simp only [List.dropLast_concat] at member
        grind
      rw [Function.update_of_ne different]
    · simp
    · intro other member
      have different : other ≠ first := by
        rintro rfl
        simp only [List.tail_cons] at member
        grind
      rw [Function.update_of_ne different]
  rwa [← headEq, ← tailEq] at unlinked

/-- The links of the two neighbours of an inner node, redirected past the node. -/
theorem unlink_inner (queue : Queue next prev null head tail (front ++ node :: back))
    (before : front ≠ []) (behind : back ≠ []) :
    Queue (Function.update next (prev node) (next node))
      (Function.update prev (next node) (prev node)) null head tail (front ++ back) := by
  have prevNode := unlinked_prev queue
  have nextNode := unlinked_next queue
  rcases List.eq_nil_or_concat front with rfl | ⟨start, last, rfl⟩
  · exact absurd rfl before
  cases back with
  | nil => exact absurd rfl behind
  | cons first rest =>
      rw [List.concat_eq_append] at queue prevNode ⊢
      rw [List.getLastD_concat] at prevNode
      rw [List.headD_cons] at nextNode
      rw [prevNode, nextNode]
      have split : start ++ [last] ++ node :: first :: rest =
          start ++ last :: node :: first :: rest := by simp
      have joined : start ++ [last] ++ first :: rest = start ++ last :: first :: rest := by simp
      rw [split] at queue
      rw [joined]
      exact unlink_between queue

end Unlink

/-- The same stretch, read in the other direction. -/
theorem links_reverse {next prev : Node → Node} {before after : Node} {nodes : List Node}
    (links : LinksTo next prev before nodes after) :
    LinksTo prev next after nodes.reverse before := by
  induction nodes generalizing before with
  | nil => trivial
  | cons node rest induction =>
      obtain ⟨prevNode, nextNode, restLinks⟩ := links
      rw [List.reverse_cons, links_append]
      refine ⟨induction restLinks, ?_, prevNode, trivial⟩
      rw [nextNode]
      cases rest <;> simp [List.getLastD_eq_getLast?]

/-- The first node from `start` on that `hit` accepts, or `stop`; `none` when neither is met
within `fuel` nodes. -/
def seek [DecidableEq Node] (next : Node → Node) (stop : Node) (hit : Node → Bool) :
    Nat → Node → Option Node
  | 0, _ => none
  | fuel + 1, start =>
      if start = stop then some stop
      else if hit start then some start
      else seek next stop hit fuel (next start)

theorem seek_links [DecidableEq Node] {next prev : Node → Node} {before stop : Node}
    {hit : Node → Bool} {nodes : List Node} (links : LinksTo next prev before nodes stop)
    (proper : stop ∉ nodes) (fuel : Nat) (enough : nodes.length < fuel) :
    seek next stop hit fuel (nodes.headD stop) = some ((nodes.find? hit).getD stop) := by
  induction nodes generalizing before fuel with
  | nil =>
      obtain ⟨fuel, rfl⟩ : ∃ smaller, fuel = smaller + 1 :=
        ⟨fuel - 1, by simp only [List.length_nil] at enough; omega⟩
      simp [seek]
  | cons node rest induction =>
      obtain ⟨fuel, rfl⟩ : ∃ smaller, fuel = smaller + 1 :=
        ⟨fuel - 1, by simp only [List.length_cons] at enough; omega⟩
      simp only [List.mem_cons, not_or] at proper
      have further : ¬node = stop := fun same => proper.1 same.symm
      rw [List.headD_cons, seek, if_neg further, List.find?_cons]
      by_cases found : hit node = true
      · simp [found]
      · rw [Bool.not_eq_true] at found
        simp only [found, Bool.false_eq_true, if_false, links.2.1]
        exact induction links.2.2 proper.2 fuel (by simpa using enough)

/-- The nodes met by following `next` from `start`, at most `fuel` of them. -/
def follow [DecidableEq Node] (next : Node → Node) (null : Node) : Nat → Node → List Node
  | 0, _ => []
  | fuel + 1, start => if start = null then [] else start :: follow next null fuel (next start)

theorem follow_links [DecidableEq Node] {next prev : Node → Node} {null before : Node}
    {nodes : List Node} (links : LinksTo next prev before nodes null) (proper : null ∉ nodes)
    (fuel : Nat) (enough : nodes.length ≤ fuel) :
    follow next null fuel (nodes.headD null) = nodes := by
  induction nodes generalizing before fuel with
  | nil => cases fuel <;> simp [follow]
  | cons node rest induction =>
      obtain ⟨fuel, rfl⟩ : ∃ smaller, fuel = smaller + 1 :=
        ⟨fuel - 1, by simp only [List.length_cons] at enough; omega⟩
      simp only [List.mem_cons, not_or] at proper
      simp only [List.headD_cons, follow, if_neg (Ne.symm proper.1), links.2.1]
      rw [induction links.2.2 proper.2 fuel (by simpa using enough)]

/-- The list a queue represents is found by walking it from its head. -/
theorem follow_queue [DecidableEq Node] {next prev : Node → Node} {null head tail : Node}
    {nodes : List Node} (queue : Queue next prev null head tail nodes) (fuel : Nat)
    (enough : nodes.length ≤ fuel) : follow next null fuel head = nodes := by
  rw [queue.headEq]
  exact follow_links queue.links queue.proper fuel enough

end Xinu.Lib.LinkedQueue
