import Xinu.Rds.Device

/-!
# The lists of the remote disk

The request queue, the cache and the free list of the device as Lean lists, and what each list
operation of the driver does to them.
-/

namespace Xinu.Rds.Lists

open List (Perm)
open Xinu.Lib.LinkedQueue Xinu.Rds.Device

set_option autoImplicit false

variable {r : Rdscblk} {p q : Ptr} {queue cache free front back : List Ptr}

section Shape

/-- The free list, which is linked in one direction. -/
def Freed (next : Ptr → Ptr) : Ptr → List Ptr → Prop
  | start, [] => start = .null
  | start, node :: rest => start = node ∧ Freed next (next node) rest

theorem freed_congr {next next' : Ptr → Ptr} {start : Ptr} (freed : Freed next start free)
    (nexts : ∀ node ∈ free, next' node = next node) : Freed next' start free := by
  induction free generalizing start with
  | nil => exact freed
  | cons node rest induction =>
      refine ⟨freed.1, ?_⟩
      rw [nexts node (by simp)]
      exact induction freed.2 fun other member => nexts other (by simp [member])

def IsBuffer (p : Ptr) : Prop := ∃ i, p = .buffer i

/-- The nodes of the request queue, and those of the cache, with their ends. -/
def requestNodes (queue : List Ptr) : List Ptr := .rhnext :: queue ++ [.rtnext]

def cacheNodes (cache : List Ptr) : List Ptr := .chnext :: cache ++ [.ctnext]

structure Linked (r : Rdscblk) (queue cache free : List Ptr) : Prop where
  requests : Queue r.rdNext r.rdPrev .null .rhnext .rtnext (requestNodes queue)
  cached : Queue r.rdNext r.rdPrev .null .chnext .ctnext (cacheNodes cache)
  freed : Freed r.rdNext r.rdFree free
  nodup : (queue ++ cache ++ free).Nodup
  buffers : ∀ p ∈ queue ++ cache ++ free, IsBuffer p

/-- A buffer that is in nobody's list. -/
structure Loose (p : Ptr) (queue cache free : List Ptr) : Prop where
  buffer : IsBuffer p
  absent : p ∉ queue ++ cache ++ free

theorem queue_cache_apart (linked : Linked r queue cache free) (inQueue : p ∈ requestNodes queue)
    (inCache : q ∈ cacheNodes cache) : p ≠ q := by
  have nodup := linked.nodup
  have buffers := linked.buffers
  rintro rfl
  simp only [requestNodes, cacheNodes, List.mem_append, List.mem_cons, List.cons_append,
    List.not_mem_nil, or_false] at inQueue inCache
  rcases inQueue with rfl | inQueue | rfl
  · rcases inCache with same | inCache | same
    · cases same
    · obtain ⟨i, same⟩ := buffers .rhnext (by simp [inCache])
      cases same
    · cases same
  · rcases inCache with rfl | inCache | rfl
    · obtain ⟨i, same⟩ := buffers .chnext (by simp [inQueue])
      cases same
    · grind
    · obtain ⟨i, same⟩ := buffers .ctnext (by simp [inQueue])
      cases same
  · rcases inCache with same | inCache | same
    · cases same
    · obtain ⟨i, same⟩ := buffers .rtnext (by simp [inCache])
      cases same
    · cases same

theorem queue_free_apart (linked : Linked r queue cache free) (inQueue : p ∈ requestNodes queue)
    (inFree : q ∈ free) : p ≠ q := by
  have nodup := linked.nodup
  rintro rfl
  simp only [requestNodes, List.mem_append, List.mem_cons, List.cons_append, List.not_mem_nil,
    or_false] at inQueue
  obtain ⟨i, rfl⟩ := linked.buffers p (by simp [inFree])
  rcases inQueue with same | inQueue | same
  · cases same
  · grind
  · cases same

theorem cache_free_apart (linked : Linked r queue cache free) (inCache : p ∈ cacheNodes cache)
    (inFree : q ∈ free) : p ≠ q := by
  have nodup := linked.nodup
  rintro rfl
  simp only [cacheNodes, List.mem_append, List.mem_cons, List.cons_append, List.not_mem_nil,
    or_false] at inCache
  obtain ⟨i, rfl⟩ := linked.buffers p (by simp [inFree])
  rcases inCache with same | inCache | same
  · cases same
  · grind
  · cases same

theorem loose_not_request (loose : Loose p queue cache free) :
    p ∉ requestNodes queue := by
  obtain ⟨⟨i, rfl⟩, absent⟩ := loose
  simp only [List.mem_append, not_or] at absent
  simp [requestNodes, absent]

theorem loose_not_cached (loose : Loose p queue cache free) :
    p ∉ cacheNodes cache := by
  obtain ⟨⟨i, rfl⟩, absent⟩ := loose
  simp only [List.mem_append, not_or] at absent
  simp [cacheNodes, absent]

theorem loose_not_free (loose : Loose p queue cache free) : p ∉ free := fun member =>
  loose.absent (by simp [member])

end Shape

section Operations

variable {r' : Rdscblk}

/-- Changing what buffers hold leaves the lists alone. -/
theorem linked_congr (linked : Linked r queue cache free) (nexts : r'.rdNext = r.rdNext)
    (prevs : r'.rdPrev = r.rdPrev) (same : r'.rdFree = r.rdFree) : Linked r' queue cache free := by
  refine ⟨?_, ?_, ?_, linked.nodup, linked.buffers⟩
  · rw [nexts, prevs]
    exact linked.requests
  · rw [nexts, prevs]
    exact linked.cached
  · rw [nexts, same]
    exact linked.freed

/-- The two pointers that an unlinking changes. -/
theorem neighbours {nodes : List Ptr} {head tail : Ptr}
    (links : Queue r.rdNext r.rdPrev .null head tail (front ++ p :: back)) (before : front ≠ [])
    (behind : back ≠ []) (same : nodes = front ++ p :: back) :
    r.rdPrev p ∈ nodes ∧ r.rdNext p ∈ nodes := by
  subst same
  exact ⟨List.mem_append_left _ (unlinked_prev_mem links before),
    List.mem_append_right _ (List.mem_cons_of_mem _ (unlinked_next_mem links behind))⟩

theorem unlink_request (linked : Linked r (front ++ p :: back) cache free) :
    Linked (unlinkNode r p) (front ++ back) cache free ∧ Loose p (front ++ back) cache free := by
  have split : requestNodes (front ++ p :: back) =
      (.rhnext :: front) ++ p :: (back ++ [.rtnext]) := by simp [requestNodes]
  have joined : requestNodes (front ++ back) = (.rhnext :: front) ++ (back ++ [.rtnext]) := by
    simp [requestNodes]
  have requests := linked.requests
  rw [split] at requests
  obtain ⟨inBefore, inBehind⟩ := neighbours requests (by simp) (by simp) split
  have nodup := linked.nodup
  refine ⟨⟨?_, ?_, ?_, ?_, fun other member => linked.buffers other ?_⟩,
    linked.buffers p (by simp), ?_⟩
  · rw [joined]
    exact unlink_inner requests (by simp) (by simp)
  · refine queue_congr linked.cached (fun other member => ?_) fun other member => ?_
    · exact Function.update_of_ne (queue_cache_apart linked inBefore member).symm _ _
    · exact Function.update_of_ne (queue_cache_apart linked inBehind member).symm _ _
  · exact freed_congr linked.freed fun other member =>
      Function.update_of_ne (queue_free_apart linked inBefore member).symm _ _
  · grind
  · simp only [List.mem_append] at member ⊢
    grind
  · grind

theorem unlink_cached (linked : Linked r queue (front ++ p :: back) free) :
    Linked (unlinkNode r p) queue (front ++ back) free ∧ Loose p queue (front ++ back) free := by
  have split : cacheNodes (front ++ p :: back) =
      (.chnext :: front) ++ p :: (back ++ [.ctnext]) := by simp [cacheNodes]
  have joined : cacheNodes (front ++ back) = (.chnext :: front) ++ (back ++ [.ctnext]) := by
    simp [cacheNodes]
  have cached := linked.cached
  rw [split] at cached
  obtain ⟨inBefore, inBehind⟩ := neighbours cached (by simp) (by simp) split
  have nodup := linked.nodup
  refine ⟨⟨?_, ?_, ?_, ?_, fun other member => linked.buffers other ?_⟩,
    linked.buffers p (by simp), ?_⟩
  · refine queue_congr linked.requests (fun other member => ?_) fun other member => ?_
    · exact Function.update_of_ne (queue_cache_apart linked member inBefore) _ _
    · exact Function.update_of_ne (queue_cache_apart linked member inBehind) _ _
  · rw [joined]
    exact unlink_inner cached (by simp) (by simp)
  · exact freed_congr linked.freed fun other member =>
      Function.update_of_ne (cache_free_apart linked inBefore member).symm _ _
  · grind
  · simp only [List.mem_append] at member ⊢
    grind
  · grind

theorem append_request (linked : Linked r queue cache free) (loose : Loose p queue cache free) :
    Linked (appendRequest r p) (queue ++ [p]) cache free := by
  obtain ⟨⟨i, rfl⟩, absent⟩ := id loose
  have notRequest := loose_not_request loose
  have notCached := loose_not_cached loose
  have notFree := loose_not_free loose
  obtain ⟨front, last, split⟩ : ∃ front last, Ptr.rhnext :: queue = front ++ [last] :=
    ⟨_, _, (List.dropLast_append_getLast (by simp)).symm⟩
  have nodes : requestNodes queue = front ++ last :: .rtnext :: [] := by
    rw [requestNodes, split]
    simp
  have requests := linked.requests
  rw [nodes] at requests notRequest
  have tailPrev : r.rdPrev .rtnext = last := by
    have links := (links_append _ _ _ _ _ _).mp requests.links
    exact links.2.2.2.1
  have lastNext : r.rdNext last = .rtnext := by
    have links := (links_append _ _ _ _ _ _).mp requests.links
    exact links.2.2.1
  have inLast : last ∈ requestNodes queue := by rw [nodes]; simp
  have inTail : Ptr.rtnext ∈ requestNodes queue := by simp [requestNodes]
  have joined : requestNodes (queue ++ [.buffer i]) =
      front ++ last :: .buffer i :: .rtnext :: [] := by
    rw [requestNodes, ← List.cons_append, split]
    simp
  have neLast : Ptr.buffer i ≠ last := fun same => notRequest (by simp [same])
  have nodup := linked.nodup
  refine ⟨?_, ?_, ?_, ?_, fun other member => ?_⟩
  · rw [joined]
    refine insert_between requests notRequest (by simp) ?_ ?_ ?_ ?_ (fun other ne neL => ?_)
      fun other ne neF => ?_
    · simp [appendRequest, tailPrev, lastNext, neLast]
    · simp [appendRequest, tailPrev]
    · simp [appendRequest, tailPrev]
    · simp [appendRequest]
    · simp [appendRequest, tailPrev, ne, neL]
    · simp [appendRequest, ne, neF]
  · refine queue_congr linked.cached (fun other member => ?_) fun other member => ?_
    · have ne : other ≠ .buffer i := fun same => notCached (same ▸ member)
      have neL : other ≠ last := (queue_cache_apart linked inLast member).symm
      simp [appendRequest, tailPrev, ne, neL]
    · have ne : other ≠ .buffer i := fun same => notCached (same ▸ member)
      have neT : other ≠ .rtnext := (queue_cache_apart linked inTail member).symm
      simp [appendRequest, ne, neT]
  · refine freed_congr linked.freed fun other member => ?_
    have ne : other ≠ .buffer i := fun same => notFree (same ▸ member)
    have neL : other ≠ last := (queue_free_apart linked inLast member).symm
    simp [appendRequest, tailPrev, ne, neL]
  · grind
  · by_cases same : other = .buffer i
    · exact ⟨i, same⟩
    · exact linked.buffers other (by simp only [List.mem_append] at member ⊢; grind)

theorem insert_cache (linked : Linked r queue cache free) (loose : Loose p queue cache free) :
    Linked (insertCache r p) queue (p :: cache) free := by
  obtain ⟨⟨i, rfl⟩, absent⟩ := id loose
  have notRequest := loose_not_request loose
  have notCached := loose_not_cached loose
  have notFree := loose_not_free loose
  obtain ⟨first, back, split⟩ : ∃ first back, cache ++ [Ptr.ctnext] = first :: back := by
    cases cache with
    | nil => exact ⟨_, _, rfl⟩
    | cons first rest => exact ⟨_, _, rfl⟩
  have nodes : cacheNodes cache = [] ++ .chnext :: first :: back := by
    rw [cacheNodes, List.cons_append, split]
    rfl
  have cached := linked.cached
  rw [nodes] at cached notCached
  have headNext : r.rdNext .chnext = first := cached.links.2.1
  have inHead : Ptr.chnext ∈ cacheNodes cache := by simp [cacheNodes]
  have inFirst : first ∈ cacheNodes cache := by rw [nodes]; simp
  have joined : cacheNodes (.buffer i :: cache) = [] ++ .chnext :: .buffer i :: first :: back := by
    simp [cacheNodes, ← split]
  have neFirst : Ptr.buffer i ≠ first := fun same => notCached (by simp [same])
  have neHead : Ptr.chnext ≠ first := by
    have nodup := cached.nodup
    simp at nodup
    exact nodup.1.1
  have nodup := linked.nodup
  refine ⟨?_, ?_, ?_, ?_, fun other member => ?_⟩
  · refine queue_congr linked.requests (fun other member => ?_) fun other member => ?_
    · have ne : other ≠ .buffer i := fun same => notRequest (same ▸ member)
      have neH : other ≠ .chnext := queue_cache_apart linked member inHead
      simp [insertCache, ne, neH]
    · have ne : other ≠ .buffer i := fun same => notRequest (same ▸ member)
      have neF : other ≠ first := queue_cache_apart linked member inFirst
      simp [insertCache, headNext, ne, neF]
  · rw [joined]
    refine insert_between cached notCached (by simp) ?_ ?_ ?_ ?_ (fun other ne neH => ?_)
      fun other ne neF => ?_
    · simp [insertCache, headNext]
    · simp [insertCache, headNext, neFirst]
    · simp [insertCache]
    · simp [insertCache, headNext]
    · simp [insertCache, ne, neH]
    · simp [insertCache, headNext, ne, neF]
  · refine freed_congr linked.freed fun other member => ?_
    have ne : other ≠ .buffer i := fun same => notFree (same ▸ member)
    have neH : other ≠ .chnext := (cache_free_apart linked inHead member).symm
    simp [insertCache, ne, neH]
  · grind
  · by_cases same : other = .buffer i
    · exact ⟨i, same⟩
    · exact linked.buffers other (by simp only [List.mem_append] at member ⊢; grind)

theorem push_free (linked : Linked r queue cache free) (loose : Loose p queue cache free) :
    Linked (pushFree r p) queue cache (p :: free) := by
  have notRequest := loose_not_request loose
  have notCached := loose_not_cached loose
  have notFree := loose_not_free loose
  have nodup := linked.nodup
  have absent := loose.absent
  refine ⟨?_, ?_, ⟨rfl, ?_⟩, ?_, fun other member => ?_⟩
  · refine queue_congr linked.requests (fun other member => ?_) fun _ _ => rfl
    have ne : other ≠ p := fun same => notRequest (same ▸ member)
    exact Function.update_of_ne ne _ _
  · refine queue_congr linked.cached (fun other member => ?_) fun _ _ => rfl
    have ne : other ≠ p := fun same => notCached (same ▸ member)
    exact Function.update_of_ne ne _ _
  · have start : (pushFree r p).rdNext p = r.rdFree := Function.update_self _ _ _
    rw [start]
    refine freed_congr linked.freed fun other member => ?_
    have ne : other ≠ p := fun same => notFree (same ▸ member)
    exact Function.update_of_ne ne _ _
  · grind
  · by_cases same : other = p
    · exact same ▸ loose.buffer
    · exact linked.buffers other (by simp only [List.mem_append] at member ⊢; grind)

theorem pop_free (linked : Linked r queue cache (p :: free)) :
    r.rdFree = p ∧ Linked { r with rdFree := r.rdNext p } queue cache free ∧
      Loose p queue cache free := by
  have nodup := linked.nodup
  refine ⟨linked.freed.1, ⟨linked.requests, linked.cached, linked.freed.2, ?_,
    fun other member => linked.buffers other ?_⟩, linked.buffers p (by simp), ?_⟩
  · grind
  · simp only [List.mem_append] at member ⊢
    grind
  · grind

end Operations

section Searches

variable {hit : Ptr → Bool} {blk : Nat}

/-- The links of the nodes between the two ends of a list. -/
theorem links_between {next prev : Ptr → Ptr} {head tail : Ptr} {nodes : List Ptr}
    (whole : Queue next prev .null head tail (head :: nodes ++ [tail])) :
    LinksTo next prev head nodes tail ∧ next head = nodes.headD tail ∧
      prev tail = nodes.getLastD head := by
  have links := whole.links
  rw [List.cons_append] at links
  obtain ⟨-, first, rest⟩ := links
  obtain ⟨inner, last, -⟩ := (links_append _ _ _ _ _ _).mp rest
  refine ⟨inner, ?_, last⟩
  rw [first]
  cases nodes <;> rfl

theorem seek_forward {next prev : Ptr → Ptr} {head tail : Ptr} {nodes : List Ptr}
    (whole : Queue next prev .null head tail (head :: nodes ++ [tail]))
    (short : nodes.length ≤ rdBuffs) :
    seek next tail hit (rdBuffs + 1) (next head) = some ((nodes.find? hit).getD tail) := by
  obtain ⟨links, first, -⟩ := links_between whole
  rw [first]
  refine seek_links links (fun member => ?_) _ (by omega)
  have nodup := whole.nodup
  grind

theorem seek_backward {next prev : Ptr → Ptr} {head tail : Ptr} {nodes : List Ptr}
    (whole : Queue next prev .null head tail (head :: nodes ++ [tail]))
    (short : nodes.length ≤ rdBuffs) :
    seek prev head hit (rdBuffs + 1) (prev tail) = some ((nodes.reverse.find? hit).getD head) := by
  obtain ⟨links, -, last⟩ := links_between whole
  have start : prev tail = nodes.reverse.headD head := by
    rw [last, List.getLastD_eq_getLast?, List.headD_eq_head?_getD, List.head?_reverse]
  rw [start]
  refine seek_links (links_reverse links) (fun member => ?_) _ (by simp; omega)
  have nodup := whole.nodup
  rw [List.mem_reverse] at member
  grind

/-- What the lists have together: every buffer of the device. -/
structure Conserved (r : Rdscblk) (queue cache free : List Ptr) : Prop extends
    Linked r queue cache free where
  total : (queue ++ cache ++ free).Perm ((List.range rdBuffs).map .buffer)

theorem conserved_lengths (lists : Conserved r queue cache free) :
    queue.length + cache.length + free.length = rdBuffs := by
  have length := lists.total.length_eq
  simpa [Nat.add_assoc] using length

theorem searchCache_eq (lists : Conserved r queue cache free) : searchCache r blk =
    some ((cache.find? fun p => (r.buff p).rdBlknum == blk).getD .ctnext) :=
  seek_forward lists.cached (by have := conserved_lengths lists; omega)

theorem searchWrites_eq (lists : Conserved r queue cache free) : searchWrites r blk =
    some ((queue.find? fun p => (r.buff p).rdBlknum == blk && (r.buff p).rdOp == .write).getD
      .rtnext) :=
  seek_forward lists.requests (by have := conserved_lengths lists; omega)

theorem searchReaders_eq (lists : Conserved r queue cache free) : searchReaders r blk =
    some ((queue.find? fun p => (r.buff p).rdBlknum == blk).getD .rtnext) :=
  seek_forward lists.requests (by have := conserved_lengths lists; omega)

/-- The searches of `rdsread`, in the order in which they succeed. -/
theorem rdsreadSearch_cases (linked : Linked r queue cache free)
    (shortQueue : queue.length ≤ rdBuffs) (shortCache : cache.length ≤ rdBuffs) :
    (∃ p, cache.find? (fun p => (r.buff p).rdBlknum == blk) = some p ∧
      (r.buff p).rdStatus = .valid ∧ rdsreadSearch r blk = some (some (r.buff p).rdBlock)) ∨
    (∀ p, cache.find? (fun p => (r.buff p).rdBlknum == blk) = some p →
      (r.buff p).rdStatus = .invalid) ∧
      ((∃ p, queue.reverse.find? (fun p => (r.buff p).rdBlknum == blk) = some p ∧
        (r.buff p).rdOp = .write ∧ rdsreadSearch r blk = some (some (r.buff p).rdBlock)) ∨
      (∀ p, queue.reverse.find? (fun p => (r.buff p).rdBlknum == blk) = some p →
        (r.buff p).rdOp ≠ .write) ∧ rdsreadSearch r blk = some none) := by
  have inCache : searchCache r blk = _ := seek_forward linked.cached shortCache
  have inQueue : searchRequests r blk = _ := seek_backward linked.requests shortQueue
  have inside (p : Ptr) (found : cache.find? (fun p => (r.buff p).rdBlknum == blk) = some p) :
      p ≠ .ctnext := by
    obtain ⟨i, rfl⟩ := linked.buffers p (by simp [List.mem_of_find?_eq_some found])
    simp
  have requested (p : Ptr)
      (found : queue.reverse.find? (fun p => (r.buff p).rdBlknum == blk) = some p) :
      p ≠ .rhnext := by
    have member := List.mem_reverse.mp (List.mem_of_find?_eq_some found)
    obtain ⟨i, rfl⟩ := linked.buffers p (by simp [member])
    simp
  by_cases hit : ∃ p, cache.find? (fun p => (r.buff p).rdBlknum == blk) = some p ∧
      (r.buff p).rdStatus = .valid
  · obtain ⟨p, found, valid⟩ := hit
    refine .inl ⟨p, found, valid, ?_⟩
    simp [rdsreadSearch, inCache, found, inside p found, valid]
  · have stale : ∀ p, cache.find? (fun p => (r.buff p).rdBlknum == blk) = some p →
        (r.buff p).rdStatus = .invalid := fun p found => by
      cases status : (r.buff p).rdStatus with
      | valid => exact absurd ⟨p, found, status⟩ hit
      | invalid => rfl
    have past : ¬((cache.find? (fun p => (r.buff p).rdBlknum == blk)).getD .ctnext ≠ .ctnext ∧
        (r.buff ((cache.find? (fun p => (r.buff p).rdBlknum == blk)).getD .ctnext)).rdStatus ≠
          .invalid) := by
      cases found : cache.find? (fun p => (r.buff p).rdBlknum == blk) with
      | none => simp
      | some p => simp [stale p found]
    refine .inr ⟨stale, ?_⟩
    by_cases queued : ∃ p, queue.reverse.find? (fun p => (r.buff p).rdBlknum == blk) = some p ∧
        (r.buff p).rdOp = .write
    · obtain ⟨p, found, write⟩ := queued
      refine .inl ⟨p, found, write, ?_⟩
      simp only [rdsreadSearch, inCache, inQueue, Option.bind_eq_bind, Option.bind_some, if_neg past,
        found, Option.getD_some]
      rw [if_pos ⟨requested p found, write⟩]
    · have other : ∀ p, queue.reverse.find? (fun p => (r.buff p).rdBlknum == blk) = some p →
          (r.buff p).rdOp ≠ .write := fun p found write => queued ⟨p, found, write⟩
      refine .inr ⟨other, ?_⟩
      simp only [rdsreadSearch, inCache, inQueue, Option.bind_eq_bind, Option.bind_some, if_neg past]
      refine if_neg ?_
      cases found : queue.reverse.find? (fun p => (r.buff p).rdBlknum == blk) with
      | none => simp
      | some p => simp [other p found]

theorem firstRequest (lists : Conserved r (p :: queue) cache free) : r.rdNext .rhnext = p :=
  (links_between lists.requests).2.1

/-- No node of a list is an end. -/
theorem queue_ne_end (lists : Linked r queue cache free) (member : p ∈ queue) :
    p ≠ .rtnext ∧ p ≠ .rhnext := by
  obtain ⟨i, rfl⟩ := lists.buffers p (by simp [member])
  simp

theorem cache_ne_end (lists : Linked r queue cache free) (member : p ∈ cache) :
    p ≠ .ctnext ∧ p ≠ .chnext := by
  obtain ⟨i, rfl⟩ := lists.buffers p (by simp [member])
  simp

end Searches

section Walks

def queueOf (r : Rdscblk) : List Ptr := follow r.rdNext .rtnext rdBuffs (r.rdNext .rhnext)

def cacheOf (r : Rdscblk) : List Ptr := follow r.rdNext .ctnext rdBuffs (r.rdNext .chnext)

def freeOf (r : Rdscblk) : List Ptr := follow r.rdNext .null rdBuffs r.rdFree

theorem follow_between {next prev : Ptr → Ptr} {head tail : Ptr} {nodes : List Ptr}
    (whole : Queue next prev .null head tail (head :: nodes ++ [tail]))
    (short : nodes.length ≤ rdBuffs) : follow next tail rdBuffs (next head) = nodes := by
  obtain ⟨links, first, -⟩ := links_between whole
  rw [first]
  refine follow_links links (fun member => ?_) _ short
  have nodup := whole.nodup
  grind

theorem follow_freed {next : Ptr → Ptr} {start : Ptr} (freed : Freed next start free)
    (buffers : ∀ p ∈ free, IsBuffer p) (fuel : Nat) (enough : free.length ≤ fuel) :
    follow next .null fuel start = free := by
  induction free generalizing start fuel with
  | nil =>
      have start_null : start = .null := freed
      cases fuel with
      | zero => rfl
      | succ fuel => rw [follow, if_pos start_null]
  | cons node rest induction =>
      obtain ⟨fuel, rfl⟩ : ∃ smaller, fuel = smaller + 1 :=
        ⟨fuel - 1, by simp only [List.length_cons] at enough; omega⟩
      obtain ⟨rfl, further⟩ := freed
      obtain ⟨i, isBuffer⟩ := buffers start (by simp)
      have proper : start ≠ .null := by simp [isBuffer]
      rw [follow, if_neg proper, induction further (fun p member => buffers p (by simp [member]))
        fuel (by simpa using enough)]

/-- The lists are what a walk along them finds. -/
theorem walks (lists : Conserved r queue cache free) :
    queueOf r = queue ∧ cacheOf r = cache ∧ freeOf r = free := by
  have lengths := conserved_lengths lists
  exact ⟨follow_between lists.requests (by omega), follow_between lists.cached (by omega),
    follow_freed lists.freed (fun p member => lists.buffers p (by simp [member])) _ (by omega)⟩

end Walks

section Allocation

/-- A buffer that `rdsbufalloc` takes: the first free one, or a cached one that nobody reads when
none is free. -/
structure Taken (r : Rdscblk) (cache free : List Ptr) (p : Ptr) (cache' free' : List Ptr) :
    Prop where
  source : free = p :: free' ∧ cache' = cache ∨
    free = [] ∧ free' = [] ∧ (r.buff p).rdRefcnt ≤ 0 ∧
      ∃ front back, cache = front ++ p :: back ∧ cache' = front ++ back

theorem taken_perm {cache' free' : List Ptr} (taken : Taken r cache free p cache' free') :
    (p :: (cache' ++ free')).Perm (cache ++ free) := by
  rcases taken.source with ⟨rfl, rfl⟩ | ⟨rfl, rfl, -, front, back, rfl, rfl⟩
  · exact List.perm_middle.symm
  · simpa using List.perm_middle.symm

theorem rdsbufalloc_taken (lists : Conserved r queue cache free) {r' : Rdscblk}
    (got : rdsbufalloc r = some (p, r')) :
    ∃ cache' free', Taken r cache free p cache' free' ∧ Linked r' queue cache' free' ∧
      Loose p queue cache' free' ∧ r'.buff = r.buff ∧ r'.rdState = r.rdState := by
  unfold rdsbufalloc at got
  cases free with
  | cons first rest =>
      obtain ⟨start, linked, loose⟩ := pop_free lists.toLinked
      have filled : r.rdFree ≠ .null := by
        obtain ⟨i, isBuffer⟩ := loose.buffer
        rw [start, isBuffer]
        simp
      rw [if_pos filled] at got
      obtain ⟨rfl, rfl⟩ := Prod.mk.inj (Option.some.inj got)
      rw [start]
      exact ⟨cache, rest, ⟨.inl ⟨rfl, rfl⟩⟩, linked, loose, rfl, rfl⟩
  | nil =>
      have none_free : ¬r.rdFree ≠ .null := not_not.mpr lists.freed
      rw [if_neg none_free, seek_backward lists.cached
        (by have := conserved_lengths lists; omega)] at got
      simp only [Option.bind_eq_bind, Option.bind_some] at got
      cases found : cache.reverse.find? fun p => decide ((r.buff p).rdRefcnt ≤ 0) with
      | none => simp [found] at got
      | some bptr =>
          have member : bptr ∈ cache := List.mem_reverse.mp (List.mem_of_find?_eq_some found)
          have unread : (r.buff bptr).rdRefcnt ≤ 0 := by simpa using List.find?_some found
          simp only [found, Option.getD_some, if_neg (cache_ne_end lists.toLinked member).2,
            Option.some.injEq, Prod.mk.injEq] at got
          obtain ⟨rfl, rfl⟩ := got
          obtain ⟨front, back, rfl⟩ := List.append_of_mem member
          obtain ⟨linked, loose⟩ := unlink_cached lists.toLinked
          exact ⟨front ++ back, [], ⟨.inr ⟨rfl, rfl, unread, front, back, rfl, rfl⟩⟩, linked, loose,
            rfl, rfl⟩

/-- There is a buffer when one is free, or one is cached that nobody reads. -/
theorem rdsbufalloc_some (lists : Conserved r queue cache free)
    (reusable : free ≠ [] ∨ ∃ p ∈ cache, (r.buff p).rdRefcnt ≤ 0) :
    (rdsbufalloc r).isSome = true := by
  unfold rdsbufalloc
  split_ifs with filled
  · rfl
  · have empty : free = [] := by
      cases free with
      | nil => rfl
      | cons first rest =>
          obtain ⟨start, -, loose⟩ := pop_free lists.toLinked
          obtain ⟨i, isBuffer⟩ := loose.buffer
          rw [start, isBuffer] at filled
          simp at filled
    obtain ⟨p, member, unread⟩ := reusable.resolve_left (not_not.mpr empty)
    rw [seek_backward lists.cached (by have := conserved_lengths lists; omega)]
    have found : (cache.reverse.find? fun p => decide ((r.buff p).rdRefcnt ≤ 0)).isSome = true :=
      List.find?_isSome.mpr ⟨p, List.mem_reverse.mpr member, by simpa using unread⟩
    obtain ⟨bptr, isFound⟩ := Option.isSome_iff_exists.mp found
    have inCache : bptr ∈ cache := List.mem_reverse.mp (List.mem_of_find?_eq_some isFound)
    simp [isFound, (cache_ne_end lists.toLinked inCache).2]

end Allocation

section Moves

variable {change : RdBuff → RdBuff}

theorem linked_set (linked : Linked r queue cache free) :
    Linked (r.set p change) queue cache free :=
  linked_congr linked rfl rfl rfl

theorem conserved_set (lists : Conserved r queue cache free) :
    Conserved (r.set p change) queue cache free :=
  ⟨linked_set lists.toLinked, lists.total⟩

/-- A loose buffer becomes a request. -/
theorem conserved_request (linked : Linked r queue cache free) (loose : Loose p queue cache free)
    (total : (queue ++ p :: (cache ++ free)).Perm ((List.range rdBuffs).map .buffer)) :
    Conserved (appendRequest (r.set p change) p) (queue ++ [p]) cache free := by
  refine ⟨append_request (linked_set linked) loose, ?_⟩
  simpa using total

/-- A cached buffer becomes a request. -/
theorem conserved_reuse (lists : Conserved r queue (front ++ p :: back) free) :
    Conserved (appendRequest ((unlinkNode r p).set p change) p) (queue ++ [p]) (front ++ back)
      free := by
  obtain ⟨linked, loose⟩ := unlink_cached lists.toLinked
  refine conserved_request linked loose (Perm.trans ?_ lists.total)
  rw [List.append_assoc queue, List.append_assoc front, List.append_assoc front, List.cons_append]
  exact List.Perm.append_left _ List.perm_middle.symm

/-- The first request becomes a cached buffer. -/
theorem conserved_moveToCache {refcnt : Int} (lists : Conserved r (p :: queue) cache free) :
    Conserved (moveToCache r p refcnt) queue (p :: cache) free := by
  have first : p :: queue = [] ++ p :: queue := rfl
  obtain ⟨linked, loose⟩ := unlink_request (first ▸ lists.toLinked)
  refine ⟨linked_set (insert_cache linked loose), Perm.trans ?_ lists.total⟩
  rw [List.append_assoc, List.append_assoc, List.cons_append, List.cons_append]
  exact List.perm_middle

/-- The first request becomes a free buffer. -/
theorem conserved_release (lists : Conserved r (p :: queue) cache free) :
    Conserved (pushFree (unlinkNode r p) p) queue cache (p :: free) := by
  have first : p :: queue = [] ++ p :: queue := rfl
  obtain ⟨linked, loose⟩ := unlink_request (first ▸ lists.toLinked)
  exact ⟨push_free linked loose, Perm.trans List.perm_middle lists.total⟩

end Moves

section Opened

/-- The lists of a device that has just been opened. -/
theorem conserved_rdsopen (memory : Rdscblk) :
    Conserved (rdsopen memory) [] [] ((List.range rdBuffs).map .buffer) := by
  have chain : ∀ count start, start + count = rdBuffs →
      Freed (rdsopen memory).rdNext (if start < rdBuffs then .buffer start else .null)
        ((List.range' start count).map .buffer) := by
    intro count
    induction count with
    | zero =>
        intro start ends
        have past : ¬start < rdBuffs := by omega
        rw [if_neg past]
        rfl
    | succ count ih =>
        intro start ends
        rw [if_pos (by omega), List.range'_succ, List.map_cons]
        exact ⟨rfl, ih (start + 1) (by omega)⟩
  have free := chain rdBuffs 0 (Nat.zero_add _)
  rw [← List.range_eq_range'] at free
  refine ⟨⟨⟨rfl, rfl, ⟨rfl, rfl, rfl, rfl, trivial⟩, by decide, by decide⟩,
    ⟨rfl, rfl, ⟨rfl, rfl, rfl, rfl, trivial⟩, by decide, by decide⟩, free, ?_, ?_⟩, by simp⟩
  · simpa using List.nodup_range.map fun _ _ same => Ptr.buffer.inj same
  · intro p member
    obtain ⟨i, -, rfl⟩ : ∃ i, i < rdBuffs ∧ Ptr.buffer i = p := by simpa using member
    exact ⟨i, rfl⟩

end Opened

end Xinu.Rds.Lists
