import Xinu.Kernel.HeapRuns

/-!
# Frees at the bounds of a heap

`freemem` and `vfreemem` test where a range starts and whether it meets a free block, and not
where it ends. A run whose frees end in the heap keeps every free block in the heap, and so
every block that is handed out later.
-/

namespace Xinu.Kernel.HeapBounds

open Xinu.Kernel.State Xinu.Kernel.Memory Xinu.Kernel.FreeList Xinu.Kernel.Heap
open Xinu.Kernel.HeapLists Xinu.Kernel.HeapRuns Xinu.Lib.Interleaving

set_option autoImplicit false

section Conditions

/-- The free list of a heap whose blocks all lie in the heap. -/
structure Bounded (low high : Nat) (m : FreeMem) (blocks : List (Nat × Nat)) : Prop where
  represents : Represents m blocks
  spaced : Spaced low high blocks
  even : Even blocks

/-- The tests of the arguments refuse the range. -/
def Refused (low high a nbytes : Nat) : Prop := nbytes = 0 ∨ a < low ∨ high < a

/-- The range is refused, or it ends in the heap when it is rounded to the size of a node. -/
def EndsInside (low high : Nat) (m : FreeMem) (a nbytes : Nat) : Prop :=
  Refused low high a nbytes ∨
    (∃ blocks, Represents m blocks ∧ Overlaps a (roundmb nbytes) blocks) ∨
    a + (nbytes + 7) / 8 * 8 ≤ high

/-- A byte of the node at an address lies in no free block. -/
def StoresOutside (m : FreeMem) (addr : Nat) : Prop :=
  ∃ byte, addr ≤ byte ∧ byte < addr + 8 ∧ ∀ blocks, Represents m blocks → cover byte blocks = 0

/-- Any calls of `getmem` and `freemem`, where every free ends inside. -/
def KeepsInside (minheap maxheap : Nat) (r : Run FreeMem) : HeapCall → Prop
  | .getmem _ => True
  | .freemem blkaddr nbytes => EndsInside minheap maxheap r.heap blkaddr nbytes
  | .store addr _ => StoresOutside r.heap addr
  | .getstk _ => False
  | .freestk _ _ => False

/-- As for the kernel's heap. Before the first `vgetmem` the table entry holds the list of an
earlier process, and a free that searches it has to find a list of this heap. -/
def VheapKeepsInside (hsize : Nat) (r : Run Vheap) : VheapCall → Prop
  | .vgetmem _ => True
  | .vfreemem blkaddr nbytes =>
      EndsInside vheapStart (vheapEnd hsize) r.heap.mem blkaddr nbytes ∧
        (r.heap.vmeminit = true ∨ Refused vheapStart (vheapEnd hsize) blkaddr nbytes ∨
          ∃ blocks, Bounded vheapStart (vheapEnd hsize) r.heap.mem blocks)
  | .store addr _ => r.heap.vmeminit = false ∨ StoresOutside r.heap.mem addr

def Inside (low high : Nat) (ranges : List (Nat × Nat)) : Prop :=
  ∀ range ∈ ranges, low ≤ range.1 ∧ range.1 + range.2 ≤ high

end Conditions

variable {low high n a x nbytes : Nat} {m m' : FreeMem} {block : Nat × Nat}
  {blocks blocks' held : List (Nat × Nat)}

section Lists

theorem chain_unique {node : Nat → Memblk} {start : Nat} (chain : Chain node start blocks)
    (other : Chain node start blocks') : blocks = blocks' := by
  induction blocks generalizing start blocks' with
  | nil =>
      cases blocks' with
      | nil => rfl
      | cons first rest => exact absurd chain other.2.1
  | cons block rest induction =>
      obtain ⟨here, proper, length, linked⟩ := chain
      cases blocks' with
      | nil => exact absurd other proper
      | cons first rest' =>
          obtain ⟨here', _, length', linked'⟩ := other
          have same : block = first := Prod.ext (here.symm.trans here') (length.symm.trans length')
          rw [same, induction linked linked']

theorem represents_unique (represents : Represents m blocks) (other : Represents m blocks') :
    blocks = blocks' := chain_unique represents other

/-- A request that was rounded to zero finds the first free block and leaves it. -/
theorem empty_request {fuel : Nat} (bounded : Bounded low high m blocks) (bound : high < word32)
    (enough : blocks.length < fuel) :
    ∃ result m', firstFit 0 fuel m none m.memlist.mnext = some (result, m') ∧
      Bounded low high m' blocks ∧ (result = sysErrPtr ∨ low ≤ result ∧ result ≤ high) := by
  obtain ⟨fuel, rfl⟩ : ∃ smaller, fuel = smaller + 1 := ⟨fuel - 1, by omega⟩
  obtain ⟨represents, spaced, even⟩ := bounded
  cases blocks with
  | nil =>
      have head : m.memlist.mnext = 0 := represents
      refine ⟨sysErrPtr, m, ?_, ⟨represents, spaced, even⟩, Or.inl rfl⟩
      unfold firstFit
      exact if_pos head
  | cons first rest =>
      have ordered := spaced
      obtain ⟨above, positive, fits, _⟩ := ordered
      have chain : Chain m.node m.memlist.mnext (first :: rest) := represents
      obtain ⟨here, proper, length, _⟩ := chain
      have whole : (m.memlist.mnext + 0) % word32 = m.memlist.mnext :=
        Nat.mod_eq_of_lt (by omega)
      refine ⟨m.memlist.mnext, ((m.setNext none m.memlist.mnext).setNode m.memlist.mnext
        (m.node m.memlist.mnext)).subLength 0, ?_, ⟨?_, spaced, even⟩, Or.inr (by omega)⟩
      · unfold firstFit
        rw [if_neg proper, if_neg (by omega), if_pos (by omega), whole]
        rfl
      · apply represents_length represents
        · exact sub_length_mnext
        · rw [sub_length_node]
          exact Function.update_eq_self _ _

/-- A search keeps the free blocks inside, and what it finds is inside. -/
theorem search_inside (bounded : Bounded low high m blocks) (bound : high < word32)
    (ordered : low ≤ high) (nbytes : Nat) :
    ∃ result m' blocks',
      firstFit (roundmb nbytes) (fuelOf low high) m none m.memlist.mnext = some (result, m') ∧
      Bounded low high m' blocks' ∧
      (result = sysErrPtr ∨ low ≤ result ∧ result + roundmb nbytes ≤ high) := by
  have enough := fuel_enough bounded.spaced ordered
  by_cases wrapped : roundmb nbytes = 0
  · rw [wrapped]
    obtain ⟨result, m', found, bounded', place⟩ := empty_request bounded bound enough
    exact ⟨result, m', blocks, found, bounded', place⟩
  · have positive : 0 < roundmb nbytes := Nat.pos_of_ne_zero wrapped
    rcases get_block_result bounded.spaced bound positive bounded.represents enough with
      ⟨x, m', blocks', found, carved, represents, _⟩ | nothing
    · have inside := carved_spaced carved positive bounded.spaced
      exact ⟨x, m', blocks', found, ⟨represents, inside.1,
        carved_even carved bounded.even (roundmb_bound nbytes).2⟩, Or.inr inside.2⟩
    · exact ⟨sysErrPtr, m, blocks, nothing, bounded, Or.inl rfl⟩

/-- A free that meets the condition keeps the free blocks inside, and takes no range that is
not inside. -/
theorem give_inside (bounded : Bounded low high m blocks) (bound : high < word32)
    (ordered : low ≤ high) (started : 0 < low) (tested : ¬Refused low high a nbytes)
    (ends : EndsInside low high m a nbytes) :
    ∃ status m' blocks', giveBack (fuelOf low high) m a (roundmb nbytes) = some (status, m') ∧
      Bounded low high m' blocks' ∧ (status = ok → low ≤ a ∧ a + nbytes ≤ high) := by
  have enough := fuel_enough bounded.spaced ordered
  unfold Refused at tested
  by_cases overlaps : Overlaps a (roundmb nbytes) blocks
  · refine ⟨sysErr, m, blocks,
      give_back_refused bounded.spaced bound bounded.represents enough overlaps, bounded, ?_⟩
    intro accepted
    exact absurd accepted (by decide)
  · have fits : a + (nbytes + 7) / 8 * 8 ≤ high := by
      rcases ends with refused | ⟨others, represents, meets⟩ | fits
      · exact absurd refused tested
      · rw [represents_unique represents bounded.represents] at meets
        exact absurd meets overlaps
      · exact fits
    have size : roundmb nbytes = (nbytes + 7) / 8 * 8 := by
      apply roundmb_fits
      unfold word32 at bound ⊢
      omega
    obtain ⟨m', blocks', gave, represents, joined, _⟩ := give_back_joined bounded.spaced bound
      bounded.represents enough started (show low ≤ a by omega)
      (show a + roundmb nbytes ≤ high by omega) (by omega) overlaps
    exact ⟨ok, m', blocks', gave, ⟨represents,
      joined_spaced joined (by omega) (by omega) (by omega) bounded.spaced,
      joined_even joined bounded.even (roundmb_bound nbytes).2⟩, fun _ => by omega⟩

theorem store_inside (bounded : Bounded low high m blocks) (value : Memblk)
    (outside : StoresOutside m a) : Bounded low high (m.setNode a value) blocks := by
  obtain ⟨byte, above, below, free⟩ := outside
  refine ⟨chain_store bounded.represents ?_ ⟨byte, above, below, free _ bounded.represents⟩,
    bounded.spaced, bounded.even⟩
  intro block member
  have rounded := bounded.even block member
  have positive := (spaced_above bounded.spaced member).2.1
  omega

end Lists

section Runs

theorem inside_nil : Inside low high [] := by
  intro range member
  cases member

variable {Heap : Type} {r : Run Heap} {heap : Heap} {result start rounded : Nat} {status : Int}

theorem got_inside (handed : Inside low high r.handed) (accepted : Inside low high r.accepted)
    (place : result = sysErrPtr ∨ low ≤ start ∧ start + n ≤ high) :
    Inside low high (r.got result start n heap).handed ∧
      Inside low high (r.got result start n heap).accepted := by
  unfold Run.got
  split_ifs with failed
  · exact ⟨handed, accepted⟩
  · refine ⟨?_, accepted⟩
    intro range member
    rcases List.mem_cons.mp member with rfl | earlier
    · exact place.resolve_left failed
    · exact handed range earlier

theorem gave_inside (handed : Inside low high r.handed) (accepted : Inside low high r.accepted)
    (place : status = ok → low ≤ a ∧ a + nbytes ≤ high) :
    Inside low high (r.gave status a nbytes rounded heap).handed ∧
      Inside low high (r.gave status a nbytes rounded heap).accepted := by
  unfold Run.gave
  split_ifs with took
  · refine ⟨handed, ?_⟩
    intro range member
    rcases List.mem_cons.mp member with rfl | earlier
    · exact place took
    · exact accepted range earlier
  · exact ⟨handed, accepted⟩

theorem got_heap : (r.got result start n heap).heap = heap := by
  unfold Run.got
  split_ifs <;> rfl

theorem gave_heap : (r.gave status a nbytes rounded heap).heap = heap := by
  unfold Run.gave
  split_ifs <;> rfl

end Runs

section KernelHeap

variable {minheap maxheap : Nat} {r r' : Run FreeMem} {call : HeapCall}

/-- The free blocks, the blocks that were handed out and the ranges that were taken back. -/
structure Contained (minheap maxheap : Nat) (r : Run FreeMem) : Prop where
  free : ∃ blocks, Bounded minheap maxheap r.heap blocks
  ranges : Inside minheap maxheap r.handed ∧ Inside minheap maxheap r.accepted

theorem keeps_inside_step (contained : Contained minheap maxheap r) (bound : maxheap < word32)
    (ordered : minheap ≤ maxheap) (started : 0 < minheap)
    (may : KeepsInside minheap maxheap r call) :
    ∃ r', heapAct minheap maxheap r call = some r' ∧ Contained minheap maxheap r' := by
  obtain ⟨⟨blocks, bounded⟩, ranges⟩ := contained
  cases call with
  | getmem nbytes =>
      by_cases asked : nbytes = 0
      · have failed : r.got sysErrPtr sysErrPtr (roundmb nbytes) r.heap = r := if_pos rfl
        refine ⟨r, ?_, ⟨blocks, bounded⟩, ranges⟩
        simp only [heapAct, getmem, if_pos asked, Option.map_some, failed]
      · obtain ⟨result, m', blocks', found, bounded', place⟩ :=
          search_inside bounded bound ordered nbytes
        refine ⟨r.got result result (roundmb nbytes) m', ?_, ⟨blocks', ?_⟩,
          got_inside ranges.1 ranges.2 place⟩
        · simp only [heapAct, getmem, if_neg asked, found, Option.map_some]
        · rw [got_heap]
          exact bounded'
  | freemem blkaddr nbytes =>
      by_cases refused : Refused minheap maxheap blkaddr nbytes
      · refine ⟨r, ?_, ⟨blocks, bounded⟩, ranges⟩
        have kept : r.gave sysErr blkaddr nbytes (roundmb nbytes) r.heap = r :=
          if_neg (by decide)
        unfold Refused at refused
        simp only [heapAct, Heap.freemem, if_pos refused, Option.map_some, kept]
      · obtain ⟨status, m', blocks', gave, bounded', place⟩ :=
          give_inside bounded bound ordered started refused may
        refine ⟨r.gave status blkaddr nbytes (roundmb nbytes) m', ?_, ⟨blocks', ?_⟩,
          gave_inside ranges.1 ranges.2 place⟩
        · unfold Refused at refused
          simp only [heapAct, Heap.freemem, if_neg refused, gave, Option.map_some]
        · rw [gave_heap]
          exact bounded'
  | store addr value =>
      exact ⟨_, rfl, ⟨blocks, store_inside bounded value may⟩, ranges⟩
  | getstk _ => exact may.elim
  | freestk _ _ => exact may.elim

theorem keeps_inside_reached (ordered : minheap < maxheap) (bound : maxheap < word32)
    (started : 0 < minheap) (rounded : (maxheap - minheap) % 8 = 0)
    (run : Reached (heapAct minheap maxheap) (HeapStart minheap maxheap)
      (KeepsInside minheap maxheap) r) : Contained minheap maxheap r := by
  refine reached_invariant run ?_ ?_
  · intro r start
    obtain ⟨blocks, parts⟩ := heap_start_partitions ordered started rounded start
    obtain ⟨m, rfl⟩ := start
    exact ⟨⟨blocks, parts.represents, parts.spaced, parts.even⟩, inside_nil, inside_nil⟩
  · intro r r' call contained may did
    obtain ⟨next, act, contained'⟩ :=
      keeps_inside_step contained bound (Nat.le_of_lt ordered) started may
    rw [act] at did
    cases did
    exact contained'

end KernelHeap

section VirtualHeap

variable {hsize : Nat} {r r' : Run Vheap} {call : VheapCall}

/-- The same of the heap of a process, whose free list is set up by its first allocation. -/
structure VheapContained (hsize : Nat) (r : Run Vheap) : Prop where
  size : r.heap.hsize = hsize
  virtual : r.heap.vh = true
  free : r.heap.vmeminit = true →
    ∃ blocks, Bounded vheapStart (vheapEnd hsize) r.heap.mem blocks
  ranges : Inside vheapStart (vheapEnd hsize) r.handed ∧
    Inside vheapStart (vheapEnd hsize) r.accepted

theorem vgetmem_inside (contained : VheapContained hsize r)
    (bound : vheapStart + nbpg * hsize < word32) (paged : r.heap.vmeminit = true ∨ hsize ≠ 0)
    (asked : nbytes ≠ 0) :
    ∃ r', vheapAct r (.vgetmem nbytes) = some r' ∧ VheapContained hsize r' := by
  obtain ⟨size, virtual, free, ranges⟩ := contained
  have ends := vheap_end bound
  have alive : ¬(r.heap.vmeminit = false ∧ r.heap.hsize = 0 ∧ nbytes ≠ 0) := by
    rintro ⟨unset, none, _⟩
    rcases paged with set | paged
    · exact absurd (set.symm.trans unset) (by decide)
    · exact paged (size.symm.trans none)
  obtain ⟨p, blocks, chosen, size', virtual', bounded⟩ : ∃ p blocks,
      (if r.heap.vmeminit = false then vmeminit r.heap else r.heap) = p ∧ p.hsize = hsize ∧
        p.vh = true ∧ Bounded vheapStart (vheapEnd hsize) p.mem blocks := by
    by_cases unset : r.heap.vmeminit = false
    · have pages : hsize ≠ 0 := fun none => alive ⟨unset, size.trans none, asked⟩
      have parts := vmeminit_partitions bound pages size
      exact ⟨_, _, if_pos unset, size, virtual, parts.represents, parts.spaced, parts.even⟩
    · obtain ⟨blocks, bounded⟩ := free (by simpa using unset)
      exact ⟨_, blocks, if_neg unset, size, virtual, bounded⟩
  obtain ⟨result, m', blocks', found, bounded', place⟩ :=
    search_inside bounded (by omega) (by omega) nbytes
  refine ⟨r.got result result (roundmb nbytes) { p with mem := m' }, ?_, ?_⟩
  · simp only [vheapAct]
    rw [if_neg alive]
    simp only [vgetmem, if_neg asked, virtual, Bool.true_eq_false, if_false, chosen, size, found,
      Option.map_some]
  · refine ⟨?_, ?_, fun _ => ⟨blocks', ?_⟩, got_inside ranges.1 ranges.2 place⟩ <;> rw [got_heap]
    · exact size'
    · exact virtual'
    · exact bounded'

theorem vfreemem_inside {blkaddr : Nat} (contained : VheapContained hsize r)
    (bound : vheapStart + nbpg * hsize < word32)
    (may : VheapKeepsInside hsize r (.vfreemem blkaddr nbytes)) :
    ∃ r', vheapAct r (.vfreemem blkaddr nbytes) = some r' ∧ VheapContained hsize r' := by
  have whole := contained
  obtain ⟨size, virtual, free, ranges⟩ := contained
  obtain ⟨ending, found⟩ := may
  have ends := vheap_end bound
  by_cases refused : Refused vheapStart (vheapEnd hsize) blkaddr nbytes
  · refine ⟨r, ?_, whole⟩
    have kept : r.gave sysErr blkaddr nbytes (roundmb nbytes) r.heap = r := if_neg (by decide)
    unfold Refused at refused
    simp only [vheapAct, vfreemem, size, if_pos refused, Option.map_some, kept]
  · have list : ∃ blocks, Bounded vheapStart (vheapEnd hsize) r.heap.mem blocks := by
      rcases found with set | tested | listed
      · exact free set
      · exact absurd tested refused
      · exact listed
    obtain ⟨blocks, bounded⟩ := list
    obtain ⟨status, m', blocks', gave, bounded', place⟩ :=
      give_inside bounded (by omega) (by omega) (by decide) refused ending
    refine ⟨r.gave status blkaddr nbytes (roundmb nbytes) { r.heap with mem := m' }, ?_, ?_⟩
    · unfold Refused at refused
      simp only [vheapAct, vfreemem, size, if_neg refused, virtual, Bool.true_eq_false, if_false,
        gave, Option.map_some]
    · refine ⟨?_, ?_, fun _ => ⟨blocks', ?_⟩, gave_inside ranges.1 ranges.2 place⟩ <;>
        rw [gave_heap]
      · exact size
      · exact virtual
      · exact bounded'

theorem vheap_keeps_inside_step (contained : VheapContained hsize r)
    (bound : vheapStart + nbpg * hsize < word32) (may : VheapKeepsInside hsize r call) :
    hsize = 0 ∧ vheapAct r call = none ∨
      ∃ r', vheapAct r call = some r' ∧ VheapContained hsize r' := by
  cases call with
  | vgetmem nbytes =>
      by_cases asked : nbytes = 0
      · have failed : r.got sysErrPtr sysErrPtr (roundmb nbytes) r.heap = r := if_pos rfl
        refine Or.inr ⟨r, ?_, contained⟩
        simp only [vheapAct, asked, ne_eq, not_true, and_false, if_false, vgetmem, if_true,
          Option.map_some]
        rw [asked] at failed
        rw [failed]
      · by_cases paged : r.heap.vmeminit = true ∨ hsize ≠ 0
        · exact Or.inr (vgetmem_inside contained bound paged asked)
        · obtain ⟨unset, none⟩ := not_or.mp paged
          have empty : hsize = 0 := by simpa using none
          refine Or.inl ⟨empty, if_pos ⟨by simpa using unset, contained.size.trans empty, asked⟩⟩
  | vfreemem blkaddr nbytes => exact Or.inr (vfreemem_inside contained bound may)
  | store addr value =>
      refine Or.inr ⟨_, rfl, contained.size, contained.virtual, ?_, contained.ranges⟩
      intro set
      obtain ⟨blocks, bounded⟩ := contained.free set
      rcases may with unset | outside
      · exact absurd (set.symm.trans unset) (by decide)
      · exact ⟨blocks, store_inside bounded value outside⟩

theorem vheap_keeps_inside_reached (bound : vheapStart + nbpg * hsize < word32)
    (run : Reached vheapAct (VheapStart hsize) (VheapKeepsInside hsize) r) :
    VheapContained hsize r := by
  refine reached_invariant run ?_ ?_
  · rintro r ⟨mem, rfl⟩
    exact ⟨rfl, rfl, fun set => absurd set Bool.false_ne_true, inside_nil, inside_nil⟩
  · intro r r' call contained may did
    rcases vheap_keeps_inside_step contained bound may with ⟨_, died⟩ | ⟨next, act, contained'⟩
    · rw [died] at did
      cases did
    · rw [act] at did
      cases did
      exact contained'

end VirtualHeap

section Results

/-- In a run whose frees end in the heap, every free block, every block handed out and every
range taken back is in the heap, and every call returns. -/
theorem frees_keep_inside (minheap maxheap hsize : Nat) :
    (∀ r : Run FreeMem, 0 < minheap → minheap < maxheap → maxheap < word32 →
      (maxheap - minheap) % 8 = 0 →
      Reached (heapAct minheap maxheap) (HeapStart minheap maxheap)
          (KeepsInside minheap maxheap) r →
        Contained minheap maxheap r ∧ ∀ call, KeepsInside minheap maxheap r call →
          ∃ r', heapAct minheap maxheap r call = some r') ∧
    ∀ r : Run Vheap, vheapStart + nbpg * hsize < word32 →
      Reached vheapAct (VheapStart hsize) (VheapKeepsInside hsize) r →
        VheapContained hsize r ∧ (hsize ≠ 0 → ∀ call, VheapKeepsInside hsize r call →
          ∃ r', vheapAct r call = some r') := by
  refine ⟨?_, ?_⟩
  · intro r started ordered bound rounded run
    have contained := keeps_inside_reached ordered bound started rounded run
    refine ⟨contained, fun call may => ?_⟩
    obtain ⟨r', act, _⟩ :=
      keeps_inside_step contained bound (Nat.le_of_lt ordered) started may
    exact ⟨r', act⟩
  · intro r bound run
    have contained := vheap_keeps_inside_reached bound run
    refine ⟨contained, fun paged call may => ?_⟩
    rcases vheap_keeps_inside_step contained bound may with ⟨none, _⟩ | ⟨r', act, _⟩
    · exact absurd none paged
    · exact ⟨r', act⟩

theorem frees_keep_inside_one :
    ∃ r, heapAct 1048576 4194304 (firstRun 1048576 4194304) (.freemem 4194296 16) = some r ∧
      Contained 1048576 4194304 r := by
  have start : Reached (heapAct 1048576 4194304) (HeapStart 1048576 4194304)
      (KeepsInside 1048576 4194304) (firstRun 1048576 4194304) := .start ⟨emptyMem, rfl⟩
  have first := (frees_keep_inside 1048576 4194304 0).1 _ (by decide) (by decide) (by decide)
    (by decide) start
  -- the whole heap is free, so that the range meets the free block
  have whole : Represents (firstRun 1048576 4194304).heap [(1048576, 3145728)] := by
    refine ⟨rfl, by decide, rfl, rfl⟩
  have may : KeepsInside 1048576 4194304 (firstRun 1048576 4194304) (.freemem 4194296 16) :=
    Or.inr (Or.inl ⟨_, whole, Or.inl ⟨_, List.mem_singleton.mpr rfl, by decide, by decide⟩⟩)
  obtain ⟨r, act⟩ := first.2 _ may
  exact ⟨r, act, ((frees_keep_inside 1048576 4194304 0).1 r (by decide) (by decide) (by decide)
    (by decide) (.step start may act)).1⟩

/-- The whole heap is taken, and a free of the last eight bytes and eight more is accepted; the
next request gets them. -/
theorem free_behind_heap :
    ∃ r, Reached (heapAct 1048576 4194304) (HeapStart 1048576 4194304) (fun _ _ => True) r ∧
      ¬Inside 1048576 4194304 r.accepted ∧ ¬Inside 1048576 4194304 r.handed := by
  let events : List HeapCall := [.getmem 3145728, .freemem 4194296 16, .getmem 16]
  have start : Reached (heapAct 1048576 4194304) (HeapStart 1048576 4194304) (fun _ _ => True)
      (firstRun 1048576 4194304) := .start ⟨emptyMem, rfl⟩
  have results : ((takeEvents (heapAct 1048576 4194304) (fun _ _ => True) events
      (firstRun 1048576 4194304)).map fun r => (r.accepted, r.handed)) =
        some ([(4194296, 16)], [(4194296, 16), (1048576, 3145728)]) := by
    decide +kernel
  obtain ⟨r, took, ranges⟩ := Option.map_eq_some_iff.mp results
  obtain ⟨accepted, handed⟩ := Prod.mk.inj ranges
  refine ⟨r, take_events start took, ?_, ?_⟩
  · intro inside
    exact absurd (inside (4194296, 16) (by rw [accepted]; simp)).2 (by decide)
  · intro inside
    exact absurd (inside (4194296, 16) (by rw [handed]; simp)).2 (by decide)

end Results

end Xinu.Kernel.HeapBounds
