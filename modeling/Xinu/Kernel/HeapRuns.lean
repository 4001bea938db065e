import Xinu.Kernel.HeapLists

/-!
# Runs of the heap allocators

A run keeps the blocks that are out, every block that was handed out and every range whose
free returned `OK`. Between the calls the programs write to their memory, which changes the
nodes that lie there.
-/

namespace Xinu.Kernel.HeapRuns

open Xinu.Kernel.State Xinu.Kernel.Memory Xinu.Kernel.FreeList Xinu.Kernel.Heap
open Xinu.Kernel.HeapLists Xinu.Lib.Interleaving

set_option autoImplicit false

section Systems

structure Run (Heap : Type) where
  heap : Heap
  held : List (Nat × Nat)
  handed : List (Nat × Nat)
  accepted : List (Nat × Nat)

namespace Run

variable {Heap : Type} (r : Run Heap)

/-- What an allocation of `nbytes` bytes that begin at `start` leaves. -/
def got (result start nbytes : Nat) (heap : Heap) : Run Heap :=
  if result = sysErrPtr then { r with heap := heap }
  else
    { heap := heap
      held := (start, nbytes) :: r.held
      handed := (start, nbytes) :: r.handed
      accepted := r.accepted }

/-- What a free of `nbytes` bytes, `rounded` to the size of a node, leaves. -/
def gave (status : Int) (start nbytes rounded : Nat) (heap : Heap) : Run Heap :=
  if status = ok then
    { heap := heap
      held := r.held.erase (start, rounded)
      handed := r.handed
      accepted := (start, nbytes) :: r.accepted }
  else { r with heap := heap }

end Run

inductive HeapCall where
  | getmem (nbytes : Nat)
  | getstk (nbytes : Nat)
  | freemem (blkaddr nbytes : Nat)
  | freestk (addr len : Nat)
  | store (addr : Nat) (value : Memblk)

/-- More steps than there are blocks in a heap. -/
def fuelOf (low high : Nat) : Nat := high - low + 1

/-- The first byte of a stack, of which `getstk` returns the last word. -/
def stackBase (addr len : Nat) : Nat := (addr + word32 - roundmb len + 4) % word32

def heapAct (minheap maxheap : Nat) (r : Run FreeMem) : HeapCall → Option (Run FreeMem)
  | .getmem nbytes =>
      (getmem (fuelOf minheap maxheap) r.heap nbytes).map fun result =>
        r.got result.1 result.1 (roundmb nbytes) result.2
  | .getstk nbytes =>
      (Heap.getstk (fuelOf minheap maxheap) r.heap nbytes).map fun result =>
        r.got result.1 (stackBase result.1 nbytes) (roundmb nbytes) result.2
  | .freemem blkaddr nbytes =>
      (Heap.freemem (fuelOf minheap maxheap) minheap maxheap r.heap blkaddr nbytes).map fun result =>
        r.gave result.1 blkaddr nbytes (roundmb nbytes) result.2
  | .freestk addr len =>
      (Heap.freestk (fuelOf minheap maxheap) minheap maxheap r.heap addr len).map fun result =>
        r.gave result.1 (stackBase addr len) (roundmb len) (roundmb len) result.2
  | .store addr value => some { r with heap := r.heap.setNode addr value }

def HeapStart (minheap maxheap : Nat) (r : Run FreeMem) : Prop :=
  ∃ m, r = { heap := meminit minheap maxheap m, held := [], handed := [], accepted := [] }

inductive VheapCall where
  | vgetmem (nbytes : Nat)
  | vfreemem (blkaddr nbytes : Nat)
  | store (addr : Nat) (value : Memblk)

/-- In a heap without a page the first store of `vmeminit` ends the process. -/
def vheapAct (r : Run Vheap) : VheapCall → Option (Run Vheap)
  | .vgetmem nbytes =>
      if r.heap.vmeminit = false ∧ r.heap.hsize = 0 ∧ nbytes ≠ 0 then none
      else
        (vgetmem (fuelOf vheapStart (vheapEnd r.heap.hsize)) r.heap nbytes).map fun result =>
          r.got result.1 result.1 (roundmb nbytes) result.2
  | .vfreemem blkaddr nbytes =>
      (vfreemem (fuelOf vheapStart (vheapEnd r.heap.hsize)) r.heap blkaddr nbytes).map fun result =>
        r.gave result.1 blkaddr nbytes (roundmb nbytes) result.2
  | .store addr value =>
      some { r with heap := { r.heap with mem := r.heap.mem.setNode addr value } }

/-- A process with a virtual heap as `vcreate` leaves it. The fields of its free list and the
pages of its heap hold anything. -/
def VheapStart (hsize : Nat) (r : Run Vheap) : Prop :=
  ∃ mem, r =
    { heap := { vh := true, hsize := hsize, vmeminit := false, mem := mem }
      held := []
      handed := []
      accepted := [] }

end Systems

section Discipline

/-- A byte of the node at an address lies in a block that is out. -/
def StoresInside (held : List (Nat × Nat)) (addr : Nat) : Prop :=
  ∃ byte, addr ≤ byte ∧ byte < addr + 8 ∧ 0 < cover byte held

/-- Requests round without a wrap, and frees give back what was obtained. -/
def Disciplined (r : Run FreeMem) : HeapCall → Prop
  | .getmem nbytes => nbytes + 7 < word32
  | .getstk nbytes => nbytes + 7 < word32
  | .freemem blkaddr nbytes => (blkaddr, roundmb nbytes) ∈ r.held
  | .freestk addr len => (stackBase addr len, roundmb len) ∈ r.held
  | .store addr _ => StoresInside r.held addr

def VheapDisciplined (r : Run Vheap) : VheapCall → Prop
  | .vgetmem nbytes => nbytes + 7 < word32
  | .vfreemem blkaddr nbytes => (blkaddr, roundmb nbytes) ∈ r.held
  | .store addr _ => StoresInside r.held addr

/-- The free blocks are in order with gaps between them and even lengths that add up to the
length in the head, and every address of the heap lies in one free block or in one block that
is out. -/
structure Partitions (low high : Nat) (m : FreeMem) (held blocks : List (Nat × Nat)) : Prop where
  represents : Represents m blocks
  spaced : Spaced low high blocks
  even : Even blocks
  length : m.memlist.mlength = total blocks
  parts : ∀ address, cover address blocks + cover address held =
    if low ≤ address ∧ address < high then 1 else 0
  positive : ∀ block ∈ held, 0 < block.2

end Discipline

variable {low high n a x nbytes : Nat} {m m' : FreeMem} {block : Nat × Nat}
  {blocks blocks' held : List (Nat × Nat)}

section Bounds

theorem length_le_total (spaced : Spaced low high blocks) : blocks.length ≤ total blocks := by
  induction blocks generalizing low with
  | nil => simp
  | cons first rest induction =>
      obtain ⟨_, positive, _, spacedRest⟩ := spaced
      have restLength := induction spacedRest
      simp only [List.length_cons, total_cons]
      omega

theorem total_within (spaced : Spaced low high blocks) (ordered : low ≤ high) :
    total blocks + low ≤ high := by
  have sum := total_le spaced
  rw [Nat.max_eq_right ordered] at sum
  exact sum

theorem fuel_enough (spaced : Spaced low high blocks) (ordered : low ≤ high) :
    blocks.length < fuelOf low high := by
  have count := length_le_total spaced
  have sum := total_within spaced ordered
  unfold fuelOf
  omega

theorem roundmb_fits (short : nbytes + 7 < word32) : roundmb nbytes = (nbytes + 7) / 8 * 8 := by
  unfold roundmb
  rw [Nat.add_comm 7, Nat.mod_eq_of_lt short]

theorem cover_member (member : block ∈ blocks) (above : block.1 ≤ a)
    (below : a < block.1 + block.2) : 0 < cover a blocks := by
  unfold cover
  exact List.countP_pos_iff.mpr ⟨block, member, by simp [above, below]⟩

theorem cover_erase (member : block ∈ held) (address : Nat) :
    cover address held = cover address (held.erase block) + cover address [block] := by
  have same := (List.perm_cons_erase member).countP_eq
    fun block : Nat × Nat => decide (block.1 ≤ address ∧ address < block.1 + block.2)
  have split := @cover_append [block] (held.erase block) address
  unfold cover at *
  rw [same, Nat.add_comm]
  exact split

/-- A store that touches a byte outside of a block does not change the node of the block. -/
theorem chain_store {node : Nat → Memblk} {start : Nat} {value : Memblk}
    (chain : Chain node start blocks) (wide : ∀ block ∈ blocks, 8 ≤ block.2)
    (outside : ∃ byte, a ≤ byte ∧ byte < a + 8 ∧ cover byte blocks = 0) :
    Chain (Function.update node a value) start blocks := by
  obtain ⟨byte, above, below, free⟩ := outside
  refine chain_congr chain ?_
  intro block member
  have different : block.1 ≠ a := by
    intro same
    have long := wide block member
    have covered := cover_member member (show block.1 ≤ byte by omega) (by omega)
    omega
  exact Function.update_of_ne different _ _

end Bounds

section Steps

/-- An allocation moves its block from the free ones to those that are out. -/
theorem carved_partitions (parts : Partitions low high m held blocks) (bound : high < word32)
    (ordered : low ≤ high) (carved : Carved n x blocks blocks') (represents : Represents m' blocks')
    (length : m'.memlist.mlength = (m.memlist.mlength + word32 - n) % word32) (positive : 0 < n)
    (rounded : n % 8 = 0) : Partitions low high m' ((x, n) :: held) blocks' := by
  have sum := carved_total carved
  have within := total_within parts.spaced ordered
  refine ⟨represents, (carved_spaced carved positive parts.spaced).1,
    carved_even carved parts.even rounded, ?_, ?_, ?_⟩
  · rw [length, parts.length, sum]
    have same : total blocks' + n + word32 - n = total blocks' + word32 := by omega
    rw [same, Nat.add_mod_right]
    exact Nat.mod_eq_of_lt (by omega)
  · intro address
    have split := carved_cover carved address
    rw [← parts.parts address, split]
    simp only [cover_cons, cover_nil]
    omega
  · intro block member
    rcases List.mem_cons.mp member with rfl | out
    · exact positive
    · exact parts.positive block out

/-- A block that is out lies in the heap, and no free block overlaps it. -/
theorem held_apart (parts : Partitions low high m held blocks) (bound : high < word32)
    (member : (a, n) ∈ held) :
    0 < n ∧ low ≤ a ∧ a + n ≤ high ∧ ¬Overlaps a n blocks := by
  have positive : 0 < n := parts.positive _ member
  have out : ∀ address, a ≤ address → address < a + n →
      (low ≤ address ∧ address < high) ∧ cover address blocks = 0 := by
    intro address above below
    have covered := cover_member member above below
    have once := parts.parts address
    split at once
    · rename_i inside
      exact ⟨inside, by omega⟩
    · omega
  have first := out a (Nat.le_refl a) (by omega)
  have last := out (a + n - 1) (by omega) (by omega)
  refine ⟨positive, first.1.1, by omega, ?_⟩
  rintro (⟨block, inList, start, ends⟩ | ⟨block, inList, start, ends⟩)
  · have covered := cover_member inList (Nat.le_of_lt start) ends
    omega
  · rw [Nat.mod_eq_of_lt (show a + n < word32 by omega)] at ends
    have long := (spaced_above parts.spaced inList).2.1
    have covered := cover_member inList (Nat.le_refl block.1) (by omega)
    have free := out block.1 start ends
    omega

/-- A free moves its block back. -/
theorem joined_partitions (parts : Partitions low high m held blocks) (bound : high < word32)
    (ordered : low ≤ high) (member : (a, n) ∈ held) (joined : Joined a n blocks blocks')
    (represents : Represents m' blocks')
    (length : m'.memlist.mlength = (m.memlist.mlength + n) % word32) (rounded : n % 8 = 0) :
    Partitions low high m' (held.erase (a, n)) blocks' := by
  obtain ⟨positive, above, inside, _⟩ := held_apart parts bound member
  have spaced := joined_spaced joined positive above inside parts.spaced
  have within := total_within spaced ordered
  have sum := joined_total joined
  refine ⟨represents, spaced, joined_even joined parts.even rounded, ?_, ?_, ?_⟩
  · rw [length, parts.length, ← sum]
    exact Nat.mod_eq_of_lt (by omega)
  · intro address
    have moved := cover_erase member address
    have put := joined_cover joined address
    rw [← parts.parts address, put]
    omega
  · exact fun block out => parts.positive block (List.mem_of_mem_erase out)

/-- A program that writes to a block it holds leaves the free list alone. -/
theorem store_partitions (parts : Partitions low high m held blocks) (value : Memblk)
    (inside : StoresInside held a) : Partitions low high (m.setNode a value) held blocks := by
  obtain ⟨byte, above, below, out⟩ := inside
  refine ⟨?_, parts.spaced, parts.even, parts.length, parts.parts, parts.positive⟩
  refine chain_store parts.represents ?_ ⟨byte, above, below, ?_⟩
  · intro block member
    have rounded := parts.even block member
    have positive := (spaced_above parts.spaced member).2.1
    omega
  · have once := parts.parts byte
    split at once <;> omega

end Steps

section Calls

/-- What a search for a block of `n` bytes leaves. -/
theorem search_partitions (parts : Partitions low high m held blocks) (bound : high < word32)
    (ordered : low ≤ high) (positive : 0 < n) (rounded : n % 8 = 0) :
    ∃ result m', firstFit n (fuelOf low high) m none m.memlist.mnext = some (result, m') ∧
      (result = sysErrPtr ∧ m' = m ∨
        result ≠ sysErrPtr ∧ ∃ blocks', Partitions low high m' ((result, n) :: held) blocks') := by
  rcases get_block_result parts.spaced bound positive parts.represents
    (fuel_enough parts.spaced ordered) with ⟨x, m', blocks', found, carved, represents, length⟩ |
      nothing
  · refine ⟨x, m', found, Or.inr ⟨?_, blocks', carved_partitions parts bound ordered carved
      represents length positive rounded⟩⟩
    have inside := (carved_spaced carved positive parts.spaced).2.2
    unfold sysErrPtr
    unfold word32 at bound
    omega
  · exact ⟨sysErrPtr, m, nothing, Or.inl ⟨rfl, rfl⟩⟩

theorem getstk_partitions (parts : Partitions low high m held blocks) (bound : high < word32)
    (ordered : low ≤ high) (short : nbytes + 7 < word32) :
    ∃ result m', Heap.getstk (fuelOf low high) m nbytes = some (result, m') ∧
      (result = sysErrPtr ∧ m' = m ∨ result ≠ sysErrPtr ∧ ∃ blocks',
        Partitions low high m' ((stackBase result nbytes, roundmb nbytes) :: held) blocks') := by
  by_cases asked : nbytes = 0
  · exact ⟨sysErrPtr, m, if_pos asked, Or.inl ⟨rfl, rfl⟩⟩
  · have size := roundmb_fits short
    have rounded := (roundmb_bound nbytes).2
    have large : 8 ≤ roundmb nbytes := by omega
    rcases getstk_result parts.spaced bound asked large parts.represents
      (fuel_enough parts.spaced ordered) with ⟨x, m', blocks', found, carved, represents, length⟩ |
        nothing
    · have inside := (carved_spaced carved (by omega) parts.spaced).2.2
      unfold word32 at bound
      have base : stackBase (x + roundmb nbytes - 4) nbytes = x := by
        unfold stackBase word32
        omega
      refine ⟨_, m', found, Or.inr ⟨?_, blocks', ?_⟩⟩
      · unfold sysErrPtr
        omega
      · rw [base]
        exact carved_partitions parts bound ordered carved represents length (by omega) rounded
    · exact ⟨sysErrPtr, m, nothing, Or.inl ⟨rfl, rfl⟩⟩

theorem give_partitions (parts : Partitions low high m held blocks) (bound : high < word32)
    (ordered : low ≤ high) (started : 0 < low) (member : (a, n) ∈ held) (rounded : n % 8 = 0) :
    ∃ m' blocks', giveBack (fuelOf low high) m a n = some (ok, m') ∧
      Partitions low high m' (held.erase (a, n)) blocks' := by
  obtain ⟨positive, above, inside, free⟩ := held_apart parts bound member
  obtain ⟨m', blocks', gave, represents, joined, length⟩ :=
    give_back_joined parts.spaced bound parts.represents (fuel_enough parts.spaced ordered) started
      above inside positive free
  exact ⟨m', blocks', gave,
    joined_partitions parts bound ordered member joined represents length rounded⟩

/-- The block that a list begins with covers the heap. -/
theorem whole_partitions (ordered : low < high) (rounded : (high - low) % 8 = 0)
    (represents : Represents m [(low, high - low)]) (length : m.memlist.mlength = high - low) :
    Partitions low high m [] [(low, high - low)] := by
  refine ⟨represents, ⟨Nat.le_refl low, ?_, ?_, trivial⟩, ?_, ?_, ?_, ?_⟩
  · change 0 < high - low
    omega
  · change low + (high - low) ≤ high
    omega
  · intro block member
    rw [List.mem_singleton.mp member]
    exact rounded
  · rw [length]
    simp
  · intro address
    simp only [cover_cons, cover_nil]
    split_ifs <;> omega
  · intro block member
    cases member

end Calls

section KernelHeap

variable {minheap maxheap : Nat} {r r' : Run FreeMem} {call : HeapCall}

theorem freemem_partitions (parts : Partitions minheap maxheap m held blocks)
    (bound : maxheap < word32) (ordered : minheap ≤ maxheap) (started : 0 < minheap)
    (member : (a, roundmb nbytes) ∈ held) :
    ∃ m' blocks', Heap.freemem (fuelOf minheap maxheap) minheap maxheap m a nbytes = some (ok, m') ∧
      Partitions minheap maxheap m' (held.erase (a, roundmb nbytes)) blocks' := by
  obtain ⟨positive, above, inside, _⟩ := held_apart parts bound member
  obtain ⟨m', blocks', gave, parts'⟩ :=
    give_partitions parts bound ordered started member (roundmb_bound nbytes).2
  refine ⟨m', blocks', ?_, parts'⟩
  have asked : nbytes ≠ 0 := by
    rintro rfl
    exact absurd positive (by decide)
  unfold Heap.freemem
  rw [if_neg (by omega)]
  exact gave

/-- Every call that keeps the discipline returns and keeps the heap partitioned. -/
theorem heap_step (parts : Partitions minheap maxheap r.heap r.held blocks)
    (bound : maxheap < word32) (ordered : minheap ≤ maxheap) (started : 0 < minheap)
    (may : Disciplined r call) :
    ∃ r' blocks', heapAct minheap maxheap r call = some r' ∧
      Partitions minheap maxheap r'.heap r'.held blocks' := by
  cases call with
  | getmem nbytes =>
      by_cases asked : nbytes = 0
      · exact ⟨r.got sysErrPtr sysErrPtr (roundmb nbytes) r.heap, blocks,
          by simp [heapAct, getmem, asked], parts⟩
      · have size := roundmb_fits may
        obtain ⟨result, m', found, outcome⟩ := search_partitions parts bound ordered
          (show 0 < roundmb nbytes by omega) (roundmb_bound nbytes).2
        have called : heapAct minheap maxheap r (.getmem nbytes) =
            some (r.got result result (roundmb nbytes) m') := by
          simp only [heapAct, getmem, if_neg asked, found, Option.map_some]
        rcases outcome with ⟨rfl, rfl⟩ | ⟨proper, blocks', parts'⟩
        · exact ⟨_, blocks, called, parts⟩
        · refine ⟨_, blocks', called, ?_⟩
          unfold Run.got
          rw [if_neg proper]
          exact parts'
  | getstk nbytes =>
      obtain ⟨result, m', found, outcome⟩ := getstk_partitions parts bound ordered may
      have called : heapAct minheap maxheap r (.getstk nbytes) =
          some (r.got result (stackBase result nbytes) (roundmb nbytes) m') := by
        simp only [heapAct, found, Option.map_some]
      rcases outcome with ⟨rfl, rfl⟩ | ⟨proper, blocks', parts'⟩
      · exact ⟨_, blocks, called, parts⟩
      · refine ⟨_, blocks', called, ?_⟩
        unfold Run.got
        rw [if_neg proper]
        exact parts'
  | freemem blkaddr nbytes =>
      obtain ⟨m', blocks', gave, parts'⟩ := freemem_partitions parts bound ordered started may
      exact ⟨r.gave ok blkaddr nbytes (roundmb nbytes) m', blocks',
        by simp only [heapAct, gave, Option.map_some], parts'⟩
  | freestk addr len =>
      have member : (stackBase addr len, roundmb (roundmb len)) ∈ r.held := by
        rw [roundmb_roundmb]
        exact may
      obtain ⟨m', blocks', gave, parts'⟩ := freemem_partitions parts bound ordered started member
      rw [roundmb_roundmb] at parts'
      refine ⟨r.gave ok (stackBase addr len) (roundmb len) (roundmb len) m', blocks', ?_, parts'⟩
      unfold stackBase at gave
      simp only [heapAct, Heap.freestk, gave, Option.map_some]
  | store addr value => exact ⟨_, blocks, rfl, store_partitions parts value may⟩

theorem heap_start_partitions (ordered : minheap < maxheap)
    (started : 0 < minheap) (rounded : (maxheap - minheap) % 8 = 0)
    (start : HeapStart minheap maxheap r) :
    ∃ blocks, Partitions minheap maxheap r.heap r.held blocks := by
  obtain ⟨m, rfl⟩ := start
  refine ⟨_, whole_partitions ordered rounded ?_ rfl⟩
  have proper : minheap ≠ 0 := by omega
  simp [Represents, Chain, meminit, FreeMem.setNode, proper]

theorem heap_reached (bound : maxheap < word32) (ordered : minheap < maxheap)
    (started : 0 < minheap) (rounded : (maxheap - minheap) % 8 = 0)
    (run : Reached (heapAct minheap maxheap) (HeapStart minheap maxheap) Disciplined r) :
    ∃ blocks, Partitions minheap maxheap r.heap r.held blocks := by
  refine @reached_invariant _ _ _ _ _
    (fun r => ∃ blocks, Partitions minheap maxheap r.heap r.held blocks) _ run
    (fun r start => heap_start_partitions ordered started rounded start) ?_
  intro r r' call holds may did
  obtain ⟨blocks, parts⟩ := holds
  obtain ⟨next, blocks', act, parts'⟩ :=
    heap_step parts bound (Nat.le_of_lt ordered) started may
  rw [act] at did
  cases did
  exact ⟨blocks', parts'⟩

end KernelHeap

section VirtualHeap

variable {hsize : Nat} {r r' : Run Vheap} {call : VheapCall}

/-- A heap that no allocation has set up has no block out. -/
structure VheapSound (hsize : Nat) (r : Run Vheap) : Prop where
  size : r.heap.hsize = hsize
  virtual : r.heap.vh = true
  parts : r.heap.vmeminit = true →
    ∃ blocks, Partitions vheapStart (vheapEnd hsize) r.heap.mem r.held blocks
  fresh : r.heap.vmeminit = false → r.held = []

theorem vheap_end (bound : vheapStart + nbpg * hsize < word32) :
    vheapEnd hsize = vheapStart + nbpg * hsize := Nat.mod_eq_of_lt bound

theorem vmeminit_partitions (bound : vheapStart + nbpg * hsize < word32) (paged : hsize ≠ 0)
    {p : Vheap} (size : p.hsize = hsize) :
    Partitions vheapStart (vheapEnd hsize) (vmeminit p).mem []
      [(vheapStart, vheapEnd hsize - vheapStart)] := by
  have ends := vheap_end bound
  have length : vheapEnd hsize - vheapStart = nbpg * hsize := by omega
  have short : nbpg * hsize % word32 = nbpg * hsize := Nat.mod_eq_of_lt (by omega)
  have grows : 0 < nbpg * hsize := Nat.mul_pos (by decide) (Nat.pos_of_ne_zero paged)
  have even : nbpg * hsize % 8 = 0 := by
    rw [show nbpg = 4096 from rfl]
    omega
  refine whole_partitions ?_ ?_ ?_ ?_
  · omega
  · omega
  · rw [length]
    simp only [Represents, Chain, vmeminit, FreeMem.setNode, size, short, Function.update_self]
    exact ⟨trivial, by decide, trivial, trivial⟩
  · simp only [vmeminit, FreeMem.setNode, size, short, length]

/-- The list that an allocation searches. -/
theorem vgetmem_partitions (sound : VheapSound hsize r) (bound : vheapStart + nbpg * hsize < word32)
    (alive : ¬(r.heap.vmeminit = false ∧ r.heap.hsize = 0)) :
    ∃ p blocks, (if r.heap.vmeminit = false then vmeminit r.heap else r.heap) = p ∧
      p.hsize = hsize ∧ p.vh = true ∧ p.vmeminit = true ∧
      Partitions vheapStart (vheapEnd hsize) p.mem r.held blocks := by
  by_cases ready : r.heap.vmeminit = false
  · refine ⟨vmeminit r.heap, [(vheapStart, vheapEnd hsize - vheapStart)], if_pos ready,
      sound.size, sound.virtual, rfl, ?_⟩
    rw [sound.fresh ready]
    refine vmeminit_partitions bound ?_ sound.size
    intro none
    exact alive ⟨ready, sound.size.trans none⟩
  · have set : r.heap.vmeminit = true := by simpa using ready
    obtain ⟨blocks, parts⟩ := sound.parts set
    exact ⟨r.heap, blocks, if_neg ready, sound.size, sound.virtual, set, parts⟩

/-- Every call that keeps the discipline returns and keeps the heap partitioned. -/
theorem vheap_step (sound : VheapSound hsize r) (bound : vheapStart + nbpg * hsize < word32)
    (may : VheapDisciplined r call) (alive : r.heap.vmeminit = true ∨ hsize ≠ 0) :
    ∃ r', vheapAct r call = some r' ∧ VheapSound hsize r' := by
  have ends := vheap_end bound
  have ordered : vheapStart ≤ vheapEnd hsize := by omega
  have below : vheapEnd hsize < word32 := by omega
  have notDead : ¬(r.heap.vmeminit = false ∧ r.heap.hsize = 0) := by
    rintro ⟨unset, none⟩
    rcases alive with set | paged
    · rw [set] at unset
      cases unset
    · exact paged (sound.size ▸ none)
  cases call with
  | vgetmem nbytes =>
      by_cases asked : nbytes = 0
      · refine ⟨r, ?_, sound⟩
        simp [vheapAct, vgetmem, asked, Run.got]
      · obtain ⟨p, blocks, chosen, size, virtual, set, parts⟩ :=
          vgetmem_partitions sound bound notDead
        have fits := roundmb_fits may
        obtain ⟨result, m', found, outcome⟩ := search_partitions parts below ordered
          (show 0 < roundmb nbytes by omega) (roundmb_bound nbytes).2
        have called : vheapAct r (.vgetmem nbytes) =
            some (r.got result result (roundmb nbytes) { p with mem := m' }) := by
          have lives : ¬(r.heap.vmeminit = false ∧ r.heap.hsize = 0 ∧ nbytes ≠ 0) :=
            fun dead => notDead ⟨dead.1, dead.2.1⟩
          simp only [vheapAct]
          rw [if_neg lives]
          simp only [vgetmem, if_neg asked, sound.virtual, Bool.true_eq_false, if_false,
            chosen, sound.size, found, Option.map_some]
        refine ⟨_, called, ?_⟩
        rcases outcome with ⟨rfl, rfl⟩ | ⟨proper, blocks', parts'⟩
        · exact ⟨size, virtual, fun _ => ⟨blocks, parts⟩, fun unset => by
            simp [Run.got, set] at unset⟩
        · unfold Run.got
          rw [if_neg proper]
          exact ⟨size, virtual, fun _ => ⟨blocks', parts'⟩, fun unset => by
            simp [set] at unset⟩
  | vfreemem blkaddr nbytes =>
      have member : (blkaddr, roundmb nbytes) ∈ r.held := may
      have set : r.heap.vmeminit = true := by
        by_contra unset
        rw [sound.fresh (by simpa using unset)] at member
        cases member
      obtain ⟨blocks, parts⟩ := sound.parts set
      obtain ⟨positive, above, inside, _⟩ := held_apart parts below member
      obtain ⟨m', blocks', gave, parts'⟩ :=
        give_partitions parts below ordered (by decide) member (roundmb_bound nbytes).2
      have asked : nbytes ≠ 0 := by
        rintro rfl
        exact absurd positive (by decide)
      refine ⟨r.gave ok blkaddr nbytes (roundmb nbytes) { r.heap with mem := m' }, ?_,
        sound.size, sound.virtual, fun _ => ⟨blocks', parts'⟩, fun unset => ?_⟩
      · unfold vheapAct vfreemem
        simp only [sound.size, sound.virtual]
        rw [if_neg (by omega), if_neg (by decide), gave]
        rfl
      · exact absurd (unset.symm.trans set) (by decide)
  | store addr value =>
      refine ⟨_, rfl, sound.size, sound.virtual, ?_, sound.fresh⟩
      intro set
      obtain ⟨blocks, parts⟩ := sound.parts set
      exact ⟨blocks, store_partitions parts value may⟩

theorem vheap_reached (bound : vheapStart + nbpg * hsize < word32)
    (run : Reached vheapAct (VheapStart hsize) VheapDisciplined r) : VheapSound hsize r := by
  refine reached_invariant run ?_ ?_
  · rintro r ⟨mem, rfl⟩
    exact ⟨rfl, rfl, fun set => absurd set Bool.false_ne_true, fun _ => rfl⟩
  · intro r r' call sound may did
    by_cases alive : r.heap.vmeminit = true ∨ hsize ≠ 0
    · obtain ⟨next, act, sound'⟩ := vheap_step sound bound may alive
      rw [act] at did
      cases did
      exact sound'
    · -- a heap without a page: nothing is out, and no allocation survives
      have unset : r.heap.vmeminit = false := by
        by_contra set
        exact alive (Or.inl (by simpa using set))
      have none : r.heap.hsize = 0 := by
        by_contra paged
        exact alive (Or.inr (sound.size ▸ paged))
      have empty := sound.fresh unset
      cases call with
      | vgetmem nbytes =>
          by_cases asked : nbytes = 0
          · simp only [vheapAct, vgetmem, asked, Run.got] at did
            simp at did
            exact did ▸ sound
          · simp [vheapAct, unset, none, asked] at did
      | vfreemem blkaddr nbytes =>
          have member : (blkaddr, roundmb nbytes) ∈ r.held := may
          rw [empty] at member
          cases member
      | store addr value =>
          obtain ⟨byte, _, _, out⟩ := may
          rw [empty] at out
          exact absurd out (Nat.lt_irrefl 0)

end VirtualHeap

section Results

/-- Whatever the calls, the free blocks stay in order, and with the blocks that are out they
partition the heap; and every call returns. -/
theorem heaps_partitioned :
    (∀ (minheap maxheap : Nat) (r : Run FreeMem), 0 < minheap → minheap < maxheap →
      maxheap < word32 → (maxheap - minheap) % 8 = 0 →
      Reached (heapAct minheap maxheap) (HeapStart minheap maxheap) Disciplined r →
        (∃ blocks, Partitions minheap maxheap r.heap r.held blocks) ∧
          ∀ call, Disciplined r call → ∃ r', heapAct minheap maxheap r call = some r') ∧
    ∀ (hsize : Nat) (r : Run Vheap), vheapStart + nbpg * hsize < word32 →
      Reached vheapAct (VheapStart hsize) VheapDisciplined r →
        (r.heap.vmeminit = false → r.held = []) ∧
        (r.heap.vmeminit = true →
          ∃ blocks, Partitions vheapStart (vheapEnd hsize) r.heap.mem r.held blocks) ∧
        (hsize ≠ 0 → ∀ call, VheapDisciplined r call → ∃ r', vheapAct r call = some r') := by
  refine ⟨?_, ?_⟩
  · intro minheap maxheap r started ordered bound rounded run
    obtain ⟨blocks, parts⟩ := heap_reached bound ordered started rounded run
    refine ⟨⟨blocks, parts⟩, fun call may => ?_⟩
    obtain ⟨r', _, act, _⟩ := heap_step parts bound (Nat.le_of_lt ordered) started may
    exact ⟨r', act⟩
  · intro hsize r bound run
    have sound := vheap_reached bound run
    refine ⟨sound.fresh, sound.parts, fun paged call may => ?_⟩
    obtain ⟨r', act, _⟩ := vheap_step sound bound may (Or.inr paged)
    exact ⟨r', act⟩

def emptyMem : FreeMem where
  memlist := { mnext := 0, mlength := 0 }
  node := fun _ => { mnext := 0, mlength := 0 }

def firstRun (minheap maxheap : Nat) : Run FreeMem where
  heap := meminit minheap maxheap emptyMem
  held := []
  handed := []
  accepted := []

theorem heaps_partitioned_one :
    ∃ r, heapAct 1048576 4194304 (firstRun 1048576 4194304) (.getmem 5) = some r ∧
      ∃ blocks, Partitions 1048576 4194304 r.heap r.held blocks := by
  have start : Reached (heapAct 1048576 4194304) (HeapStart 1048576 4194304) Disciplined
      (firstRun 1048576 4194304) := .start ⟨emptyMem, rfl⟩
  have may : Disciplined (firstRun 1048576 4194304) (.getmem 5) := show 5 + 7 < word32 by decide
  have first := heaps_partitioned.1 1048576 4194304 _ (by decide) (by decide) (by decide)
    (by decide) start
  obtain ⟨r, act⟩ := first.2 _ may
  exact ⟨r, act, (heaps_partitioned.1 1048576 4194304 r (by decide) (by decide) (by decide)
    (by decide) (.step start may act)).1⟩

end Results

end Xinu.Kernel.HeapRuns
