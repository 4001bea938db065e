import Xinu.Kernel.HeapRuns
import Xinu.Lib.Semaphores
import Mathlib.Data.List.Nodup
import Mathlib.Data.List.Perm.Subperm

/-!
# Buffer pools

`mkbufpool`, `getbuf` and `freebuf` over the kernel heap. The first word of a free buffer leads to
the next one of its pool, and the first word of a buffer that is out has the number of its pool.
-/

namespace Xinu.Kernel.BufferPools

open Xinu.Kernel.State (sysErr ok sysErrPtr word32)
open Xinu.Kernel.Memory Xinu.Kernel.FreeList Xinu.Kernel.Heap
open Xinu.Kernel.HeapLists Xinu.Kernel.HeapRuns
open Xinu.Lib.Interleaving Xinu.Lib.Semaphores

set_option autoImplicit false

def nbPools : Nat := 20

def bpMaxb : Int := 8192

def bpMinb : Int := 8

def bpMaxn : Int := 2048

section Definitions

structure Bpentry where
  bpnext : Nat
  bpsem : Semaphore Int
  bpsize : Nat

/-- `held` has the addresses that `getbuf` returned and `freebuf` has not got back. `layout` is where
the buffers of a pool begin and how many there are. -/
structure Machine where
  heap : Run FreeMem
  word : Nat → Nat
  buftab : Nat → Bpentry
  nbpools : Nat
  held : List Nat
  layout : Nat → Nat × Nat

variable (minheap maxheap : Nat) (m : Machine)

namespace Machine

def setEntry (poolid : Nat) (entry : Bpentry) : Machine :=
  { m with buftab := Function.update m.buftab poolid entry }

/-- From the first word of a buffer of the pool to that of the next one -/
def stride (i : Nat) : Nat := (m.buftab i).bpsize + 4

def header (i k : Nat) : Nat := (m.layout i).1 + k * m.stride i

def headers (i : Nat) : List Nat := (List.range (m.layout i).2).map (m.header i)

/-- What `mkbufpool` obtained for the pool -/
def block (i : Nat) : Nat × Nat := ((m.layout i).1, roundmb ((m.layout i).2 * m.stride i))

end Machine

/-- The loop that links the buffers, with `numbufs` of them behind the first. -/
def linkBuffers (bufsiz : Nat) : (Nat → Nat) → Nat → Nat → Nat → Nat
  | word, buf, 0 => Function.update word buf 0
  | word, buf, numbufs + 1 =>
      linkBuffers bufsiz (Function.update word buf (buf + bufsiz)) (buf + bufsiz) numbufs

/-- `hasSem` tells whether `semcreate` finds a free semaphore. Without one the memory stays out. -/
def mkbufpool (bufsiz numbufs : Int) (hasSem : Bool) : Option (Machine × Int) :=
  if bufsiz < bpMinb ∨ bpMaxb < bufsiz ∨ numbufs < 1 ∨ bpMaxn < numbufs ∨ nbPools ≤ m.nbpools then
    some (m, sysErr)
  else do
    let bufsiz := (bufsiz.toNat + 3) / 4 * 4
    let nbytes := numbufs.toNat * (bufsiz + 4)
    let (buf, mem) ← getmem (fuelOf minheap maxheap) m.heap.heap nbytes
    let m := { m with heap := m.heap.got buf buf (roundmb nbytes) mem }
    if buf = sysErrPtr then some (m, sysErr)
    else
      let poolid := m.nbpools
      if hasSem = false then
        some (m.setEntry poolid { m.buftab poolid with bpnext := buf, bpsize := bufsiz }, sysErr)
      else
        some ({ m.setEntry poolid ⟨buf, ⟨numbufs, [], []⟩, bufsiz⟩ with
          word := linkBuffers (bufsiz + 4) m.word buf (numbufs.toNat - 1)
          nbpools := poolid + 1
          layout := Function.update m.layout poolid (buf, numbufs.toNat) }, poolid)

/-- `getbuf` behind `wait` -/
def takes (pid : Int) (poolid : Nat) : Machine × Int :=
  let bpptr := m.buftab poolid
  let bufptr := bpptr.bpnext
  ({ m.setEntry poolid
      { bpptr with bpnext := m.word bufptr, bpsem := bpptr.bpsem.run pid } with
    word := Function.update m.word bufptr poolid
    held := (bufptr + 4) :: m.held }, (bufptr + 4 : Nat))

/-- Nothing is returned by a call that waits. -/
def getbuf (pid poolid : Int) : Machine × Option Int :=
  if poolid < 0 ∨ m.nbpools ≤ poolid then (m, some sysErr)
  else
    let bpptr := m.buftab poolid.toNat
    let waits := m.setEntry poolid.toNat { bpptr with bpsem := bpptr.bpsem.wait pid }
    if bpptr.bpsem.count - 1 < 0 then (waits, none)
    else ((takes waits pid poolid.toNat).1, some (takes waits pid poolid.toNat).2)

/-- A header that is negative as a `bpid32` is no number of a pool either. -/
def freebuf (bufaddr : Nat) : Machine × Int :=
  let bufptr := bufaddr - 4
  let poolid := m.word bufptr
  if m.nbpools ≤ poolid then (m, sysErr)
  else
    let bpptr := m.buftab poolid
    ({ m.setEntry poolid { bpptr with bpnext := bufptr, bpsem := bpptr.bpsem.signal } with
      word := Function.update m.word bufptr bpptr.bpnext
      held := m.held.erase bufaddr }, ok)

end Definitions

section Systems

/-- `served` is a process that `signal` has released and that goes on in `getbuf`. In between the
programs write to the memory and use the heap. -/
inductive Event where
  | mkbufpool (bufsiz numbufs : Int) (hasSem : Bool)
  | getbuf (pid poolid : Int)
  | served (pid : Int) (poolid : Nat)
  | freebuf (bufaddr : Nat)
  | store (word : Nat → Nat)
  | heap (call : HeapCall)

variable (minheap maxheap : Nat)

/-- The process waits for a buffer, or has been released and not run since. -/
def Waits (m : Machine) (pid : Int) : Prop :=
  ∃ i < m.nbpools, pid ∈ (m.buftab i).bpsem.queue ++ (m.buftab i).bpsem.passed

instance (m : Machine) (pid : Int) : Decidable (Waits m pid) :=
  inferInstanceAs (Decidable (∃ i < m.nbpools, _))

def act (m : Machine) : Event → Option Machine
  | .mkbufpool bufsiz numbufs hasSem =>
      (mkbufpool minheap maxheap m bufsiz numbufs hasSem).map Prod.fst
  | .getbuf pid poolid => if Waits m pid then none else some (getbuf m pid poolid).1
  | .served pid poolid =>
      if poolid < m.nbpools ∧ pid ∈ (m.buftab poolid).bpsem.passed then some (takes m pid poolid).1
      else none
  | .freebuf bufaddr => some (freebuf m bufaddr).1
  | .store word => some { m with word := word }
  | .heap call => (heapAct minheap maxheap m.heap call).map fun heap => { m with heap := heap }

/-- The call does not give the block back. -/
def Spares (block : Nat × Nat) : HeapCall → Prop
  | .freemem blkaddr nbytes => (blkaddr, roundmb nbytes) ≠ block
  | .freestk addr len => (stackBase addr len, roundmb len) ≠ block
  | _ => True

/-- Buffers are given back that are out, the first word of a buffer is left alone, and the memory of
the pools is not given back to the heap. -/
def Proper (m : Machine) : Event → Prop
  | .freebuf bufaddr => bufaddr ∈ m.held
  | .store word => ∀ i < m.nbpools, ∀ a ∈ m.headers i, word a = m.word a
  | .heap call => Disciplined m.heap call ∧ ∀ i < m.nbpools, Spares (m.block i) call
  | _ => True

/-- `bufinit` has run and the heap is whole. -/
def Started (m : Machine) : Prop :=
  HeapStart minheap maxheap m.heap ∧ m.nbpools = 0 ∧ m.held = []

end Systems

section Invariant

/-- The list that begins at an address and ends at `NULL` -/
def Chained (word : Nat → Nat) : Nat → List Nat → Prop
  | start, [] => start = 0
  | start, first :: rest => start = first ∧ first ≠ 0 ∧ Chained word (word first) rest

def walk (word : Nat → Nat) : Nat → Nat → List Nat
  | 0, _ => []
  | fuel + 1, start => if start = 0 then [] else start :: walk word fuel (word start)

/-- The free buffers of a pool, from `bpnext` on -/
def Machine.freeOf (m : Machine) (i : Nat) : List Nat :=
  walk m.word (m.layout i).2 (m.buftab i).bpnext

/-- What holds of a pool whose free buffers are `free`. -/
structure PoolSound (m : Machine) (i : Nat) (free : List Nat) : Prop where
  chained : Chained m.word (m.buftab i).bpnext free
  member : ∀ a ∈ free, a ∈ m.headers i
  once : ∀ a ∈ m.headers i, free.count a + m.held.count (a + 4) = 1
  sound : (m.buftab i).bpsem.Sound
  level : (m.buftab i).bpsem.level = free.length
  size : (m.layout i).2 * m.stride i + 7 < word32
  positive : 0 < (m.layout i).1

structure PoolsSound (minheap maxheap : Nat) (m : Machine) : Prop where
  parts : ∃ blocks, Partitions minheap maxheap m.heap.heap m.heap.held blocks
  owns : ∀ i < m.nbpools, m.block i ∈ m.heap.held
  apart : ∀ i < m.nbpools, ∀ j < m.nbpools, i ≠ j → ∀ a, (m.block i).1 ≤ a →
    a < (m.block i).1 + (m.block i).2 → (m.block j).1 ≤ a → (m.block j).1 + (m.block j).2 ≤ a
  pools : ∀ i < m.nbpools, ∃ free, PoolSound m i free
  out : ∀ b ∈ m.held, ∃ i < m.nbpools, ∃ a ∈ m.headers i, b = a + 4 ∧ m.word a = i

end Invariant

section Lists

variable {word word' : Nat → Nat} {start : Nat} {nodes : List Nat}

theorem chained_congr (chained : Chained word start nodes)
    (same : ∀ a ∈ nodes, word' a = word a) : Chained word' start nodes := by
  induction nodes generalizing start with
  | nil => exact chained
  | cons first rest ih =>
      obtain ⟨begins, proper, further⟩ := chained
      refine ⟨begins, proper, ?_⟩
      rw [same first List.mem_cons_self]
      exact ih further fun a member => same a (List.mem_cons_of_mem _ member)

theorem walk_chained {fuel : Nat} (chained : Chained word start nodes)
    (enough : nodes.length ≤ fuel) : walk word fuel start = nodes := by
  induction nodes generalizing start fuel with
  | nil =>
      obtain rfl : start = 0 := chained
      cases fuel with
      | zero => rfl
      | succ fuel => rfl
  | cons first rest ih =>
      obtain ⟨rfl, proper, further⟩ := chained
      cases fuel with
      | zero => simp at enough
      | succ fuel =>
          rw [walk, if_neg proper, ih further (by simpa using enough)]

/-- The loop of `mkbufpool` changes the first words of the buffers only. -/
theorem linkBuffers_other (bufsiz : Nat) {buf more a : Nat}
    (other : ∀ k ≤ more, a ≠ buf + k * bufsiz) : linkBuffers bufsiz word buf more a = word a := by
  induction more generalizing word buf with
  | zero => exact Function.update_of_ne (by simpa using other 0 (Nat.le_refl 0)) _ _
  | succ more ih =>
      rw [linkBuffers, ih fun k below => ?_]
      · exact Function.update_of_ne (by simpa using other 0 (Nat.zero_le _)) _ _
      · have next := other (k + 1) (by omega)
        rw [Nat.add_mul, Nat.one_mul] at next
        omega

theorem linkBuffers_chained {bufsiz : Nat} (apart : 0 < bufsiz) {buf : Nat} (proper : 0 < buf)
    (more : Nat) : Chained (linkBuffers bufsiz word buf more) buf
      ((List.range (more + 1)).map fun k => buf + k * bufsiz) := by
  induction more generalizing word buf with
  | zero =>
      have last : linkBuffers bufsiz word buf 0 buf = 0 := Function.update_self _ _ _
      exact ⟨by simp, by simpa using Nat.ne_of_gt proper, by simpa [Chained] using last⟩
  | succ more ih =>
      rw [List.range_succ_eq_map, List.map_cons, List.map_map]
      refine ⟨by simp, by simpa using Nat.ne_of_gt proper, ?_⟩
      have first : linkBuffers bufsiz word buf (more + 1) (buf + 0 * bufsiz) = buf + bufsiz := by
        rw [linkBuffers, linkBuffers_other bufsiz fun k _ => ?_]
        · simp
        · omega
      rw [first]
      have rest := @ih (Function.update word buf (buf + bufsiz)) (buf + bufsiz) (by omega)
      have shift : (fun k => buf + k * bufsiz) ∘ Nat.succ = fun k => buf + bufsiz + k * bufsiz := by
        funext k
        simp only [Function.comp_apply, Nat.succ_eq_add_one, Nat.add_mul, Nat.one_mul]
        omega
      rw [shift]
      exact rest

end Lists

section Pools

variable {m m' : Machine} {i j a : Nat} {free : List Nat}

theorem headers_mem : a ∈ m.headers i ↔ ∃ k < (m.layout i).2, m.header i k = a := by
  simp [Machine.headers]

/-- A buffer lies in what `mkbufpool` obtained for its pool. -/
theorem header_inside (pool : PoolSound m i free) {k : Nat} (bound : k < (m.layout i).2) :
    (m.block i).1 ≤ m.header i k ∧
      m.header i k + m.stride i ≤ (m.block i).1 + (m.block i).2 := by
  have rounds := roundmb_fits pool.size
  have fits : (k + 1) * m.stride i ≤ (m.layout i).2 * m.stride i := Nat.mul_le_mul_right _ bound
  rw [Nat.add_mul, Nat.one_mul] at fits
  unfold Machine.block Machine.header
  dsimp only
  omega

theorem mem_inside (pool : PoolSound m i free) (member : a ∈ m.headers i) :
    (m.block i).1 ≤ a ∧ a + m.stride i ≤ (m.block i).1 + (m.block i).2 := by
  obtain ⟨k, bound, rfl⟩ := headers_mem.mp member
  exact header_inside pool bound

theorem header_proper (pool : PoolSound m i free) (member : a ∈ m.headers i) : a ≠ 0 := by
  have inside := (mem_inside pool member).1
  have positive := pool.positive
  unfold Machine.block at inside
  omega

theorem free_nodup (pool : PoolSound m i free) : free.Nodup := by
  refine List.nodup_iff_count_le_one.mpr fun a => ?_
  by_cases member : a ∈ free
  · have once := pool.once a (pool.member a member)
    omega
  · rw [List.count_eq_zero_of_not_mem member]
    exact Nat.zero_le _

theorem freeOf_eq (pool : PoolSound m i free) : m.freeOf i = free := by
  refine walk_chained pool.chained ?_
  have within := (List.subperm_of_subset (free_nodup pool) pool.member).length_le
  simpa [Machine.headers] using within

/-- A step that leaves a pool alone. -/
theorem pool_frame (pool : PoolSound m i free) (entry : m'.buftab i = m.buftab i)
    (layout : m'.layout i = m.layout i) (words : ∀ a ∈ m.headers i, m'.word a = m.word a)
    (held : ∀ a ∈ m.headers i, m'.held.count (a + 4) = m.held.count (a + 4)) :
    PoolSound m' i free := by
  have stride : m'.stride i = m.stride i := by rw [Machine.stride, Machine.stride, entry]
  have headers : m'.headers i = m.headers i := by
    unfold Machine.headers Machine.header
    rw [layout, stride]
  obtain ⟨chained, member, once, sound, level, size, positive⟩ := pool
  refine ⟨?_, ?_, ?_, ?_, ?_, ?_, ?_⟩
  · rw [entry]
    exact chained_congr chained fun a inFree => words a (member a inFree)
  · rw [headers]
    exact member
  · rw [headers]
    exact fun c inPool => (held c inPool).symm ▸ once c inPool
  · rw [entry]
    exact sound
  · rw [entry]
    exact level
  · rw [layout, stride]
    exact size
  · rw [layout]
    exact positive

variable {minheap maxheap : Nat}

/-- A buffer belongs to one pool. -/
theorem pool_unique (sound : PoolsSound minheap maxheap m) (iIn : i < m.nbpools)
    (jIn : j < m.nbpools) (inI : a ∈ m.headers i) (inJ : a ∈ m.headers j) : i = j := by
  by_contra differ
  obtain ⟨_, poolI⟩ := sound.pools i iIn
  obtain ⟨_, poolJ⟩ := sound.pools j jIn
  have insideI := mem_inside poolI inI
  have insideJ := mem_inside poolJ inJ
  have beyond := sound.apart i iIn j jIn differ a insideI.1
  unfold Machine.stride at insideI insideJ
  omega

/-- Nothing that is known of a pool changes but its free list, its semaphore and what is out. -/
theorem pools_change (sound : PoolsSound minheap maxheap m) (heap : m'.heap = m.heap)
    (nbpools : m'.nbpools = m.nbpools) (layout : m'.layout = m.layout)
    (sizes : ∀ j < m.nbpools, (m'.buftab j).bpsize = (m.buftab j).bpsize)
    (pools : ∀ j < m.nbpools, ∃ free, PoolSound m' j free)
    (out : ∀ b ∈ m'.held, ∃ i < m.nbpools, ∃ a ∈ m.headers i, b = a + 4 ∧ m'.word a = i) :
    PoolsSound minheap maxheap m' := by
  have strides : ∀ j < m.nbpools, m'.stride j = m.stride j := fun j jIn => by
    rw [Machine.stride, Machine.stride, sizes j jIn]
  have blocks : ∀ j < m.nbpools, m'.block j = m.block j := fun j jIn => by
    rw [Machine.block, Machine.block, layout, strides j jIn]
  have headers : ∀ j < m.nbpools, m'.headers j = m.headers j := fun j jIn => by
    unfold Machine.headers Machine.header
    rw [layout, strides j jIn]
  refine ⟨?_, fun j jIn => ?_, fun i iIn j jIn => ?_, fun j jIn => ?_, fun b member => ?_⟩
  · rw [heap]
    exact sound.parts
  · rw [nbpools] at jIn
    rw [blocks j jIn, heap]
    exact sound.owns j jIn
  · rw [nbpools] at iIn jIn
    rw [blocks i iIn, blocks j jIn]
    exact sound.apart i iIn j jIn
  · exact pools j (nbpools ▸ jIn)
  · obtain ⟨i, iIn, c, inPool, same, number⟩ := out b member
    exact ⟨i, nbpools ▸ iIn, c, by rw [headers i iIn]; exact inPool, same, number⟩

end Pools

section Buffers

variable {minheap maxheap : Nat} {m : Machine} {i a : Nat} {pid : Int} {free : List Nat}

/-- A step of the semaphore of a pool -/
theorem pools_sem {sem : Semaphore Int} (sound : PoolsSound minheap maxheap m) (iIn : i < m.nbpools)
    (still : (m.buftab i).bpsem.Sound → sem.Sound)
    (level : (m.buftab i).bpsem.Sound → sem.level = (m.buftab i).bpsem.level) :
    PoolsSound minheap maxheap (m.setEntry i { m.buftab i with bpsem := sem }) := by
  have holds : (m.setEntry i { m.buftab i with bpsem := sem }).buftab i =
      { m.buftab i with bpsem := sem } := Function.update_self _ _ _
  refine pools_change sound rfl rfl rfl (fun j _ => ?_) (fun j jIn => ?_) fun b member => ?_
  · by_cases same : j = i
    · rw [same, holds]
    · exact congrArg Bpentry.bpsize (Function.update_of_ne same _ _)
  · obtain ⟨free, pool⟩ := sound.pools j jIn
    by_cases same : j = i
    · subst same
      have stride : (m.setEntry j { m.buftab j with bpsem := sem }).stride j = m.stride j := by
        rw [Machine.stride, holds, Machine.stride]
      have headers : (m.setEntry j { m.buftab j with bpsem := sem }).headers j = m.headers j := by
        unfold Machine.headers Machine.header
        rw [stride]
        rfl
      refine ⟨free, ?_, ?_, ?_, ?_, ?_, ?_, pool.positive⟩
      · rw [holds]
        exact pool.chained
      · rw [headers]
        exact pool.member
      · rw [headers]
        exact pool.once
      · rw [holds]
        exact still pool.sound
      · rw [holds]
        exact (level pool.sound).trans pool.level
      · rw [stride]
        exact pool.size
    · exact ⟨free, pool_frame pool (Function.update_of_ne same _ _) rfl (fun _ _ => rfl)
        fun _ _ => rfl⟩
  · exact sound.out b member

/-- A process that has been released finds a buffer. -/
theorem free_nonempty (pool : PoolSound m i free) (passed : pid ∈ (m.buftab i).bpsem.passed) :
    ∃ a rest, free = a :: rest := by
  have sound := pool.sound
  have level := pool.level
  have positive := List.length_pos_of_mem passed
  unfold Semaphore.Sound at sound
  unfold Semaphore.level at level
  cases free with
  | nil =>
      simp only [List.length_nil] at level
      omega
  | cons a rest => exact ⟨a, rest, rfl⟩

theorem takes_entry : (takes m pid i).1.buftab i = { m.buftab i with
    bpnext := m.word (m.buftab i).bpnext, bpsem := (m.buftab i).bpsem.run pid } :=
  Function.update_self _ _ _

/-- What is left of a pool of which the first free buffer is taken -/
theorem takes_pool {rest : List Nat} (pool : PoolSound m i (a :: rest))
    (passed : pid ∈ (m.buftab i).bpsem.passed) : PoolSound (takes m pid i).1 i rest := by
  obtain ⟨begins, proper, further⟩ := pool.chained
  have nodup := free_nodup pool
  have absent : a ∉ rest := (List.nodup_cons.mp nodup).1
  have word : (takes m pid i).1.word = Function.update m.word a i := by
    rw [← begins]
    rfl
  have held : (takes m pid i).1.held = (a + 4) :: m.held := by
    rw [← begins]
    rfl
  have entry : (takes m pid i).1.buftab i = { m.buftab i with
      bpnext := m.word a, bpsem := (m.buftab i).bpsem.run pid } := by
    rw [takes_entry, begins]
  have stride : (takes m pid i).1.stride i = m.stride i := by
    rw [Machine.stride, entry, Machine.stride]
  have headers : (takes m pid i).1.headers i = m.headers i := by
    unfold Machine.headers Machine.header
    rw [stride]
    rfl
  refine ⟨?_, ?_, ?_, ?_, ?_, ?_, pool.positive⟩
  · rw [entry, word]
    refine chained_congr further fun c member => Function.update_of_ne ?_ _ _
    rintro rfl
    exact absent member
  · rw [headers]
    exact fun c member => pool.member c (List.mem_cons_of_mem _ member)
  · rw [headers, held]
    intro c inPool
    have once := pool.once c inPool
    by_cases same : c = a
    · subst same
      rw [List.count_cons_self] at once ⊢
      omega
    · rw [List.count_cons_of_ne (Ne.symm same)] at once
      rw [List.count_cons_of_ne (by omega)]
      exact once
  · rw [entry]
    exact pool.sound
  · rw [entry]
    have level := pool.level
    have lowered := Semaphore.run_level pid passed
    simp only [List.length_cons] at level
    change ((m.buftab i).bpsem.run pid).level = _
    omega
  · rw [stride]
    exact pool.size

/-- A process takes the first buffer of a pool. -/
theorem pools_takes (sound : PoolsSound minheap maxheap m) (iIn : i < m.nbpools)
    (passed : pid ∈ (m.buftab i).bpsem.passed) : PoolsSound minheap maxheap (takes m pid i).1 := by
  obtain ⟨free, pool⟩ := sound.pools i iIn
  obtain ⟨a, rest, rfl⟩ := free_nonempty pool passed
  have first : a ∈ m.headers i := pool.member a List.mem_cons_self
  have begins : (m.buftab i).bpnext = a := pool.chained.1
  have word : (takes m pid i).1.word = Function.update m.word a i := by
    rw [← begins]
    rfl
  have held : (takes m pid i).1.held = (a + 4) :: m.held := by
    rw [← begins]
    rfl
  refine pools_change sound rfl rfl rfl (fun j _ => ?_) (fun j jIn => ?_) fun b member => ?_
  · by_cases same : j = i
    · subst same
      rw [takes_entry]
    · exact congrArg Bpentry.bpsize (Function.update_of_ne same _ _)
  · by_cases same : j = i
    · subst same
      exact ⟨rest, takes_pool pool passed⟩
    · obtain ⟨others, poolJ⟩ := sound.pools j jIn
      have another : ∀ c ∈ m.headers j, c ≠ a := by
        rintro c inPool rfl
        exact same (pool_unique sound jIn iIn inPool first)
      refine ⟨others, pool_frame poolJ (Function.update_of_ne same _ _) rfl (fun c inPool => ?_)
        fun c inPool => ?_⟩
      · rw [word, Function.update_of_ne (another c inPool)]
      · have differ := another c inPool
        rw [held, List.count_cons_of_ne (by omega)]
  · rw [held] at member
    rw [word]
    rcases List.mem_cons.mp member with rfl | was
    · exact ⟨i, iIn, a, first, rfl, Function.update_self _ _ _⟩
    · obtain ⟨j, jIn, c, inPool, rfl, number⟩ := sound.out b was
      refine ⟨j, jIn, c, inPool, rfl, ?_⟩
      have differ : c ≠ a := by
        rintro rfl
        have once := pool.once c first
        have isHeld := List.count_pos_iff.mpr was
        rw [List.count_cons_self] at once
        omega
      rw [Function.update_of_ne differ, number]

theorem getbuf_pools {poolid : Int} (sound : PoolsSound minheap maxheap m) :
    PoolsSound minheap maxheap (getbuf m pid poolid).1 := by
  unfold getbuf
  by_cases outside : poolid < 0 ∨ m.nbpools ≤ poolid
  · rw [if_pos outside]
    exact sound
  rw [if_neg outside]
  have iIn : poolid.toNat < m.nbpools := by omega
  have waits := pools_sem sound iIn (Semaphore.wait_sound pid) fun _ => Semaphore.wait_level pid
  by_cases blocks : (m.buftab poolid.toNat).bpsem.count - 1 < 0
  · rw [if_pos blocks]
    exact waits
  · rw [if_neg blocks]
    refine pools_takes waits iIn ?_
    change pid ∈ (Function.update m.buftab poolid.toNat _ poolid.toNat).bpsem.passed
    rw [Function.update_self, Semaphore.wait, if_neg blocks]
    exact List.mem_append_right _ List.mem_cons_self

/-- What `freebuf` does with a buffer that is out -/
theorem freebuf_eq (iIn : i < m.nbpools) (number : m.word a = i) :
    (freebuf m (a + 4)).1 = { m.setEntry i { m.buftab i with
      bpnext := a, bpsem := (m.buftab i).bpsem.signal } with
        word := Function.update m.word a (m.buftab i).bpnext
        held := m.held.erase (a + 4) } := by
  simp only [freebuf, Nat.add_sub_cancel, number, if_neg (Nat.not_le.mpr iIn)]

theorem freebuf_pool (pool : PoolSound m i free) (member : a ∈ m.headers i)
    (out : a + 4 ∈ m.held) (iIn : i < m.nbpools) (number : m.word a = i) :
    PoolSound (freebuf m (a + 4)).1 i (a :: free) := by
  rw [freebuf_eq iIn number]
  have once := pool.once a member
  have isHeld := List.count_pos_iff.mpr out
  have absent : a ∉ free := fun inFree => by
    have counted := List.count_pos_iff.mpr inFree
    omega
  set m' : Machine := { m.setEntry i { m.buftab i with
      bpnext := a, bpsem := (m.buftab i).bpsem.signal } with
        word := Function.update m.word a (m.buftab i).bpnext
        held := m.held.erase (a + 4) } with isM'
  have entry : m'.buftab i = { m.buftab i with
      bpnext := a, bpsem := (m.buftab i).bpsem.signal } := Function.update_self _ _ _
  have stride : m'.stride i = m.stride i := by
    rw [Machine.stride, entry, Machine.stride]
  have headers : m'.headers i = m.headers i := by
    unfold Machine.headers Machine.header
    rw [stride]
    rfl
  refine ⟨?_, ?_, ?_, ?_, ?_, ?_, pool.positive⟩
  · rw [entry]
    refine ⟨rfl, header_proper pool member, ?_⟩
    change Chained (Function.update m.word a _) (Function.update m.word a _ a) free
    rw [Function.update_self]
    refine chained_congr pool.chained fun c inFree => Function.update_of_ne ?_ _ _
    rintro rfl
    exact absent inFree
  · rw [headers]
    rintro c (_ | ⟨_, inFree⟩)
    · exact member
    · exact pool.member c inFree
  · rw [headers]
    intro c inPool
    change (a :: free).count c + (m.held.erase (a + 4)).count (c + 4) = 1
    have onceC := pool.once c inPool
    by_cases same : c = a
    · subst same
      rw [List.count_cons_self, List.count_erase_self]
      omega
    · rw [List.count_cons_of_ne (Ne.symm same), List.count_erase_of_ne (by omega)]
      exact onceC
  · rw [entry]
    exact Semaphore.signal_sound pool.sound
  · rw [entry]
    have level := pool.level
    have raised := Semaphore.signal_level pool.sound
    simp only [List.length_cons]
    change (m.buftab i).bpsem.signal.level = _
    omega
  · rw [stride]
    exact pool.size

theorem pools_freebuf {b : Nat} (sound : PoolsSound minheap maxheap m) (out : b ∈ m.held) :
    PoolsSound minheap maxheap (freebuf m b).1 := by
  obtain ⟨i, iIn, a, first, rfl, number⟩ := sound.out b out
  obtain ⟨free, pool⟩ := sound.pools i iIn
  have freed := freebuf_eq iIn number
  have word : (freebuf m (a + 4)).1.word = Function.update m.word a (m.buftab i).bpnext := by
    rw [freed]
  have held : (freebuf m (a + 4)).1.held = m.held.erase (a + 4) := by rw [freed]
  have entry : (freebuf m (a + 4)).1.buftab i = { m.buftab i with
      bpnext := a, bpsem := (m.buftab i).bpsem.signal } := by
    rw [freed]
    exact Function.update_self _ _ _
  have others : ∀ j, j ≠ i → (freebuf m (a + 4)).1.buftab j = m.buftab j := fun j differ => by
    rw [freed]
    exact Function.update_of_ne differ _ _
  refine pools_change sound (by rw [freed]; rfl) (by rw [freed]; rfl) (by rw [freed]; rfl)
    (fun j _ => ?_) (fun j jIn => ?_) fun b member => ?_
  · by_cases same : j = i
    · rw [same, entry]
    · rw [others j same]
  · by_cases same : j = i
    · subst same
      exact ⟨a :: free, freebuf_pool pool first out jIn number⟩
    · obtain ⟨frees, poolJ⟩ := sound.pools j jIn
      have another : ∀ c ∈ m.headers j, c ≠ a := by
        rintro c inPool rfl
        exact same (pool_unique sound jIn iIn inPool first)
      refine ⟨frees, pool_frame poolJ (others j same) (by rw [freed]; rfl) (fun c inPool => ?_)
        fun c inPool => ?_⟩
      · rw [word, Function.update_of_ne (another c inPool)]
      · have differ := another c inPool
        rw [held, List.count_erase_of_ne (by omega)]
  · rw [held] at member
    rw [word]
    obtain ⟨j, jIn, c, inPool, rfl, numberJ⟩ := sound.out b (List.mem_of_mem_erase member)
    refine ⟨j, jIn, c, inPool, rfl, ?_⟩
    have differ : c ≠ a := by
      rintro rfl
      have once := pool.once c first
      have left := List.count_pos_iff.mpr member
      rw [List.count_erase_self] at left
      omega
    rw [Function.update_of_ne differ, numberJ]

end Buffers

section Memory

variable {minheap maxheap : Nat} {m : Machine}

/-- What others do with the heap leaves a block out. -/
theorem held_kept {r r' : Run FreeMem} {call : HeapCall} {block : Nat × Nat}
    (did : heapAct minheap maxheap r call = some r') (member : block ∈ r.held)
    (spares : Spares block call) : block ∈ r'.held := by
  have got : ∀ result start nbytes heap, block ∈ (r.got result start nbytes heap).held := by
    intro result start nbytes heap
    unfold Run.got
    split_ifs
    · exact member
    · exact List.mem_cons_of_mem _ member
  have gave : ∀ status start nbytes rounded heap, (start, rounded) ≠ block →
      block ∈ (r.gave status start nbytes rounded heap).held := by
    intro status start nbytes rounded heap differ
    unfold Run.gave
    split_ifs
    · exact (List.mem_erase_of_ne (Ne.symm differ)).mpr member
    · exact member
  cases call with
  | getmem nbytes =>
      obtain ⟨result, -, rfl⟩ := Option.map_eq_some_iff.mp did
      exact got _ _ _ _
  | getstk nbytes =>
      obtain ⟨result, -, rfl⟩ := Option.map_eq_some_iff.mp did
      exact got _ _ _ _
  | freemem blkaddr nbytes =>
      obtain ⟨result, -, rfl⟩ := Option.map_eq_some_iff.mp did
      exact gave _ _ _ _ _ spares
  | freestk addr len =>
      obtain ⟨result, -, rfl⟩ := Option.map_eq_some_iff.mp did
      exact gave _ _ _ _ _ spares
  | store addr value =>
      cases did
      exact member

/-- The heap changes, and what the pools have stays out. -/
theorem pools_heap {r : Run FreeMem} (sound : PoolsSound minheap maxheap m)
    (parts : ∃ blocks, Partitions minheap maxheap r.heap r.held blocks)
    (kept : ∀ i < m.nbpools, m.block i ∈ r.held) :
    PoolsSound minheap maxheap { m with heap := r } := by
  refine ⟨parts, kept, sound.apart, fun i iIn => ?_, sound.out⟩
  obtain ⟨free, pool⟩ := sound.pools i iIn
  exact ⟨free, pool_frame pool rfl rfl (fun _ _ => rfl) fun _ _ => rfl⟩

theorem pools_store {word : Nat → Nat} (sound : PoolsSound minheap maxheap m)
    (keeps : ∀ i < m.nbpools, ∀ a ∈ m.headers i, word a = m.word a) :
    PoolsSound minheap maxheap { m with word := word } := by
  refine pools_change sound rfl rfl rfl (fun _ _ => rfl) (fun i iIn => ?_) fun b member => ?_
  · obtain ⟨free, pool⟩ := sound.pools i iIn
    exact ⟨free, pool_frame pool rfl rfl (keeps i iIn) fun _ _ => rfl⟩
  · obtain ⟨i, iIn, a, inPool, same, number⟩ := sound.out b member
    exact ⟨i, iIn, a, inPool, same, (keeps i iIn a inPool).trans number⟩

/-- A call of `getmem`, of which a block of the heap is left out. -/
theorem getmem_partitions {r : Run FreeMem} {blocks : List (Nat × Nat)} {nbytes : Nat}
    (parts : Partitions minheap maxheap r.heap r.held blocks) (bound : maxheap < word32)
    (ordered : minheap ≤ maxheap) (asked : nbytes ≠ 0) (short : nbytes + 7 < word32) :
    ∃ buf mem, getmem (fuelOf minheap maxheap) r.heap nbytes = some (buf, mem) ∧
      (buf = sysErrPtr ∧ mem = r.heap ∨ buf ≠ sysErrPtr ∧
        ∃ blocks', Partitions minheap maxheap mem ((buf, roundmb nbytes) :: r.held) blocks') := by
  have size := roundmb_fits short
  obtain ⟨buf, mem, found, outcome⟩ := search_partitions parts bound ordered
    (show 0 < roundmb nbytes by omega) (roundmb_bound nbytes).2
  exact ⟨buf, mem, by rw [getmem, if_neg asked, found], outcome⟩

/-- A block that is obtained overlaps no block that is out. -/
theorem obtained_apart {mem : FreeMem} {held blocks : List (Nat × Nat)} {block other : Nat × Nat}
    (parts : Partitions minheap maxheap mem (block :: held) blocks) (member : other ∈ held) {a : Nat}
    (above : block.1 ≤ a) (below : a < block.1 + block.2) :
    other.1 ≤ a → other.1 + other.2 ≤ a := by
  intro begins
  by_contra inside
  have once := parts.parts a
  have covered := cover_member member begins (Nat.lt_of_not_le inside)
  rw [cover_cons, if_pos ⟨above, below⟩] at once
  split_ifs at once
  omega

end Memory

section Creation

variable {minheap maxheap : Nat} {m m' : Machine} {buf count size a : Nat} {r : Run FreeMem}
  {blocks : List (Nat × Nat)}

/-- A pool has been made of a block that `getmem` returned. -/
structure Made (m : Machine) (buf count size : Nat) (r : Run FreeMem) (m' : Machine) : Prop where
  heap : m'.heap = r
  word : m'.word = linkBuffers (size + 4) m.word buf (count - 1)
  buftab : m'.buftab = Function.update m.buftab m.nbpools ⟨buf, ⟨count, [], []⟩, size⟩
  nbpools : m'.nbpools = m.nbpools + 1
  held : m'.held = m.held
  layout : m'.layout = Function.update m.layout m.nbpools (buf, count)

theorem made_entry (made : Made m buf count size r m') :
    m'.buftab m.nbpools = ⟨buf, ⟨count, [], []⟩, size⟩ := by
  rw [made.buftab, Function.update_self]

theorem made_layout (made : Made m buf count size r m') : m'.layout m.nbpools = (buf, count) := by
  rw [made.layout, Function.update_self]

theorem made_other (made : Made m buf count size r m') {i : Nat} (iIn : i < m.nbpools) :
    m'.buftab i = m.buftab i ∧ m'.layout i = m.layout i ∧ m'.headers i = m.headers i ∧
      m'.block i = m.block i := by
  have differ : i ≠ m.nbpools := Nat.ne_of_lt iIn
  have entry : m'.buftab i = m.buftab i := by rw [made.buftab, Function.update_of_ne differ]
  have layout : m'.layout i = m.layout i := by rw [made.layout, Function.update_of_ne differ]
  have stride : m'.stride i = m.stride i := by rw [Machine.stride, entry, Machine.stride]
  refine ⟨entry, layout, ?_, ?_⟩
  · unfold Machine.headers Machine.header
    rw [layout, stride]
  · rw [Machine.block, layout, stride, Machine.block]

theorem made_block (made : Made m buf count size r m') :
    m'.block m.nbpools = (buf, roundmb (count * (size + 4))) := by
  rw [Machine.block, made_layout made, Machine.stride, made_entry made]

/-- The new buffers lie in the new block. -/
theorem made_inside (short : count * (size + 4) + 7 < word32) {k : Nat} (below : k < count) :
    buf + k * (size + 4) + (size + 4) ≤ buf + roundmb (count * (size + 4)) := by
  have rounds := roundmb_fits short
  have fits : (k + 1) * (size + 4) ≤ count * (size + 4) := Nat.mul_le_mul_right _ below
  rw [Nat.add_mul, Nat.one_mul] at fits
  omega

/-- A buffer of an older pool is none of the new ones. -/
theorem made_apart (sound : PoolsSound minheap maxheap m)
    (parts : Partitions minheap maxheap r.heap
      ((buf, roundmb (count * (size + 4))) :: m.heap.held) blocks)
    (short : count * (size + 4) + 7 < word32) {i : Nat} (iIn : i < m.nbpools)
    (member : a ∈ m.headers i) {k : Nat} (below : k < count) : a ≠ buf + k * (size + 4) := by
  rintro rfl
  obtain ⟨free, pool⟩ := sound.pools i iIn
  have inside := mem_inside pool member
  have within := @made_inside buf _ _ short k below
  have beyond := obtained_apart parts (sound.owns i iIn) (a := buf + k * (size + 4))
    (Nat.le_add_right _ _) (by dsimp only; omega) inside.1
  unfold Machine.stride at inside
  omega

/-- The new pool has all its buffers. -/
theorem made_pool (sound : PoolsSound minheap maxheap m) (made : Made m buf count size r m')
    (parts : Partitions minheap maxheap r.heap
      ((buf, roundmb (count * (size + 4))) :: m.heap.held) blocks)
    (some_ : 0 < count) (short : count * (size + 4) + 7 < word32) (proper : 0 < buf) :
    PoolSound m' m.nbpools (m'.headers m.nbpools) := by
  have entry := made_entry made
  have layout := made_layout made
  have stride : m'.stride m.nbpools = size + 4 := by rw [Machine.stride, entry]
  have headers : m'.headers m.nbpools = (List.range count).map fun k => buf + k * (size + 4) := by
    unfold Machine.headers Machine.header
    rw [layout, stride]
  have nodup : (m'.headers m.nbpools).Nodup := by
    rw [headers]
    refine List.Nodup.map (fun k l same => ?_) List.nodup_range
    exact Nat.eq_of_mul_eq_mul_right (by omega) (Nat.add_left_cancel same)
  refine ⟨?_, fun _ => id, fun a inPool => ?_, ?_, ?_, ?_, ?_⟩
  · rw [entry, headers, made.word]
    have linked := @linkBuffers_chained m.word (size + 4) (by omega) buf proper (count - 1)
    rw [Nat.sub_add_cancel some_] at linked
    exact linked
  · have notHeld : a + 4 ∉ m.held := by
      intro isHeld
      obtain ⟨i, iIn, c, inOld, same, -⟩ := sound.out _ isHeld
      obtain rfl : a = c := Nat.add_right_cancel same
      rw [headers] at inPool
      obtain ⟨k, below, rfl⟩ := List.mem_map.mp inPool
      exact made_apart sound parts short iIn inOld (List.mem_range.mp below) rfl
    rw [made.held, List.count_eq_zero_of_not_mem notHeld, List.count_eq_one_of_mem nodup inPool]
  · rw [entry]
    simp [Semaphore.Sound]
  · rw [entry, headers]
    simp [Semaphore.level]
  · rw [layout, stride]
    exact short
  · rw [layout]
    exact proper

theorem pools_made (sound : PoolsSound minheap maxheap m) (made : Made m buf count size r m')
    (parts : Partitions minheap maxheap r.heap
      ((buf, roundmb (count * (size + 4))) :: m.heap.held) blocks)
    (held : r.held = (buf, roundmb (count * (size + 4))) :: m.heap.held)
    (some_ : 0 < count) (short : count * (size + 4) + 7 < word32) (proper : 0 < buf) :
    PoolsSound minheap maxheap m' := by
  have words : ∀ i < m.nbpools, ∀ a ∈ m.headers i, m'.word a = m.word a := by
    intro i iIn a member
    rw [made.word]
    exact linkBuffers_other _ fun k below => made_apart sound parts short iIn member (by omega)
  have block := made_block made
  refine ⟨?_, fun i iIn => ?_, fun i iIn j jIn differ a above below begins => ?_,
    fun i iIn => ?_, fun b member => ?_⟩
  · rw [made.heap, held]
    exact ⟨blocks, parts⟩
  · rw [made.heap, held]
    rw [made.nbpools] at iIn
    rcases Nat.lt_succ_iff_lt_or_eq.mp iIn with old | rfl
    · rw [(made_other made old).2.2.2]
      exact List.mem_cons_of_mem _ (sound.owns i old)
    · rw [block]
      exact List.mem_cons_self
  · rw [made.nbpools] at iIn jIn
    rcases Nat.lt_succ_iff_lt_or_eq.mp iIn with oldI | rfl
    · rw [(made_other made oldI).2.2.2] at above below
      rcases Nat.lt_succ_iff_lt_or_eq.mp jIn with oldJ | rfl
      · rw [(made_other made oldJ).2.2.2] at begins ⊢
        exact sound.apart i oldI j oldJ differ a above below begins
      · rw [block] at begins ⊢
        by_contra inside
        have beyond := obtained_apart parts (sound.owns i oldI) begins (Nat.lt_of_not_le inside) above
        omega
    · rcases Nat.lt_succ_iff_lt_or_eq.mp jIn with oldJ | rfl
      · rw [(made_other made oldJ).2.2.2] at begins ⊢
        rw [block] at above below
        exact obtained_apart parts (sound.owns j oldJ) above below begins
      · exact absurd rfl differ
  · rw [made.nbpools] at iIn
    rcases Nat.lt_succ_iff_lt_or_eq.mp iIn with old | rfl
    · obtain ⟨entry, layout, -⟩ := made_other made old
      obtain ⟨free, pool⟩ := sound.pools i old
      exact ⟨free, pool_frame pool entry layout (words i old) fun a _ => by rw [made.held]⟩
    · exact ⟨_, made_pool sound made parts some_ short proper⟩
  · rw [made.held] at member
    obtain ⟨i, iIn, a, inPool, same, number⟩ := sound.out b member
    refine ⟨i, by rw [made.nbpools]; exact Nat.lt_succ_of_lt iIn, a, ?_, same,
      (words i iIn a inPool).trans number⟩
    rw [(made_other made iIn).2.2.1]
    exact inPool

/-- `semcreate` has found no semaphore. -/
theorem pools_unmade {entry : Bpentry} (sound : PoolsSound minheap maxheap m) :
    PoolsSound minheap maxheap (m.setEntry m.nbpools entry) := by
  have others : ∀ i < m.nbpools, (m.setEntry m.nbpools entry).buftab i = m.buftab i :=
    fun i iIn => Function.update_of_ne (Nat.ne_of_lt iIn) _ _
  refine pools_change sound rfl rfl rfl (fun i iIn => by rw [others i iIn]) (fun i iIn => ?_)
    sound.out
  obtain ⟨free, pool⟩ := sound.pools i iIn
  exact ⟨free, pool_frame pool (others i iIn) rfl (fun _ _ => rfl) fun _ _ => rfl⟩

end Creation

section Runs

variable {minheap maxheap : Nat} {m m' : Machine} {event : Event}

theorem mkbufpool_pools {bufsiz numbufs : Int} {hasSem : Bool} {result : Int}
    (sound : PoolsSound minheap maxheap m) (bound : maxheap < word32) (ordered : minheap ≤ maxheap)
    (started : 0 < minheap)
    (did : mkbufpool minheap maxheap m bufsiz numbufs hasSem = some (m', result)) :
    PoolsSound minheap maxheap m' := by
  unfold mkbufpool at did
  by_cases refused : bufsiz < bpMinb ∨ bpMaxb < bufsiz ∨ numbufs < 1 ∨ bpMaxn < numbufs ∨
      nbPools ≤ m.nbpools
  · rw [if_pos refused] at did
    cases did
    exact sound
  · rw [if_neg refused] at did
    simp only [bpMinb, bpMaxb, bpMaxn] at refused
    obtain ⟨blocks, parts⟩ := sound.parts
    set size := (bufsiz.toNat + 3) / 4 * 4 with isSize
    set count := numbufs.toNat with isCount
    have few : count ≤ 2048 ∧ 0 < count := by omega
    have small : size + 4 ≤ 8196 := by omega
    have fits : count * (size + 4) ≤ 2048 * 8196 := Nat.mul_le_mul few.1 small
    have some_ : 0 < count * (size + 4) := Nat.mul_pos few.2 (Nat.succ_pos _)
    have short : count * (size + 4) + 7 < word32 := by
      unfold word32
      omega
    obtain ⟨buf, mem, found, outcome⟩ :=
      getmem_partitions parts bound ordered (Nat.ne_of_gt some_) short
    simp only [found, Option.bind_eq_bind, Option.bind_some] at did
    rcases outcome with ⟨rfl, rfl⟩ | ⟨proper, blocks', parts'⟩
    · simp only [Run.got, if_true, Option.some.injEq, Prod.mk.injEq] at did
      obtain ⟨rfl, -⟩ := did
      exact sound
    · have kept : ∀ i < m.nbpools, m.block i ∈
          (m.heap.got buf buf (roundmb (count * (size + 4))) mem).held := fun i iIn => by
        rw [Run.got, if_neg proper]
        exact List.mem_cons_of_mem _ (sound.owns i iIn)
      have obtained : (m.heap.got buf buf (roundmb (count * (size + 4))) mem).heap = mem ∧
          (m.heap.got buf buf (roundmb (count * (size + 4))) mem).held =
            (buf, roundmb (count * (size + 4))) :: m.heap.held := by
        rw [Run.got, if_neg proper]
        exact ⟨rfl, rfl⟩
      rw [if_neg proper] at did
      split_ifs at did with noSem
      · cases did
        refine pools_unmade (pools_heap sound ?_ kept)
        rw [obtained.1, obtained.2]
        exact ⟨blocks', parts'⟩
      · cases did
        have within := (held_apart parts' bound List.mem_cons_self).2.1
        refine pools_made sound ⟨rfl, rfl, ?_, rfl, rfl, rfl⟩ (obtained.1 ▸ parts') obtained.2
          few.2 short (Nat.lt_of_lt_of_le started within)
        have whole : (count : Int) = numbufs := by omega
        rw [whole]
        rfl

/-- Every step keeps the pools. -/
theorem pools_step (sound : PoolsSound minheap maxheap m) (bound : maxheap < word32)
    (ordered : minheap ≤ maxheap) (started : 0 < minheap) (may : Proper m event)
    (did : act minheap maxheap m event = some m') : PoolsSound minheap maxheap m' := by
  cases event with
  | mkbufpool bufsiz numbufs hasSem =>
      obtain ⟨⟨_, result⟩, made, rfl⟩ := Option.map_eq_some_iff.mp did
      exact mkbufpool_pools sound bound ordered started made
  | getbuf pid poolid =>
      simp only [act] at did
      split_ifs at did
      cases did
      exact getbuf_pools sound
  | served pid poolid =>
      simp only [act] at did
      split_ifs at did with goes
      cases did
      exact pools_takes sound goes.1 goes.2
  | freebuf bufaddr =>
      cases did
      exact pools_freebuf sound may
  | store word =>
      cases did
      exact pools_store sound may
  | heap call =>
      obtain ⟨blocks, parts⟩ := sound.parts
      obtain ⟨r, gone, rfl⟩ := Option.map_eq_some_iff.mp did
      obtain ⟨r', blocks', returned, parts'⟩ := heap_step parts bound ordered started may.1
      obtain rfl := Option.some.inj (gone.symm.trans returned)
      exact pools_heap sound ⟨blocks', parts'⟩ fun i iIn =>
        held_kept gone (sound.owns i iIn) (may.2 i iIn)

theorem pools_started (ordered : minheap < maxheap) (positive : 0 < minheap)
    (rounded : (maxheap - minheap) % 8 = 0) (started : Started minheap maxheap m) :
    PoolsSound minheap maxheap m := by
  obtain ⟨heap, none, empty⟩ := started
  refine ⟨heap_start_partitions ordered positive rounded heap, ?_, ?_, ?_, ?_⟩
  · simp [none]
  · simp [none]
  · simp [none]
  · simp [empty]

end Runs

section Results

variable {minheap maxheap : Nat} {m : Machine}

/-- Every buffer is in one place, and the semaphore of a pool counts its free buffers, less the
processes that it has promised one to. -/
structure Accounted (m : Machine) : Prop where
  inside : ∀ i < m.nbpools, m.block i ∈ m.heap.held ∧ ∀ k < (m.layout i).2,
    (m.block i).1 ≤ m.header i k ∧ m.header i k + m.stride i ≤ (m.block i).1 + (m.block i).2
  disjoint : ∀ i < m.nbpools, ∀ j < m.nbpools, ∀ k < (m.layout i).2, ∀ l < (m.layout j).2,
    (i, k) ≠ (j, l) → m.header i k + m.stride i ≤ m.header j l ∨
      m.header j l + m.stride j ≤ m.header i k
  once : m.held.Nodup
  conserved : ∀ i < m.nbpools, (∀ a ∈ m.freeOf i, a ∈ m.headers i) ∧
    ∀ a ∈ m.headers i, (m.freeOf i).count a + m.held.count (a + 4) = 1
  returns : ∀ b ∈ m.held, ∃ i < m.nbpools, b - 4 ∈ m.headers i ∧ m.word (b - 4) = i ∧
    (freebuf m b).1.freeOf i = (b - 4) :: m.freeOf i
  found : ∀ i < m.nbpools, ∀ pid ∈ (m.buftab i).bpsem.passed, m.freeOf i ≠ []
  counted : ∀ i < m.nbpools, (m.buftab i).bpsem.count + (m.buftab i).bpsem.queue.length +
    (m.buftab i).bpsem.passed.length = (m.freeOf i).length

theorem pools_disjoint (sound : PoolsSound minheap maxheap m) {i j k l : Nat} (iIn : i < m.nbpools)
    (jIn : j < m.nbpools) (below : k < (m.layout i).2) (below' : l < (m.layout j).2)
    (differ : (i, k) ≠ (j, l)) : m.header i k + m.stride i ≤ m.header j l ∨
      m.header j l + m.stride j ≤ m.header i k := by
  by_cases same : i = j
  · subst same
    have order : ∀ k l, k < l → m.header i k + m.stride i ≤ m.header i l := by
      intro k l less
      have steps : (k + 1) * m.stride i ≤ l * m.stride i := Nat.mul_le_mul_right _ less
      rw [Nat.add_mul, Nat.one_mul] at steps
      unfold Machine.header
      omega
    have apart : k ≠ l := fun equal => differ (by rw [equal])
    rcases Nat.lt_or_gt_of_ne apart with less | greater
    · exact .inl (order k l less)
    · exact .inr (order l k greater)
  · obtain ⟨_, poolI⟩ := sound.pools i iIn
    obtain ⟨_, poolJ⟩ := sound.pools j jIn
    have insideI := header_inside poolI below
    have insideJ := header_inside poolJ below'
    have atHeader := sound.apart i iIn j jIn same (m.header i k) insideI.1
    have atBlock := sound.apart i iIn j jIn same (m.block j).1
    unfold Machine.stride at insideI insideJ ⊢
    omega

theorem accounted (sound : PoolsSound minheap maxheap m) : Accounted m := by
  refine ⟨fun i iIn => ⟨sound.owns i iIn, fun k below => ?_⟩,
    fun i iIn j jIn k below l below' => pools_disjoint sound iIn jIn below below', ?_,
    fun i iIn => ?_, fun b out => ?_, fun i iIn pid passed => ?_, fun i iIn => ?_⟩
  · obtain ⟨free, pool⟩ := sound.pools i iIn
    exact header_inside pool below
  · refine List.nodup_iff_count_le_one.mpr fun b => ?_
    by_cases out : b ∈ m.held
    · obtain ⟨i, iIn, a, inPool, rfl, -⟩ := sound.out b out
      obtain ⟨free, pool⟩ := sound.pools i iIn
      have once := pool.once a inPool
      omega
    · rw [List.count_eq_zero_of_not_mem out]
      exact Nat.zero_le _
  · obtain ⟨free, pool⟩ := sound.pools i iIn
    rw [freeOf_eq pool]
    exact ⟨pool.member, pool.once⟩
  · obtain ⟨i, iIn, a, inPool, rfl, number⟩ := sound.out b out
    obtain ⟨free, pool⟩ := sound.pools i iIn
    refine ⟨i, iIn, inPool, number, ?_⟩
    rw [freeOf_eq (freebuf_pool pool inPool out iIn number), freeOf_eq pool]
    rfl
  · obtain ⟨free, pool⟩ := sound.pools i iIn
    obtain ⟨a, rest, rfl⟩ := free_nonempty pool passed
    rw [freeOf_eq pool]
    exact List.cons_ne_nil _ _
  · obtain ⟨free, pool⟩ := sound.pools i iIn
    rw [freeOf_eq pool]
    exact pool.level

/-- In every run each buffer is in the free list of its pool or out, once, and `freebuf` gives it
back to the pool that it was taken from. -/
theorem pools_are_accounted (started : 0 < minheap) (ordered : minheap < maxheap)
    (bound : maxheap < word32) (rounded : (maxheap - minheap) % 8 = 0)
    (run : Reached (act minheap maxheap) (Started minheap maxheap) Proper m) : Accounted m := by
  refine accounted (reached_invariant run
    (fun m begins => pools_started ordered started rounded begins) ?_)
  exact fun m m' event sound may did =>
    pools_step sound bound (Nat.le_of_lt ordered) started may did

/-- The calls of the pools -/
def Calls (m : Machine) : Event → Prop
  | .freebuf bufaddr => bufaddr ∈ m.held
  | .store _ => False
  | .heap _ => False
  | _ => True

instance (m : Machine) (event : Event) : Decidable (Calls m event) :=
  match event with
  | .mkbufpool _ _ _ => isTrue trivial
  | .getbuf _ _ => isTrue trivial
  | .served _ _ => isTrue trivial
  | .freebuf bufaddr => inferInstanceAs (Decidable (bufaddr ∈ m.held))
  | .store _ => isFalse id
  | .heap _ => isFalse id

theorem calls_proper (m : Machine) (event : Event) (calls : Calls m event) : Proper m event := by
  cases event with
  | freebuf bufaddr => exact calls
  | store word => exact calls.elim
  | heap call => exact calls.elim
  | _ => trivial

/-- A machine that has just been started, on cleared memory -/
def blank : Machine where
  heap := firstRun 4096 8192
  word := fun _ => 0
  buftab := fun _ => ⟨0, ⟨0, [], []⟩, 0⟩
  nbpools := 0
  held := []
  layout := fun _ => (0, 0)

theorem blank_reached {events : List Event}
    (took : takeEvents (act 4096 8192) Calls events blank = some m) :
    Reached (act 4096 8192) (Started 4096 8192) Proper m :=
  reached_weaken calls_proper (take_events (.start ⟨⟨emptyMem, rfl⟩, rfl, rfl⟩) took)

/-- Two pools are made, process 2 waits for the one buffer of the first and gets it when process 1
gives it back. -/
theorem pools_are_accounted_waits :
    ∃ m, takeEvents (act 4096 8192) Calls [.mkbufpool 8 1 true, .mkbufpool 9 3 true, .getbuf 1 0,
      .getbuf 2 0, .getbuf 3 1, .freebuf 4100, .served 2 0] blank = some m ∧ Accounted m := by
  obtain ⟨m, took⟩ := Option.isSome_iff_exists.mp (show (takeEvents (act 4096 8192) Calls
    [.mkbufpool 8 1 true, .mkbufpool 9 3 true, .getbuf 1 0, .getbuf 2 0, .getbuf 3 1,
      .freebuf 4100, .served 2 0] blank).isSome = true by decide +kernel)
  exact ⟨m, took, pools_are_accounted (by decide) (by decide) (by decide) (by decide)
    (blank_reached took)⟩

/-- While a process waits for a buffer, the semaphore counts one less than there are. -/
theorem waiting_is_counted : ¬∀ m, Reached (act 4096 8192) (Started 4096 8192) Proper m →
    ∀ i < m.nbpools, (m.buftab i).bpsem.count + (m.buftab i).bpsem.passed.length =
      (m.freeOf i).length := by
  intro always
  have counts : (takeEvents (act 4096 8192) Calls [.mkbufpool 8 1 true, .getbuf 1 0, .getbuf 2 0]
      blank).map (fun m => (m.nbpools, (m.buftab 0).bpsem.count,
        (m.buftab 0).bpsem.passed.length, (m.freeOf 0).length)) = some (1, -1, 0, 0) := by
    decide +kernel
  obtain ⟨m, took, all⟩ := Option.map_eq_some_iff.mp counts
  simp only [Prod.mk.injEq] at all
  obtain ⟨one, count, passed, free⟩ := all
  have level := always m (blank_reached took) 0 (by omega)
  rw [count, passed, free] at level
  exact absurd level (by decide)

end Results

end Xinu.Kernel.BufferPools
