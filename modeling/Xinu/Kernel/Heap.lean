import Xinu.Kernel.FreeList
import Xinu.Lib.Interleaving

/-!
# The heap allocators

`getmem`, `getstk` and `freemem` on the kernel heap, `vgetmem` and `vfreemem` on the heap of
a process. A node of the free list is the first eight bytes of a free block, so the fields of
a node are functions of its address. The walks along the list have a fuel, and `none` means
that it ran out.
-/

namespace Xinu.Kernel.Heap

open Xinu.Kernel.State Xinu.Kernel.Memory Xinu.Lib.Interleaving

set_option autoImplicit false

structure Memblk where
  mnext : Nat
  mlength : Nat
  deriving DecidableEq

/-- The head of a free list and the memory that its nodes lie in. -/
structure FreeMem where
  memlist : Memblk
  node : Nat → Memblk

namespace FreeMem

variable (m : FreeMem)

def setNode (a : Nat) (block : Memblk) : FreeMem :=
  { m with node := Function.update m.node a block }

/-- `prev->mnext = value`, where no node stands for `&memlist`. -/
def setNext (prev : Option Nat) (value : Nat) : FreeMem :=
  match prev with
  | none => { m with memlist := { m.memlist with mnext := value } }
  | some a => m.setNode a { m.node a with mnext := value }

def addLength (nbytes : Nat) : FreeMem :=
  { m with memlist := { m.memlist with mlength := (m.memlist.mlength + nbytes) % word32 } }

def subLength (nbytes : Nat) : FreeMem :=
  { m with memlist := { m.memlist with mlength := (m.memlist.mlength + word32 - nbytes) % word32 } }

end FreeMem

section Allocation

/-- The loop of `getmem` and `vgetmem` from the node `curr` on. -/
def firstFit (nbytes : Nat) : Nat → FreeMem → Option Nat → Nat → Option (Nat × FreeMem)
  | 0, _, _, _ => none
  | fuel + 1, m, prev, curr =>
      if curr = 0 then some (sysErrPtr, m)
      else if (m.node curr).mlength = nbytes then
        some (curr, (m.setNext prev (m.node curr).mnext).subLength nbytes)
      else if nbytes < (m.node curr).mlength then
        let leftover := (curr + nbytes) % word32
        let m := m.setNext prev leftover
        let m := m.setNode leftover
          { mnext := (m.node curr).mnext, mlength := (m.node curr).mlength - nbytes }
        some (curr, m.subLength nbytes)
      else firstFit nbytes fuel m (some curr) (m.node curr).mnext

def getmem (fuel : Nat) (m : FreeMem) (nbytes : Nat) : Option (Nat × FreeMem) :=
  if nbytes = 0 then some (sysErrPtr, m)
  else firstFit (roundmb nbytes) fuel m none m.memlist.mnext

/-- The scan of `getstk`: the last block that fits, with the node in front of it. -/
def lastFit (nbytes : Nat) (m : FreeMem) : Nat → Option Nat → Nat → Option (Option Nat × Nat) →
    Option (Option (Option Nat × Nat))
  | 0, _, _, _ => none
  | fuel + 1, prev, curr, fits =>
      if curr = 0 then some fits
      else
        lastFit nbytes m fuel (some curr) (m.node curr).mnext
          (if nbytes ≤ (m.node curr).mlength then some (prev, curr) else fits)

def getstk (fuel : Nat) (m : FreeMem) (nbytes : Nat) : Option (Nat × FreeMem) :=
  if nbytes = 0 then some (sysErrPtr, m)
  else do
    let nbytes := roundmb nbytes
    match ← lastFit nbytes m fuel none m.memlist.mnext none with
    | none => some (sysErrPtr, m)
    | some (fitsprev, fits) =>
        if nbytes = (m.node fits).mlength then
          let m := (m.setNext fitsprev (m.node fits).mnext).subLength nbytes
          some ((fits + nbytes - 4) % word32, m)
        else
          let left := (m.node fits).mlength - nbytes
          let m := (m.setNode fits { m.node fits with mlength := left }).subLength nbytes
          some (((fits + left) % word32 + nbytes - 4) % word32, m)

end Allocation

section Release

/-- The walk of `freemem` and `vfreemem`: the node before the block and the one after it. -/
def walkTo (m : FreeMem) (block : Nat) : Nat → Option Nat → Nat → Option (Option Nat × Nat)
  | 0, _, _ => none
  | fuel + 1, prev, next =>
      if next ≠ 0 ∧ next < block then walkTo m block fuel (some next) (m.node next).mnext
      else some (prev, next)

/-- The end of the node before the block, or `NULL`. -/
def topOf (m : FreeMem) : Option Nat → Nat
  | none => 0
  | some prev => (prev + (m.node prev).mlength) % word32

/-- The block joins the node before it, or becomes a node of its own. -/
def linkBlock (m : FreeMem) (block nbytes top : Nat) (prev : Option Nat) (next : Nat) :
    FreeMem × Option Nat :=
  if top = block then
    match prev with
    | some a => (m.setNode a
        { m.node a with mlength := ((m.node a).mlength + nbytes) % word32 }, some a)
    | none => (m.addLength nbytes, none)
  else
    let m := m.setNode block { mnext := next, mlength := nbytes }
    (m.setNext prev block, some block)

/-- The node joins the one after it when they are adjacent. No block joins `memlist`, whose
address is not in the heap. -/
def joinNext (m : FreeMem) (block : Option Nat) (next : Nat) : FreeMem :=
  match block with
  | none => m
  | some a =>
      if (a + (m.node a).mlength) % word32 = next then
        m.setNode a
          { mnext := (m.node next).mnext
            mlength := ((m.node a).mlength + (m.node next).mlength) % word32 }
      else m

/-- What `freemem` and `vfreemem` do behind their checks of the arguments. -/
def giveBack (fuel : Nat) (m : FreeMem) (block nbytes : Nat) : Option (Int × FreeMem) := do
  let (prev, next) ← walkTo m block fuel none m.memlist.mnext
  let top := topOf m prev
  if prev ≠ none ∧ block < top ∨ next ≠ 0 ∧ next < (block + nbytes) % word32 then
    some (sysErr, m)
  else
    let (m, block) := linkBlock (m.addLength nbytes) block nbytes top prev next
    some (ok, joinNext m block next)

def freemem (fuel minheap maxheap : Nat) (m : FreeMem) (blkaddr nbytes : Nat) :
    Option (Int × FreeMem) :=
  if nbytes = 0 ∨ blkaddr < minheap ∨ maxheap < blkaddr then some (sysErr, m)
  else giveBack fuel m blkaddr (roundmb nbytes)

def freestk (fuel minheap maxheap : Nat) (m : FreeMem) (addr len : Nat) : Option (Int × FreeMem) :=
  freemem fuel minheap maxheap m ((addr + word32 - roundmb len + 4) % word32) (roundmb len)

end Release

section Virtual

/-- The fields of `procent` that `vgetmem` and `vfreemem` use, and the heap they work on. -/
structure Vheap where
  vh : Bool
  hsize : Nat
  vmeminit : Bool
  mem : FreeMem

def vheapEnd (hsize : Nat) : Nat := (vheapStart + nbpg * hsize) % word32

def vmeminit (p : Vheap) : Vheap :=
  let length := nbpg * p.hsize % word32
  { p with
    vmeminit := true
    mem := { p.mem with memlist := { mnext := vheapStart, mlength := length } }.setNode
      vheapStart { mnext := 0, mlength := length } }

def vgetmem (fuel : Nat) (p : Vheap) (nbytes : Nat) : Option (Nat × Vheap) :=
  if nbytes = 0 then some (sysErrPtr, p)
  else if p.vh = false then some (sysErrPtr, p)
  else
    let p := if p.vmeminit = false then vmeminit p else p
    (firstFit (roundmb nbytes) fuel p.mem none p.mem.memlist.mnext).map fun result =>
      (result.1, { p with mem := result.2 })

def vfreemem (fuel : Nat) (p : Vheap) (blkaddr nbytes : Nat) : Option (Int × Vheap) :=
  if nbytes = 0 ∨ blkaddr < vheapStart ∨ vheapEnd p.hsize < blkaddr then some (sysErr, p)
  else if p.vh = false then some (sysErr, p)
  else (giveBack fuel p.mem blkaddr (roundmb nbytes)).map fun result =>
    (result.1, { p with mem := result.2 })

end Virtual

section Initial

/-- `meminit`, on memory that holds anything. -/
def meminit (minheap maxheap : Nat) (m : FreeMem) : FreeMem :=
  { m with memlist := { mnext := minheap, mlength := maxheap - minheap } }.setNode minheap
    { mnext := 0, mlength := maxheap - minheap }

end Initial

end Xinu.Kernel.Heap
