import Xinu.Kernel.Memory
import Xinu.Lib.MemoryProgram
import Xinu.Paging.Address

/-!
# The free list of a virtual heap

`vgetmem` and `vfreemem` keep the nodes of their free list in the heap itself, so they are
programs over the heap of the current process. Only the head of the list, `vmemlist`, is in
the process table. The walks along the list have a fuel; `none` means that it ran out.
-/

namespace Xinu.Paging.VirtualHeap

open Xinu.Kernel.State Xinu.Kernel.Entry Xinu.Kernel.Memory Xinu.Lib.MemoryProgram
open Xinu.Paging.Address

set_option autoImplicit false

abbrev HeapProgram := Program Nat Byte

/-- The head of the free list and the flag that it has been set up. -/
structure Vmemlist where
  mnext : Nat
  mlength : Nat
  vmeminit : Bool

def loadByte (a : Nat) : HeapProgram Nat := .load a fun value => .done value.toNat

def storeByte (a value : Nat) : HeapProgram Unit :=
  .store a (BitVec.ofNat 8 value) (.done ())

def loadWord (a : Nat) : HeapProgram Nat := do
  let byte0 ← loadByte a
  let byte1 ← loadByte (a + 1)
  let byte2 ← loadByte (a + 2)
  let byte3 ← loadByte (a + 3)
  pure (byte0 + 256 * byte1 + 65536 * byte2 + 16777216 * byte3)

def storeWord (a value : Nat) : HeapProgram Unit := do
  storeByte a value
  storeByte (a + 1) (value / 256)
  storeByte (a + 2) (value / 65536)
  storeByte (a + 3) (value / 16777216)

/-- The fields of a node in the heap. -/
def mnext (node : Nat) : Nat := node

def mlength (node : Nat) : Nat := node + 4

/-- `prev->mnext = value`, where no node stands for `vmemlist`. -/
def setNext (vmemlist : Vmemlist) (prev : Option Nat) (value : Nat) : HeapProgram Vmemlist :=
  match prev with
  | none => pure { vmemlist with mnext := value }
  | some node => do
      storeWord (mnext node) value
      pure vmemlist

def addLength (vmemlist : Vmemlist) (nbytes : Nat) : Vmemlist :=
  { vmemlist with mlength := (vmemlist.mlength + nbytes) % word32 }

def subLength (vmemlist : Vmemlist) (nbytes : Nat) : Vmemlist :=
  { vmemlist with mlength := (vmemlist.mlength + word32 - nbytes) % word32 }

def vmeminit (hsize : Nat) : HeapProgram Vmemlist := do
  let length := nbpg * hsize % word32
  storeWord (mnext vheapStart) 0
  storeWord (mlength vheapStart) length
  pure { mnext := vheapStart, mlength := length, vmeminit := true }

/-- The search of `vgetmem` from the node `curr` on. -/
def vgetmemFrom (nbytes : Nat) (vmemlist : Vmemlist) (fuel : Nat) (prev : Option Nat)
    (curr : Nat) : HeapProgram (Option (Nat × Vmemlist)) :=
  match fuel with
  | 0 => pure none
  | fuel + 1 =>
      if curr = 0 then pure (some (sysErrPtr, vmemlist))
      else do
        let length ← loadWord (mlength curr)
        if length = nbytes then do
          let next ← loadWord (mnext curr)
          let vmemlist ← setNext vmemlist prev next
          pure (some (curr, subLength vmemlist nbytes))
        else if nbytes < length then do
          let leftover := (curr + nbytes) % word32
          let vmemlist ← setNext vmemlist prev leftover
          let next ← loadWord (mnext curr)
          storeWord (mnext leftover) next
          let length ← loadWord (mlength curr)
          storeWord (mlength leftover) ((length + word32 - nbytes) % word32)
          pure (some (curr, subLength vmemlist nbytes))
        else do
          let next ← loadWord (mnext curr)
          vgetmemFrom nbytes vmemlist fuel (some curr) next

/-- The process with the fields `vh` and `hsize` asks for memory. -/
def vgetmem (fuel : Nat) (vh : Bool) (hsize : Nat) (vmemlist : Vmemlist) (nbytes : Nat) :
    HeapProgram (Option (Nat × Vmemlist)) :=
  if nbytes = 0 then pure (some (sysErrPtr, vmemlist))
  else if vh = false then pure (some (sysErrPtr, vmemlist))
  else do
    let vmemlist ← if vmemlist.vmeminit = false then vmeminit hsize else pure vmemlist
    vgetmemFrom (roundmb nbytes) vmemlist fuel none vmemlist.mnext

/-- The walk of `vfreemem`: the node before the block and the one after it. -/
def vfreememFrom (block : Nat) (fuel : Nat) (prev : Option Nat) (next : Nat) :
    HeapProgram (Option (Option Nat × Nat)) :=
  match fuel with
  | 0 => pure none
  | fuel + 1 =>
      if next ≠ 0 ∧ next < block then do
        let after ← loadWord (mnext next)
        vfreememFrom block fuel (some next) after
      else pure (some (prev, next))

/-- The end of the node before the block, or `NULL`. -/
def topOf (prev : Option Nat) : HeapProgram Nat :=
  match prev with
  | none => pure 0
  | some node => do
      let length ← loadWord (mlength node)
      pure ((node + length) % word32)

/-- The block becomes part of the list: with the node before it, or as a node of its own. -/
def vfreememLink (vmemlist : Vmemlist) (block nbytes top : Nat) (prev : Option Nat) (next : Nat) :
    HeapProgram Vmemlist := do
  let (block, vmemlist) ← match prev with
    | some node =>
        if top = block then do
          let length ← loadWord (mlength node)
          storeWord (mlength node) ((length + nbytes) % word32)
          pure (node, vmemlist)
        else do
          storeWord (mnext block) next
          storeWord (mlength block) nbytes
          storeWord (mnext node) block
          pure (block, vmemlist)
    | none => do
        storeWord (mnext block) next
        storeWord (mlength block) nbytes
        pure (block, { vmemlist with mnext := block })
  let length ← loadWord (mlength block)
  if (block + length) % word32 = next then do
    let nextLength ← loadWord (mlength next)
    let length ← loadWord (mlength block)
    storeWord (mlength block) ((length + nextLength) % word32)
    let after ← loadWord (mnext next)
    storeWord (mnext block) after
    pure vmemlist
  else pure vmemlist

/-- The process with the fields `vh` and `hsize` gives memory back. -/
def vfreemem (fuel : Nat) (vh : Bool) (hsize : Nat) (vmemlist : Vmemlist) (blkaddr nbytes : Nat) :
    HeapProgram (Option (Int × Vmemlist)) :=
  if nbytes = 0 ∨ blkaddr < vheapStart ∨ (vheapStart + nbpg * hsize) % word32 < blkaddr then
    pure (some (sysErr, vmemlist))
  else if vh = false then pure (some (sysErr, vmemlist))
  else do
    let nbytes := roundmb nbytes
    match ← vfreememFrom blkaddr fuel none vmemlist.mnext with
    | none => pure none
    | some (prev, next) => do
        let top ← topOf prev
        if prev ≠ none ∧ blkaddr < top ∨ next ≠ 0 ∧ next < (blkaddr + nbytes) % word32 then
          pure (some (sysErr, vmemlist))
        else do
          let vmemlist ← vfreememLink (addLength vmemlist nbytes) blkaddr nbytes top prev next
          pure (some (ok, vmemlist))

/-- What a process does with its heap. -/
inductive HeapCall where
  | vgetmem (nbytes : Nat)
  | vfreemem (blkaddr nbytes : Nat)
  | load (a : Nat)
  | store (a : Nat) (value : Byte)

/-- What it observes. -/
inductive Observation where
  | address (a : Nat)
  | status (value : Int)
  | byte (value : Byte)
  deriving DecidableEq

/-- The calls one after the other. -/
def heapCalls (fuel : Nat) (vh : Bool) (hsize : Nat) :
    List HeapCall → Vmemlist → HeapProgram (Option (List Observation))
  | [], _ => pure (some [])
  | .vgetmem nbytes :: rest, vmemlist => do
      match ← vgetmem fuel vh hsize vmemlist nbytes with
      | none => pure none
      | some (a, vmemlist) => do
          let seen ← heapCalls fuel vh hsize rest vmemlist
          pure (seen.map (.address a :: ·))
  | .vfreemem blkaddr nbytes :: rest, vmemlist => do
      match ← vfreemem fuel vh hsize vmemlist blkaddr nbytes with
      | none => pure none
      | some (status, vmemlist) => do
          let seen ← heapCalls fuel vh hsize rest vmemlist
          pure (seen.map (.status status :: ·))
  | .load a :: rest, vmemlist =>
      .load a fun value => do
        let seen ← heapCalls fuel vh hsize rest vmemlist
        pure (seen.map (.byte value :: ·))
  | .store a value :: rest, vmemlist => .store a value (heapCalls fuel vh hsize rest vmemlist)

section Results

/-- Memory is allocated before any is given back. -/
def GetsFirst : List HeapCall → Prop
  | [] => True
  | .vgetmem nbytes :: rest => nbytes ≠ 0 ∨ GetsFirst rest
  | .vfreemem _ _ :: _ => False
  | .load _ :: rest => GetsFirst rest
  | .store _ _ :: rest => GetsFirst rest

/-- The first successful call of `vgetmem` forgets what was left in `vmemlist`. -/
theorem heap_calls_forget {fuel hsize : Nat} {calls : List HeapCall} {left right : Vmemlist}
    (gets : GetsFirst calls) (leftNew : left.vmeminit = false) (rightNew : right.vmeminit = false) :
    heapCalls fuel true hsize calls left = heapCalls fuel true hsize calls right := by
  induction calls with
  | nil => rfl
  | cons call rest induction =>
      cases call with
      | vgetmem nbytes =>
          unfold heapCalls vgetmem
          by_cases zero : nbytes = 0
          · have more : GetsFirst rest := gets.resolve_left fun positive => positive zero
            rw [if_pos zero, if_pos zero]
            change Program.bind (heapCalls fuel true hsize rest left) _ =
              Program.bind (heapCalls fuel true hsize rest right) _
            rw [induction more]
          · rw [if_neg zero, if_neg zero, if_pos leftNew, if_pos rightNew]
            simp only [Bool.true_eq_false, ↓reduceIte]
      | vfreemem blkaddr nbytes => exact absurd gets id
      | load a =>
          unfold heapCalls
          rw [induction gets]
      | store a value =>
          unfold heapCalls
          rw [induction gets]

end Results

end Xinu.Paging.VirtualHeap
