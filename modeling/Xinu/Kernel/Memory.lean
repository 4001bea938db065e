import Xinu.Kernel.State

/-!
# The kernel's free memory list

`getstk` and `freemem` as `vcreate`, `create` and `kill` use them for process
stacks. The list keeps the address and the length of each block in address
order; the nodes themselves live inside the free blocks.
-/

namespace Xinu.Kernel.Memory

open Xinu.Kernel.State Xinu.Lib.StateError

set_option autoImplicit false

def roundmb (nbytes : Nat) : Nat := (7 + nbytes) % word32 / 8 * 8

/-- The last block that fits gives up its top section, or all of itself when it
fits exactly. -/
def takeTop (nbytes : Nat) : List (Nat × Nat) → Option (Nat × List (Nat × Nat))
  | [] => none
  | (addr, mlength) :: rest =>
      match takeTop nbytes rest with
      | some (fits, rest') => some (fits, (addr, mlength) :: rest')
      | none =>
          if mlength < nbytes then none
          else if mlength = nbytes then some (addr, rest)
          else some (addr + (mlength - nbytes), (addr, mlength - nbytes) :: rest)

def getstk (nbytes : Nat) : Call Nat := do
  if nbytes = 0 then pure sysErrPtr
  else
    let nbytes := roundmb nbytes
    let s ← get
    match takeTop nbytes s.ker.memlist.blocks with
    | none => pure sysErrPtr
    | some (fits, blocks) => do
        modifyKer fun ker =>
          { ker with memlist :=
            { mlength := (ker.memlist.mlength + word32 - nbytes) % word32, blocks := blocks } }
        pure ((fits + nbytes - 4) % word32)

def coalesceNext (block : Nat × Nat) : List (Nat × Nat) → List (Nat × Nat)
  | [] => [block]
  | next :: rest =>
      if block.1 + block.2 = next.1 then (block.1, block.2 + next.2) :: rest
      else block :: next :: rest

def freemem (blkaddr nbytes : Nat) : Call Int := do
  let s ← get
  if nbytes = 0 ∨ blkaddr < s.ker.minheap ∨ s.ker.maxheap < blkaddr then pure sysErr
  else
    let nbytes := roundmb nbytes
    let blocks := s.ker.memlist.blocks
    let before := blocks.takeWhile fun block => block.1 < blkaddr
    let after := blocks.dropWhile fun block => block.1 < blkaddr
    let overlapsPrev := match before.getLast? with
      | none => false
      | some prev => decide (blkaddr < prev.1 + prev.2)
    let overlapsNext := match after with
      | [] => false
      | next :: _ => decide (next.1 < (blkaddr + nbytes) % word32)
    if overlapsPrev || overlapsNext then pure sysErr
    else do
      let freed := match before.getLast? with
        | none => coalesceNext (blkaddr, nbytes) after
        | some prev =>
            if prev.1 + prev.2 = blkaddr then
              before.dropLast ++ coalesceNext (prev.1, prev.2 + nbytes) after
            else before ++ coalesceNext (blkaddr, nbytes) after
      modifyKer fun ker =>
        { ker with memlist :=
          { mlength := (ker.memlist.mlength + nbytes) % word32, blocks := freed } }
      pure ok

def freestk (addr len : Nat) : Call Int :=
  freemem ((addr + word32 - roundmb len + 4) % word32) (roundmb len)

/-- The three calls return and only change the free memory list. -/
theorem getstk_returned (s : St) (nbytes : Nat) :
    ∃ addr memlist, getstk nbytes s =
      .ok addr { s with ker := { s.ker with memlist := memlist } } := by
  unfold getstk
  split
  · exact ⟨sysErrPtr, s.ker.memlist, rfl⟩
  · simp only [get_bind]
    cases takeTop (roundmb nbytes) s.ker.memlist.blocks with
    | none => exact ⟨sysErrPtr, s.ker.memlist, rfl⟩
    | some taken => exact ⟨_, _, rfl⟩

theorem freemem_returned (s : St) (blkaddr nbytes : Nat) :
    ∃ status memlist, freemem blkaddr nbytes s =
      .ok status { s with ker := { s.ker with memlist := memlist } } := by
  unfold freemem
  rw [get_bind]
  dsimp only
  split_ifs
  · exact ⟨sysErr, s.ker.memlist, rfl⟩
  · exact ⟨sysErr, s.ker.memlist, rfl⟩
  · exact ⟨ok, _, rfl⟩

theorem freestk_returned (s : St) (addr len : Nat) :
    ∃ status memlist, freestk addr len s =
      .ok status { s with ker := { s.ker with memlist := memlist } } :=
  freemem_returned s _ _

end Xinu.Kernel.Memory
