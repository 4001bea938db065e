import Xinu.Kernel.Semaphore
import Xinu.Paging.Address

/-!
# Backing stores

The page server of `paging/` and the per-process store map of `paging/bs.c`.
The swap disk is an array of 512-byte blocks, 128 words each, that never fails.
-/

namespace Xinu.Paging.BackingStore

open Xinu.Kernel.State Xinu.Kernel.Entry Xinu.Kernel.Semaphore Xinu.Lib.StateError
open Xinu.Paging.Address

set_option autoImplicit false

/-- `psinit` waits for `bs_init_sem` before it looks at the server status, and
returns without a signal when the server is already active. -/
def psinit : Call Int := do
  wait .bsInitSem
  let s ← get
  if s.ker.pageServerActive then pure ok
  else do
    modifyKer fun ker => ker.setSem .bsSem fun _ => { scount := 1, squeue := [] }
    modifyKer fun ker => { ker with
      bstab := fun store =>
        if store < maxBsEntries then
          { isopen := false, isallocated := false, usecount := 0, npages := 0 }
        else ker.bstab store
      pageServerActive := true }
    signal .bsInitSem
    pure ok

def getBs (bsId : Int) (npages : Nat) : Call Int := do
  let s ← get
  if s.ker.pageServerActive = false then
    let _ ← psinit
  if maxId < bsId ∨ bsId < minId ∨ npages = 0 ∨ maxPagesPerBs < npages then pure sysErr
  else do
    wait .bsSem
    let s ← get
    if (s.ker.bstab bsId.toNat).isopen then do
      signal .bsSem
      pure sysErr
    else do
      modifyKer fun ker => ker.setStore bsId.toNat fun store =>
        { store with isopen := true, npages := npages }
      signal .bsSem
      pure (npages : Int)

def releaseBs (bsId : Int) : Call Int := do
  let s ← get
  if s.ker.pageServerActive = false then pure sysErr
  else do
    wait .bsSem
    let s ← get
    if maxId < bsId ∨ bsId < minId ∨ (s.ker.bstab bsId.toNat).isopen = false then do
      signal .bsSem
      pure sysErr
    else do
      modifyKer fun ker => ker.setStore bsId.toNat fun store =>
        { store with isopen := false, npages := 0 }
      signal .bsSem
      pure ok

/-- The loop of `allocate_bs` over `fuel` stores from store `i` on. -/
def allocateBsFrom (npages : Nat) : Nat → Nat → Call Int
  | 0, _ => pure sysErr
  | fuel + 1, i => do
      let s ← get
      if (s.ker.bstab i).isallocated = false then do
        let opened ← getBs i npages
        if opened = sysErr then allocateBsFrom npages fuel (i + 1)
        else do
          modifyKer fun ker => ker.setStore i fun store =>
            { store with isallocated := true, usecount := 0 }
          pure (i : Int)
      else allocateBsFrom npages fuel (i + 1)

def allocateBs (npages : Nat) : Call Int := do
  let s ← get
  if s.ker.pageServerActive = false then
    let _ ← psinit
  allocateBsFrom npages maxBsEntries 0

def deallocateBs (store : Int) : Call Int := do
  if maxId < store ∨ store < minId then pure sysErr
  else do
    let s ← get
    if (s.ker.bstab store.toNat).isallocated = false then pure sysErr
    else if 0 < (s.ker.bstab store.toNat).usecount then pure sysErr
    else do
      let _ ← releaseBs store
      modifyKer fun ker => ker.setStore store.toNat fun entry =>
        { entry with isallocated := false, usecount := 0 }
      pure store

/-- The first of the eight disk blocks of a page of a store. -/
def pageBlock (bsId : Int) (page : Nat) : Nat := (bsId.toNat * rdPagesPerBs + page) * 8

def diskPage (s : St) (bsId : Int) (page : Nat) : Nat → Word :=
  fun word => s.disk (pageBlock bsId page + word / 128) (word % 128)

/-- A store and page that `read_bs` and `write_bs` reject. -/
def BadStorePage (ker : Ker) (bsId : Int) (page : Nat) : Prop :=
  (ker.bstab bsId.toNat).isopen = false ∨ (ker.bstab bsId.toNat).npages ≤ page

instance (ker : Ker) (bsId : Int) (page : Nat) : Decidable (BadStorePage ker bsId page) :=
  inferInstanceAs (Decidable (_ ∨ _))

/-- The copies go through the identity map, which ends at `VHEAP_START`. -/
def readBs (dst : Nat) (bsId : Int) (page : Nat) : Call Int := do
  log (.readBs dst bsId page)
  let s ← get
  if s.ker.pageServerActive = false then pure sysErr
  else if maxId < bsId ∨ bsId < minId then pure sysErr
  else do
    wait .bsSem
    let s ← get
    if BadStorePage s.ker bsId page then do
      signal .bsSem
      pure sysErr
    else do
      signal .bsSem
      if vheapStart ≤ dst then throw (.nestedFault dst)
      else do
        modify fun s => s.setPage (dst / nbpg) (diskPage s bsId page)
        pure ok

def writeBs (src : Nat) (bsId : Int) (page : Nat) : Call Int := do
  log (.writeBs src bsId page)
  let s ← get
  if s.ker.pageServerActive = false then pure sysErr
  else if maxId < bsId ∨ bsId < minId then pure sysErr
  else do
    wait .bsSem
    let s ← get
    if BadStorePage s.ker bsId page then do
      signal .bsSem
      pure sysErr
    else do
      signal .bsSem
      modify fun s => { s with
        disk := fun block word =>
          if pageBlock bsId page ≤ block ∧ block < pageBlock bsId page + 8 then
            s.mem (src / nbpg) ((block - pageBlock bsId page) * 128 + word)
          else s.disk block word }
      pure ok

/-- The store and the page in it for a virtual address of a process. -/
def getBsInfo (pid : Int) (vaddr : Nat) : Call (Int × Nat) := do
  let s ← get
  let vpn := vaddr2vpn vaddr
  if vpn < frame0 then throw (.panic "get_bs_info failed\n")
  else
    let vpnOffset := (vpn + word32 - vpn0) % word32
    pure ((s.ker.proctab pid).pbsd (vpnOffset / maxPagesPerBs), vpnOffset % maxPagesPerBs)

/-- The loop of `freeProcBS` with `remain` pages left; it runs at most `fuel` times. -/
def freeProcBSFrom (pid : Int) : Nat → Int → Nat → Call Unit
  | 0, _, _ => pure ()
  | fuel + 1, remain, i =>
      if 0 < remain then do
        let s ← get
        let _ ← deallocateBs ((s.ker.proctab pid).pbsd i)
        modifyKer fun ker => { ker with freeBsCount := (ker.freeBsCount + 1) % word32 }
        freeProcBSFrom pid fuel (remain - maxPagesPerBs) (i + 1)
      else pure ()

def freeProcBS (pid : Int) : Call Int := do
  let s ← get
  if (s.ker.proctab pid).vh = false then pure ok
  else do
    freeProcBSFrom pid (s.ker.proctab pid).hsize (toInt32 (s.ker.proctab pid).hsize) 0
    pure ok

/-- The second loop of `bs_init`. -/
def bsInitFrom (pid : Int) : Nat → Int → Nat → Call Unit
  | 0, _, _ => pure ()
  | fuel + 1, remain, i =>
      if 0 < remain then do
        let store ← allocateBs (min remain maxPagesPerBs).toNat
        modifyKer fun ker => ker.setProc pid fun proc =>
          { proc with pbsd := Function.update proc.pbsd i store }
        modifyKer fun ker => { ker with freeBsCount := (ker.freeBsCount + word32 - 1) % word32 }
        bsInitFrom pid fuel (remain - maxPagesPerBs) (i + 1)
      else pure ()

def bsInit (pid : Int) (hsize : Nat) : Call Int := do
  modifyKer fun ker => ker.setProc pid fun proc =>
    { proc with pbsd := fun i => if i < maxBsEntries then 0 else proc.pbsd i }
  bsInitFrom pid hsize (toInt32 hsize) 0
  pure ok

end Xinu.Paging.BackingStore
