import Xinu.Paging.Ipt

/-!
# Page tables and the page-fault handler

`paging.c`: the shared page tables, new page tables and page directories, and
`pf_handler`. The loops over all entries of a table are written as one
assignment of the whole page.
-/

namespace Xinu.Paging.Handler

open Xinu.Kernel.State Xinu.Kernel.Entry Xinu.Kernel.Semaphore
open Xinu.Paging.Address Xinu.Paging.BackingStore Xinu.Paging.Ipt

set_option autoImplicit false

def setPTEAddr (pt pti addr : Nat) : Call Unit := do
  log (.setPTEAddr addr)
  setEntry pt pti fun entry => setBase entry (addr / nbpg)

def setPDEAddr (pd pdi addr : Nat) : Call Unit := do
  log (.setPDEAddr addr)
  setEntry pd pdi fun entry => setBase entry (addr / nbpg)

def setupIdPaging (pt firstFrame : Nat) : Call Unit :=
  modify fun s => s.setPage (pt / nbpg) fun i => identityPTE (firstFrame / nbpg + i)

variable [Config]

/-- The first loop of `init_gpt` for tables `j` to `j + fuel - 1`. -/
def initGptFrom : Nat → Nat → Call Unit
  | 0, _ => pure ()
  | fuel + 1, j => do
      let faddr ← getNewFrame .ptab global noVpn
      modifyKer fun ker => { ker with gpt := Function.update ker.gpt j faddr }
      setupIdPaging faddr (j * 4194304)
      let fr ← faddr2frameNum faddr
      log (.hookPtableCreate (fr + frame0))
      initGptFrom fuel (j + 1)

def initGpt : Call Unit := do
  initGptFrom numGlobalPt 0
  let faddr ← getNewFrame .ptab global noVpn
  modifyKer fun ker => { ker with dpt := faddr }
  setupIdPaging faddr devMemStart

def newPageTable (pid : Int) : Call Nat := do
  let faddr ← getNewFrame .ptab pid noVpn
  if faddr = sysErrPtr then pure sysErrPtr
  else do
    modify fun s => s.setPage (faddr / nbpg) fun i => blankPTE (s.mem (faddr / nbpg) i)
    let fr ← faddr2frameNum faddr
    log (.hookPtableCreate (fr + frame0))
    pure faddr

/-- The entries `init_pd` writes into a new directory. -/
def initialPDE (ker : Ker) (j : Nat) : Word :=
  if j < numGlobalPt then globalPDE (ker.gpt j / nbpg)
  else if j = devMemPdIndex then globalPDE (ker.dpt / nbpg)
  else blankPDE

def initPd (pid : Int) : Call Int := do
  wait .pfSem
  let pd ← getNewFrame .pdir pid noVpn
  signal .pfSem
  if pd = sysErrPtr then pure sysErr
  else do
    modifyKer fun ker => ker.setProc pid fun proc => { proc with pd := pd }
    modify fun s => s.setPage (pd / nbpg) (initialPDE s.ker)
    pure ok

/-- Case 1 of `pf_handler`: the page table of the faulted address, allocated
when it is not present. -/
def pfTable (pid : Int) (pd pdi : Nat) : Call Nat := do
  let s ← get
  let pt := pdi2pt s pd pdi
  if pres (s.entry pd pdi) = false then do
    let pt ← newPageTable pid
    setPDEAddr pd pdi pt
    setEntry pd pdi fun entry => setPres entry true
    pure pt
  else pure pt

/-- The end of `pf_handler`: the page is read into the new frame and mapped. -/
def pfInstall (pid : Int) (a pt faddr : Nat) : Call Unit := do
  let fr ← faddr2frameNum faddr
  let (bsd, offset) ← getBsInfo pid a
  let e ← readBs faddr bsd offset
  if e = sysErr then throw (.panic "read_bs failed\n")
  else do
    incRefCount pt
    setEntry pt (vaddr2pti a) fun entry => setPres entry true
    setPTEAddr pt (vaddr2pti a) faddr
    log (.hookPfault pid a (vaddr2vpn a) (fr + frame0))

/-- `pf_handler` between `wait(pf_sem)` and `signal(pf_sem)` for a valid address. -/
def pfService (pid : Int) (a : Nat) : Call Unit := do
  let s ← get
  let pt ← pfTable pid (s.ker.proctab pid).pd (vaddr2pdi a)
  let faddr ← getNewFrame .page pid (vaddr2vpn a)
  pfInstall pid a pt faddr

end Xinu.Paging.Handler
