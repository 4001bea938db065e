import Xinu.Kernel.Entry
import Xinu.Lib.StateError

/-!
# Kernel state of the paging subsystem

The global variables that `ipt.c`, `paging.c`, `bs.c`, `vcreate.c`, `create.c`
and `kill.c` read and write, together with physical memory and the swap disk.
C pointers and `uint32` values are natural numbers below `2 ^ 32`; `int32`
values are integers. Physical memory is an array of 32-bit words addressed by
physical page number and word index, because every table and every frame is
page aligned. The kernel's own variables live outside of it.
-/

namespace Xinu.Kernel.State

open Xinu.Kernel.Entry Xinu.Lib.StateError

set_option autoImplicit false

/-- `NFRAMES` and `NPROC` are settings of the build. The frames start at
`METADATA_START` and have to end below `VHEAP_START`, and the boot sequence
takes six of them (five shared page tables and the null process's directory). -/
class Config where
  nframes : Nat
  nproc : Nat
  bootFrames : 6 ≤ nframes
  frameSpace : nframes ≤ 3072

export Config (nframes nproc)

def word32 : Nat := 4294967296

-- `(char *) SYSERR` and `EMPTY` are both -1 read as an unsigned word.
def sysErrPtr : Nat := 4294967295

def empty : Nat := 4294967295

def sysErr : Int := -1

def ok : Int := 1

def global : Int := -1

def noProcess : Int := -2

def noVpn : Int := -1

def nullproc : Int := 0

def nbpg : Nat := 4096

def frame0 : Nat := 1024

def vpn0 : Nat := 4096

def metadataStart : Nat := 0x00400000

def vheapStart : Nat := 0x01000000

def devMemStart : Nat := 0x90000000

def devMemEnd : Nat := 0x903FFFFF

def devMemPdIndex : Nat := 576

def numGlobalPt : Nat := 4

def maxId : Int := 7

def minId : Int := 0

def maxBsEntries : Nat := 8

def maxPagesPerBs : Nat := 200

def rdPagesPerBs : Nat := 205

inductive FrameStatus where
  | notUsed
  | pdir
  | ptab
  | page
  deriving DecidableEq

structure Frame where
  nextFrame : Nat
  prevFrame : Nat
  status : FrameStatus
  pid : Int
  vpn : Int
  refCount : Nat

inductive Policy where
  | fifo
  | gca
  deriving DecidableEq

inductive UseModify where
  | um00
  | um10
  | um11
  | skipFrame
  deriving DecidableEq

inductive PrState where
  | free
  | curr
  | ready
  | recv
  | sleep
  | susp
  | wait
  | rectim
  deriving DecidableEq

/-- The semaphores created by `initialize_paging`, `psinit` and `sysinit`. -/
inductive Sem where
  | pfSem
  | bsSem
  | bsInitSem
  deriving DecidableEq

/-- `sentry`: the count and the processes queued on it, first one first. -/
structure Sentry where
  scount : Int
  squeue : List Int

/-- The fields of `procent` that the paging code reads. -/
structure Procent where
  prstate : PrState
  prstkbase : Nat
  prstklen : Nat
  prsem : Option Sem
  pd : Nat
  hsize : Nat
  vh : Bool
  pbsd : Nat → Int

structure BsEntry where
  isopen : Bool
  isallocated : Bool
  usecount : Int
  npages : Nat

/-- The kernel's free memory list: the total kept in the list head and the
address and length of each free block. -/
structure MemList where
  mlength : Nat
  blocks : List (Nat × Nat)

/-- The kernel variables that page replacement reads but never writes. -/
structure Ker where
  proctab : Int → Procent
  currpid : Int
  prcount : Int
  currpolicy : Policy
  semtab : Sem → Sentry
  bstab : Nat → BsEntry
  pageServerActive : Bool
  freeBsCount : Nat
  gpt : Nat → Nat
  dpt : Nat
  gpd : Nat
  pfc : Nat
  createNextpid : Int
  vcreateNextpid : Int
  memlist : MemList
  minheap : Nat
  maxheap : Nat

/-- Calls whose arguments the properties speak about, recorded as they are
made: the four hooks of `hooks.c`, the TLB invalidation, the backing-store
transfers, and the addresses that are stored in tables or turned into frame
numbers. -/
inductive Effect where
  | hookPtableCreate (pagenum : Nat)
  | hookPtableDelete (pagenum : Nat)
  | hookPfault (pid : Int) (addr pagenum framenum : Nat)
  | hookPswapOut (pid pagenum : Int) (framenum : Nat)
  | invalPage (addr : Nat)
  | setPDEAddr (addr : Nat)
  | setPTEAddr (addr : Nat)
  | faddr2frameNum (faddr : Nat)
  | incRefCount (pt : Nat)
  | readBs (dst : Nat) (bs : Int) (page : Nat)
  | writeBs (src : Nat) (bs : Int) (page : Nat)
  deriving DecidableEq

/-- `fifoNextframe` and `gcaNextframe` are the static variables `nextframe` of
`getNewFrameFIFO` and `getNewFrameGCA`. The trace is ghost state. -/
structure St where
  ker : Ker
  ipt : Nat → Frame
  flistHead : Nat
  flistTail : Nat
  fifoNextframe : Nat
  gcaNextframe : Nat
  mem : Nat → Nat → Word
  disk : Nat → Nat → Word
  trace : List Effect

/-- Ways in which a kernel call does not return: `panic` with its text; an
access to `ipt` at an index that is not a frame number; blocking on a semaphore;
a kernel write through an unmapped address, which faults again inside the fault
handler; `xdone`; and `disabled` for a step the processor cannot take. -/
inductive Stop where
  | panic (message : String)
  | badIndex (index : Nat)
  | blocked (sem : Sem)
  | nestedFault (addr : Nat)
  | halt
  | disabled

abbrev Call := EStateM Stop St

def log (effect : Effect) : Call Unit :=
  modify fun s => { s with trace := effect :: s.trace }

def modifyKer (change : Ker → Ker) : Call Unit :=
  modify fun s => { s with ker := change s.ker }

def Ker.setProc (ker : Ker) (pid : Int) (change : Procent → Procent) : Ker :=
  { ker with proctab := Function.update ker.proctab pid (change (ker.proctab pid)) }

def Ker.setSem (ker : Ker) (sem : Sem) (change : Sentry → Sentry) : Ker :=
  { ker with semtab := Function.update ker.semtab sem (change (ker.semtab sem)) }

def Ker.setStore (ker : Ker) (store : Nat) (change : BsEntry → BsEntry) : Ker :=
  { ker with bstab := Function.update ker.bstab store (change (ker.bstab store)) }

/-- The entry `table[index]` of the page directory or page table at the
page-aligned address `table`. -/
def St.entry (s : St) (table index : Nat) : Word := s.mem (table / nbpg) index

def St.setWord (s : St) (page index : Nat) (word : Word) : St :=
  { s with mem := fun p i => if p = page ∧ i = index then word else s.mem p i }

def St.setPage (s : St) (page : Nat) (words : Nat → Word) : St :=
  { s with mem := fun p i => if p = page then words i else s.mem p i }

section Writes

variable (s : St) (page index p i : Nat) (word : Word) (words : Nat → Word)

@[simp] theorem set_word_ker : (s.setWord page index word).ker = s.ker := rfl

@[simp] theorem set_word_ipt : (s.setWord page index word).ipt = s.ipt := rfl

@[simp] theorem set_word_disk : (s.setWord page index word).disk = s.disk := rfl

theorem set_word_mem : (s.setWord page index word).mem p i =
    if p = page ∧ i = index then word else s.mem p i := rfl

@[simp] theorem set_page_ker : (s.setPage page words).ker = s.ker := rfl

@[simp] theorem set_page_ipt : (s.setPage page words).ipt = s.ipt := rfl

@[simp] theorem set_page_disk : (s.setPage page words).disk = s.disk := rfl

theorem set_page_mem : (s.setPage page words).mem p i =
    if p = page then words i else s.mem p i := rfl

end Writes

def setEntry (table index : Nat) (change : Word → Word) : Call Unit :=
  modify fun s => s.setWord (table / nbpg) index (change (s.entry table index))

theorem entry_set_word (s : St) (page index table i : Nat) (word : Word) :
    (s.setWord page index word).entry table i =
      if table / nbpg = page ∧ i = index then word else s.entry table i := rfl

theorem set_entry_ok (table index : Nat) (change : Word → Word) (s : St) :
    setEntry table index change s =
      .ok () (s.setWord (table / nbpg) index (change (s.entry table index))) := rfl

/-- A write of one field of an entry leaves the other fields of all entries alone. -/
theorem field_of_set_entry {γ : Type} (view : Word → γ) (s : St) (table index t i : Nat)
    (change : Word → Word) (kept : ∀ word, view (change word) = view word) :
    view ((s.setWord (table / nbpg) index (change (s.entry table index))).entry t i) =
      view (s.entry t i) := by
  rw [entry_set_word]
  split
  · rename_i here
    rw [kept, St.entry, St.entry, here.1, here.2]
  · rfl

theorem set_word_self (s : St) (table index : Nat) :
    s.setWord (table / nbpg) index (s.entry table index) = s := by
  have same : (s.setWord (table / nbpg) index (s.entry table index)).mem = s.mem := by
    funext page i
    simp only [St.setWord]
    split
    · rename_i here
      rw [here.1, here.2]
      rfl
    · rfl
  exact congrArg (fun mem => { s with mem := mem }) same

theorem set_word_set_word (s : St) (page index : Nat) (first second : Word) :
    (s.setWord page index first).setWord page index second = s.setWord page index second := by
  have same : ((s.setWord page index first).setWord page index second).mem =
      (s.setWord page index second).mem := by
    funext p i
    simp only [St.setWord]
    split <;> rfl
  exact congrArg (fun mem => { s with mem := mem }) same

/-- The byte at an offset of a physical page. -/
def St.byteAt (s : St) (page offset : Nat) : Byte :=
  byteOf (s.mem page (offset / 4)) (offset % 4)

def isbadpid [Config] (ker : Ker) (pid : Int) : Prop :=
  pid < 0 ∨ (nproc : Int) ≤ pid ∨ (ker.proctab pid).prstate = .free

instance [Config] (ker : Ker) (pid : Int) : Decidable (isbadpid ker pid) :=
  inferInstanceAs (Decidable (_ ∨ _ ∨ _))

end Xinu.Kernel.State
