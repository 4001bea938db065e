import Xinu.Paging.Address

/-!
# Loads and stores of the processor

The two-level walk of the page directory of the current process and the bits the
processor sets in the page-table entry it used. A walk that meets an entry that
is not present does not complete: it is a page fault.
-/

namespace Xinu.Paging.Cpu

open Xinu.Kernel.State Xinu.Kernel.Entry Xinu.Paging.Address

set_option autoImplicit false

/-- The page-table entry for an address under a page directory. -/
def pte (s : St) (pd a : Nat) : Word :=
  s.entry (pdi2pt s pd (vaddr2pdi a)) (vaddr2pti a)

def Mapped (s : St) (pd a : Nat) : Prop :=
  pres (s.entry pd (vaddr2pdi a)) = true ∧ pres (pte s pd a) = true

instance (s : St) (pd a : Nat) : Decidable (Mapped s pd a) :=
  inferInstanceAs (Decidable (_ ∧ _))

/-- The address lies in the heap of the process. -/
def InHeap (ker : Ker) (pid : Int) (a : Nat) : Prop :=
  vheapStart ≤ a ∧ a < vheapStart + nbpg * (ker.proctab pid).hsize

instance (ker : Ker) (pid : Int) (a : Nat) : Decidable (InHeap ker pid a) :=
  inferInstanceAs (Decidable (_ ∧ _))

/-- The directory the processor walks. -/
def currentPd (s : St) : Nat := (s.ker.proctab s.ker.currpid).pd

/-- The addresses the current process may access without a fault. -/
def Accessible (s : St) (a : Nat) : Prop :=
  InHeap s.ker s.ker.currpid a ∧ Mapped s (currentPd s) a

instance (s : St) (a : Nat) : Decidable (Accessible s a) := inferInstanceAs (Decidable (_ ∧ _))

/-- The walk of an access sets the accessed bit, that of a store also the dirty bit. -/
def touch (a : Nat) (write : Bool) : Call Unit := do
  let s ← get
  setEntry (pdi2pt s (currentPd s) (vaddr2pdi a)) (vaddr2pti a) fun entry =>
    if write then setDirty (setAcc entry true) true else setAcc entry true

def load (a : Nat) : Call Byte := do
  let s ← get
  if Accessible s a then do
    touch a false
    let s ← get
    pure (s.byteAt (base (pte s (currentPd s) a)) (vaddr2offset a))
  else throw .disabled

def store (a : Nat) (value : Byte) : Call Unit := do
  let s ← get
  if Accessible s a then do
    touch a true
    modify fun s =>
      let page := base (pte s (currentPd s) a)
      let offset := vaddr2offset a
      s.setWord page (offset / 4) (setByte (s.mem page (offset / 4)) (offset % 4) value)
  else throw .disabled

end Xinu.Paging.Cpu
