import Xinu.Paging.Handler
import Xinu.Kernel.Memory

/-!
# Processes

`create`, `vcreate` and `kill` with everything they do to memory, page tables
and backing stores, and `pf_handler` itself, which may kill the process that
faulted. Names, priorities, messages, device descriptors and the initial
contents of a stack are not part of this state.
-/

namespace Xinu.Paging.Process

open Xinu.Kernel.State Xinu.Kernel.Entry Xinu.Kernel.Semaphore Xinu.Kernel.Memory
open Xinu.Lib.StateError
open Xinu.Paging.Address Xinu.Paging.BackingStore Xinu.Paging.Ipt Xinu.Paging.Handler

set_option autoImplicit false

def minstk : Nat := 400

def roundew (x : Nat) : Nat := (x + 3) % word32 / 4 * 4

variable [Config]

/-- The loop of `newpid`: at most `fuel` slots are tried from `nextpid` on. The
result is the process ID, or `SYSERR`, and the new value of `nextpid`. -/
def newpidFrom (ker : Ker) : Nat → Int → Int × Int
  | 0, nextpid => (sysErr, nextpid)
  | fuel + 1, nextpid =>
      let slot := nextpid % nproc
      if (ker.proctab slot).prstate = .free then (slot, slot + 1)
      else newpidFrom ker fuel (slot + 1)

/-- `newpid` finds a slot that is free, or none at all. -/
theorem newpid_free (ker : Ker) (fuel : Nat) (nextpid : Int) (slots : 0 < nproc) :
    (newpidFrom ker fuel nextpid).1 = sysErr ∨
      (0 ≤ (newpidFrom ker fuel nextpid).1 ∧ (newpidFrom ker fuel nextpid).1 < nproc ∧
        (ker.proctab (newpidFrom ker fuel nextpid).1).prstate = .free) := by
  induction fuel generalizing nextpid with
  | zero => exact Or.inl rfl
  | succ fuel induction =>
      have lower : 0 ≤ nextpid % (nproc : Int) := Int.emod_nonneg _ (by omega)
      have upper : nextpid % (nproc : Int) < nproc := Int.emod_lt_of_pos _ (by omega)
      unfold newpidFrom
      by_cases free : (ker.proctab (nextpid % nproc)).prstate = .free
      · rw [if_pos free]
        exact Or.inr ⟨lower, upper, free⟩
      · rw [if_neg free]
        exact induction _

/-- `create.c` and `vcreate.c` each have their own `newpid` with its own static
`nextpid`. -/
def createNewpid : Call Int := do
  let s ← get
  let found := newpidFrom s.ker nproc s.ker.createNextpid
  modifyKer fun ker => { ker with createNextpid := found.2 }
  pure found.1

def vcreateNewpid : Call Int := do
  let s ← get
  let found := newpidFrom s.ker nproc s.ker.vcreateNextpid
  modifyKer fun ker => { ker with vcreateNextpid := found.2 }
  pure found.1

theorem create_newpid_returned (s : St) :
    createNewpid s = .ok (newpidFrom s.ker nproc s.ker.createNextpid).1
      { s with ker := { s.ker with
        createNextpid := (newpidFrom s.ker nproc s.ker.createNextpid).2 } } := rfl

theorem vcreate_newpid_returned (s : St) :
    vcreateNewpid s = .ok (newpidFrom s.ker nproc s.ker.vcreateNextpid).1
      { s with ker := { s.ker with
        vcreateNextpid := (newpidFrom s.ker nproc s.ker.vcreateNextpid).2 } } := rfl

def stackSize (ssize : Nat) : Nat := roundew (if ssize < minstk then minstk else ssize)

def create (ssize : Nat) (priority : Int) : Call Int := do
  let ssize := stackSize ssize
  let saddr ← getstk ssize
  if saddr = sysErrPtr then pure sysErr
  else do
    let pid ← createNewpid
    if pid = sysErr ∨ priority < 1 then pure sysErr
    else do
      modifyKer fun ker => { ker with prcount := ker.prcount + 1 }
      modifyKer fun ker => ker.setProc pid fun proc =>
        { proc with
          pd := ker.gpd
          vh := false
          hsize := 0
          prstate := .susp
          prstkbase := saddr
          prstklen := ssize
          prsem := none }
      pure pid

/-- The number of backing stores a heap of `hsize` pages needs. -/
def bsReq (hsize : Nat) : Nat := if hsize = 0 then 0 else 1 + (hsize - 1) / maxPagesPerBs

/-- The end of `vcreate`, once the directory and the stores are there. -/
def enterTable (pid : Int) (saddr ssize hsize : Nat) : Call Int := do
  modifyKer fun ker => ker.setProc pid fun proc =>
    { proc with
      hsize := hsize
      vh := true
      prstate := .susp
      prstkbase := saddr
      prstklen := ssize
      prsem := none }
  pure pid

/-- `vcreate` once it has a stack and a process ID: the check of the free stores,
the page directory and the store map. -/
def vcreateSpace (pid : Int) (saddr ssize hsize : Nat) : Call Int := do
  let s ← get
  if s.ker.freeBsCount < bsReq hsize then do
    let _ ← freestk saddr ssize
    pure sysErr
  else do
    modifyKer fun ker => { ker with prcount := ker.prcount + 1 }
    let status ← initPd pid
    if status = sysErr then do
      let _ ← freestk saddr ssize
      modifyKer fun ker => { ker with prcount := ker.prcount - 1 }
      pure sysErr
    else do
      let status ← bsInit pid hsize
      if status = sysErr then do
        let _ ← freestk saddr ssize
        modifyKer fun ker => { ker with prcount := ker.prcount - 1 }
        pure sysErr
      else enterTable pid saddr ssize hsize

def vcreate (ssize hsize : Nat) (priority : Int) : Call Int := do
  let ssize := stackSize ssize
  let saddr ← getstk ssize
  if saddr = sysErrPtr then pure sysErr
  else do
    let pid ← vcreateNewpid
    if pid = sysErr ∨ priority < 1 then pure sysErr
    else vcreateSpace pid saddr ssize hsize

/-- `vcreate` up to the check of the free stores: it has failed, or it has found a
free slot of the process table. -/
theorem vcreate_opening (s : St) (ssize hsize : Nat) (priority : Int) :
    ∃ memlist nextpid,
      vcreate ssize hsize priority s = .ok sysErr
          { s with ker := { s.ker with memlist := memlist, vcreateNextpid := nextpid } } ∨
        ∃ (pid : Int) (saddr : Nat),
          (0 ≤ pid ∧ pid < nproc ∧ (s.ker.proctab pid).prstate = .free) ∧
          vcreate ssize hsize priority s = vcreateSpace pid saddr (stackSize ssize) hsize
            { s with ker := { s.ker with memlist := memlist, vcreateNextpid := nextpid } } := by
  obtain ⟨saddr, memlist, stack⟩ := getstk_returned s (stackSize ssize)
  unfold vcreate
  rw [bind_ok stack]
  by_cases noStack : saddr = sysErrPtr
  · rw [if_pos noStack]
    exact ⟨memlist, s.ker.vcreateNextpid, Or.inl rfl⟩
  · let opened := { s with ker := { s.ker with memlist := memlist } }
    let found := newpidFrom opened.ker nproc opened.ker.vcreateNextpid
    have pidRan : vcreateNewpid opened = .ok found.1
        { opened with ker := { opened.ker with vcreateNextpid := found.2 } } :=
      vcreate_newpid_returned opened
    rw [if_neg noStack, bind_ok pidRan]
    refine ⟨memlist, found.2, ?_⟩
    by_cases refused : found.1 = sysErr ∨ priority < 1
    · rw [if_pos refused]
      exact Or.inl rfl
    · rw [if_neg refused]
      have slots : 0 < nproc := by
        by_contra none
        apply refused
        have zero : nproc = 0 := by omega
        simp [found, zero, newpidFrom]
      have slot := newpid_free opened.ker nproc opened.ker.vcreateNextpid slots
      rcases slot with failed | free
      · exact absurd (Or.inl failed) refused
      · exact Or.inr ⟨found.1, saddr, free, rfl⟩

/-- The final `switch` of `kill` on the state of the victim. A victim that waits
on a semaphore gives its count back and leaves the queue. -/
def retire (ker : Ker) (pid : Int) : Ker :=
  let freed := ker.setProc pid fun proc => { proc with prstate := .free }
  match (ker.proctab pid).prstate, (ker.proctab pid).prsem with
  | .wait, some sem => freed.setSem sem fun sentry =>
      { scount := sentry.scount + 1, squeue := sentry.squeue.erase pid }
  | _, _ => freed

def kill (pid : Int) : Call Int := do
  let s ← get
  if isbadpid s.ker pid ∨ pid = nullproc then pure sysErr
  else do
    modifyKer fun ker => { ker with prcount := ker.prcount - 1 }
    if s.ker.prcount - 1 ≤ 1 then throw .halt
    else do
      let _ ← freestk (s.ker.proctab pid).prstkbase (s.ker.proctab pid).prstklen
      freeProcFrames pid
      let _ ← freeProcBS pid
      modifyKer fun ker => retire ker pid
      pure ok

/-- `pf_handler` on the address that the processor left in CR2. -/
def pfHandler (cr2 : Nat) : Call Unit := do
  modifyKer fun ker => { ker with pfc := (ker.pfc + 1) % word32 }
  wait .pfSem
  let s ← get
  let pid := s.ker.currpid
  if isInvalidAddr s.ker cr2 pid then do
    signal .pfSem
    let _ ← kill pid
    pure ()
  else do
    pfService pid cr2
    signal .pfSem

end Xinu.Paging.Process
