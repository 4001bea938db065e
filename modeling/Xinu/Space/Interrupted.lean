import Xinu.Space.TableAccess

/-!
# Kills in the middle of an allocation

The process that holds `pf_sem` loses the processor when it writes a victim to the disk and when
it reads its own page. Here the page fault and the `vcreate` of FIFO are cut at these points, and
in between others call `kill`, which does not ask for `pf_sem`. The victim of an allocation is off
the queue until `init_frame`, so nothing may free it before.
-/

namespace Xinu.Space.Interrupted

open Xinu.Kernel.State Xinu.Kernel.Entry Xinu.Kernel.Semaphore Xinu.Kernel.Memory
open Xinu.Lib.StateError Xinu.Paging.Address Xinu.Paging.BackingStore Xinu.Paging.Cpu
open Xinu.Paging.Ipt Xinu.Paging.Handler Xinu.Paging.Process Xinu.Paging.System
open Xinu.Processes.Undo Xinu.Processes.Steps Xinu.Processes.KernelVariables
open Xinu.Replacement.SystemCalls Xinu.Replacement.ModifyBits
open Xinu.Replacement.Fifo Xinu.Replacement.FifoRuns Xinu.Replacement.FifoResults
open Xinu.Replacement.Exhaustion Xinu.Swap.Ledger Xinu.Swap.Conservation Xinu.Swap.Places
open Xinu.Swap.Allocation
open Xinu.Space.Agreement Xinu.Space.Unmap Xinu.Space.Link Xinu.Space.Transfers Xinu.Space.Evict
open Xinu.Space.Choice Xinu.Space.Allocate Xinu.Space.Fault Xinu.Space.Service
open Xinu.Space.Ownership Xinu.Space.Members Xinu.Space.Runs Xinu.Space.PolicyChanges
open Xinu.Space.TableAccess

set_option autoImplicit false

section Pieces

/-- What the holder of `pf_sem` wants a frame for: a page table that a fault needs, the page of a
fault, or the page directory of a process that `vcreate` makes. -/
inductive Goal where
  | table (pid : Int) (a pd : Nat)
  | page (pid : Int) (a pt : Nat)
  | dir (creator pid : Int) (saddr ssize hsize : Nat)

def Goal.type : Goal → FrameStatus
  | .table .. => .ptab
  | .page .. => .page
  | .dir .. => .pdir

def Goal.pid : Goal → Int
  | .table pid .. => pid
  | .page pid .. => pid
  | .dir _ pid .. => pid

def Goal.vpn : Goal → Int
  | .page _ a _ => vaddr2vpn a
  | _ => noVpn

/-- The process that waits for the disk. -/
def Goal.holder : Goal → Int
  | .table pid .. => pid
  | .page pid .. => pid
  | .dir creator .. => creator

/-- Where the holder of `pf_sem` has lost the processor: before and after the transfer in
`write_bs`, before and after the transfer in `read_bs`. -/
inductive Phase where
  | idle
  | writing (goal : Goal) (e : Evicted) (bsd : Int) (offset : Nat)
  | written (goal : Goal) (e : Evicted) (status : Int)
  | reading (pid : Int) (a pt faddr : Nat) (bsd : Int) (offset : Nat)
  | hasRead (pid : Int) (a pt faddr : Nat) (status : Int)

variable [Config]

/-- `getNewFrameFIFO` up to the write of the victim. -/
def allocate (goal : Goal) (grant : Nat → Call Phase) : Call Phase := do
  match ← fifoScan nframes with
  | some fr => do
      initFrame fr goal.type goal.pid goal.vpn
      grant (frameNum2ptr fr)
  | none => do
      let fr ← pickFrame
      if fr = sysErrPtr then grant sysErrPtr
      else do
        let e ← evictBegin fr
        let s ← get
        if needsWrite s e then do
          let (bsd, offset) ← getBsInfo e.pid e.a
          pure (.writing goal e bsd offset)
        else do
          log (.hookPswapOut e.pid e.vp (fr + frame0))
          initFrame fr goal.type goal.pid goal.vpn
          grant (frameNum2ptr fr)

/-- The rest of `evictFrame` and of `getNewFrameFIFO` when `write_bs` has returned. -/
def evicted (goal : Goal) (e : Evicted) (grant : Nat → Call Phase) (status : Int) : Call Phase := do
  if status = sysErr then throw (.panic "PANIC: write_bs failed\n")
  else do
    setEntry e.pt e.pti fun entry => setDirty entry false
    setEntry e.pt e.pti fun entry => setAvail entry 0
    log (.hookPswapOut e.pid e.vp (e.fr + frame0))
    initFrame e.fr goal.type goal.pid goal.vpn
    grant (frameNum2ptr e.fr)

/-- `pf_handler` from the new frame on, up to the transfer in `read_bs`. -/
def grantPage (pid : Int) (a pt faddr : Nat) : Call Phase := do
  let _ ← faddr2frameNum faddr
  let (bsd, offset) ← getBsInfo pid a
  pure (.reading pid a pt faddr bsd offset)

/-- The end of `pf_handler` when `read_bs` has returned. -/
def installed (pid : Int) (a pt faddr : Nat) (e : Int) : Call Phase := do
  if e = sysErr then throw (.panic "read_bs failed\n")
  else do
    incRefCount pt
    setEntry pt (vaddr2pti a) fun entry => setPres entry true
    setPTEAddr pt (vaddr2pti a) faddr
    log (.hookPfault pid a (vaddr2vpn a) (frameNumOf faddr + frame0))
    signal .pfSem
    pure .idle

/-- The rest of `newPageTable`, and `pf_handler` up to where it waits for the disk. -/
def grantTable (pid : Int) (a pd faddr : Nat) : Call Phase := do
  if faddr ≠ sysErrPtr then do
    modify fun s => s.setPage (faddr / nbpg) fun i => blankPTE (s.mem (faddr / nbpg) i)
    let fr ← faddr2frameNum faddr
    log (.hookPtableCreate (fr + frame0))
  setPDEAddr pd (vaddr2pdi a) faddr
  setEntry pd (vaddr2pdi a) fun entry => setPres entry true
  allocate (.page pid a faddr) (grantPage pid a faddr)

/-- `vcreate` from the new directory on. -/
def grantDir (pid : Int) (saddr ssize hsize pd : Nat) : Call Phase := do
  signal .pfSem
  if pd = sysErrPtr then do
    let _ ← freestk saddr ssize
    modifyKer fun ker => { ker with prcount := ker.prcount - 1 }
    pure .idle
  else do
    modifyKer fun ker => ker.setProc pid fun proc => { proc with pd := pd }
    modify fun s => s.setPage (pd / nbpg) (initialPDE s.ker)
    let status ← bsInit pid hsize
    if status = sysErr then do
      let _ ← freestk saddr ssize
      modifyKer fun ker => { ker with prcount := ker.prcount - 1 }
      pure .idle
    else do
      let _ ← enterTable pid saddr ssize hsize
      pure .idle

def grant : Goal → Nat → Call Phase
  | .table pid a pd => grantTable pid a pd
  | .page pid a pt => grantPage pid a pt
  | .dir _ pid saddr ssize hsize => grantDir pid saddr ssize hsize

/-- `pf_handler` on a valid address, once `pf_sem` is taken. -/
def beginService (pid : Int) (a : Nat) : Call Phase := do
  let s ← get
  let pd := (s.ker.proctab pid).pd
  if pres (s.entry pd (vaddr2pdi a)) = false then
    allocate (.table pid a pd) (grant (.table pid a pd))
  else
    let pt := pdi2pt s pd (vaddr2pdi a)
    allocate (.page pid a pt) (grant (.page pid a pt))

def beginFault (a : Nat) : Call Phase := do
  modifyKer fun ker => { ker with pfc := (ker.pfc + 1) % word32 }
  wait .pfSem
  let s ← get
  let pid := s.ker.currpid
  if isInvalidAddr s.ker a pid then do
    signal .pfSem
    let _ ← kill pid
    pure .idle
  else beginService pid a

def beginVcreate (ssize hsize : Nat) (priority : Int) : Call Phase := do
  let ssize := stackSize ssize
  let saddr ← getstk ssize
  if saddr = sysErrPtr then pure .idle
  else do
    let pid ← vcreateNewpid
    if pid = sysErr ∨ priority < 1 then pure .idle
    else do
      let s ← get
      if s.ker.freeBsCount < bsReq hsize then do
        let _ ← freestk saddr ssize
        pure .idle
      else do
        modifyKer fun ker => { ker with prcount := ker.prcount + 1 }
        wait .pfSem
        let goal := Goal.dir s.ker.currpid pid saddr ssize hsize
        allocate goal (grant goal)

/-- What happens next. While the holder of `pf_sem` waits, others kill processes. -/
inductive Move where
  | event (event : Event)
  | fault (a : Nat)
  | vcreate (ssize hsize : Nat) (priority : Int)
  | kill (pid : Int)
  | proceed

def move : Phase → Move → Call Phase
  | .idle, .event event => do
      let _ ← exec event
      pure .idle
  | .idle, .fault a => do
      let s ← get
      if Running s ∧ Faults s a then beginFault a else throw .disabled
  | .idle, .vcreate ssize hsize priority => do
      let s ← get
      if Running s then beginVcreate ssize hsize priority else throw .disabled
  | .writing goal e bsd offset, .kill pid => do
      let _ ← kill pid
      pure (.writing goal e bsd offset)
  | .written goal e status, .kill pid => do
      let _ ← kill pid
      pure (.written goal e status)
  | .reading pid a pt faddr bsd offset, .kill q => do
      let _ ← kill q
      pure (.reading pid a pt faddr bsd offset)
  | .hasRead pid a pt faddr status, .kill q => do
      let _ ← kill q
      pure (.hasRead pid a pt faddr status)
  | .writing goal e bsd offset, .proceed => do
      let status ← writeBs (frameNum2ptr e.fr) bsd offset
      pure (.written goal e status)
  | .written goal e status, .proceed => evicted goal e (grant goal) status
  | .reading pid a pt faddr bsd offset, .proceed => do
      let status ← readBs faddr bsd offset
      pure (.hasRead pid a pt faddr status)
  | .hasRead pid a pt faddr status, .proceed => installed pid a pt faddr status
  | _, _ => throw .disabled

/-- The states that moves lead to which are `allowed` in the state they are made in. -/
inductive Moves (start : St → Prop) (allowed : Phase → St → Move → Prop) : Phase → St → Prop
  | start {s : St} (started : start s) : Moves start allowed .idle s
  | step {phase next : Phase} {s final : St} {m : Move} (run : Moves start allowed phase s)
      (may : allowed phase s m) (ran : move phase m s = .ok next final) :
      Moves start allowed next final

end Pieces

section Uninterrupted

variable [Config] {s : St} {fuel : Nat} {pid : Int} {a pt faddr : Nat}

/-- The holder of `pf_sem` goes on, and nobody is killed while it waits. -/
def finish : Nat → Phase → Call Phase
  | _, .idle => pure .idle
  | 0, phase => pure phase
  | fuel + 1, phase => do
      let next ← move phase .proceed
      finish fuel next

theorem finish_idle (fuel : Nat) : finish fuel .idle = pure .idle := by
  cases fuel <;> rfl

theorem finish_has_read (status : Int) :
    finish (fuel + 1) (.hasRead pid a pt faddr status) = installed pid a pt faddr status := by
  change (installed pid a pt faddr status >>= finish fuel) = _
  unfold installed
  split
  · rfl
  · simp only [bind_assoc, pure_bind, finish_idle]

theorem finish_reading (bsd : Int) (offset : Nat) :
    finish (fuel + 2) (.reading pid a pt faddr bsd offset) =
      (readBs faddr bsd offset >>= installed pid a pt faddr) := by
  change ((do
    let status ← readBs faddr bsd offset
    pure (.hasRead pid a pt faddr status)) >>= finish (fuel + 1)) = _
  simp only [bind_assoc, pure_bind, finish_has_read]

/-- What comes after `getNewFrame` for the page. -/
def installsPage (pid : Int) (a pt faddr : Nat) : Call Phase := do
  pfInstall pid a pt faddr
  signal .pfSem
  pure .idle

theorem page_finished : (grantPage pid a pt faddr >>= finish (fuel + 2)) =
    installsPage pid a pt faddr := by
  unfold grantPage installsPage pfInstall
  simp only [bind_assoc, pure_bind, finish_reading]
  funext s
  rw [bind_ok (faddr_to_frame_num_ok faddr s), bind_ok (faddr_to_frame_num_ok faddr s)]
  refine congrFun (congrArg (getBsInfo pid a >>= ·) ?_) _
  funext place
  refine congrArg (readBs faddr place.1 place.2 >>= ·) ?_
  funext status
  unfold installed
  split
  · rfl
  · simp only [bind_assoc]

/-- An allocation and what it was made for. -/
theorem allocation_finished (goal : Goal) (rest : Nat → Call Phase) (least : Nat)
    (granted : ∀ fuel faddr, least ≤ fuel → (grant goal faddr >>= finish fuel) = rest faddr)
    (enough : least + 2 ≤ fuel) :
    (allocate goal (grant goal) >>= finish fuel) =
      (getNewFrameFIFO goal.type goal.pid goal.vpn >>= rest) := by
  obtain ⟨few, rfl⟩ : ∃ few, fuel = few + 2 := ⟨fuel - 2, by omega⟩
  have now : ∀ faddr, (grant goal faddr >>= finish (few + 2)) = rest faddr :=
    fun faddr => granted _ _ (by omega)
  have later : ∀ faddr, (grant goal faddr >>= finish few) = rest faddr :=
    fun faddr => granted _ _ (by omega)
  have written : ∀ e bsd offset, finish (few + 2) (.writing goal e bsd offset) =
      (writeBs (frameNum2ptr e.fr) bsd offset >>= fun status =>
        evicted goal e (grant goal) status >>= finish few) := by
    intro e bsd offset
    change ((do
      let status ← writeBs (frameNum2ptr e.fr) bsd offset
      pure (.written goal e status)) >>= finish (few + 1)) = _
    simp only [bind_assoc, pure_bind]
    rfl
  unfold allocate getNewFrameFIFO evictFrame evictWrite
  simp only [bind_assoc]
  congr 1
  funext found
  cases found with
  | some fr => simp only [bind_assoc, pure_bind, now]
  | none =>
      simp only [bind_assoc]
      congr 1
      funext fr
      by_cases noFrame : fr = sysErrPtr
      · rw [if_pos noFrame, if_pos noFrame, pure_bind, now]
      · rw [if_neg noFrame, if_neg noFrame]
        simp only [bind_assoc]
        funext s
        cases begun : evictBegin fr s with
        | error stop final => rw [bind_error begun, bind_error begun]
        | ok e opened =>
        have same : e.fr = fr := (evict_begin_entry begun).1
        subst same
        rw [bind_ok begun, bind_ok begun]
        refine congrFun (congrArg (get >>= ·) ?_) _
        funext s
        by_cases write : needsWrite s e = true
        · rw [if_pos write, if_pos write]
          simp only [bind_assoc, pure_bind, written]
          refine congrArg (getBsInfo e.pid e.a >>= ·) ?_
          funext place
          refine congrArg (writeBs (frameNum2ptr e.fr) place.1 place.2 >>= ·) ?_
          funext status
          unfold evicted
          by_cases failed : status = sysErr
          · rw [if_pos failed, if_pos failed]
            rfl
          · rw [if_neg failed, if_neg failed]
            simp only [bind_assoc, later]
        · rw [if_neg write, if_neg write]
          simp only [bind_assoc, pure_bind, now]

/-- What comes after `getNewFrame` for a page table. -/
def entersTable (a pd faddr : Nat) : Call Nat := do
  if faddr ≠ sysErrPtr then do
    modify fun s => s.setPage (faddr / nbpg) fun i => blankPTE (s.mem (faddr / nbpg) i)
    let fr ← faddr2frameNum faddr
    log (.hookPtableCreate (fr + frame0))
  setPDEAddr pd (vaddr2pdi a) faddr
  setEntry pd (vaddr2pdi a) fun entry => setPres entry true
  pure faddr

theorem page_allocated (enough : 4 ≤ fuel) :
    (allocate (.page pid a pt) (grantPage pid a pt) >>= finish fuel) =
      (getNewFrameFIFO .page pid (vaddr2vpn a) >>= installsPage pid a pt) := by
  refine allocation_finished (.page pid a pt) (installsPage pid a pt) 2 ?_ enough
  intro fuel given enough
  obtain ⟨few, rfl⟩ : ∃ few, fuel = few + 2 := ⟨fuel - 2, by omega⟩
  exact page_finished

theorem table_finished {pd : Nat} (enough : 4 ≤ fuel) :
    (grantTable pid a pd faddr >>= finish fuel) = (entersTable a pd faddr >>= fun pt =>
      getNewFrameFIFO .page pid (vaddr2vpn a) >>= installsPage pid a pt) := by
  unfold grantTable entersTable
  by_cases failed : faddr = sysErrPtr
  · have noFrame : ¬faddr ≠ sysErrPtr := fun other => other failed
    simp only [if_neg noFrame, bind_assoc, pure_bind, page_allocated enough]
  · simp only [if_pos (show faddr ≠ sysErrPtr from failed), bind_assoc, pure_bind,
      page_allocated enough]

theorem table_of_new_page_table {pd : Nat} (absent : pres (s.entry pd (vaddr2pdi a)) = false) :
    pfTable pid pd (vaddr2pdi a) s = (getNewFrame .ptab pid noVpn >>= entersTable a pd) s := by
  unfold pfTable newPageTable
  rw [get_bind, if_pos absent]
  simp only [bind_assoc]
  refine congrFun (congrArg (getNewFrame .ptab pid noVpn >>= ·) ?_) s
  funext faddr
  unfold entersTable
  by_cases failed : faddr = sysErrPtr
  · have noFrame : ¬faddr ≠ sysErrPtr := fun other => other failed
    rw [if_pos failed, if_neg noFrame, pure_bind, failed]
  · simp only [if_pos (show faddr ≠ sysErrPtr from failed), if_neg failed, bind_assoc, pure_bind]

omit [Config] in
theorem bind_alike {α β : Type} {first first' : Call α} {next next' : α → Call β}
    (starts : first s = first' s)
    (goes : ∀ value t, first' s = .ok value t → next value t = next' value t) :
    (first >>= next) s = (first' >>= next') s := by
  cases ran : first' s with
  | error stop final => rw [bind_error (starts.trans ran), bind_error ran]
  | ok value t => rw [bind_ok (starts.trans ran), bind_ok ran, goes value t ran]

theorem chosen_fifo (fifo : s.ker.currpolicy = .fifo) (type : FrameStatus) (pid vpn : Int) :
    getNewFrame type pid vpn s = getNewFrameFIFO type pid vpn s := by
  unfold getNewFrame
  rw [get_bind, if_pos fifo]

theorem service_finished (fifo : s.ker.currpolicy = .fifo) (enough : 6 ≤ fuel) :
    (beginService pid a >>= finish fuel) s =
      (do pfService pid a; signal .pfSem; pure .idle : Call Phase) s := by
  let pd := (s.ker.proctab pid).pd
  have handler : (do pfService pid a; signal .pfSem; pure .idle : Call Phase) s =
      (pfTable pid pd (vaddr2pdi a) >>= fun pt =>
        getNewFrame .page pid (vaddr2vpn a) >>= installsPage pid a pt) s := by
    unfold pfService installsPage
    simp only [bind_assoc]
    rfl
  rw [handler]
  unfold beginService
  simp only [bind_assoc]
  rw [get_bind]
  by_cases absent : pres (s.entry pd (vaddr2pdi a)) = false
  · have allocated : (allocate (.table pid a pd) (grant (.table pid a pd)) >>= finish fuel) =
        ((getNewFrameFIFO .ptab pid noVpn >>= entersTable a pd) >>= fun pt =>
          getNewFrameFIFO .page pid (vaddr2vpn a) >>= installsPage pid a pt) := by
      rw [bind_assoc]
      exact allocation_finished (.table pid a pd) _ 4
        (fun fuel faddr enough => table_finished enough) enough
    rw [if_pos absent, allocated]
    refine bind_alike ?_ ?_
    · rw [table_of_new_page_table absent]
      exact bind_alike (chosen_fifo fifo .ptab pid noVpn).symm fun _ _ _ => rfl
    · intro pt t ran
      have kept : t.ker = s.ker := pf_table_ker pid pd (vaddr2pdi a) _ _ _ ran
      have still : t.ker.currpolicy = .fifo := by rw [kept, fifo]
      exact bind_alike (chosen_fifo still .page pid _).symm fun _ _ _ => rfl
  · have allocated : (allocate (.page pid a (pdi2pt s pd (vaddr2pdi a)))
        (grant (.page pid a (pdi2pt s pd (vaddr2pdi a)))) >>= finish fuel) =
        (getNewFrameFIFO .page pid (vaddr2vpn a) >>=
          installsPage pid a (pdi2pt s pd (vaddr2pdi a))) := page_allocated (by omega)
    have found : pfTable pid pd (vaddr2pdi a) s = .ok (pdi2pt s pd (vaddr2pdi a)) s := by
      unfold pfTable
      rw [get_bind, if_neg absent]
      rfl
    rw [if_neg absent, allocated, bind_ok found]
    exact bind_alike (chosen_fifo fifo .page pid _).symm fun _ _ _ => rfl

/-- A page fault without kills is `pf_handler`. -/
theorem fault_uninterrupted (fifo : s.ker.currpolicy = .fifo) (enough : 6 ≤ fuel) :
    (beginFault a >>= finish fuel) s = (do pfHandler a; pure .idle : Call Phase) s := by
  unfold beginFault pfHandler
  simp only [bind_assoc]
  rw [modifyKer, modify_bind, modify_bind]
  refine bind_alike rfl ?_
  intro value t waited
  have still : t.ker.currpolicy = .fifo := by
    rw [(wait_returned waited).2]
    exact fifo
  rw [get_bind, get_bind]
  by_cases invalid : isInvalidAddr t.ker a t.ker.currpid = true
  · rw [if_pos invalid, if_pos invalid]
    simp only [bind_assoc, pure_bind, finish_idle]
  · rw [if_neg invalid, if_neg invalid, service_finished still enough]
    simp only [bind_assoc]

theorem dir_finished {saddr ssize hsize pd : Nat} :
    (grantDir pid saddr ssize hsize pd >>= finish fuel) = grantDir pid saddr ssize hsize pd := by
  unfold grantDir
  simp only [bind_assoc]
  refine congrArg (signal .pfSem >>= ·) ?_
  funext given
  split
  · simp only [bind_assoc, pure_bind, finish_idle]
  · simp only [bind_assoc]
    refine congrArg (modifyKer _ >>= ·) (funext fun _ => congrArg (modify _ >>= ·)
      (funext fun _ => congrArg (bsInit pid hsize >>= ·) (funext fun status => ?_)))
    split
    · simp only [bind_assoc, pure_bind, finish_idle]
    · simp only [bind_assoc, pure_bind, finish_idle]

/-- A `vcreate` without kills is `vcreate`. -/
theorem vcreate_uninterrupted {ssize hsize : Nat} {priority : Int}
    (fifo : s.ker.currpolicy = .fifo) (enough : 2 ≤ fuel) :
    (beginVcreate ssize hsize priority >>= finish fuel) s =
      (do let _ ← vcreate ssize hsize priority; pure .idle : Call Phase) s := by
  unfold beginVcreate vcreate
  simp only [bind_assoc]
  refine bind_alike rfl ?_
  intro saddr t stack
  have opened : t.ker.currpolicy = .fifo := by
    obtain ⟨_, _, same⟩ := getstk_returned s (stackSize ssize)
    rw [same] at stack
    cases stack
    exact fifo
  by_cases noStack : saddr = sysErrPtr
  · rw [if_pos noStack, if_pos noStack, pure_bind, pure_bind, finish_idle]
  rw [if_neg noStack, if_neg noStack]
  simp only [bind_assoc]
  refine bind_alike rfl ?_
  intro child u slot
  have slotted : u.ker.currpolicy = .fifo := by
    rw [vcreate_newpid_returned] at slot
    cases slot
    exact opened
  by_cases refused : child = sysErr ∨ priority < 1
  · rw [if_pos refused, if_pos refused, pure_bind, pure_bind, finish_idle]
  rw [if_neg refused, if_neg refused]
  unfold vcreateSpace initPd
  simp only [bind_assoc]
  rw [get_bind, get_bind]
  by_cases few : u.ker.freeBsCount < bsReq hsize
  · rw [if_pos few, if_pos few]
    simp only [bind_assoc, pure_bind, finish_idle]
  rw [if_neg few, if_neg few]
  simp only [bind_assoc]
  rw [modifyKer, modify_bind, modify_bind]
  refine bind_alike rfl ?_
  intro _ held waited
  have still : held.ker.currpolicy = .fifo := by
    rw [(wait_returned waited).2]
    exact slotted
  have allocated := allocation_finished (.dir u.ker.currpid child saddr (stackSize ssize) hsize)
    (grantDir child saddr (stackSize ssize) hsize) 0 (fun _ _ _ => dir_finished) enough
  rw [allocated]
  refine bind_alike (chosen_fifo still .pdir child noVpn).symm ?_
  intro pd t _
  unfold grantDir
  refine congrFun (congrArg (signal .pfSem >>= ·) (funext fun _ => ?_)) t
  by_cases failed : pd = sysErrPtr
  · rw [if_pos failed, if_pos failed, pure_bind, if_pos rfl]
    simp only [bind_assoc, pure_bind]
  · rw [if_neg failed, if_neg failed]
    simp only [bind_assoc, pure_bind]
    refine congrArg (modifyKer _ >>= ·) (funext fun _ => congrArg (modify _ >>= ·)
      (funext fun _ => ?_))
    rw [if_neg (show ¬ok = sysErr by decide)]
    simp only [bind_assoc]
    refine congrArg (bsInit child hsize >>= ·) (funext fun status => ?_)
    split
    · simp only [bind_assoc, pure_bind]
    · rfl

end Uninterrupted

variable [Config]

section Invariants

/-- The tables and the queue while an allocation is served: `off` is off the queue, `limbo` is not
mapped, and the tables in `fresh` may be empty. -/
structure Busy (s : St) (off limbo : Nat) (fresh : List Nat) : Prop where
  tables : Tables s limbo fresh
  policy : s.ker.currpolicy = .fifo
  queue : QueueWithout off s
  stores : StoresKept s
  owned : Owned s empty
  rooted : Rooted s
  lock : 0 ≤ pfCount s

/-- The frame table of a call that can not come back. -/
structure Doomed (s : St) (off : Nat) : Prop where
  policy : s.ker.currpolicy = .fifo
  queue : QueueWithout off s

/-- The page of a fault and the table that it is going to be entered into. -/
structure Waits (s : St) (pid : Int) (a table : Nat) : Prop where
  heapPage : HeapPage s pid (vaddr2vpn a)
  small : a < 4294967296
  present : pres (pdeOf s pid (vaddr2vpn a / 1024)) = true
  address : base (pdeOf s pid (vaddr2vpn a / 1024)) = frame0 + table
  absent : pres (pteOf s pid (vaddr2vpn a / 1024) (vaddr2vpn a % 1024)) = false

/-- What an allocation relies on until it has its frame. -/
inductive Wanted (s : St) : Goal → List Nat → Prop
  | table {pid : Int} {a pd : Nat} (heapPage : HeapPage s pid (vaddr2vpn a))
      (small : a < 4294967296) (directory : (s.ker.proctab pid).pd = pd)
      (absent : pres (pdeOf s pid (vaddr2vpn a / 1024)) = false) : Wanted s (.table pid a pd) []
  | page {pid : Int} {a table : Nat} (waits : Waits s pid a table) :
      Wanted s (.page pid a (frameNum2ptr table)) [table]
  | dir {creator pid : Int} {saddr ssize hsize : Nat} (slot : IsFree s pid)
      (enough : bsReq hsize ≤ s.ker.freeBsCount) :
      Wanted s (.dir creator pid saddr ssize hsize) []

/-- A victim is written, and its frame still looks like a page. -/
structure Evicting (s : St) (goal : Goal) (e : Evicted) : Prop where
  bound : e.fr < nframes
  page : (s.ipt e.fr).status = .page
  busy : ∃ fresh, Busy s e.fr e.fr fresh ∧ Wanted s goal fresh

/-- A frame has been made a page that is not mapped yet. -/
structure Loading (s : St) (pid : Int) (a pt faddr : Nat) : Prop where
  frames : ∃ fr table, faddr = frameNum2ptr fr ∧ pt = frameNum2ptr table ∧
    Busy s empty fr [table] ∧ IsPage s fr pid (vaddr2vpn a) ∧ Waits s pid a table

/-- What holds in each phase. -/
def Holds : Phase → St → Prop
  | .idle, s => Sound s ∧ s.ker.currpolicy = .fifo ∧ 1 ≤ pfCount s
  | .writing goal e _ _, s => Evicting s goal e
  | .written goal e status, s => status = sysErr ∧ Doomed s e.fr ∨ Evicting s goal e
  | .reading pid a pt faddr _ _, s => faddr = sysErrPtr ∧ Doomed s empty ∨ Loading s pid a pt faddr
  | .hasRead pid a pt faddr status, s =>
      status = sysErr ∧ Doomed s empty ∨ Loading s pid a pt faddr

/-- The process that is killed is another one than the one that waits, and it is not the owner of
the page that is being written. -/
def Harmless : Phase → St → Int → Prop
  | .idle, _, _ => True
  | .writing goal e _ _, s, q => q ≠ goal.holder ∧ (s.ipt e.fr).pid ≠ q
  | .written goal e _, s, q => q ≠ goal.holder ∧ (s.ipt e.fr).pid ≠ q
  | .reading pid .., _, q => q ≠ pid
  | .hasRead pid .., _, q => q ≠ pid

/-- The moves of a run. Faults do not evict the last page of the table that they work on. -/
def Allowed (phase : Phase) (s : St) : Move → Prop
  | .event event => Fixed s event ∧ KeepsTable s event
  | .fault a => KeepsTable s (.fault a)
  | .kill q => Harmless phase s q
  | .vcreate .. => True
  | .proceed => True

end Invariants

variable {s t final : St} {off limbo fr table : Nat} {fresh : List Nat} {pid q : Int} {a : Nat}

section Kills

theorem doomed_of_busy (busy : Busy s off limbo fresh) : Doomed s off := ⟨busy.policy, busy.queue⟩

/-- What a process has is left alone when another one parts. -/
theorem parted_entries (parted : Parted q s final) (other : pid ≠ q) (pdi pti : Nat) :
    pdeOf final pid pdi = pdeOf s pid pdi ∧ pteOf final pid pdi pti = pteOf s pid pdi pti := by
  have pde : pdeOf final pid pdi = pdeOf s pid pdi := by
    rw [pdeOf, pdeOf, St.entry, St.entry, parted.left.others pid other, parted.mem]
  exact ⟨pde, by rw [pteOf, pteOf, pde, parted.mem]⟩

theorem parted_heap_page {vpn : Nat} (parted : Parted q s final) (other : pid ≠ q)
    (page : HeapPage s pid vpn) : HeapPage final pid vpn := by
  refine ⟨(parted_live parted pid).2.mpr ⟨page.1, other⟩, page.2.1, ?_⟩
  rw [parted.left.others pid other]
  exact page.2.2

theorem waits_parted (parted : Parted q s final) (other : pid ≠ q) (waits : Waits s pid a table) :
    Waits final pid a table := by
  have entries := parted_entries parted other (vaddr2vpn a / 1024) (vaddr2vpn a % 1024)
  refine ⟨parted_heap_page parted other waits.heapPage, waits.small, ?_, ?_, ?_⟩
  · rw [entries.1]
    exact waits.present
  · rw [entries.1]
    exact waits.address
  · rw [entries.2]
    exact waits.absent

theorem wanted_parted {goal : Goal} (parted : Parted q s final) (alive : Live s q)
    (stores : s.ker.freeBsCount ≤ final.ker.freeBsCount) (other : q ≠ goal.holder)
    (wanted : Wanted s goal fresh) : Wanted final goal fresh := by
  cases wanted with
  | @table pid _ _ heapPage small directory absent =>
      have different : pid ≠ q := Ne.symm other
      refine .table (parted_heap_page parted different heapPage) small ?_ ?_
      · rw [parted.left.others pid different]
        exact directory
      · rw [(parted_entries parted different _ 0).1]
        exact absent
  | page waits => exact .page (waits_parted parted (Ne.symm other) waits)
  | @dir creator pid _ _ _ slot enough =>
      have different : pid ≠ q := by
        rintro rfl
        exact alive slot.2.2
      refine .dir ⟨slot.1, slot.2.1, ?_⟩ (Nat.le_trans enough stores)
      rw [parted.left.others pid different]
      exact slot.2.2

/-- A process that is killed has parted, and the rest of the invariant is kept. -/
theorem busy_killed {status : Int} (busy : Busy s off limbo fresh) (down : Killed q s final)
    (ran : kill q s = .ok status final) :
    Busy final off limbo fresh ∧ Parted q s final ∧ Live s q ∧
      s.ker.freeBsCount ≤ final.ker.freeBsCount := by
  have alive : Live s q := (not_bad down.valid).2.2
  let fewer : St := { s with ker := { s.ker with prcount := s.ker.prcount - 1 } }
  have fewerStores : StoresKept fewer := kept_of_ker busy.stores rfl rfl rfl rfl
  have fewerQueue : QueueWithout off fewer := without_of_ker busy.queue rfl ⟨rfl, rfl⟩ rfl
  obtain ⟨fewerParted, queue⟩ :=
    taken_down_parted fewerStores fewerQueue alive (killed_down down)
  have parted : Parted q s final := ⟨⟨fewerParted.left.dead, fewerParted.left.others⟩,
    fewerParted.roots, fewerParted.mem, fewerParted.frames⟩
  obtain ⟨finalStores, left⟩ := killed_kept busy.stores down
  obtain ⟨owned, stays⟩ := parted_owned busy.tables busy.owned alive down.notNull parted
  obtain ⟨_, policy, lock⟩ := calls_kill q ⟨s, fun _ => 0, 0⟩ _ _ ran
  have held : pfCount s + (0 : Nat) ≤ pfCount final := lock
  have before := busy.lock
  refine ⟨⟨parted_tables busy.tables alive down.notNull parted, policy.trans busy.policy, queue,
    finalStores, owned, ?_, by omega⟩, parted, alive,
    left_frees busy.stores finalStores left⟩
  refine rooted_stays busy.rooted busy.tables stays ?_ ?_
  · exact (parted_live parted _).1.mpr ⟨busy.rooted.null, Ne.symm down.notNull⟩
  · intro p after before
    exact absurd ((parted_live parted p).1.mp after).1 before

/-- A kill spares the frame that is off the queue, and it returns or stops elsewhere. -/
theorem busy_kill (busy : Busy s off limbo fresh) (spares : Spares off q s) :
    Ends (kill q s) (fun _ final => final = s ∨ Busy final off limbo fresh ∧ Parted q s final ∧
      Live s q ∧ s.ker.freeBsCount ≤ final.ker.freeBsCount) fun stop _ => NotIndex stop := by
  refine ends_weaken (kill_spares_in_bounds busy.queue spares) ?_ fun _ _ stops => stops
  intro status final ran _
  rcases kill_inv ran with ⟨_, same⟩ | ⟨_, down⟩
  · exact Or.inl same
  · exact Or.inr (busy_killed busy down ran)

theorem doomed_kill (doomed : Doomed s off) (spares : Spares off q s) :
    Ends (kill q s) (fun _ final => Doomed final off) fun stop _ => NotIndex stop := by
  refine ends_weaken (kill_spares_in_bounds doomed.queue spares) ?_ fun _ _ stops => stops
  intro status final ran _
  rcases kill_inv ran with ⟨_, rfl⟩ | ⟨_, down⟩
  · exact doomed
  · obtain ⟨memlist, freed, stored, frames, stores, rfl⟩ := down.stages
    obtain ⟨nodes, listed⟩ := doomed.queue doomed.policy
    have opened : Fifo { s with ker := { s.ker with
        prcount := s.ker.prcount - 1, memlist := memlist } } off nodes :=
      ⟨doomed.policy, frame_queue_congr listed rfl rfl rfl⟩
    obtain ⟨rest, _, freedFifo⟩ := free_proc_frames_run q opened frames
    have storedFifo : Fifo stored off rest :=
      fifo_of_view freedFifo (keeps_ok (keeps_queue (keeps_free_proc_bs q)) stores)
    have policy : (retire stored.ker q).currpolicy = .fifo := by
      rw [retire_ker]
      exact storedFifo.1
    exact ⟨policy, fun _ => ⟨rest, frame_queue_congr storedFifo.2 rfl rfl rfl⟩⟩

theorem evicting_kill {goal : Goal} {e : Evicted} (evicting : Evicting s goal e)
    (other : q ≠ goal.holder) (owner : (s.ipt e.fr).pid ≠ q) :
    Ends (kill q s) (fun _ final => Evicting final goal e) fun stop _ => NotIndex stop := by
  obtain ⟨bound, page, fresh, busy, wanted⟩ := evicting
  refine ends_weaken (busy_kill busy fun _ => owner) ?_ fun _ _ stops => stops
  rintro _ final _ (rfl | ⟨killed, parted, alive, stores⟩)
  · exact ⟨bound, page, fresh, busy, wanted⟩
  · have same := core_status (parted_frame parted bound owner)
    exact ⟨bound, same.trans page, fresh, killed,
      wanted_parted parted alive stores other wanted⟩

theorem loading_kill {pt faddr : Nat} (loading : Loading s pid a pt faddr) (other : q ≠ pid) :
    Ends (kill q s) (fun _ final => Loading final pid a pt faddr) fun stop _ => NotIndex stop := by
  obtain ⟨fr, table, toFrame, toTable, busy, page, waits⟩ := loading.frames
  refine ends_weaken (busy_kill busy fun bad => absurd bad empty_not_frame) ?_
    fun _ _ stops => stops
  rintro _ final _ (rfl | ⟨killed, parted, _⟩)
  · exact loading
  · have owner : (s.ipt fr).pid ≠ q := by
      rw [page.2.2.1]
      exact Ne.symm other
    have same := parted_frame parted page.1 owner
    simp only [core, Prod.mk.injEq] at same
    exact ⟨fr, table, toFrame, toTable, killed, ⟨page.1, same.1.trans page.2.1,
      same.2.1.trans page.2.2.1, same.2.2.1.trans page.2.2.2⟩,
      waits_parted parted (Ne.symm other) waits⟩

end Kills

section Evictions

/-- The frame of the victim is a page before and after, whatever it is a page of. -/
theorem owned_same_page (owned : Owned s empty) (ker : t.ker = s.ker) (mem : t.mem = s.mem)
    (cores : ∀ x, x ≠ fr → core (t.ipt x) = core (s.ipt x)) (page : (t.ipt fr).status = .page) :
    Owned t empty := by
  have live : ∀ p, Live t p ↔ Live s p := fun p => by rw [Live, Live, ker]
  have other : ∀ {x}, (t.ipt x).status = .pdir ∨ (t.ipt x).status = .ptab →
      (s.ipt x).status = (t.ipt x).status ∧ (s.ipt x).pid = (t.ipt x).pid := by
    intro x status
    have different : x ≠ fr := by
      rintro rfl
      rw [page] at status
      simp at status
    have same := cores x different
    simp only [core, Prod.mk.injEq] at same
    exact ⟨same.1.symm, same.2.1.symm⟩
  refine ⟨?_, ?_⟩
  · intro x bound isDir notLoose
    obtain ⟨status, owner⟩ := other (Or.inl isDir)
    obtain ⟨p, alive, isOwner, directory⟩ := owned.dirs x bound (status.trans isDir) notLoose
    refine ⟨p, (live p).mpr alive, owner.symm.trans isOwner, ?_⟩
    rw [ker]
    exact directory
  · intro x bound isTab notLoose isPrivate
    obtain ⟨status, owner⟩ := other (Or.inr isTab)
    obtain ⟨p, k, alive, own, present, address⟩ :=
      owned.tabs x bound (status.trans isTab) notLoose (by rw [owner]; exact isPrivate)
    refine ⟨p, k, ?_, own, ?_, ?_⟩
    · unfold HeapLive Live
      rw [ker]
      exact alive
    · rw [pdeOf, St.entry, ker, mem]
      exact present
    · rw [pdeOf, St.entry, ker, mem]
      exact address

theorem stays_same_page (tables : Tables s limbo fresh) (stays : Stays s t)
    (wasPage : (s.ipt fr).status = .page) (ker : final.ker = t.ker) (mem : final.mem = t.mem)
    (cores : ∀ x, x ≠ fr → core (final.ipt x) = core (t.ipt x)) : Stays s final where
  roots := by
    rw [ker]
    exact stays.roots
  shared := by
    intro x isTable
    have different : x ≠ fr := by
      rintro rfl
      have status := isTable.2.1
      rw [wasPage] at status
      cases status
    rw [cores x different, mem]
    exact stays.shared x isTable
  procs := by
    intro p before after
    rw [ker]
    refine stays.procs p before ?_
    rw [Live, ← ker]
    exact after
  dirs := by
    intro p before after d bound directory
    have different : d ≠ fr := by
      rintro rfl
      obtain ⟨dir, inside, isDir, status, _⟩ := tables.dirs p before
      have same := frame_ptr_injective dir d inside bound (isDir.symm.trans directory)
      rw [same, wasPage] at status
      cases status
    rw [cores d different]
    refine stays.dirs p before ?_ d bound directory
    rw [Live, ← ker]
    exact after
  entries := by
    intro p before after k bound notPrivate
    have same : pdeOf final p k = pdeOf t p k := by
      rw [pdeOf, pdeOf, St.entry, St.entry, ker, mem]
    rw [same]
    refine stays.entries p before ?_ k bound notPrivate
    rw [Live, ← ker]
    exact after

/-- What the first half of an eviction does. -/
structure Begun (s t : St) (fr : Nat) (fresh : List Nat) (e : Evicted) : Prop where
  victim : e.fr = fr
  bound : fr < nframes
  page : (t.ipt fr).status = .page
  busy : Busy t fr fr fresh
  ker : t.ker = s.ker
  bases : ∀ pid pdi, base (pdeOf t pid pdi) = base (pdeOf s pid pdi) ∧
    (pres (pdeOf t pid pdi) = true → pres (pdeOf s pid pdi) = true)
  absent : ∀ pid pdi pti, pres (pteOf s pid pdi pti) = false → pres (pteOf t pid pdi pti) = false
  present : ∀ pid pdi, Live s pid → pres (pdeOf s pid pdi) = true →
    pres (pdeOf t pid pdi) = true ∨ LosesTable s pid pdi
  place : ∃ place, getBsInfo e.pid e.a t = .ok place t

theorem victim_begun {nodes : List Nat} (busy : Busy s empty empty fresh) (full : AllUsed s)
    (listed : FrameQueue s empty (nodes ++ [fr])) (hand : Nat) :
    ∃ chosen e t, pickFrame { s with fifoNextframe := hand } = .ok fr chosen ∧
      evictBegin fr chosen = .ok e t ∧ Begun s t fr fresh e := by
  let looked : St := { s with fifoNextframe := hand }
  have lookedQueue : FrameQueue looked empty (nodes ++ [fr]) :=
    frame_queue_congr listed rfl rfl rfl
  obtain ⟨ipt, head, tail, picked, queue, cores⟩ := pick_frame_ok lookedQueue
  let chosen := relink looked ipt head tail
  have pickRan : pickFrame looked = .ok fr chosen := by
    unfold pickFrame
    rw [get_bind, if_pos (show looked.ker.currpolicy = .fifo from busy.policy)]
    exact picked
  have holds := ((listed.members fr).mp (by simp)).1
  have bound := holds.1
  have chosenLooked : Looked s chosen := looked_refl rfl cores rfl rfl rfl
  have chosenTables := looked_tables busy.tables chosenLooked
  have page : (chosen.ipt fr).status = .page := (core_status (cores fr)).trans holds.2
  obtain ⟨owner, number, d, table, mapping⟩ :=
    mapping_of_page chosenTables bound page (proper_of_bound bound)
  have picks : Picks s fr := by
    refine Or.inl ⟨busy.policy, full, ?_⟩
    rw [listed.queue.tailEq, List.getLastD_concat]
  obtain ⟨trace, begunRan, adds⟩ := evict_begin_ok chosenTables mapping
  let t : St := { dropPage chosen d (number / 1024) table (number % 1024) with trace := trace }
  have ker : t.ker = s.ker := drop_page_ker _
  have tableNe : fr ≠ table := by
    rintro rfl
    have status := mapping.isTable.2.1
    rw [page] at status
    cases status
  have tPage : (t.ipt fr).status = .page := by
    change ((dropPage chosen d (number / 1024) table (number % 1024)).ipt fr).status = .page
    rw [drop_page_ipt tableNe]
    exact page
  have chosenStores : StoresKept chosen := kept_of_ker busy.stores rfl rfl rfl rfl
  obtain ⟨disk, transfer⟩ : ∃ disk, ¬Modified chosen table (number % 1024) ∧ disk = chosen.disk ∨
      Modified chosen table (number % 1024) ∧ minId ≤ storeOf chosen.ker owner number ∧
        storeOf chosen.ker owner number ≤ maxId ∧
        disk = writeBack chosen (frame0 + fr) (storeOf chosen.ker owner number)
          (storePage number) := by
    by_cases modified : Modified chosen table (number % 1024)
    · obtain ⟨store, placed⟩ := page_placed chosenStores mapping.heapPage
      have place : storeOf chosen.ker owner number = (store : Int) := placed.place
      have inside := placed.bound
      rw [maxBsEntries] at inside
      refine ⟨_, Or.inr ⟨modified, ?_, ?_, rfl⟩⟩
      · rw [place, minId]
        omega
      · rw [place, maxId]
        omega
    · exact ⟨_, Or.inl ⟨modified, rfl⟩⟩
  -- what is known about whole allocations is used for one that gives the frame to a page
  let gone : St := { t with disk := disk }
  have out : EvictedFrame chosen gone fr owner number d table := by
    refine ⟨drop_page_ker _, rfl, ⟨(drop_page_heads _ _ _ _ _).1, (drop_page_heads _ _ _ _ _).2.1⟩,
      fun p i _ => rfl, ?_, transfer, adds⟩
    change pres ((dropPage chosen d (number / 1024) table (number % 1024)).mem _ _) = false ∧
      base ((dropPage chosen d (number / 1024) table (number % 1024)).mem _ _) = _
    rw [drop_page_mem (table_ne_dir mapping), if_pos (Or.inl ⟨rfl, rfl⟩)]
    simp
  let given : St := setFrame gone fr (newFrame .page owner number)
  have inited : Inited gone given fr .page owner number := by
    refine ⟨rfl, rfl, rfl, rfl, fun x => ?_⟩
    by_cases here : x = fr
    · rw [if_pos here, here, set_frame_self]
    · rw [if_neg here, set_frame_other _ _ _ _ here]
  have taken : NewFrame s given fr .page owner number :=
    .evicted chosen gone owner number d table chosenLooked picks mapping out inited
  have cores : ∀ x, x ≠ fr → core (t.ipt x) = core (given.ipt x) := by
    intro x different
    rw [show given.ipt x = gone.ipt x from set_frame_other _ _ _ _ different]
  have givenOwned := new_frame_owned busy.tables busy.owned bound taken
  rw [if_pos rfl] at givenOwned
  have stays : Stays s t := stays_same_page busy.tables (new_frame_stays busy.tables taken) holds.2
    rfl rfl cores
  have tables : Tables t fr fresh := tables_trace (drop_page_tables chosenTables mapping) _
  have tLive : ∀ p, Live t p ↔ Live s p := fun p => by rw [Live, Live, ker]
  have rooted : Rooted t := by
    refine rooted_stays busy.rooted busy.tables stays ((tLive _).mpr busy.rooted.null) ?_
    intro p after before
    exact absurd ((tLive p).mp after) before
  have chosenFifo : Fifo chosen fr nodes := ⟨busy.policy, queue⟩
  obtain ⟨_, _, rest, _, tFifo⟩ := evict_begin_run chosenFifo begunRan
  have pde : ∀ p k, pdeOf t p k = pdeOf given p k := fun _ _ => rfl
  obtain ⟨low, high⟩ := mapping_vpn chosenTables mapping
  refine ⟨chosen, _, t, pickRan, begunRan, rfl, bound, tPage,
    ⟨tables, tFifo.1, fun _ => ⟨rest, tFifo.2⟩,
      kept_of_ker busy.stores (by rw [ker]) (by rw [ker]) (by rw [ker]) (by rw [ker]),
      owned_same_page givenOwned rfl rfl cores tPage, rooted, ?_⟩, ker, ?_, ?_, ?_, ?_⟩
  · rw [pfCount, ker]
    exact busy.lock
  · intro p k
    exact show base (pdeOf given p k) = _ ∧ (pres (pdeOf given p k) = true → _) from
      new_frame_pde_words taken
  · intro p k l missing
    exact show pres (pteOf given p k l) = false from new_frame_pte_words taken missing
  · intro p k alive isPresent
    exact show pres (pdeOf given p k) = true ∨ _ from
      new_frame_pde busy.tables alive taken isPresent
  · have number' : vaddr2vpn (pageAddr number) = number := by
      rw [page_number, page_addr number (by omega)]
      omega
    exact ⟨_, get_bs_info_ok number' low (by omega)⟩

end Evictions

section Allocations

/-- A frame has been given to an allocation. -/
structure Given (t : St) (goal : Goal) (fr : Nat) (fresh : List Nat) : Prop where
  bound : fr < nframes
  frame : core (t.ipt fr) = core (newFrame goal.type goal.pid goal.vpn)
  tables : Tables t (if goal.type = .page then fr else empty) fresh
  policy : t.ker.currpolicy = .fifo
  queue : QueueWithout empty t
  stores : StoresKept t
  owned : Owned t (if goal.type = .page then empty else fr)
  rooted : Rooted t
  lock : 0 ≤ pfCount t
  unreferenced : Unreferenced t fr
  wanted : Wanted t goal fresh

omit [Config] in
theorem waits_congr (waits : Waits s pid a table) (ker : t.ker = s.ker) (mem : t.mem = s.mem) :
    Waits t pid a table := by
  have pde : ∀ k, pdeOf t pid k = pdeOf s pid k := fun k => by
    rw [pdeOf, pdeOf, St.entry, St.entry, ker, mem]
  refine ⟨?_, waits.small, ?_, ?_, ?_⟩
  · rw [HeapPage, HeapLive, Live, ker]
    exact waits.heapPage
  · rw [pde]
    exact waits.present
  · rw [pde]
    exact waits.address
  · rw [pteOf, pde, mem]
    exact waits.absent

theorem wanted_congr {goal : Goal} (wanted : Wanted s goal fresh) (ker : t.ker = s.ker)
    (mem : t.mem = s.mem) : Wanted t goal fresh := by
  cases wanted with
  | table heapPage small directory absent =>
      refine .table ?_ small ?_ ?_
      · rw [HeapPage, HeapLive, Live, ker]
        exact heapPage
      · rw [ker]
        exact directory
      · rw [pdeOf, St.entry, ker, mem]
        exact absent
  | page waits => exact .page (waits_congr waits ker mem)
  | dir slot enough =>
      refine .dir ⟨slot.1, slot.2.1, ?_⟩ ?_
      · rw [ker]
        exact slot.2.2
      · rw [ker]
        exact enough

/-- `init_frame` on an unused frame, or on the victim. -/
theorem init_given {goal : Goal} (busy : Busy s off limbo fresh) (wanted : Wanted s goal fresh)
    (bound : fr < nframes)
    (was : (s.ipt fr).status = .notUsed ∧ off = empty ∧ limbo = empty ∨
      (s.ipt fr).status = .page ∧ off = fr ∧ limbo = fr) :
    ∃ t, initFrame fr goal.type goal.pid goal.vpn s = .ok () t ∧ Given t goal fr fresh := by
  obtain ⟨nodes, listed⟩ := busy.queue busy.policy
  have absent : fr ∉ nodes := by
    intro member
    have holds := (listed.members fr).mp member
    rcases was with ⟨free, _⟩ | ⟨_, same, _⟩
    · have page := holds.1.2
      rw [free] at page
      cases page
    · exact holds.2 same.symm
  have noOff : off = fr ∨ ¬off < nframes := by
    rcases was with ⟨_, same, _⟩ | ⟨_, same, _⟩
    · exact Or.inr (same ▸ empty_not_frame)
    · exact Or.inl same
  obtain ⟨ipt, head, tail, ran, queue, cores⟩ :=
    init_frame_ok listed busy.policy bound absent noOff goal.type goal.pid goal.vpn
  let t := relink s ipt head tail
  have inited : Inited s t fr goal.type goal.pid goal.vpn := inited_of_relink cores
  have other : ∀ {x}, (s.ipt x).status = .pdir ∨ (s.ipt x).status = .ptab → x ≠ fr := by
    rintro x status rfl
    rcases was with ⟨free, _⟩ | ⟨page, _⟩
    · rw [free] at status
      simp at status
    · rw [page] at status
      simp at status
  have tables := init_tables busy.tables inited (by
    rcases was with ⟨free, _, same⟩ | ⟨page, _, same⟩
    · exact Or.inl ⟨free, same⟩
    · exact Or.inr ⟨page, same⟩)
  have stays : Stays s t := by
    refine ⟨⟨rfl, rfl, rfl⟩, ?_, fun _ _ _ => rfl, ?_, fun _ _ _ _ _ _ => ⟨rfl, rfl⟩⟩
    · intro x isTable
      exact ⟨inited_other inited (other (Or.inr isTable.2.1)), fun _ => ⟨rfl, rfl⟩⟩
    · intro p before _ d dBound directory
      obtain ⟨dir, inside, isDir, status, _⟩ := busy.tables.dirs p before
      have same := frame_ptr_injective dir d inside dBound (isDir.symm.trans directory)
      exact inited_other inited (same ▸ other (Or.inl status))
  have owned : Owned t (if goal.type = .page then empty else fr) := by
    have newStatus : (t.ipt fr).status = goal.type := by
      have same := cores fr
      rw [if_pos rfl] at same
      exact core_status same
    have old : ∀ {x}, (t.ipt x).status = .pdir ∨ (t.ipt x).status = .ptab →
        x ≠ (if goal.type = .page then empty else fr) →
        (s.ipt x).status = (t.ipt x).status ∧ (s.ipt x).pid = (t.ipt x).pid := by
      intro x status notLoose
      have different : x ≠ fr := by
        rintro rfl
        by_cases page : goal.type = .page
        · rw [newStatus, page] at status
          simp at status
        · rw [if_neg page] at notLoose
          exact notLoose rfl
      have same := inited_other inited different
      simp only [core, Prod.mk.injEq] at same
      exact ⟨same.1.symm, same.2.1.symm⟩
    refine ⟨?_, ?_⟩
    · intro x inside isDir notLoose
      obtain ⟨status, owner⟩ := old (Or.inl isDir) notLoose
      obtain ⟨p, alive, isOwner, directory⟩ :=
        busy.owned.dirs x inside (status.trans isDir) (proper_of_bound inside)
      exact ⟨p, alive, owner.symm.trans isOwner, directory⟩
    · intro x inside isTab notLoose isPrivate
      obtain ⟨status, owner⟩ := old (Or.inr isTab) notLoose
      exact busy.owned.tabs x inside (status.trans isTab) (proper_of_bound inside)
        (by rw [owner]; exact isPrivate)
  have rooted : Rooted t := rooted_stays busy.rooted busy.tables stays busy.rooted.null
    fun p after before => absurd after before
  have unreferenced := unreferenced_inited (unreferenced_of_status busy.tables bound (by
    rcases was with ⟨free, _⟩ | ⟨page, _⟩
    · exact Or.inl free
    · exact Or.inr page)) inited
  exact ⟨t, ran, bound, by rw [inited.frames, if_pos rfl], tables, busy.policy, fun _ => ⟨_, queue⟩,
    kept_of_ker busy.stores rfl rfl rfl rfl, owned, rooted, busy.lock, unreferenced,
    wanted_congr wanted rfl rfl⟩

/-- The hand, the trace and the marks of pages do not matter. -/
theorem busy_alike (busy : Busy s off limbo fresh) (alike : Alike s t) (ker : t.ker = s.ker)
    (ipt : t.ipt = s.ipt) (heads : t.flistHead = s.flistHead ∧ t.flistTail = s.flistTail) :
    Busy t off limbo fresh := by
  refine ⟨tables_congr busy.tables alike, by rw [ker]; exact busy.policy,
    without_of_ker busy.queue ipt heads (by rw [ker]),
    kept_of_ker busy.stores (by rw [ker]) (by rw [ker]) (by rw [ker]) (by rw [ker]),
    owned_of_alike busy.tables alike busy.owned, ?_, by rw [pfCount, ker]; exact busy.lock⟩
  have live : ∀ p, Live t p ↔ Live s p := fun p => live_of_space (alike.procs p)
  refine rooted_stays busy.rooted busy.tables
    (stays_of_alike busy.tables alike (by rw [ker]; exact ⟨rfl, rfl, rfl⟩))
    ((live _).mpr busy.rooted.null) ?_
  intro p after before
  exact absurd ((live p).mp after) before

theorem wanted_begun {goal : Goal} {e : Evicted} (begun : Begun s t fr fresh e)
    (wanted : Wanted s goal fresh)
    (keeps : ∀ {pid a pt}, goal = .page pid a pt → ¬LosesTable s pid (vaddr2vpn a / 1024)) :
    Wanted t goal fresh := by
  have ker := begun.ker
  cases wanted with
  | table heapPage small directory absent =>
      refine .table ?_ small ?_ ?_
      · rw [HeapPage, HeapLive, Live, ker]
        exact heapPage
      · rw [ker]
        exact directory
      · by_contra isPresent
        have before := (begun.bases _ _).2 (by simpa using isPresent)
        rw [absent] at before
        cases before
  | page waits =>
      refine .page ⟨?_, waits.small, ?_, (begun.bases _ _).1.trans waits.address,
        begun.absent _ _ _ waits.absent⟩
      · rw [HeapPage, HeapLive, Live, ker]
        exact waits.heapPage
      · rcases begun.present _ _ waits.heapPage.1.1 waits.present with present | loses
        · exact present
        · exact absurd loses (keeps rfl)
  | dir slot enough =>
      refine .dir ⟨slot.1, slot.2.1, ?_⟩ ?_
      · rw [ker]
        exact slot.2.2
      · rw [ker]
        exact enough

/-- Without an unused frame and without a page there is nothing to give. -/
theorem allocate_short (goal : Goal) (g : Nat → Call Phase) (doomed : Doomed s empty)
    (exhausted : Exhausted s) :
    ∃ hand, allocate goal g s = g sysErrPtr { s with fifoNextframe := hand } := by
  obtain ⟨nodes, listed⟩ := doomed.queue doomed.policy
  have none : nodes = [] := by
    rw [List.eq_nil_iff_forall_not_mem]
    intro x member
    have page := ((listed.members x).mp member).1
    exact (exhausted x page.1).2 page.2
  subst none
  obtain ⟨hand, found, scanned, usable, _⟩ := fifo_scan_ok (s := s) nframes
  have nothing : found = Option.none := by
    cases found with
    | none => rfl
    | some fr =>
        obtain ⟨bound, free⟩ := usable fr rfl
        exact absurd free (exhausted fr bound).1
  subst nothing
  have picked : pickFrame { s with fifoNextframe := hand } =
      .ok sysErrPtr { s with fifoNextframe := hand } := by
    unfold pickFrame
    rw [get_bind, if_pos (show s.ker.currpolicy = .fifo from doomed.policy)]
    exact pick_frame_empty (frame_queue_congr listed rfl rfl rfl)
  refine ⟨hand, ?_⟩
  unfold allocate
  rw [bind_ok scanned]
  simp only []
  rw [bind_ok picked, if_pos rfl]

/-- An allocation gives a frame, waits for the write of its victim, or has none. -/
theorem allocate_ends {goal : Goal} {g : Nat → Call Phase} (busy : Busy s empty empty fresh)
    (wanted : Wanted s goal fresh)
    (keeps : ∀ {pid a pt}, goal = .page pid a pt → ¬LosesTable s pid (vaddr2vpn a / 1024))
    (grants : ∀ {fr t}, Given t goal fr fresh →
      Ends (g (frameNum2ptr fr) t) Holds fun stop _ => NotIndex stop)
    (short : ∀ {t}, Busy t empty empty fresh → Exhausted t →
      Ends (g sysErrPtr t) Holds fun stop _ => NotIndex stop) :
    Ends (allocate goal g s) Holds fun stop _ => NotIndex stop := by
  by_cases exhausted : Exhausted s
  · obtain ⟨hand, ran⟩ := allocate_short goal g (doomed_of_busy busy) exhausted
    rw [ran]
    exact short (busy_alike busy ⟨fun _ => rfl, fun _ => rfl, fun _ _ _ _ => ⟨rfl, rfl⟩⟩ rfl rfl
      ⟨rfl, rfl⟩) exhausted
  obtain ⟨nodes, listed⟩ := busy.queue busy.policy
  obtain ⟨hand, found, scanned, usable, nothing⟩ := fifo_scan_ok (s := s) nframes
  unfold allocate
  rw [bind_ok scanned]
  cases found with
  | some fr =>
      obtain ⟨bound, free⟩ := usable fr rfl
      have looked : Busy { s with fifoNextframe := hand } empty empty fresh :=
        busy_alike busy ⟨fun _ => rfl, fun _ => rfl, fun _ _ _ _ => ⟨rfl, rfl⟩⟩ rfl rfl ⟨rfl, rfl⟩
      obtain ⟨t, ran, given⟩ := init_given looked (wanted_congr wanted rfl rfl) bound
        (Or.inl ⟨free, rfl, rfl⟩)
      simp only []
      rw [bind_ok ran]
      exact grants given
  | none =>
      have full : AllUsed s := scan_finds_all (nothing rfl)
      rcases List.eq_nil_or_concat nodes with rfl | ⟨front, fr, rfl⟩
      · refine absurd ?_ exhausted
        intro x bound
        refine ⟨full x bound, fun page => ?_⟩
        have member := (listed.members x).mpr ⟨⟨bound, page⟩, proper_of_bound bound⟩
        cases member
      · rw [List.concat_eq_append] at listed
        obtain ⟨chosen, e, t, pickRan, beginRan, begun⟩ := victim_begun busy full listed hand
        have notErr : ¬fr = sysErrPtr := proper_of_bound begun.bound
        have started := wanted_begun begun wanted keeps
        simp only []
        rw [bind_ok pickRan, if_neg notErr, bind_ok beginRan, get_bind]
        split
        · obtain ⟨place, placeRan⟩ := begun.place
          rw [bind_ok placeRan]
          have same := begun.victim
          refine ⟨?_, ?_, fresh, ?_, started⟩
          · rw [same]
            exact begun.bound
          · rw [same]
            exact begun.page
          · rw [same]
            exact begun.busy
        · let logged : St := { t with trace := .hookPswapOut e.pid e.vp (fr + frame0) :: t.trace }
          have logRan : log (.hookPswapOut e.pid e.vp (fr + frame0)) t = .ok () logged := rfl
          have loggedBusy : Busy logged fr fr fresh :=
            busy_alike begun.busy ⟨fun _ => rfl, fun _ => rfl, fun _ _ _ _ => ⟨rfl, rfl⟩⟩ rfl rfl
              ⟨rfl, rfl⟩
          obtain ⟨final, ran, given⟩ := init_given loggedBusy (wanted_congr started rfl rfl)
            begun.bound (Or.inr ⟨begun.page, rfl, rfl⟩)
          rw [bind_ok logRan, bind_ok ran]
          exact grants given

end Allocations

end Xinu.Space.Interrupted
