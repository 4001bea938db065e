import Xinu.Paging.System

/-!
# Processes that are created at the same time

A `vcreate` call can lose the processor while it waits for `pf_sem` in `init_pd`, while
`getNewFrame` writes a page to the disk, and when `signal(pf_sem)` wakes another process.
Here each call is cut at these points, as is `pf_handler`, and between two pieces of it
other processes run.
-/

namespace Xinu.Processes.Creation

open Xinu.Kernel.State Xinu.Kernel.Semaphore Xinu.Kernel.Memory Xinu.Lib.StateError
open Xinu.Paging.Address Xinu.Paging.BackingStore Xinu.Paging.Ipt Xinu.Paging.Handler
open Xinu.Paging.Process Xinu.Paging.Cpu Xinu.Paging.System

set_option autoImplicit false

/-- Where a call is that has been cut: in front of the `getNewFrame` of `init_pd`, behind
its `signal(pf_sem)`, or in front of the service of a page fault. -/
inductive Point where
  | creating (pid : Int) (saddr ssize hsize : Nat)
  | mapped (pid : Int) (saddr ssize hsize pd : Nat)
  | serving (a : Nat)
  deriving DecidableEq

structure Pending where
  caller : Int
  point : Point
  deriving DecidableEq

structure Callers where
  st : St
  calls : List Pending

variable [Config]

section Pieces

/-- `vcreate` up to the call of `init_pd`: it has failed, or it has counted its process. -/
def vcreateEnter (ssize hsize : Nat) (priority : Int) : Call (Option Point) := do
  let ssize := stackSize ssize
  let saddr ← getstk ssize
  if saddr = sysErrPtr then pure none
  else do
    let pid ← vcreateNewpid
    if pid = sysErr ∨ priority < 1 then pure none
    else do
      let s ← get
      if s.ker.freeBsCount < bsReq hsize then do
        let _ ← freestk saddr ssize
        pure none
      else do
        modifyKer fun ker => { ker with prcount := ker.prcount + 1 }
        pure (some (.creating pid saddr ssize hsize))

/-- `init_pd` while it holds `pf_sem`. -/
def directoryFrame (pid : Int) : Call Nat := do
  let pd ← getNewFrame .pdir pid noVpn
  signal .pfSem
  pure pd

/-- `vcreate` from the end of `init_pd` on. -/
def vcreateLeave (pid : Int) (saddr ssize hsize pd : Nat) : Call Int := do
  if pd = sysErrPtr then do
    let _ ← freestk saddr ssize
    modifyKer fun ker => { ker with prcount := ker.prcount - 1 }
    pure sysErr
  else do
    modifyKer fun ker => ker.setProc pid fun proc => { proc with pd := pd }
    modify fun s => s.setPage (pd / nbpg) (initialPDE s.ker)
    let status ← bsInit pid hsize
    if status = sysErr then do
      let _ ← freestk saddr ssize
      modifyKer fun ker => { ker with prcount := ker.prcount - 1 }
      pure sysErr
    else enterTable pid saddr ssize hsize

/-- `pf_handler` behind its `wait(pf_sem)`. -/
def pfServe (cr2 : Nat) : Call Unit := do
  let s ← get
  let pid := s.ker.currpid
  if isInvalidAddr s.ker cr2 pid then do
    signal .pfSem
    let _ ← kill pid
    pure ()
  else do
    pfService pid cr2
    signal .pfSem

/-- The pieces of a call that is not interrupted are the call. -/
theorem vcreate_pieces (ssize hsize : Nat) (priority : Int) :
    vcreate ssize hsize priority = (do
      match ← vcreateEnter ssize hsize priority with
      | some (.creating pid saddr ssize hsize) => do
          wait .pfSem
          let pd ← directoryFrame pid
          vcreateLeave pid saddr ssize hsize pd
      | _ => pure sysErr) := by
  funext s
  obtain ⟨saddr, memlist, stack⟩ := getstk_returned s (stackSize ssize)
  unfold vcreate vcreateEnter
  simp only [bind_assoc]
  rw [bind_ok stack, bind_ok stack]
  split
  · rfl
  simp only [bind_assoc]
  rw [bind_ok (vcreate_newpid_returned _), bind_ok (vcreate_newpid_returned _)]
  split
  · rfl
  unfold vcreateSpace
  simp only [bind_assoc]
  rw [get_bind, get_bind]
  split
  · simp only [bind_assoc]
    rfl
  simp only [bind_assoc, pure_bind]
  refine congrArg (fun rest : Call Int => (modifyKer _ >>= fun _ => rest) _) ?_
  unfold initPd directoryFrame vcreateLeave
  simp only [bind_assoc]
  refine congrArg (wait .pfSem >>= ·) (funext fun _ => ?_)
  refine congrArg (getNewFrame _ _ _ >>= ·) (funext fun pd => ?_)
  refine congrArg (signal .pfSem >>= ·) (funext fun _ => ?_)
  have different : ok ≠ sysErr := by decide
  by_cases failed : pd = sysErrPtr
  · simp only [if_pos failed, pure_bind, if_true]
  · simp only [if_neg failed, bind_assoc, pure_bind, if_neg different]

theorem pf_handler_pieces (a : Nat) :
    pfHandler a = (do
      modifyKer fun ker => { ker with pfc := (ker.pfc + 1) % word32 }
      wait .pfSem
      pfServe a) := rfl

end Pieces

section Actions

/-- What the current process does next. -/
inductive Action where
  | create (ssize : Nat) (priority : Int)
  | vcreate (ssize hsize : Nat) (priority : Int)
  | kill (pid : Int)
  | fault (a : Nat)
  | resume (pid : Int)
  | resched (pid : Int)
  | proceed

/-- The current process is in the middle of a call. -/
def Callers.busy (x : Callers) : Bool := x.calls.any fun call => call.caller == x.st.ker.currpid

/-- A call of the current process waits for `pf_sem`. When it is blocked, it goes on at the
same point once it has been given the semaphore. -/
def Callers.lock (x : Callers) (point : Point) : Option Callers :=
  let call : Pending := { caller := x.st.ker.currpid, point := point }
  match wait .pfSem x.st with
  | .ok _ locked => some { st := locked, calls := call :: x.calls }
  | .error (.blocked _) blocked => some { st := blocked, calls := call :: x.calls }
  | .error _ _ => none

/-- The next piece of a call, with the process ID it returns. -/
def Callers.proceed (x : Callers) (call : Pending) : Option (Option Int × Callers) :=
  let others := x.calls.erase call
  match call.point with
  | .creating pid saddr ssize hsize =>
      match directoryFrame pid x.st with
      | .ok pd framed =>
          some (none, { st := framed, calls :=
            { call with point := .mapped pid saddr ssize hsize pd } :: others })
      | .error _ _ => none
  | .mapped pid saddr ssize hsize pd =>
      match vcreateLeave pid saddr ssize hsize pd x.st with
      | .ok status left =>
          some (if status = sysErr then none else some status, { st := left, calls := others })
      | .error _ _ => none
  | .serving a =>
      match pfServe a x.st with
      | .ok _ served => some (none, { st := served, calls := others })
      | .error _ _ => none

/-- One step: the process ID that a finished call returns, and the state after it. A process
that is killed does not go on with its call. -/
def act (x : Callers) : Action → Option (Option Int × Callers)
  | .create ssize priority =>
      if x.busy then none
      else match exec (.create ssize priority) x.st with
        | .ok (.status pid) made =>
            some (if pid = sysErr then none else some pid, { x with st := made })
        | _ => none
  | .vcreate ssize hsize priority =>
      if x.busy ∨ ¬Running x.st then none
      else match vcreateEnter ssize hsize priority x.st with
        | .ok none failed => some (none, { x with st := failed })
        | .ok (some point) entered => do
            let y ← Callers.lock { x with st := entered } point
            some (none, y)
        | .error _ _ => none
  | .kill pid =>
      if x.busy then none
      else match exec (.kill pid) x.st with
        | .ok (.status status) down => some (none, { st := down, calls :=
            if status = sysErr then x.calls else x.calls.filter fun call => call.caller != pid })
        | _ => none
  | .fault a =>
      if x.busy ∨ ¬Running x.st ∨ ¬Faults x.st a then none
      else do
        let counted := { x.st with ker := { x.st.ker with pfc := (x.st.ker.pfc + 1) % word32 } }
        let y ← Callers.lock { x with st := counted } (.serving a)
        some (none, y)
  | .resume pid =>
      if x.busy then none
      else match exec (.resume pid) x.st with
        | .ok _ resumed => some (none, { x with st := resumed })
        | .error _ _ => none
  | .resched pid =>
      match exec (.resched pid) x.st with
      | .ok _ switched => some (none, { x with st := switched })
      | .error _ _ => none
  | .proceed =>
      if Running x.st then do
        let call ← x.calls.find? fun call => call.caller == x.st.ker.currpid
        x.proceed call
      else none

/-- Any number of processes, each one in the middle of at most one call. -/
inductive Interleaved (start : St → Prop) (allowed : Callers → Action → Prop) : Callers → Prop
  | start {s : St} (started : start s) : Interleaved start allowed { st := s, calls := [] }
  | step {x y : Callers} {action : Action} {returned : Option Int}
      (run : Interleaved start allowed x) (may : allowed x action)
      (did : act x action = some (returned, y)) : Interleaved start allowed y

/-- Steps one after the other, as long as each of them is allowed and can be taken. -/
def runActions (allowed : Callers → Action → Prop) [∀ x action, Decidable (allowed x action)] :
    List Action → Callers → Option Callers
  | [], x => some x
  | action :: rest, x =>
      if allowed x action then (act x action).bind fun step => runActions allowed rest step.2
      else none

theorem run_actions {start : St → Prop} {allowed : Callers → Action → Prop}
    [∀ x action, Decidable (allowed x action)] {actions : List Action} {x y : Callers}
    (run : Interleaved start allowed x) (ran : runActions allowed actions x = some y) :
    Interleaved start allowed y := by
  induction actions generalizing x with
  | nil =>
      cases ran
      exact run
  | cons action rest induction =>
      unfold runActions at ran
      split at ran
      · rename_i may
        obtain ⟨⟨returned, middle⟩, did, ran⟩ := Option.bind_eq_some_iff.mp ran
        exact induction (.step run may did) ran
      · cases ran

end Actions

end Xinu.Processes.Creation
