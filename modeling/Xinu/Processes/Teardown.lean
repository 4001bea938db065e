import Xinu.Paging.System

/-!
# Processes that are killed at the same time

`kill` sends a message to the parent of its victim before it releases anything. When the
parent was waiting for a message it becomes ready, and the killer can lose the processor in
the middle of `kill`. Here `kill` is cut at this point, and between its two pieces other
processes run. Two counters of ghost state say which incarnation of a slot is alive and
which ones have had their resources released.
-/

namespace Xinu.Processes.Teardown

open Xinu.Kernel.State Xinu.Kernel.Semaphore Xinu.Kernel.Memory Xinu.Lib.StateError
open Xinu.Paging.BackingStore Xinu.Paging.Ipt Xinu.Paging.Process Xinu.Paging.System

set_option autoImplicit false

/-- The fields of `procent` that `send` and `receive` use. -/
structure Mail where
  prparent : Int
  prhasmsg : Bool
  prmsg : Int

inductive Resource where
  | stack
  | frames
  | stores
  deriving DecidableEq

/-- A `kill` that has been switched out in `send`. -/
structure Killing where
  killer : Int
  victim : Int
  incarnation : Nat
  deriving DecidableEq

/-- `born` counts the processes that a slot has held so far, and `released` lists what has
been released of which one. -/
structure Killers where
  st : St
  mail : Int → Mail
  kills : List Killing
  born : Int → Nat
  released : List (Int × Nat × Resource)

variable [Config]

section Pieces

/-- `kill` behind its `send`. -/
def takeDown (pid : Int) : Call Unit := do
  let s ← get
  let _ ← freestk (s.ker.proctab pid).prstkbase (s.ker.proctab pid).prstklen
  freeProcFrames pid
  let _ ← freeProcBS pid
  modifyKer fun ker => retire ker pid

/-- `kill` is its two pieces when the message does not matter. -/
theorem kill_pieces (pid : Int) :
    kill pid = (do
      let s ← get
      if isbadpid s.ker pid ∨ pid = nullproc then pure sysErr
      else do
        modifyKer fun ker => { ker with prcount := ker.prcount - 1 }
        if s.ker.prcount - 1 ≤ 1 then throw .halt
        else do
          takeDown pid
          pure ok) := by
  funext s
  unfold kill takeDown
  rw [get_bind, get_bind]
  split
  · rfl
  · simp only [modifyKer, modify_bind]
    split
    · rfl
    · simp only [bind_assoc, get_bind]

end Pieces

section Actions

/-- What the current process does next. A process exits with `kill` of itself. -/
inductive Action where
  | create (ssize : Nat) (priority : Int)
  | vcreate (ssize hsize : Nat) (priority : Int)
  | kill (pid : Int)
  | receive
  | resume (pid : Int)
  | resched (pid : Int)
  | proceed

/-- `send`, and whether it has made the recipient ready. -/
def Killers.send (x : Killers) (pid msg : Int) : Killers × Bool :=
  if isbadpid x.st.ker pid ∨ (x.mail pid).prhasmsg = true then (x, false)
  else
    let told := { x with
      mail := Function.update x.mail pid { x.mail pid with prhasmsg := true, prmsg := msg } }
    if (x.st.ker.proctab pid).prstate = .recv ∨ (x.st.ker.proctab pid).prstate = .rectim then
      ({ told with st := { x.st with ker := ready x.st.ker pid } }, true)
    else (told, false)

/-- The second piece of `kill`. A process that is gone does not go on with a `kill`. -/
def Killers.release (x : Killers) (pid : Int) : Option Killers :=
  match takeDown pid x.st with
  | .ok _ down =>
      some { x with
        st := down
        kills := x.kills.filter fun killing => killing.killer != pid
        released := (pid, x.born pid, .stores) :: (pid, x.born pid, .frames) ::
          (pid, x.born pid, .stack) :: x.released }
  | .error _ _ => none

/-- A new process in a slot. -/
def Killers.enter (x : Killers) (pid : Int) (st : St) : Killers :=
  { x with
    st := st
    mail := Function.update x.mail pid
      { x.mail pid with prparent := x.st.ker.currpid, prhasmsg := false }
    born := Function.update x.born pid (x.born pid + 1) }

/-- The current process is in the middle of a `kill`. -/
def Killers.busy (x : Killers) : Bool :=
  x.kills.any fun killing => killing.killer == x.st.ker.currpid

/-- `kill` up to the point where it can be switched out, and further when it is not. -/
def Killers.kill (x : Killers) (pid : Int) : Option Killers :=
  if isbadpid x.st.ker pid ∨ pid = nullproc then some x
  else
    let less := { x.st with ker := { x.st.ker with prcount := x.st.ker.prcount - 1 } }
    if less.ker.prcount ≤ 1 then none
    else
      let (told, woken) := Killers.send { x with st := less } (x.mail pid).prparent pid
      if woken then
        some { told with kills :=
          { killer := x.st.ker.currpid, victim := pid, incarnation := x.born pid } :: told.kills }
      else told.release pid

/-- One step. A process that asks for a message and has none asks again when it has been
made ready. -/
def act (x : Killers) : Action → Option Killers
  | .create ssize priority =>
      if x.busy then none
      else match exec (.create ssize priority) x.st with
        | .ok (.status pid) made => some (if pid = sysErr then { x with st := made }
            else x.enter pid made)
        | _ => none
  | .vcreate ssize hsize priority =>
      if x.busy then none
      else match exec (.vcreate ssize hsize priority) x.st with
        | .ok (.status pid) made => some (if pid = sysErr then { x with st := made }
            else x.enter pid made)
        | _ => none
  | .kill pid => if x.busy ∨ ¬Running x.st then none else x.kill pid
  | .receive =>
      if x.busy ∨ ¬Running x.st then none
      else if (x.mail x.st.ker.currpid).prhasmsg = true then
        let read := { x.mail x.st.ker.currpid with prhasmsg := false }
        some { x with mail := Function.update x.mail x.st.ker.currpid read }
      else
        let asking := x.st.ker.setProc x.st.ker.currpid fun proc => { proc with prstate := .recv }
        some { x with st := { x.st with ker := asking } }
  | .resume pid =>
      if x.busy then none
      else match exec (.resume pid) x.st with
        | .ok _ resumed => some { x with st := resumed }
        | .error _ _ => none
  | .resched pid =>
      match exec (.resched pid) x.st with
      | .ok _ switched => some { x with st := switched }
      | .error _ _ => none
  | .proceed =>
      if Running x.st then do
        let killing ← x.kills.find? fun killing => killing.killer == x.st.ker.currpid
        Killers.release { x with kills := x.kills.erase killing } killing.victim
      else none

inductive Interleaved (start : Killers → Prop) (allowed : Killers → Action → Prop) : Killers → Prop
  | start {x : Killers} (started : start x) : Interleaved start allowed x
  | step {x y : Killers} {action : Action} (run : Interleaved start allowed x)
      (may : allowed x action) (did : act x action = some y) : Interleaved start allowed y

/-- Steps one after the other, as long as each of them is allowed and can be taken. -/
def runActions (allowed : Killers → Action → Prop) [∀ x action, Decidable (allowed x action)] :
    List Action → Killers → Option Killers
  | [], x => some x
  | action :: rest, x =>
      if allowed x action then (act x action).bind (runActions allowed rest) else none

theorem run_actions {start : Killers → Prop} {allowed : Killers → Action → Prop}
    [∀ x action, Decidable (allowed x action)] {actions : List Action} {x y : Killers}
    (run : Interleaved start allowed x) (ran : runActions allowed actions x = some y) :
    Interleaved start allowed y := by
  induction actions generalizing x with
  | nil =>
      cases ran
      exact run
  | cons action rest induction =>
      unfold runActions at ran
      split at ran
      · rename_i may
        obtain ⟨middle, did, ran⟩ := Option.bind_eq_some_iff.mp ran
        exact induction (.step run may did) ran
      · cases ran

end Actions

end Xinu.Processes.Teardown
