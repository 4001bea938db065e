import Xinu.Paging.Cpu
import Xinu.Paging.Process

/-!
# The running system

`initialize_paging`, `srpolicy` and the steps of a run: the calls of the current
process, its loads, stores and page faults, and the switch to another process.
Each call runs to completion before the next step.
-/

namespace Xinu.Paging.System

open Xinu.Kernel.State Xinu.Kernel.Entry Xinu.Kernel.Semaphore Xinu.Lib.StateError
open Xinu.Paging.Address Xinu.Paging.Ipt Xinu.Paging.Handler Xinu.Paging.Process Xinu.Paging.Cpu

set_option autoImplicit false

def fifo : Int := 3

def gca : Int := 4

def srpolicy (policy : Int) : Call Int := do
  if policy = fifo then do
    modifyKer fun ker => { ker with currpolicy := .fifo }
    pure ok
  else if policy = gca then do
    modifyKer fun ker => { ker with currpolicy := .gca }
    pure ok
  else pure sysErr

theorem srpolicy_returned {policy status : Int} {s final : St}
    (ran : srpolicy policy s = .ok status final) :
    final = { s with ker := { s.ker with currpolicy :=
      if policy = fifo then .fifo else if policy = gca then .gca else s.ker.currpolicy } } := by
  unfold srpolicy at ran
  by_cases isFifo : policy = fifo
  · rw [if_pos isFifo] at ran
    cases ran
    rw [if_pos isFifo]
  · rw [if_neg isFifo] at ran
    by_cases isGca : policy = gca
    · rw [if_pos isGca] at ran
      cases ran
      rw [if_neg isFifo, if_pos isGca]
    · rw [if_neg isGca] at ran
      cases ran
      rw [if_neg isFifo, if_neg isGca]

/-- `resume`, without the priority it returns. -/
def resume [Config] (pid : Int) : Call Int := do
  let s ← get
  if isbadpid s.ker pid ∨ (s.ker.proctab pid).prstate ≠ .susp then pure sysErr
  else do
    modifyKer fun ker => ready ker pid
    pure ok

/-- `resched` when it picks the process `pid` of the ready list. -/
def resched [Config] (pid : Int) : Call Unit := do
  let s ← get
  if 0 ≤ pid ∧ pid < nproc ∧ (s.ker.proctab pid).prstate = .ready then do
    if (s.ker.proctab s.ker.currpid).prstate = .curr then
      modifyKer fun ker => ready ker ker.currpid
    modifyKer fun ker =>
      { ker.setProc pid (fun proc => { proc with prstate := .curr }) with currpid := pid }
  else throw .disabled

/-- What `sysinit` leaves behind for `initialize_paging`. Memory, the disk, the
store table and the free memory list are arbitrary. -/
structure PowerOn (s : St) : Prop where
  currpid : s.ker.currpid = nullproc
  running : (s.ker.proctab nullproc).prstate = .curr
  others : ∀ pid, pid ≠ nullproc → (s.ker.proctab pid).prstate = .free
  noHeap : ∀ pid, (s.ker.proctab pid).vh = false ∧ (s.ker.proctab pid).hsize = 0
  server : s.ker.pageServerActive = false
  bsInit : s.ker.semtab .bsInitSem = { scount := 1, squeue := [] }
  nextpids : s.ker.createNextpid = 1 ∧ s.ker.vcreateNextpid = 1
  hands : s.fifoNextframe = 0 ∧ s.gcaNextframe = 0
  trace : s.trace = []

variable [Config]

/-- The opening of `initialize_paging`, up to `init_ipt`. -/
def initializeFrames : Call Unit := do
  modifyKer fun ker => { ker with currpolicy := .fifo }
  modify fun s => { s with flistHead := empty, flistTail := empty }
  modifyKer fun ker =>
    { ker.setSem .pfSem (fun _ => { scount := 1, squeue := [] }) with
      pfc := 0
      freeBsCount := maxBsEntries }
  initIpt

def initializePaging : Call Unit := do
  initializeFrames
  initGpt
  let _ ← initPd nullproc
  modifyKer fun ker => { ker with gpd := (ker.proctab nullproc).pd }

inductive Event where
  | resched (pid : Int)
  | resume (pid : Int)
  | create (ssize : Nat) (priority : Int)
  | vcreate (ssize hsize : Nat) (priority : Int)
  | kill (pid : Int)
  | fault (a : Nat)
  | load (a : Nat)
  | store (a : Nat) (value : Byte)
  | srpolicy (policy : Int)

inductive Reply where
  | done
  | status (value : Int)
  | byte (value : Byte)
  deriving DecidableEq

/-- Only a process that has the processor takes a step. -/
def Running (s : St) : Prop := (s.ker.proctab s.ker.currpid).prstate = .curr

instance (s : St) : Decidable (Running s) := inferInstanceAs (Decidable (_ = _))

/-- The processor faults on the addresses it cannot translate. -/
def Faults (s : St) (a : Nat) : Prop := a < word32 ∧ ¬Mapped s (currentPd s) a

instance (s : St) (a : Nat) : Decidable (Faults s a) := inferInstanceAs (Decidable (_ ∧ _))

/-- What the current process asks for. -/
def perform : Event → Call Reply
  | .resched pid => do resched pid; pure .done
  | .resume pid => do pure (.status (← resume pid))
  | .create ssize priority => do pure (.status (← create ssize priority))
  | .vcreate ssize hsize priority => do pure (.status (← vcreate ssize hsize priority))
  | .kill pid => do pure (.status (← kill pid))
  | .fault a => do
      let s ← get
      if Faults s a then do
        pfHandler a
        pure .done
      else throw .disabled
  | .load a => do pure (.byte (← load a))
  | .store a value => do store a value; pure .done
  | .srpolicy policy => do pure (.status (← srpolicy policy))

/-- A step of the system. After it has killed itself the current process is gone
and the only step left is the switch to another one. -/
def exec (event : Event) : Call Reply := do
  let s ← get
  match event with
  | .resched _ => perform event
  | _ => if Running s then perform event else throw .disabled

/-- The machine right after it has started with a replacement policy. -/
def Booted (policy : Int) (s : St) : Prop :=
  ∃ before, PowerOn before ∧ ∃ status, (do initializePaging; srpolicy policy) before = .ok status s

/-- The states reached by steps that are `allowed` in the state they are taken in. -/
inductive Run (start : St → Prop) (allowed : St → Event → Prop) : St → Prop
  | start {s : St} (started : start s) : Run start allowed s
  | step {s final : St} {event : Event} {reply : Reply} (run : Run start allowed s)
      (may : allowed s event) (ran : exec event s = .ok reply final) : Run start allowed final

theorem run_mono {start : St → Prop} {allowed allowed' : St → Event → Prop} {s : St}
    (wider : ∀ s event, allowed s event → allowed' s event) (run : Run start allowed s) :
    Run start allowed' s := by
  induction run with
  | start started => exact .start started
  | step _ may ran induction => exact .step induction (wider _ _ may) ran

/-- The policy stays the one the machine was started with. -/
def Fixed (_ : St) : Event → Prop
  | .srpolicy _ => False
  | _ => True

instance (s : St) (event : Event) : Decidable (Fixed s event) :=
  match event with
  | .srpolicy _ => isFalse id
  | .resched _ | .resume _ | .create .. | .vcreate .. | .kill _ | .fault _ | .load _
  | .store .. => isTrue trivial

abbrev SystemRun (policy : Int) : St → Prop := Run (Booted policy) Fixed

/-- Events one after the other, as long as each of them is allowed and returns. -/
def runEvents (allowed : St → Event → Prop) [∀ s event, Decidable (allowed s event)] :
    List Event → Call Unit
  | [] => pure ()
  | event :: rest => do
      let s ← get
      if allowed s event then do
        let _ ← exec event
        runEvents allowed rest
      else throw .disabled

theorem run_events {start : St → Prop} {allowed : St → Event → Prop}
    [∀ s event, Decidable (allowed s event)] {events : List Event} {s final : St}
    (run : Run start allowed s) (ran : runEvents allowed events s = .ok () final) :
    Run start allowed final := by
  induction events generalizing s with
  | nil =>
      cases ran
      exact run
  | cons event rest induction =>
      unfold runEvents at ran
      rw [get_bind] at ran
      split at ran
      · rename_i may
        obtain ⟨reply, middle, execRan, ran⟩ := bind_ok_inv ran
        exact induction (.step run may execRan) ran
      · cases ran

/-- The whole run of a machine, from the start of `initialize_paging`. -/
def bootAndRun (policy : Int) (allowed : St → Event → Prop) [∀ s event, Decidable (allowed s event)]
    (events : List Event) : Call Unit := do
  initializePaging
  let _ ← srpolicy policy
  runEvents allowed events

theorem boot_and_run {policy : Int} {allowed : St → Event → Prop}
    [∀ s event, Decidable (allowed s event)] {events : List Event} {before final : St}
    (on : PowerOn before) (ran : bootAndRun policy allowed events before = .ok () final) :
    Run (Booted policy) allowed final := by
  obtain ⟨_, paged, initRan, ran⟩ := bind_ok_inv ran
  obtain ⟨status, booted, policyRan, ran⟩ := bind_ok_inv ran
  exact run_events (.start ⟨before, on, status, (bind_ok initRan _).trans policyRan⟩) ran

/-- A machine that is switched on: only the null process, and zeros everywhere. -/
def blankMachine : St where
  ker :=
    { proctab := fun pid =>
        { prstate := if pid = nullproc then .curr else .free
          prstkbase := 0
          prstklen := 0
          prsem := none
          pd := 0
          hsize := 0
          vh := false
          pbsd := fun _ => 0 }
      currpid := nullproc
      prcount := 1
      currpolicy := .fifo
      semtab := fun _ => { scount := 1, squeue := [] }
      bstab := fun _ => { isopen := false, isallocated := false, usecount := 0, npages := 0 }
      pageServerActive := false
      freeBsCount := 0
      gpt := fun _ => 0
      dpt := 0
      gpd := 0
      pfc := 0
      createNextpid := 1
      vcreateNextpid := 1
      memlist := { mlength := 0x100000, blocks := [(0x200000, 0x100000)] }
      minheap := 0x100000
      maxheap := 0x3fffff }
  ipt := fun _ => clearedFrame
  flistHead := 0
  flistTail := 0
  fifoNextframe := 0
  gcaNextframe := 0
  mem := fun _ _ => 0
  disk := fun _ _ => 0
  trace := []

omit [Config] in
theorem power_on_blank : PowerOn blankMachine where
  currpid := rfl
  running := rfl
  others := by
    intro pid different
    simp [blankMachine, different]
  noHeap := fun _ => ⟨rfl, rfl⟩
  server := rfl
  bsInit := rfl
  nextpids := ⟨rfl, rfl⟩
  hands := ⟨rfl, rfl⟩
  trace := rfl

/-- Builds with a small frame table. -/
abbrev smallConfig (frames : Nat) (enough : 6 ≤ frames) (fits : frames ≤ 3072) : Config where
  nframes := frames
  nproc := 8
  bootFrames := enough
  frameSpace := fits

end Xinu.Paging.System
