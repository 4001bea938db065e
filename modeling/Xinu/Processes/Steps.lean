import Xinu.Processes.Undo
import Xinu.Processes.KernelVariables

/-!
# What a step of the system can do

One case for each thing that can happen when a step is taken and returns, with the
calls of the frame table and of the backing stores that it makes. The invariants of
whole runs are proved from these cases.
-/

namespace Xinu.Processes.Steps

open Xinu.Kernel.State Xinu.Kernel.Entry Xinu.Kernel.Semaphore Xinu.Kernel.Memory
open Xinu.Lib.StateError Xinu.Paging.Address Xinu.Paging.BackingStore Xinu.Paging.Ipt
open Xinu.Paging.Handler Xinu.Paging.Process Xinu.Paging.Cpu Xinu.Paging.System
open Xinu.Processes.Undo Xinu.Processes.KernelVariables

set_option autoImplicit false

/-- The kernel variables that failed calls leave behind. -/
def reserved (ker : Ker) (memlist : MemList) (createNext vcreateNext : Int) : Ker :=
  { ker with memlist := memlist, createNextpid := createNext, vcreateNextpid := vcreateNext }

/-- They are the same for a call that goes on, which has counted its process. -/
def entered (ker : Ker) (memlist : MemList) (createNext vcreateNext : Int) : Ker :=
  { reserved ker memlist createNext vcreateNext with prcount := ker.prcount + 1 }

/-- `create` has filled the entry of its process. -/
def createdKer (ker : Ker) (pid : Int) (saddr ssize : Nat) : Ker :=
  ker.setProc pid fun proc =>
    { proc with
      pd := ker.gpd
      vh := false
      hsize := 0
      prstate := .susp
      prstkbase := saddr
      prstklen := ssize
      prsem := none }

/-- `vcreate` has filled the entry of its process. -/
def vcreatedKer (ker : Ker) (pid : Int) (saddr ssize hsize : Nat) : Ker :=
  ker.setProc pid fun proc =>
    { proc with
      hsize := hsize
      vh := true
      prstate := .susp
      prstkbase := saddr
      prstklen := ssize
      prsem := none }

/-- The processor has gone from the current process to `pid`. -/
def switchedKer (ker : Ker) (pid : Int) : Ker :=
  let left := if (ker.proctab ker.currpid).prstate = .curr then ready ker ker.currpid else ker
  { left.setProc pid (fun proc => { proc with prstate := .curr }) with currpid := pid }

/-- Counting a page fault. -/
def counted (s : St) : St := { s with ker := { s.ker with pfc := (s.ker.pfc + 1) % word32 } }

section Scheduling

variable {pid : Int}

/-- `state` is a state that a step of the scheduler leads to. -/
def Reschedules (before state : PrState) : Prop :=
  (state = .free ↔ before = .free) ∧ (before = .wait → state = .wait)

theorem reschedules_refl (before : PrState) : Reschedules before before := ⟨Iff.rfl, id⟩

/-- A switch changes the states of the two processes only. -/
theorem switched_proc {ker : Ker} (target : (ker.proctab pid).prstate = .ready) (q : Int) :
    ∃ state, (switchedKer ker pid).proctab q = { ker.proctab q with prstate := state } ∧
      Reschedules (ker.proctab q).prstate state := by
  by_cases isTarget : q = pid
  · subst isTarget
    refine ⟨.curr, ?_, by simp [Reschedules, target]⟩
    by_cases running : (ker.proctab ker.currpid).prstate = .curr
    · by_cases same : q = ker.currpid
      · rw [same, running] at target
        cases target
      · simp [switchedKer, running, Ker.setProc, ready, Function.update_of_ne same]
    · simp [switchedKer, running, Ker.setProc]
  · by_cases running : (ker.proctab ker.currpid).prstate = .curr
    · by_cases same : q = ker.currpid
      · subst same
        refine ⟨.ready, ?_, by simp [Reschedules, running]⟩
        simp [switchedKer, running, Ker.setProc, ready, Function.update_of_ne isTarget]
      · refine ⟨(ker.proctab q).prstate, ?_, reschedules_refl _⟩
        simp [switchedKer, running, Ker.setProc, ready, Function.update_of_ne isTarget,
          Function.update_of_ne same]
    · refine ⟨(ker.proctab q).prstate, ?_, reschedules_refl _⟩
      simp [switchedKer, running, Ker.setProc, Function.update_of_ne isTarget]

theorem switched_ker (ker : Ker) (pid : Int) :
    switchedKer ker pid =
      { ker with proctab := (switchedKer ker pid).proctab, currpid := pid } := by
  unfold switchedKer
  split <;> rfl

theorem resumed_proc {ker : Ker} (suspended : (ker.proctab pid).prstate = .susp) (q : Int) :
    ∃ state, (ready ker pid).proctab q = { ker.proctab q with prstate := state } ∧
      Reschedules (ker.proctab q).prstate state := by
  by_cases here : q = pid
  · subst here
    exact ⟨.ready, by simp [ready, Ker.setProc], by simp [Reschedules, suspended]⟩
  · exact ⟨(ker.proctab q).prstate,
      by simp [ready, Ker.setProc, Function.update_of_ne here], reschedules_refl _⟩

/-- `kill` ends with a process table in which only the victim has changed. -/
theorem retire_proc (ker : Ker) (pid q : Int) :
    (retire ker pid).proctab q =
      if q = pid then { ker.proctab pid with prstate := .free } else ker.proctab q := by
  have freed : (ker.setProc pid fun proc => { proc with prstate := .free }).proctab q =
      if q = pid then { ker.proctab pid with prstate := .free } else ker.proctab q := by
    by_cases here : q = pid
    · subst here
      simp [Ker.setProc]
    · simp [Ker.setProc, here]
  unfold retire
  split <;> exact freed

theorem retire_ker (ker : Ker) (pid : Int) :
    retire ker pid =
      { ker with proctab := (retire ker pid).proctab, semtab := (retire ker pid).semtab } := by
  unfold retire
  split <;> rfl

end Scheduling

variable [Config]

/-- A slot that `newpid` can return. -/
def IsFree (s : St) (pid : Int) : Prop :=
  0 ≤ pid ∧ pid < nproc ∧ (s.ker.proctab pid).prstate = .free

/-- The resources of a process have been given back and its slot has been freed. -/
def TakenDown (pid : Int) (s final : St) : Prop :=
  ∃ memlist freed stored,
    freeProcFrames pid { s with ker := { s.ker with memlist := memlist } } = .ok () freed ∧
    freeProcBS pid freed = .ok ok stored ∧ final = { stored with ker := retire stored.ker pid }

/-- `kill` has taken a process down. -/
structure Killed (pid : Int) (s final : St) : Prop where
  valid : ¬isbadpid s.ker pid
  notNull : pid ≠ nullproc
  others : 1 < s.ker.prcount - 1
  stages : ∃ memlist freed stored,
    freeProcFrames pid { s with ker := { s.ker with
      prcount := s.ker.prcount - 1, memlist := memlist } } = .ok () freed ∧
    freeProcBS pid freed = .ok ok stored ∧ final = { stored with ker := retire stored.ker pid }

/-- `vcreate` has made a process. -/
structure Vcreated (pid : Int) (hsize : Nat) (s final : St) : Prop where
  slot : IsFree s pid
  enough : bsReq hsize ≤ s.ker.freeBsCount
  stages : ∃ memlist nextpid saddr ssize mapped stored,
    initPd pid { s with ker := entered s.ker memlist s.ker.createNextpid nextpid } =
      .ok ok mapped ∧
    bsInit pid hsize mapped = .ok ok stored ∧
    final = { stored with ker := vcreatedKer stored.ker pid saddr ssize hsize }

/-- What a step can do. -/
inductive Did (s : St) : Event → Reply → St → Prop
  | switched (pid : Int)
      (target : 0 ≤ pid ∧ pid < nproc ∧ (s.ker.proctab pid).prstate = .ready) :
      Did s (.resched pid) .done { s with ker := switchedKer s.ker pid }
  | resumed (pid : Int) (suspended : (s.ker.proctab pid).prstate = .susp) :
      Did s (.resume pid) (.status ok) { s with ker := ready s.ker pid }
  | refused (event : Event) (reply : Reply) (memlist : MemList) (createNext vcreateNext : Int)
      (hand : Nat) :
      Did s event reply
        { s with ker := reserved s.ker memlist createNext vcreateNext, fifoNextframe := hand }
  | created (ssize : Nat) (priority pid : Int) (slot : IsFree s pid) (memlist : MemList)
      (nextpid : Int) (saddr size : Nat) :
      Did s (.create ssize priority) (.status pid) { s with
        ker := createdKer (entered s.ker memlist nextpid s.ker.vcreateNextpid) pid saddr size }
  | vcreated (ssize hsize : Nat) (priority pid : Int) (final : St)
      (made : Vcreated pid hsize s final) :
      Did s (.vcreate ssize hsize priority) (.status pid) final
  | killed (pid : Int) (final : St) (down : Killed pid s final) :
      Did s (.kill pid) (.status ok) final
  | served (a : Nat) (final : St) (faults : Faults s a)
      (valid : isInvalidAddr s.ker a s.ker.currpid = false)
      (free : 1 ≤ (s.ker.semtab .pfSem).scount)
      (ran : pfService s.ker.currpid a { s with ker := taken (counted s).ker .pfSem } = .ok () final) :
      Did s (.fault a) .done { final with ker := (counted s).ker }
  | removed (a : Nat) (final : St) (faults : Faults s a)
      (invalid : isInvalidAddr s.ker a s.ker.currpid = true)
      (down : Killed s.ker.currpid (counted s) final) : Did s (.fault a) .done final
  | spared (a : Nat) (faults : Faults s a) : Did s (.fault a) .done (counted s)
  | loaded (a : Nat) (value : Byte) (final : St) (ran : load a s = .ok value final) :
      Did s (.load a) (.byte value) final
  | stored (a : Nat) (value : Byte) (final : St) (ran : store a value s = .ok () final) :
      Did s (.store a value) .done final
  | policy (policy status : Int) (final : St) (ran : srpolicy policy s = .ok status final) :
      Did s (.srpolicy policy) (.status status) final

variable {s final : St} {pid : Int}

theorem killed_down (down : Killed pid s final) :
    TakenDown pid { s with ker := { s.ker with prcount := s.ker.prcount - 1 } } final := down.stages

theorem not_bad (valid : ¬isbadpid s.ker pid) :
    0 ≤ pid ∧ pid < nproc ∧ (s.ker.proctab pid).prstate ≠ .free := by
  unfold isbadpid at valid
  refine ⟨?_, ?_, fun free => valid (Or.inr (Or.inr free))⟩
  · by_contra negative
    exact valid (Or.inl (by omega))
  · by_contra large
    exact valid (Or.inr (Or.inl (by omega)))

section Calls

omit [Config] in
/-- `freeProcBS` ignores what `deallocate_bs` returns. -/
theorem free_proc_bs_status {status : Int} (ran : freeProcBS pid s = .ok status final) :
    status = ok := by
  unfold freeProcBS at ran
  rw [get_bind] at ran
  split at ran
  · cases ran
    rfl
  · obtain ⟨_, middle, _, ran⟩ := bind_ok_inv ran
    cases ran
    rfl

theorem kill_inv {status : Int} (ran : kill pid s = .ok status final) :
    status = sysErr ∧ final = s ∨ status = ok ∧ Killed pid s final := by
  unfold kill at ran
  rw [get_bind] at ran
  split at ran
  · cases ran
    exact Or.inl ⟨rfl, rfl⟩
  · rename_i accepted
    obtain ⟨_, opened, openRan, ran⟩ := bind_ok_inv ran
    cases openRan
    split at ran
    · cases ran
    · rename_i others
      obtain ⟨code, memlist, stack⟩ := freestk_returned
        { s with ker := { s.ker with prcount := s.ker.prcount - 1 } }
        (s.ker.proctab pid).prstkbase (s.ker.proctab pid).prstklen
      rw [bind_ok stack] at ran
      obtain ⟨_, freed, framesRan, ran⟩ := bind_ok_inv ran
      obtain ⟨code, stored, storesRan, ran⟩ := bind_ok_inv ran
      cases ran
      have returned := free_proc_bs_status storesRan
      subst returned
      exact Or.inr ⟨rfl, fun bad => accepted (Or.inl bad), fun null => accepted (Or.inr null),
        by omega, memlist, freed, stored, framesRan, storesRan, rfl⟩

/-- `newpid` looks at the process table only. -/
theorem newpid_of_procs (ker after : Ker) (same : after.proctab = ker.proctab) (fuel : Nat)
    (nextpid : Int) : newpidFrom after fuel nextpid = newpidFrom ker fuel nextpid := by
  induction fuel generalizing nextpid with
  | zero => rfl
  | succ fuel induction =>
      unfold newpidFrom
      simp only [same, induction]

/-- A slot that `newpid` has found is free. -/
theorem newpid_found {nextpid : Int} (found : (newpidFrom s.ker nproc nextpid).1 ≠ sysErr) :
    IsFree s (newpidFrom s.ker nproc nextpid).1 := by
  have slot : FreeSlot s.ker := by
    by_contra full
    exact found ((newpid_fails_iff _ _).mpr full)
  obtain ⟨_, lower, upper, _⟩ := slot
  rcases newpid_free s.ker nproc nextpid (by omega) with failed | free
  · exact absurd failed found
  · exact free

theorem create_returned {ssize : Nat} {priority status : Int}
    (ran : create ssize priority s = .ok status final) :
    (status = sysErr ∧ ∃ memlist nextpid, final = { s with
        ker := reserved s.ker memlist nextpid s.ker.vcreateNextpid }) ∨
      (status = (newpidFrom s.ker nproc s.ker.createNextpid).1 ∧ IsFree s status ∧
        ∃ memlist nextpid saddr size, final = { s with
          ker := createdKer (entered s.ker memlist nextpid s.ker.vcreateNextpid) status saddr
            size }) := by
  obtain ⟨saddr, memlist, stack⟩ := getstk_returned s (stackSize ssize)
  unfold create at ran
  rw [bind_ok stack] at ran
  split at ran
  · cases ran
    exact Or.inl ⟨rfl, memlist, s.ker.createNextpid, rfl⟩
  · have same : newpidFrom { s.ker with memlist := memlist } nproc s.ker.createNextpid =
        newpidFrom s.ker nproc s.ker.createNextpid :=
      newpid_of_procs s.ker { s.ker with memlist := memlist } rfl nproc s.ker.createNextpid
    have pidRan : createNewpid { s with ker := { s.ker with memlist := memlist } } =
        .ok (newpidFrom s.ker nproc s.ker.createNextpid).1 { s with ker := { s.ker with
          memlist := memlist
          createNextpid := (newpidFrom s.ker nproc s.ker.createNextpid).2 } } := by
      rw [create_newpid_returned]
      simp only [same]
    rw [bind_ok pidRan] at ran
    split at ran
    · cases ran
      exact Or.inl ⟨rfl, memlist, _, rfl⟩
    · rename_i accepted
      obtain ⟨_, opened, openRan, ran⟩ := bind_ok_inv ran
      cases openRan
      obtain ⟨_, entered, enterRan, ran⟩ := bind_ok_inv ran
      cases enterRan
      cases ran
      exact Or.inr ⟨rfl, newpid_found fun failed => accepted (Or.inl failed), memlist, _, saddr,
        stackSize ssize, rfl⟩

theorem create_inv {ssize : Nat} {priority status : Int}
    (ran : create ssize priority s = .ok status final) :
    Did s (.create ssize priority) (.status status) final := by
  rcases create_returned ran with ⟨rfl, memlist, nextpid, rfl⟩ | ⟨_, slot, memlist, nextpid, saddr,
    size, rfl⟩
  · exact .refused _ _ memlist nextpid s.ker.vcreateNextpid s.fifoNextframe
  · exact .created ssize priority status slot memlist nextpid saddr size

theorem vcreate_returned {ssize hsize : Nat} {priority status : Int}
    (ran : vcreate ssize hsize priority s = .ok status final) :
    (status = sysErr ∧ ∃ memlist nextpid hand, final = { s with
        ker := reserved s.ker memlist s.ker.createNextpid nextpid
        fifoNextframe := hand }) ∨
      Vcreated status hsize s final := by
  obtain ⟨saddr, memlist, stack⟩ := getstk_returned s (stackSize ssize)
  unfold vcreate at ran
  rw [bind_ok stack] at ran
  split at ran
  · cases ran
    exact Or.inl ⟨rfl, memlist, s.ker.vcreateNextpid, s.fifoNextframe, rfl⟩
  have same : newpidFrom { s.ker with memlist := memlist } nproc s.ker.vcreateNextpid =
      newpidFrom s.ker nproc s.ker.vcreateNextpid :=
    newpid_of_procs s.ker { s.ker with memlist := memlist } rfl nproc s.ker.vcreateNextpid
  have pidRan : vcreateNewpid { s with ker := { s.ker with memlist := memlist } } =
      .ok (newpidFrom s.ker nproc s.ker.vcreateNextpid).1 { s with ker := { s.ker with
        memlist := memlist
        vcreateNextpid := (newpidFrom s.ker nproc s.ker.vcreateNextpid).2 } } := by
    rw [vcreate_newpid_returned]
    simp only [same]
  rw [bind_ok pidRan] at ran
  split at ran
  · cases ran
    exact Or.inl ⟨rfl, memlist, _, s.fifoNextframe, rfl⟩
  rename_i accepted
  have slot := newpid_found fun failed => accepted (Or.inl failed)
  unfold vcreateSpace at ran
  rw [get_bind] at ran
  split at ran
  · obtain ⟨code, memlist', given⟩ := freestk_returned
      { s with ker := { s.ker with memlist := memlist, vcreateNextpid := _ } } saddr
        (stackSize ssize)
    rw [bind_ok given] at ran
    cases ran
    exact Or.inl ⟨rfl, memlist', _, s.fifoNextframe, rfl⟩
  rename_i enough
  obtain ⟨_, opened, openRan, ran⟩ := bind_ok_inv ran
  cases openRan
  obtain ⟨code, mapped, directory, ran⟩ := bind_ok_inv ran
  split at ran
  · rename_i failed
    rw [failed] at directory
    obtain ⟨hand, rfl⟩ := init_pd_failed directory
    obtain ⟨code, memlist', given⟩ := freestk_returned
      { s with
        ker := { s.ker with
          memlist := memlist, vcreateNextpid := _, prcount := s.ker.prcount + 1 }
        fifoNextframe := hand } saddr (stackSize ssize)
    rw [bind_ok given] at ran
    cases ran
    have unchanged : s.ker.prcount + 1 - 1 = s.ker.prcount := by omega
    refine Or.inl ⟨rfl, memlist', (newpidFrom s.ker nproc s.ker.vcreateNextpid).2, hand, ?_⟩
    simp only [unchanged]
    rfl
  · rename_i succeeded
    have code_ok : code = ok := by
      rcases init_pd_ker directory with ⟨failed, _⟩ | ⟨worked, _⟩
      · exact absurd failed succeeded
      · exact worked
    subst code_ok
    obtain ⟨code, stored, stores, ran⟩ := bind_ok_inv ran
    have returned := bs_init_status stores
    subst returned
    rw [if_neg (by decide)] at ran
    obtain ⟨_, entered, enterRan, ran⟩ := bind_ok_inv ran
    cases enterRan
    cases ran
    exact Or.inr ⟨slot, Nat.le_of_not_lt enough, memlist, _, saddr, stackSize ssize, mapped, stored,
      directory, stores, rfl⟩

theorem vcreate_inv {ssize hsize : Nat} {priority status : Int}
    (ran : vcreate ssize hsize priority s = .ok status final) :
    Did s (.vcreate ssize hsize priority) (.status status) final := by
  rcases vcreate_returned ran with ⟨rfl, memlist, nextpid, hand, rfl⟩ | made
  · exact .refused _ _ memlist s.ker.createNextpid nextpid hand
  · exact .vcreated ssize hsize priority status final made

theorem pf_handler_inv {a : Nat} (faults : Faults s a) (ran : pfHandler a s = .ok () final) :
    Did s (.fault a) .done final := by
  obtain ⟨_, opened, openRan, ran⟩ := bind_ok_inv ran
  have isCounted : counted s = opened := by
    cases openRan
    rfl
  subst isCounted
  obtain ⟨_, locked, waited, ran⟩ := bind_ok_inv ran
  obtain ⟨free, rfl⟩ := wait_returned waited
  rw [get_bind] at ran
  split at ran
  · rename_i invalid
    rw [bind_ok (signal_taken free rfl)] at ran
    obtain ⟨status, down, killRan, ran⟩ := bind_ok_inv ran
    cases ran
    rcases kill_inv killRan with ⟨_, rfl⟩ | ⟨_, killed⟩
    · exact .spared a faults
    · exact .removed a _ faults invalid killed
  · rename_i valid
    obtain ⟨_, filled, service, ran⟩ := bind_ok_inv ran
    have ker : filled.ker = taken (counted s).ker .pfSem := pf_service_ker _ _ _ _ _ service
    rw [signal_taken free ker] at ran
    cases ran
    exact .served a filled faults (Bool.eq_false_iff.mpr valid) free service

end Calls

/-- A step that returns is a call of the current process that returns. -/
theorem exec_performed {event : Event} {reply : Reply} (ran : exec event s = .ok reply final) :
    perform event s = .ok reply final := by
  unfold exec at ran
  rw [get_bind] at ran
  cases event with
  | resched pid => exact ran
  | _ =>
      dsimp only at ran
      split at ran
      · exact ran
      · cases ran

theorem exec_did {event : Event} {reply : Reply} (ran : exec event s = .ok reply final) :
    Did s event reply final := by
  have performed := exec_performed ran
  cases event with
  | resched pid =>
      obtain ⟨_, middle, switchRan, performed⟩ := bind_ok_inv performed
      cases performed
      unfold resched at switchRan
      rw [get_bind] at switchRan
      split at switchRan
      · rename_i target
        split at switchRan
        · rename_i running
          cases switchRan
          have did := Did.switched pid target
          unfold switchedKer at did
          rw [if_pos running] at did
          exact did
        · rename_i idle
          cases switchRan
          have did := Did.switched pid target
          unfold switchedKer at did
          rw [if_neg idle] at did
          exact did
      · cases switchRan
  | resume pid =>
      obtain ⟨status, middle, resumeRan, performed⟩ := bind_ok_inv performed
      cases performed
      unfold resume at resumeRan
      rw [get_bind] at resumeRan
      split at resumeRan
      · cases resumeRan
        exact .refused _ _ _ _ _ _
      · rename_i accepted
        cases resumeRan
        refine .resumed pid ?_
        by_contra other
        exact accepted (Or.inr other)
  | create ssize priority =>
      obtain ⟨status, middle, createRan, performed⟩ := bind_ok_inv performed
      cases performed
      exact create_inv createRan
  | vcreate ssize hsize priority =>
      obtain ⟨status, middle, vcreateRan, performed⟩ := bind_ok_inv performed
      cases performed
      exact vcreate_inv vcreateRan
  | kill pid =>
      obtain ⟨status, middle, killRan, performed⟩ := bind_ok_inv performed
      cases performed
      rcases kill_inv killRan with ⟨rfl, rfl⟩ | ⟨rfl, killed⟩
      · exact .refused _ _ _ _ _ _
      · exact .killed pid _ killed
  | fault a =>
      unfold perform at performed
      dsimp only at performed
      rw [get_bind] at performed
      split at performed
      · rename_i faults
        obtain ⟨_, middle, handled, performed⟩ := bind_ok_inv performed
        cases performed
        exact pf_handler_inv faults handled
      · cases performed
  | load a =>
      obtain ⟨value, middle, loadRan, performed⟩ := bind_ok_inv performed
      cases performed
      exact .loaded a value _ loadRan
  | store a value =>
      obtain ⟨_, middle, storeRan, performed⟩ := bind_ok_inv performed
      cases performed
      exact .stored a value _ storeRan
  | srpolicy policy =>
      obtain ⟨status, middle, policyRan, performed⟩ := bind_ok_inv performed
      cases performed
      exact .policy policy status _ policyRan

end Xinu.Processes.Steps
