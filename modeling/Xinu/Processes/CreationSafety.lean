import Mathlib.Algebra.GroupWithZero.Nat
import Mathlib.Algebra.Order.BigOperators.Group.List
import Mathlib.Algebra.Order.Group.Nat
import Xinu.Processes.Creation
import Xinu.Replacement.FifoResults
import Xinu.Swap.Conservation

/-!
# Which creations do not disturb each other

A `vcreate` call in progress has chosen a slot of the process table that is still free,
and it still needs the backing stores for which it was admitted. As long as no other call
is given that slot, and the free stores cover what all calls in progress need, every call
fills a free slot and finds its stores.
-/

namespace Xinu.Processes.CreationSafety

open Xinu.Kernel.State Xinu.Kernel.Semaphore Xinu.Kernel.Memory Xinu.Lib.Counting
open Xinu.Lib.StateError Xinu.Paging.Address Xinu.Paging.BackingStore Xinu.Paging.Ipt
open Xinu.Paging.Handler Xinu.Paging.Process Xinu.Paging.Cpu Xinu.Paging.System
open Xinu.Processes.Creation Xinu.Processes.KernelVariables Xinu.Processes.Steps
open Xinu.Processes.Undo Xinu.Replacement.FifoResults Xinu.Replacement.FifoRuns
open Xinu.Replacement.SystemCalls
open Xinu.Swap.Ledger Xinu.Swap.Allocation Xinu.Swap.Conservation

set_option autoImplicit false

/-- The slot that a call in progress will fill. -/
def slotOf : Point → Option Int
  | .creating pid _ _ _ => some pid
  | .mapped pid _ _ _ pd => if pd = sysErrPtr then none else some pid
  | .serving _ => none

/-- The backing stores that a call in progress will take. -/
def needOf : Point → Nat
  | .creating _ _ _ hsize => bsReq hsize
  | .mapped _ _ _ hsize pd => if pd = sysErrPtr then 0 else bsReq hsize
  | .serving _ => 0

/-- The slots that are promised, and the stores that are. -/
def promised (calls : List Pending) : List Int := calls.filterMap fun call => slotOf call.point

def needed (calls : List Pending) : Nat := (calls.map fun call => needOf call.point).sum

variable [Config]

/-- A call that is about to choose a slot gets none that is promised, and a `vcreate` call
that is admitted leaves the stores that are. -/
def KeepsPromises (x : Callers) : Action → Prop
  | .create _ _ => (newpidFrom x.st.ker nproc x.st.ker.createNextpid).1 ∉ promised x.calls
  | .vcreate _ hsize _ =>
      (newpidFrom x.st.ker nproc x.st.ker.vcreateNextpid).1 ∉ promised x.calls ∧
        (x.st.ker.freeBsCount < bsReq hsize ∨
          bsReq hsize + needed x.calls ≤ x.st.ker.freeBsCount)
  | _ => True

instance decideKeepsPromises (x : Callers) (action : Action) : Decidable (KeepsPromises x action) :=
  match action with
  | .create _ _ => inferInstanceAs (Decidable (_ ∉ _))
  | .vcreate _ _ _ => inferInstanceAs (Decidable (_ ∧ _))
  | .kill _ | .fault _ | .resume _ | .resched _ | .proceed => isTrue trivial

/-- What creation must never do: return the ID of a process that is still live, or admit
heaps that need more stores than there are. -/
structure CreationSafe (x : Callers) : Prop where
  fresh : ∀ action pid y, act x action = some (some pid, y) →
    (x.st.ker.proctab pid).prstate = .free
  enough : needed x.calls ≤ x.st.ker.freeBsCount
  counted : x.st.ker.freeBsCount = count maxBsEntries (unallocated x.st.ker)

/-- The calls that wait for `pf_sem` belong to processes that wait for it. -/
structure Queued (ker : Ker) : Prop where
  waiting : ∀ q ∈ (ker.semtab .pfSem).squeue,
    (ker.proctab q).prstate = .wait ∧ (ker.proctab q).prsem = some .pfSem
  once : (ker.semtab .pfSem).squeue.Nodup

structure Promises (x : Callers) : Prop where
  stores : StoresKept x.st
  queued : Queued x.st.ker
  slots : ∀ pid ∈ promised x.calls, IsFree x.st pid
  distinct : (promised x.calls).Nodup
  enough : needed x.calls ≤ x.st.ker.freeBsCount

section Queue

variable {s final : St} {pid : Int}

omit [Config] in
/-- A step that touches none of the waiting processes. -/
theorem queued_of_procs {ker after : Ker} (queued : Queued ker)
    (queue : (after.semtab .pfSem).squeue = (ker.semtab .pfSem).squeue)
    (procs : ∀ q, (ker.proctab q).prstate = .wait → after.proctab q = ker.proctab q) :
    Queued after := by
  refine ⟨?_, ?_⟩
  · intro q member
    rw [queue] at member
    obtain ⟨waiting, sem⟩ := queued.waiting q member
    rw [procs q waiting]
    exact ⟨waiting, sem⟩
  · rw [queue]
    exact queued.once

omit [Config] in
theorem queued_retire {ker : Ker} (queued : Queued ker) (pid : Int) : Queued (retire ker pid) := by
  have table := retire_proc ker pid
  have others : ∀ q, q ≠ pid → (retire ker pid).proctab q = ker.proctab q :=
    fun q other => (table q).trans (if_neg other)
  have queue : ((retire ker pid).semtab .pfSem).squeue = (ker.semtab .pfSem).squeue.erase pid := by
    by_cases member : pid ∈ (ker.semtab .pfSem).squeue
    · obtain ⟨waiting, sem⟩ := queued.waiting pid member
      unfold retire
      rw [waiting, sem]
      simp [Ker.setSem, Ker.setProc]
    · rw [List.erase_of_not_mem member]
      unfold retire
      split
      · rename_i sem _ _
        by_cases same : sem = .pfSem
        · subst same
          simp [Ker.setSem, Ker.setProc, List.erase_of_not_mem member]
        · simp [Ker.setSem, Ker.setProc, Function.update_of_ne (Ne.symm same)]
      · rfl
  refine ⟨?_, ?_⟩
  · intro q member
    rw [queue] at member
    have other : q ≠ pid := by
      rintro rfl
      exact (List.Nodup.not_mem_erase queued.once) member
    rw [others q other]
    exact queued.waiting q (List.mem_of_mem_erase member)
  · rw [queue]
    exact queued.once.erase pid

/-- Only the scheduling states of live processes and the semaphores have changed. -/
structure Moved (ker after : Ker) : Prop where
  views : ∀ q, heapView (after.proctab q) = heapView (ker.proctab q)
  table : after.bstab = ker.bstab
  free : after.freeBsCount = ker.freeBsCount
  server : after.pageServerActive = ker.pageServerActive

omit [Config] in
/-- A process that is not free changes to another state that is not free. -/
theorem moved_set_proc (ker : Ker) {change : Procent → Procent}
    (same : heapView (change (ker.proctab pid)) = heapView (ker.proctab pid)) :
    Moved ker (ker.setProc pid change) := by
  refine ⟨fun q => ?_, rfl, rfl, rfl⟩
  by_cases here : q = pid
  · subst here
    simpa [Ker.setProc] using same
  · simp [Ker.setProc, Function.update_of_ne here]

omit [Config] in
/-- A call that waits for `pf_sem` either gets it or is put into its queue. -/
theorem wait_moved (running : Running s) (queued : Queued s.ker)
    (waited : wait .pfSem s = .ok () final ∨ ∃ stop, wait .pfSem s = .error stop final) :
    Moved s.ker final.ker ∧ Queued final.ker := by
  by_cases free : 1 ≤ (s.ker.semtab .pfSem).scount
  · rw [wait_free free] at waited
    have got : final = { s with ker := taken s.ker .pfSem } := by
      rcases waited with same | ⟨stop, stopped⟩
      · cases same
        rfl
      · cases stopped
    subst got
    refine ⟨⟨fun _ => rfl, rfl, rfl, rfl⟩, queued_of_procs queued ?_ fun _ _ => rfl⟩
    simp [taken, Ker.setSem]
  · obtain ⟨blocked, stopped, ker⟩ := wait_held (s := s) .pfSem (by omega)
    rw [stopped] at waited
    have got : final = blocked := by
      rcases waited with same | ⟨stop, same⟩
      · cases same
      · cases same
        rfl
    subst got
    have notQueued : s.ker.currpid ∉ (s.ker.semtab .pfSem).squeue := by
      intro member
      have waiting := (queued.waiting _ member).1
      rw [running] at waiting
      cases waiting
    have queue : (final.ker.semtab .pfSem).squeue =
        (s.ker.semtab .pfSem).squeue ++ [s.ker.currpid] := by
      rw [ker]
      simp [Ker.setSem, Ker.setProc, taken]
    rw [ker]
    refine ⟨?_, ?_⟩
    · have moved : Moved s.ker (s.ker.setProc s.ker.currpid fun proc =>
          { proc with prstate := .wait, prsem := some .pfSem }) :=
        moved_set_proc s.ker (by rw [Running] at running; simp [heapView, running])
      exact ⟨moved.views, rfl, rfl, rfl⟩
    · rw [← ker]
      refine ⟨?_, ?_⟩
      · intro q member
        rw [queue, List.mem_append, List.mem_singleton] at member
        rw [ker]
        rcases member with before | rfl
        · have other : q ≠ s.ker.currpid := by
            rintro rfl
            exact notQueued before
          simpa [Ker.setSem, Ker.setProc, taken, Function.update_of_ne other] using
            queued.waiting q before
        · simp [Ker.setSem, Ker.setProc, taken]
      · rw [queue]
        exact List.nodup_append.mpr ⟨queued.once, List.nodup_singleton _, by
          rintro a member b here rfl
          rw [List.mem_singleton] at here
          exact notQueued (here ▸ member)⟩

omit [Config] in
/-- `signal` makes the first process of the queue ready. -/
theorem signal_moved (queued : Queued s.ker) (ran : signal .pfSem s = .ok () final) :
    Moved s.ker final.ker ∧ Queued final.ker := by
  unfold signal at ran
  simp only [modifyKer, get_bind, modify_bind] at ran
  have unblocked : ∀ {t : St}, t = { s with ker := s.ker.setSem .pfSem fun sentry =>
      { sentry with scount := sentry.scount + 1 } } → Moved s.ker t.ker ∧ Queued t.ker := by
    rintro t rfl
    refine ⟨⟨fun _ => rfl, rfl, rfl, rfl⟩, queued_of_procs queued ?_ fun _ _ => rfl⟩
    simp [Ker.setSem]
  split at ran
  · cases queue : (s.ker.semtab .pfSem).squeue with
    | nil =>
      rw [queue] at ran
      cases ran
      exact unblocked rfl
    | cons first rest =>
      rw [queue] at ran
      cases ran
      have waiting := queued.waiting first (by rw [queue]; exact List.mem_cons_self)
      have once := queued.once
      rw [queue, List.nodup_cons] at once
      refine ⟨?_, ?_, ?_⟩
      · have moved : Moved s.ker (s.ker.setProc first fun proc => { proc with prstate := .ready }) :=
          moved_set_proc s.ker (by simp [heapView, waiting.1])
        exact ⟨moved.views, rfl, rfl, rfl⟩
      · intro q member
        simp only [ready, Ker.setProc, Ker.setSem, Function.update_self] at member
        have other : q ≠ first := by
          rintro rfl
          exact once.1 member
        simpa [ready, Ker.setProc, Ker.setSem, Function.update_of_ne other] using
          queued.waiting q (by rw [queue]; exact List.mem_cons_of_mem _ member)
      · simpa [ready, Ker.setProc, Ker.setSem] using once.2
  · cases ran
    exact unblocked rfl

end Queue

section Pieces

variable {s final : St} {pid : Int}

theorem vcreate_enter_inv {ssize hsize : Nat} {priority : Int} {result : Option Point}
    (ran : vcreateEnter ssize hsize priority s = .ok result final) :
    (result = none ∧ ∃ memlist nextpid, final = { s with
        ker := reserved s.ker memlist s.ker.createNextpid nextpid }) ∨
      ∃ pid saddr memlist nextpid, result = some (.creating pid saddr (stackSize ssize) hsize) ∧
        pid = (newpidFrom s.ker nproc s.ker.vcreateNextpid).1 ∧ IsFree s pid ∧
        bsReq hsize ≤ s.ker.freeBsCount ∧ final = { s with
          ker := entered s.ker memlist s.ker.createNextpid nextpid } := by
  obtain ⟨saddr, memlist, stack⟩ := getstk_returned s (stackSize ssize)
  unfold vcreateEnter at ran
  rw [bind_ok stack] at ran
  split at ran
  · cases ran
    exact Or.inl ⟨rfl, memlist, s.ker.vcreateNextpid, rfl⟩
  have same : newpidFrom { s.ker with memlist := memlist } nproc s.ker.vcreateNextpid =
      newpidFrom s.ker nproc s.ker.vcreateNextpid :=
    newpid_of_procs s.ker { s.ker with memlist := memlist } rfl nproc s.ker.vcreateNextpid
  have pidRan : vcreateNewpid { s with ker := { s.ker with memlist := memlist } } =
      .ok (newpidFrom s.ker nproc s.ker.vcreateNextpid).1 { s with ker := { s.ker with
        memlist := memlist
        vcreateNextpid := (newpidFrom s.ker nproc s.ker.vcreateNextpid).2 } } := by
    rw [vcreate_newpid_returned]
    simp only [same]
  rw [bind_ok pidRan] at ran
  split at ran
  · cases ran
    exact Or.inl ⟨rfl, memlist, _, rfl⟩
  rename_i accepted
  rw [get_bind] at ran
  split at ran
  · obtain ⟨code, memlist', given⟩ := freestk_returned { s with ker := { s.ker with
        memlist := memlist
        vcreateNextpid := (newpidFrom s.ker nproc s.ker.vcreateNextpid).2 } } saddr (stackSize ssize)
    rw [bind_ok given] at ran
    cases ran
    exact Or.inl ⟨rfl, memlist', _, rfl⟩
  · rename_i enough
    obtain ⟨_, counted, countRan, ran⟩ := bind_ok_inv ran
    cases countRan
    cases ran
    exact Or.inr ⟨_, saddr, memlist, _, rfl, rfl,
      newpid_found fun failed => accepted (Or.inl failed), Nat.le_of_not_lt enough, rfl⟩

theorem directory_frame_moved {pd : Nat} (queued : Queued s.ker)
    (ran : directoryFrame pid s = .ok pd final) : Moved s.ker final.ker ∧ Queued final.ker := by
  obtain ⟨_, framed, frameRan, ran⟩ := bind_ok_inv ran
  obtain ⟨_, given, signalRan, ran⟩ := bind_ok_inv ran
  cases ran
  have same : framed.ker = s.ker := get_new_frame_ker _ _ _ _ _ _ frameRan
  rw [← same] at queued ⊢
  exact signal_moved queued signalRan

/-- The end of a `vcreate` call whose slot is free and whose stores are there. -/
theorem vcreate_leave_inv {saddr ssize hsize pd : Nat} {status : Int} (kept : StoresKept s)
    (slot : IsFree s pid) (enough : bsReq hsize ≤ s.ker.freeBsCount) (made : pd ≠ sysErrPtr)
    (ran : vcreateLeave pid saddr ssize hsize pd s = .ok status final) :
    status = pid ∧ StoresKept final ∧ Joined pid hsize s final ∧
      final.ker.freeBsCount + bsReq hsize = s.ker.freeBsCount ∧
      final.ker.semtab .pfSem = s.ker.semtab .pfSem := by
  unfold vcreateLeave at ran
  rw [if_neg made] at ran
  obtain ⟨_, entered, enterRan, ran⟩ := bind_ok_inv ran
  obtain ⟨_, mapped, mapRan, ran⟩ := bind_ok_inv ran
  have ker : mapped.ker = s.ker.setProc pid fun proc => { proc with pd := pd } := by
    cases enterRan
    cases mapRan
    rfl
  obtain ⟨code, stored, stores, ran⟩ := bind_ok_inv ran
  have returned := bs_init_status stores
  subst returned
  rw [if_neg (by decide)] at ran
  obtain ⟨_, filled, fillRan, ran⟩ := bind_ok_inv ran
  cases fillRan
  cases ran
  have lock : stored.ker.semtab .pfSem = mapped.ker.semtab .pfSem :=
    congrArg Prod.snd (keeps_ok (keeps_lock (keeps_bs_init pid hsize)) stores)
  have mappedStores : Stores mapped.ker (share s.ker) := by
    rw [ker]
    refine stores_congr kept ?_ (fun _ _ => rfl) rfl rfl
    intro q j _
    by_cases here : q = pid
    · subst here
      simp [Ker.setProc]
    · simp [Ker.setProc, Function.update_of_ne here]
  have others : ∀ q, q ≠ pid → mapped.ker.proctab q = s.ker.proctab q := by
    intro q other
    rw [ker]
    exact Function.update_of_ne other ..
  have free : mapped.ker.freeBsCount = s.ker.freeBsCount := by rw [ker]; rfl
  rw [← free] at enough ⊢
  obtain ⟨finalKept, joined, counted, _⟩ :=
    entered_kept mappedStores (fun j => share_free slot.2.2) enough others stores rfl
  refine ⟨rfl, finalKept, joined, counted, ?_⟩
  rw [ker] at lock
  exact lock

omit [Config] in
theorem vcreate_leave_failed {saddr ssize hsize : Nat} {status : Int}
    (ran : vcreateLeave pid saddr ssize hsize sysErrPtr s = .ok status final) :
    status = sysErr ∧ Moved s.ker final.ker ∧ final.ker.semtab = s.ker.semtab ∧
      final.ker.proctab = s.ker.proctab := by
  unfold vcreateLeave at ran
  rw [if_pos rfl] at ran
  obtain ⟨code, memlist, given⟩ := freestk_returned s saddr ssize
  rw [bind_ok given] at ran
  cases ran
  exact ⟨rfl, ⟨fun _ => rfl, rfl, rfl, rfl⟩, rfl, rfl⟩

/-- What is left of `kill` once its victim has been taken down. -/
structure Gone (s final : St) : Prop where
  stores : StoresKept final
  queued : Queued final.ker
  slots : ∀ q, IsFree s q → IsFree final q
  frees : s.ker.freeBsCount ≤ final.ker.freeBsCount

theorem killed_gone (kept : StoresKept s) (queued : Queued s.ker) (down : Killed pid s final) :
    Gone s final := by
  have counted : StoresKept { s with ker := { s.ker with prcount := s.ker.prcount - 1 } } :=
    kept_of_ker kept rfl rfl rfl rfl
  obtain ⟨finalKept, left, ker, procs, lock, _, _, same⟩ :=
    taken_down_kept counted (not_bad down.valid).2.2 (killed_down down)
  have frees := left_frees counted finalKept left
  refine ⟨finalKept, ?_, ?_, frees⟩
  · rw [same]
    refine queued_retire (queued_of_procs queued ?_ ?_) pid
    · rw [lock]
    · intro q _
      rw [procs]
  · rintro q ⟨lower, upper, free⟩
    refine ⟨lower, upper, ?_⟩
    by_cases here : q = pid
    · rw [here]
      exact left.dead
    · rw [left.others q here]
      exact free

end Pieces

section Steps

variable {x y : Callers}

/-- The promises are kept when nothing but scheduling states and semaphores change, or
more slots and stores become free, and no more is promised. -/
theorem promises_kept {st : St} {calls : List Pending} (promises : Promises x)
    (stores : StoresKept st) (queued : Queued st.ker) (slots : ∀ q, IsFree x.st q → IsFree st q)
    (frees : x.st.ker.freeBsCount ≤ st.ker.freeBsCount)
    (fewer : (promised calls).Sublist (promised x.calls)) (less : needed calls ≤ needed x.calls) :
    Promises { st := st, calls := calls } :=
  ⟨stores, queued, fun pid member => slots pid (promises.slots pid (fewer.subset member)),
    promises.distinct.sublist fewer, less.trans (promises.enough.trans frees)⟩

omit [Config] in
theorem stores_of_moved {s final : St} (kept : StoresKept s) (moved : Moved s.ker final.ker) :
    StoresKept final := kept_of_views kept moved.views moved.table moved.free moved.server

theorem free_of_moved {s final : St} (moved : Moved s.ker final.ker) {q : Int}
    (slot : IsFree s q) : IsFree final q := by
  have view := congrArg Prod.fst (moved.views q)
  simp only [heapView, decide_eq_decide] at view
  exact ⟨slot.1, slot.2.1, view.mpr slot.2.2⟩

theorem promises_moved {st : St} {calls : List Pending} (promises : Promises x)
    (moved : Moved x.st.ker st.ker) (queued : Queued st.ker)
    (fewer : (promised calls).Sublist (promised x.calls)) (less : needed calls ≤ needed x.calls) :
    Promises { st := st, calls := calls } :=
  promises_kept promises (stores_of_moved promises.stores moved) queued
    (fun _ slot => free_of_moved moved slot) (Nat.le_of_eq moved.free.symm) fewer less

omit [Config] in
theorem promised_sublist {calls before : List Pending} (fewer : calls.Sublist before) :
    (promised calls).Sublist (promised before) ∧ needed calls ≤ needed before :=
  ⟨fewer.filterMap _, (fewer.map _).sum_le_sum fun _ _ => Nat.zero_le _⟩

omit [Config] in
/-- A call that takes part in the waiting. -/
theorem lock_inv {point : Point} (running : Running x.st) (queued : Queued x.st.ker)
    (locked : x.lock point = some y) : Moved x.st.ker y.st.ker ∧ Queued y.st.ker ∧
      y.calls = { caller := x.st.ker.currpid, point := point } :: x.calls := by
  unfold Callers.lock at locked
  split at locked
  · rename_i final waited
    cases locked
    obtain ⟨moved, queued⟩ := wait_moved running queued (Or.inl waited)
    exact ⟨moved, queued, rfl⟩
  · rename_i final waited
    cases locked
    obtain ⟨moved, queued⟩ := wait_moved running queued (Or.inr ⟨_, waited⟩)
    exact ⟨moved, queued, rfl⟩
  · cases locked

theorem create_kept {ssize : Nat} {priority : Int} {pid : Int} {made : St}
    (promises : Promises x) (keeps : KeepsPromises x (.create ssize priority))
    (ran : create ssize priority x.st = .ok pid made) :
    Promises { x with st := made } := by
  rcases create_returned ran with ⟨rfl, memlist, nextpid, rfl⟩ | ⟨same, slot, memlist, nextpid,
    saddr, size, rfl⟩
  · refine promises_moved promises ⟨fun _ => rfl, rfl, rfl, rfl⟩ ?_ (List.Sublist.refl _)
      (Nat.le_refl _)
    exact queued_of_procs promises.queued rfl fun _ _ => rfl
  · refine ⟨created_kept promises.stores slot, ?_, ?_, promises.distinct, promises.enough⟩
    · refine queued_of_procs promises.queued rfl ?_
      intro q waiting
      have other : q ≠ pid := by
        rintro rfl
        rw [slot.2.2] at waiting
        cases waiting
      simp [createdKer, entered, reserved, Ker.setProc, Function.update_of_ne other]
    · intro q member
      obtain ⟨lower, upper, free⟩ := promises.slots q member
      have other : q ≠ pid := by
        rintro rfl
        rw [same] at member
        exact keeps member
      refine ⟨lower, upper, ?_⟩
      simpa [createdKer, entered, reserved, Ker.setProc, Function.update_of_ne other] using free

/-- A switch to a ready process, and a resumed one. -/
theorem scheduled_kept {st : St} (promises : Promises x)
    (procs : ∀ q, ∃ state, st.ker.proctab q = { x.st.ker.proctab q with prstate := state } ∧
      Reschedules (x.st.ker.proctab q).prstate state)
    (rest : st.ker = { x.st.ker with
      proctab := st.ker.proctab, currpid := st.ker.currpid }) : Promises { x with st := st } := by
  have moved : Moved x.st.ker st.ker := by
    refine ⟨?_, ?_, ?_, ?_⟩
    · intro q
      obtain ⟨state, same, alive⟩ := procs q
      exact view_rescheduled same alive
    all_goals rw [rest]
  refine promises_moved promises moved ?_ (List.Sublist.refl _) (Nat.le_refl _)
  refine queued_of_procs promises.queued ?_ ?_
  · rw [rest]
  · intro q waiting
    obtain ⟨state, same, _, stays⟩ := procs q
    rw [same, stays waiting, ← waiting]

omit [Config] in
theorem promised_cons (call : Pending) (calls : List Pending) :
    promised (call :: calls) = (slotOf call.point).toList ++ promised calls := by
  unfold promised
  cases slot : slotOf call.point with
  | none => simp [slot]
  | some pid => simp [slot]

omit [Config] in
theorem needed_cons (call : Pending) (calls : List Pending) :
    needed (call :: calls) = needOf call.point + needed calls := by
  unfold needed
  rw [List.map_cons, List.sum_cons]

/-- The order of the calls does not matter. -/
theorem promises_perm {calls : List Pending} (promises : Promises x) (same : x.calls.Perm calls) :
    Promises { x with calls := calls } := by
  have slots : (promised x.calls).Perm (promised calls) := same.filterMap _
  have needs : needed x.calls = needed calls := (same.map _).sum_eq
  refine ⟨promises.stores, promises.queued, ?_, slots.nodup_iff.mp promises.distinct, ?_⟩
  · intro pid member
    exact promises.slots pid (slots.mem_iff.mpr member)
  · exact needs ▸ promises.enough

theorem leave_kept {caller pid : Int} {saddr ssize hsize pd : Nat} {others : List Pending}
    {status : Int} {left : St}
    (promises : Promises { x with
      calls := ⟨caller, .mapped pid saddr ssize hsize pd⟩ :: others })
    (ran : vcreateLeave pid saddr ssize hsize pd x.st = .ok status left) :
    Promises { st := left, calls := others } ∧
      (status ≠ sysErr → (x.st.ker.proctab status).prstate = .free) := by
  have fewer := promised_sublist (List.sublist_cons_self
    (⟨caller, .mapped pid saddr ssize hsize pd⟩ : Pending) others)
  by_cases failed : pd = sysErrPtr
  · subst failed
    obtain ⟨rfl, moved, semtab, proctab⟩ := vcreate_leave_failed ran
    refine ⟨promises_moved promises moved ?_ fewer.1 fewer.2, fun worked => absurd rfl worked⟩
    exact queued_of_procs promises.queued (by rw [semtab]) fun q _ => by rw [proctab]
  · have slots := promises.slots
    have distinct := promises.distinct
    have enough : needed (⟨caller, .mapped pid saddr ssize hsize pd⟩ :: others) ≤
        x.st.ker.freeBsCount := promises.enough
    rw [promised_cons] at slots distinct
    rw [needed_cons] at enough
    simp only [slotOf, if_neg failed, Option.toList_some, List.singleton_append,
      List.nodup_cons] at slots distinct
    simp only [needOf, if_neg failed] at enough
    have slot : IsFree x.st pid := slots pid List.mem_cons_self
    have kept : StoresKept x.st := promises.stores
    obtain ⟨rfl, finalKept, joined, counted, lock⟩ :=
      vcreate_leave_inv kept slot (by omega) failed ran
    refine ⟨⟨finalKept, ?_, ?_, distinct.2, ?_⟩, fun _ => slot.2.2⟩
    · refine queued_of_procs promises.queued (by rw [lock]) ?_
      intro q waiting
      refine joined.others q ?_
      rintro rfl
      rw [slot.2.2] at waiting
      cases waiting
    · intro q member
      have other : q ≠ status := by
        rintro rfl
        exact distinct.1 member
      obtain ⟨lower, upper, free⟩ := slots q (List.mem_cons_of_mem _ member)
      exact ⟨lower, upper, by rw [joined.others q other]; exact free⟩
    · change needed others ≤ left.ker.freeBsCount
      omega

theorem serve_kept {caller : Int} {a : Nat} {others : List Pending} {served : St}
    (promises : Promises { x with calls := ⟨caller, .serving a⟩ :: others })
    (ran : pfServe a x.st = .ok () served) : Promises { st := served, calls := others } := by
  have fewer := promised_sublist (List.sublist_cons_self (⟨caller, .serving a⟩ : Pending) others)
  unfold pfServe at ran
  rw [get_bind] at ran
  split at ran
  · obtain ⟨_, given, signalRan, ran⟩ := bind_ok_inv ran
    obtain ⟨status, down, killRan, ran⟩ := bind_ok_inv ran
    cases ran
    obtain ⟨moved, queued⟩ := signal_moved promises.queued signalRan
    have given := promises_moved promises moved queued fewer.1 fewer.2
    rcases kill_inv killRan with ⟨_, rfl⟩ | ⟨_, killed⟩
    · exact given
    · have gone := killed_gone given.stores given.queued killed
      exact promises_kept given gone.stores gone.queued gone.slots gone.frees
        (List.Sublist.refl _) (Nat.le_refl _)
  · obtain ⟨_, filled, service, signalRan⟩ := bind_ok_inv ran
    have same : filled.ker = x.st.ker := pf_service_ker _ _ _ _ _ service
    have queued := promises.queued
    obtain ⟨moved, queued⟩ := signal_moved (s := filled) (same ▸ queued) signalRan
    rw [same] at moved
    exact promises_moved promises moved queued fewer.1 fewer.2

theorem proceed_kept {call : Pending} {returned : Option Int} (promises : Promises x)
    (member : call ∈ x.calls) (did : x.proceed call = some (returned, y)) :
    Promises y ∧ ∀ pid, returned = some pid → (x.st.ker.proctab pid).prstate = .free := by
  have ordered := promises_perm promises (List.perm_cons_erase member)
  obtain ⟨caller, point⟩ := call
  unfold Callers.proceed at did
  cases point with
  | creating pid saddr ssize hsize =>
      dsimp only at did
      split at did
      · rename_i pd framed ran
        cases did
        refine ⟨?_, fun _ impossible => by cases impossible⟩
        obtain ⟨moved, queued⟩ := directory_frame_moved promises.queued ran
        refine promises_moved ordered moved queued ?_ ?_
        · rw [promised_cons, promised_cons]
          refine List.Sublist.append_right ?_ _
          by_cases failed : pd = sysErrPtr
          · simp [slotOf, failed]
          · simp [slotOf, failed]
        · rw [needed_cons, needed_cons]
          refine Nat.add_le_add_right ?_ _
          by_cases failed : pd = sysErrPtr
          · simp [needOf, failed]
          · simp [needOf, failed]
      · cases did
  | mapped pid saddr ssize hsize pd =>
      dsimp only at did
      split at did
      · rename_i status left ran
        cases did
        obtain ⟨kept, fresh⟩ := leave_kept ordered ran
        refine ⟨kept, ?_⟩
        intro pid isReturned
        split at isReturned
        · cases isReturned
        · rename_i worked
          cases isReturned
          exact fresh worked
      · cases did
  | serving a =>
      dsimp only at did
      split at did
      · rename_i served ran
        cases did
        exact ⟨serve_kept ordered ran, fun _ impossible => by cases impossible⟩
      · cases did

theorem act_kept {action : Action} {returned : Option Int} (promises : Promises x)
    (keeps : KeepsPromises x action) (did : act x action = some (returned, y)) :
    Promises y := by
  cases action with
  | create ssize priority =>
      simp only [act] at did
      split at did
      · cases did
      split at did
      · rename_i pid made ran
        cases did
        obtain ⟨status, middle, createRan, performed⟩ := bind_ok_inv (exec_performed ran)
        cases performed
        exact create_kept promises keeps createRan
      · cases did
  | vcreate ssize hsize priority =>
      simp only [act] at did
      split at did
      · cases did
      rename_i idle
      have running : Running x.st := by
        by_contra stopped
        exact idle (Or.inr stopped)
      split at did
      · rename_i failed ran
        cases did
        rcases vcreate_enter_inv ran with ⟨_, memlist, nextpid, rfl⟩ | ⟨_, _, _, _, impossible, _⟩
        · refine promises_moved promises ⟨fun _ => rfl, rfl, rfl, rfl⟩ ?_ (List.Sublist.refl _)
            (Nat.le_refl _)
          exact queued_of_procs promises.queued rfl fun _ _ => rfl
        · cases impossible
      · rename_i point opened ran
        rcases vcreate_enter_inv ran with ⟨impossible, _⟩ | ⟨pid, saddr, memlist, nextpid, isPoint,
          isPid, slot, enough, rfl⟩
        · cases impossible
        cases isPoint
        obtain ⟨z, locked, same⟩ := Option.bind_eq_some_iff.mp did
        cases same
        have opened : Promises { x with st := { x.st with
            ker := entered x.st.ker memlist x.st.ker.createNextpid nextpid } } :=
          promises_moved promises ⟨fun _ => rfl, rfl, rfl, rfl⟩
            (queued_of_procs promises.queued rfl fun _ _ => rfl) (List.Sublist.refl _)
            (Nat.le_refl _)
        obtain ⟨moved, queued, calls⟩ := lock_inv
          (x := { x with st := { x.st with
            ker := entered x.st.ker memlist x.st.ker.createNextpid nextpid } })
          running opened.queued locked
        have locked := promises_moved opened moved queued (List.Sublist.refl _) (Nat.le_refl _)
        obtain ⟨unpromised, covered⟩ := keeps
        rw [← isPid] at unpromised
        refine ⟨locked.stores, queued, ?_, ?_, ?_⟩
        · rw [calls, promised_cons]
          intro q member
          rcases List.mem_append.mp member with new | old
          · cases List.mem_singleton.mp new
            exact free_of_moved moved slot
          · exact locked.slots q old
        · rw [calls, promised_cons]
          exact List.nodup_cons.mpr ⟨unpromised, promises.distinct⟩
        · rw [calls, needed_cons, moved.free]
          change bsReq hsize + needed x.calls ≤ x.st.ker.freeBsCount
          omega
      · cases did
  | kill pid =>
      simp only [act] at did
      split at did
      · cases did
      split at did
      · rename_i status down ran
        cases did
        obtain ⟨code, middle, killRan, performed⟩ := bind_ok_inv (exec_performed ran)
        cases performed
        rcases kill_inv killRan with ⟨rfl, rfl⟩ | ⟨rfl, killed⟩
        · exact promises
        · have gone := killed_gone promises.stores promises.queued killed
          obtain ⟨fewer, less⟩ := promised_sublist (List.filter_sublist (l := x.calls)
            (p := fun call => call.caller != pid))
          rw [if_neg (by decide)]
          exact promises_kept promises gone.stores gone.queued gone.slots gone.frees fewer less
      · cases did
  | fault a =>
      simp only [act] at did
      split at did
      · cases did
      rename_i idle
      have running : Running x.st := by
        by_contra stopped
        exact idle (Or.inr (Or.inl stopped))
      obtain ⟨z, locked, same⟩ := Option.bind_eq_some_iff.mp did
      cases same
      have counted : Promises { x with st := { x.st with
          ker := { x.st.ker with pfc := (x.st.ker.pfc + 1) % word32 } } } :=
        promises_moved promises ⟨fun _ => rfl, rfl, rfl, rfl⟩
          (queued_of_procs promises.queued rfl fun _ _ => rfl) (List.Sublist.refl _)
          (Nat.le_refl _)
      obtain ⟨moved, queued, calls⟩ := lock_inv
        (x := { x with st := { x.st with
          ker := { x.st.ker with pfc := (x.st.ker.pfc + 1) % word32 } } })
        running counted.queued locked
      refine promises_moved counted moved queued ?_ ?_
      · rw [calls, promised_cons]
        exact List.Sublist.refl _
      · rw [calls, needed_cons]
        exact Nat.le_of_eq (Nat.zero_add _)
  | resume pid =>
      simp only [act] at did
      split at did
      · cases did
      split at did
      · rename_i reply resumed ran
        cases did
        cases exec_did ran with
        | resumed pid suspended =>
            exact scheduled_kept promises (resumed_proc suspended) rfl
        | refused _ _ memlist createNext vcreateNext hand =>
            refine promises_moved promises ⟨fun _ => rfl, rfl, rfl, rfl⟩ ?_
              (List.Sublist.refl _) (Nat.le_refl _)
            exact queued_of_procs promises.queued rfl fun _ _ => rfl
      · cases did
  | resched pid =>
      simp only [act] at did
      split at did
      · rename_i reply switched ran
        cases did
        cases exec_did ran with
        | switched pid target =>
            exact scheduled_kept promises (switched_proc target.2.2) (switched_ker _ _)
        | refused _ _ memlist createNext vcreateNext hand =>
            refine promises_moved promises ⟨fun _ => rfl, rfl, rfl, rfl⟩ ?_
              (List.Sublist.refl _) (Nat.le_refl _)
            exact queued_of_procs promises.queued rfl fun _ _ => rfl
      · cases did
  | proceed =>
      simp only [act] at did
      split at did
      · rename_i running
        cases found : x.calls.find? fun call => call.caller == x.st.ker.currpid with
        | none =>
            rw [found] at did
            cases did
        | some call =>
            rw [found] at did
            exact (proceed_kept promises (List.mem_of_find?_eq_some found) did).1
      · cases did

end Steps

section Results

variable {x : Callers}

theorem started_queue {policy : Int} {s : St} (started : Started policy s) : Queued s.ker := by
  obtain ⟨⟨before, _, status, ran⟩, _⟩ := started
  obtain ⟨_, paged, initRan, ran⟩ := bind_ok_inv ran
  obtain ⟨gpt, dpt, gpd, pd, ker⟩ := initialize_paging_ker initRan
  have none : (s.ker.semtab .pfSem).squeue = [] := by
    rw [srpolicy_returned ran]
    dsimp only
    rw [ker]
    simp [Ker.setSem]
  refine ⟨?_, ?_⟩
  · intro q member
    rw [none] at member
    cases member
  · rw [none]
    exact List.nodup_nil

theorem interleaved_promises {policy : Int}
    (run : Interleaved (Started policy) KeepsPromises x) : Promises x := by
  induction run with
  | start started =>
      refine ⟨started_kept started, started_queue started, ?_, List.nodup_nil, Nat.zero_le _⟩
      intro pid member
      cases member
  | step _ keeps did induction => exact act_kept induction keeps did

theorem promises_fresh {action : Action} {pid : Int} {y : Callers} (promises : Promises x)
    (did : act x action = some (some pid, y)) : (x.st.ker.proctab pid).prstate = .free := by
  cases action with
  | create ssize priority =>
      simp only [act] at did
      split at did
      · cases did
      split at did
      · rename_i status made ran
        obtain ⟨code, middle, createRan, performed⟩ := bind_ok_inv (exec_performed ran)
        cases performed
        rcases create_returned createRan with ⟨rfl, _⟩ | ⟨_, slot, _⟩
        · rw [if_pos rfl] at did
          cases did
        · split at did
          · cases did
          · cases did
            exact slot.2.2
      · cases did
  | vcreate ssize hsize priority =>
      simp only [act] at did
      split at did
      · cases did
      split at did
      · cases did
      · obtain ⟨z, locked, same⟩ := Option.bind_eq_some_iff.mp did
        cases same
      · cases did
  | kill pid =>
      simp only [act] at did
      split at did
      · cases did
      split at did <;> cases did
  | fault a =>
      simp only [act] at did
      split at did
      · cases did
      obtain ⟨z, locked, same⟩ := Option.bind_eq_some_iff.mp did
      cases same
  | resume pid =>
      simp only [act] at did
      split at did
      · cases did
      split at did <;> cases did
  | resched pid =>
      simp only [act] at did
      split at did <;> cases did
  | proceed =>
      simp only [act] at did
      split at did
      · cases found : x.calls.find? fun call => call.caller == x.st.ker.currpid with
        | none =>
            rw [found] at did
            cases did
        | some call =>
            rw [found] at did
            exact (proceed_kept promises (List.mem_of_find?_eq_some found) did).2 pid rfl
      · cases did

/-- Processes that are created at the same time do not disturb each other as long as
no call is given what is promised to another one. -/
theorem creation_safe_when_promises_kept {policy : Int}
    (run : Interleaved (Started policy) KeepsPromises x) : CreationSafe x := by
  have promises := interleaved_promises run
  exact ⟨fun action pid y did => promises_fresh promises did, promises.enough,
    promises.stores.counted⟩

end Results

section Example

/-- Process 1 has a heap, processes 2 and 3 have none, and process 1 has the lock for a page
fault and waits for the disk. -/
def diskWait : List Action :=
  [.vcreate 1024 1 20, .proceed, .proceed, .create 1024 20, .create 1024 20, .resume 1, .resume 2,
    .resume 3, .resched 1, .fault 0x1000000]

/-- The state after actions that can be taken. -/
def afterActions (allowed : Callers → Action → Prop) [∀ x action, Decidable (allowed x action)]
    (actions : List Action) : Callers :=
  (@runActions twelve allowed _ actions { st := bootedState, calls := [] }).getD
    { st := bootedState, calls := [] }

omit [Config] in
theorem after_actions {allowed : Callers → Action → Prop}
    [∀ x action, Decidable (allowed x action)] {actions : List Action}
    (ran : (@runActions twelve allowed _ actions
      { st := bootedState, calls := [] }).isSome = true) :
    @Interleaved twelve (@Started twelve fifo) allowed (afterActions allowed actions) := by
  obtain ⟨y, same⟩ := Option.isSome_iff_exists.mp ran
  rw [afterActions, same]
  exact @run_actions twelve _ _ _ _ _ _ (@Interleaved.start twelve _ _ _ booted_started) same

/-- Processes 2 and 3 both wait for the lock in `vcreate`, with different slots. -/
def twoWaiting : List Action :=
  diskWait ++ [.resched 3, .vcreate 1024 600 20, .resched 2, .vcreate 1024 800 20]

omit [Config] in
theorem creation_safe_when_two_wait :
    promised (@afterActions (@KeepsPromises twelve) (@decideKeepsPromises twelve)
        twoWaiting).calls = [5, 4] ∧
      @CreationSafe twelve (@afterActions (@KeepsPromises twelve) (@decideKeepsPromises twelve)
        twoWaiting) :=
  ⟨by decide +kernel, @creation_safe_when_promises_kept twelve _ _
    (@after_actions _ (@decideKeepsPromises twelve) _ (by decide +kernel))⟩

/-- Process 2 has created a process with the ID for which process 3 waits. -/
def sameSlot : List Action :=
  diskWait ++ [.resched 3, .vcreate 1024 1 20, .resched 2, .create 1024 20, .resched 1, .proceed,
    .resched 3, .proceed]

omit [Config] in
theorem slot_given_twice : ∃ x, @Interleaved twelve (@Started twelve fifo) (fun _ _ => True) x ∧
    ¬@CreationSafe twelve x := by
  refine ⟨afterActions (fun _ _ => True) sameSlot, after_actions (by decide +kernel), ?_⟩
  intro safe
  have returns : ((@act twelve (afterActions (fun _ _ => True) sameSlot) .proceed).map Prod.fst) =
      some (some 4) := by decide +kernel
  obtain ⟨⟨returned, y⟩, did, same⟩ := Option.map_eq_some_iff.mp returns
  cases same
  have fresh := @CreationSafe.fresh twelve _ safe .proceed 4 y did
  have taken : ((afterActions (fun _ _ => True) sameSlot).st.ker.proctab 4).prstate = .susp := by
    decide +kernel
  rw [taken] at fresh
  cases fresh

end Example

end Xinu.Processes.CreationSafety
