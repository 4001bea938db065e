import Xinu.Kernel.FreeList
import Xinu.Paging.System
import Xinu.Replacement.Exhaustion

/-!
# Failed process creation

What `create` and `vcreate` have changed when they return `SYSERR`. The exits behind
the check of the backing stores undo everything. The one `if` that tests the stack, the
process ID and the priority together has no undo, so a stack that was taken is lost.
-/

namespace Xinu.Processes.Undo

open Xinu.Kernel.State Xinu.Kernel.Semaphore Xinu.Kernel.Memory Xinu.Kernel.FreeList
open Xinu.Lib.StateError Xinu.Paging.Address Xinu.Paging.BackingStore Xinu.Paging.Ipt
open Xinu.Paging.Handler Xinu.Paging.Process Xinu.Paging.System Xinu.Replacement.Fifo
open Xinu.Replacement.Exhaustion

set_option autoImplicit false

/-- What a failed call has to leave alone. -/
structure Unchanged (s final : St) : Prop where
  memlist : final.ker.memlist = s.ker.memlist
  prcount : final.ker.prcount = s.ker.prcount
  procs : ∀ pid, (s.ker.proctab pid).prstate ≠ .free →
    final.ker.proctab pid = s.ker.proctab pid
  freeBsCount : final.ker.freeBsCount = s.ker.freeBsCount
  bstab : final.ker.bstab = s.ker.bstab
  ipt : final.ipt = s.ipt

section Results

variable [Config] {s final : St}

/-- A slot of the process table is free. -/
def FreeSlot (ker : Ker) : Prop := ∃ pid, 0 ≤ pid ∧ pid < (nproc : Int) ∧ (ker.proctab pid).prstate = .free

section Newpid

/-- The slots that `newpid` has tried when it gives up. -/
theorem newpid_tried (ker : Ker) (fuel : Nat) (nextpid : Int)
    (failed : (newpidFrom ker fuel nextpid).1 = sysErr) (slots : 0 < nproc) :
    ∀ k < fuel, (ker.proctab ((nextpid + k) % (nproc : Int))).prstate ≠ .free := by
  induction fuel generalizing nextpid with
  | zero =>
      intro k bound
      omega
  | succ fuel induction =>
      have lower : 0 ≤ nextpid % (nproc : Int) := Int.emod_nonneg _ (by omega)
      unfold newpidFrom at failed
      by_cases free : (ker.proctab (nextpid % nproc)).prstate = .free
      · rw [if_pos free] at failed
        simp only [sysErr] at failed
        omega
      · rw [if_neg free] at failed
        intro k bound
        cases k with
        | zero =>
            have same : nextpid + ((0 : Nat) : Int) = nextpid := by omega
            rw [same]
            exact free
        | succ k =>
            have later := induction (nextpid % nproc + 1) failed k (by omega)
            have same : (nextpid % (nproc : Int) + 1 + k) % nproc = (nextpid + (k + 1 : Nat)) % nproc := by
              rw [Int.add_assoc, Int.emod_add_emod]
              congr 1
              push_cast
              omega
            rw [← same]
            exact later

theorem newpid_fails_iff (ker : Ker) (nextpid : Int) :
    (newpidFrom ker nproc nextpid).1 = sysErr ↔ ¬FreeSlot ker := by
  by_cases slots : 0 < nproc
  · constructor
    · rintro failed ⟨pid, lower, upper, free⟩
      have tried := newpid_tried ker nproc nextpid failed slots ((pid - nextpid) % nproc).toNat
      have nonneg : 0 ≤ (pid - nextpid) % (nproc : Int) := Int.emod_nonneg _ (by omega)
      have below : (pid - nextpid) % (nproc : Int) < nproc := Int.emod_lt_of_pos _ (by omega)
      have here : (nextpid + ((pid - nextpid) % (nproc : Int)).toNat) % nproc = pid := by
        have sum : nextpid + (pid - nextpid) = pid := by omega
        rw [Int.toNat_of_nonneg nonneg, Int.add_emod_emod, sum]
        exact Int.emod_eq_of_lt lower upper
      rw [here] at tried
      exact tried (by omega) free
    · intro full
      rcases newpid_free ker nproc nextpid slots with failed | ⟨lower, upper, free⟩
      · exact failed
      · exact absurd ⟨_, lower, upper, free⟩ full
  · have none : nproc = 0 := by omega
    refine iff_of_true ?_ ?_
    · rw [none]
      rfl
    · rintro ⟨pid, lower, upper, _⟩
      omega

end Newpid

section Directory

omit [Config] in
/-- No frame has the address `SYSERR`. -/
theorem frame_ptr_aligned (fr : Nat) : frameNum2ptr fr ≠ sysErrPtr := by
  rw [frameNum2ptr, sysErrPtr, metadataStart, nbpg, word32]
  omega

theorem pick_frame_failed (ran : pickFrame s = .ok sysErrPtr final) : final = s := by
  unfold pickFrame at ran
  rw [get_bind] at ran
  split at ran
  · unfold pickFrameFIFO at ran
    rw [get_bind] at ran
    split at ran
    · cases ran
      rfl
    · split at ran
      · rw [modify_bind] at ran
        split at ran
        · cases ran
        · rename_i tail
          simp only [pure_apply, EStateM.Result.ok.injEq] at ran
          exact absurd ran.1 tail
      · obtain ⟨frame, middle, _, ran⟩ := bind_ok_inv ran
        rw [modify_bind] at ran
        obtain ⟨_, unlinked, _, ran⟩ := bind_ok_inv ran
        split at ran
        · cases ran
        · rename_i tail
          simp only [pure_apply, EStateM.Result.ok.injEq] at ran
          exact absurd ran.1 tail
  · cases ran

/-- An allocation that fails has changed nothing but the hand. -/
theorem get_new_frame_failed {type : FrameStatus} {pid vpn : Int}
    (ran : getNewFrame type pid vpn s = .ok sysErrPtr final) :
    ∃ hand, final = { s with fifoNextframe := hand } := by
  have noFrame : ∀ {fr : Nat} {middle : St},
      (pure (frameNum2ptr fr) : Call Nat) middle ≠ .ok sysErrPtr final := by
    intro fr middle returned
    rw [pure_apply, EStateM.Result.ok.injEq] at returned
    exact frame_ptr_aligned fr returned.1
  unfold getNewFrame at ran
  rw [get_bind] at ran
  split at ran
  · obtain ⟨hand, found, scanned, _, _⟩ := fifo_scan_ok (s := s) nframes
    unfold getNewFrameFIFO at ran
    rw [bind_ok scanned] at ran
    cases found with
    | some fr =>
        obtain ⟨_, middle, _, ran⟩ := bind_ok_inv ran
        exact absurd ran noFrame
    | none =>
        obtain ⟨fr, picked, pickRan, ran⟩ := bind_ok_inv ran
        split at ran
        · rename_i failed
          rw [failed] at pickRan
          cases ran
          exact ⟨hand, pick_frame_failed pickRan⟩
        · obtain ⟨_, gone, _, ran⟩ := bind_ok_inv ran
          obtain ⟨_, filled, _, ran⟩ := bind_ok_inv ran
          exact absurd ran noFrame
  · rename_i notFifo
    have gca : s.ker.currpolicy = .gca := by
      cases policy : s.ker.currpolicy with
      | fifo => exact absurd policy notFifo
      | gca => rfl
    rw [if_pos gca] at ran
    unfold getNewFrameGCA at ran
    obtain ⟨choice, scanned, _, ran⟩ := bind_ok_inv ran
    cases choice with
    | unused fr =>
        obtain ⟨_, filled, _, ran⟩ := bind_ok_inv ran
        exact absurd ran noFrame
    | victim fr =>
        obtain ⟨_, gone, _, ran⟩ := bind_ok_inv ran
        obtain ⟨_, filled, _, ran⟩ := bind_ok_inv ran
        exact absurd ran noFrame

theorem init_pd_failed {pid : Int} (ran : initPd pid s = .ok sysErr final) :
    ∃ hand, final = { s with fifoNextframe := hand } := by
  obtain ⟨_, locked, waited, ran⟩ := bind_ok_inv ran
  obtain ⟨free, rfl⟩ := wait_returned waited
  obtain ⟨pd, taken, allocated, ran⟩ := bind_ok_inv ran
  obtain ⟨_, released, signalled, ran⟩ := bind_ok_inv ran
  split at ran
  · rename_i failed
    rw [failed] at allocated
    obtain ⟨hand, rfl⟩ := get_new_frame_failed allocated
    rw [signal_taken free rfl] at signalled
    cases signalled
    cases ran
    exact ⟨hand, rfl⟩
  · cases ran

omit [Config] in
theorem bs_init_status {pid status : Int} {hsize : Nat} (ran : bsInit pid hsize s = .ok status final) :
    status = ok := by
  obtain ⟨_, cleared, _, ran⟩ := bind_ok_inv ran
  obtain ⟨_, filled, _, ran⟩ := bind_ok_inv ran
  cases ran
  rfl

end Directory

section Calls

omit [Config] in
/-- Only the free list can be different. -/
theorem unchanged_iff {memlist : MemList} (create vcreate : Int) :
    Unchanged s { s with ker := { s.ker with
      memlist := memlist, createNextpid := create, vcreateNextpid := vcreate } } ↔
      memlist = s.ker.memlist := by
  constructor
  · intro unchanged
    exact unchanged.memlist
  · rintro rfl
    exact ⟨rfl, rfl, fun _ _ => rfl, rfl, rfl, rfl⟩

theorem create_failed {ssize : Nat} {priority : Int}
    (ran : create ssize priority s = .ok sysErr final) :
    ∃ saddr memlist nextpid,
      getstk (stackSize ssize) s = .ok saddr { s with ker := { s.ker with memlist := memlist } } ∧
        final = { s with ker := { s.ker with memlist := memlist, createNextpid := nextpid } } := by
  obtain ⟨saddr, memlist, stack⟩ := getstk_returned s (stackSize ssize)
  unfold create at ran
  rw [bind_ok stack] at ran
  split at ran
  · cases ran
    exact ⟨saddr, memlist, s.ker.createNextpid, stack, rfl⟩
  · rw [bind_ok (create_newpid_returned _)] at ran
    split at ran
    · cases ran
      exact ⟨saddr, memlist, _, stack, rfl⟩
    · rename_i accepted
      obtain ⟨_, counted, _, ran⟩ := bind_ok_inv ran
      obtain ⟨_, entered, _, ran⟩ := bind_ok_inv ran
      rw [pure_apply, EStateM.Result.ok.injEq] at ran
      exact absurd (Or.inl ran.1) accepted

/-- Behind the check of the process ID everything is undone. -/
theorem vcreate_space_failed (order : InOrder s.ker) {pid : Int} {saddr ssize hsize : Nat}
    {memlist : MemList} {nextpid : Int} (slot : 0 ≤ pid)
    (stack : getstk ssize s = .ok saddr { s with ker := { s.ker with memlist := memlist } })
    (isStack : saddr ≠ sysErrPtr)
    (ran : vcreateSpace pid saddr ssize hsize { s with ker := { s.ker with
      memlist := memlist, vcreateNextpid := nextpid } } = .ok sysErr final) : Unchanged s final := by
  unfold vcreateSpace at ran
  rw [get_bind] at ran
  split at ran
  · obtain ⟨status, freed⟩ := freestk_restores (t := { s with ker := { s.ker with
      memlist := memlist, vcreateNextpid := nextpid } }) order stack isStack rfl ⟨rfl, rfl⟩
    rw [bind_ok freed] at ran
    cases ran
    exact ⟨rfl, rfl, fun _ _ => rfl, rfl, rfl, rfl⟩
  · obtain ⟨_, counted, count, ran⟩ := bind_ok_inv ran
    cases count
    obtain ⟨status, mapped, directory, ran⟩ := bind_ok_inv ran
    split at ran
    · rename_i failed
      rw [failed] at directory
      obtain ⟨hand, rfl⟩ := init_pd_failed directory
      obtain ⟨_, released, freed, ran⟩ := bind_ok_inv ran
      obtain ⟨status, restored⟩ := freestk_restores (t := { s with
        ker := { s.ker with
          memlist := memlist, vcreateNextpid := nextpid, prcount := s.ker.prcount + 1 }
        fifoNextframe := hand }) order stack isStack rfl ⟨rfl, rfl⟩
      have same := freed.symm.trans restored
      cases same
      cases ran
      exact ⟨rfl, by simp, fun _ _ => rfl, rfl, rfl, rfl⟩
    · obtain ⟨status, stored, stores, ran⟩ := bind_ok_inv ran
      rw [bs_init_status stores, if_neg (by decide)] at ran
      obtain ⟨_, entered, _, ran⟩ := bind_ok_inv ran
      rw [pure_apply, EStateM.Result.ok.injEq] at ran
      rw [ran.1, sysErr] at slot
      omega

theorem create_unchanged_iff (order : InOrder s.ker) {ssize : Nat} {priority : Int}
    (ran : create ssize priority s = .ok sysErr final) :
    Unchanged s final ↔ NothingTaken s.ker (stackSize ssize) := by
  obtain ⟨saddr, memlist, nextpid, stack, rfl⟩ := create_failed ran
  exact (unchanged_iff nextpid s.ker.vcreateNextpid).trans (getstk_takes order stack)

theorem vcreate_unchanged_iff (order : InOrder s.ker) {ssize hsize : Nat} {priority : Int}
    (ran : vcreate ssize hsize priority s = .ok sysErr final) :
    Unchanged s final ↔
      NothingTaken s.ker (stackSize ssize) ∨ (1 ≤ priority ∧ FreeSlot s.ker) := by
  obtain ⟨saddr, memlist, stack⟩ := getstk_returned s (stackSize ssize)
  have taken := getstk_takes order stack
  simp only at taken
  unfold vcreate at ran
  rw [bind_ok stack] at ran
  by_cases noStack : saddr = sysErrPtr
  · rw [if_pos noStack] at ran
    cases ran
    have nothing : NothingTaken s.ker (stackSize ssize) := by
      obtain ⟨_, nothing⟩ | ⟨fits, rest, _, took, _, high⟩ := getstk_took (stackSize ssize) order
      · exact nothing
      · have bound := order.bound
        have address : saddr = fits + roundmb (stackSize ssize) - 4 := by
          rw [took, EStateM.Result.ok.injEq] at stack
          exact stack.1.symm
        rw [address, sysErrPtr] at noStack
        rw [word32] at bound
        omega
    exact iff_of_true ((unchanged_iff s.ker.createNextpid s.ker.vcreateNextpid).mpr
      (taken.mpr nothing)) (Or.inl nothing)
  · rw [if_neg noStack, bind_ok (vcreate_newpid_returned _)] at ran
    split at ran
    · rename_i refused
      cases ran
      rw [unchanged_iff, taken]
      refine ⟨Or.inl, ?_⟩
      rintro (nothing | ⟨valid, free⟩)
      · exact nothing
      · rcases refused with noSlot | low
        · exact absurd free ((newpid_fails_iff { s.ker with memlist := memlist } _).mp noSlot)
        · omega
    · rename_i accepted
      have slot : FreeSlot s.ker := by
        by_contra full
        exact accepted (Or.inl ((newpid_fails_iff { s.ker with memlist := memlist } _).mpr full))
      refine iff_of_true ?_ (Or.inr ⟨by omega, slot⟩)
      obtain ⟨_, lower, upper, _⟩ := slot
      rcases newpid_free { s.ker with memlist := memlist } nproc s.ker.vcreateNextpid (by omega)
        with failed | ⟨nonneg, _⟩
      · exact absurd (Or.inl failed) accepted
      · exact vcreate_space_failed order nonneg stack noStack ran

/-- A call that returns `SYSERR` has changed nothing if and only if it took no stack or,
for `vcreate`, failed behind the check of the process ID and the priority. -/
theorem failed_creation_unchanged_iff (order : InOrder s.ker) :
    (∀ ssize priority final, create ssize priority s = .ok sysErr final →
      (Unchanged s final ↔ NothingTaken s.ker (stackSize ssize))) ∧
    (∀ ssize hsize priority final, vcreate ssize hsize priority s = .ok sysErr final →
      (Unchanged s final ↔
        NothingTaken s.ker (stackSize ssize) ∨ (1 ≤ priority ∧ FreeSlot s.ker))) :=
  ⟨fun _ _ _ => create_unchanged_iff order, fun _ _ _ _ => vcreate_unchanged_iff order⟩

end Calls

end Results

section Example

/-- A build with seven frames, right after it has started. -/
def started : St := finalState (@bootAndRun seven fifo Fixed _ [] blankMachine)

theorem started_in_order : InOrder started.ker :=
  ⟨by decide +kernel, by decide +kernel, by decide +kernel⟩

def failedCreate : St := finalState (@create seven 1024 0 started)

def failedVcreate : St := finalState (@vcreate seven 1024 1601 1 started)

theorem failed_create_ran : @create seven 1024 0 started = .ok sysErr failedCreate :=
  returned_with (by decide +kernel)

theorem failed_vcreate_ran : @vcreate seven 1024 1601 1 started = .ok sysErr failedVcreate :=
  returned_with (by decide +kernel)

theorem failed_calls_of_started :
    (Unchanged started failedCreate ↔ NothingTaken started.ker (stackSize 1024)) ∧
      (Unchanged started failedVcreate ↔
        NothingTaken started.ker (stackSize 1024) ∨ ((1 : Int) ≤ 1 ∧ @FreeSlot seven started.ker)) :=
  ⟨(@failed_creation_unchanged_iff seven _ started_in_order).1 _ _ _ failed_create_ran,
    (@failed_creation_unchanged_iff seven _ started_in_order).2 _ _ _ _ failed_vcreate_ran⟩

/-- A `create` with priority 0 loses its stack. -/
theorem failed_create_loses_stack :
    @create seven 1024 0 started = .ok sysErr failedCreate ∧ ¬Unchanged started failedCreate := by
  refine ⟨failed_create_ran, ?_⟩
  intro unchanged
  have length : failedCreate.ker.memlist.mlength ≠ started.ker.memlist.mlength := by decide +kernel
  exact length (congrArg MemList.mlength unchanged.memlist)

end Example

end Xinu.Processes.Undo
