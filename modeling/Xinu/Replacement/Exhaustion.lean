import Xinu.Replacement.FifoResults

/-!
# Running out of frames

A frame table without a free frame and without a page to evict. Under FIFO the
failed allocation is reported through `init_pd` to the caller of `vcreate` and
nothing else happens. Under GCA the clock gives up after its last turn with `fr`
still at its initial value -1, and `evictFrame` reads `ipt` there.
-/

namespace Xinu.Replacement.Exhaustion

open Xinu.Kernel.State Xinu.Kernel.Semaphore Xinu.Kernel.Memory Xinu.Lib.StateError
open Xinu.Paging.Address Xinu.Paging.Ipt Xinu.Paging.Handler Xinu.Paging.Process Xinu.Paging.System
open Xinu.Replacement.Fifo Xinu.Replacement.FifoRuns Xinu.Replacement.Order
open Xinu.Replacement.SystemCalls Xinu.Replacement.FifoResults

set_option autoImplicit false

section Results

variable [Config]

/-- All frames hold page directories and page tables. -/
def Exhausted (s : St) : Prop :=
  ∀ fr < nframes, (s.ipt fr).status ≠ .notUsed ∧ (s.ipt fr).status ≠ .page

instance (s : St) : Decidable (Exhausted s) :=
  inferInstanceAs (Decidable (∀ fr < nframes, _ ∧ _))

omit [Config] in
/-- The frame table, all of memory and the backing stores. -/
def Untouched (s final : St) : Prop :=
  final.ipt = s.ipt ∧ final.mem = s.mem ∧ final.disk = s.disk ∧ final.ker.bstab = s.ker.bstab

structure ReportsExhaustion (s : St) : Prop where
  allocation : ∀ type pid vpn, ∃ final,
    getNewFrame type pid vpn s = .ok sysErrPtr final ∧ Untouched s final
  directory : ∀ pid, ∃ final, initPd pid s = .ok sysErr final ∧ Untouched s final
  process : ∀ ssize hsize priority, ∃ final,
    vcreate ssize hsize priority s = .ok sysErr final ∧ Untouched s final

section FifoPolicy

variable {s : St}

theorem fifo_allocation_fails (fifo : Fifo s empty []) (full : AllUsed s) (type : FrameStatus)
    (pid vpn : Int) :
    ∃ hand, getNewFrame type pid vpn s = .ok sysErrPtr { s with fifoNextframe := hand } := by
  obtain ⟨hand, found, scanned, usable, _⟩ := fifo_scan_ok (s := s) nframes
  have nothing : found = none := by
    cases found with
    | none => rfl
    | some fr =>
        obtain ⟨bound, free⟩ := usable fr rfl
        exact absurd free (full fr bound)
  subst nothing
  have queue : FrameQueue { s with fifoNextframe := hand } empty [] :=
    frame_queue_congr fifo.2 rfl rfl rfl
  refine ⟨hand, ?_⟩
  unfold getNewFrame getNewFrameFIFO
  rw [get_bind, if_pos fifo.1, bind_ok scanned]
  have picked : pickFrame { s with fifoNextframe := hand } =
      .ok sysErrPtr { s with fifoNextframe := hand } := by
    unfold pickFrame
    rw [get_bind, if_pos fifo.1]
    exact pick_frame_empty queue
  simp only []
  rw [bind_ok picked, if_pos rfl]
  rfl

theorem fifo_directory_fails (fifo : Fifo s empty []) (full : AllUsed s) (free : 1 ≤ pfCount s)
    (pid : Int) : ∃ hand, initPd pid s = .ok sysErr { s with fifoNextframe := hand } := by
  have takenFifo : Fifo { s with ker := taken s.ker .pfSem } empty [] := fifo_of_view fifo rfl
  obtain ⟨hand, ran⟩ := fifo_allocation_fails takenFifo full .pdir pid noVpn
  refine ⟨hand, ?_⟩
  unfold initPd
  rw [bind_ok (wait_free free), bind_ok ran, bind_ok (signal_taken free rfl), if_pos rfl]
  rfl

theorem fifo_space_fails (fifo : Fifo s empty []) (full : AllUsed s) (free : 1 ≤ pfCount s)
    (pid : Int) (saddr ssize hsize : Nat) :
    ∃ final, vcreateSpace pid saddr ssize hsize s = .ok sysErr final ∧ Untouched s final := by
  unfold vcreateSpace
  rw [get_bind]
  split
  · obtain ⟨status, memlist, freed⟩ := freestk_returned s saddr ssize
    rw [bind_ok freed]
    exact ⟨_, rfl, rfl, rfl, rfl, rfl⟩
  · let counted := { s with ker := { s.ker with prcount := s.ker.prcount + 1 } }
    have countedFifo : Fifo counted empty [] := fifo_of_view fifo rfl
    obtain ⟨hand, failed⟩ := fifo_directory_fails countedFifo full free pid
    obtain ⟨status, memlist, freed⟩ :=
      freestk_returned { counted with fifoNextframe := hand } saddr ssize
    have count : modifyKer (fun ker => { ker with prcount := ker.prcount + 1 }) s =
        .ok () counted := rfl
    rw [bind_ok count, bind_ok failed, if_pos rfl, bind_ok freed]
    exact ⟨_, rfl, rfl, rfl, rfl, rfl⟩

theorem fifo_process_fails (fifo : Fifo s empty []) (full : AllUsed s) (free : 1 ≤ pfCount s)
    (ssize hsize : Nat) (priority : Int) :
    ∃ final, vcreate ssize hsize priority s = .ok sysErr final ∧ Untouched s final := by
  obtain ⟨memlist, nextpid, opened⟩ := vcreate_opening s ssize hsize priority
  rcases opened with ran | ⟨pid, saddr, _, continued⟩
  · exact ⟨_, ran, rfl, rfl, rfl, rfl⟩
  · rw [continued]
    exact fifo_space_fails (fifo_of_view fifo rfl : Fifo
      { s with ker := { s.ker with memlist := memlist, vcreateNextpid := nextpid } } empty [])
      full free pid saddr (stackSize ssize) hsize

end FifoPolicy

section GcaPolicy

variable {s : St}

/-- The clock passes over directories and tables and ends without a choice. -/
theorem gca_scan_nothing (exhausted : Exhausted s) (fuel : Nat) :
    ∃ hand, gcaScan fuel s = .ok (.victim empty) { s with gcaNextframe := hand } := by
  have positive : 0 < nframes := by
    have boot := Config.bootFrames
    omega
  induction fuel generalizing s with
  | zero => exact ⟨s.gcaNextframe, rfl⟩
  | succ fuel induction =>
      have bound : s.gcaNextframe % nframes < nframes := Nat.mod_lt _ positive
      obtain ⟨used, notPage⟩ := exhausted _ bound
      obtain ⟨hand, ran⟩ :=
        induction (s := { s with gcaNextframe := s.gcaNextframe % nframes + 1 }) exhausted
      refine ⟨hand, ?_⟩
      unfold gcaScan
      rw [modify_bind, get_bind, bind_ok (read_frame_ok bound), if_neg used, if_neg notPage,
        modify_bind]
      exact ran

theorem gca_allocation_stops (gca : s.ker.currpolicy = .gca) (exhausted : Exhausted s)
    (type : FrameStatus) (pid vpn : Int) :
    ∃ final, getNewFrame type pid vpn s = .error (.badIndex empty) final := by
  obtain ⟨hand, scanned⟩ := gca_scan_nothing exhausted (3 * nframes + 1)
  refine ⟨{ s with gcaNextframe := hand }, ?_⟩
  unfold getNewFrame getNewFrameGCA
  rw [get_bind, if_neg (by rw [gca]; decide), if_pos gca, bind_ok scanned]
  have evicts : evictFrame empty { s with gcaNextframe := hand } =
      .error (.badIndex empty) { s with gcaNextframe := hand } := by
    apply bind_error
    apply bind_error
    exact read_frame_bad empty_not_frame
  exact bind_error evicts _

end GcaPolicy

end Results

section Example

abbrev seven : Config := smallConfig 7 (by decide) (by decide)

/-- One process fills a table of seven frames. -/
def filledFifo : St := finalState (@bootAndRun seven fifo Fixed _ [.vcreate 1024 1 20] blankMachine)

def filledGca : St := finalState (@bootAndRun seven gca Fixed _ [.vcreate 1024 1 20] blankMachine)

theorem filled_fifo_run : @SystemRun seven fifo filledFifo :=
  @boot_and_run seven _ _ _ _ _ _ power_on_blank (returned_unit (by decide +kernel))

theorem filled_gca_run : @SystemRun seven gca filledGca :=
  @boot_and_run seven _ _ _ _ _ _ power_on_blank (returned_unit (by decide +kernel))

end Example

end Xinu.Replacement.Exhaustion
