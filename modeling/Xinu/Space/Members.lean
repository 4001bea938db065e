import Xinu.Space.Ownership
import Xinu.Swap.Conservation

/-!
# How processes come and go

What `kill`, `create` and `vcreate` do to the frames and to the tables: a process that
leaves takes its own frames with it and no others, and a process that joins brings an
empty directory, or uses the one of the null process.
-/

namespace Xinu.Space.Members

open Xinu.Kernel.State Xinu.Kernel.Entry Xinu.Lib.Counting Xinu.Lib.StateError
open Xinu.Paging.Address Xinu.Paging.Ipt Xinu.Paging.Process Xinu.Processes.KernelVariables
open Xinu.Kernel.Semaphore Xinu.Paging.BackingStore Xinu.Paging.Handler Xinu.Processes.Steps
open Xinu.Replacement.Exhaustion Xinu.Replacement.Fifo Xinu.Replacement.FifoRuns
open Xinu.Swap.Ledger Xinu.Swap.Allocation
open Xinu.Space.Agreement Xinu.Space.Unmap Xinu.Space.Link Xinu.Space.Allocate
open Xinu.Space.Fault Xinu.Space.Service Xinu.Space.Ownership Xinu.Swap.Conservation

set_option autoImplicit false

variable [Config]

variable {s final : St} {fr off : Nat} {pid : Int}

section Freeing

/-- The FIFO queue is in order whenever it is in use, but for `off`. -/
def QueueWithout (off : Nat) (s : St) : Prop :=
  s.ker.currpolicy = .fifo → ∃ nodes, FrameQueue s off nodes

/-- The frame is cleared, and nothing else has changed but list links. -/
theorem free_frame_cores (queue : QueueWithout off s) (bound : fr < nframes)
    (ran : freeFrame fr s = .ok () final) :
    (∀ x, core (final.ipt x) = if x = fr then core clearedFrame else core (s.ipt x)) ∧
      QueueWithout off final := by
  rcases fifo_or_gca s.ker.currpolicy with fifo | gca
  · obtain ⟨nodes, frameQueue⟩ := queue fifo
    have notOff : fr ≠ off := by
      rintro rfl
      obtain ⟨index, stopped, stops, _⟩ := free_off_stops frameQueue fifo bound
      rw [stops] at ran
      cases ran
    obtain ⟨ipt, head, tail, freed, kept, cores⟩ := free_frame_ok frameQueue fifo bound notOff
    rw [freed] at ran
    cases ran
    exact ⟨cores, fun _ => ⟨_, kept⟩⟩
  · rw [free_frame_plain bound (Or.inl gca)] at ran
    cases ran
    refine ⟨fun x => ?_, fun fifo => ?_⟩
    · by_cases here : x = fr
      · rw [if_pos here, here, set_frame_self]
      · rw [if_neg here, set_frame_other _ _ _ _ here]
    · rw [set_frame_ker, gca] at fifo
      cases fifo

theorem free_proc_frames_from_cores (fuel i : Nat) (queue : QueueWithout off s)
    (inside : i + fuel ≤ nframes) (ran : freeProcFramesFrom pid fuel i s = .ok () final) :
    (∀ x, core (final.ipt x) = if (i ≤ x ∧ x < i + fuel) ∧ (s.ipt x).pid = pid
      then core clearedFrame else core (s.ipt x)) ∧ QueueWithout off final := by
  induction fuel generalizing s i with
  | zero =>
      cases ran
      refine ⟨fun x => ?_, queue⟩
      rw [if_neg (by omega)]
  | succ fuel induction =>
      obtain ⟨frame, read, readRan, ran⟩ := bind_ok_inv ran
      obtain ⟨bound, rfl, rfl⟩ := read_frame_inv readRan
      by_cases own : (read.ipt i).pid = pid
      · rw [if_pos own] at ran
        obtain ⟨_, freed, freeRan, ran⟩ := bind_ok_inv ran
        obtain ⟨freedCores, freedQueue⟩ := free_frame_cores queue bound freeRan
        obtain ⟨cores, kept⟩ := induction (i + 1) freedQueue (by omega) ran
        refine ⟨fun x => ?_, kept⟩
        rw [cores]
        by_cases here : x = i
        · subst here
          have done : core (freed.ipt x) = core clearedFrame := by rw [freedCores, if_pos rfl]
          rw [if_neg (by omega), done, if_pos ⟨by omega, own⟩]
        · have same : core (freed.ipt x) = core (read.ipt x) := by rw [freedCores, if_neg here]
          have owner : (freed.ipt x).pid = (read.ipt x).pid :=
            congrArg (fun view => view.2.1) same
          rw [owner, same]
          exact if_congr (by omega) rfl rfl
      · rw [if_neg own] at ran
        obtain ⟨cores, kept⟩ := induction (i + 1) queue (by omega) ran
        refine ⟨fun x => ?_, kept⟩
        rw [cores]
        by_cases here : x = i
        · subst here
          rw [if_neg (by omega), if_neg fun both => own both.2]
        · exact if_congr (by omega) rfl rfl

/-- The frames of a process with a heap are cleared. -/
theorem free_proc_frames_cores (queue : QueueWithout off s)
    (ran : freeProcFrames pid s = .ok () final) :
    (∀ x < nframes, core (final.ipt x) =
      if (s.ker.proctab pid).vh = true ∧ (s.ipt x).pid = pid then core clearedFrame
      else core (s.ipt x)) ∧ final.ker = s.ker ∧ final.mem = s.mem ∧ QueueWithout off final := by
  have outside := keeps_ok (keeps_free_proc_frames pid) ran
  simp only [outsideView, Prod.mk.injEq] at outside
  refine ⟨?_, outside.1, outside.2.1, ?_⟩
  all_goals
    unfold freeProcFrames at ran
    rw [get_bind] at ran
  · intro x bound
    by_cases heap : (s.ker.proctab pid).vh = true
    · rw [if_neg (by rw [heap]; decide)] at ran
      rw [(free_proc_frames_from_cores nframes 0 queue (by omega) ran).1]
      exact if_congr (by simp [heap, bound]) rfl rfl
    · rw [if_pos (by simpa using heap)] at ran
      cases ran
      rw [if_neg fun both => heap both.1]
  · split at ran
    · cases ran
      exact queue
    · exact (free_proc_frames_from_cores nframes 0 queue (by omega) ran).2

end Freeing

section Leaving

/-- A process has left. -/
structure Parted (pid : Int) (s final : St) : Prop where
  left : Left pid s final
  roots : final.ker.gpt = s.ker.gpt ∧ final.ker.dpt = s.ker.dpt ∧ final.ker.gpd = s.ker.gpd
  mem : final.mem = s.mem
  frames : ∀ x < nframes, core (final.ipt x) =
    if (s.ker.proctab pid).vh = true ∧ (s.ipt x).pid = pid then core clearedFrame
    else core (s.ipt x)

theorem without_of_ker (queue : QueueWithout off s) (ipt : final.ipt = s.ipt)
    (heads : final.flistHead = s.flistHead ∧ final.flistTail = s.flistTail)
    (policy : final.ker.currpolicy = s.ker.currpolicy) : QueueWithout off final := by
  intro fifo
  obtain ⟨nodes, frames⟩ := queue (policy.symm.trans fifo)
  exact ⟨nodes, frame_queue_congr frames ipt heads.1 heads.2⟩

theorem queue_of_ker (queue : QueueKept s) (ipt : final.ipt = s.ipt)
    (heads : final.flistHead = s.flistHead ∧ final.flistTail = s.flistTail)
    (policy : final.ker.currpolicy = s.ker.currpolicy) : QueueKept final :=
  without_of_ker queue ipt heads policy

theorem taken_down_parted (kept : StoresKept s) (queue : QueueWithout off s)
    (alive : (s.ker.proctab pid).prstate ≠ .free) (down : TakenDown pid s final) :
    Parted pid s final ∧ QueueWithout off final := by
  have left := (taken_down_kept kept alive down).2.1
  obtain ⟨memlist, freed, semtab, bstab, free, frames, _, _, same⟩ :=
    taken_down_stages kept alive down
  have opened : QueueWithout off { s with ker := { s.ker with memlist := memlist } } :=
    without_of_ker queue rfl ⟨rfl, rfl⟩ rfl
  obtain ⟨cores, ker, mem, freedQueue⟩ := free_proc_frames_cores opened frames
  have retired := retire_ker { freed.ker with
    semtab := semtab, bstab := bstab, freeBsCount := free } pid
  refine ⟨⟨left, ?_, ?_, ?_⟩, ?_⟩
  · rw [same, retired, ker]
    exact ⟨rfl, rfl, rfl⟩
  · rw [same]
    exact mem
  · intro x bound
    rw [same]
    exact cores x bound
  · refine without_of_ker freedQueue ?_ ?_ ?_
    · rw [same]
    · rw [same]
      exact ⟨rfl, rfl⟩
    · rw [same, retired]

/-- A frame of another process stays as it was. -/
theorem parted_frame (parted : Parted pid s final) {x : Nat} (bound : x < nframes)
    (other : (s.ipt x).pid ≠ pid) : core (final.ipt x) = core (s.ipt x) := by
  rw [parted.frames x bound, if_neg fun both => other both.2]

theorem parted_live (parted : Parted pid s final) (q : Int) :
    (Live final q ↔ Live s q ∧ q ≠ pid) ∧ (HeapLive final q ↔ HeapLive s q ∧ q ≠ pid) := by
  unfold HeapLive Live
  by_cases here : q = pid
  · subst here
    simp [parted.left.dead]
  · rw [parted.left.others q here]
    simp [here]

theorem parted_tables {limbo : Nat} {fresh : List Nat} (tables : Tables s limbo fresh)
    (live : Live s pid) (user : pid ≠ nullproc) (parted : Parted pid s final) :
    Tables final limbo fresh := by
  have others : ∀ q, q ≠ pid → final.ker.proctab q = s.ker.proctab q := parted.left.others
  have pde : ∀ q, q ≠ pid → ∀ k, pdeOf final q k = pdeOf s q k := by
    intro q other k
    rw [pdeOf, pdeOf, St.entry, St.entry, others q other, parted.mem]
  have pte : ∀ q, q ≠ pid → ∀ k l, pteOf final q k l = pteOf s q k l := by
    intro q other k l
    rw [pteOf, pteOf, pde q other, parted.mem]
  have isTable : ∀ {x q}, IsTable s x q → q ≠ pid → IsTable final x q := by
    intro x q table other
    have same := parted_frame parted table.1 (by rw [table.2.2]; exact other)
    simp only [core, Prod.mk.injEq] at same
    exact ⟨table.1, same.1.trans table.2.1, same.2.1.trans table.2.2⟩
  have isPage : ∀ {x q v}, IsPage s x q v → q ≠ pid → IsPage final x q v := by
    intro x q v page other
    have same := parted_frame parted page.1 (by rw [page.2.2.1]; exact other)
    simp only [core, Prod.mk.injEq] at same
    exact ⟨page.1, same.1.trans page.2.1, same.2.1.trans page.2.2.1, same.2.2.1.trans page.2.2.2⟩
  refine ⟨?_, ?_, ?_, ?_, ?_, ?_, ?_, ?_, ?_, ?_, ?_⟩
  · intro q alive
    exact tables.pids q ((parted_live parted q).1.mp alive).1
  · rw [others _ (Ne.symm user)]
    exact tables.nullHeap
  · intro q alive
    obtain ⟨before, other⟩ := (parted_live parted q).2.mp alive
    rw [others q other]
    exact tables.heaps q before
  · intro q alive
    obtain ⟨before, other⟩ := (parted_live parted q).1.mp alive
    obtain ⟨d, bound, directory, isDir, own⟩ := tables.dirs q before
    have notPid : (s.ipt d).pid ≠ pid := by
      rw [own]
      split
      · exact other
      · exact Ne.symm user
    have same := parted_frame parted bound notPid
    simp only [core, Prod.mk.injEq] at same
    rw [others q other]
    exact ⟨d, bound, directory, same.1.trans isDir, same.2.1.trans own⟩
  · intro t bound
    obtain ⟨isGlobal, full⟩ := tables.globals t bound
    have nonneg := tables.pids pid live
    rw [parted.mem]
    exact ⟨isTable isGlobal (by rw [global]; omega), full⟩
  · intro q alive k bound
    obtain ⟨before, other⟩ := (parted_live parted q).1.mp alive
    rw [pde q other]
    exact tables.shared q before k bound
  · intro q k alive own present
    obtain ⟨before, other⟩ := (parted_live parted q).2.mp alive
    rw [pde q other] at present ⊢
    obtain ⟨x, isTab, address⟩ := tables.tables q k before own present
    exact ⟨x, isTable isTab other, address⟩
  · intro q left right alive ownLeft ownRight presLeft presRight equal
    obtain ⟨before, other⟩ := (parted_live parted q).2.mp alive
    rw [pde q other] at presLeft presRight
    rw [pde q other, pde q other] at equal
    exact tables.distinct q left right before ownLeft ownRight presLeft presRight equal
  · intro q k l alive own present bound presEntry
    obtain ⟨before, other⟩ := (parted_live parted q).2.mp alive
    rw [pde q other] at present
    rw [pte q other] at presEntry ⊢
    obtain ⟨x, holds, notLimbo, address⟩ := tables.entries q k l before own present bound presEntry
    exact ⟨x, isPage holds other, notLimbo, address⟩
  · intro x bound page notLimbo
    have stays : ¬((s.ker.proctab pid).vh = true ∧ (s.ipt x).pid = pid) := by
      intro gone
      have same := core_status (parted.frames x bound |>.trans (if_pos gone))
      rw [page] at same
      cases same
    have same := core_status ((parted.frames x bound).trans (if_neg stays))
    obtain ⟨q, v, holds, ⟨alive, low, high⟩, maps⟩ :=
      tables.mapped x bound (same.symm.trans page) notLimbo
    have other : q ≠ pid := by
      rintro rfl
      exact stays ⟨alive.2, holds.2.2.1⟩
    refine ⟨q, v, isPage holds other, ⟨(parted_live parted q).2.mpr ⟨alive, other⟩, low, ?_⟩, ?_⟩
    · rw [others q other]
      exact high
    · unfold Maps
      rw [pde q other, pte q other]
      exact maps
  · intro q k x alive own present address
    obtain ⟨before, other⟩ := (parted_live parted q).2.mp alive
    rw [pde q other] at present address
    obtain ⟨counted, positive⟩ := tables.counts q k x before own present address
    obtain ⟨y, isTab, otherAddress⟩ := tables.tables q k before own present
    have same : y = x := by omega
    subst same
    have kept := parted_frame parted isTab.1 (by rw [isTab.2.2]; exact other)
    simp only [core, Prod.mk.injEq] at kept
    rw [kept.2.2.2, parted.mem]
    exact ⟨counted, positive⟩

theorem parted_owned {limbo : Nat} {fresh : List Nat} (tables : Tables s limbo fresh)
    (owned : Owned s empty) (live : Live s pid) (user : pid ≠ nullproc)
    (parted : Parted pid s final) :
    Owned final empty ∧ Stays s final := by
  have others : ∀ q, q ≠ pid → final.ker.proctab q = s.ker.proctab q := parted.left.others
  have nonneg := tables.pids pid live
  have pde : ∀ q, q ≠ pid → ∀ k, pdeOf final q k = pdeOf s q k := by
    intro q other k
    rw [pdeOf, pdeOf, St.entry, St.entry, others q other, parted.mem]
  have dirOwner : ∀ q, Live s q → q ≠ pid → ∀ d < nframes,
      (s.ker.proctab q).pd = frameNum2ptr d → (s.ipt d).pid ≠ pid := by
    intro q alive other d bound directory
    obtain ⟨dir, inside, isDir, _, own⟩ := tables.dirs q alive
    have same := frame_ptr_injective dir d inside bound (isDir.symm.trans directory)
    rw [← same, own]
    split
    · exact other
    · exact Ne.symm user
  -- a frame that is in use afterwards is none of those that were cleared
  have stays : ∀ x < nframes, (final.ipt x).status ≠ .notUsed →
      core (final.ipt x) = core (s.ipt x) ∧
        ¬((s.ker.proctab pid).vh = true ∧ (s.ipt x).pid = pid) := by
    intro x bound used
    by_cases gone : (s.ker.proctab pid).vh = true ∧ (s.ipt x).pid = pid
    · have same := core_status ((parted.frames x bound).trans (if_pos gone))
      exact absurd same used
    · exact ⟨(parted.frames x bound).trans (if_neg gone), gone⟩
  refine ⟨⟨?_, ?_⟩, parted.roots, ?_, ?_, ?_, ?_⟩
  · intro x bound isDir notLoose
    obtain ⟨same, notGone⟩ := stays x bound (by rw [isDir]; decide)
    simp only [core, Prod.mk.injEq] at same
    obtain ⟨q, alive, owner, directory⟩ := owned.dirs x bound (same.1.symm.trans isDir) notLoose
    have other : q ≠ pid := by
      rintro rfl
      obtain ⟨dir, inside, isDirectory, _, own⟩ := tables.dirs q alive
      have sameDir := frame_ptr_injective dir x inside bound (isDirectory.symm.trans directory)
      rw [sameDir, owner] at own
      split at own
      · rename_i heap
        exact notGone ⟨heap, owner⟩
      · exact user own
    refine ⟨q, (parted_live parted q).1.mpr ⟨alive, other⟩, same.2.1.trans owner, ?_⟩
    rw [others q other]
    exact directory
  · intro x bound isTab notLoose isPrivate
    obtain ⟨same, notGone⟩ := stays x bound (by rw [isTab]; decide)
    simp only [core, Prod.mk.injEq] at same
    rw [same.2.1] at isPrivate
    obtain ⟨q, k, alive, own, present, address⟩ :=
      owned.tabs x bound (same.1.symm.trans isTab) notLoose isPrivate
    have other : q ≠ pid := by
      rintro rfl
      obtain ⟨t, isTable, tableAddress⟩ := tables.tables q k alive own present
      have sameTable : t = x := by omega
      subst sameTable
      exact notGone ⟨alive.2, isTable.2.2⟩
    refine ⟨q, k, (parted_live parted q).2.mpr ⟨alive, other⟩, own, ?_, ?_⟩
    · rw [pde q other]
      exact present
    · rw [pde q other]
      exact address
  · intro x isTable
    refine ⟨parted_frame parted isTable.1 ?_, fun i => by rw [parted.mem]; exact ⟨rfl, rfl⟩⟩
    rw [isTable.2.2, global]
    omega
  · intro q _ after
    rw [others q ((parted_live parted q).1.mp after).2]
  · intro q before after d bound directory
    have other := ((parted_live parted q).1.mp after).2
    exact parted_frame parted bound (dirOwner q before other d bound directory)
  · intro q _ after k _ _
    rw [pde q ((parted_live parted q).1.mp after).2]
    exact ⟨rfl, rfl⟩

end Leaving

section Joining

/-- A process has been put into a free slot. Its directory has the entries that all
directories share, and no others. -/
structure Grown (pid : Int) (s final : St) : Prop where
  slot : IsFree s pid
  user : pid ≠ nullproc
  alive : Live final pid
  others : ∀ q, q ≠ pid → final.ker.proctab q = s.ker.proctab q
  roots : final.ker.gpt = s.ker.gpt ∧ final.ker.dpt = s.ker.dpt ∧ final.ker.gpd = s.ker.gpd
  frames : final.ipt = s.ipt
  words : ∀ x < nframes, (s.ipt x).status = .ptab → ∀ i,
    final.mem (frame0 + x) i = s.mem (frame0 + x) i
  entries : ∀ q, Live s q → ∀ k, pdeOf final q k = pdeOf s q k
  size : (final.ker.proctab pid).hsize ≤ 1600
  plain : (final.ker.proctab pid).vh = false → (final.ker.proctab pid).hsize = 0
  dir : ∃ d < nframes, (final.ker.proctab pid).pd = frameNum2ptr d ∧ (s.ipt d).status = .pdir ∧
    (s.ipt d).pid = if (final.ker.proctab pid).vh = true then pid else nullproc
  shared : ∀ k < numGlobalPt, pres (pdeOf final pid k) = true ∧
    base (pdeOf final pid k) = frame0 + k
  device : pres (pdeOf final pid devMemPdIndex) = true ∧
    base (pdeOf final pid devMemPdIndex) = frame0 + numGlobalPt
  bare : (final.ker.proctab pid).vh = true → ∀ k, Private k → pres (pdeOf final pid k) = false

theorem slot_dead (slot : IsFree s pid) : ¬Live s pid := fun live => live slot.2.2

theorem grown_live (grown : Grown pid s final) (q : Int) :
    (Live final q ↔ Live s q ∨ q = pid) ∧
      (q ≠ pid → (HeapLive final q ↔ HeapLive s q)) := by
  have dead := slot_dead grown.slot
  unfold HeapLive Live
  by_cases here : q = pid
  · subst here
    exact ⟨iff_of_true grown.alive (Or.inr rfl), fun other => absurd rfl other⟩
  · rw [grown.others q here]
    simp [here]

theorem grown_other (grown : Grown pid s final) {q : Int} (live : Live s q) : q ≠ pid := by
  rintro rfl
  exact slot_dead grown.slot live

theorem grown_tables (tables : Tables s empty []) (grown : Grown pid s final) :
    Tables final empty [] := by
  have others : ∀ q, q ≠ pid → final.ker.proctab q = s.ker.proctab q := grown.others
  -- the new process has no table of its own, so the others are all that matter
  have noTable : ∀ {q k}, HeapLive final q → Private k → pres (pdeOf final q k) = true →
      HeapLive s q ∧ q ≠ pid := by
    intro q k alive own present
    by_cases here : q = pid
    · subst here
      rw [grown.bare alive.2 k own] at present
      cases present
    · exact ⟨((grown_live grown q).2 here).mp alive, here⟩
  have ptes : ∀ {q k}, HeapLive s q → Private k → pres (pdeOf s q k) = true → ∀ l,
      pteOf final q k l = pteOf s q k l := by
    intro q k alive own present l
    obtain ⟨x, isTab, address⟩ := tables.tables q k alive own present
    rw [pte_word address, pte_word ((congrArg base (grown.entries q alive.1 k)).trans address)]
    exact grown.words x isTab.1 isTab.2.1 l
  have isTable : ∀ x q, IsTable final x q ↔ IsTable s x q := fun x q => by
    rw [IsTable, IsTable, grown.frames]
  have isPage : ∀ x q v, IsPage final x q v ↔ IsPage s x q v := fun x q v => by
    rw [IsPage, IsPage, grown.frames]
  refine ⟨?_, ?_, ?_, ?_, ?_, ?_, ?_, ?_, ?_, ?_, ?_⟩
  · intro q alive
    rcases (grown_live grown q).1.mp alive with before | rfl
    · exact tables.pids q before
    · exact grown.slot.1
  · rw [others _ (Ne.symm grown.user)]
    exact tables.nullHeap
  · intro q alive
    by_cases here : q = pid
    · rw [here]
      exact grown.size
    · rw [others q here]
      exact tables.heaps q (((grown_live grown q).2 here).mp alive)
  · intro q alive
    rcases (grown_live grown q).1.mp alive with before | rfl
    · obtain ⟨d, bound, directory, isDir, own⟩ := tables.dirs q before
      rw [others q (grown_other grown before), grown.frames]
      exact ⟨d, bound, directory, isDir, own⟩
    · obtain ⟨d, bound, directory, isDir, own⟩ := grown.dir
      rw [grown.frames]
      exact ⟨d, bound, directory, isDir, own⟩
  · intro t bound
    obtain ⟨isGlobal, full⟩ := tables.globals t bound
    refine ⟨(isTable t _).mpr isGlobal, fun pti inside => ?_⟩
    rw [grown.words t isGlobal.1 isGlobal.2.1]
    exact full pti inside
  · intro q alive k bound
    rcases (grown_live grown q).1.mp alive with before | rfl
    · rw [grown.entries q before]
      exact tables.shared q before k bound
    · exact grown.shared k bound
  · intro q k alive own present
    obtain ⟨before, _⟩ := noTable alive own present
    rw [grown.entries q before.1] at present ⊢
    obtain ⟨x, isTab, address⟩ := tables.tables q k before own present
    exact ⟨x, (isTable x q).mpr isTab, address⟩
  · intro q left right alive ownLeft ownRight presLeft presRight equal
    obtain ⟨before, _⟩ := noTable alive ownLeft presLeft
    rw [grown.entries q before.1] at presLeft presRight
    rw [grown.entries q before.1, grown.entries q before.1] at equal
    exact tables.distinct q left right before ownLeft ownRight presLeft presRight equal
  · intro q k l alive own present bound presEntry
    obtain ⟨before, _⟩ := noTable alive own present
    rw [grown.entries q before.1] at present
    rw [ptes before own present] at presEntry ⊢
    obtain ⟨x, holds, notLimbo, address⟩ := tables.entries q k l before own present bound presEntry
    exact ⟨x, (isPage x q _).mpr holds, notLimbo, address⟩
  · intro x bound page notLimbo
    rw [grown.frames] at page
    obtain ⟨q, v, holds, ⟨alive, low, high⟩, maps⟩ := tables.mapped x bound page notLimbo
    have other := grown_other grown alive.1
    have own := private_of_heap tables alive low high
    refine ⟨q, v, (isPage x q v).mpr holds, ⟨((grown_live grown q).2 other).mpr alive, low, ?_⟩, ?_⟩
    · rw [others q other]
      exact high
    · unfold Maps
      rw [grown.entries q alive.1, ptes alive own maps.1]
      exact maps
  · intro q k x alive own present address
    obtain ⟨before, _⟩ := noTable alive own present
    rw [grown.entries q before.1] at present address
    obtain ⟨y, isTab, otherAddress⟩ := tables.tables q k before own present
    have same : y = x := by omega
    subst same
    rw [grown.frames, pres_count_congr fun i => by rw [grown.words y isTab.1 isTab.2.1]]
    exact tables.counts q k y before own present address

theorem grown_owned {loose : Nat} (owned : Owned s loose) (grown : Grown pid s final)
    (given : loose = empty ∨ (s.ipt loose).status = .pdir ∧ (s.ipt loose).pid = pid ∧
      (final.ker.proctab pid).pd = frameNum2ptr loose) :
    Owned final empty ∧ Stays s final := by
  have others : ∀ q, Live s q → final.ker.proctab q = s.ker.proctab q :=
    fun q live => grown.others q (grown_other grown live)
  have heapLive : ∀ q, HeapLive s q → HeapLive final q :=
    fun q live => ((grown_live grown q).2 (grown_other grown live.1)).mpr live
  refine ⟨⟨?_, ?_⟩, grown.roots, ?_, ?_, ?_, ?_⟩
  · intro x bound isDir _
    rw [grown.frames] at isDir ⊢
    by_cases here : x = loose
    · subst here
      rcases given with rfl | ⟨_, owner, directory⟩
      · exact absurd bound empty_not_frame
      · exact ⟨pid, grown.alive, owner, directory⟩
    · obtain ⟨q, alive, owner, directory⟩ := owned.dirs x bound isDir here
      refine ⟨q, (grown_live grown q).1.mpr (Or.inl alive), owner, ?_⟩
      rw [others q alive]
      exact directory
  · intro x bound isTab _ isPrivate
    rw [grown.frames] at isTab isPrivate
    have notLoose : x ≠ loose := by
      rintro rfl
      rcases given with rfl | ⟨isDir, _⟩
      · exact empty_not_frame bound
      · rw [isDir] at isTab
        cases isTab
    obtain ⟨q, k, alive, own, present, address⟩ := owned.tabs x bound isTab notLoose isPrivate
    refine ⟨q, k, heapLive q alive, own, ?_, ?_⟩
    · rw [grown.entries q alive.1]
      exact present
    · rw [grown.entries q alive.1]
      exact address
  · intro x isTable
    rw [grown.frames]
    refine ⟨rfl, fun i => ?_⟩
    rw [grown.words x isTable.1 isTable.2.1]
    exact ⟨rfl, rfl⟩
  · intro q alive _
    rw [others q alive]
  · intro q _ _ d _ _
    rw [grown.frames]
  · intro q alive _ k _ _
    rw [grown.entries q alive]
    exact ⟨rfl, rfl⟩

theorem grown_rooted (tables : Tables s empty []) (rooted : Rooted s) (grown : Grown pid s final)
    (stays : Stays s final) : Rooted final := by
  refine rooted_stays rooted tables stays ?_ ?_
  · exact (grown_live grown _).1.mpr (Or.inl rooted.null)
  · intro q alive dead
    rcases (grown_live grown q).1.mp alive with before | rfl
    · exact absurd before dead
    · exact ⟨grown.device, grown.plain⟩

/-- `create` gives its process the directory of the null process. -/
theorem created_grown {memlist : MemList} {nextpid : Int} {saddr size : Nat}
    (tables : Tables s empty []) (rooted : Rooted s) (slot : IsFree s pid) :
    Grown pid s { s with
      ker := createdKer (entered s.ker memlist nextpid s.ker.vcreateNextpid) pid saddr size } := by
  have user : pid ≠ nullproc := by
    rintro rfl
    exact slot_dead slot rooted.null
  obtain ⟨d, bound, directory, isDir, own⟩ := tables.dirs nullproc rooted.null
  rw [tables.nullHeap] at own
  have others : ∀ q, q ≠ pid → (createdKer (entered s.ker memlist nextpid s.ker.vcreateNextpid) pid
      saddr size).proctab q = s.ker.proctab q := by
    intro q other
    simp [createdKer, entered, reserved, Ker.setProc, Function.update_of_ne other]
  have pd : ((createdKer (entered s.ker memlist nextpid s.ker.vcreateNextpid) pid
      saddr size).proctab pid).pd = (s.ker.proctab nullproc).pd := by
    rw [← rooted.gpd]
    simp [createdKer, entered, reserved, Ker.setProc]
  have same : ∀ k, pdeOf { s with
      ker := createdKer (entered s.ker memlist nextpid s.ker.vcreateNextpid) pid saddr size } pid k =
      pdeOf s nullproc k := by
    intro k
    rw [pdeOf, pdeOf, St.entry, St.entry]
    dsimp only
    rw [pd]
  refine ⟨slot, user, ?_, others, ⟨rfl, rfl, rfl⟩, rfl, fun _ _ _ _ => rfl, ?_, ?_, ?_, ?_, ?_, ?_,
    ?_⟩
  · simp [Live, createdKer, Ker.setProc]
  · intro q live k
    have other : q ≠ pid := fun equal => slot_dead slot (equal ▸ live)
    rw [pdeOf, pdeOf, St.entry, St.entry]
    dsimp only
    rw [others q other]
  · simp [createdKer, Ker.setProc]
  · simp [createdKer, Ker.setProc]
  · refine ⟨d, bound, pd.trans directory, isDir, own.trans ?_⟩
    simp [createdKer, Ker.setProc]
  · intro k inside
    rw [same]
    exact tables.shared nullproc rooted.null k inside
  · rw [same]
    exact rooted.entries nullproc rooted.null
  · intro heap
    simp [createdKer, Ker.setProc] at heap

end Joining

section NewDirectory

theorem get_new_frame_given {addr : Nat} {type : FrameStatus} {vpn : Int}
    (tables : Tables s empty []) (queue : QueueKept s)
    (ran : getNewFrame type pid vpn s = .ok addr final) (given : addr ≠ sysErrPtr) :
    ∃ d < nframes, addr = frameNum2ptr d ∧ NewFrame s final d type pid vpn := by
  by_cases resources : Exhausted s
  · exfalso
    rcases fifo_or_gca s.ker.currpolicy with fifo | gca
    · obtain ⟨nodes, frameQueue⟩ := queue fifo
      have none : nodes = [] := by
        rw [List.eq_nil_iff_forall_not_mem]
        intro x member
        have page := ((frameQueue.members x).mp member).1
        exact (resources x page.1).2 page.2
      subst none
      obtain ⟨hand, failed⟩ := fifo_allocation_fails ⟨fifo, frameQueue⟩
        (fun x bound => (resources x bound).1) type pid vpn
      rw [failed] at ran
      cases ran
      exact given rfl
    · obtain ⟨stopped, failed⟩ := gca_allocation_stops gca resources type pid vpn
      rw [failed] at ran
      cases ran
  · exact ends_ok (get_new_frame_ends type pid vpn tables queue resources) ran

omit [Config] in
theorem global_pde (page : Nat) (small : page < 1048576) :
    pres (globalPDE page) = true ∧ base (globalPDE page) = page := by
  unfold globalPDE
  rw [pres_set_base, base_set_base _ _ small]
  exact ⟨by decide, rfl⟩

/-- The entries that `init_pd` writes. -/
theorem initial_entries {ker : Ker} (gpt : ∀ j < numGlobalPt, ker.gpt j = frameNum2ptr j)
    (dpt : ker.dpt = frameNum2ptr numGlobalPt) :
    (∀ k < numGlobalPt, pres (initialPDE ker k) = true ∧ base (initialPDE ker k) = frame0 + k) ∧
      (pres (initialPDE ker devMemPdIndex) = true ∧
        base (initialPDE ker devMemPdIndex) = frame0 + numGlobalPt) ∧
      ∀ k, Private k → pres (initialPDE ker k) = false := by
  have frames := Config.bootFrames
  refine ⟨?_, ?_, ?_⟩
  · intro k bound
    have inside : k < nframes := by
      rw [numGlobalPt] at bound
      omega
    rw [initialPDE, if_pos bound, gpt k bound, frame_ptr_page k inside]
    apply global_pde
    rw [frame0]
    rw [numGlobalPt] at bound
    omega
  · have inside : numGlobalPt < nframes := by
      rw [numGlobalPt]
      omega
    rw [initialPDE, if_neg (by decide), if_pos rfl, dpt, frame_ptr_page numGlobalPt inside]
    exact global_pde _ (by decide)
  · rintro k ⟨_, low, notDevice⟩
    rw [initialPDE, if_neg (by omega), if_neg notDevice]
    rfl

/-- `init_pd` has made a directory in a frame that nothing else leads to. -/
theorem init_pd_made {mapped : St} (tables : Tables s empty []) (queue : QueueKept s)
    (ran : initPd pid s = .ok ok mapped) :
    ∃ d opened, d < nframes ∧
      NewFrame { s with ker := taken s.ker .pfSem } opened d .pdir pid noVpn ∧
      mapped = { opened with
        ker := s.ker.setProc pid fun proc => { proc with pd := frameNum2ptr d }
        mem := mapped.mem } ∧
      (∀ p i, mapped.mem p i =
        if p = frame0 + d then initialPDE s.ker i else opened.mem p i) ∧ QueueKept mapped := by
  obtain ⟨_, held, waited, ran⟩ := bind_ok_inv ran
  obtain ⟨free, rfl⟩ := wait_returned waited
  obtain ⟨pd, opened, allocated, ran⟩ := bind_ok_inv ran
  have ker : opened.ker = taken s.ker .pfSem := get_new_frame_ker _ _ _ _ _ _ allocated
  have heldTables : Tables { s with ker := taken s.ker .pfSem } empty [] :=
    tables_congr tables ⟨fun _ => rfl, fun _ => rfl, fun _ _ _ _ => ⟨rfl, rfl⟩⟩
  have heldQueue : QueueKept { s with ker := taken s.ker .pfSem } :=
    queue_of_ker queue rfl ⟨rfl, rfl⟩ rfl
  rw [bind_ok (signal_taken free ker)] at ran
  split at ran
  · cases ran
  · rename_i given
    obtain ⟨d, bound, rfl, taken⟩ := get_new_frame_given heldTables heldQueue allocated given
    have openedQueue := get_new_frame_queue heldQueue allocated
    obtain ⟨_, entered, enterRan, ran⟩ := bind_ok_inv ran
    cases enterRan
    obtain ⟨_, filled, fillRan, ran⟩ := bind_ok_inv ran
    cases fillRan
    cases ran
    refine ⟨d, opened, bound, taken, rfl, ?_, ?_⟩
    · intro p i
      rw [frame_ptr_page d bound]
      rfl
    · exact queue_of_ker openedQueue rfl ⟨rfl, rfl⟩ (by rw [ker]; rfl)

/-- A process joins with the directory that `init_pd` has written for it. -/
theorem directory_grown {opened : St} {d hsize : Nat} (tables : Tables opened empty [])
    (rooted : Rooted opened) (unreferenced : Unreferenced opened d) (bound : d < nframes)
    (isDir : (opened.ipt d).status = .pdir) (isOwner : (opened.ipt d).pid = pid)
    (slot : IsFree opened pid) (size : hsize ≤ 1600) (joined : Joined pid hsize opened final)
    (pd : (final.ker.proctab pid).pd = frameNum2ptr d)
    (roots : final.ker.gpt = opened.ker.gpt ∧ final.ker.dpt = opened.ker.dpt ∧
      final.ker.gpd = opened.ker.gpd)
    (ipt : final.ipt = opened.ipt)
    (mem : ∀ p i, final.mem p i =
      if p = frame0 + d then initialPDE opened.ker i else opened.mem p i) :
    Grown pid opened final := by
  have user : pid ≠ nullproc := by
    rintro rfl
    exact slot_dead slot rooted.null
  have entries : ∀ k, pdeOf final pid k = initialPDE opened.ker k := by
    intro k
    rw [pde_word bound pd, mem, if_pos rfl]
  obtain ⟨initialShared, initialDevice, initialBare⟩ :=
    @initial_entries _ opened.ker rooted.gpt rooted.dpt
  refine ⟨slot, user, ?_, joined.others, roots, ipt, ?_, ?_, ?_, ?_, ⟨d, bound, pd, isDir, ?_⟩,
    ?_, ?_, ?_⟩
  · rw [Live, joined.alive]
    decide
  · intro x inside isTab i
    rw [mem, if_neg]
    intro equal
    have sameFrame : x = d := by omega
    rw [sameFrame, isDir] at isTab
    cases isTab
  · intro q alive k
    obtain ⟨dir, inside, isDirectory, _⟩ := tables.dirs q alive
    have other : q ≠ pid := by
      rintro rfl
      exact slot_dead slot alive
    have after : (final.ker.proctab q).pd = frameNum2ptr dir := by
      rw [joined.others q other, isDirectory]
    rw [pde_word inside isDirectory, pde_word inside after, mem, if_neg]
    intro equal
    have sameDir : dir = d := by omega
    subst sameDir
    exact unreferenced.noDir q alive isDirectory
  · rw [joined.size]
    exact size
  · intro plain
    rw [joined.heap] at plain
    cases plain
  · rw [if_pos joined.heap]
    exact isOwner
  · intro k inside
    rw [entries]
    exact initialShared k inside
  · rw [entries]
    exact initialDevice
  · intro _ k own
    rw [entries]
    exact initialBare k own

omit [Config] in
/-- A heap that `vcreate` admits is small. -/
theorem admitted_small {hsize : Nat} (kept : StoresKept s)
    (enough : bsReq hsize ≤ s.ker.freeBsCount) : hsize ≤ 1600 := by
  have most := stores_free_bound kept
  rw [maxBsEntries] at most
  unfold bsReq at enough
  rw [maxPagesPerBs] at enough
  split at enough
  · omega
  · omega

/-- `vcreate` gives its process a directory of its own. -/
theorem vcreated_grown {hsize : Nat} (tables : Tables s empty []) (queue : QueueKept s)
    (kept : StoresKept s) (owned : Owned s empty) (rooted : Rooted s)
    (made : Vcreated pid hsize s final) :
    Tables final empty [] ∧ Owned final empty ∧ Stays s final ∧ Rooted final ∧
      QueueKept final := by
  obtain ⟨memlist, nextpid, saddr, ssize, mapped, stored, directory, stores, same⟩ := made.stages
  obtain ⟨mappedStores, none, enough⟩ := admitted_stores kept
    ⟨made.slot, Nat.not_lt_of_le made.enough, memlist, nextpid, directory⟩
  obtain ⟨_, ⟨pbsd, semtab, bstab, free, active, rfl⟩, _⟩ :=
    bs_init_ok mappedStores none enough stores
  have joined := (vcreated_kept kept made).2.1
  let opening : St := { s with ker := entered s.ker memlist s.ker.createNextpid nextpid }
  have openingAlike : Alike s opening := ⟨fun _ => rfl, fun _ => rfl, fun _ _ _ _ => ⟨rfl, rfl⟩⟩
  have openingTables : Tables opening empty [] := tables_congr tables openingAlike
  have openingQueue : QueueKept opening := queue_of_ker queue rfl ⟨rfl, rfl⟩ rfl
  obtain ⟨d, opened, bound, allocated, mappedSame, mem, mappedQueue⟩ :=
    init_pd_made openingTables openingQueue directory
  have heldAlike : Alike s { opening with ker := taken opening.ker .pfSem } :=
    ⟨fun _ => rfl, fun _ => rfl, fun _ _ _ _ => ⟨rfl, rfl⟩⟩
  have heldTables := tables_congr tables heldAlike
  have openedTables := new_frame_tables heldTables allocated
  have openedOwned := new_frame_owned heldTables (owned_of_alike tables heldAlike owned) bound allocated
  rw [if_neg (by decide)] at openedTables openedOwned
  have openedStays := stays_trans (stays_of_alike tables heldAlike ⟨rfl, rfl, rfl⟩)
    (new_frame_stays heldTables allocated) fun q before _ => before
  have unreferenced := new_frame_unreferenced heldTables bound allocated
  have ker : opened.ker = taken opening.ker .pfSem := new_frame_ker allocated
  have openedLive : ∀ q, Live opened q ↔ Live s q := fun q => by
    rw [Live, Live, ker]
    rfl
  have openedRooted : Rooted opened := by
    refine rooted_stays rooted tables openedStays ((openedLive _).mpr rooted.null) ?_
    intro q alive dead
    exact absurd ((openedLive q).mp alive) dead
  have isNew := new_frame_core allocated
  simp only [core, newFrame, Prod.mk.injEq] at isNew
  have finalIpt : final.ipt = opened.ipt := by
    rw [same, mappedSame]
  have finalMem : ∀ p i, final.mem p i =
      if p = frame0 + d then initialPDE opening.ker i else opened.mem p i := by
    intro p i
    rw [same]
    exact mem p i
  have pd : (final.ker.proctab pid).pd = frameNum2ptr d := by
    rw [same, mappedSame]
    simp [vcreatedKer, Ker.setProc]
  have grown : Grown pid opened final := by
    refine directory_grown openedTables openedRooted unreferenced bound isNew.1 isNew.2.1 ?_
      (admitted_small kept made.enough) ⟨joined.alive, joined.heap, joined.size, ?_⟩ pd ?_ finalIpt ?_
    · refine ⟨made.slot.1, made.slot.2.1, ?_⟩
      rw [ker]
      exact made.slot.2.2
    · intro q other
      rw [ker]
      exact joined.others q other
    · rw [same, mappedSame, ker]
      exact ⟨rfl, rfl, rfl⟩
    · intro p i
      rw [finalMem, ker]
      rfl
  obtain ⟨finalOwned, finalStays⟩ :=
    grown_owned openedOwned grown (Or.inr ⟨isNew.1, isNew.2.1, pd⟩)
  refine ⟨grown_tables openedTables grown, finalOwned, stays_trans openedStays finalStays ?_,
    grown_rooted openedTables openedRooted grown finalStays, ?_⟩
  · intro q before _
    exact (openedLive q).mpr before
  · refine queue_of_ker mappedQueue ?_ ?_ ?_
    · rw [same]
    · rw [same]
      exact ⟨rfl, rfl⟩
    · rw [same]
      rfl

end NewDirectory

end Xinu.Space.Members
