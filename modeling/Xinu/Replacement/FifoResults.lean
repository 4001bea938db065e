import Mathlib.Data.List.Perm.Subperm
import Xinu.Replacement.SystemCalls

/-!
# What the FIFO queue guarantees

In every state of a run of calls the list heads and links represent the frames
that hold a page, and the frame an allocation evicts is the one whose page has
been in memory the longest.
-/

namespace Xinu.Replacement.FifoResults

open Xinu.Kernel.State Xinu.Lib.StateError Xinu.Lib.LinkedQueue
open Xinu.Paging.Address Xinu.Paging.Ipt Xinu.Paging.System
open Xinu.Replacement.Fifo Xinu.Replacement.FifoRuns Xinu.Replacement.Order
open Xinu.Replacement.SystemCalls

set_option autoImplicit false

section Results

variable [Config]

variable {t : Timed}

/-- The frames met on the way from `flistHead` along `nextFrame`. -/
def fifoOrder (s : St) : List Nat := follow (nexts s.ipt) empty nframes s.flistHead

theorem queue_fits {s : St} {nodes : List Nat} (queue : FrameQueue s empty nodes) :
    nodes.length ≤ nframes := by
  have inside : nodes ⊆ List.range nframes := by
    intro fr member
    exact List.mem_range.mpr (node_bound queue member)
  have shorter := (List.Nodup.subperm queue.queue.nodup inside).length_le
  rwa [List.length_range] at shorter

theorem follow_fifo {s : St} {nodes : List Nat} (queue : FrameQueue s empty nodes) (fuel : Nat)
    (enough : nframes ≤ fuel) : follow (nexts s.ipt) empty fuel s.flistHead = nodes :=
  follow_queue queue.queue fuel (Nat.le_trans (queue_fits queue) enough)

theorem queued_iff {s : St} {nodes : List Nat} (queue : FrameQueue s empty nodes) (fr : Nat) :
    fr ∈ nodes ↔ HoldsPage s fr := by
  rw [queue.members, and_iff_left_iff_imp]
  rintro holds rfl
  exact empty_not_frame holds.1

/-- What it means for the list heads and links to represent the resident pages. -/
structure Represents (s : St) (nodes : List Nat) : Prop where
  walk : ∀ fuel, nframes ≤ fuel → follow (nexts s.ipt) empty fuel s.flistHead = nodes
  once : nodes.Nodup
  pages : ∀ fr, fr ∈ nodes ↔ HoldsPage s fr
  last : s.flistTail = nodes.getLastD empty
  inverse : ∀ left ∈ nodes, ∀ right ∈ nodes,
    nexts s.ipt left = right ↔ prevs s.ipt right = left
  first : ∀ fr ∈ nodes, prevs s.ipt fr = empty ↔ fr = s.flistHead
  ending : ∀ fr ∈ nodes, nexts s.ipt fr = empty ↔ fr = s.flistTail

theorem represents {s : St} {nodes : List Nat} (queue : FrameQueue s empty nodes) :
    Represents s nodes where
  walk := follow_fifo queue
  once := queue.queue.nodup
  pages := queued_iff queue
  last := queue.queue.tailEq
  inverse := fun _ leftMember _ rightMember => next_prev_iff queue.queue leftMember rightMember
  first := fun _ member => prev_null_iff queue.queue member
  ending := fun _ member => next_null_iff queue.queue member

theorem fifo_queue_lists_pages (run : CallRun t) :
    (∃ nodes, Represents t.st nodes) ∧
      (t.st.flistHead = empty ↔ t.st.flistTail = empty) ∧
      (t.st.flistTail = empty ↔ ∀ fr < nframes, (t.st.ipt fr).status ≠ .page) := by
  obtain ⟨nodes, fifo, _⟩ := call_run_ordered run
  have headNull := head_null_iff fifo.2.queue
  have tailNull := tail_null_iff fifo.2.queue
  refine ⟨⟨nodes, represents fifo.2⟩, headNull.trans tailNull.symm, tailNull.trans ?_⟩
  rw [List.eq_nil_iff_forall_not_mem]
  constructor
  · intro none fr bound page
    exact none fr ((queued_iff fifo.2 fr).mpr ⟨bound, page⟩)
  · intro none fr member
    have holds := (queued_iff fifo.2 fr).mp member
    exact none fr holds.1 holds.2

theorem oldest_page_is_evicted (run : CallRun t) :
    (AllUsed t.st → (∃ fr, HoldsPage t.st fr) → ∀ type pid vpn addr final,
      getNewFrame type pid vpn t.st = .ok addr final →
        ∃ fr, HoldsPage t.st fr ∧ addr = frameNum2ptr fr ∧
          final.trace.head? =
            some (.hookPswapOut (t.st.ipt fr).pid (t.st.ipt fr).vpn (fr + frame0)) ∧
          ∀ other, HoldsPage t.st other → other ≠ fr → t.installed fr < t.installed other) ∧
      ∀ pid final, freeProcFrames pid t.st = .ok () final →
        fifoOrder final =
          (fifoOrder t.st).filter fun fr => decide ((final.ipt fr).status = .page) := by
  obtain ⟨nodes, fifo, ordered⟩ := call_run_ordered run
  constructor
  · intro full ⟨page, holds⟩ type pid vpn addr final ran
    cases get_new_frame_run fifo ran with
    | unused fr bound free address queue => exact absurd free (full fr bound)
    | evicted fr front rest _ oldest kept address hook queue =>
        have member : fr ∈ nodes := by simp [oldest]
        refine ⟨fr, (queued_iff fifo.2 fr).mp member, address, hook, ?_⟩
        intro other otherHolds different
        have otherMember := (queued_iff fifo.2 other).mpr otherHolds
        have pairwise := ordered.1
        rw [oldest] at pairwise otherMember
        have inFront : other ∈ front := by simpa [different] using otherMember
        exact (List.pairwise_append.mp pairwise).2.2 other inFront fr (by simp)
    | exhausted _ noPage address queue =>
        have member := (queued_iff fifo.2 page).mpr holds
        rw [noPage] at member
        cases member
  · intro pid final ran
    obtain ⟨rest, sublist, kept⟩ := free_proc_frames_run pid fifo ran
    rw [fifoOrder, fifoOrder, follow_fifo fifo.2 nframes (Nat.le_refl _), follow_fifo kept.2 nframes (Nat.le_refl _)]
    have onlyPages : rest.filter (fun fr => decide ((final.ipt fr).status = .page)) = rest := by
      apply List.filter_eq_self.mpr
      intro fr member
      exact decide_eq_true ((queued_iff kept.2 fr).mp member).2
    have filtered := sublist.filter fun fr => decide ((final.ipt fr).status = .page)
    rw [onlyPages] at filtered
    apply filtered.eq_of_length_le
    apply (List.Nodup.subperm (fifo.2.queue.nodup.filter _) ?_).length_le
    intro fr member
    simp only [List.mem_filter, decide_eq_true_eq] at member
    exact (queued_iff kept.2 fr).mpr ⟨node_bound fifo.2 member.1, member.2⟩

end Results

section Example

/-- Two processes with one page each fill a table of twelve frames. -/
def twoProcesses : List Event :=
  [.vcreate 1024 2 20, .vcreate 1024 1 20, .resume 1, .resched 1, .fault 0x1000000,
    .resume 2, .resched 2, .fault 0x1000000]

abbrev twelve : Config := smallConfig 12 (by decide) (by decide)

def twoPages : St :=
  finalState (@bootAndRun twelve fifo Fixed _ twoProcesses blankMachine)

theorem two_pages_run : @SystemRun twelve fifo twoPages :=
  @boot_and_run twelve _ _ _ _ _ _ power_on_blank (returned_unit (by decide +kernel))

theorem fifo_queue_lists_two_pages :
    ∃ t : Timed, t.st = twoPages ∧ (∃ nodes, @Represents twelve t.st nodes) ∧
      (t.st.flistHead = empty ↔ t.st.flistTail = empty) ∧
      (t.st.flistTail = empty ↔ ∀ fr < 12, (t.st.ipt fr).status ≠ .page) := by
  obtain ⟨t, same, run⟩ := @system_run_calls twelve _ two_pages_run
  exact ⟨t, same, @fifo_queue_lists_pages twelve t run⟩

theorem two_pages_evict_oldest :
    ∃ t : Timed, t.st = twoPages ∧
      (∃ addr final, @getNewFrame twelve .page 1 4097 t.st = .ok addr final ∧
        ∃ fr, @HoldsPage twelve t.st fr ∧ addr = frameNum2ptr fr ∧
          final.trace.head? =
            some (.hookPswapOut (t.st.ipt fr).pid (t.st.ipt fr).vpn (fr + frame0)) ∧
          ∀ other, @HoldsPage twelve t.st other → other ≠ fr →
            t.installed fr < t.installed other) ∧
      ∃ final, @freeProcFrames twelve 1 t.st = .ok () final ∧
        @fifoOrder twelve final =
          (@fifoOrder twelve t.st).filter fun fr => decide ((final.ipt fr).status = .page) := by
  obtain ⟨t, same, run⟩ := @system_run_calls twelve _ two_pages_run
  obtain ⟨evicts, frees⟩ := @oldest_page_is_evicted twelve t run
  obtain ⟨addr, ran⟩ : ∃ addr, @getNewFrame twelve .page 1 4097 t.st = .ok addr
      (finalState (@getNewFrame twelve .page 1 4097 t.st)) := by
    rw [same]
    exact returned_ok (by decide +kernel)
  have freed : @freeProcFrames twelve 1 t.st = .ok ()
      (finalState (@freeProcFrames twelve 1 t.st)) := by
    rw [same]
    exact returned_unit (by decide +kernel)
  have full : @AllUsed twelve t.st := by
    rw [same]
    decide +kernel
  have page : ∃ fr, @HoldsPage twelve t.st fr := by
    rw [same]
    exact ⟨9, by decide +kernel⟩
  exact ⟨t, same, ⟨addr, _, ran, evicts full page _ _ _ _ _ ran⟩, _, freed, frees _ _ freed⟩

end Example

end Xinu.Replacement.FifoResults
