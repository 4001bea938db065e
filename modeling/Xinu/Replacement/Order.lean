import Xinu.Paging.System
import Xinu.Replacement.FifoRuns

/-!
# The FIFO queue over whole runs

A run is any sequence of returned calls from the state `init_ipt` leaves behind.
Next to the kernel state it keeps a clock and, for every frame, the time at which
a page was last put into it. Over every run the queue lists the frames that hold
a page, newest first, so the frame at its tail is the one an allocation evicts
and the one whose page was installed first.
-/

namespace Xinu.Replacement.Order

open Xinu.Kernel.State Xinu.Lib.StateError Xinu.Lib.LinkedQueue
open Xinu.Paging.Address Xinu.Paging.Ipt Xinu.Paging.System
open Xinu.Replacement.Fifo Xinu.Replacement.FifoRuns

set_option autoImplicit false

/-- A kernel state with the times at which the frames got their pages. -/
structure Timed where
  st : St
  installed : Nat → Nat
  now : Nat

variable [Config]

/-- One returned call. `other` is anything that leaves the frame table, the list
heads and the policy alone, such as a change of any page table. -/
inductive CallStep : Timed → Timed → Prop
  | getNewFrame {t : Timed} {final : St} {type : FrameStatus} {pid vpn : Int} {addr : Nat}
      (ran : getNewFrame type pid vpn t.st = .ok addr final) :
      CallStep t
        { st := final
          installed := if type = .page then
            Function.update t.installed (frameNumOf addr) t.now else t.installed
          now := t.now + 1 }
  | freeFrame {t : Timed} {final : St} {fr : Nat} (ran : freeFrame fr t.st = .ok () final) :
      CallStep t { t with st := final }
  | freeProcFrames {t : Timed} {final : St} {pid : Int}
      (ran : freeProcFrames pid t.st = .ok () final) : CallStep t { t with st := final }
  | decRefCount {t : Timed} {final : St} {pt pd pdi : Nat}
      (ran : decRefCount pt pd pdi t.st = .ok () final) : CallStep t { t with st := final }
  | incRefCount {t : Timed} {final : St} {pt : Nat} (ran : incRefCount pt t.st = .ok () final) :
      CallStep t { t with st := final }
  | evictFrame {t : Timed} {final : St} {fr : Nat} (ran : evictFrame fr t.st = .ok () final) :
      CallStep t { t with st := final }
  | other {t : Timed} {final : St} (same : queueView final = queueView t.st) :
      CallStep t { t with st := final }

/-- The states of a run that `initialize_paging` has begun. -/
inductive CallRun : Timed → Prop
  | start {before final : St} (installed : Nat → Nat)
      (ran : initializeFrames before = .ok () final) : CallRun ⟨final, installed, 0⟩
  | step {t next : Timed} (run : CallRun t) (call : CallStep t next) : CallRun next

/-- The queue is in the order of installation, newest first. -/
def Ordered (t : Timed) (nodes : List Nat) : Prop :=
  nodes.Pairwise (fun newer older => t.installed older < t.installed newer) ∧
    ∀ fr ∈ nodes, t.installed fr < t.now

section Start

theorem init_ipt_from_ok (fuel i : Nat) (s : St) (inside : i + fuel ≤ nframes) :
    ∃ ipt, initIptFrom fuel i s = .ok () { s with ipt := ipt } ∧
      ∀ fr, ipt fr = if i ≤ fr ∧ fr < i + fuel then clearedFrame else s.ipt fr := by
  induction fuel generalizing i s with
  | zero =>
      refine ⟨s.ipt, rfl, fun fr => ?_⟩
      rw [if_neg (by omega)]
  | succ fuel induction =>
      obtain ⟨ipt, ran, cleared⟩ := induction (i + 1) (setFrame s i clearedFrame) (by omega)
      refine ⟨ipt, ?_, fun fr => ?_⟩
      · unfold initIptFrom clearFrame
        rw [bind_ok (modify_frame_ok (by omega) _), ran]
        rfl
      · rw [cleared]
        by_cases here : fr = i
        · subst here
          rw [if_neg (by omega), if_pos (by omega)]
          exact Function.update_self fr clearedFrame s.ipt
        · have same : (setFrame s i clearedFrame).ipt fr = s.ipt fr :=
            congrFun (congrArg St.ipt rfl) fr |>.trans (Function.update_of_ne here _ s.ipt)
          rw [same]
          split <;> split <;> first | rfl | omega

/-- `init_ipt` clears every frame. -/
theorem init_frames_ok (s : St) :
    ∃ ipt, initializeFrames s = .ok ()
        { s with
          ker := { s.ker.setSem .pfSem (fun _ => { scount := 1, squeue := [] }) with
            currpolicy := .fifo
            pfc := 0
            freeBsCount := maxBsEntries }
          flistHead := empty
          flistTail := empty
          ipt := ipt } ∧
      (∀ fr < nframes, ipt fr = clearedFrame) ∧ ∀ fr, ¬fr < nframes → ipt fr = s.ipt fr := by
  unfold initializeFrames initIpt modifyKer
  simp only [modify_bind]
  obtain ⟨ipt, ran, cleared⟩ := init_ipt_from_ok nframes 0
    { s with
      ker := { s.ker.setSem .pfSem (fun _ => { scount := 1, squeue := [] }) with
        currpolicy := .fifo
        pfc := 0
        freeBsCount := maxBsEntries }
      flistHead := empty
      flistTail := empty } (by omega)
  refine ⟨ipt, ran, fun fr bound => ?_, fun fr outside => ?_⟩
  · rw [cleared, if_pos (by omega)]
  · rw [cleared, if_neg (by omega)]

theorem start_fifo {before final : St} (ran : initializeFrames before = .ok () final) :
    Fifo final empty [] := by
  obtain ⟨ipt, inited, cleared, _⟩ := init_frames_ok before
  rw [inited] at ran
  cases ran
  refine ⟨rfl, queue_nil _ _ _, ?_, fun bad => absurd bad empty_not_frame⟩
  intro fr
  simp only [List.not_mem_nil, HoldsPage, false_iff, not_and]
  intro page
  rw [cleared fr page.1] at page
  exact absurd page.2 (by decide)

end Start

section Run

variable {t next : Timed} {nodes rest : List Nat}

omit [Config] in
theorem ordered_sublist (ordered : Ordered t nodes) (sublist : rest.Sublist nodes) (final : St) :
    Ordered { t with st := final } rest :=
  ⟨ordered.1.sublist sublist, fun fr member => ordered.2 fr (sublist.subset member)⟩

/-- A page enters the queue at the front with the newest time of all. -/
theorem ordered_install {fr addr : Nat} (ordered : Ordered t nodes) (absent : fr ∉ rest)
    (sublist : rest.Sublist nodes) (bound : fr < nframes) (address : addr = frameNum2ptr fr)
    (type : FrameStatus) (final : St) :
    Ordered
      { st := final
        installed := if type = .page then
          Function.update t.installed (frameNumOf addr) t.now else t.installed
        now := t.now + 1 }
      (if type = .page then fr :: rest else rest) := by
  obtain ⟨pairwise, past⟩ := ordered_sublist ordered sublist final
  have number : frameNumOf addr = fr := by
    rw [address, frame_num_of_ptr fr bound]
  by_cases page : type = .page
  · have unchanged : ∀ other ∈ rest, Function.update t.installed fr t.now other =
        t.installed other := by
      intro other member
      apply Function.update_of_ne
      rintro rfl
      exact absent member
    simp only [Ordered, if_pos page, number]
    refine ⟨List.pairwise_cons.mpr ⟨?_, ?_⟩, ?_⟩
    · intro older member
      rw [Function.update_self, unchanged older member]
      exact past older member
    · apply pairwise.imp_of_mem
      intro newer older newerMember olderMember earlier
      rw [unchanged newer newerMember, unchanged older olderMember]
      exact earlier
    · intro other member
      rcases List.mem_cons.mp member with rfl | inRest
      · rw [Function.update_self]
        omega
      · rw [unchanged other inRest]
        exact Nat.lt_succ_of_lt (past other inRest)
  · simp only [Ordered, if_neg page]
    exact ⟨pairwise, fun other member => Nat.lt_succ_of_lt (past other member)⟩

theorem inc_ref_count_run {s final : St} {off pt : Nat} (fifo : Fifo s off nodes)
    (ran : incRefCount pt s = .ok () final) : Fifo final off nodes := by
  obtain ⟨_, logged, logRan, ran⟩ := bind_ok_inv ran
  have loggedFifo := fifo_of_view fifo (keeps_ok (keeps_queue (keeps_log _)) logRan)
  obtain ⟨bound, rfl⟩ := modify_frame_inv ran
  exact set_count_fifo _ _ loggedFifo

/-- One call keeps the queue and its order. -/
theorem call_step_ordered (fifo : Fifo t.st empty nodes) (ordered : Ordered t nodes)
    (call : CallStep t next) :
    ∃ nodes', Fifo next.st empty nodes' ∧ Ordered next nodes' := by
  cases call with
  | @getNewFrame final type pid vpn addr ran =>
      cases get_new_frame_run fifo ran with
      | unused fr bound free address queue =>
          have absent : fr ∉ nodes := by
            intro member
            have page := ((fifo.2.members fr).mp member).1.2
            rw [free] at page
            cases page
          exact ⟨_, queue, ordered_install ordered absent (List.Sublist.refl _) bound address _ _⟩
      | evicted fr front rest full oldest kept address hook queue =>
          have bound : fr < nframes := node_bound fifo.2 (by simp [oldest])
          have absent : fr ∉ rest := by
            intro member
            have nodup := fifo.2.queue.nodup
            rw [oldest] at nodup
            exact (List.nodup_append.mp nodup).2.2 fr (kept.subset member) fr (by simp) rfl
          have sublist : rest.Sublist nodes := by
            rw [oldest]
            exact kept.trans (List.sublist_append_left _ _)
          exact ⟨_, queue, ordered_install ordered absent sublist bound address _ _⟩
      | exhausted full noPage address queue =>
          refine ⟨[], queue, ?_⟩
          simp [Ordered]
  | @freeFrame final fr ran =>
      exact ⟨_, free_frame_run fifo ran, ordered_sublist ordered List.erase_sublist final⟩
  | @freeProcFrames final pid ran =>
      obtain ⟨rest, sublist, kept⟩ := free_proc_frames_run pid fifo ran
      exact ⟨rest, kept, ordered_sublist ordered sublist final⟩
  | @decRefCount final pt pd pdi ran =>
      obtain ⟨rest, sublist, kept⟩ := dec_ref_count_run fifo ran
      exact ⟨rest, kept, ordered_sublist ordered sublist final⟩
  | @incRefCount final pt ran =>
      exact ⟨nodes, inc_ref_count_run fifo ran, ordered⟩
  | @evictFrame final fr ran =>
      obtain ⟨_, rest, sublist, kept⟩ := evict_frame_run fifo ran
      exact ⟨rest, kept, ordered_sublist ordered sublist final⟩
  | other same => exact ⟨nodes, fifo_of_view fifo same, ordered⟩

theorem call_run_ordered (run : CallRun t) :
    ∃ nodes, Fifo t.st empty nodes ∧ Ordered t nodes := by
  induction run with
  | start installed ran => exact ⟨[], start_fifo ran, by simp [Ordered]⟩
  | step run call induction =>
      obtain ⟨nodes, fifo, ordered⟩ := induction
      exact call_step_ordered fifo ordered call

end Run

end Xinu.Replacement.Order
