import Xinu.Lib.LinkedQueue
import Xinu.Paging.Ipt

/-!
# The FIFO queue of frames

`flistHead`, `flistTail` and the two link fields of `ipt` represent a list of
frame numbers, newest page first. `FrameQueue s off nodes` says that this list
is exactly the frames that hold a page, except for `off`: the victim of an
allocation is off the queue from `pickFrame` to `init_frame` while its status is
still `PAGE`. Outside of an allocation `off` is `EMPTY`, which is no frame.

Page tables are not mentioned anywhere: the queue survives whatever they hold.
-/

namespace Xinu.Replacement.Fifo

open Xinu.Kernel.State Xinu.Kernel.Entry Xinu.Lib.StateError Xinu.Lib.LinkedQueue
open Xinu.Paging.Address Xinu.Paging.Ipt

set_option autoImplicit false

def nexts (ipt : Nat → Frame) (fr : Nat) : Nat := (ipt fr).nextFrame

def prevs (ipt : Nat → Frame) (fr : Nat) : Nat := (ipt fr).prevFrame

/-- Everything the queue operations leave alone in a frame they do not clear. -/
def core (frame : Frame) : FrameStatus × Int × Int × Nat :=
  (frame.status, frame.pid, frame.vpn, frame.refCount)

theorem core_status {left right : Frame} (same : core left = core right) :
    left.status = right.status := congrArg Prod.fst same

def relink (s : St) (ipt : Nat → Frame) (head tail : Nat) : St :=
  { s with ipt := ipt, flistHead := head, flistTail := tail }

section Links

variable (ipt : Nat → Frame) (fr x : Nat) (frame : Frame)

theorem nexts_update :
    nexts (Function.update ipt fr frame) = Function.update (nexts ipt) fr frame.nextFrame := by
  funext x
  by_cases same : x = fr
  · simp [nexts, same]
  · simp [nexts, same]

theorem prevs_update :
    prevs (Function.update ipt fr frame) = Function.update (prevs ipt) fr frame.prevFrame := by
  funext x
  by_cases same : x = fr
  · simp [prevs, same]
  · simp [prevs, same]

theorem core_update (same : core frame = core (ipt fr)) :
    core (Function.update ipt fr frame x) = core (ipt x) := by
  by_cases here : x = fr
  · subst here
    rw [Function.update_self, same]
  · rw [Function.update_of_ne here]

/-- `ipt[fr].nextFrame = value` moves one pointer. -/
theorem set_next_links (value : Nat) :
    nexts (Function.update ipt fr { ipt fr with nextFrame := value }) =
        Function.update (nexts ipt) fr value ∧
      prevs (Function.update ipt fr { ipt fr with nextFrame := value }) = prevs ipt :=
  ⟨nexts_update ipt fr _, (prevs_update ipt fr _).trans (Function.update_eq_self fr (prevs ipt))⟩

theorem set_prev_links (value : Nat) :
    nexts (Function.update ipt fr { ipt fr with prevFrame := value }) = nexts ipt ∧
      prevs (Function.update ipt fr { ipt fr with prevFrame := value }) =
        Function.update (prevs ipt) fr value :=
  ⟨(nexts_update ipt fr _).trans (Function.update_eq_self fr (nexts ipt)), prevs_update ipt fr _⟩

end Links

variable [Config]

def HoldsPage (s : St) (fr : Nat) : Prop := fr < nframes ∧ (s.ipt fr).status = .page

instance (s : St) (fr : Nat) : Decidable (HoldsPage s fr) := inferInstanceAs (Decidable (_ ∧ _))

structure FrameQueue (s : St) (off : Nat) (nodes : List Nat) : Prop where
  queue : Queue (nexts s.ipt) (prevs s.ipt) empty s.flistHead s.flistTail nodes
  members : ∀ fr, fr ∈ nodes ↔ HoldsPage s fr ∧ fr ≠ off
  detached : off < nframes → (s.ipt off).status = .page ∧ nexts s.ipt off = empty

section Unlinking

variable {s : St} {fr : Nat} {front back : List Nat}

/-- `freeFrameFIFO` takes a queued frame out, whatever its place in the queue. -/
theorem free_frame_fifo_ok
    (queue : Queue (nexts s.ipt) (prevs s.ipt) empty s.flistHead s.flistTail (front ++ fr :: back))
    (inside : ∀ x ∈ front ++ fr :: back, x < nframes) :
    ∃ ipt head tail, freeFrameFIFO fr s = .ok () (relink s ipt head tail) ∧
      Queue (nexts ipt) (prevs ipt) empty head tail (front ++ back) ∧
      (∀ x, core (ipt x) = core (s.ipt x)) ∧
      ∀ x, x ∉ front ++ fr :: back → ipt x = s.ipt x := by
  have bound : fr < nframes := inside fr (by simp)
  have isHead := head_is_node_iff queue
  have isTail := tail_is_node_iff queue
  have prevFr : (s.ipt fr).prevFrame = front.getLastD empty := unlinked_prev queue
  have nextFr : (s.ipt fr).nextFrame = back.headD empty := unlinked_next queue
  unfold freeFrameFIFO
  simp only [bind_ok (read_frame_ok bound), get_bind, prevFr, nextFr, isHead, isTail]
  rcases List.eq_nil_or_concat front with rfl | ⟨before, prev, rfl⟩
  · cases back with
    | nil =>
        refine ⟨s.ipt, empty, empty, ?_, queue_nil _ _ _, fun x => rfl, fun x _ => rfl⟩
        rw [if_pos ⟨rfl, rfl⟩]
        rfl
    | cons next after =>
        have nextBound : next < nframes := inside next (by simp)
        have links := set_prev_links s.ipt next empty
        refine ⟨Function.update s.ipt next { s.ipt next with prevFrame := empty }, next,
          s.flistTail, ?_, ?_, fun x => core_update _ _ _ _ rfl, ?_⟩
        · rw [if_neg (by simp), if_pos rfl, List.headD_cons, bind_ok (modify_frame_ok nextBound _)]
          rfl
        · rw [links.1, links.2]
          exact pop_front queue
        · intro x outside
          rw [Function.update_of_ne]
          rintro rfl
          exact outside (by simp)
  · have prevBound : prev < nframes := inside prev (by simp)
    simp only [List.concat_eq_append, List.append_assoc, List.singleton_append] at queue
    simp only [List.concat_eq_append, List.getLastD_concat, List.append_eq_nil_iff, reduceCtorEq,
      and_false, false_and, if_false]
    cases back with
    | nil =>
        have links := set_next_links s.ipt prev empty
        refine ⟨Function.update s.ipt prev { s.ipt prev with nextFrame := empty }, s.flistHead,
          prev, ?_, ?_, fun x => core_update _ _ _ _ rfl, ?_⟩
        · rw [if_pos rfl, bind_ok (modify_frame_ok prevBound _)]
          rfl
        · rw [links.1, links.2, List.append_nil]
          exact pop_back queue
        · intro x outside
          rw [Function.update_of_ne]
          rintro rfl
          exact outside (by simp)
    | cons next after =>
        have nextBound : next < nframes := inside next (by simp)
        let middle := setFrame s prev { s.ipt prev with nextFrame := next }
        have nextLinks : nexts middle.ipt = Function.update (nexts s.ipt) prev next ∧
            prevs middle.ipt = prevs s.ipt := set_next_links s.ipt prev next
        have prevLinks := set_prev_links middle.ipt next prev
        refine ⟨Function.update middle.ipt next { middle.ipt next with prevFrame := prev },
          s.flistHead, s.flistTail, ?_, ?_, ?_, ?_⟩
        · rw [if_neg (by simp), List.headD_cons, bind_ok (modify_frame_ok prevBound _),
            modify_frame_ok nextBound]
          rfl
        · rw [prevLinks.1, prevLinks.2, nextLinks.1, nextLinks.2, List.append_assoc]
          exact unlink_between queue
        · intro x
          have kept : core (middle.ipt x) = core (s.ipt x) := core_update s.ipt prev x _ rfl
          rw [← kept]
          exact core_update middle.ipt next x _ rfl
        · intro x outside
          have notNext : x ≠ next := fun same => outside (by simp [same])
          have notPrev : x ≠ prev := fun same => outside (by simp [same])
          rw [Function.update_of_ne notNext]
          exact Function.update_of_ne notPrev _ _

end Unlinking

section FrameQueue

variable {s : St} {off fr : Nat} {nodes : List Nat}

theorem frame_queue_congr {final : St} (queue : FrameQueue s off nodes) (ipt : final.ipt = s.ipt)
    (head : final.flistHead = s.flistHead) (tail : final.flistTail = s.flistTail) :
    FrameQueue final off nodes := by
  obtain ⟨links, members, detached⟩ := queue
  refine ⟨?_, ?_, ?_⟩
  · rw [ipt, head, tail]
    exact links
  · intro fr
    rw [members, HoldsPage, HoldsPage, ipt]
  · rw [ipt]
    exact detached

theorem node_bound (queue : FrameQueue s off nodes) (member : fr ∈ nodes) : fr < nframes :=
  ((queue.members fr).mp member).1.1

theorem off_not_queued (queue : FrameQueue s off nodes) : off ∉ nodes := by
  intro member
  exact ((queue.members off).mp member).2 rfl

/-- The state of a freed frame is the only one that changes. -/
theorem holds_page_of_cores {ipt : Nat → Frame} {head tail : Nat} {left : Frame}
    (cores : ∀ x, core (ipt x) = if x = fr then core left else core (s.ipt x)) (x : Nat) :
    HoldsPage (relink s ipt head tail) x ↔
      if x = fr then x < nframes ∧ left.status = .page else HoldsPage s x := by
  have same := congrArg Prod.fst (cores x)
  by_cases here : x = fr
  · rw [if_pos here] at same ⊢
    simp only [HoldsPage, relink]
    rw [show (ipt x).status = left.status from same]
  · rw [if_neg here] at same ⊢
    simp only [HoldsPage, relink]
    rw [show (ipt x).status = (s.ipt x).status from same]

theorem free_frame_page (bound : fr < nframes) (fifo : s.ker.currpolicy = .fifo)
    (page : (s.ipt fr).status = .page) :
    freeFrame fr s = (freeFrameFIFO fr >>= fun _ => clearFrame fr) s := by
  unfold freeFrame
  rw [bind_ok (read_frame_ok bound), get_bind]
  simp only [fifo, page, and_self, if_true]

theorem free_frame_plain (bound : fr < nframes)
    (plain : s.ker.currpolicy = .gca ∨ (s.ipt fr).status ≠ .page) :
    freeFrame fr s = .ok () (setFrame s fr clearedFrame) := by
  have notFifo : ¬(s.ker.currpolicy = .fifo ∧ (s.ipt fr).status = .page) := by
    rintro ⟨fifo, page⟩
    rcases plain with gca | notPage
    · rw [fifo] at gca
      cases gca
    · exact notPage page
  unfold freeFrame
  rw [bind_ok (read_frame_ok bound), get_bind]
  simp only [if_neg notFifo]
  split
  · change clearFrame fr s = _
    exact modify_frame_ok bound _
  · exact modify_frame_ok bound _

theorem free_frame_ok (queue : FrameQueue s off nodes) (fifo : s.ker.currpolicy = .fifo)
    (bound : fr < nframes) (notOff : fr ≠ off) :
    ∃ ipt head tail, freeFrame fr s = .ok () (relink s ipt head tail) ∧
      FrameQueue (relink s ipt head tail) off (nodes.erase fr) ∧
      ∀ x, core (ipt x) = if x = fr then core clearedFrame else core (s.ipt x) := by
  have nodup := queue.queue.nodup
  have unlinked : ∃ ipt head tail,
      freeFrame fr s = .ok () (relink s (Function.update ipt fr clearedFrame) head tail) ∧
      Queue (nexts ipt) (prevs ipt) empty head tail (nodes.erase fr) ∧
      (∀ x, core (ipt x) = core (s.ipt x)) ∧ ∀ x, x ∉ nodes → ipt x = s.ipt x := by
    by_cases page : (s.ipt fr).status = .page
    · have member : fr ∈ nodes := (queue.members fr).mpr ⟨⟨bound, page⟩, notOff⟩
      obtain ⟨front, back, rfl⟩ := List.append_of_mem member
      have absent : fr ∉ front := by
        intro inFront
        exact (List.nodup_append.mp nodup).2.2 fr inFront fr (by simp) rfl
      obtain ⟨ipt, head, tail, ran, links, cores, others⟩ := free_frame_fifo_ok queue.queue
        fun x inQueue => node_bound queue inQueue
      rw [List.erase_append_right _ absent, List.erase_cons_head]
      refine ⟨ipt, head, tail, ?_, links, cores, others⟩
      rw [free_frame_page bound fifo page, bind_ok ran, clearFrame, modify_frame_ok bound]
      rfl
    · have absent : fr ∉ nodes := fun member => page ((queue.members fr).mp member).1.2
      refine ⟨s.ipt, s.flistHead, s.flistTail, free_frame_plain bound (Or.inr page), ?_,
        fun x => rfl, fun x _ => rfl⟩
      rw [List.erase_of_not_mem absent]
      exact queue.queue
  obtain ⟨ipt, head, tail, ran, links, cores, others⟩ := unlinked
  have cleared : ∀ x, core (Function.update ipt fr clearedFrame x) =
      if x = fr then core clearedFrame else core (s.ipt x) := by
    intro x
    by_cases here : x = fr
    · rw [if_pos here, here, Function.update_self]
    · rw [if_neg here, Function.update_of_ne here, cores]
  refine ⟨Function.update ipt fr clearedFrame, head, tail, ran, ⟨?_, ?_, ?_⟩, cleared⟩
  · apply queue_congr links
    · intro x member
      have different : x ≠ fr := ((nodup.mem_erase_iff).mp member).1
      simp [relink, nexts_update, different]
    · intro x member
      have different : x ≠ fr := ((nodup.mem_erase_iff).mp member).1
      simp [relink, prevs_update, different]
  · intro x
    rw [nodup.mem_erase_iff, queue.members, holds_page_of_cores cleared]
    by_cases here : x = fr
    · simp [here, clearedFrame]
    · simp [here]
  · intro offBound
    simp only [relink, nexts]
    rw [Function.update_of_ne (Ne.symm notOff), others off (off_not_queued queue)]
    exact queue.detached offBound

/-- Freeing the frame that an allocation has taken off the queue follows a null
link: `next` is `EMPTY`. -/
theorem free_off_stops (queue : FrameQueue s off nodes) (fifo : s.ker.currpolicy = .fifo)
    (bound : off < nframes) :
    ∃ index final, freeFrame off s = .error (.badIndex index) final ∧ ¬index < nframes := by
  have absent := off_not_queued queue
  have notHead : off ≠ s.flistHead := by
    rw [queue.queue.headEq]
    cases nodes with
    | nil =>
        rintro rfl
        exact empty_not_frame bound
    | cons first rest =>
        rintro rfl
        exact absent (by simp)
  have notTail : off ≠ s.flistTail := by
    rw [queue.queue.tailEq]
    rcases List.eq_nil_or_concat nodes with rfl | ⟨front, last, rfl⟩
    · rintro rfl
      exact empty_not_frame bound
    · rw [List.concat_eq_append, List.getLastD_concat]
      rintro rfl
      exact absent (by simp)
  obtain ⟨page, next⟩ : (s.ipt off).status = .page ∧ (s.ipt off).nextFrame = empty :=
    queue.detached bound
  have stops : ∃ index final, freeFrameFIFO off s = .error (.badIndex index) final ∧
      ¬index < nframes := by
    unfold freeFrameFIFO
    simp only [bind_ok (read_frame_ok bound), get_bind, next, notHead, notTail, false_and, if_false]
    by_cases prevBound : (s.ipt off).prevFrame < nframes
    · rw [bind_ok (modify_frame_ok prevBound _), modify_frame_bad empty_not_frame]
      exact ⟨_, _, rfl, empty_not_frame⟩
    · rw [bind_error (modify_frame_bad prevBound _)]
      exact ⟨_, _, rfl, prevBound⟩
  obtain ⟨index, final, ran, outside⟩ := stops
  refine ⟨index, final, ?_, outside⟩
  rw [free_frame_page bound fifo page, bind_error ran]

theorem init_frame_plain (bound : fr < nframes) (type : FrameStatus) (pid vpn : Int)
    (plain : s.ker.currpolicy = .gca ∨ type ≠ .page) :
    initFrame fr type pid vpn s = .ok () (setFrame s fr (newFrame type pid vpn)) := by
  let started := setFrame s fr (newFrame type pid vpn)
  have notFifo : ¬(type = .page ∧ started.ker.currpolicy = .fifo) := by
    rintro ⟨page, fifo⟩
    rcases plain with gca | notPage
    · rw [show s.ker.currpolicy = .fifo from fifo] at gca
      cases gca
    · exact notPage page
  unfold initFrame
  rw [bind_ok (modify_frame_ok bound _), get_bind, if_neg notFifo]
  split
  · rfl
  · rfl

theorem init_frame_page (bound : fr < nframes) (fifo : s.ker.currpolicy = .fifo) (pid vpn : Int) :
    initFrame fr .page pid vpn s = initFrameFIFO fr (setFrame s fr (newFrame .page pid vpn)) := by
  unfold initFrame
  rw [bind_ok (modify_frame_ok bound _), get_bind]
  simp only [setFrame, fifo, and_self, if_true, reduceCtorEq, and_false, if_false]
  rw [bind_apply]
  split
  · rename_i ran
    rw [ran]
    rfl
  · rename_i ran
    rw [ran]

/-- The new frame goes in front of the queue. -/
theorem init_frame_fifo_ok
    (queue : Queue (nexts s.ipt) (prevs s.ipt) empty s.flistHead s.flistTail nodes)
    (inside : ∀ x ∈ nodes, x < nframes) (bound : fr < nframes)
    (absent : fr ∉ nodes) (links : (s.ipt fr).nextFrame = empty ∧ (s.ipt fr).prevFrame = empty) :
    ∃ ipt head tail, initFrameFIFO fr s = .ok () (relink s ipt head tail) ∧
      Queue (nexts ipt) (prevs ipt) empty head tail (fr :: nodes) ∧
      ∀ x, core (ipt x) = core (s.ipt x) := by
  have proper : fr ≠ empty := fun same => empty_not_frame (same ▸ bound)
  have isEmpty : s.flistHead = empty ∧ s.flistTail = empty ↔ nodes = [] := by
    rw [head_null_iff queue, tail_null_iff queue, and_self]
  have headEq := queue.headEq
  unfold initFrameFIFO
  rw [get_bind]
  simp only [isEmpty]
  cases nodes with
  | nil =>
      refine ⟨s.ipt, fr, fr, rfl, ⟨rfl, rfl, ⟨links.2, links.1, trivial⟩, by simp, ?_⟩, fun x => rfl⟩
      simpa using Ne.symm proper
  | cons first rest =>
      have firstBound : first < nframes := inside first (by simp)
      have different : fr ≠ first := fun same => absent (by simp [same])
      have headFirst : s.flistHead = first := headEq
      let middle := setFrame s fr { s.ipt fr with nextFrame := first, prevFrame := empty }
      have middleNexts : nexts middle.ipt = Function.update (nexts s.ipt) fr first :=
        nexts_update s.ipt fr _
      have middlePrevs : prevs middle.ipt = Function.update (prevs s.ipt) fr empty :=
        prevs_update s.ipt fr _
      have firstLinks := set_prev_links middle.ipt first fr
      refine ⟨Function.update middle.ipt first { middle.ipt first with prevFrame := fr }, fr,
        (fr :: first :: rest).getLastD empty, ?_, ?_, ?_⟩
      · have tailEq := queue.tailEq
        rw [if_neg (by simp), headFirst, bind_ok (modify_frame_ok bound _),
          bind_ok (modify_frame_ok firstBound _), modify_apply]
        simp only [setFrame, relink, tailEq]
        rfl
      · have nodup := queue.nodup
        rw [firstLinks.1, firstLinks.2, middleNexts, middlePrevs]
        apply push_front queue absent proper
        · rw [Function.update_self, headFirst]
        · rw [Function.update_of_ne different, Function.update_self]
        · intro node member
          rw [Function.update_of_ne]
          rintro rfl
          exact absent member
        · intro node isFirst
          have same : node = first := by simpa using isFirst.symm
          rw [same, Function.update_self]
        · intro node member
          have notFirst : node ≠ first := by
            rintro rfl
            exact (List.nodup_cons.mp nodup).1 member
          have notFr : node ≠ fr := by
            rintro rfl
            exact absent (by simp [show node ∈ rest from member])
          rw [Function.update_of_ne notFirst, Function.update_of_ne notFr]
      · intro x
        have kept : core (middle.ipt x) = core (s.ipt x) := core_update s.ipt fr x _ rfl
        rw [← kept]
        exact core_update middle.ipt first x _ rfl

theorem init_frame_ok (queue : FrameQueue s off nodes) (fifo : s.ker.currpolicy = .fifo)
    (bound : fr < nframes) (absent : fr ∉ nodes) (noOff : off = fr ∨ ¬off < nframes)
    (type : FrameStatus) (pid vpn : Int) :
    ∃ ipt head tail, initFrame fr type pid vpn s = .ok () (relink s ipt head tail) ∧
      FrameQueue (relink s ipt head tail) empty (if type = .page then fr :: nodes else nodes) ∧
      ∀ x, core (ipt x) = if x = fr then core (newFrame type pid vpn) else core (s.ipt x) := by
  let started := setFrame s fr (newFrame type pid vpn)
  have startedCores : ∀ x, core (started.ipt x) =
      if x = fr then core (newFrame type pid vpn) else core (s.ipt x) := by
    intro x
    by_cases here : x = fr
    · rw [if_pos here, here]
      simp [started, setFrame]
    · rw [if_neg here]
      simp [started, setFrame, here]
  have startedQueue : Queue (nexts started.ipt) (prevs started.ipt) empty started.flistHead
      started.flistTail nodes := by
    apply queue_congr queue.queue
    · intro x member
      have different : x ≠ fr := fun same => absent (same ▸ member)
      simp [started, setFrame, nexts_update, different]
    · intro x member
      have different : x ≠ fr := fun same => absent (same ▸ member)
      simp [started, setFrame, prevs_update, different]
  have ran : ∃ ipt head tail, initFrame fr type pid vpn s = .ok () (relink s ipt head tail) ∧
      Queue (nexts ipt) (prevs ipt) empty head tail (if type = .page then fr :: nodes else nodes) ∧
      ∀ x, core (ipt x) = core (started.ipt x) := by
    by_cases page : type = .page
    · subst page
      have links : (started.ipt fr).nextFrame = empty ∧ (started.ipt fr).prevFrame = empty := by
        simp [started, setFrame, newFrame]
      have inside : ∀ x ∈ nodes, x < nframes := fun x member => node_bound queue member
      obtain ⟨ipt, head, tail, ran, linked, cores⟩ :=
        init_frame_fifo_ok startedQueue inside bound absent links
      rw [init_frame_page bound fifo]
      exact ⟨ipt, head, tail, ran, linked, cores⟩
    · rw [init_frame_plain bound type pid vpn (Or.inr page), if_neg page]
      exact ⟨started.ipt, s.flistHead, s.flistTail, rfl, startedQueue, fun x => rfl⟩
  obtain ⟨ipt, head, tail, ran, linked, cores⟩ := ran
  have allCores : ∀ x, core (ipt x) =
      if x = fr then core (newFrame type pid vpn) else core (s.ipt x) :=
    fun x => (cores x).trans (startedCores x)
  refine ⟨ipt, head, tail, ran, ⟨linked, ?_, fun bad => absurd bad empty_not_frame⟩, allCores⟩
  intro x
  have notOff : HoldsPage s x → x ≠ fr → x ≠ off := by
    intro holds different
    rcases noOff with same | outside
    · rw [same]
      exact different
    · rintro rfl
      exact outside holds.1
  have notEmpty : x < nframes → x ≠ empty := by
    rintro inside rfl
    exact empty_not_frame inside
  rw [holds_page_of_cores allCores]
  by_cases here : x = fr
  · subst here
    by_cases page : type = .page
    · simp [page, newFrame, bound, notEmpty]
    · simp [page, newFrame, absent]
  · have member := queue.members x
    rw [if_neg here]
    split
    · grind [HoldsPage]
    · grind [HoldsPage]

theorem pick_frame_empty (queue : FrameQueue s off []) : pickFrameFIFO s = .ok sysErrPtr s := by
  have tailNull := (tail_null_iff queue.queue).mpr rfl
  have headNull := (head_null_iff queue.queue).mpr rfl
  unfold pickFrameFIFO
  rw [get_bind, if_pos ⟨tailNull, headNull⟩]
  rfl

/-- `pickFrameFIFO` takes the last frame of the queue. -/
theorem pick_frame_ok {front : List Nat} (queue : FrameQueue s empty (front ++ [fr])) :
    ∃ ipt head tail, pickFrameFIFO s = .ok fr (relink s ipt head tail) ∧
      FrameQueue (relink s ipt head tail) fr front ∧
      ∀ x, core (ipt x) = core (s.ipt x) := by
  have bound : fr < nframes := node_bound queue (by simp)
  have proper : fr ≠ empty := fun same => empty_not_frame (same ▸ bound)
  have links := queue.queue
  have tailEq : s.flistTail = fr := by
    rw [links.tailEq, List.getLastD_concat]
  have next : (s.ipt fr).nextFrame = empty := unlinked_next links
  have page : (s.ipt fr).status = .page := ((queue.members fr).mp (by simp)).1.2
  have notBoth : ¬(s.flistTail = empty ∧ s.flistHead = empty) := by
    rw [tailEq]
    exact fun both => proper both.1
  have members : ∀ x, x ∈ front ↔ HoldsPage s x ∧ x ≠ fr := by
    intro x
    have member := queue.members x
    have nodup := links.nodup
    simp only [List.mem_append, List.mem_singleton] at member
    have absent : fr ∉ front := by
      intro inFront
      exact (List.nodup_append.mp nodup).2.2 fr inFront fr (by simp) rfl
    have notEmpty : HoldsPage s x → x ≠ empty := by
      rintro holds rfl
      exact empty_not_frame holds.1
    grind
  unfold pickFrameFIFO
  rw [get_bind, if_neg notBoth, tailEq]
  rcases List.eq_nil_or_concat front with rfl | ⟨before, prev, rfl⟩
  · have headEq : s.flistHead = fr := links.headEq
    refine ⟨s.ipt, empty, empty, ?_, ⟨queue_nil _ _ _, members, fun _ => ⟨page, next⟩⟩,
      fun x => rfl⟩
    rw [if_pos headEq.symm, modify_bind, if_neg proper]
    rfl
  · simp only [List.concat_eq_append, List.append_assoc, List.singleton_append] at links members ⊢
    have prevBound : prev < nframes := node_bound queue (by simp)
    have prevEq : (s.ipt fr).prevFrame = prev := by
      have split : before ++ [prev, fr] = (before ++ [prev]) ++ fr :: [] := by simp
      rw [split] at links
      have unlinked := unlinked_prev links
      rwa [List.getLastD_concat] at unlinked
    have different : fr ≠ prev := by
      have nodup := links.nodup
      grind
    have notHead : ¬fr = s.flistHead := by
      have split : before ++ [prev, fr] = (before ++ [prev]) ++ fr :: [] := by simp
      rw [split] at links
      rw [head_is_node_iff links]
      simp
    have popped := set_next_links s.ipt prev empty
    have cores : ∀ x, core (Function.update s.ipt prev { s.ipt prev with nextFrame := empty } x) =
        core (s.ipt x) := fun x => core_update _ _ _ _ rfl
    refine ⟨Function.update s.ipt prev { s.ipt prev with nextFrame := empty }, s.flistHead, prev,
      ?_, ⟨?_, ?_, ?_⟩, cores⟩
    · rw [if_neg notHead, bind_ok (read_frame_ok bound), prevEq, modify_bind,
        bind_ok (modify_frame_ok prevBound _), if_neg proper]
      rfl
    · simp only [relink]
      rw [popped.1, popped.2]
      exact pop_back links
    · intro x
      rw [members, HoldsPage, HoldsPage]
      simp only [relink]
      rw [core_status (cores x)]
    · intro _
      simp only [relink]
      rw [popped.1, Function.update_of_ne different, Function.update_of_ne different]
      exact ⟨page, next⟩

end FrameQueue

section Scan

variable {s : St}

/-- The scan of `getNewFrameFIFO` moves the hand and nothing else. What it finds
is unused, and when it finds nothing no slot it passed was. -/
theorem fifo_scan_ok (fuel : Nat) :
    ∃ hand found, fifoScan fuel s = .ok found { s with fifoNextframe := hand } ∧
      (∀ fr ∈ found, fr < nframes ∧ (s.ipt fr).status = .notUsed) ∧
      (found = none → ∀ step < fuel,
        (s.ipt ((s.fifoNextframe + step) % nframes)).status ≠ .notUsed) := by
  have positive : 0 < nframes := by
    have boot := Config.bootFrames
    omega
  induction fuel generalizing s with
  | zero => exact ⟨s.fifoNextframe, none, rfl, by simp, by simp⟩
  | succ fuel induction =>
      have bound : s.fifoNextframe % nframes < nframes := Nat.mod_lt _ positive
      unfold fifoScan
      rw [modify_bind, get_bind, bind_ok (read_frame_ok bound), modify_bind]
      by_cases unused : (s.ipt (s.fifoNextframe % nframes)).status = .notUsed
      · refine ⟨s.fifoNextframe % nframes + 1, some (s.fifoNextframe % nframes), ?_, ?_, by simp⟩
        · rw [if_pos unused]
          rfl
        · simp [bound, unused]
      · obtain ⟨hand, found, ran, usable, none⟩ :=
          induction (s := { s with fifoNextframe := s.fifoNextframe % nframes + 1 })
        refine ⟨hand, found, ?_, usable, ?_⟩
        · rw [if_neg unused]
          exact ran
        · intro nothing step stepBound
          cases step with
          | zero => simpa using unused
          | succ step =>
              have later := none nothing step (by omega)
              have position : (s.fifoNextframe % nframes + 1 + step) % nframes =
                  (s.fifoNextframe + (step + 1)) % nframes := by
                rw [Nat.add_assoc, Nat.mod_add_mod]
                congr 1
                omega
              rwa [position] at later

end Scan

end Xinu.Replacement.Fifo
