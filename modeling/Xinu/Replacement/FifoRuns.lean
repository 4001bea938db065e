import Xinu.Replacement.Fifo

/-!
# Calls that keep the FIFO queue

What one returned call of `freeFrame`, `freeProcFrames`, `decRefCount`,
`evictFrame` and `getNewFrame` does to the queue, for any arguments and whatever
the page tables hold. A call only ever removes frames from the queue, in place,
and puts a new page at its front.
-/

namespace Xinu.Replacement.FifoRuns

open Xinu.Kernel.State Xinu.Kernel.Entry Xinu.Kernel.Semaphore Xinu.Lib.StateError
open Xinu.Paging.Address Xinu.Paging.BackingStore Xinu.Paging.Ipt Xinu.Replacement.Fifo

set_option autoImplicit false

/-- The part of the state the queue is made of. -/
def queueView (s : St) : (Nat → Frame) × Nat × Nat × Policy :=
  (s.ipt, s.flistHead, s.flistTail, s.ker.currpolicy)

/-- The kernel variables that allocations and evictions leave alone. -/
def lockView (s : St) : Policy × Sentry := (s.ker.currpolicy, s.ker.semtab .pfSem)

/-- What is left alone by everything except `ipt.c`, `wait`, `signal` and `kill`. -/
def quietView (s : St) : ((Nat → Frame) × Nat × Nat × Policy) × Policy × Sentry :=
  (queueView s, lockView s)

section Views

theorem keeps_queue {α : Type} {action : Call α} (quiet : Keeps quietView action) :
    Keeps queueView action := fun s => congrArg Prod.fst (quiet s)

theorem keeps_lock {α : Type} {action : Call α} (quiet : Keeps quietView action) :
    Keeps lockView action := fun s => congrArg Prod.snd (quiet s)

theorem keeps_log (effect : Effect) : Keeps quietView (log effect) :=
  keeps_modify fun _ => rfl

theorem keeps_set_entry (table index : Nat) (change : Word → Word) :
    Keeps quietView (setEntry table index change) :=
  keeps_modify fun _ => rfl

theorem keeps_modify_ker {change : Ker → Ker}
    (kept : ∀ ker, (change ker).currpolicy = ker.currpolicy ∧
      (change ker).semtab .pfSem = ker.semtab .pfSem) :
    Keeps quietView (modifyKer change) := by
  apply keeps_modify
  intro s
  simp only [quietView, queueView, lockView, kept]

theorem keeps_wait {sem : Sem} (other : .pfSem ≠ sem) : Keeps quietView (wait sem) := by
  have kept : ∀ (ker : Ker) (change : Sentry → Sentry),
      (ker.setSem sem change).semtab .pfSem = ker.semtab .pfSem :=
    fun ker change => Function.update_of_ne other _ _
  apply keeps_bind
  · exact keeps_modify_ker fun _ => ⟨rfl, kept _ _⟩
  intro _
  apply keeps_bind keeps_get
  intro s
  apply keeps_ite
  · apply keeps_bind
    · exact keeps_modify_ker fun _ => ⟨rfl, kept _ _⟩
    intro _
    exact keeps_throw _
  · exact keeps_pure _

theorem keeps_signal {sem : Sem} (other : .pfSem ≠ sem) : Keeps quietView (signal sem) := by
  have kept : ∀ (ker : Ker) (change : Sentry → Sentry),
      (ker.setSem sem change).semtab .pfSem = ker.semtab .pfSem :=
    fun ker change => Function.update_of_ne other _ _
  apply keeps_bind keeps_get
  intro s
  apply keeps_bind
  · exact keeps_modify_ker fun _ => ⟨rfl, kept _ _⟩
  intro _
  apply keeps_ite
  · split
    · exact keeps_pure _
    · exact keeps_modify_ker fun ker =>
        ⟨rfl, kept ker fun sentry => { sentry with squeue := _ }⟩
  · exact keeps_pure _

theorem keeps_write_bs (src : Nat) (bsId : Int) (page : Nat) :
    Keeps quietView (writeBs src bsId page) := by
  apply keeps_bind (keeps_log _)
  intro _
  apply keeps_bind keeps_get
  intro s
  apply keeps_ite (keeps_pure _)
  apply keeps_ite (keeps_pure _)
  apply keeps_bind (keeps_wait (by decide))
  intro _
  apply keeps_bind keeps_get
  intro s
  apply keeps_ite
  · exact keeps_bind (keeps_signal (by decide)) fun _ => keeps_pure _
  · apply keeps_bind (keeps_signal (by decide))
    intro _
    exact keeps_bind (keeps_modify fun _ => rfl) fun _ => keeps_pure _

theorem keeps_get_bs_info (pid : Int) (vaddr : Nat) :
    Keeps quietView (getBsInfo pid vaddr) := by
  apply keeps_bind keeps_get
  intro s
  exact keeps_ite (keeps_throw _) (keeps_pure _)

theorem keeps_evict_write (e : Evicted) : Keeps quietView (evictWrite e) := by
  apply keeps_bind (keeps_get_bs_info _ _)
  intro place
  apply keeps_bind (keeps_write_bs _ _ _)
  intro status
  apply keeps_ite (keeps_throw _)
  exact keeps_bind (keeps_set_entry _ _ _) fun _ => keeps_set_entry _ _ _

end Views

variable [Config]

/-- The queue in a state whose policy is FIFO. -/
def Fifo (s : St) (off : Nat) (nodes : List Nat) : Prop :=
  s.ker.currpolicy = .fifo ∧ FrameQueue s off nodes

section Calls

variable {s final : St} {off fr : Nat} {nodes : List Nat}

theorem fifo_of_view (fifo : Fifo s off nodes) (same : queueView final = queueView s) :
    Fifo final off nodes := by
  simp only [queueView, Prod.mk.injEq] at same
  exact ⟨same.2.2.2.trans fifo.1, frame_queue_congr fifo.2 same.1 same.2.1 same.2.2.1⟩

/-- Reference counts are not part of the queue. -/
theorem set_count_fifo (fr count : Nat) (fifo : Fifo s off nodes) :
    Fifo (setFrame s fr { s.ipt fr with refCount := count }) off nodes := by
  have nextsSame : nexts (Function.update s.ipt fr { s.ipt fr with refCount := count }) =
      nexts s.ipt := (nexts_update s.ipt fr _).trans (Function.update_eq_self fr _)
  have prevsSame : prevs (Function.update s.ipt fr { s.ipt fr with refCount := count }) =
      prevs s.ipt := (prevs_update s.ipt fr _).trans (Function.update_eq_self fr _)
  have status : ∀ x, (Function.update s.ipt fr { s.ipt fr with refCount := count } x).status =
      (s.ipt x).status := by
    intro x
    by_cases here : x = fr
    · rw [here, Function.update_self]
    · rw [Function.update_of_ne here]
  obtain ⟨policy, queue⟩ := fifo
  refine ⟨policy, ?_, ?_, ?_⟩
  · simp only [setFrame, nextsSame, prevsSame]
    exact queue.queue
  · intro x
    simp only [setFrame, HoldsPage, status]
    exact queue.members x
  · simp only [setFrame, nextsSame, status]
    exact queue.detached

theorem free_frame_run (fifo : Fifo s off nodes) (ran : freeFrame fr s = .ok () final) :
    Fifo final off (nodes.erase fr) := by
  have bound : fr < nframes := by
    obtain ⟨frame, middle, readRan, _⟩ := bind_ok_inv ran
    exact (read_frame_inv readRan).1
  have notOff : fr ≠ off := by
    rintro rfl
    obtain ⟨index, stopped, stops, _⟩ := free_off_stops fifo.2 fifo.1 bound
    rw [stops] at ran
    cases ran
  obtain ⟨ipt, head, tail, freed, queue, _⟩ := free_frame_ok fifo.2 fifo.1 bound notOff
  rw [freed] at ran
  cases ran
  exact ⟨fifo.1, queue⟩

theorem free_proc_frames_from_run (pid : Int) (fuel i : Nat) (fifo : Fifo s off nodes)
    (ran : freeProcFramesFrom pid fuel i s = .ok () final) :
    ∃ rest, rest.Sublist nodes ∧ Fifo final off rest := by
  induction fuel generalizing s nodes i with
  | zero =>
      cases ran
      exact ⟨nodes, List.Sublist.refl nodes, fifo⟩
  | succ fuel induction =>
      obtain ⟨frame, read, readRan, ran⟩ := bind_ok_inv ran
      obtain ⟨_, rfl, rfl⟩ := read_frame_inv readRan
      by_cases own : (read.ipt i).pid = pid
      · rw [if_pos own] at ran
        obtain ⟨_, freed, freeRan, ran⟩ := bind_ok_inv ran
        obtain ⟨rest, sublist, kept⟩ := induction (i + 1) (free_frame_run fifo freeRan) ran
        exact ⟨rest, sublist.trans List.erase_sublist, kept⟩
      · rw [if_neg own] at ran
        exact induction (i + 1) fifo ran

theorem free_proc_frames_run (pid : Int) (fifo : Fifo s off nodes)
    (ran : freeProcFrames pid s = .ok () final) :
    ∃ rest, rest.Sublist nodes ∧ Fifo final off rest := by
  unfold freeProcFrames at ran
  rw [get_bind] at ran
  split at ran
  · cases ran
    exact ⟨nodes, List.Sublist.refl nodes, fifo⟩
  · exact free_proc_frames_from_run pid nframes 0 fifo ran

theorem dec_ref_count_run {pt pd pdi : Nat} (fifo : Fifo s off nodes)
    (ran : decRefCount pt pd pdi s = .ok () final) :
    ∃ rest, rest.Sublist nodes ∧ Fifo final off rest := by
  obtain ⟨fr, logged, logRan, ran⟩ := bind_ok_inv ran
  have loggedFifo : Fifo logged off nodes := by
    apply fifo_of_view fifo
    exact keeps_ok (keeps_queue (keeps_bind (keeps_log _) fun _ => keeps_pure _)) logRan
  obtain ⟨_, counted, countRan, ran⟩ := bind_ok_inv ran
  obtain ⟨bound, rfl⟩ := modify_frame_inv countRan
  have countedFifo := set_count_fifo fr (((logged.ipt fr).refCount + word32 - 1) % word32) loggedFifo
  obtain ⟨frame, read, readRan, ran⟩ := bind_ok_inv ran
  obtain ⟨_, rfl, rfl⟩ := read_frame_inv readRan
  split at ran
  · obtain ⟨_, freed, freeRan, ran⟩ := bind_ok_inv ran
    refine ⟨nodes.erase fr, List.erase_sublist, ?_⟩
    apply fifo_of_view (free_frame_run countedFifo freeRan)
    exact keeps_ok (keeps_queue (keeps_bind (keeps_set_entry _ _ _) fun _ => keeps_log _)) ran
  · cases ran
    exact ⟨nodes, List.Sublist.refl nodes, countedFifo⟩

theorem evict_begin_run {e : Evicted} (fifo : Fifo s off nodes)
    (ran : evictBegin fr s = .ok e final) :
    e.vp = (s.ipt fr).vpn ∧ e.pid = (s.ipt fr).pid ∧
      ∃ rest, rest.Sublist nodes ∧ Fifo final off rest := by
  obtain ⟨frame, read, readRan, ran⟩ := bind_ok_inv ran
  obtain ⟨bound, rfl, rfl⟩ := read_frame_inv readRan
  rw [get_bind] at ran
  obtain ⟨_, cleared, clearRan, ran⟩ := bind_ok_inv ran
  have clearedFifo := fifo_of_view fifo (keeps_ok (keeps_queue (keeps_set_entry _ _ _)) clearRan)
  have counted : ∀ {middle : St}, Fifo middle off nodes →
      (do
        decRefCount (pdi2pt read (read.ker.proctab (read.ipt fr).pid).pd
            (vaddr2pdi (pageAddr (read.ipt fr).vpn)))
          (read.ker.proctab (read.ipt fr).pid).pd (vaddr2pdi (pageAddr (read.ipt fr).vpn))
        pure
          { fr := fr, vp := (read.ipt fr).vpn, pid := (read.ipt fr).pid,
            a := pageAddr (read.ipt fr).vpn,
            pt := pdi2pt read (read.ker.proctab (read.ipt fr).pid).pd
              (vaddr2pdi (pageAddr (read.ipt fr).vpn)),
            pti := vaddr2pti (pageAddr (read.ipt fr).vpn) } : Call Evicted) middle = .ok e final →
      e.vp = (read.ipt fr).vpn ∧ e.pid = (read.ipt fr).pid ∧
        ∃ rest, rest.Sublist nodes ∧ Fifo final off rest := by
    intro middle middleFifo ran
    obtain ⟨_, dropped, dropRan, ran⟩ := bind_ok_inv ran
    cases ran
    exact ⟨rfl, rfl, dec_ref_count_run middleFifo dropRan⟩
  split at ran
  · obtain ⟨_, logged, logRan, ran⟩ := bind_ok_inv ran
    exact counted (fifo_of_view clearedFifo (keeps_ok (keeps_queue (keeps_log _)) logRan)) ran
  · exact counted clearedFifo ran

/-- `evictFrame` reports the page that was in the frame. -/
theorem evict_frame_run (fifo : Fifo s off nodes) (ran : evictFrame fr s = .ok () final) :
    final.trace.head? = some (.hookPswapOut (s.ipt fr).pid (s.ipt fr).vpn (fr + frame0)) ∧
      ∃ rest, rest.Sublist nodes ∧ Fifo final off rest := by
  obtain ⟨e, begun, beginRan, ran⟩ := bind_ok_inv ran
  obtain ⟨vpn, pid, rest, sublist, begunFifo⟩ := evict_begin_run fifo beginRan
  rw [get_bind] at ran
  have reported : ∀ {written : St}, Fifo written off rest →
      log (.hookPswapOut e.pid e.vp (fr + frame0)) written = .ok () final →
      final.trace.head? = some (.hookPswapOut (s.ipt fr).pid (s.ipt fr).vpn (fr + frame0)) ∧
        ∃ rest, rest.Sublist nodes ∧ Fifo final off rest := by
    intro written writtenFifo ran
    refine ⟨?_, rest, sublist, fifo_of_view writtenFifo (keeps_ok (keeps_queue (keeps_log _)) ran)⟩
    cases ran
    rw [← vpn, ← pid]
    rfl
  split at ran
  · obtain ⟨_, written, writeRan, ran⟩ := bind_ok_inv ran
    exact reported (fifo_of_view begunFifo (keeps_ok (keeps_queue (keeps_evict_write _)) writeRan)) ran
  · exact reported begunFifo ran

theorem init_frame_run {type : FrameStatus} {pid vpn : Int} (fifo : Fifo s off nodes)
    (absent : fr ∉ nodes) (noOff : off = fr ∨ ¬off < nframes)
    (ran : initFrame fr type pid vpn s = .ok () final) :
    Fifo final empty (if type = .page then fr :: nodes else nodes) ∧ final.trace = s.trace := by
  have bound : fr < nframes := by
    obtain ⟨_, middle, modifyRan, _⟩ := bind_ok_inv ran
    exact (modify_frame_inv modifyRan).1
  obtain ⟨ipt, head, tail, inited, queue, _⟩ :=
    init_frame_ok fifo.2 fifo.1 bound absent noOff type pid vpn
  rw [inited] at ran
  cases ran
  exact ⟨⟨fifo.1, queue⟩, rfl⟩

end Calls

section Allocation

/-- No frame is free for the taking. -/
def AllUsed (s : St) : Prop := ∀ fr < nframes, (s.ipt fr).status ≠ .notUsed

instance (s : St) : Decidable (AllUsed s) :=
  inferInstanceAs (Decidable (∀ fr < nframes, (s.ipt fr).status ≠ .notUsed))

/-- The three ways in which `getNewFrame` returns under FIFO. -/
inductive Allocation (s final : St) (type : FrameStatus) (nodes : List Nat) (addr : Nat) : Prop
  | unused (fr : Nat) (bound : fr < nframes) (free : (s.ipt fr).status = .notUsed)
      (address : addr = frameNum2ptr fr)
      (queue : Fifo final empty (if type = .page then fr :: nodes else nodes))
  | evicted (fr : Nat) (front rest : List Nat) (full : AllUsed s) (oldest : nodes = front ++ [fr])
      (kept : rest.Sublist front) (address : addr = frameNum2ptr fr)
      (hook : final.trace.head? =
        some (.hookPswapOut (s.ipt fr).pid (s.ipt fr).vpn (fr + frame0)))
      (queue : Fifo final empty (if type = .page then fr :: rest else rest))
  | exhausted (full : AllUsed s) (noPage : nodes = []) (address : addr = sysErrPtr)
      (queue : Fifo final empty [])

variable {s final : St} {nodes : List Nat} {type : FrameStatus} {pid vpn : Int} {addr : Nat}

theorem scan_finds_all {hand : Nat}
    (none : ∀ step < nframes, (s.ipt ((hand + step) % nframes)).status ≠ .notUsed) :
    AllUsed s := by
  intro fr bound
  have here := none ((fr + nframes - hand % nframes) % nframes) (Nat.mod_lt _ (by omega))
  have position : (hand + (fr + nframes - hand % nframes) % nframes) % nframes = fr := by
    have handBound := Nat.mod_lt hand (show 0 < nframes by omega)
    rw [Nat.add_mod_mod, ← Nat.mod_add_mod]
    have total : hand % nframes + (fr + nframes - hand % nframes) = fr + nframes := by omega
    rw [total, Nat.add_mod_right, Nat.mod_eq_of_lt bound]
  rwa [position] at here

theorem get_new_frame_run (fifo : Fifo s empty nodes)
    (ran : getNewFrame type pid vpn s = .ok addr final) : Allocation s final type nodes addr := by
  unfold getNewFrame at ran
  rw [get_bind, if_pos fifo.1] at ran
  obtain ⟨hand, found, scanned, usable, none⟩ := fifo_scan_ok (s := s) nframes
  unfold getNewFrameFIFO at ran
  rw [bind_ok scanned] at ran
  have scannedFifo : Fifo { s with fifoNextframe := hand } empty nodes := fifo_of_view fifo rfl
  cases found with
  | some fr =>
      obtain ⟨bound, free⟩ := usable fr rfl
      have absent : fr ∉ nodes := by
        intro member
        have page := ((fifo.2.members fr).mp member).1.2
        rw [free] at page
        cases page
      obtain ⟨_, inited, initRan, ran⟩ := bind_ok_inv ran
      cases ran
      exact .unused fr bound free rfl
        (init_frame_run scannedFifo absent (Or.inr empty_not_frame) initRan).1
  | none =>
      have full : AllUsed s := scan_finds_all (none rfl)
      obtain ⟨fr, picked, pickRan, ran⟩ := bind_ok_inv ran
      unfold pickFrame at pickRan
      rw [get_bind, if_pos scannedFifo.1] at pickRan
      rcases List.eq_nil_or_concat nodes with rfl | ⟨front, last, rfl⟩
      · rw [pick_frame_empty scannedFifo.2] at pickRan
        cases pickRan
        rw [if_pos rfl] at ran
        cases ran
        exact .exhausted full rfl rfl scannedFifo
      · rw [List.concat_eq_append] at scannedFifo
        obtain ⟨ipt, head, tail, pickedOk, queue, cores⟩ := pick_frame_ok scannedFifo.2
        rw [pickedOk] at pickRan
        obtain ⟨rfl, rfl⟩ : last = fr ∧ relink { s with fifoNextframe := hand } ipt head tail = picked := by
          cases pickRan
          exact ⟨rfl, rfl⟩
        have lastBound : last < nframes := node_bound scannedFifo.2 (by simp)
        have notErr : last ≠ sysErrPtr := by
          have space := Config.frameSpace
          rw [sysErrPtr]
          omega
        rw [if_neg notErr] at ran
        obtain ⟨_, evicted, evictRan, ran⟩ := bind_ok_inv ran
        obtain ⟨_, inited, initRan, ran⟩ := bind_ok_inv ran
        cases ran
        have pickedFifo : Fifo (relink { s with fifoNextframe := hand } ipt head tail) last front :=
          ⟨fifo.1, queue⟩
        obtain ⟨hook, rest, sublist, evictedFifo⟩ := evict_frame_run pickedFifo evictRan
        have absent : last ∉ rest := fun member => off_not_queued evictedFifo.2 member
        obtain ⟨finalFifo, trace⟩ := init_frame_run evictedFifo absent (Or.inl rfl) initRan
        have same : core (ipt last) = core (s.ipt last) := cores last
        simp only [core, Prod.mk.injEq] at same
        refine .evicted last front rest full (List.concat_eq_append) sublist rfl ?_ finalFifo
        rw [trace, hook]
        simp only [relink, same.2.1, same.2.2.1]

end Allocation

section Lock

omit [Config] in
theorem keeps_frame_lock {α : Type} {action : Call α} (keeps : Keeps outsideView action) :
    Keeps lockView action :=
  keeps_map keeps fun outside => (outside.1.currpolicy, outside.1.semtab .pfSem)

theorem evict_frame_keeps_lock (fr : Nat) : Keeps lockView (evictFrame fr) := by
  have drop : ∀ pt pd pdi, Keeps lockView (decRefCount pt pd pdi) := by
    intro pt pd pdi
    apply keeps_bind (keeps_lock (keeps_bind (keeps_log _) fun _ => keeps_pure _))
    intro table
    apply keeps_bind (keeps_frame_lock (keeps_modify_frame _ _))
    intro _
    apply keeps_bind (keeps_frame_lock (keeps_read_frame _))
    intro frame
    apply keeps_ite
    · apply keeps_bind (keeps_frame_lock (keeps_free_frame _))
      intro _
      exact keeps_lock (keeps_bind (keeps_set_entry _ _ _) fun _ => keeps_log _)
    · exact keeps_pure _
  have begin : Keeps lockView (evictBegin fr) := by
    apply keeps_bind (keeps_frame_lock (keeps_read_frame _))
    intro frame
    apply keeps_bind keeps_get
    intro s
    apply keeps_bind (keeps_lock (keeps_set_entry _ _ _))
    intro _
    apply keeps_ite
    · apply keeps_bind (keeps_lock (keeps_log _))
      intro _
      exact keeps_bind (drop _ _ _) fun _ => keeps_pure _
    · exact keeps_bind (drop _ _ _) fun _ => keeps_pure _
  apply keeps_bind begin
  intro e
  apply keeps_bind keeps_get
  intro s
  apply keeps_ite
  · exact keeps_bind (keeps_lock (keeps_evict_write _)) fun _ => keeps_lock (keeps_log _)
  · exact keeps_lock (keeps_log _)

theorem fifo_scan_keeps_lock (fuel : Nat) : Keeps lockView (fifoScan fuel) := by
  induction fuel with
  | zero => exact keeps_pure _
  | succ fuel induction =>
      apply keeps_bind
      · exact keeps_modify fun _ => rfl
      intro _
      apply keeps_bind keeps_get
      intro s
      apply keeps_bind (keeps_frame_lock (keeps_read_frame _))
      intro frame
      apply keeps_bind
      · exact keeps_modify fun _ => rfl
      intro _
      exact keeps_ite (keeps_pure _) induction

theorem gca_scan_keeps_lock (fuel : Nat) : Keeps lockView (gcaScan fuel) := by
  have visit : ∀ fr, Keeps lockView (getAndSetUM fr) := by
    intro fr
    apply keeps_bind (keeps_frame_lock (keeps_read_frame _))
    intro frame
    apply keeps_ite (keeps_pure _)
    apply keeps_bind keeps_get
    intro s
    apply keeps_ite
    · apply keeps_bind (keeps_lock (keeps_set_entry _ _ _))
      intro _
      exact keeps_bind (keeps_lock (keeps_set_entry _ _ _)) fun _ => keeps_pure _
    · apply keeps_ite
      · exact keeps_bind (keeps_lock (keeps_set_entry _ _ _)) fun _ => keeps_pure _
      · exact keeps_ite (keeps_pure _) (keeps_throw _)
  induction fuel with
  | zero => exact keeps_pure _
  | succ fuel induction =>
      apply keeps_bind
      · exact keeps_modify fun _ => rfl
      intro _
      apply keeps_bind keeps_get
      intro s
      apply keeps_bind (keeps_frame_lock (keeps_read_frame _))
      intro frame
      apply keeps_ite
      · apply keeps_bind
        · exact keeps_modify fun _ => rfl
        intro _
        exact keeps_pure _
      · apply keeps_ite
        · apply keeps_bind (visit _)
          intro bits
          apply keeps_bind
          · exact keeps_modify fun _ => rfl
          intro _
          exact keeps_ite (keeps_pure _) induction
        · apply keeps_bind
          · exact keeps_modify fun _ => rfl
          intro _
          exact induction

theorem get_new_frame_keeps_lock (type : FrameStatus) (pid vpn : Int) :
    Keeps lockView (getNewFrame type pid vpn) := by
  have take : ∀ fr, Keeps lockView (do
      initFrame fr type pid vpn
      pure (frameNum2ptr fr)) :=
    fun fr => keeps_bind (keeps_frame_lock (keeps_init_frame _ _ _ _)) fun _ => keeps_pure _
  apply keeps_bind keeps_get
  intro s
  apply keeps_ite
  · apply keeps_bind (fifo_scan_keeps_lock _)
    intro found
    cases found with
    | some fr => exact take fr
    | none =>
        apply keeps_bind (keeps_frame_lock keeps_pick_frame)
        intro fr
        apply keeps_ite (keeps_pure _)
        exact keeps_bind (evict_frame_keeps_lock _) fun _ => take fr
  · apply keeps_ite
    · apply keeps_bind (gca_scan_keeps_lock _)
      intro choice
      cases choice with
      | unused fr => exact take fr
      | victim fr => exact keeps_bind (evict_frame_keeps_lock _) fun _ => take fr
    · exact keeps_pure _

end Lock

end Xinu.Replacement.FifoRuns
