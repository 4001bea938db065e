import Xinu.Space.RealFrames

/-!
# Accesses to the frame table

No step of a run in which `srpolicy` finds the list that it needs accesses an entry of `ipt` that
does not exist. The calls that do not use `ipt` come first. Of the others, `freeFrame` follows the
links of a page only under FIFO, where the links are those of the list; an allocation fails without
an access under FIFO, and needs a frame under GCA.
-/

namespace Xinu.Space.TableAccess

open Xinu.Kernel.State Xinu.Kernel.Entry Xinu.Kernel.Semaphore Xinu.Kernel.Memory
open Xinu.Lib.StateError Xinu.Paging.Address Xinu.Paging.BackingStore Xinu.Paging.Ipt
open Xinu.Paging.Handler Xinu.Paging.Process Xinu.Paging.System Xinu.Paging.Cpu
open Xinu.Processes.Steps Xinu.Processes.KernelVariables Xinu.Replacement.SystemCalls
open Xinu.Replacement.Fifo Xinu.Replacement.FifoRuns Xinu.Replacement.Exhaustion
open Xinu.Space.Agreement Xinu.Space.Transfers Xinu.Space.Members Xinu.Space.Allocate
open Xinu.Space.Service Xinu.Space.Runs Xinu.Space.PolicyChanges Xinu.Space.RealFrames
open Xinu.Swap.Conservation Xinu.Swap.Places Xinu.Lib.LinkedQueue

set_option autoImplicit false

/-- A stop that is no access outside of the frame table -/
def NotIndex (stop : Stop) : Prop := ∀ index, stop ≠ .badIndex index

/-- The call comes back, or stops in another way than with an access outside of the table. -/
def InBounds {α : Type} (outcome : EStateM.Result Stop St α) : Prop :=
  Ends outcome (fun _ _ => True) fun stop _ => NotIndex stop

section Elsewhere

theorem wait_stops (sem : Sem) : Stops NotIndex (wait sem) := by
  apply stops_bind (stops_modify _)
  intro _
  apply stops_bind stops_get
  intro s
  apply stops_ite
  · exact stops_bind (stops_modify _) fun _ => stops_throw fun _ => by simp
  · exact stops_pure _

theorem signal_stops (sem : Sem) : Stops NotIndex (signal sem) := by
  apply stops_bind stops_get
  intro s
  apply stops_bind (stops_modify _)
  intro _
  apply stops_ite
  · cases (s.ker.semtab sem).squeue with
    | nil => exact stops_pure _
    | cons first rest => exact stops_modify _
  · exact stops_pure _

theorem getstk_stops (nbytes : Nat) : Stops NotIndex (getstk nbytes) := by
  intro s
  obtain ⟨addr, memlist, ran⟩ := getstk_returned s nbytes
  rw [ran]
  trivial

theorem freestk_stops (addr len : Nat) : Stops NotIndex (freestk addr len) := by
  intro s
  obtain ⟨status, memlist, ran⟩ := freestk_returned s addr len
  rw [ran]
  trivial

theorem psinit_stops : Stops NotIndex psinit := by
  apply stops_bind (wait_stops _)
  intro _
  apply stops_bind stops_get
  intro s
  apply stops_ite (stops_pure _)
  apply stops_bind (stops_modify _)
  intro _
  apply stops_bind (stops_modify _)
  intro _
  exact stops_bind (signal_stops _) fun _ => stops_pure _

theorem get_bs_stops (bsId : Int) (npages : Nat) : Stops NotIndex (getBs bsId npages) := by
  have rest : Stops NotIndex (do
      if maxId < bsId ∨ bsId < minId ∨ npages = 0 ∨ maxPagesPerBs < npages then pure sysErr
      else do
        wait .bsSem
        let s ← get
        if (s.ker.bstab bsId.toNat).isopen then do
          signal .bsSem
          pure sysErr
        else do
          modifyKer fun ker => ker.setStore bsId.toNat fun store =>
            { store with isopen := true, npages := npages }
          signal .bsSem
          pure (npages : Int) : Call Int) := by
    apply stops_ite (stops_pure _)
    apply stops_bind (wait_stops _)
    intro _
    apply stops_bind stops_get
    intro s
    apply stops_ite
    · exact stops_bind (signal_stops _) fun _ => stops_pure _
    · exact stops_bind (stops_modify _) fun _ => stops_bind (signal_stops _) fun _ => stops_pure _
  apply stops_bind stops_get
  intro s
  exact stops_ite (stops_bind psinit_stops fun _ => rest) rest

theorem release_bs_stops (bsId : Int) : Stops NotIndex (releaseBs bsId) := by
  apply stops_bind stops_get
  intro s
  apply stops_ite (stops_pure _)
  apply stops_bind (wait_stops _)
  intro _
  apply stops_bind stops_get
  intro s
  apply stops_ite
  · exact stops_bind (signal_stops _) fun _ => stops_pure _
  · exact stops_bind (stops_modify _) fun _ => stops_bind (signal_stops _) fun _ => stops_pure _

theorem allocate_bs_stops (npages : Nat) : Stops NotIndex (allocateBs npages) := by
  have loop : ∀ fuel i, Stops NotIndex (allocateBsFrom npages fuel i) := by
    intro fuel
    induction fuel with
    | zero =>
        intro i
        exact stops_pure _
    | succ fuel induction =>
        intro i
        apply stops_bind stops_get
        intro s
        apply stops_ite
        · apply stops_bind (get_bs_stops _ _)
          intro opened
          exact stops_ite (induction _) (stops_bind (stops_modify _) fun _ => stops_pure _)
        · exact induction _
  apply stops_bind stops_get
  intro s
  exact stops_ite (stops_bind psinit_stops fun _ => loop _ _) (loop _ _)

theorem deallocate_bs_stops (store : Int) : Stops NotIndex (deallocateBs store) := by
  apply stops_ite (stops_pure _)
  apply stops_bind stops_get
  intro s
  apply stops_ite (stops_pure _)
  apply stops_ite (stops_pure _)
  apply stops_bind (release_bs_stops _)
  intro _
  exact stops_bind (stops_modify _) fun _ => stops_pure _

theorem free_proc_bs_stops (pid : Int) : Stops NotIndex (freeProcBS pid) := by
  have loop : ∀ fuel remain i, Stops NotIndex (freeProcBSFrom pid fuel remain i) := by
    intro fuel
    induction fuel with
    | zero =>
        intro remain i
        exact stops_pure _
    | succ fuel induction =>
        intro remain i
        apply stops_ite
        · apply stops_bind stops_get
          intro s
          apply stops_bind (deallocate_bs_stops _)
          intro _
          exact stops_bind (stops_modify _) fun _ => induction _ _
        · exact stops_pure _
  apply stops_bind stops_get
  intro s
  exact stops_ite (stops_pure _) (stops_bind (loop _ _ _) fun _ => stops_pure _)

theorem bs_init_stops (pid : Int) (hsize : Nat) : Stops NotIndex (bsInit pid hsize) := by
  have loop : ∀ fuel remain i, Stops NotIndex (bsInitFrom pid fuel remain i) := by
    intro fuel
    induction fuel with
    | zero =>
        intro remain i
        exact stops_pure _
    | succ fuel induction =>
        intro remain i
        apply stops_ite
        · apply stops_bind (allocate_bs_stops _)
          intro store
          apply stops_bind (stops_modify _)
          intro _
          exact stops_bind (stops_modify _) fun _ => induction _ _
        · exact stops_pure _
  exact stops_bind (stops_modify _) fun _ => stops_bind (loop _ _ _) fun _ => stops_pure _

theorem srpolicy_stops (policy : Int) : Stops NotIndex (srpolicy policy) := by
  apply stops_ite
  · exact stops_bind (stops_modify _) fun _ => stops_pure _
  · exact stops_ite (stops_bind (stops_modify _) fun _ => stops_pure _) (stops_pure _)

theorem load_stops (a : Nat) : Stops NotIndex (load a) := by
  apply stops_bind stops_get
  intro s
  apply stops_ite
  · exact stops_bind (stops_bind stops_get fun _ => stops_modify _) fun _ =>
      stops_bind stops_get fun _ => stops_pure _
  · exact stops_throw fun _ => by simp

theorem store_stops (a : Nat) (value : Byte) : Stops NotIndex (store a value) := by
  apply stops_bind stops_get
  intro s
  apply stops_ite
  · exact stops_bind (stops_bind stops_get fun _ => stops_modify _) fun _ => stops_modify _
  · exact stops_throw fun _ => by simp

variable [Config]

theorem resume_stops (pid : Int) : Stops NotIndex (resume pid) := by
  apply stops_bind stops_get
  intro s
  exact stops_ite (stops_pure _) (stops_bind (stops_modify _) fun _ => stops_pure _)

theorem resched_stops (pid : Int) : Stops NotIndex (resched pid) := by
  apply stops_bind stops_get
  intro s
  apply stops_ite
  · exact stops_ite (stops_bind (stops_modify _) fun _ => stops_modify _) (stops_modify _)
  · exact stops_throw fun _ => by simp

theorem create_stops (ssize : Nat) (priority : Int) : Stops NotIndex (create ssize priority) := by
  apply stops_bind (getstk_stops _)
  intro saddr
  apply stops_ite (stops_pure _)
  apply stops_bind (stops_bind stops_get fun _ => stops_bind (stops_modify _) fun _ => stops_pure _)
  intro pid
  apply stops_ite (stops_pure _)
  exact stops_bind (stops_modify _) fun _ => stops_bind (stops_modify _) fun _ => stops_pure _

end Elsewhere

section Frames

variable [Config] {s : St} {fr off : Nat} {pid : Int}

theorem free_frame_returns (queue : QueueWithout off s) (bound : fr < nframes) (notOff : fr ≠ off) :
    ∃ final, freeFrame fr s = .ok () final := by
  rcases fifo_or_gca s.ker.currpolicy with fifo | gca
  · obtain ⟨nodes, frames⟩ := queue fifo
    obtain ⟨ipt, head, tail, ran, _⟩ := free_frame_ok frames fifo bound notOff
    exact ⟨_, ran⟩
  · exact ⟨_, free_frame_plain bound (Or.inl gca)⟩

/-- The frame that is off the queue is not one of those that are freed. -/
def Spares (off : Nat) (pid : Int) (s : St) : Prop := off < nframes → (s.ipt off).pid ≠ pid

theorem free_proc_frames_in_bounds (queue : QueueWithout off s) (spares : Spares off pid s) :
    InBounds (freeProcFrames pid s) := by
  have loop : ∀ fuel i s, QueueWithout off s → Spares off pid s → i + fuel ≤ nframes →
      InBounds (freeProcFramesFrom pid fuel i s) := by
    intro fuel
    induction fuel with
    | zero =>
        intro i s _ _ _
        trivial
    | succ fuel induction =>
        intro i s kept spares inside
        have bound : i < nframes := by omega
        unfold freeProcFramesFrom
        rw [bind_ok (read_frame_ok bound)]
        split
        · rename_i own
          have notOff : i ≠ off := by
            rintro rfl
            exact spares bound own
          obtain ⟨freed, ran⟩ := free_frame_returns kept bound notOff
          obtain ⟨cores, freedKept⟩ := free_frame_cores kept bound ran
          have freedSpares : Spares off pid freed := by
            intro offBound
            have same := cores off
            rw [if_neg (Ne.symm notOff)] at same
            simp only [core, Prod.mk.injEq] at same
            rw [same.2.1]
            exact spares offBound
          rw [bind_ok ran]
          exact induction (i + 1) freed freedKept freedSpares (by omega)
        · exact induction (i + 1) s kept spares (by omega)
  unfold freeProcFrames
  rw [get_bind]
  split
  · trivial
  · exact loop nframes 0 s queue spares (by omega)

/-- `kill` follows no link out of the table, unless it frees the frame that is off the queue. -/
theorem kill_spares_in_bounds (queue : QueueWithout off s) (spares : Spares off pid s) :
    InBounds (kill pid s) := by
  unfold kill
  rw [get_bind]
  split
  · trivial
  · rw [modifyKer, modify_bind]
    split
    · exact fun _ => by simp
    · let fewer : St := { s with ker := { s.ker with prcount := s.ker.prcount - 1 } }
      obtain ⟨status, memlist, freed⟩ := freestk_returned fewer (s.ker.proctab pid).prstkbase
        (s.ker.proctab pid).prstklen
      have freedQueue : QueueWithout off { fewer with ker := { fewer.ker with memlist := memlist } } :=
        without_of_ker queue rfl ⟨rfl, rfl⟩ rfl
      rw [bind_ok freed]
      refine ends_bind (free_proc_frames_in_bounds freedQueue spares) fun _ middle _ _ => ?_
      exact stops_bind (free_proc_bs_stops pid)
        (fun _ => stops_bind (stops_modify _) fun _ => stops_pure _) middle

theorem kill_in_bounds (queue : QueueKept s) (pid : Int) : InBounds (kill pid s) :=
  kill_spares_in_bounds (show QueueWithout empty s from queue) fun bad =>
    absurd bad empty_not_frame

theorem clean_stops {outcome : EStateM.Result Stop St Nat} {post : Nat → St → Prop}
    (ends : Ends outcome post (Clean s)) : InBounds outcome :=
  ends_weaken ends (fun _ _ _ _ => trivial) fun _ _ clean => clean.2

theorem allocation_in_bounds (tables : Tables s empty []) (queue : QueueKept s)
    (frames : s.ker.currpolicy = .gca → ¬Exhausted s) (type : FrameStatus) (pid vpn : Int) :
    InBounds (getNewFrame type pid vpn s) := by
  by_cases exhausted : Exhausted s
  · rcases allocation_fails exhausted queue type pid vpn with ⟨hand, ran⟩ | ⟨gca, _⟩
    · rw [ran]
      trivial
    · exact absurd exhausted (frames gca)
  · exact clean_stops (get_new_frame_ends type pid vpn tables queue exhausted)

/-- A step that has only changed kernel variables which the tables do not depend on -/
theorem ker_tables (ker : Ker) (tables : Tables s empty []) (queue : QueueKept s)
    (procs : ker.proctab = s.ker.proctab) (policy : ker.currpolicy = s.ker.currpolicy) :
    Tables { s with ker := ker } empty [] ∧ QueueKept { s with ker := ker } := by
  refine ⟨tables_congr tables ⟨fun q => ?_, fun _ => rfl, fun _ _ _ _ => ⟨rfl, rfl⟩⟩,
    queue_of_ker queue rfl ⟨rfl, rfl⟩ policy⟩
  dsimp only
  rw [procs]

theorem init_pd_in_bounds (tables : Tables s empty []) (queue : QueueKept s)
    (frames : s.ker.currpolicy = .gca → ¬Exhausted s) (pid : Int) : InBounds (initPd pid s) := by
  refine ends_bind (ends_stop (wait_ends .pfSem) fun _ _ clean => clean.2) ?_
  rintro _ middle _ ⟨_, rfl⟩
  obtain ⟨heldTables, heldQueue⟩ :=
    ker_tables (taken s.ker .pfSem) tables queue rfl rfl
  refine ends_bind (allocation_in_bounds heldTables heldQueue frames .pdir pid noVpn) ?_
  intro pd filled _ _
  apply stops_bind (signal_stops _)
  intro _
  apply stops_ite (stops_pure _)
  exact stops_bind (stops_modify _) fun _ => stops_bind (stops_modify _) fun _ => stops_pure _

theorem vcreate_in_bounds (tables : Tables s empty []) (queue : QueueKept s)
    (frames : s.ker.currpolicy = .gca → ¬Exhausted s) (ssize hsize : Nat) (priority : Int) :
    InBounds (vcreate ssize hsize priority s) := by
  obtain ⟨memlist, nextpid, opening⟩ := vcreate_opening s ssize hsize priority
  rcases opening with ran | ⟨pid, saddr, _, ran⟩
  · rw [ran]
    trivial
  rw [ran]
  have gives : ∀ {rest : Call Int}, Stops NotIndex rest → Stops NotIndex (do
      let _ ← freestk saddr (stackSize ssize)
      rest) := fun stops => stops_bind (freestk_stops _ _) fun _ => stops
  unfold vcreateSpace
  rw [get_bind]
  split
  · exact gives (stops_pure _) _
  · rw [modifyKer, modify_bind]
    let counted : Ker := { s.ker with
      memlist := memlist
      vcreateNextpid := nextpid
      prcount := s.ker.prcount + 1 }
    obtain ⟨countedTables, countedQueue⟩ := ker_tables counted tables queue rfl rfl
    refine ends_bind (init_pd_in_bounds countedTables countedQueue frames pid) ?_
    intro status middle _ _
    have fails : Stops NotIndex (do
        let _ ← freestk saddr (stackSize ssize)
        modifyKer fun ker => { ker with prcount := ker.prcount - 1 }
        pure sysErr : Call Int) := gives (stops_bind (stops_modify _) fun _ => stops_pure _)
    apply stops_ite fails
    apply stops_bind (bs_init_stops _ _)
    intro status
    exact stops_ite fails (stops_bind (stops_modify _) fun _ => stops_pure _)

end Frames

section Faults

variable [Config] {s : St} {a : Nat} {pid : Int}

omit [Config] in
/-- `(char *) SYSERR` is no address that `read_bs` can copy to. -/
theorem read_bs_short (bs : Int) (page : Nat) :
    Ends (readBs sysErrPtr bs page s) (fun e _ => e = sysErr) fun stop _ => NotIndex stop := by
  have stops : ∀ {α : Type} {action : Call α} {t : St}, Stops NotIndex action →
      Ends (action t) (fun _ _ => True) fun stop _ => NotIndex stop := fun stops => stops _
  unfold readBs
  refine ends_bind (stops (stops_modify _)) fun _ logged _ _ => ?_
  rw [get_bind]
  split
  · rfl
  split
  · rfl
  refine ends_bind (stops (wait_stops _)) fun _ held _ _ => ?_
  rw [get_bind]
  split
  · exact ends_bind (stops (signal_stops _)) fun _ _ _ _ => rfl
  · refine ends_bind (stops (signal_stops _)) fun _ _ _ _ => ?_
    rw [if_pos (by decide)]
    exact fun _ => by simp

/-- Without a frame for the page the fault does not come to an end. -/
theorem pf_install_short (pt : Nat) :
    Ends (pfInstall pid a pt sysErrPtr s) (fun _ _ => False) fun stop _ => NotIndex stop := by
  have info : ∀ t, Ends (getBsInfo pid a t) (fun _ _ => True) fun stop _ => NotIndex stop :=
    stops_bind stops_get fun _ => stops_ite (stops_throw fun _ => by simp) (stops_pure _)
  unfold pfInstall
  rw [bind_ok (faddr_to_frame_num_ok _ _)]
  refine ends_bind (info _) fun place _ _ _ => ?_
  refine ends_bind (read_bs_short _ _) fun e _ _ failed => ?_
  rw [if_pos failed]
  exact fun _ => by simp

/-- Under FIFO a fault that does not get its frames stops in front of `incRefCount`. -/
theorem service_short {vpn : Nat} (tables : Tables s empty []) (queue : QueueKept s)
    (heapPage : HeapPage s pid vpn) (index : vaddr2pdi a = vpn / 1024)
    (short : ¬Fits s pid (vpn / 1024)) (fifo : s.ker.currpolicy = .fifo) :
    Ends (pfService pid a s) (fun _ _ => False) fun stop _ => NotIndex stop := by
  obtain ⟨live, low, high⟩ := heapPage
  unfold pfService
  rw [get_bind, index]
  rcases table_short tables queue live (private_of_heap tables live low high) short with
    ⟨pt, middle, ran, _, exhausted, middleQueue⟩ | ⟨gca, _⟩
  · have same : middle.ker = s.ker := pf_table_ker _ _ _ _ _ _ ran
    have still : middle.ker.currpolicy = .fifo := by rw [same, fifo]
    obtain ⟨hand, failed⟩ := fifo_reports still exhausted middleQueue .page pid (vaddr2vpn a)
    rw [bind_ok ran, bind_ok failed]
    exact pf_install_short pt
  · rw [fifo] at gca
    cases gca

/-- Under GCA each allocation of the step has a frame. -/
def Affordable (s : St) : Event → Prop
  | .vcreate _ _ _ => s.ker.currpolicy = .gca → ¬Exhausted s
  | .fault a => isInvalidAddr s.ker a s.ker.currpid = false → s.ker.currpolicy = .gca →
      Fits s s.ker.currpid (vaddr2pdi a)
  | _ => True

/-- The steps of a run with changes of the policy. -/
def Careful (s : St) (event : Event) : Prop :=
  Affordable s event ∧ KeepsTable s event ∧ FindsList s event

/-- The service of a valid address, once `pf_sem` is taken. -/
theorem service_in_bounds (sound : Sound s) (live : Live s s.ker.currpid) (faults : Faults s a)
    (valid : isInvalidAddr s.ker a s.ker.currpid = false)
    (affordable : s.ker.currpolicy = .gca → Fits s s.ker.currpid (vaddr2pdi a)) :
    Ends (pfService s.ker.currpid a { s with ker := taken (counted s).ker .pfSem })
      (fun _ _ => Fits s s.ker.currpid (vaddr2pdi a)) fun stop _ => NotIndex stop := by
  let held : St := { s with ker := taken (counted s).ker .pfSem }
  have index : vaddr2pdi a = vaddr2vpn a / 1024 := by
    rw [page_directory_index a faults.1, page_number]
    omega
  obtain ⟨heapLive, inside⟩ := fault_in_heap sound live faults valid
  obtain ⟨heapPage, _⟩ := heap_page_of_address sound.stores heapLive inside
  have heldPage : HeapPage held s.ker.currpid (vaddr2vpn a) := heapPage
  obtain ⟨heldSound, _⟩ := held_sound sound
  by_cases fits : Fits s s.ker.currpid (vaddr2pdi a)
  · have heldFits : Fits held s.ker.currpid (vaddr2vpn a / 1024) := index ▸ fits
    exact ends_weaken (pf_service_ends heldSound.tables heldSound.queue heldPage faults.1 rfl
      heldFits) (fun _ _ _ _ => fits) fun _ _ clean => clean.2
  · have fifo : held.ker.currpolicy = .fifo := by
      rcases fifo_or_gca s.ker.currpolicy with fifo | gca
      · exact fifo
      · exact absurd (affordable gca) fits
    have short : ¬Fits held s.ker.currpid (vaddr2vpn a / 1024) := fun heldFits =>
      fits (index ▸ heldFits)
    exact ends_weaken (service_short heldSound.tables heldSound.queue heldPage index short fifo)
      (fun _ _ _ impossible => impossible.elim) fun _ _ stops => stops

theorem handler_in_bounds (sound : Sound s) (free : 1 ≤ pfCount s) (live : Live s s.ker.currpid)
    (faults : Faults s a) (affordable : Affordable s (.fault a)) :
    Ends (pfHandler a s)
      (fun _ _ => isInvalidAddr s.ker a s.ker.currpid = false →
        Fits s s.ker.currpid (vaddr2pdi a)) fun stop _ => NotIndex stop := by
  let held : St := { s with ker := taken (counted s).ker .pfSem }
  have opened : wait .pfSem (counted s) = .ok () held := wait_free free
  unfold pfHandler
  rw [modifyKer, modify_bind]
  change Ends ((wait .pfSem >>= _) (counted s)) _ _
  rw [bind_ok opened, get_bind]
  by_cases invalid : isInvalidAddr held.ker a held.ker.currpid = true
  · have isInvalid : isInvalidAddr s.ker a s.ker.currpid = true := invalid
    have given : signal .pfSem held = .ok () (counted s) := signal_taken free rfl
    have countedQueue : QueueKept (counted s) := queue_of_ker sound.queue rfl ⟨rfl, rfl⟩ rfl
    rw [if_pos invalid, bind_ok given]
    refine ends_bind (kill_in_bounds countedQueue _) fun _ _ _ _ valid => ?_
    rw [isInvalid] at valid
    cases valid
  · have valid : isInvalidAddr s.ker a s.ker.currpid = false :=
      Bool.eq_false_iff.mpr invalid
    rw [if_neg invalid]
    refine ends_bind (service_in_bounds sound live faults valid (affordable valid)) ?_
    intro _ served _ fits
    exact ends_weaken (signal_stops .pfSem served) (fun _ _ _ _ _ => fits) fun _ _ stops => stops

end Faults

section Steps

variable [Config] {s : St}

theorem perform_in_bounds {event : Event} (sound : Sound s) (free : 1 ≤ pfCount s)
    (running : Running s) (affordable : Affordable s event) : InBounds (perform event s) := by
  have replies : ∀ {α : Type} {action : Call α} (reply : α → Reply), InBounds (action s) →
      InBounds ((do pure (reply (← action)) : Call Reply) s) := fun reply inside =>
    ends_bind inside fun _ _ _ _ => trivial
  cases event with
  | resched pid => exact replies (fun _ => .done) (resched_stops pid s)
  | resume pid => exact replies .status (resume_stops pid s)
  | create ssize priority => exact replies .status (create_stops ssize priority s)
  | vcreate ssize hsize priority =>
      exact replies .status (vcreate_in_bounds sound.tables sound.queue affordable _ _ _)
  | kill pid => exact replies .status (kill_in_bounds sound.queue pid)
  | fault a =>
      change InBounds ((if Faults s a then do
          pfHandler a
          pure .done
        else throw .disabled : Call Reply) s)
      split
      · rename_i faults
        refine ends_bind (ends_weaken (handler_in_bounds sound free (live_of_running running) faults
          affordable) (fun _ _ _ _ => trivial) fun _ _ stops => stops) fun _ _ _ _ => trivial
      · exact fun _ => by simp
  | load a => exact replies .byte (load_stops a s)
  | store a value => exact replies (fun _ => .done) (store_stops a value s)
  | srpolicy policy => exact replies .status (srpolicy_stops policy s)

theorem exec_in_bounds {event : Event} (sound : Sound s) (free : 1 ≤ pfCount s)
    (affordable : Affordable s event) : InBounds (exec event s) := by
  unfold exec
  rw [get_bind]
  by_cases running : Running s
  · have inside := perform_in_bounds sound free running affordable
    cases event with
    | resched pid => exact inside
    | _ =>
        dsimp only
        rw [if_pos running]
        exact inside
  · cases event with
    | resched pid => exact ends_bind (resched_stops pid s) fun _ _ _ _ => trivial
    | _ =>
        dsimp only
        rw [if_neg running]
        exact fun _ => by simp

/-- A step that has come back had its frames. -/
theorem orderly_of_careful {event : Event} {reply : Reply} {final : St} (sound : Sound s)
    (free : 1 ≤ pfCount s) (careful : Careful s event) (ran : exec event s = .ok reply final) :
    Orderly s event := by
  obtain ⟨affordable, keeps, finds⟩ := careful
  refine ⟨?_, keeps, finds⟩
  cases event with
  | fault a =>
      intro valid
      unfold exec at ran
      rw [get_bind] at ran
      dsimp only at ran
      split at ran
      · rename_i running
        change (if Faults s a then do
            pfHandler a
            pure .done
          else throw .disabled : Call Reply) s = _ at ran
        split at ran
        · rename_i faults
          obtain ⟨_, middle, handled, _⟩ := bind_ok_inv ran
          exact ends_ok (handler_in_bounds sound free (live_of_running running) faults affordable)
            handled valid
        · cases ran
      · cases ran
  | _ => trivial

theorem run_orderly_of_careful {policy : Int} (run : Run (Started policy) Careful s) :
    Run (Started policy) Orderly s := by
  induction run with
  | start started => exact .start started
  | step before careful ran induction =>
      have orderly := orderly_of_careful (run_orderly induction) (run_rests before) careful ran
      exact .step induction orderly ran

/-- In every run whose changes to FIFO find the list of the pages, whose allocations under GCA have
a frame and whose faults keep the table that they work on, the list stays that of the pages, and no
step accesses an entry outside of the frame table. -/
theorem policy_changes_safe {policy : Int} (run : Run (Started policy) Careful s) :
    (s.ker.currpolicy = .fifo → Listed s) ∧ ∀ event, Careful s event → InBounds (exec event s) := by
  have sound := run_orderly (run_orderly_of_careful run)
  exact ⟨sound.queue, fun event careful => exec_in_bounds sound (run_rests run) careful.1⟩

end Steps

section Checks

variable [Config] {s : St}

instance (s : St) (pid : Int) (pdi : Nat) : Decidable (Fits s pid pdi) :=
  inferInstanceAs (Decidable (_ ∧ _))

instance (s : St) (event : Event) : Decidable (Affordable s event) :=
  match event with
  | .vcreate _ _ _ => inferInstanceAs (Decidable (s.ker.currpolicy = .gca → ¬Exhausted s))
  | .fault a => inferInstanceAs (Decidable (isInvalidAddr s.ker a s.ker.currpid = false →
      s.ker.currpolicy = .gca → Fits s s.ker.currpid (vaddr2pdi a)))
  | .resched _ | .resume _ | .create .. | .kill _ | .load _ | .store .. | .srpolicy _ =>
      isTrue trivial

/-- There is no page and the list is empty. -/
def Bare (s : St) : Prop :=
  (∀ x < nframes, (s.ipt x).status ≠ .page) ∧ s.flistHead = empty ∧ s.flistTail = empty

instance (s : St) : Decidable (Bare s) := inferInstanceAs (Decidable (_ ∧ _))

theorem listed_of_bare (bare : Bare s) : Listed s := by
  obtain ⟨noPage, head, tail⟩ := bare
  refine ⟨[], ?_, ?_, fun bad => absurd bad empty_not_frame⟩
  · rw [head, tail]
    exact queue_nil _ _ _
  · intro x
    simp only [List.not_mem_nil, false_iff, not_and]
    intro page
    exact absurd page.2 (noPage x page.1)

theorem not_listed (head : s.flistHead = empty)
    (page : ∃ x < nframes, (s.ipt x).status = .page) : ¬Listed s := by
  rintro ⟨nodes, frames⟩
  obtain ⟨x, holds⟩ := page
  have nobody := (head_null_iff frames.queue).mp head
  subst nobody
  have member := (frames.members x).mpr ⟨holds, proper_of_bound holds.1⟩
  cases member

/-- The step has stopped with an access outside of the frame table. -/
def outside (outcome : EStateM.Result Stop St Reply) : Bool :=
  match outcome with
  | .error (.badIndex _) _ => true
  | _ => false

omit [Config] in
theorem not_in_bounds {outcome : EStateM.Result Stop St Reply} (stopped : outside outcome = true) :
    ¬InBounds outcome := by
  intro inside
  cases outcome with
  | ok reply final => cases stopped
  | error stop final =>
      cases stop with
      | badIndex index => exact inside index rfl
      | _ => cases stopped

/-- FIFO is chosen over an empty list. -/
def FindsNothing (s : St) : Event → Prop
  | .srpolicy policy => policy = fifo → Bare s
  | _ => True

instance (s : St) (event : Event) : Decidable (FindsNothing s event) :=
  match event with
  | .srpolicy policy => inferInstanceAs (Decidable (policy = fifo → Bare s))
  | .resched _ | .resume _ | .create .. | .vcreate .. | .kill _ | .fault _ | .load _ | .store .. =>
      isTrue trivial

/-- The steps of `Careful` that can be recognised -/
def CarefulFifo (s : St) (event : Event) : Prop :=
  Affordable s event ∧ KeepsOldest s event ∧ FindsNothing s event

instance decideCareful (s : St) (event : Event) : Decidable (CarefulFifo s event) :=
  inferInstanceAs (Decidable (_ ∧ _ ∧ _))

theorem careful_of_fifo {event : Event} (careful : CarefulFifo s event) : Careful s event := by
  obtain ⟨affordable, keeps, finds⟩ := careful
  refine ⟨affordable, keeps_table_of_oldest keeps, ?_⟩
  cases event with
  | srpolicy policy => exact fun chosen => listed_of_bare (finds chosen)
  | _ => trivial

end Checks

section Example

/-- FIFO is chosen before the first page fault. -/
def earlyChange : List Event :=
  [.vcreate 1024 2 20, .vcreate 1024 2 20, .srpolicy fifo, .resume 1, .resched 1,
    .fault 0x1000000, .fault 0x1001000]

def changedEarly : St :=
  finalState (@bootAndRun thirteen gca (@CarefulFifo thirteen) (@decideCareful thirteen) earlyChange
    blankMachine)

theorem policy_changes_safe_early :
    ∃ s, @Run thirteen (@Started thirteen gca) (@Careful thirteen) s ∧ s.ker.currpolicy = .fifo ∧
      ((s.ker.currpolicy = .fifo → @Listed thirteen s) ∧
        ∀ event, @Careful thirteen s event → InBounds (@exec thirteen event s)) := by
  have ran : returned (@bootAndRun thirteen gca (@CarefulFifo thirteen) (@decideCareful thirteen)
      earlyChange blankMachine) = true := by decide +kernel
  have run := @run_mono thirteen _ _ _ _ (fun _ _ => @careful_of_fifo thirteen _ _)
    (@start_and_run _ thirteen _ _ _ _ _ power_on_blank stores_off_blank (returned_unit ran))
  refine ⟨changedEarly, run, by decide +kernel, ?_⟩
  exact @policy_changes_safe thirteen _ _ run

/-- FIFO is chosen when a process has a page. -/
def lateChange : List Event :=
  [.vcreate 1024 1 20, .vcreate 1024 1 20, .resume 1, .resched 1, .fault 0x1000000, .srpolicy fifo]

def changedLate : St :=
  finalState (@bootAndRun thirteen gca (fun _ _ => True) (fun _ _ => isTrue trivial) lateChange
    blankMachine)

/-- The list does not have the page, and a kill of its process follows the links of the page. -/
theorem policy_change_unsafe :
    ∃ s, @Run thirteen (@Started thirteen gca) (fun _ _ => True) s ∧ s.ker.currpolicy = .fifo ∧
      ¬@Listed thirteen s ∧ ¬InBounds (@exec thirteen (.kill 1) s) := by
  have ran : returned (@bootAndRun thirteen gca (fun _ _ => True) (fun _ _ => isTrue trivial)
      lateChange blankMachine) = true := by decide +kernel
  have run := @start_and_run _ thirteen _ _ _ _ _ power_on_blank stores_off_blank
    (returned_unit ran)
  have facts : ∃ s, s = changedLate ∧ s.ker.currpolicy = .fifo ∧ s.flistHead = empty ∧
      (∃ x < @nframes thirteen, (s.ipt x).status = .page) ∧
      outside (@exec thirteen (.kill 1) s) = true := ⟨_, rfl, by decide +kernel⟩
  obtain ⟨s, same, chosen, head, page, stopped⟩ := facts
  refine ⟨s, same ▸ run, chosen, @not_listed thirteen s head page, ?_⟩
  exact not_in_bounds stopped

end Example

end Xinu.Space.TableAccess
