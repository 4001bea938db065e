import Xinu.Paging.System
import Xinu.Replacement.Order

/-!
# What happens to the kernel variables

The effect of each call that returns on the kernel variables, in any state. The disk
transfers give `bs_sem` back, so the frame allocations and the service of a page fault
leave all kernel variables as they were.
-/

namespace Xinu.Processes.KernelVariables

open Xinu.Kernel.State Xinu.Kernel.Entry Xinu.Kernel.Semaphore Xinu.Kernel.Memory
open Xinu.Lib.StateError Xinu.Paging.Address Xinu.Paging.BackingStore Xinu.Paging.Ipt
open Xinu.Paging.Handler Xinu.Paging.Process Xinu.Paging.Cpu Xinu.Paging.System
open Xinu.Replacement.Order

set_option autoImplicit false

section Transfers

variable {bsId : Int} {page : Nat}

theorem log_ker (effect : Effect) : Returns St.ker (log effect) := returns_modify fun _ => rfl

theorem set_entry_ker (table index : Nat) (change : Word → Word) :
    Returns St.ker (setEntry table index change) := returns_modify fun _ => rfl

/-- The section of `read_bs` and `write_bs` that holds `bs_sem`. -/
theorem guarded_ker {rest : Call Int} (restKer : Returns St.ker rest) :
    Returns St.ker (do
      wait .bsSem
      let s ← get
      if BadStorePage s.ker bsId page then do
        signal .bsSem
        pure sysErr
      else do
        signal .bsSem
        rest : Call Int) := by
  intro s status final ran
  obtain ⟨_, held, waited, ran⟩ := bind_ok_inv ran
  obtain ⟨free, rfl⟩ := wait_returned waited
  have given : signal .bsSem { s with ker := taken s.ker .bsSem } = .ok () s :=
    signal_taken free rfl
  rw [get_bind] at ran
  split at ran
  · rw [bind_ok given] at ran
    cases ran
    rfl
  · rw [bind_ok given] at ran
    exact restKer s status final ran

theorem write_bs_ker (src : Nat) : Returns St.ker (writeBs src bsId page) := by
  apply returns_bind (log_ker _)
  intro _
  apply returns_bind returns_get
  intro s
  apply returns_ite (returns_pure _)
  apply returns_ite (returns_pure _)
  apply guarded_ker
  apply returns_bind
  · exact returns_modify fun _ => rfl
  exact fun _ => returns_pure _

theorem read_bs_ker (dst : Nat) : Returns St.ker (readBs dst bsId page) := by
  apply returns_bind (log_ker _)
  intro _
  apply returns_bind returns_get
  intro s
  apply returns_ite (returns_pure _)
  apply returns_ite (returns_pure _)
  apply guarded_ker
  apply returns_ite (returns_throw _)
  apply returns_bind
  · exact returns_modify fun _ => rfl
  exact fun _ => returns_pure _

theorem get_bs_info_ker (pid : Int) (vaddr : Nat) : Returns St.ker (getBsInfo pid vaddr) := by
  apply returns_bind returns_get
  intro s
  exact returns_ite (returns_throw _) (returns_pure _)

theorem faddr_to_frame_num_ker (faddr : Nat) : Returns St.ker (faddr2frameNum faddr) :=
  returns_bind (log_ker _) fun _ => returns_pure _

end Transfers

section Frames

variable [Config]

omit [Config] in
/-- Calls that change the frame table and the list heads only. -/
theorem ker_of_outside {α : Type} {action : Call α} (keeps : Keeps outsideView action) :
    Returns St.ker action := returns_map (returns_of_keeps keeps) fun view => view.1

theorem free_frame_ker (fr : Nat) : Returns St.ker (freeFrame fr) :=
  ker_of_outside (keeps_free_frame fr)

theorem free_proc_frames_ker (pid : Int) : Returns St.ker (freeProcFrames pid) :=
  ker_of_outside (keeps_free_proc_frames pid)

theorem dec_ref_count_ker (pt pd pdi : Nat) : Returns St.ker (decRefCount pt pd pdi) := by
  apply returns_bind (faddr_to_frame_num_ker _)
  intro fr
  apply returns_bind (ker_of_outside (keeps_modify_frame _ _))
  intro _
  apply returns_bind (ker_of_outside (keeps_read_frame _))
  intro frame
  apply returns_ite
  · apply returns_bind (free_frame_ker _)
    intro _
    exact returns_bind (set_entry_ker _ _ _) fun _ => log_ker _
  · exact returns_pure _

theorem inc_ref_count_ker (pt : Nat) : Returns St.ker (incRefCount pt) :=
  returns_bind (log_ker _) fun _ => ker_of_outside (keeps_modify_frame _ _)

theorem evict_begin_ker (fr : Nat) : Returns St.ker (evictBegin fr) := by
  apply returns_bind (ker_of_outside (keeps_read_frame _))
  intro frame
  apply returns_bind returns_get
  intro s
  apply returns_bind (set_entry_ker _ _ _)
  intro _
  have rest : Returns St.ker (do
      decRefCount (pdi2pt s (s.ker.proctab frame.pid).pd (vaddr2pdi (pageAddr frame.vpn)))
        (s.ker.proctab frame.pid).pd (vaddr2pdi (pageAddr frame.vpn))
      pure { fr := fr, vp := frame.vpn, pid := frame.pid, a := pageAddr frame.vpn,
             pt := pdi2pt s (s.ker.proctab frame.pid).pd (vaddr2pdi (pageAddr frame.vpn)),
             pti := vaddr2pti (pageAddr frame.vpn) } : Call Evicted) :=
    returns_bind (dec_ref_count_ker _ _ _) fun _ => returns_pure _
  apply returns_ite
  · exact returns_bind (log_ker _) fun _ => rest
  · exact rest

omit [Config] in
theorem evict_write_ker (e : Evicted) : Returns St.ker (evictWrite e) := by
  apply returns_bind (get_bs_info_ker _ _)
  intro place
  apply returns_bind (write_bs_ker _)
  intro status
  apply returns_ite (returns_throw _)
  exact returns_bind (set_entry_ker _ _ _) fun _ => set_entry_ker _ _ _

theorem evict_frame_ker (fr : Nat) : Returns St.ker (evictFrame fr) := by
  apply returns_bind (evict_begin_ker _)
  intro e
  apply returns_bind returns_get
  intro s
  apply returns_ite
  · exact returns_bind (evict_write_ker _) fun _ => log_ker _
  · exact log_ker _

theorem fifo_scan_ker (fuel : Nat) : Returns St.ker (fifoScan fuel) := by
  induction fuel with
  | zero => exact returns_pure _
  | succ fuel induction =>
      unfold fifoScan
      apply returns_bind
      · exact returns_modify fun _ => rfl
      intro _
      apply returns_bind returns_get
      intro s
      apply returns_bind (ker_of_outside (keeps_read_frame _))
      intro frame
      apply returns_bind
      · exact returns_modify fun _ => rfl
      intro _
      exact returns_ite (returns_pure _) induction

theorem get_and_set_um_ker (fr : Nat) : Returns St.ker (getAndSetUM fr) := by
  apply returns_bind (ker_of_outside (keeps_read_frame _))
  intro frame
  apply returns_ite (returns_pure _)
  apply returns_bind returns_get
  intro s
  apply returns_ite
  · apply returns_bind (set_entry_ker _ _ _)
    intro _
    exact returns_bind (set_entry_ker _ _ _) fun _ => returns_pure _
  apply returns_ite
  · exact returns_bind (set_entry_ker _ _ _) fun _ => returns_pure _
  · exact returns_ite (returns_pure _) (returns_throw _)

theorem gca_scan_ker (fuel : Nat) : Returns St.ker (gcaScan fuel) := by
  induction fuel with
  | zero => exact returns_pure _
  | succ fuel induction =>
      have passed : ∀ (hand : Nat) (next : Call Choice), Returns St.ker next →
          Returns St.ker (do
            modify fun s => { s with gcaNextframe := hand }
            next) := by
        intro hand next rest
        apply returns_bind
        · exact returns_modify fun _ => rfl
        exact fun _ => rest
      unfold gcaScan
      apply returns_bind
      · exact returns_modify fun _ => rfl
      intro _
      apply returns_bind returns_get
      intro s
      apply returns_bind (ker_of_outside (keeps_read_frame _))
      intro frame
      apply returns_ite
      · exact passed _ _ (returns_pure _)
      apply returns_ite
      · apply returns_bind (get_and_set_um_ker _)
        intro bits
        exact passed _ _ (returns_ite (returns_pure _) induction)
      · exact passed _ _ induction

theorem get_new_frame_ker (type : FrameStatus) (pid vpn : Int) :
    Returns St.ker (getNewFrame type pid vpn) := by
  have filled : ∀ fr, Returns St.ker (do
      initFrame fr type pid vpn
      pure (frameNum2ptr fr) : Call Nat) := fun fr =>
    returns_bind (ker_of_outside (keeps_init_frame _ _ _ _)) fun _ => returns_pure _
  apply returns_bind returns_get
  intro s
  apply returns_ite
  · apply returns_bind (fifo_scan_ker _)
    intro found
    cases found with
    | some fr => exact filled fr
    | none =>
        apply returns_bind (ker_of_outside keeps_pick_frame)
        intro fr
        exact returns_ite (returns_pure _) (returns_bind (evict_frame_ker _) fun _ => filled fr)
  apply returns_ite
  · apply returns_bind (gca_scan_ker _)
    intro choice
    cases choice with
    | unused fr => exact filled fr
    | victim fr => exact returns_bind (evict_frame_ker _) fun _ => filled fr
  · exact returns_pure _

end Frames

section Faults

variable [Config]

theorem new_page_table_ker (pid : Int) : Returns St.ker (newPageTable pid) := by
  apply returns_bind (get_new_frame_ker _ _ _)
  intro faddr
  apply returns_ite (returns_pure _)
  apply returns_bind
  · exact returns_modify fun _ => rfl
  intro _
  apply returns_bind (faddr_to_frame_num_ker _)
  intro fr
  exact returns_bind (log_ker _) fun _ => returns_pure _

theorem pf_table_ker (pid : Int) (pd pdi : Nat) : Returns St.ker (pfTable pid pd pdi) := by
  apply returns_bind returns_get
  intro s
  apply returns_ite
  · apply returns_bind (new_page_table_ker _)
    intro pt
    apply returns_bind (returns_bind (log_ker _) fun _ => set_entry_ker _ _ _)
    intro _
    exact returns_bind (set_entry_ker _ _ _) fun _ => returns_pure _
  · exact returns_pure _

theorem pf_install_ker (pid : Int) (a pt faddr : Nat) :
    Returns St.ker (pfInstall pid a pt faddr) := by
  apply returns_bind (faddr_to_frame_num_ker _)
  intro fr
  apply returns_bind (get_bs_info_ker _ _)
  intro place
  apply returns_bind (read_bs_ker _)
  intro e
  apply returns_ite (returns_throw _)
  apply returns_bind (inc_ref_count_ker _)
  intro _
  apply returns_bind (set_entry_ker _ _ _)
  intro _
  apply returns_bind (returns_bind (log_ker _) fun _ => set_entry_ker _ _ _)
  intro _
  exact log_ker _

theorem pf_service_ker (pid : Int) (a : Nat) : Returns St.ker (pfService pid a) := by
  apply returns_bind returns_get
  intro s
  apply returns_bind (pf_table_ker _ _ _)
  intro pt
  apply returns_bind (get_new_frame_ker _ _ _)
  intro faddr
  exact pf_install_ker _ _ _ _

/-- `init_pd` fails without a trace in the kernel variables, or enters the directory. -/
theorem init_pd_ker {s final : St} {pid status : Int} (ran : initPd pid s = .ok status final) :
    status = sysErr ∧ final.ker = s.ker ∨
      status = ok ∧ ∃ pd, final.ker = s.ker.setProc pid fun proc => { proc with pd := pd } := by
  obtain ⟨_, held, waited, ran⟩ := bind_ok_inv ran
  obtain ⟨free, rfl⟩ := wait_returned waited
  obtain ⟨pd, filled, allocated, ran⟩ := bind_ok_inv ran
  have ker : filled.ker = taken s.ker .pfSem := get_new_frame_ker _ _ _ _ _ _ allocated
  rw [bind_ok (signal_taken free ker)] at ran
  split at ran
  · cases ran
    exact Or.inl ⟨rfl, rfl⟩
  · cases ran
    exact Or.inr ⟨rfl, pd, rfl⟩

end Faults

section Processor

theorem touch_ker (a : Nat) (write : Bool) : Returns St.ker (touch a write) := by
  apply returns_bind returns_get
  intro s
  exact set_entry_ker _ _ _

theorem load_ker (a : Nat) : Returns St.ker (load a) := by
  apply returns_bind returns_get
  intro s
  apply returns_ite
  · apply returns_bind (touch_ker _ _)
    intro _
    exact returns_bind returns_get fun _ => returns_pure _
  · exact returns_throw _

theorem store_ker (a : Nat) (value : Byte) : Returns St.ker (store a value) := by
  apply returns_bind returns_get
  intro s
  apply returns_ite
  · apply returns_bind (touch_ker _ _)
    intro _
    exact returns_modify fun _ => rfl
  · exact returns_throw _

end Processor

section Boot

variable [Config]

/-- The kernel variables without the addresses of the shared page tables. -/
def kerBesideTables (s : St) : Ker := { s.ker with gpt := fun _ => 0, dpt := 0 }

theorem init_gpt_ker : Returns kerBesideTables initGpt := by
  have unchanged : ∀ {α : Type} {action : Call α}, Returns St.ker action →
      Returns kerBesideTables action :=
    fun returns => returns_map returns fun ker => { ker with gpt := fun _ => 0, dpt := 0 }
  have loop : ∀ fuel j, Returns kerBesideTables (initGptFrom fuel j) := by
    intro fuel
    induction fuel with
    | zero =>
        intro j
        exact returns_pure _
    | succ fuel induction =>
        intro j
        apply returns_bind (unchanged (get_new_frame_ker _ _ _))
        intro faddr
        apply returns_bind
        · exact returns_modify fun _ => rfl
        intro _
        apply returns_bind
        · exact returns_modify fun _ => rfl
        intro _
        apply returns_bind (unchanged (faddr_to_frame_num_ker _))
        intro fr
        exact returns_bind (unchanged (log_ker _)) fun _ => induction _
  apply returns_bind (loop _ _)
  intro _
  apply returns_bind (unchanged (get_new_frame_ker _ _ _))
  intro faddr
  apply returns_bind
  · exact returns_modify fun _ => rfl
  intro _
  exact returns_modify fun _ => rfl

/-- `initialize_paging` changes the directory of the null process and no other entry
of the process table, frees `pf_sem` and counts all backing stores as free. -/
theorem initialize_paging_ker {before final : St} (ran : initializePaging before = .ok () final) :
    ∃ gpt dpt gpd pd, final.ker =
      { (before.ker.setProc nullproc fun proc => { proc with pd := pd }).setSem .pfSem
          (fun _ => { scount := 1, squeue := [] }) with
        currpolicy := .fifo
        freeBsCount := maxBsEntries
        gpt := gpt
        dpt := dpt
        gpd := gpd
        pfc := 0 } := by
  obtain ⟨_, framed, framesRan, ran⟩ := bind_ok_inv ran
  obtain ⟨_, tabled, tablesRan, ran⟩ := bind_ok_inv ran
  obtain ⟨status, paged, directory, ran⟩ := bind_ok_inv ran
  cases ran
  have framedKer : framed.ker =
      { before.ker.setSem .pfSem (fun _ => { scount := 1, squeue := [] }) with
        currpolicy := .fifo, freeBsCount := maxBsEntries, pfc := 0 } := by
    obtain ⟨ipt, inited, _⟩ := init_frames_ok before
    rw [inited] at framesRan
    cases framesRan
    rfl
  have tabledKer : tabled.ker =
      { framed.ker with gpt := tabled.ker.gpt, dpt := tabled.ker.dpt } := by
    have beside : kerBesideTables tabled = kerBesideTables framed := init_gpt_ker _ _ _ tablesRan
    have whole : tabled.ker =
        { kerBesideTables tabled with gpt := tabled.ker.gpt, dpt := tabled.ker.dpt } := rfl
    rw [whole, beside]
    rfl
  rcases init_pd_ker directory with ⟨_, same⟩ | ⟨_, pd, same⟩
  · refine ⟨tabled.ker.gpt, tabled.ker.dpt, (before.ker.proctab nullproc).pd,
      (before.ker.proctab nullproc).pd, ?_⟩
    dsimp only
    rw [same, tabledKer, framedKer]
    simp [Ker.setProc, Ker.setSem]
  · refine ⟨tabled.ker.gpt, tabled.ker.dpt, pd, pd, ?_⟩
    dsimp only
    rw [same, tabledKer, framedKer]
    simp [Ker.setProc, Ker.setSem]

end Boot

end Xinu.Processes.KernelVariables
