import Mathlib.Logic.Relation
import Xinu.Replacement.Order

/-!
# System runs are runs of calls

`pf_handler`, `init_pd`, `vcreate`, `kill` and the boot sequence reach the frame
table through `getNewFrame`, `freeProcFrames` and the reference counts only. A
run of the system whose policy is FIFO is therefore one of the runs of calls
that the queue results are about.
-/

namespace Xinu.Replacement.SystemCalls

open Xinu.Kernel.State Xinu.Kernel.Entry Xinu.Kernel.Semaphore Xinu.Kernel.Memory
open Xinu.Lib.StateError Xinu.Paging.Address Xinu.Paging.BackingStore Xinu.Paging.Ipt
open Xinu.Paging.Handler Xinu.Paging.Process Xinu.Paging.Cpu Xinu.Paging.System
open Xinu.Replacement.FifoRuns Xinu.Replacement.Order

set_option autoImplicit false

section Keeps

theorem keeps_psinit : Keeps quietView psinit := by
  apply keeps_bind (keeps_wait (by decide))
  intro _
  apply keeps_bind keeps_get
  intro s
  apply keeps_ite (keeps_pure _)
  apply keeps_bind
  · exact keeps_modify_ker fun _ => ⟨rfl, rfl⟩
  intro _
  apply keeps_bind
  · exact keeps_modify_ker fun _ => ⟨rfl, rfl⟩
  intro _
  exact keeps_bind (keeps_signal (by decide)) fun _ => keeps_pure _

theorem keeps_get_bs (bsId : Int) (npages : Nat) : Keeps quietView (getBs bsId npages) := by
  have opened : Keeps quietView (do
      wait .bsSem
      let s ← get
      if (s.ker.bstab bsId.toNat).isopen then do
        signal .bsSem
        pure sysErr
      else do
        modifyKer fun ker => ker.setStore bsId.toNat fun store =>
          { store with isopen := true, npages := npages }
        signal .bsSem
        pure (npages : Int)) := by
    apply keeps_bind (keeps_wait (by decide))
    intro _
    apply keeps_bind keeps_get
    intro s
    apply keeps_ite
    · exact keeps_bind (keeps_signal (by decide)) fun _ => keeps_pure _
    · apply keeps_bind
      · exact keeps_modify_ker fun _ => ⟨rfl, rfl⟩
      intro _
      exact keeps_bind (keeps_signal (by decide)) fun _ => keeps_pure _
  apply keeps_bind keeps_get
  intro s
  apply keeps_ite
  · apply keeps_bind keeps_psinit
    intro _
    exact keeps_ite (keeps_pure _) opened
  · exact keeps_ite (keeps_pure _) opened

theorem keeps_release_bs (bsId : Int) : Keeps quietView (releaseBs bsId) := by
  apply keeps_bind keeps_get
  intro s
  apply keeps_ite (keeps_pure _)
  apply keeps_bind (keeps_wait (by decide))
  intro _
  apply keeps_bind keeps_get
  intro s
  apply keeps_ite
  · exact keeps_bind (keeps_signal (by decide)) fun _ => keeps_pure _
  · apply keeps_bind
    · exact keeps_modify_ker fun _ => ⟨rfl, rfl⟩
    intro _
    exact keeps_bind (keeps_signal (by decide)) fun _ => keeps_pure _

theorem keeps_allocate_bs_from (npages fuel i : Nat) :
    Keeps quietView (allocateBsFrom npages fuel i) := by
  induction fuel generalizing i with
  | zero => exact keeps_pure _
  | succ fuel induction =>
      apply keeps_bind keeps_get
      intro s
      apply keeps_ite
      · apply keeps_bind (keeps_get_bs _ _)
        intro opened
        apply keeps_ite (induction _)
        apply keeps_bind
        · exact keeps_modify_ker fun _ => ⟨rfl, rfl⟩
        intro _
        exact keeps_pure _
      · exact induction _

theorem keeps_allocate_bs (npages : Nat) : Keeps quietView (allocateBs npages) := by
  apply keeps_bind keeps_get
  intro s
  apply keeps_ite
  · exact keeps_bind keeps_psinit fun _ => keeps_allocate_bs_from _ _ _
  · exact keeps_allocate_bs_from _ _ _

theorem keeps_deallocate_bs (store : Int) : Keeps quietView (deallocateBs store) := by
  apply keeps_ite (keeps_pure _)
  apply keeps_bind keeps_get
  intro s
  apply keeps_ite (keeps_pure _)
  apply keeps_ite (keeps_pure _)
  apply keeps_bind (keeps_release_bs _)
  intro _
  apply keeps_bind
  · exact keeps_modify_ker fun _ => ⟨rfl, rfl⟩
  intro _
  exact keeps_pure _

theorem keeps_free_proc_bs_from (pid : Int) (fuel : Nat) (remain : Int) (i : Nat) :
    Keeps quietView (freeProcBSFrom pid fuel remain i) := by
  induction fuel generalizing remain i with
  | zero => exact keeps_pure _
  | succ fuel induction =>
      apply keeps_ite
      · apply keeps_bind keeps_get
        intro s
        apply keeps_bind (keeps_deallocate_bs _)
        intro _
        apply keeps_bind
        · exact keeps_modify_ker fun _ => ⟨rfl, rfl⟩
        intro _
        exact induction _ _
      · exact keeps_pure _

theorem keeps_free_proc_bs (pid : Int) : Keeps quietView (freeProcBS pid) := by
  apply keeps_bind keeps_get
  intro s
  apply keeps_ite (keeps_pure _)
  exact keeps_bind (keeps_free_proc_bs_from _ _ _ _) fun _ => keeps_pure _

theorem keeps_bs_init_from (pid : Int) (fuel : Nat) (remain : Int) (i : Nat) :
    Keeps quietView (bsInitFrom pid fuel remain i) := by
  induction fuel generalizing remain i with
  | zero => exact keeps_pure _
  | succ fuel induction =>
      apply keeps_ite
      · apply keeps_bind (keeps_allocate_bs _)
        intro store
        apply keeps_bind
        · exact keeps_modify_ker fun _ => ⟨rfl, rfl⟩
        intro _
        apply keeps_bind
        · exact keeps_modify_ker fun _ => ⟨rfl, rfl⟩
        intro _
        exact induction _ _
      · exact keeps_pure _

theorem keeps_bs_init (pid : Int) (hsize : Nat) : Keeps quietView (bsInit pid hsize) := by
  apply keeps_bind
  · exact keeps_modify_ker fun _ => ⟨rfl, rfl⟩
  intro _
  exact keeps_bind (keeps_bs_init_from _ _ _ _) fun _ => keeps_pure _

theorem keeps_read_bs (dst : Nat) (bsId : Int) (page : Nat) :
    Keeps quietView (readBs dst bsId page) := by
  apply keeps_bind (keeps_log _)
  intro _
  apply keeps_bind keeps_get
  intro s
  apply keeps_ite (keeps_pure _)
  apply keeps_ite (keeps_pure _)
  apply keeps_bind (keeps_wait (by decide))
  intro _
  apply keeps_bind keeps_get
  intro s
  apply keeps_ite
  · exact keeps_bind (keeps_signal (by decide)) fun _ => keeps_pure _
  · apply keeps_bind (keeps_signal (by decide))
    intro _
    apply keeps_ite (keeps_throw _)
    exact keeps_bind (keeps_modify fun _ => rfl) fun _ => keeps_pure _

theorem keeps_getstk (nbytes : Nat) : Keeps quietView (getstk nbytes) := by
  apply keeps_ite (keeps_pure _)
  apply keeps_bind keeps_get
  intro s
  split
  · exact keeps_pure _
  · apply keeps_bind
    · exact keeps_modify_ker fun _ => ⟨rfl, rfl⟩
    intro _
    exact keeps_pure _

theorem keeps_freemem (blkaddr nbytes : Nat) : Keeps quietView (freemem blkaddr nbytes) := by
  apply keeps_bind keeps_get
  intro s
  apply keeps_ite (keeps_pure _)
  apply keeps_ite (keeps_pure _)
  apply keeps_bind
  · exact keeps_modify_ker fun _ => ⟨rfl, rfl⟩
  intro _
  exact keeps_pure _

end Keeps

variable [Config]

def pfCount (s : St) : Int := (s.ker.semtab .pfSem).scount

/-- Every returned run of the action is a sequence of calls, keeps the policy and
puts `pf_sem` up by what its caller has taken from it. -/
def Calls {α : Type} (owed : Nat) (action : Call α) : Prop :=
  ∀ (t : Timed) (value : α) (final : St), action t.st = .ok value final →
    (∃ next : Timed, next.st = final ∧ Relation.ReflTransGen CallStep t next) ∧
      final.ker.currpolicy = t.st.ker.currpolicy ∧ pfCount t.st + owed ≤ pfCount final

section Combinators

variable {α β : Type} {owed : Nat}

theorem calls_of_step {action : Call α} (lock : Keeps lockView action)
    (step : ∀ (t : Timed) (value : α) (final : St), action t.st = .ok value final →
      ∃ next : Timed, next.st = final ∧ CallStep t next) : Calls 0 action := by
  intro t value final ran
  obtain ⟨next, same, call⟩ := step t value final ran
  have kept := keeps_ok lock ran
  simp only [lockView, Prod.mk.injEq] at kept
  refine ⟨⟨next, same, Relation.ReflTransGen.single call⟩, kept.1, ?_⟩
  rw [pfCount, pfCount, kept.2]
  omega

theorem calls_of_keeps {action : Call α} (keeps : Keeps quietView action) : Calls 0 action := by
  apply calls_of_step (keeps_lock keeps)
  intro t value final ran
  exact ⟨{ t with st := final }, rfl, .other (keeps_ok (keeps_queue keeps) ran)⟩

theorem calls_pure (value : α) : Calls 0 (pure value) := calls_of_keeps (keeps_pure value)

theorem calls_throw (stop : Stop) : Calls owed (throw stop : Call α) := by
  intro t value final ran
  cases ran

theorem calls_bind {first : Call α} {next : α → Call β} (firstCalls : Calls 0 first)
    (nextCalls : ∀ value, Calls owed (next value)) : Calls owed (first >>= next) := by
  intro t result final ran
  obtain ⟨value, middle, firstRan, ran⟩ := bind_ok_inv ran
  obtain ⟨⟨between, rfl, reach⟩, policy, count⟩ := firstCalls t value middle firstRan
  obtain ⟨⟨last, same, rest⟩, policyNext, countNext⟩ := nextCalls value between result final ran
  exact ⟨⟨last, same, reach.trans rest⟩, policyNext.trans policy, by omega⟩

theorem calls_get_bind {next : St → Call β} (nextCalls : ∀ s, Calls owed (next s)) :
    Calls owed (get >>= next) := calls_bind (calls_of_keeps keeps_get) nextCalls

theorem calls_ite {condition : Prop} [Decidable condition] {yes no : Call α}
    (yesCalls : Calls owed yes) (noCalls : Calls owed no) :
    Calls owed (if condition then yes else no) := by
  split
  · exact yesCalls
  · exact noCalls

/-- What follows a `wait` has to give `pf_sem` back. -/
theorem calls_wait_bind {next : Unit → Call β} (nextCalls : ∀ value, Calls (owed + 1) (next value)) :
    Calls owed (wait .pfSem >>= next) := by
  intro t result final ran
  obtain ⟨value, middle, waitRan, ran⟩ := bind_ok_inv ran
  obtain ⟨_, rfl⟩ := wait_returned waitRan
  obtain ⟨⟨last, same, reach⟩, policy, count⟩ :=
    nextCalls value { t with st := { t.st with ker := taken t.st.ker .pfSem } } result final ran
  have took : CallStep t { t with st := { t.st with ker := taken t.st.ker .pfSem } } := .other rfl
  refine ⟨⟨last, same, Relation.ReflTransGen.head took reach⟩, policy, ?_⟩
  have less : pfCount { t.st with ker := taken t.st.ker .pfSem } = pfCount t.st - 1 := by
    simp [pfCount, taken, Ker.setSem]
  have given : pfCount { t.st with ker := taken t.st.ker .pfSem } + (owed + 1 : Nat) ≤
      pfCount final := count
  omega

theorem calls_signal : Calls 1 (signal .pfSem) := by
  intro t value final ran
  obtain ⟨ker, signalled, policy, count⟩ := signal_returned t.st .pfSem
  rw [signalled] at ran
  cases ran
  refine ⟨⟨{ t with st := _ }, rfl, Relation.ReflTransGen.single (.other ?_)⟩, policy, ?_⟩
  · simp only [queueView, policy]
  · simp only [pfCount, count]
    omega

theorem calls_signal_bind {next : Unit → Call β} (nextCalls : ∀ value, Calls owed (next value)) :
    Calls (owed + 1) (signal .pfSem >>= next) := by
  intro t result final ran
  obtain ⟨value, middle, signalRan, ran⟩ := bind_ok_inv ran
  obtain ⟨⟨between, rfl, reach⟩, policy, count⟩ := calls_signal t value middle signalRan
  obtain ⟨⟨last, same, rest⟩, policyNext, countNext⟩ := nextCalls value between result final ran
  exact ⟨⟨last, same, reach.trans rest⟩, policyNext.trans policy, by omega⟩

end Combinators

section Functions

theorem calls_get_new_frame (type : FrameStatus) (pid vpn : Int) :
    Calls 0 (getNewFrame type pid vpn) := by
  apply calls_of_step (get_new_frame_keeps_lock _ _ _)
  intro t addr final ran
  exact ⟨_, rfl, .getNewFrame ran⟩

theorem calls_log (effect : Effect) : Calls 0 (log effect) := calls_of_keeps (keeps_log effect)

theorem calls_set_entry (table index : Nat) (change : Word → Word) :
    Calls 0 (setEntry table index change) := calls_of_keeps (keeps_set_entry table index change)

theorem calls_faddr_to_frame_num (faddr : Nat) : Calls 0 (faddr2frameNum faddr) :=
  calls_bind (calls_log _) fun _ => calls_pure _

theorem calls_new_page_table (pid : Int) : Calls 0 (newPageTable pid) := by
  apply calls_bind (calls_get_new_frame _ _ _)
  intro faddr
  apply calls_ite (calls_pure _)
  apply calls_bind
  · exact calls_of_keeps (keeps_modify fun _ => rfl)
  intro _
  apply calls_bind (calls_faddr_to_frame_num _)
  intro fr
  exact calls_bind (calls_log _) fun _ => calls_pure _

theorem calls_init_pd (pid : Int) : Calls 0 (initPd pid) := by
  apply calls_wait_bind
  intro _
  apply calls_bind (calls_get_new_frame _ _ _)
  intro pd
  apply calls_signal_bind
  intro _
  apply calls_ite (calls_pure _)
  apply calls_bind
  · exact calls_of_keeps (keeps_modify_ker fun _ => ⟨rfl, rfl⟩)
  intro _
  apply calls_bind
  · exact calls_of_keeps (keeps_modify fun _ => rfl)
  intro _
  exact calls_pure _

theorem calls_pf_service (pid : Int) (a : Nat) : Calls 0 (pfService pid a) := by
  have table : ∀ pd pdi, Calls 0 (pfTable pid pd pdi) := by
    intro pd pdi
    apply calls_get_bind
    intro s
    apply calls_ite
    · apply calls_bind (calls_new_page_table _)
      intro pt
      apply calls_bind
      · exact calls_bind (calls_log _) fun _ => calls_set_entry _ _ _
      intro _
      exact calls_bind (calls_set_entry _ _ _) fun _ => calls_pure _
    · exact calls_pure _
  have install : ∀ pt faddr, Calls 0 (pfInstall pid a pt faddr) := by
    intro pt faddr
    apply calls_bind (calls_faddr_to_frame_num _)
    intro fr
    apply calls_bind (calls_of_keeps (keeps_get_bs_info _ _))
    intro place
    apply calls_bind (calls_of_keeps (keeps_read_bs _ _ _))
    intro e
    apply calls_ite (calls_throw _)
    apply calls_bind
    · apply calls_of_step
      · apply keeps_bind (keeps_lock (keeps_log _))
        intro _
        exact keeps_frame_lock (keeps_modify_frame _ _)
      intro t value final ran
      exact ⟨_, rfl, .incRefCount ran⟩
    intro _
    apply calls_bind (calls_set_entry _ _ _)
    intro _
    apply calls_bind
    · exact calls_bind (calls_log _) fun _ => calls_set_entry _ _ _
    intro _
    exact calls_log _
  apply calls_get_bind
  intro s
  apply calls_bind (table _ _)
  intro pt
  apply calls_bind (calls_get_new_frame _ _ _)
  intro faddr
  exact install _ _

/-- A victim that waited for `pf_sem` gives its count back. -/
theorem calls_retire (pid : Int) : Calls 0 (modifyKer fun ker => retire ker pid) := by
  intro t value final ran
  cases ran
  have kept : (retire t.st.ker pid).currpolicy = t.st.ker.currpolicy ∧
      (t.st.ker.semtab .pfSem).scount ≤ ((retire t.st.ker pid).semtab .pfSem).scount := by
    unfold retire
    split
    · rename_i sem _ _
      cases sem with
      | pfSem =>
          refine ⟨rfl, ?_⟩
          simp only [Ker.setSem, Function.update_self, Ker.setProc]
          omega
      | bsSem => simp [Ker.setSem, Ker.setProc]
      | bsInitSem => simp [Ker.setSem, Ker.setProc]
    · exact ⟨rfl, Int.le_refl _⟩
  refine ⟨⟨{ t with st := _ }, rfl, Relation.ReflTransGen.single (.other ?_)⟩, kept.1, ?_⟩
  · simp only [queueView, kept.1]
  · simp only [pfCount]
    omega

theorem calls_kill (pid : Int) : Calls 0 (kill pid) := by
  apply calls_get_bind
  intro s
  apply calls_ite (calls_pure _)
  apply calls_bind
  · exact calls_of_keeps (keeps_modify_ker fun _ => ⟨rfl, rfl⟩)
  intro _
  apply calls_ite (calls_throw _)
  apply calls_bind (calls_of_keeps (keeps_freemem _ _))
  intro _
  apply calls_bind
  · apply calls_of_step (keeps_frame_lock (keeps_free_proc_frames _))
    intro t value final ran
    exact ⟨_, rfl, .freeProcFrames ran⟩
  intro _
  apply calls_bind (calls_of_keeps (keeps_free_proc_bs _))
  intro _
  apply calls_bind
  · exact calls_retire _
  intro _
  exact calls_pure _

theorem calls_pf_handler (cr2 : Nat) : Calls 0 (pfHandler cr2) := by
  apply calls_bind
  · exact calls_of_keeps (keeps_modify_ker fun _ => ⟨rfl, rfl⟩)
  intro _
  apply calls_wait_bind
  intro _
  apply calls_get_bind
  intro s
  apply calls_ite
  · apply calls_signal_bind
    intro _
    exact calls_bind (calls_kill _) fun _ => calls_pure _
  · exact calls_bind (calls_pf_service _ _) fun _ => calls_signal

theorem keeps_create (ssize : Nat) (priority : Int) : Keeps quietView (create ssize priority) := by
  apply keeps_bind (keeps_getstk _)
  intro saddr
  apply keeps_ite (keeps_pure _)
  apply keeps_bind
  · apply keeps_bind keeps_get
    intro s
    apply keeps_bind
    · exact keeps_modify_ker fun _ => ⟨rfl, rfl⟩
    intro _
    exact keeps_pure _
  intro pid
  apply keeps_ite (keeps_pure _)
  apply keeps_bind
  · exact keeps_modify_ker fun _ => ⟨rfl, rfl⟩
  intro _
  apply keeps_bind
  · exact keeps_modify_ker fun _ => ⟨rfl, rfl⟩
  intro _
  exact keeps_pure _

theorem calls_vcreate_space (pid : Int) (saddr ssize hsize : Nat) :
    Calls 0 (vcreateSpace pid saddr ssize hsize) := by
  have undo : ∀ addr len, Calls 0 (do
      let _ ← freestk addr len
      modifyKer fun ker => { ker with prcount := ker.prcount - 1 }
      pure sysErr) := by
    intro addr len
    apply calls_bind (calls_of_keeps (keeps_freemem _ _))
    intro _
    apply calls_bind
    · exact calls_of_keeps (keeps_modify_ker fun _ => ⟨rfl, rfl⟩)
    intro _
    exact calls_pure _
  apply calls_get_bind
  intro s
  apply calls_ite
  · exact calls_bind (calls_of_keeps (keeps_freemem _ _)) fun _ => calls_pure _
  · apply calls_bind
    · exact calls_of_keeps (keeps_modify_ker fun _ => ⟨rfl, rfl⟩)
    intro _
    apply calls_bind (calls_init_pd _)
    intro status
    apply calls_ite (undo _ _)
    apply calls_bind (calls_of_keeps (keeps_bs_init _ _))
    intro status
    apply calls_ite (undo _ _)
    apply calls_bind
    · exact calls_of_keeps (keeps_modify_ker fun _ => ⟨rfl, rfl⟩)
    intro _
    exact calls_pure _

theorem calls_vcreate (ssize hsize : Nat) (priority : Int) :
    Calls 0 (vcreate ssize hsize priority) := by
  apply calls_bind (calls_of_keeps (keeps_getstk _))
  intro saddr
  apply calls_ite (calls_pure _)
  apply calls_bind
  · apply calls_get_bind
    intro s
    apply calls_bind
    · exact calls_of_keeps (keeps_modify_ker fun _ => ⟨rfl, rfl⟩)
    intro _
    exact calls_pure _
  intro pid
  exact calls_ite (calls_pure _) (calls_vcreate_space _ _ _ _)

end Functions

section Runs

theorem calls_init_gpt : Calls 0 initGpt := by
  have tables : ∀ fuel j, Calls 0 (initGptFrom fuel j) := by
    intro fuel
    induction fuel with
    | zero =>
        intro j
        exact calls_pure _
    | succ fuel induction =>
        intro j
        apply calls_bind (calls_get_new_frame _ _ _)
        intro faddr
        apply calls_bind
        · exact calls_of_keeps (keeps_modify_ker fun _ => ⟨rfl, rfl⟩)
        intro _
        apply calls_bind
        · exact calls_of_keeps (keeps_modify fun _ => rfl)
        intro _
        apply calls_bind (calls_faddr_to_frame_num _)
        intro fr
        exact calls_bind (calls_log _) fun _ => induction _
  apply calls_bind (tables _ _)
  intro _
  apply calls_bind (calls_get_new_frame _ _ _)
  intro faddr
  apply calls_bind
  · exact calls_of_keeps (keeps_modify_ker fun _ => ⟨rfl, rfl⟩)
  intro _
  exact calls_of_keeps (keeps_modify fun _ => rfl)

omit [Config] in
theorem keeps_touch (a : Nat) (write : Bool) : Keeps quietView (touch a write) := by
  apply keeps_bind keeps_get
  intro s
  exact keeps_set_entry _ _ _

omit [Config] in
theorem keeps_load (a : Nat) : Keeps quietView (load a) := by
  apply keeps_bind keeps_get
  intro s
  apply keeps_ite
  · apply keeps_bind (keeps_touch _ _)
    intro _
    exact keeps_bind keeps_get fun _ => keeps_pure _
  · exact keeps_throw _

omit [Config] in
theorem keeps_store (a : Nat) (value : Byte) : Keeps quietView (store a value) := by
  apply keeps_bind keeps_get
  intro s
  apply keeps_ite
  · exact keeps_bind (keeps_touch _ _) fun _ => keeps_modify fun _ => rfl
  · exact keeps_throw _

theorem keeps_resched (pid : Int) : Keeps quietView (resched pid) := by
  have switch : Keeps quietView (modifyKer fun ker =>
      { ker.setProc pid (fun proc => { proc with prstate := .curr }) with currpid := pid }) :=
    keeps_modify_ker fun _ => ⟨rfl, rfl⟩
  apply keeps_bind keeps_get
  intro s
  apply keeps_ite
  · apply keeps_ite
    · apply keeps_bind
      · exact keeps_modify_ker fun _ => ⟨rfl, rfl⟩
      intro _
      exact switch
    · exact switch
  · exact keeps_throw _

theorem keeps_resume (pid : Int) : Keeps quietView (resume pid) := by
  apply keeps_bind keeps_get
  intro s
  apply keeps_ite (keeps_pure _)
  apply keeps_bind
  · exact keeps_modify_ker fun _ => ⟨rfl, rfl⟩
  intro _
  exact keeps_pure _

theorem calls_perform {s : St} {event : Event} (fixed : Fixed s event) :
    Calls 0 (perform event) := by
  cases event with
  | resched pid => exact calls_bind (calls_of_keeps (keeps_resched _)) fun _ => calls_pure _
  | resume pid => exact calls_bind (calls_of_keeps (keeps_resume _)) fun _ => calls_pure _
  | create ssize priority =>
      exact calls_bind (calls_of_keeps (keeps_create _ _)) fun _ => calls_pure _
  | vcreate ssize hsize priority => exact calls_bind (calls_vcreate _ _ _) fun _ => calls_pure _
  | kill pid => exact calls_bind (calls_kill _) fun _ => calls_pure _
  | fault a =>
      apply calls_get_bind
      intro s
      exact calls_ite (calls_bind (calls_pf_handler _) fun _ => calls_pure _) (calls_throw _)
  | load a => exact calls_bind (calls_of_keeps (keeps_load _)) fun _ => calls_pure _
  | store a value => exact calls_bind (calls_of_keeps (keeps_store _ _)) fun _ => calls_pure _
  | srpolicy policy => exact fixed.elim

theorem calls_exec {s : St} {event : Event} (fixed : Fixed s event) :
    Calls 0 (exec event) := by
  have performed := calls_perform fixed
  apply calls_get_bind
  intro s
  cases event
  case resched pid => exact performed
  all_goals exact calls_ite performed (calls_throw _)

theorem call_run_trans {t next : Timed} (run : CallRun t)
    (reach : Relation.ReflTransGen CallStep t next) : CallRun next := by
  induction reach with
  | refl => exact run
  | tail _ call induction => exact .step induction call

theorem calls_finish_boot : Calls 0 (do
    initGpt
    let _ ← initPd nullproc
    modifyKer fun ker => { ker with gpd := (ker.proctab nullproc).pd }) := by
  apply calls_bind calls_init_gpt
  intro _
  apply calls_bind (calls_init_pd _)
  intro _
  exact calls_of_keeps (keeps_modify_ker fun _ => ⟨rfl, rfl⟩)

/-- The boot sequence is a run of calls under FIFO that leaves `pf_sem` free. -/
theorem boot_calls {before paged : St} (ran : initializePaging before = .ok () paged) :
    (∃ t : Timed, t.st = paged ∧ CallRun t) ∧ paged.ker.currpolicy = .fifo ∧ 1 ≤ pfCount paged := by
  obtain ⟨_, framed, framesRan, ran⟩ := bind_ok_inv ran
  obtain ⟨⟨t, same, reach⟩, policy, count⟩ :=
    calls_finish_boot ⟨framed, fun _ => 0, 0⟩ _ _ ran
  have framedPolicy : framed.ker.currpolicy = .fifo := (start_fifo framesRan).1
  have framedCount : pfCount framed = 1 := by
    obtain ⟨ipt, inited, _⟩ := init_frames_ok before
    rw [inited] at framesRan
    cases framesRan
    simp [pfCount, Ker.setSem]
  refine ⟨⟨t, same, call_run_trans (.start (fun _ => 0) framesRan) reach⟩, ?_, ?_⟩
  · exact policy.trans framedPolicy
  · have grown : pfCount framed + 0 ≤ pfCount paged := count
    omega

/-- Between two steps `pf_sem` is free and the policy is the one chosen at the start. -/
theorem system_run_rests {policy : Int} {s : St} (run : SystemRun policy s) :
    s.ker.currpolicy = (if policy = gca then .gca else .fifo) ∧ 1 ≤ pfCount s := by
  induction run with
  | start booted =>
      obtain ⟨before, _, status, ran⟩ := booted
      obtain ⟨_, paged, initRan, ran⟩ := bind_ok_inv ran
      obtain ⟨_, pagedPolicy, count⟩ := boot_calls initRan
      rw [srpolicy_returned ran]
      refine ⟨?_, count⟩
      by_cases isGca : policy = gca
      · subst isGca
        rfl
      · simp [isGca, pagedPolicy]
  | step _ fixed ran induction =>
      obtain ⟨policyEq, count⟩ := induction
      obtain ⟨_, kept, grown⟩ := calls_exec fixed ⟨_, fun _ => 0, 0⟩ _ _ ran
      refine ⟨kept.trans policyEq, ?_⟩
      simp only at grown
      omega

/-- Every state of a system run under FIFO is the state of a run of calls. -/
theorem system_run_calls {s : St} (run : SystemRun fifo s) : ∃ t : Timed, t.st = s ∧ CallRun t := by
  induction run with
  | start booted =>
      obtain ⟨before, _, status, ran⟩ := booted
      obtain ⟨_, paged, initRan, ran⟩ := bind_ok_inv ran
      obtain ⟨⟨t, same, callRun⟩, policy, _⟩ := boot_calls initRan
      refine ⟨{ t with st := _ }, rfl, .step callRun (.other ?_)⟩
      rw [srpolicy_returned ran, same]
      simp only [queueView, if_true, policy]
  | step _ fixed ran induction =>
      obtain ⟨t, rfl, callRun⟩ := induction
      obtain ⟨⟨next, same, reach⟩, _⟩ := calls_exec fixed t _ _ ran
      exact ⟨next, same, call_run_trans callRun reach⟩

end Runs

end Xinu.Replacement.SystemCalls
