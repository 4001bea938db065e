import Xinu.Processes.Steps
import Xinu.Replacement.FifoResults
import Xinu.Replacement.SystemCalls
import Xinu.Space.Agreement
import Xinu.Swap.Allocation

/-!
# Backing stores are conserved

The account of the stores that live processes hold is kept by every step, so in every
state of a run each heap has all of its stores, no two heaps share one, and
`free_bs_count` is the number of the others.
-/

namespace Xinu.Swap.Conservation

open Xinu.Kernel.State Xinu.Kernel.Entry Xinu.Kernel.Semaphore Xinu.Lib.Counting
open Xinu.Lib.StateError Xinu.Paging.Address Xinu.Paging.BackingStore Xinu.Paging.Ipt
open Xinu.Paging.Handler Xinu.Paging.Process Xinu.Paging.Cpu Xinu.Paging.System
open Xinu.Processes.KernelVariables Xinu.Processes.Steps Xinu.Space.Agreement
open Xinu.Replacement.FifoResults Xinu.Replacement.FifoRuns Xinu.Replacement.SystemCalls
open Xinu.Swap.Ledger Xinu.Swap.Allocation

set_option autoImplicit false

/-- The pages that a process has in its `i`th store. -/
def share (ker : Ker) (pid : Int) (i : Nat) : Nat :=
  if (ker.proctab pid).prstate ≠ .free ∧ (ker.proctab pid).vh = true then
    heapShare (ker.proctab pid).hsize i
  else 0

def StoresKept (s : St) : Prop := Stores s.ker (share s.ker)

/-- Backing stores are in use from the start on: the store table is zeroed. -/
def StoresOff (s : St) : Prop :=
  ∀ store < maxBsEntries, (s.ker.bstab store).isallocated = false ∧
    (s.ker.bstab store).isopen = false

variable {s final : St} {ker after : Ker} {pid : Int} {i : Nat}

section Shares

theorem share_live (live : HeapLive s pid) :
    share s.ker pid i = heapShare (s.ker.proctab pid).hsize i := if_pos live

theorem share_dead (dead : ¬HeapLive s pid) : share s.ker pid i = 0 := if_neg dead

theorem share_free (free : (ker.proctab pid).prstate = .free) : share ker pid i = 0 :=
  if_neg fun live => live.1 free

theorem share_positive : 0 < share s.ker pid i ↔
    HeapLive s pid ∧ i < ((s.ker.proctab pid).hsize + maxPagesPerBs - 1) / maxPagesPerBs := by
  by_cases live : HeapLive s pid
  · rw [share_live live, heapShare, maxPagesPerBs]
    constructor
    · intro some
      exact ⟨live, by omega⟩
    · rintro ⟨_, some⟩
      omega
  · rw [share_dead live]
    exact iff_of_false (by omega) fun both => live both.1

theorem share_of_proc (same : after.proctab pid = ker.proctab pid) :
    share after pid i = share ker pid i := by
  unfold share
  rw [same]

end Shares

/-- The account is kept when the shares and the places stay. -/
theorem kept_of_shares (kept : StoresKept s) (shares : ∀ pid i, share final.ker pid i = share s.ker pid i)
    (places : ∀ pid, (final.ker.proctab pid).pbsd = (s.ker.proctab pid).pbsd)
    (table : final.ker.bstab = s.ker.bstab) (free : final.ker.freeBsCount = s.ker.freeBsCount)
    (server : final.ker.pageServerActive = s.ker.pageServerActive) : StoresKept final := by
  have same : share final.ker = share s.ker := by
    funext pid i
    exact shares pid i
  rw [StoresKept, same]
  exact stores_congr kept (fun pid _ _ => by rw [places]) (fun _ _ => by rw [table]) free server

theorem kept_of_ker (kept : StoresKept s) (procs : final.ker.proctab = s.ker.proctab)
    (table : final.ker.bstab = s.ker.bstab) (free : final.ker.freeBsCount = s.ker.freeBsCount)
    (server : final.ker.pageServerActive = s.ker.pageServerActive) : StoresKept final :=
  kept_of_shares kept (fun _ _ => share_of_proc (by rw [procs])) (fun _ => by rw [procs]) table
    free server

section Membership

/-- The process table after `vcreate` has made its process. -/
structure Joined (pid : Int) (hsize : Nat) (s final : St) : Prop where
  alive : (final.ker.proctab pid).prstate = .susp
  heap : (final.ker.proctab pid).vh = true
  size : (final.ker.proctab pid).hsize = hsize
  others : ∀ q, q ≠ pid → final.ker.proctab q = s.ker.proctab q

theorem joined_share {hsize : Nat} (joined : Joined pid hsize s final) :
    share final.ker = fun q j => if q = pid then heapShare hsize j else share s.ker q j := by
  funext q j
  by_cases here : q = pid
  · subst here
    rw [if_pos rfl, share, joined.heap, joined.size, joined.alive]
    rfl
  · rw [if_neg here]
    exact share_of_proc (joined.others q here)

/-- The process table after `kill` has taken a process down. -/
structure Left (pid : Int) (s final : St) : Prop where
  dead : (final.ker.proctab pid).prstate = .free
  others : ∀ q, q ≠ pid → final.ker.proctab q = s.ker.proctab q

theorem left_share (left : Left pid s final) :
    share final.ker = fun q j => if q = pid then 0 else share s.ker q j := by
  funext q j
  by_cases here : q = pid
  · subst here
    rw [if_pos rfl]
    exact share_free left.dead
  · rw [if_neg here]
    exact share_of_proc (left.others q here)

/-- A process that has gone leaves its stores to the others. -/
theorem left_frees (kept : StoresKept s) (finalKept : StoresKept final) (left : Left pid s final) :
    s.ker.freeBsCount ≤ final.ker.freeBsCount := by
  rw [kept.counted, finalKept.counted]
  apply count_le
  intro store bound isFree
  by_contra taken
  obtain ⟨q, j, some, place⟩ :=
    finalKept.owned store bound (Bool.eq_false_of_not_eq_true taken)
  rw [left_share left] at some
  by_cases here : q = pid
  · simp [here] at some
  · simp only [if_neg here] at some
    rw [left.others q here] at place
    have entry := (share_store kept some place).2
    rw [unallocated, entry] at isFree
    cases isFree

end Membership

/-- What the account of the stores knows about a process. -/
def heapView (proc : Procent) : Bool × Bool × Nat × (Nat → Int) :=
  (decide (proc.prstate = .free), proc.vh, proc.hsize, proc.pbsd)

/-- Processes that only change their scheduling states keep their stores. -/
theorem kept_of_views (kept : StoresKept s)
    (views : ∀ q, heapView (final.ker.proctab q) = heapView (s.ker.proctab q))
    (table : final.ker.bstab = s.ker.bstab) (free : final.ker.freeBsCount = s.ker.freeBsCount)
    (server : final.ker.pageServerActive = s.ker.pageServerActive) : StoresKept final := by
  refine kept_of_shares kept ?_ ?_ table free server
  · intro q i
    have same := views q
    simp only [heapView, Prod.mk.injEq, decide_eq_decide] at same
    unfold share
    simp only [ne_eq, same]
  · intro q
    exact congrArg (fun view => view.2.2.2) (views q)

theorem view_rescheduled {state : PrState}
    (same : after.proctab pid = { ker.proctab pid with prstate := state })
    (alive : Reschedules (ker.proctab pid).prstate state) :
    heapView (after.proctab pid) = heapView (ker.proctab pid) := by
  simp only [heapView, same, alive.1]

variable [Config]

section Steps

/-- A `vcreate` call that passes its admission test in `s` has made its page directory and
goes on to `bs_init` in `mapped`. -/
def Admitted (s : St) (pid : Int) (hsize : Nat) (mapped : St) : Prop :=
  IsFree s pid ∧ ¬s.ker.freeBsCount < bsReq hsize ∧ ∃ memlist nextpid,
    initPd pid { s with ker := entered s.ker memlist s.ker.createNextpid nextpid } =
      .ok ok mapped

theorem admitted_stores {hsize : Nat} {mapped : St} (kept : StoresKept s)
    (admitted : Admitted s pid hsize mapped) :
    Stores mapped.ker (share s.ker) ∧ (∀ j, share s.ker pid j = 0) ∧
      bsReq hsize ≤ mapped.ker.freeBsCount := by
  obtain ⟨⟨_, _, isFree⟩, enough, memlist, nextpid, directory⟩ := admitted
  obtain ⟨failed, _⟩ | ⟨_, pd, ker⟩ := init_pd_ker directory
  · cases failed
  rw [ker]
  refine ⟨stores_congr kept ?_ (fun _ _ => rfl) rfl rfl, fun j => share_free isFree,
    Nat.le_of_not_lt enough⟩
  intro q j _
  by_cases here : q = pid
  · subst here
    simp [Ker.setProc, entered, reserved]
  · simp [Ker.setProc, entered, reserved, Function.update_of_ne here]

omit [Config] in
/-- The end of `vcreate`: the stores of the process are found and its entry is filled. -/
theorem entered_kept {hsize saddr ssize : Nat} {mapped stored : St}
    (mappedStores : Stores mapped.ker (share s.ker)) (none : ∀ j, share s.ker pid j = 0)
    (enough : bsReq hsize ≤ mapped.ker.freeBsCount)
    (others : ∀ q, q ≠ pid → mapped.ker.proctab q = s.ker.proctab q)
    (stores : bsInit pid hsize mapped = .ok ok stored)
    (same : final = { stored with ker := vcreatedKer stored.ker pid saddr ssize hsize }) :
    StoresKept final ∧ Joined pid hsize s final ∧
      final.ker.freeBsCount + bsReq hsize = mapped.ker.freeBsCount ∧
      final.ker.prcount = mapped.ker.prcount ∧ final.ker.currpid = mapped.ker.currpid := by
  obtain ⟨storedStores, ⟨pbsd, semtab, bstab, free, active, rfl⟩, counted⟩ :=
    bs_init_ok mappedStores none enough stores
  have joined : Joined pid hsize s final := by
    rw [same]
    refine ⟨?_, ?_, ?_, ?_⟩
    · simp [vcreatedKer, Ker.setProc]
    · simp [vcreatedKer, Ker.setProc]
    · simp [vcreatedKer, Ker.setProc]
    · intro q other
      simp [vcreatedKer, Ker.setProc, Function.update_of_ne other, others q other]
  refine ⟨?_, joined, ?_, ?_, ?_⟩
  · rw [StoresKept, joined_share joined, same]
    refine stores_congr storedStores ?_ (fun _ _ => rfl) rfl rfl
    intro q j _
    by_cases here : q = pid
    · subst here
      simp [vcreatedKer, Ker.setProc]
    · simp [vcreatedKer, Ker.setProc, Function.update_of_ne here]
  · rw [same]
    exact counted
  · rw [same]
    rfl
  · rw [same]
    rfl

theorem vcreated_kept {hsize : Nat} (kept : StoresKept s) (made : Vcreated pid hsize s final) :
    StoresKept final ∧ Joined pid hsize s final ∧ final.ker.prcount = s.ker.prcount + 1 ∧
      final.ker.currpid = s.ker.currpid := by
  obtain ⟨memlist, nextpid, saddr, ssize, mapped, stored, directory, stores, same⟩ := made.stages
  obtain ⟨mappedStores, none, enough⟩ := admitted_stores kept
    ⟨made.slot, Nat.not_lt_of_le made.enough, memlist, nextpid, directory⟩
  obtain ⟨failed, _⟩ | ⟨_, pd, ker⟩ := init_pd_ker directory
  · cases failed
  have others : ∀ q, q ≠ pid → mapped.ker.proctab q = s.ker.proctab q := by
    intro q other
    rw [ker]
    exact Function.update_of_ne other ..
  obtain ⟨finalKept, joined, _, prcount, currpid⟩ :=
    entered_kept mappedStores none enough others stores same
  rw [ker] at prcount currpid
  exact ⟨finalKept, joined, prcount, currpid⟩

/-- What is left to do when a process that was taken down has given its frames and its
stores back. -/
theorem taken_down_stages (kept : StoresKept s) (alive : (s.ker.proctab pid).prstate ≠ .free)
    (down : TakenDown pid s final) :
    ∃ memlist freed semtab bstab free,
      freeProcFrames pid { s with ker := { s.ker with memlist := memlist } } = .ok () freed ∧
      semtab .pfSem = s.ker.semtab .pfSem ∧
      Stores { freed.ker with semtab := semtab, bstab := bstab, freeBsCount := free }
        (fun q j => if q = pid then 0 else share s.ker q j) ∧
      final = { freed with ker := retire { freed.ker with
        semtab := semtab
        bstab := bstab
        freeBsCount := free } pid } := by
  obtain ⟨memlist, freed, stored, frames, stores, rfl⟩ := down
  have ker : freed.ker = { s.ker with memlist := memlist } := free_proc_frames_ker _ _ _ _ frames
  have freedStores : Stores freed.ker (share s.ker) := by
    rw [ker]
    exact stores_congr kept (fun _ _ _ => rfl) (fun _ _ => rfl) rfl rfl
  have shares : ∀ j, share s.ker pid j = if (freed.ker.proctab pid).vh = true
      then heapShare (freed.ker.proctab pid).hsize j else 0 := by
    intro j
    rw [ker, share]
    simp only [ne_eq, alive, not_false_eq_true, true_and]
  have lock : stored.ker.semtab .pfSem = s.ker.semtab .pfSem := by
    have same : stored.ker.semtab .pfSem = freed.ker.semtab .pfSem :=
      congrArg Prod.snd (keeps_ok (keeps_lock (keeps_free_proc_bs pid)) stores)
    rw [same, ker]
  obtain ⟨storedStores, semtab, bstab, free, rfl⟩ := free_proc_bs_ok freedStores shares stores
  exact ⟨memlist, freed, semtab, bstab, free, frames, lock, storedStores, rfl⟩

/-- Taking a process down changes its own entry of the process table only, and nothing
about the processes that wait for `pf_sem` before `retire` does. -/
theorem taken_down_kept (kept : StoresKept s) (alive : (s.ker.proctab pid).prstate ≠ .free)
    (down : TakenDown pid s final) :
    StoresKept final ∧ Left pid s final ∧ ∃ ker : Ker, ker.proctab = s.ker.proctab ∧
      ker.semtab .pfSem = s.ker.semtab .pfSem ∧ ker.prcount = s.ker.prcount ∧
      ker.currpid = s.ker.currpid ∧ final.ker = retire ker pid := by
  obtain ⟨memlist, freed, semtab, bstab, free, frames, lock, stores, rfl⟩ :=
    taken_down_stages kept alive down
  have ker : freed.ker = { s.ker with memlist := memlist } := free_proc_frames_ker _ _ _ _ frames
  have left : Left pid s { freed with
      ker := retire { freed.ker with
        semtab := semtab
        bstab := bstab
        freeBsCount := free } pid } := by
    refine ⟨?_, ?_⟩
    · dsimp only
      rw [retire_proc, if_pos rfl]
    · intro q other
      dsimp only
      rw [retire_proc, if_neg other, ker]
  refine ⟨?_, left, _, ?_, lock, ?_, ?_, rfl⟩
  · rw [StoresKept, left_share left, retire_ker]
    refine stores_congr stores ?_ (fun _ _ => rfl) rfl rfl
    intro q j some
    have other : q ≠ pid := by
      rintro rfl
      simp at some
    dsimp only
    rw [retire_proc, if_neg other]
  · rw [ker]
  · rw [ker]
  · rw [ker]

theorem killed_kept (kept : StoresKept s) (down : Killed pid s final) :
    StoresKept final ∧ Left pid s final := by
  have counted : StoresKept { s with ker := { s.ker with prcount := s.ker.prcount - 1 } } :=
    kept_of_ker kept rfl rfl rfl rfl
  obtain ⟨finalKept, left, _⟩ :=
    taken_down_kept counted (not_bad down.valid).2.2 (killed_down down)
  exact ⟨finalKept, left.dead, left.others⟩

/-- Only the entry of a slot that was free has changed, and its process has no heap. -/
theorem created_kept {memlist : MemList} {nextpid : Int} {saddr size : Nat} (kept : StoresKept s)
    (slot : IsFree s pid) :
    StoresKept { s with
      ker := createdKer (entered s.ker memlist nextpid s.ker.vcreateNextpid) pid saddr size } := by
  obtain ⟨_, _, isFree⟩ := slot
  refine kept_of_shares kept ?_ ?_ rfl rfl rfl
  · intro q i
    by_cases here : q = pid
    · subst here
      rw [share_free isFree]
      simp [share, createdKer, Ker.setProc]
    · exact share_of_proc (by
        simp [createdKer, Ker.setProc, entered, reserved, Function.update_of_ne here])
  · intro q
    by_cases here : q = pid
    · subst here
      simp [createdKer, Ker.setProc, entered, reserved]
    · simp [createdKer, Ker.setProc, entered, reserved, Function.update_of_ne here]

theorem did_kept {event : Event} {reply : Reply} (kept : StoresKept s)
    (did : Did s event reply final) : StoresKept final := by
  have sameKer : ∀ {t : St}, t.ker = s.ker → StoresKept t := by
    intro t same
    rw [StoresKept, same]
    exact kept
  cases did with
  | switched pid target =>
      apply kept_of_views kept
      · intro q
        obtain ⟨state, same, alive⟩ := switched_proc target.2.2 q
        exact view_rescheduled same alive
      all_goals
        dsimp only
        rw [switched_ker]
  | resumed pid suspended =>
      refine kept_of_views kept ?_ rfl rfl rfl
      intro q
      obtain ⟨state, same, alive⟩ := resumed_proc suspended q
      exact view_rescheduled same alive
  | refused _ _ memlist createNext vcreateNext hand => exact kept_of_ker kept rfl rfl rfl rfl
  | created ssize priority pid slot memlist nextpid saddr size => exact created_kept kept slot
  | vcreated ssize hsize priority pid final made => exact (vcreated_kept kept made).1
  | killed pid final down => exact (killed_kept kept down).1
  | served a final faults valid free ran => exact kept_of_ker kept rfl rfl rfl rfl
  | removed a final faults invalid down =>
      have countedKept : StoresKept (counted s) := kept_of_ker kept rfl rfl rfl rfl
      exact (killed_kept countedKept down).1
  | spared a faults => exact kept_of_ker kept rfl rfl rfl rfl
  | loaded a value final ran => exact sameKer (load_ker _ _ _ _ ran)
  | stored a value final ran => exact sameKer (store_ker _ _ _ _ _ ran)
  | policy policy status final ran =>
      rw [srpolicy_returned ran]
      exact kept_of_ker kept rfl rfl rfl rfl

end Steps

section Runs

/-- The machine has started and no backing store is in use. -/
def Started (policy : Int) (s : St) : Prop := Booted policy s ∧ StoresOff s

theorem started_kept {policy : Int} (started : Started policy s) : StoresKept s := by
  obtain ⟨⟨before, on, status, ran⟩, off⟩ := started
  obtain ⟨_, paged, initRan, ran⟩ := bind_ok_inv ran
  obtain ⟨gpt, dpt, gpd, pd, ker⟩ := initialize_paging_ker initRan
  rw [srpolicy_returned ran] at off ⊢
  have none : ∀ q j, share paged.ker q j = 0 := by
    intro q j
    apply share_dead (s := paged)
    rintro ⟨_, heap⟩
    rw [ker] at heap
    by_cases here : q = nullproc
    · subst here
      simp [Ker.setProc, Ker.setSem, (on.noHeap _).1] at heap
    · simp [Ker.setProc, Ker.setSem, Function.update_of_ne here, (on.noHeap q).1] at heap
  have unused : ∀ store < maxBsEntries, unallocated paged.ker store = true := by
    intro store bound
    rw [unallocated, (off store bound).1]
    rfl
  have shares : share paged.ker = fun _ _ => 0 := by
    funext q j
    exact none q j
  have free : paged.ker.freeBsCount = maxBsEntries := by rw [ker]
  have pagedKept : StoresKept paged := by
    rw [StoresKept, shares]
    refine ⟨?_, ?_, ?_, ?_, ?_, ?_⟩
    · intro q j some
      exact absurd some (Nat.lt_irrefl 0)
    · intro p q i j some
      exact absurd some (Nat.lt_irrefl 0)
    · intro store bound taken
      rw [unused store bound] at taken
      cases taken
    · intro store bound _
      exact (off store bound).2
    · rw [free, count_all unused]
    · intro _ store bound
      exact unused store bound
  exact kept_of_ker pagedKept rfl rfl rfl rfl

/-- The account is right in every state of a run. -/
theorem run_kept {policy : Int} {allowed : St → Event → Prop}
    (run : Run (Started policy) allowed s) : StoresKept s := by
  induction run with
  | start started => exact started_kept started
  | step _ _ ran induction => exact did_kept induction (exec_did ran)

/-- The boot sequence leaves the store table as it was. -/
theorem started_of_boot {policy status : Int} {before : St} (on : PowerOn before)
    (off : StoresOff before) (ran : (do initializePaging; srpolicy policy) before = .ok status s) :
    Started policy s := by
  refine ⟨⟨before, on, status, ran⟩, ?_⟩
  obtain ⟨_, paged, initRan, ran⟩ := bind_ok_inv ran
  obtain ⟨gpt, dpt, gpd, pd, ker⟩ := initialize_paging_ker initRan
  rw [srpolicy_returned ran, ker]
  exact off

theorem start_and_run {policy : Int} {allowed : St → Event → Prop}
    [∀ s event, Decidable (allowed s event)] {events : List Event} {before : St}
    (on : PowerOn before) (off : StoresOff before)
    (ran : bootAndRun policy allowed events before = .ok () final) :
    Run (Started policy) allowed final := by
  obtain ⟨_, paged, initRan, ran⟩ := bind_ok_inv ran
  obtain ⟨status, booted, policyRan, ran⟩ := bind_ok_inv ran
  exact run_events (.start (started_of_boot on off ((bind_ok initRan _).trans policyRan))) ran

theorem started_before_events {policy : Int} {allowed : St → Event → Prop}
    [∀ s event, Decidable (allowed s event)] {before : St} (on : PowerOn before)
    (off : StoresOff before) (ran : bootAndRun policy allowed [] before = .ok () s) :
    Started policy s := by
  obtain ⟨_, paged, initRan, ran⟩ := bind_ok_inv ran
  obtain ⟨status, booted, policyRan, ran⟩ := bind_ok_inv ran
  cases ran
  exact started_of_boot on off ((bind_ok initRan _).trans policyRan)

omit [Config] in
theorem stores_off_blank : StoresOff blankMachine := fun _ _ => ⟨rfl, rfl⟩

end Runs

section Results

/-- The number of stores of a heap, rounded up. -/
def storesOf (hsize : Nat) : Nat := (hsize + maxPagesPerBs - 1) / maxPagesPerBs

/-- `store` is the `i`th store of a live process with a heap. -/
def Owns (s : St) (pid : Int) (i store : Nat) : Prop :=
  HeapLive s pid ∧ i < storesOf (s.ker.proctab pid).hsize ∧
    (s.ker.proctab pid).pbsd i = (store : Int)

/-- No `allocate_bs` of `bs_init` returns `SYSERR`: not the one of the turn after any number
of turns of its loop. -/
def AllStoresFound (pid : Int) (hsize : Nat) (mapped : St) : Prop :=
  ∀ turns u next status,
    (do
      modifyKer fun ker => ker.setProc pid fun proc =>
        { proc with pbsd := fun i => if i < maxBsEntries then 0 else proc.pbsd i }
      bsInitFrom pid turns (toInt32 hsize) 0 : Call Unit) mapped = .ok () u →
    0 < toInt32 hsize - maxPagesPerBs * turns →
    allocateBs (min (toInt32 hsize - maxPagesPerBs * turns) maxPagesPerBs).toNat u =
      .ok status next → status ≠ sysErr

structure Conserved (s : St) : Prop where
  counted : s.ker.freeBsCount = count maxBsEntries (unallocated s.ker)
  owns : ∀ pid, HeapLive s pid → ∀ i < storesOf (s.ker.proctab pid).hsize,
    ∃ store < maxBsEntries, Owns s pid i store ∧
      (s.ker.bstab store).isallocated = true ∧ (s.ker.bstab store).isopen = true
  alone : ∀ pid other i j store, Owns s pid i store → Owns s other j store →
    pid = other ∧ i = j
  owned : ∀ store < maxBsEntries, (s.ker.bstab store).isallocated = true →
    ∃ pid i, Owns s pid i store
  admitted : ∀ pid hsize mapped, Admitted s pid hsize mapped → AllStoresFound pid hsize mapped

theorem admitted_found {hsize : Nat} {mapped : St} (kept : StoresKept s)
    (admitted : Admitted s pid hsize mapped) : AllStoresFound pid hsize mapped := by
  obtain ⟨stores, none, enough⟩ := admitted_stores kept admitted
  intro turns u next status ran more allocated
  obtain ⟨room, size⟩ := admitted_size stores enough
  obtain ⟨_, cleared, clearRan, ran⟩ := bind_ok_inv ran
  cases clearRan
  have clearedStores := clear_map_stores stores none
  have free : turns < mapped.ker.freeBsCount := by
    rw [size, maxPagesPerBs] at more
    rw [maxPagesPerBs] at room
    omega
  obtain ⟨pages, found, left⟩ :=
    bs_init_turns (s := { mapped with ker := _ }) clearedStores (fun j _ => none j) more free ran
  obtain ⟨_, store, _, _, _, _, _, _, _, _, returned, _⟩ :=
    allocate_bs_ok found (by change _ = mapped.ker.freeBsCount at left; omega)
      (by rw [maxPagesPerBs] at more ⊢; omega) (by rw [maxPagesPerBs]; omega) allocated
  rw [returned, sysErr]
  omega

theorem kept_conserved (kept : StoresKept s) : Conserved s := by
  have owns : ∀ {pid i store}, Owns s pid i store →
      0 < share s.ker pid i ∧ (s.ker.proctab pid).pbsd i = (store : Int) :=
    fun own => ⟨share_positive.mpr ⟨own.1, own.2.1⟩, own.2.2⟩
  refine ⟨kept.counted, ?_, ?_, ?_, ?_⟩
  · intro pid live i inside
    obtain ⟨store, bound, place, entry⟩ := kept.held pid i (share_positive.mpr ⟨live, inside⟩)
    refine ⟨store, bound, ⟨live, inside, place⟩, ?_⟩
    rw [entry]
    exact ⟨rfl, rfl⟩
  · intro pid other i j store left right
    obtain ⟨some, place⟩ := owns left
    obtain ⟨otherSome, otherPlace⟩ := owns right
    exact kept.distinct pid other i j some otherSome (place.trans otherPlace.symm)
  · intro store bound allocated
    obtain ⟨pid, i, some, place⟩ := kept.owned store bound (by rw [unallocated, allocated]; rfl)
    obtain ⟨live, inside⟩ := share_positive.mp some
    exact ⟨pid, i, live, inside, place⟩
  · intro pid hsize mapped admitted
    exact admitted_found kept admitted

/-- Backing stores are conserved, whatever the processes do. -/
theorem backing_stores_conserved {policy : Int} (run : Run (Started policy) (fun _ _ => True) s) :
    Conserved s := kept_conserved (run_kept run)

end Results

section Example

omit [Config] in
theorem nine_enough : 6 ≤ 9 := by decide

omit [Config] in
theorem nine_fit : 9 ≤ 3072 := by decide

abbrev nine : Config := smallConfig 9 nine_enough nine_fit

def bootedState : St := finalState (@bootAndRun twelve fifo Fixed _ [] blankMachine)

omit [Config] in
theorem booted_started : @Started twelve fifo bootedState :=
  @started_before_events _ twelve _ _ _ _ power_on_blank stores_off_blank
    (returned_unit (by decide +kernel))

/-- Two processes with heaps of two stores, the second one in the stores of a first that
was killed. -/
def twoHeaps : St := finalState (@bootAndRun nine fifo (fun _ _ => True) _
  [.vcreate 1024 201 20, .vcreate 1024 400 20, .kill 1, .vcreate 1024 399 20] blankMachine)

omit [Config] in
theorem two_heaps_run : @Run nine (@Started nine fifo) (fun _ _ => True) twoHeaps :=
  @start_and_run _ nine _ _ _ _ _ power_on_blank stores_off_blank (returned_unit (by decide +kernel))

omit [Config] in
theorem two_heaps_conserved : twoHeaps.ker.freeBsCount = 4 ∧ @Conserved nine twoHeaps :=
  ⟨by decide +kernel, @backing_stores_conserved _ nine _ two_heaps_run⟩

end Example

end Xinu.Swap.Conservation
