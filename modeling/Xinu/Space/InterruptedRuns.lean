import Xinu.Space.Interrupted

/-!
# Runs with kills in the middle of an allocation

What each phase of a page fault and of a `vcreate` leaves behind, and from it what every run keeps
in which others kill processes while the holder of `pf_sem` waits for the disk.
-/

namespace Xinu.Space.InterruptedRuns

open Xinu.Kernel.State Xinu.Kernel.Entry Xinu.Kernel.Semaphore Xinu.Kernel.Memory
open Xinu.Lib.StateError Xinu.Paging.Address Xinu.Paging.BackingStore Xinu.Paging.Cpu
open Xinu.Paging.Ipt
open Xinu.Paging.Handler Xinu.Paging.Process Xinu.Paging.System
open Xinu.Processes.Undo Xinu.Processes.Steps Xinu.Processes.KernelVariables
open Xinu.Replacement.SystemCalls
open Xinu.Replacement.Fifo Xinu.Replacement.FifoRuns Xinu.Replacement.FifoResults
open Xinu.Replacement.Exhaustion Xinu.Swap.Ledger Xinu.Swap.Conservation Xinu.Swap.Places
open Xinu.Swap.Allocation
open Xinu.Space.Agreement Xinu.Space.Unmap Xinu.Space.Link Xinu.Space.Transfers Xinu.Space.Evict
open Xinu.Space.Choice Xinu.Space.Allocate Xinu.Space.Fault Xinu.Space.Service
open Xinu.Space.Ownership Xinu.Space.Members Xinu.Space.Runs Xinu.Space.PolicyChanges
open Xinu.Space.TableAccess
open Xinu.Space.Interrupted

set_option autoImplicit false

variable [Config]

variable {s t final : St} {off limbo fr table : Nat} {fresh : List Nat} {pid q : Int} {a : Nat}

section Grants

theorem page_granted {pt : Nat} (given : Given t (.page pid a pt) fr fresh) :
    Ends (grantPage pid a pt (frameNum2ptr fr) t) Holds fun stop _ => NotIndex stop := by
  obtain ⟨bound, frame, tables, policy, queue, stores, owned, rooted, lock, _, wanted⟩ := given
  rw [Goal.type, if_pos rfl] at tables owned
  cases wanted with
  | @page _ _ table waits =>
      simp only [core, newFrame, Goal.type, Goal.pid, Goal.vpn, Prod.mk.injEq] at frame
      let numbered : St := { t with trace := .faddr2frameNum (frameNum2ptr fr) :: t.trace }
      have busy : Busy numbered empty fr [table] :=
        busy_alike ⟨tables, policy, queue, stores, owned, rooted, lock⟩
          ⟨fun _ => rfl, fun _ => rfl, fun _ _ _ _ => ⟨rfl, rfl⟩⟩ rfl rfl ⟨rfl, rfl⟩
      obtain ⟨live, low, high⟩ := waits.heapPage
      have heap := tables.heaps pid live
      have small := waits.small
      have limit : vaddr2vpn a < 1048576 := by
        rw [page_number]
        omega
      unfold grantPage
      rw [bind_ok (faddr_to_frame_num_ok _ _), bind_ok (get_bs_info_ok rfl low limit)]
      exact Or.inr ⟨fr, table, rfl, rfl, busy, ⟨bound, frame.1, frame.2.1, frame.2.2.1⟩,
        waits_congr waits rfl rfl⟩

theorem page_short {pt : Nat} (doomed : Doomed s empty) :
    Ends (grantPage pid a pt sysErrPtr s) Holds fun stop _ => NotIndex stop := by
  unfold grantPage
  rw [bind_ok (faddr_to_frame_num_ok _ _)]
  have info : ∀ x : St, Ends (getBsInfo pid a x) (fun _ final => final = x)
      fun stop _ => NotIndex stop := by
    intro x
    unfold getBsInfo
    rw [get_bind]
    split
    · exact fun _ => by simp
    · rfl
  refine ends_bind (info _) ?_
  rintro place _ _ rfl
  exact Or.inl ⟨rfl, doomed.policy, without_of_ker doomed.queue rfl ⟨rfl, rfl⟩ rfl⟩

/-- A new table is entered into the directory, and the page gets its frame. -/
theorem table_granted {pd : Nat} (given : Given t (.table pid a pd) fr fresh) :
    Ends (grantTable pid a pd (frameNum2ptr fr) t) Holds fun stop _ => NotIndex stop := by
  obtain ⟨bound, frame, tables, policy, queue, stores, owned, rooted, lock, unreferenced, wanted⟩ :=
    given
  rw [Goal.type, if_neg (by decide)] at tables owned
  cases wanted with
  | table heapPage small directory absent =>
      simp only [core, newFrame, Goal.type, Goal.pid, Goal.vpn, Prod.mk.injEq] at frame
      obtain ⟨d, dirBound, isDir, _⟩ := tables.dirs pid heapPage.1.1
      have own := private_of_heap tables heapPage.1 heapPage.2.1 heapPage.2.2
      have index : vaddr2pdi a = vaddr2vpn a / 1024 := by
        rw [page_directory_index a small, page_number]
        omega
      have toDir : pd = frameNum2ptr d := directory.symm.trans isDir
      let words : Nat → Word := fun i => blankPTE (t.mem (frame0 + fr) i)
      let blanked : St := { t.setPage (frame0 + fr) words with
        trace := .hookPtableCreate (fr + frame0) :: .faddr2frameNum (frameNum2ptr fr) :: t.trace }
      obtain ⟨entry, trace, ran, present, address, _⟩ :=
        set_pde_ok (s := blanked) (vaddr2vpn a / 1024) dirBound bound
      obtain ⟨_, addressed, addressRan, ran⟩ := bind_ok_inv ran
      obtain ⟨_, linked, linkRan, ran⟩ := bind_ok_inv ran
      cases ran
      let linked : St := { blanked.setWord (frame0 + d) (vaddr2vpn a / 1024) entry with
        trace := trace }
      have same : linked = { linkTable t d (vaddr2vpn a / 1024) fr words entry with
        trace := linked.trace } := rfl
      have isTable : IsTable t fr pid := ⟨bound, frame.1, frame.2.1⟩
      have blank : ∀ i, pres (words i) = false := fun i => pres_blank _
      have linkedTables : Tables linked empty [fr] := by
        rw [same]
        exact tables_trace (link_table_tables words entry tables heapPage.1 own absent isTable
          frame.2.2.2 unreferenced dirBound isDir blank address) _
      obtain ⟨linkedOwned, stays⟩ := linked_owned tables owned heapPage.1 own absent isTable
        unreferenced dirBound isDir present address same
      have linkedRooted : Rooted linked := rooted_stays rooted tables stays rooted.null
        fun p after before => absurd after before
      have notDir : fr ≠ d := by
        rintro rfl
        exact unreferenced.noDir pid heapPage.1.1 isDir
      have newEntry : pdeOf linked pid (vaddr2vpn a / 1024) = entry := by
        have after : (linked.ker.proctab pid).pd = frameNum2ptr d := isDir
        rw [pde_word dirBound after]
        exact if_pos ⟨rfl, rfl⟩
      have waits : Waits linked pid a fr := by
        refine ⟨heapPage, small, ?_, ?_, ?_⟩
        · rw [newEntry]
          exact present
        · rw [newEntry]
          exact address
        · have notEntry :
              ¬(frame0 + fr = frame0 + d ∧ vaddr2vpn a % 1024 = vaddr2vpn a / 1024) := by
            omega
          rw [pteOf, newEntry, address]
          change pres (if frame0 + fr = frame0 + d ∧ _ then _ else
            if frame0 + fr = frame0 + fr then _ else _) = false
          rw [if_neg notEntry, if_pos rfl]
          exact blank _
      have busy : Busy linked empty empty [fr] := ⟨linkedTables, policy,
        without_of_ker queue rfl ⟨rfl, rfl⟩ rfl, kept_of_ker stores rfl rfl rfl rfl, linkedOwned,
        linkedRooted, lock⟩
      unfold grantTable
      rw [if_pos (frame_ptr_ne_syserr fr bound), frame_ptr_page fr bound, modify_bind,
        bind_ok (faddr_to_frame_num_ok _ _), frame_num_of_ptr fr bound, index, toDir, log,
        modify_bind]
      change Ends ((setPDEAddr (frameNum2ptr d) (vaddr2vpn a / 1024) (frameNum2ptr fr) >>= _)
        blanked) _ _
      rw [bind_ok addressRan, bind_ok linkRan]
      refine allocate_ends busy (.page waits) ?_ page_granted
        fun busy _ => page_short (doomed_of_busy busy)
      -- the new table has no page yet
      rintro p b pt same ⟨x, vpn, table, _, _, _, _, tableAddress, last⟩
      cases same
      rw [newEntry, address] at tableAddress
      have isNew : table = fr := by omega
      rw [isNew] at last
      have zero : (linked.ipt fr).refCount = 0 := frame.2.2.2
      exact absurd (zero.symm.trans last) (by decide)

theorem table_short {pd : Nat} (doomed : Doomed s empty) (exhausted : Exhausted s) :
    Ends (grantTable pid a pd sysErrPtr s) Holds fun stop _ => NotIndex stop := by
  unfold grantTable
  rw [if_neg (by simp)]
  have linked : ∃ final, (do
      setPDEAddr pd (vaddr2pdi a) sysErrPtr
      setEntry pd (vaddr2pdi a) fun entry => setPres entry true : Call Unit) s = .ok () final ∧
      final.ipt = s.ipt ∧ final.ker = s.ker ∧ final.flistHead = s.flistHead ∧
      final.flistTail = s.flistTail := ⟨_, rfl, rfl, rfl, rfl, rfl⟩
  obtain ⟨final, ran, ipt, ker, head, tail⟩ := linked
  obtain ⟨_, addressed, addressRan, ran⟩ := bind_ok_inv ran
  have finalDoomed : Doomed final empty := ⟨by rw [ker]; exact doomed.policy,
    without_of_ker doomed.queue ipt ⟨head, tail⟩ (by rw [ker])⟩
  have finalExhausted : Exhausted final := by
    rw [Exhausted, ipt]
    exact exhausted
  obtain ⟨hand, shortRan⟩ := allocate_short (.page pid a sysErrPtr)
    (grantPage pid a sysErrPtr) finalDoomed finalExhausted
  change Ends ((setPDEAddr pd (vaddr2pdi a) sysErrPtr >>= _) s) _ _
  rw [bind_ok addressRan, bind_ok ran, shortRan]
  exact page_short ⟨finalDoomed.policy, without_of_ker finalDoomed.queue rfl ⟨rfl, rfl⟩ rfl⟩

end Grants

section Directories

theorem sound_of_busy (busy : Busy s empty empty []) : Sound s :=
  ⟨busy.tables, busy.queue, busy.stores, busy.owned, busy.rooted⟩

theorem busy_of_sound (sound : Sound s) (policy : s.ker.currpolicy = .fifo) (lock : 0 ≤ pfCount s) :
    Busy s empty empty [] :=
  ⟨sound.tables, policy, sound.queue, sound.stores, sound.owned, sound.rooted, lock⟩

omit [Config] in
/-- `pf_sem` is given back. -/
theorem signal_given (lock : 0 ≤ pfCount s) :
    ∃ semtab, signal .pfSem s = .ok () { s with ker := { s.ker with semtab := semtab } } ∧
      (semtab .pfSem).scount = pfCount s + 1 := by
  refine ⟨_, signal_nobody lock, ?_⟩
  simp [pfCount]

theorem given_semtab {goal : Goal} (given : Given t goal fr fresh) {semtab : Sem → Sentry}
    (count : (semtab .pfSem).scount = pfCount t + 1) :
    Given { t with ker := { t.ker with semtab := semtab } } goal fr fresh := by
  let after : St := { t with ker := { t.ker with semtab := semtab } }
  have alike : Alike t after := ⟨fun _ => rfl, fun _ => rfl, fun _ _ _ _ => ⟨rfl, rfl⟩⟩
  have lock : 0 ≤ pfCount after := by
    have before := given.lock
    change 0 ≤ (semtab .pfSem).scount
    omega
  refine ⟨given.bound, given.frame, tables_congr given.tables alike, given.policy,
    without_of_ker given.queue rfl ⟨rfl, rfl⟩ rfl, kept_of_ker given.stores rfl rfl rfl rfl,
    owned_of_alike given.tables alike given.owned, ?_, lock,
    ⟨given.unreferenced.noDir, given.unreferenced.noTable⟩, ?_⟩
  · exact rooted_stays given.rooted given.tables (stays_of_alike given.tables alike ⟨rfl, rfl, rfl⟩)
      given.rooted.null fun p afterwards before => absurd afterwards before
  · cases given.wanted with
    | table heapPage small directory absent => exact .table heapPage small directory absent
    | page waits =>
        exact .page ⟨waits.heapPage, waits.small, waits.present, waits.address, waits.absent⟩
    | dir slot enough => exact .dir slot enough

/-- A process comes into the process table with its new directory. -/
theorem dir_granted {creator : Int} {saddr ssize hsize : Nat}
    (given : Given s (.dir creator pid saddr ssize hsize) fr fresh) :
    Ends (grantDir pid saddr ssize hsize (frameNum2ptr fr) s) Holds
      fun stop _ => NotIndex stop := by
  obtain ⟨semtab, signalRan, count⟩ := signal_given given.lock
  let t : St := { s with ker := { s.ker with semtab := semtab } }
  have before := given.lock
  have tGiven : Given t (.dir creator pid saddr ssize hsize) fr fresh := given_semtab given count
  have tCount : 1 ≤ pfCount t := by
    change 1 ≤ (semtab .pfSem).scount
    omega
  obtain ⟨bound, frame, tables, policy, queue, stores, owned, rooted, _, unreferenced, wanted⟩ :=
    tGiven
  rw [Goal.type, if_neg (by decide)] at tables owned
  cases wanted with
  | dir slot enough =>
      simp only [core, newFrame, Goal.type, Goal.pid, Goal.vpn, Prod.mk.injEq] at frame
      let mapped : St := { t with
        ker := t.ker.setProc pid fun proc => { proc with pd := frameNum2ptr fr }
        mem := fun p i => if p = frame0 + fr then initialPDE t.ker i else t.mem p i }
      unfold grantDir
      rw [bind_ok signalRan, if_neg (frame_ptr_ne_syserr fr bound), frame_ptr_page fr bound,
        modifyKer, modify_bind, modify_bind]
      change Ends ((bsInit pid hsize >>= _) mapped) _ _
      refine ends_bind (bs_init_stops pid hsize mapped) ?_
      intro status stored storesRan _
      have returned := bs_init_status storesRan
      subst returned
      rw [if_neg (show ¬ok = sysErr by decide)]
      let final : St := { stored with ker := vcreatedKer stored.ker pid saddr ssize hsize }
      change Holds .idle final
      have mappedStores : Stores mapped.ker (share t.ker) := by
        refine stores_congr stores ?_ (fun _ _ => rfl) rfl rfl
        intro q j _
        by_cases here : q = pid
        · subst here
          simp [mapped, Ker.setProc]
        · simp [mapped, Ker.setProc, Function.update_of_ne here]
      have others : ∀ q, q ≠ pid → mapped.ker.proctab q = t.ker.proctab q :=
        fun q other => Function.update_of_ne other ..
      have filled : final =
        { stored with ker := vcreatedKer stored.ker pid saddr ssize hsize } := rfl
      obtain ⟨finalStores, joined, _⟩ := entered_kept mappedStores
        (fun j => share_free slot.2.2) enough others storesRan filled
      obtain ⟨_, ⟨pbsd, moved, bstab, free, active, same⟩, _⟩ :=
        bs_init_ok mappedStores (fun j => share_free slot.2.2) enough storesRan
      have quiet := keeps_ok (keeps_bs_init pid hsize) storesRan
      simp only [quietView, queueView, lockView, Prod.mk.injEq] at quiet
      obtain ⟨⟨ipt, head, tail, samePolicy⟩, _, lock⟩ := quiet
      have pd : (final.ker.proctab pid).pd = frameNum2ptr fr := by
        rw [filled, same]
        simp [vcreatedKer, Ker.setProc, mapped]
      have roots : final.ker.gpt = t.ker.gpt ∧ final.ker.dpt = t.ker.dpt ∧
          final.ker.gpd = t.ker.gpd := by
        rw [filled, same]
        exact ⟨rfl, rfl, rfl⟩
      have mem : ∀ p i, final.mem p i =
          if p = frame0 + fr then initialPDE t.ker i else t.mem p i := by
        intro p i
        rw [filled, same]
      have grown : Grown pid t final := directory_grown tables rooted unreferenced bound frame.1
        frame.2.1 slot (admitted_small stores enough) joined pd roots ipt mem
      obtain ⟨finalOwned, stays⟩ := grown_owned owned grown (Or.inr ⟨frame.1, frame.2.1, pd⟩)
      refine ⟨⟨grown_tables tables grown, without_of_ker queue ipt ⟨head, tail⟩ samePolicy,
        finalStores, finalOwned, grown_rooted tables rooted grown stays⟩,
        samePolicy.trans policy, ?_⟩
      change 1 ≤ (stored.ker.semtab .pfSem).scount
      rw [lock]
      exact tCount

/-- Without a frame `vcreate` fails. -/
theorem dir_short {saddr ssize hsize : Nat} (busy : Busy s empty empty []) :
    Ends (grantDir pid saddr ssize hsize sysErrPtr s) Holds fun stop _ => NotIndex stop := by
  obtain ⟨semtab, signalRan, count⟩ := signal_given busy.lock
  let t : St := { s with ker := { s.ker with semtab := semtab } }
  have before := busy.lock
  obtain ⟨status, memlist, freed⟩ := freestk_returned t saddr ssize
  unfold grantDir
  rw [bind_ok signalRan, if_pos rfl, bind_ok freed]
  obtain ⟨sound, _⟩ := sound_of_ker { t.ker with
      memlist := memlist, prcount := t.ker.prcount - 1 } s.fifoNextframe (sound_of_busy busy)
    (fun _ => rfl) ⟨rfl, rfl, rfl⟩ rfl (kept_of_ker busy.stores rfl rfl rfl rfl)
  refine ⟨sound, busy.policy, ?_⟩
  change 1 ≤ (semtab .pfSem).scount
  omega

theorem grant_ends {goal : Goal} (given : Given t goal fr fresh) :
    Ends (grant goal (frameNum2ptr fr) t) Holds fun stop _ => NotIndex stop := by
  cases goal with
  | table pid a pd => exact table_granted given
  | page pid a pt => exact page_granted given
  | dir creator pid saddr ssize hsize => exact dir_granted given

theorem grant_short {goal : Goal} (wanted : Wanted s goal fresh) (busy : Busy t empty empty fresh)
    (exhausted : Exhausted t) :
    Ends (grant goal sysErrPtr t) Holds fun stop _ => NotIndex stop := by
  cases wanted with
  | table => exact table_short (doomed_of_busy busy) exhausted
  | page => exact page_short (doomed_of_busy busy)
  | dir => exact dir_short busy

end Directories

section Transfers

theorem waits_alike (tables : Tables s limbo fresh) (alike : Alike s t) (ker : t.ker = s.ker)
    (waits : Waits s pid a table) : Waits t pid a table := by
  have live := waits.heapPage.1
  have own := private_of_heap tables live waits.heapPage.2.1 waits.heapPage.2.2
  have pde := alike_pde tables alike live.1 (vaddr2vpn a / 1024)
  have pte := alike_pte tables alike live own waits.present (vaddr2vpn a % 1024)
  refine ⟨?_, waits.small, pde.1.trans waits.present, pde.2.trans waits.address,
    pte.1.trans waits.absent⟩
  rw [HeapPage, HeapLive, Live, ker]
  exact waits.heapPage

theorem wanted_alike {goal : Goal} {held : List Nat} (tables : Tables s limbo fresh)
    (alike : Alike s t) (ker : t.ker = s.ker) (wanted : Wanted s goal held) :
    Wanted t goal held := by
  cases wanted with
  | table heapPage small directory absent =>
      have pde := alike_pde tables alike heapPage.1.1
      refine .table ?_ small ?_ ((pde _).1.trans absent)
      · rw [HeapPage, HeapLive, Live, ker]
        exact heapPage
      · rw [ker]
        exact directory
  | page waits => exact .page (waits_alike tables alike ker waits)
  | dir slot enough =>
      refine .dir ⟨slot.1, slot.2.1, ?_⟩ ?_
      · rw [ker]
        exact slot.2.2
      · rw [ker]
        exact enough

theorem doomed_of_quiet {α : Type} {action : Call α} {value : α} (doomed : Doomed s off)
    (keeps : Keeps quietView action) (ran : action s = .ok value final) : Doomed final off := by
  have same := keeps_ok (keeps_queue keeps) ran
  simp only [queueView, Prod.mk.injEq] at same
  exact ⟨same.2.2.2.trans doomed.policy,
    without_of_ker doomed.queue same.1 ⟨same.2.1, same.2.2.1⟩ same.2.2.2⟩

/-- The victim goes to the disk. -/
theorem write_holds {goal : Goal} {e : Evicted} (bsd : Int) (offset : Nat)
    (evicting : Evicting s goal e) :
    Ends (writeBs (frameNum2ptr e.fr) bsd offset s)
      (fun status final => Holds (.written goal e status) final) fun stop _ => NotIndex stop := by
  obtain ⟨bound, page, fresh, busy, wanted⟩ := evicting
  refine ends_weaken (write_bs_ends (frameNum2ptr e.fr)) ?_ fun _ _ clean => clean.2
  rintro status final ran (⟨failed, _⟩ | ⟨_, _, _, _, rfl⟩)
  · exact Or.inl ⟨failed, doomed_of_quiet (doomed_of_busy busy) (keeps_write_bs _ _ _) ran⟩
  · exact Or.inr ⟨bound, page, fresh, busy_alike busy
      ⟨fun _ => rfl, fun _ => rfl, fun _ _ _ _ => ⟨rfl, rfl⟩⟩ rfl rfl ⟨rfl, rfl⟩,
      wanted_congr wanted rfl rfl⟩

/-- The victim has been written, its frame is given away. -/
theorem evicted_ends {goal : Goal} {e : Evicted} {status : Int}
    (holds : Holds (.written goal e status) s) :
    Ends (evicted goal e (grant goal) status s) Holds fun stop _ => NotIndex stop := by
  unfold evicted
  by_cases failed : status = sysErr
  · rw [if_pos failed]
    exact fun _ => by simp
  rcases holds with ⟨isFailed, _⟩ | ⟨bound, page, fresh, busy, wanted⟩
  · exact absurd isFailed failed
  rw [if_neg failed, bind_ok (set_entry_ok _ _ _ _), bind_ok (set_entry_ok _ _ _ _)]
  let clean := s.setWord (e.pt / nbpg) e.pti (setDirty (s.entry e.pt e.pti) false)
  let marked := clean.setWord (e.pt / nbpg) e.pti (setAvail (clean.entry e.pt e.pti) 0)
  let logged : St := { marked with
    trace := .hookPswapOut e.pid e.vp (e.fr + frame0) :: marked.trace }
  have alike : Alike s logged := by
    refine ⟨fun _ => rfl, fun _ => rfl, fun x _ _ i => ?_⟩
    change pres (marked.mem (frame0 + x) i) = _ ∧ base (marked.mem (frame0 + x) i) = _
    rw [set_word_mem]
    split
    · rename_i here
      have word : clean.entry e.pt e.pti = setDirty (s.entry e.pt e.pti) false :=
        if_pos ⟨rfl, rfl⟩
      have same : s.entry e.pt e.pti = s.mem (frame0 + x) i := by
        rw [St.entry, here.1, here.2]
      rw [word, same]
      simp
    · rename_i elsewhere
      have word : clean.mem (frame0 + x) i = s.mem (frame0 + x) i := if_neg elsewhere
      rw [word]
      exact ⟨rfl, rfl⟩
  have loggedBusy : Busy logged e.fr e.fr fresh := busy_alike busy alike rfl rfl ⟨rfl, rfl⟩
  obtain ⟨t, ran, given⟩ := init_given loggedBusy (wanted_alike busy.tables alike rfl wanted) bound
    (Or.inr ⟨page, rfl, rfl⟩)
  rw [log, modify_bind]
  change Ends ((initFrame e.fr goal.type goal.pid goal.vpn >>= _) logged) _ _
  rw [bind_ok ran]
  exact grant_ends given

/-- The page comes from the disk. -/
theorem read_holds {pt faddr : Nat} (bsd : Int) (offset : Nat)
    (holds : Holds (.reading pid a pt faddr bsd offset) s) :
    Ends (readBs faddr bsd offset s)
      (fun status final => Holds (.hasRead pid a pt faddr status) final)
      fun stop _ => NotIndex stop := by
  rcases holds with ⟨rfl, doomed⟩ | loading
  · refine ends_weaken (read_bs_short bsd offset) ?_ fun _ _ stops => stops
    intro status final ran failed
    exact Or.inl ⟨failed, doomed_of_quiet doomed (keeps_read_bs _ _ _) ran⟩
  · obtain ⟨fr, table, rfl, rfl, busy, page, waits⟩ := loading.frames
    refine ends_weaken (read_bs_ends (frame_addr_ptr fr page.1)) ?_ fun _ _ clean => clean.2
    rintro status final ran (⟨failed, _⟩ | ⟨_, _, _, _, rfl⟩)
    · exact Or.inl ⟨failed, doomed_of_quiet (doomed_of_busy busy) (keeps_read_bs _ _ _) ran⟩
    · let read : St := { s.setPage (frameNum2ptr fr / nbpg) (diskPage s bsd offset) with
        trace := .readBs (frameNum2ptr fr) bsd offset :: s.trace }
      have alike : Alike s read := by
        refine ⟨fun _ => rfl, fun _ => rfl, ?_⟩
        intro x bound status i
        have different : ¬frame0 + x = frameNum2ptr fr / nbpg := by
          rw [frame_ptr_page fr page.1]
          intro equal
          have same : x = fr := by omega
          rw [same, page.2.1] at status
          simp at status
        have word : read.mem (frame0 + x) i = s.mem (frame0 + x) i := if_neg different
        rw [word]
        exact ⟨rfl, rfl⟩
      exact Or.inr ⟨fr, table, rfl, rfl, busy_alike busy alike rfl rfl ⟨rfl, rfl⟩, page,
        waits_alike busy.tables alike rfl waits⟩

omit [Config] in
theorem set_page_same (s : St) (page : Nat) : s.setPage page (s.mem page) = s := by
  have same : (s.setPage page (s.mem page)).mem = s.mem := by
    funext p i
    rw [set_page_mem]
    split
    · rename_i here
      rw [here]
    · rfl
  exact congrArg (fun mem => { s with mem := mem }) same

/-- The page is mapped, and `pf_sem` is given back. -/
theorem installed_ends {pt faddr : Nat} {status : Int}
    (holds : Holds (.hasRead pid a pt faddr status) s) :
    Ends (installed pid a pt faddr status s) Holds fun stop _ => NotIndex stop := by
  by_cases failed : status = sysErr
  · unfold installed
    rw [if_pos failed]
    exact fun _ => by simp
  rcases holds with ⟨isFailed, _⟩ | loading
  · exact absurd isFailed failed
  obtain ⟨fr, table, rfl, rfl, busy, page, waits⟩ := loading.frames
  obtain ⟨live, low, high⟩ := waits.heapPage
  have own := private_of_heap busy.tables live low high
  obtain ⟨x, isTable, tableAddress⟩ := busy.tables.tables pid _ live own waits.present
  have sameTable : x = table := by
    have address := waits.address
    omega
  subst sameTable
  have counted := (busy.tables.counts pid _ x live own waits.present waits.address).1
  have small : (s.ipt x).refCount ≤ 1024 := by
    rw [counted]
    exact Xinu.Lib.Counting.count_bound
  obtain ⟨trace, ran, _⟩ := map_page_ok page.1 isTable.1 small
    (show vaddr2vpn a = vaddr2vpn a from rfl)
    (.hookPfault pid a (vaddr2vpn a) (frameNumOf (frameNum2ptr fr) + frame0)) rfl
  have space := Config.frameSpace
  have inside := page.1
  have fits : frame0 + fr < 1048576 := by
    rw [frame0]
    omega
  let entry := setBase (setPres (s.mem (frame0 + x) (vaddr2vpn a % 1024)) true) (frame0 + fr)
  let t : St := { installPage s x (vaddr2vpn a % 1024) entry with trace := trace }
  have target : base entry = frame0 + fr := base_set_base _ _ fits
  have present : pres entry = true := by simp [entry]
  have tables : Tables t empty [] := tables_trace (install_page_tables busy.tables page
    waits.heapPage waits.present waits.absent waits.address present target) _
  obtain ⟨owned, stays⟩ : Owned t empty ∧ Stays s t := by
    have read : t = { installPage (s.setPage (frame0 + fr) (s.mem (frame0 + fr))) x
        (vaddr2vpn a % 1024) entry with trace := t.trace } := by
      rw [set_page_same]
    exact filled_owned busy.tables busy.owned live.1 isTable page.2.1 read
  have queue : QueueWithout empty t :=
    queue_of_view (queue_of_count busy.queue x ((s.ipt x).refCount + 1)) rfl
  have tBusy : Busy t empty empty [] := ⟨tables, busy.policy, queue,
    kept_of_ker busy.stores rfl rfl rfl rfl, owned, rooted_stays busy.rooted busy.tables stays
      busy.rooted.null fun p after before => absurd after before, busy.lock⟩
  obtain ⟨semtab, signalRan, count⟩ := signal_given tBusy.lock
  have parts : installed pid a (frameNum2ptr x) (frameNum2ptr fr) status s = ((do
      incRefCount (frameNum2ptr x)
      setEntry (frameNum2ptr x) (vaddr2pti a) fun entry => setPres entry true
      setPTEAddr (frameNum2ptr x) (vaddr2pti a) (frameNum2ptr fr)
      log (.hookPfault pid a (vaddr2vpn a) (frameNumOf (frameNum2ptr fr) + frame0)) : Call Unit)
      >>= fun _ => (do
        signal .pfSem
        pure Phase.idle)) s := by
    unfold installed
    rw [if_neg failed]
    simp only [bind_assoc]
  rw [parts, bind_ok ran, bind_ok signalRan]
  obtain ⟨sound, _⟩ := sound_of_ker { t.ker with semtab := semtab } t.fifoNextframe
    (sound_of_busy tBusy) (fun _ => rfl) ⟨rfl, rfl, rfl⟩ rfl
    (kept_of_ker tBusy.stores rfl rfl rfl rfl)
  have before := tBusy.lock
  refine ⟨sound, busy.policy, ?_⟩
  change 1 ≤ (semtab .pfSem).scount
  omega

end Transfers

section Beginnings

theorem service_begins (busy : Busy s empty empty []) (heapPage : HeapPage s pid (vaddr2vpn a))
    (small : a < 4294967296)
    (unmapped : ¬(pres (pdeOf s pid (vaddr2vpn a / 1024)) = true ∧
      pres (pteOf s pid (vaddr2vpn a / 1024) (vaddr2vpn a % 1024)) = true))
    (keeps : ¬LosesTable s pid (vaddr2vpn a / 1024)) :
    Ends (beginService pid a s) Holds fun stop _ => NotIndex stop := by
  have index : vaddr2pdi a = vaddr2vpn a / 1024 := by
    rw [page_directory_index a small, page_number]
    omega
  unfold beginService
  rw [get_bind, index]
  by_cases absent : pres (pdeOf s pid (vaddr2vpn a / 1024)) = false
  · have isAbsent : pres (s.entry (s.ker.proctab pid).pd (vaddr2vpn a / 1024)) = false := absent
    have wanted : Wanted s (.table pid a (s.ker.proctab pid).pd) [] :=
      .table heapPage small rfl absent
    simp only [if_pos isAbsent]
    exact allocate_ends busy wanted (fun same => nomatch same) grant_ends
      fun after exhausted => grant_short wanted after exhausted
  · have isPresent : ¬pres (s.entry (s.ker.proctab pid).pd (vaddr2vpn a / 1024)) = false := absent
    have present : pres (pdeOf s pid (vaddr2vpn a / 1024)) = true := by simpa using absent
    have own := private_of_heap busy.tables heapPage.1 heapPage.2.1 heapPage.2.2
    obtain ⟨table, isTable, address⟩ := busy.tables.tables pid _ heapPage.1 own present
    have toTable : pdi2pt s (s.ker.proctab pid).pd (vaddr2vpn a / 1024) = frameNum2ptr table := by
      have target : base (s.entry (s.ker.proctab pid).pd (vaddr2vpn a / 1024)) = frame0 + table :=
        address
      rw [pdi2pt, target, frame_ptr_base table isTable.1]
    have missing : pres (pteOf s pid (vaddr2vpn a / 1024) (vaddr2vpn a % 1024)) = false := by
      by_contra there
      exact unmapped ⟨present, by simpa using there⟩
    have wanted : Wanted s (.page pid a (frameNum2ptr table)) [table] :=
      .page ⟨heapPage, small, present, address, missing⟩
    have exempt : Busy s empty empty [table] :=
      { busy with tables := tables_exempt busy.tables table }
    simp only [if_neg isPresent, toTable]
    refine allocate_ends exempt wanted ?_ grant_ends
      fun after exhausted => grant_short wanted after exhausted
    intro p b pt same
    cases same
    exact keeps

theorem fault_begins (sound : Sound s) (policy : s.ker.currpolicy = .fifo) (free : 1 ≤ pfCount s)
    (live : Live s s.ker.currpid) (faults : Faults s a) (keeps : KeepsTable s (.fault a)) :
    Ends (beginFault a s) Holds fun stop _ => NotIndex stop := by
  let held : St := { s with ker := taken (counted s).ker .pfSem }
  have opened : wait .pfSem (counted s) = .ok () held := wait_free free
  unfold beginFault
  rw [modifyKer, modify_bind]
  change Ends ((wait .pfSem >>= _) (counted s)) _ _
  rw [bind_ok opened, get_bind]
  obtain ⟨countedSound, _⟩ := counted_sound sound
  by_cases invalid : isInvalidAddr held.ker a held.ker.currpid = true
  · have given : signal .pfSem held = .ok () (counted s) := signal_taken free rfl
    rw [if_pos invalid, bind_ok given]
    have lock : 0 ≤ pfCount (counted s) := Int.le_trans (by decide) free
    have busy : Busy (counted s) empty empty [] := busy_of_sound countedSound policy lock
    refine ends_bind (ends_weaken (busy_kill busy fun bad => absurd bad empty_not_frame)
      ?_ fun _ _ stops => stops) fun _ final _ sound => sound
    intro status final ran outcome
    obtain ⟨_, samePolicy, lock⟩ := calls_kill held.ker.currpid ⟨counted s, fun _ => 0, 0⟩ _ _ ran
    have grown : pfCount s + (0 : Nat) ≤ pfCount final := lock
    have finalSound : Sound final := by
      rcases outcome with rfl | ⟨after, _⟩
      · exact countedSound
      · exact sound_of_busy after
    exact show Holds .idle final from ⟨finalSound, samePolicy.trans policy, by omega⟩
  · have valid : isInvalidAddr s.ker a s.ker.currpid = false := Bool.eq_false_iff.mpr invalid
    rw [if_neg invalid]
    obtain ⟨heldSound, _⟩ := held_sound sound
    obtain ⟨heapLive, inside⟩ := fault_in_heap sound live faults valid
    obtain ⟨heapPage, _⟩ := heap_page_of_address sound.stores heapLive inside
    have small := faults.1
    have index : vaddr2pdi a = vaddr2vpn a / 1024 := by
      rw [page_directory_index a small, page_number]
      omega
    have entry : vaddr2pti a = vaddr2vpn a % 1024 := by rw [page_table_index, page_number]
    have heldPage : HeapPage held s.ker.currpid (vaddr2vpn a) := heapPage
    have heldKeeps : ¬LosesTable held s.ker.currpid (vaddr2vpn a / 1024) := by
      rw [← index]
      exact keeps
    have lock : 0 ≤ pfCount held := by
      have less : pfCount held = pfCount s - 1 := by
        simp [held, pfCount, taken, Ker.setSem, counted]
      omega
    refine service_begins (busy_of_sound heldSound policy lock) heldPage small ?_ heldKeeps
    rintro ⟨present, presPage⟩
    obtain ⟨t, isTable, address⟩ := heldSound.tables.tables _ _ heldPage.1
      (private_of_heap heldSound.tables heldPage.1 heldPage.2.1 heldPage.2.2) present
    have mapped : pres (s.entry (currentPd s) (vaddr2pdi a)) = true := by
      rw [index]
      exact present
    have target : base (s.entry (currentPd s) (vaddr2pdi a)) = frame0 + t := by
      rw [index]
      exact address
    have there : pres (s.mem (frame0 + t) (vaddr2pti a)) = true := by
      rw [entry, ← address]
      exact presPage
    refine faults.2 ⟨mapped, ?_⟩
    rw [pte, pdi2pt, target, frame_ptr_base t isTable.1, St.entry, frame_ptr_page t isTable.1]
    exact there

theorem vcreate_begins {ssize hsize : Nat} {priority : Int} (sound : Sound s)
    (policy : s.ker.currpolicy = .fifo) (free : 1 ≤ pfCount s) :
    Ends (beginVcreate ssize hsize priority s) Holds fun stop _ => NotIndex stop := by
  obtain ⟨saddr, memlist, stack⟩ := getstk_returned s (stackSize ssize)
  let opened : St := { s with ker := { s.ker with memlist := memlist } }
  have kept : ∀ ker : Ker, ker.proctab = s.ker.proctab →
      (ker.gpt = s.ker.gpt ∧ ker.dpt = s.ker.dpt ∧ ker.gpd = s.ker.gpd) →
      ker.currpolicy = s.ker.currpolicy → ker.bstab = s.ker.bstab →
      ker.freeBsCount = s.ker.freeBsCount → ker.pageServerActive = s.ker.pageServerActive →
      Sound { s with ker := ker } := by
    intro ker procs roots same table count server
    exact (sound_of_ker ker s.fifoNextframe sound (fun q => by rw [procs]) roots same
      (kept_of_ker sound.stores procs table count server)).1
  have idle : ∀ memlist nextpid, Holds .idle
      { s with ker := { s.ker with memlist := memlist, vcreateNextpid := nextpid } } :=
    fun memlist nextpid => ⟨kept _ rfl ⟨rfl, rfl, rfl⟩ rfl rfl rfl rfl, policy, free⟩
  unfold beginVcreate
  rw [bind_ok stack]
  by_cases noStack : saddr = sysErrPtr
  · rw [if_pos noStack]
    exact idle memlist s.ker.vcreateNextpid
  let found := newpidFrom opened.ker nproc opened.ker.vcreateNextpid
  let slotted : St := { opened with ker := { opened.ker with vcreateNextpid := found.2 } }
  have pidRan : vcreateNewpid opened = .ok found.1 slotted := vcreate_newpid_returned opened
  rw [if_neg noStack, bind_ok pidRan]
  by_cases refused : found.1 = sysErr ∨ priority < 1
  · rw [if_pos refused]
    exact idle memlist found.2
  rw [if_neg refused, get_bind]
  by_cases few : slotted.ker.freeBsCount < bsReq hsize
  · obtain ⟨status, freed, freeRan⟩ := freestk_returned slotted saddr (stackSize ssize)
    rw [if_pos few, bind_ok freeRan]
    exact idle freed found.2
  · have slots : 0 < nproc := by
      by_contra none
      apply refused
      have zero : nproc = 0 := by omega
      simp [found, zero, newpidFrom]
    have slot : IsFree s found.1 := by
      rcases newpid_free opened.ker nproc opened.ker.vcreateNextpid slots with failed | isFree
      · exact absurd (Or.inl failed) refused
      · exact isFree
    let entered : St := { slotted with ker := { slotted.ker with
      prcount := slotted.ker.prcount + 1 } }
    let held : St := { entered with ker := taken entered.ker .pfSem }
    have waited : wait .pfSem entered = .ok () held := wait_free free
    rw [if_neg few, modifyKer, modify_bind]
    change Ends ((wait .pfSem >>= _) entered) _ _
    rw [bind_ok waited]
    have lock : 0 ≤ pfCount held := by
      have less : pfCount held = pfCount s - 1 := by
        simp [held, entered, slotted, opened, pfCount, taken, Ker.setSem]
      omega
    have busy : Busy held empty empty [] :=
      busy_of_sound (kept _ rfl ⟨rfl, rfl, rfl⟩ rfl rfl rfl rfl) policy lock
    have wanted : Wanted held (.dir slotted.ker.currpid found.1 saddr (stackSize ssize) hsize) [] :=
      .dir slot (Nat.le_of_not_lt few)
    exact allocate_ends busy wanted (by intro _ _ _ same; cases same) grant_ends
      fun after exhausted => grant_short wanted after exhausted

end Beginnings

section Runs

theorem event_holds {event : Event} (sound : Sound s) (policy : s.ker.currpolicy = .fifo)
    (free : 1 ≤ pfCount s) (fixed : Fixed s event) (keeps : KeepsTable s event) :
    Ends (exec event s) (fun _ final => Holds .idle final) fun stop _ => NotIndex stop := by
  have affordable : Affordable s event := by
    cases event with
    | vcreate ssize hsize priority =>
        intro gca
        rw [policy] at gca
        cases gca
    | fault a =>
        intro _ gca
        rw [policy] at gca
        cases gca
    | _ => trivial
  have finds : FindsList s event := by
    cases event with
    | srpolicy policy => exact absurd fixed id
    | _ => trivial
  refine ends_weaken (exec_in_bounds sound free affordable) ?_ fun _ _ stops => stops
  intro reply final ran _
  obtain ⟨_, samePolicy, grown⟩ := calls_exec fixed ⟨s, fun _ => 0, 0⟩ _ _ ran
  have lock : pfCount s + (0 : Nat) ≤ pfCount final := grown
  have orderly := orderly_of_careful sound free ⟨affordable, keeps, finds⟩ ran
  exact ⟨exec_orderly sound orderly ran, samePolicy.trans policy, by omega⟩

/-- One move of a run. -/
theorem move_holds {phase : Phase} {m : Move} (holds : Holds phase s)
    (allowed : Allowed phase s m) :
    Ends (move phase m s) Holds fun stop _ => NotIndex stop := by
  cases phase with
  | idle =>
      obtain ⟨sound, policy, free⟩ := holds
      cases m with
      | event event =>
          exact ends_bind (event_holds sound policy free allowed.1 allowed.2) fun _ _ _ held => held
      | fault a =>
          change Ends ((if Running s ∧ Faults s a then beginFault a else throw .disabled :
            Call Phase) s) _ _
          split
          · rename_i ready
            exact fault_begins sound policy free (live_of_running ready.1) ready.2 allowed
          · exact fun _ => by simp
      | vcreate ssize hsize priority =>
          change Ends ((if Running s then beginVcreate ssize hsize priority else throw .disabled :
            Call Phase) s) _ _
          split
          · exact vcreate_begins sound policy free
          · exact fun _ => by simp
      | kill q => exact fun _ => by simp
      | proceed => exact fun _ => by simp
  | writing goal e bsd offset =>
      cases m with
      | kill q =>
          exact ends_bind (evicting_kill holds allowed.1 allowed.2) fun _ _ _ held => held
      | proceed => exact ends_bind (write_holds bsd offset holds) fun _ _ _ held => held
      | _ => exact fun _ => by simp
  | written goal e status =>
      cases m with
      | kill q =>
          rcases holds with ⟨failed, doomed⟩ | evicting
          · exact ends_bind (doomed_kill doomed fun _ => allowed.2) fun _ _ _ held =>
              Or.inl ⟨failed, held⟩
          · exact ends_bind (evicting_kill evicting allowed.1 allowed.2) fun _ _ _ held =>
              Or.inr held
      | proceed => exact evicted_ends holds
      | _ => exact fun _ => by simp
  | reading pid a pt faddr bsd offset =>
      cases m with
      | kill q =>
          rcases holds with ⟨failed, doomed⟩ | loading
          · exact ends_bind (doomed_kill doomed fun bad => absurd bad empty_not_frame)
              fun _ _ _ held => Or.inl ⟨failed, held⟩
          · exact ends_bind (loading_kill loading allowed) fun _ _ _ held => Or.inr held
      | proceed => exact ends_bind (read_holds bsd offset holds) fun _ _ _ held => held
      | _ => exact fun _ => by simp
  | hasRead pid a pt faddr status =>
      cases m with
      | kill q =>
          rcases holds with ⟨failed, doomed⟩ | loading
          · exact ends_bind (doomed_kill doomed fun bad => absurd bad empty_not_frame)
              fun _ _ _ held => Or.inl ⟨failed, held⟩
          · exact ends_bind (loading_kill loading allowed) fun _ _ _ held => Or.inr held
      | proceed => exact installed_ends holds
      | _ => exact fun _ => by simp

theorem moves_hold {phase : Phase} (run : Moves (Started fifo) Allowed phase s) :
    Holds phase s := by
  induction run with
  | start started =>
      have rests := system_run_rests (.start started.1)
      exact ⟨started_sound started, rests.1.trans (if_neg (by decide)), rests.2⟩
  | step _ may ran induction => exact ends_ok (move_holds induction may) ran

end Runs

section Results

/-- With kills of other processes at the points where the holder of `pf_sem` waits for the disk, no
move accesses an entry outside of the frame table, and when a fault or a `vcreate` is over the list
is again that of the pages. -/
theorem kills_keep_frame_table {phase : Phase} (run : Moves (Started fifo) Allowed phase s) :
    (∀ m, Allowed phase s m → InBounds (move phase m s)) ∧
      (phase = .idle → ∃ nodes, Represents s nodes) := by
  have holds := moves_hold run
  constructor
  · intro m allowed
    exact ends_weaken (move_holds holds allowed) (fun _ _ _ _ => trivial) fun _ _ stops => stops
  · rintro rfl
    obtain ⟨sound, policy, _⟩ := holds
    obtain ⟨nodes, listed⟩ := sound.queue policy
    exact ⟨nodes, represents listed⟩

end Results

section Checks

theorem moves_mono {start : St → Prop} {allowed allowed' : Phase → St → Move → Prop} {phase : Phase}
    (wider : ∀ phase s m, allowed phase s m → allowed' phase s m)
    (run : Moves start allowed phase s) : Moves start allowed' phase s := by
  induction run with
  | start started => exact .start started
  | step _ may ran induction => exact .step induction (wider _ _ _ may) ran

/-- Moves one after the other, as long as each of them is allowed and returns. -/
def runMoves (allowed : Phase → St → Move → Prop) [∀ phase s m, Decidable (allowed phase s m)] :
    List Move → Phase → Call Phase
  | [], phase => pure phase
  | m :: rest, phase => do
      let s ← get
      if allowed phase s m then do
        let next ← move phase m
        runMoves allowed rest next
      else throw .disabled

theorem run_moves {start : St → Prop} {allowed : Phase → St → Move → Prop}
    [∀ phase s m, Decidable (allowed phase s m)] {moves : List Move} {phase last : Phase}
    (run : Moves start allowed phase s) (ran : runMoves allowed moves phase s = .ok last final) :
    Moves start allowed last final := by
  induction moves generalizing phase s with
  | nil =>
      cases ran
      exact run
  | cons m rest induction =>
      unfold runMoves at ran
      rw [get_bind] at ran
      split at ran
      · rename_i may
        obtain ⟨next, middle, moved, ran⟩ := bind_ok_inv ran
        exact induction (.step run may moved) ran
      · cases ran

/-- The moves from the start of `initialize_paging`. -/
def bootAndMove (allowed : Phase → St → Move → Prop)
    [∀ phase s m, Decidable (allowed phase s m)] (moves : List Move) : Call Phase := do
  initializePaging
  let _ ← srpolicy fifo
  runMoves allowed moves .idle

theorem boot_and_move {allowed : Phase → St → Move → Prop}
    [∀ phase s m, Decidable (allowed phase s m)] {moves : List Move} {before : St} {last : Phase}
    (on : PowerOn before) (off : StoresOff before)
    (ran : bootAndMove allowed moves before = .ok last final) :
    Moves (Started fifo) allowed last final := by
  obtain ⟨_, paged, initRan, ran⟩ := bind_ok_inv ran
  obtain ⟨status, booted, policyRan, ran⟩ := bind_ok_inv ran
  exact run_moves (.start (started_of_boot on off ((bind_ok initRan _).trans policyRan))) ran

instance (phase : Phase) (s : St) (q : Int) : Decidable (Harmless phase s q) :=
  match phase with
  | .idle => isTrue trivial
  | .writing .. | .written .. => inferInstanceAs (Decidable (_ ∧ _))
  | .reading .. | .hasRead .. => inferInstanceAs (Decidable (_ ≠ _))

/-- The moves of `Allowed` that can be recognised -/
def AllowedOldest (phase : Phase) (s : St) : Move → Prop
  | .event event => Fixed s event ∧ KeepsOldest s event
  | .fault a => KeepsOldest s (.fault a)
  | .kill q => Harmless phase s q
  | .vcreate .. => True
  | .proceed => True

instance decideAllowed (phase : Phase) (s : St) (m : Move) : Decidable (AllowedOldest phase s m) :=
  match m with
  | .event _ => inferInstanceAs (Decidable (_ ∧ _))
  | .fault a => inferInstanceAs (Decidable (KeepsOldest s (.fault a)))
  | .kill q => inferInstanceAs (Decidable (Harmless phase s q))
  | .vcreate .. | .proceed => isTrue trivial

theorem allowed_of_oldest {phase : Phase} {m : Move} (allowed : AllowedOldest phase s m) :
    Allowed phase s m := by
  cases m with
  | event event => exact ⟨allowed.1, keeps_table_of_oldest allowed.2⟩
  | fault a =>
      have keeps : KeepsOldest s (.fault a) := allowed
      exact keeps_table_of_oldest keeps
  | _ => exact allowed

end Checks

section Example

/-- Process 1 has a page that it has changed, and process 3 has one too. -/
def fullTable : List Move :=
  [.event (.vcreate 1024 2 20), .event (.vcreate 1024 2 20), .event (.vcreate 1024 2 20),
    .event (.resume 1), .event (.resume 2), .event (.resume 3), .event (.resched 1),
    .event (.fault 0x1000000), .event (.store 0x1000000 7), .event (.resched 3),
    .event (.fault 0x1000000), .event (.resched 2)]

def afterMoves (moves : List Move) : EStateM.Result Stop St Phase :=
  @bootAndMove thirteen (@AllowedOldest thirteen) (@decideAllowed thirteen) moves blankMachine

omit [Config] in
theorem after_moves {moves : List Move} {phase : Phase}
    (ended : afterMoves moves = .ok phase s) :
    @Moves thirteen (@Started thirteen fifo) (@Allowed thirteen) phase s :=
  @moves_mono thirteen _ _ _ _ _ (fun _ _ _ => @allowed_of_oldest thirteen _ _ _)
    (@boot_and_move thirteen _ _ (@decideAllowed thirteen) _ _ _ power_on_blank stores_off_blank
      ended)

/-- The fault of process 2 writes the page of process 1, and process 3 is killed before and after
the transfer. -/
def thirdKilled : List Move :=
  fullTable ++ [.fault 0x1000000, .kill 3, .proceed, .kill 3, .proceed, .kill 3, .proceed, .proceed]

/-- The moves have come to the end of a fault. -/
def rested (outcome : EStateM.Result Stop St Phase) : Bool :=
  match outcome with
  | .ok .idle _ => true
  | _ => false

omit [Config] in
theorem kills_keep_frame_table_third :
    ∃ s, afterMoves thirdKilled = .ok .idle s ∧
      (∀ m, @Allowed thirteen .idle s m → InBounds (@move thirteen .idle m s)) ∧
      (Phase.idle = Phase.idle → ∃ nodes, @Represents thirteen s nodes) := by
  have check : rested (afterMoves thirdKilled) = true := by decide +kernel
  cases ended : afterMoves thirdKilled with
  | error stop s =>
      rw [ended] at check
      cases check
  | ok phase s =>
      cases phase with
      | idle => exact ⟨s, rfl, @kills_keep_frame_table thirteen _ _ (after_moves ended)⟩
      | _ =>
          rw [ended] at check
          cases check

/-- A page of process 1 is written for process 2, and a kill of process 1 leaves the table. -/
def ownerStops (outcome : EStateM.Result Stop St Phase) : Bool :=
  match outcome with
  | .ok (.writing goal e bsd offset) s =>
      decide (goal.holder = 2 ∧ (s.ipt e.fr).pid = 1 ∧ ¬(s.ker.proctab 1).prstate = .free) &&
        match @move thirteen (.writing goal e bsd offset) (.kill 1) s with
        | .error (.badIndex _) _ => true
        | _ => false
  | _ => false

omit [Config] in
/-- The kill of the owner of the page that is written follows the link of a frame that is off the
list. -/
theorem kill_leaves_table : ∃ goal e bsd offset s,
    @Moves thirteen (@Started thirteen fifo) (@Allowed thirteen) (.writing goal e bsd offset) s ∧
      goal.holder = 2 ∧ (s.ipt e.fr).pid = 1 ∧ Live s 1 ∧
      ¬InBounds (@move thirteen (.writing goal e bsd offset) (.kill 1) s) := by
  have check : ownerStops (afterMoves (fullTable ++ [.fault 0x1000000])) = true := by
    decide +kernel
  cases ended : afterMoves (fullTable ++ [.fault 0x1000000]) with
  | error stop s =>
      rw [ended] at check
      cases check
  | ok phase s =>
      rw [ended] at check
      cases phase with
      | writing goal e bsd offset =>
          rw [ownerStops, Bool.and_eq_true] at check
          obtain ⟨facts, stops⟩ := check
          obtain ⟨holder, owner, alive⟩ := of_decide_eq_true facts
          refine ⟨goal, e, bsd, offset, s, after_moves ended, holder, owner, alive, ?_⟩
          intro inside
          split at stops
          · rename_i index stopped killed
            rw [killed] at inside
            exact inside index rfl
          · cases stops
      | _ => cases check

end Example

end Xinu.Space.InterruptedRuns
