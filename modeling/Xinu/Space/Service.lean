import Xinu.Space.Fault

/-!
# How a page fault runs

The stages of `pf_handler` as runs: each returns with the result described in
`Served`, or stops without having taken anything else for the address of a frame.
-/

namespace Xinu.Space.Service

open Xinu.Lib.Counting Xinu.Kernel.State Xinu.Kernel.Entry Xinu.Kernel.Semaphore Xinu.Lib.StateError
open Xinu.Paging.Address Xinu.Paging.BackingStore Xinu.Paging.Ipt Xinu.Paging.Handler
open Xinu.Replacement.Fifo Xinu.Replacement.FifoRuns Xinu.Replacement.Exhaustion
open Xinu.Space.Agreement Xinu.Space.Unmap Xinu.Space.Link Xinu.Space.Transfers
open Xinu.Space.Evict Xinu.Space.Choice Xinu.Space.Allocate Xinu.Space.Fault

set_option autoImplicit false

variable [Config]

variable {s final : St} {fr table vpn pdi d : Nat} {pid : Int} {fresh : List Nat}

theorem queue_of_view (queue : QueueKept s) (same : queueView final = queueView s) :
    QueueKept final := by
  intro fifo
  have policy : final.ker.currpolicy = s.ker.currpolicy :=
    congrArg (fun view => view.2.2.2) same
  obtain ⟨nodes, frameQueue⟩ := queue (policy.symm.trans fifo)
  exact ⟨nodes, (fifo_of_view ⟨policy.symm.trans fifo, frameQueue⟩ same).2⟩

theorem queue_of_count (queue : QueueKept s) (x count : Nat) :
    QueueKept (setFrame s x { s.ipt x with refCount := count }) := by
  intro fifo
  obtain ⟨nodes, frameQueue⟩ := queue fifo
  have before : Fifo s empty nodes := ⟨fifo, frameQueue⟩
  exact ⟨nodes, (set_count_fifo x count before).2⟩

theorem proper_address {effect : Effect} {addr : Nat} (is : frameAddress effect = some addr)
    (frame : FrameAddr addr) : Proper effect := by
  intro other member
  rw [is] at member
  cases member
  exact frame

theorem proper_silent {effect : Effect} (silent : frameAddress effect = none) : Proper effect := by
  intro other member
  rw [silent] at member
  cases member

section PageTable

theorem new_page_table_ends (tables : Tables s empty fresh) (queue : QueueKept s)
    (resources : ¬Exhausted s) :
    Ends (newPageTable pid s)
      (fun addr final => ∃ t opened, t < nframes ∧ addr = frameNum2ptr t ∧
        NewFrame s opened t .ptab pid noVpn ∧
        final = { opened.setPage (frame0 + t) (fun i => blankPTE (opened.mem (frame0 + t) i)) with
          trace := final.trace } ∧ AddsProper s final ∧ QueueKept final)
      (Clean s) := by
  unfold newPageTable
  apply ends_bind (get_new_frame_ends _ _ _ tables queue resources)
  rintro addr opened ran ⟨t, bound, rfl, taken⟩
  have openedQueue := get_new_frame_queue queue ran
  rw [if_neg (frame_ptr_ne_syserr t bound), modify_bind, frame_ptr_page t bound,
    bind_ok (faddr_to_frame_num_ok _ _)]
  have frame := frame_addr_ptr t bound
  refine ⟨t, opened, bound, rfl, taken, rfl, ?_, ?_⟩
  · apply adds_proper_trans (new_frame_adds taken)
    refine ⟨[_, _], rfl, ?_⟩
    intro effect member
    simp only [List.mem_cons, List.not_mem_nil, or_false] at member
    rcases member with rfl | rfl
    · exact proper_silent rfl
    · exact proper_address rfl frame
  · exact queue_of_view openedQueue rfl

/-- The directory entry of a new page table. -/
theorem set_pde_ok (pdi : Nat) (dirBound : d < nframes) (bound : table < nframes) :
    ∃ entry trace, (do
        setPDEAddr (frameNum2ptr d) pdi (frameNum2ptr table)
        setEntry (frameNum2ptr d) pdi fun entry => setPres entry true
        pure (frameNum2ptr table) : Call Nat) s =
        .ok (frameNum2ptr table) { s.setWord (frame0 + d) pdi entry with trace := trace } ∧
      pres entry = true ∧ base entry = frame0 + table ∧
      AddsProper s { s.setWord (frame0 + d) pdi entry with trace := trace } := by
  have space := Config.frameSpace
  have small : frame0 + table < 1048576 := by
    rw [frame0]
    omega
  let logged : St := { s with trace := .setPDEAddr (frameNum2ptr table) :: s.trace }
  refine ⟨setPres (setBase (s.mem (frame0 + d) pdi) (frame0 + table)) true, logged.trace, ?_, ?_,
    ?_, ?_⟩
  · have logRan : log (.setPDEAddr (frameNum2ptr table)) s = .ok () logged := rfl
    have addrRan : setPDEAddr (frameNum2ptr d) pdi (frameNum2ptr table) s =
        .ok () (logged.setWord (frame0 + d) pdi
          (setBase (s.mem (frame0 + d) pdi) (frame0 + table))) := by
      unfold setPDEAddr
      rw [bind_ok logRan, set_entry_ok, frame_ptr_page table bound, St.entry,
        frame_ptr_page d dirBound]
    rw [bind_ok addrRan, bind_ok (set_entry_ok _ _ _ _), entry_set_word, frame_ptr_page d dirBound,
      if_pos ⟨rfl, rfl⟩, set_word_set_word]
    rfl
  · exact pres_set_pres _ _
  · rw [base_set_pres, base_set_base _ _ small]
  · exact adds_proper_one _ (proper_address rfl (frame_addr_ptr table bound)) rfl

theorem pf_table_ends (tables : Tables s empty []) (queue : QueueKept s) (live : HeapLive s pid)
    (own : Private pdi) (resources : pres (pdeOf s pid pdi) = false → ¬Exhausted s) :
    Ends (pfTable pid (s.ker.proctab pid).pd pdi s)
      (fun pt linked => ∃ t < nframes, pt = frameNum2ptr t ∧ TableFor s linked pid pdi t ∧
        AddsProper s linked ∧ QueueKept linked)
      (Clean s) := by
  obtain ⟨d, dirBound, directory, _, _⟩ := tables.dirs pid live.1
  unfold pfTable
  rw [get_bind]
  by_cases absent : pres (pdeOf s pid pdi) = false
  · have isAbsent : pres (s.entry (s.ker.proctab pid).pd pdi) = false := absent
    rw [if_pos isAbsent]
    apply ends_bind (new_page_table_ends tables queue (resources absent))
    rintro pt blanked _ ⟨t, opened, bound, rfl, taken, same, adds, kept⟩
    rw [directory]
    obtain ⟨entry, trace, ran, present, address, more⟩ :=
      set_pde_ok (s := blanked) pdi dirBound bound
    rw [ran]
    refine ⟨t, bound, rfl, ?_, adds_proper_trans adds more, queue_of_view kept rfl⟩
    have blank : ∀ word, pres (blankPTE word) = false ∧ dirty (blankPTE word) = false ∧
        avail (blankPTE word) = 0 := fun word => ⟨pres_blank word, dirty_blank word, avail_blank word⟩
    refine .made opened d (fun i => blankPTE (opened.mem (frame0 + t) i)) entry absent dirBound
      directory bound taken (fun i => blank _) present address ?_
    rw [same]
    rfl
  · have isPresent : ¬pres (s.entry (s.ker.proctab pid).pd pdi) = false := absent
    have present : pres (pdeOf s pid pdi) = true := by simpa using absent
    obtain ⟨t, isTable, address⟩ := tables.tables pid pdi live own present
    rw [if_neg isPresent]
    refine ⟨t, isTable.1, ?_, .found rfl present address, adds_proper_refl rfl, queue⟩
    have atEntry : base (s.entry (s.ker.proctab pid).pd pdi) = frame0 + t := address
    rw [pdi2pt, atEntry, frame_ptr_base t isTable.1]

end PageTable

section Install

omit [Config] in
theorem table_index {a : Nat} (number : vaddr2vpn a = vpn) : vaddr2pti a = vpn % 1024 := by
  rw [page_table_index, ← number, page_number]

/-- The page that was read is mapped and counted. -/
theorem map_page_ok {a : Nat} (bound : fr < nframes) (tableBound : table < nframes)
    (small : (s.ipt table).refCount ≤ 1024) (number : vaddr2vpn a = vpn) (hook : Effect)
    (silent : frameAddress hook = none) :
    ∃ trace, (do
        incRefCount (frameNum2ptr table)
        setEntry (frameNum2ptr table) (vaddr2pti a) fun entry => setPres entry true
        setPTEAddr (frameNum2ptr table) (vaddr2pti a) (frameNum2ptr fr)
        log hook : Call Unit) s =
        .ok () { installPage s table (vpn % 1024)
          (setBase (setPres (s.mem (frame0 + table) (vpn % 1024)) true) (frame0 + fr)) with
            trace := trace } ∧
      AddsProper s { installPage s table (vpn % 1024)
        (setBase (setPres (s.mem (frame0 + table) (vpn % 1024)) true) (frame0 + fr)) with
          trace := trace } := by
  let entry := setPres (s.mem (frame0 + table) (vpn % 1024)) true
  let logged : St := { s with trace := .incRefCount (frameNum2ptr table) :: s.trace }
  let counted := setFrame logged table
    { s.ipt table with refCount := (s.ipt table).refCount + 1 }
  have more : ((s.ipt table).refCount + 1) % word32 = (s.ipt table).refCount + 1 := by
    rw [word32]
    omega
  have countRan : incRefCount (frameNum2ptr table) s = .ok () counted := by
    have logRan : log (.incRefCount (frameNum2ptr table)) s = .ok () logged := rfl
    unfold incRefCount
    rw [bind_ok logRan, frame_num_of_ptr table tableBound, modify_frame_ok tableBound]
    change EStateM.Result.ok () (setFrame logged table { s.ipt table with
      refCount := ((s.ipt table).refCount + 1) % word32 }) = _
    rw [more]
  let present := counted.setWord (frame0 + table) (vpn % 1024) entry
  have presentRan : setEntry (frameNum2ptr table) (vaddr2pti a) (fun entry => setPres entry true)
      counted = .ok () present := by
    rw [set_entry_ok, frame_ptr_page table tableBound, St.entry, frame_ptr_page table tableBound,
      table_index number]
    rfl
  let mapped : St :=
    { counted.setWord (frame0 + table) (vpn % 1024) (setBase entry (frame0 + fr)) with
      trace := .setPTEAddr (frameNum2ptr fr) :: counted.trace }
  have mappedRan : setPTEAddr (frameNum2ptr table) (vaddr2pti a) (frameNum2ptr fr) present =
      .ok () mapped := by
    have logRan : log (.setPTEAddr (frameNum2ptr fr)) present =
        .ok () { present with trace := .setPTEAddr (frameNum2ptr fr) :: present.trace } := rfl
    unfold setPTEAddr
    rw [bind_ok logRan, set_entry_ok, frame_ptr_page table tableBound, frame_ptr_page fr bound,
      St.entry, frame_ptr_page table tableBound, table_index number]
    have word : present.mem (frame0 + table) (vpn % 1024) = entry := if_pos ⟨rfl, rfl⟩
    simp only [word]
    exact congrArg (EStateM.Result.ok ()) (congrArg (fun state : St =>
      { state with trace := .setPTEAddr (frameNum2ptr fr) :: counted.trace })
      (set_word_set_word counted _ _ _ _))
  rw [bind_ok countRan, bind_ok presentRan, bind_ok mappedRan]
  refine ⟨hook :: mapped.trace, rfl, [hook, .setPTEAddr (frameNum2ptr fr),
    .incRefCount (frameNum2ptr table)], rfl, ?_⟩
  intro effect member
  simp only [List.mem_cons, List.not_mem_nil, or_false] at member
  rcases member with rfl | rfl | rfl
  · exact proper_silent silent
  · exact proper_address rfl (frame_addr_ptr fr bound)
  · exact proper_address rfl (frame_addr_ptr table tableBound)

theorem pf_install_ends {a : Nat} (bound : fr < nframes) (tableBound : table < nframes)
    (apart : table ≠ fr) (queue : QueueKept s) (small : (s.ipt table).refCount ≤ 1024)
    (low : vpn0 ≤ vpn) (high : vpn < 1048576) (number : vaddr2vpn a = vpn) :
    Ends (pfInstall pid a (frameNum2ptr table) (frameNum2ptr fr) s)
      (fun _ final => Filled s final fr table pid vpn ∧ AddsProper s final ∧ QueueKept final)
      (Clean s) := by
  have space := Config.frameSpace
  have frame := frame_addr_ptr fr bound
  let numbered : St := { s with trace := .faddr2frameNum (frameNum2ptr fr) :: s.trace }
  have numberedAdds : AddsProper s numbered := adds_proper_one _ (proper_address rfl frame) rfl
  unfold pfInstall
  rw [bind_ok (faddr_to_frame_num_ok _ _), bind_ok (get_bs_info_ok number low high)]
  simp only []
  apply ends_bind (ends_stop (read_bs_ends (s := numbered) frame) fun _ _ =>
    clean_trans numberedAdds)
  · intro status read _ outcome
    rcases outcome with ⟨failed, adds⟩ | ⟨worked, storeLow, storeHigh, _, same⟩
    · rw [if_pos failed]
      exact ⟨adds_proper_trans numberedAdds adds, by simp⟩
    · have notFailed : status ≠ sysErr := by
        rw [worked]
        decide
      rw [frame_ptr_page fr bound] at same
      have readAdds : AddsProper numbered read :=
        adds_proper_one _ (proper_address rfl frame) (by rw [same])
      have readSmall : (read.ipt table).refCount ≤ 1024 := by
        rw [same]
        exact small
      have word : read.mem (frame0 + table) (vpn % 1024) =
          s.mem (frame0 + table) (vpn % 1024) := by
        rw [same]
        exact if_neg (by omega)
      obtain ⟨trace, ran, adds⟩ := map_page_ok bound tableBound readSmall number
        (.hookPfault pid a (vaddr2vpn a) (frameNumOf (frameNum2ptr fr) + frame0)) rfl
      rw [if_neg notFailed, ran]
      have fits : frame0 + fr < 1048576 := by
        rw [frame0]
        omega
      refine ⟨⟨storeLow, storeHigh,
        setBase (setPres (read.mem (frame0 + table) (vpn % 1024)) true) (frame0 + fr), ?_,
        base_set_base _ _ fits, ?_, ?_, ?_⟩,
        adds_proper_trans numberedAdds (adds_proper_trans readAdds adds), ?_⟩
      · simp
      · simp [word]
      · simp [word]
      · rw [same]
        rfl
      · have readQueue : QueueKept read := queue_of_view queue (by rw [same]; rfl)
        have counted := queue_of_count readQueue table ((read.ipt table).refCount + 1)
        exact queue_of_view counted rfl

end Install

theorem new_frame_counts {type : FrameStatus} {owner number : Int}
    (taken : NewFrame s final fr type owner number) (x : Nat) :
    (final.ipt x).refCount ≤ (s.ipt x).refCount := by
  have counts : ∀ {left right : Frame}, core left = core right → left.refCount = right.refCount :=
    fun same => congrArg (fun view => view.2.2.2) same
  have here : x = fr → (final.ipt x).refCount = 0 := by
    rintro rfl
    exact counts (new_frame_core taken)
  by_cases new : x = fr
  · rw [here new]
    omega
  · cases taken with
    | unused chosen looked free inited =>
        rw [counts (inited_other inited new), counts (looked.frames x)]
    | evicted chosen gone owner page d table looked picks mapping out inited =>
        rw [counts (inited_other inited new), out.ipt, ← counts (looked.frames x)]
        by_cases isTable : x = table
        · subst isTable
          by_cases last : (chosen.ipt x).refCount = 1
          · rw [drop_page_last last]
            simp [releaseTable, clearedFrame]
          · rw [drop_page_more last]
            simp [unmapPage]
        · rw [drop_page_ipt isTable]

/-- A page is allocated in a frame that is no table. -/
theorem new_frame_was {type : FrameStatus} {owner number : Int}
    (taken : NewFrame s final fr type owner number) :
    (s.ipt fr).status = .notUsed ∨ (s.ipt fr).status = .page := by
  cases taken with
  | unused chosen looked free inited => exact Or.inl free
  | evicted chosen gone owner page d table looked picks mapping out inited =>
      exact Or.inr ((core_status (looked.frames fr)).symm.trans mapping.page.2.1)

theorem table_for_frame (tables : Tables s empty []) {linked : St} (live : HeapLive s pid)
    (own : Private pdi) (made : TableFor s linked pid pdi table) :
    table < nframes ∧ (linked.ipt table).status = .ptab ∧ (linked.ipt table).refCount ≤ 1024 := by
  obtain ⟨linkedTables, present, address, ker⟩ := table_for_tables tables live own made
  have linkedLive : HeapLive linked pid := by
    unfold HeapLive Live
    rw [ker]
    exact live
  obtain ⟨t, isTable, tableAddress⟩ := linkedTables.tables pid pdi linkedLive own present
  have same : t = table := by omega
  subst same
  refine ⟨isTable.1, isTable.2.1, ?_⟩
  rw [(linkedTables.counts pid pdi t linkedLive own present address).1]
  exact count_bound

theorem table_for_leaves (tables : Tables s empty []) {linked : St} (fits : Fits s pid pdi)
    (made : TableFor s linked pid pdi table) : ¬Exhausted linked := by
  cases made with
  | found same _ _ =>
      rw [same]
      exact fits.1
  | made opened d words entry absent dirBound directory bound taken blank present address same =>
      have left := new_frame_leaves tables (fits.2 absent) taken
      rw [same]
      exact left

/-- The whole service of a page fault on a page of the heap. -/
theorem pf_service_ends {a : Nat} (tables : Tables s empty []) (queue : QueueKept s)
    (heapPage : HeapPage s pid vpn) (bound : a < 4294967296) (number : vaddr2vpn a = vpn)
    (fits : Fits s pid (vpn / 1024)) :
    Ends (pfService pid a s)
      (fun _ final => (∃ fr table, Served s final pid vpn fr table) ∧ QueueKept final)
      (Clean s) := by
  obtain ⟨live, low, high⟩ := heapPage
  have own := private_of_heap tables live low high
  have small : vpn < 1048576 := by
    have heap := tables.heaps pid live
    rw [vpn0] at high
    omega
  have index : vaddr2pdi a = vpn / 1024 := by
    rw [page_directory_index a bound, ← number, page_number]
    omega
  unfold pfService
  rw [get_bind, index, number]
  apply ends_bind (pf_table_ends tables queue live own fun _ => fits.1)
  rintro pt linked _ ⟨table, tableBound, rfl, made, linkedAdds, linkedQueue⟩
  obtain ⟨linkedTables, _, _, _⟩ := table_for_tables tables live own made
  obtain ⟨_, isTable, count⟩ := table_for_frame tables live own made
  apply ends_bind (ends_stop (get_new_frame_ends .page pid vpn linkedTables linkedQueue
    (table_for_leaves tables fits made)) fun _ _ => clean_trans linkedAdds)
  rintro faddr fetched ran ⟨fr, frBound, rfl, taken⟩
  have fetchedQueue := get_new_frame_queue linkedQueue ran
  have fetchedAdds := adds_proper_trans linkedAdds (new_frame_adds taken)
  have apart : table ≠ fr := by
    rintro rfl
    rcases new_frame_was taken with free | page
    · rw [isTable] at free
      cases free
    · rw [isTable] at page
      cases page
  have fetchedCount : (fetched.ipt table).refCount ≤ 1024 :=
    Nat.le_trans (new_frame_counts taken table) count
  apply ends_weaken (pf_install_ends frBound tableBound apart fetchedQueue fetchedCount low small
    number)
  · rintro _ final _ ⟨filled, adds, kept⟩
    exact ⟨⟨fr, table, frBound, ⟨linked, fetched, made, taken, filled⟩,
      adds_proper_trans fetchedAdds adds⟩, kept⟩
  · intro stop stopped clean
    exact clean_trans fetchedAdds clean

end Xinu.Space.Service
