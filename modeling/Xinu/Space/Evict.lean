import Xinu.Replacement.ModifyBits
import Xinu.Space.Transfers
import Xinu.Space.Unmap

/-!
# What an eviction does

`evictFrame` on a frame whose page is mapped: the page is taken out of its table,
a table without a page is freed, and the page is written when one of the two
marks is set. Everything else stays as it was.
-/

namespace Xinu.Space.Evict

open Xinu.Lib.Counting Xinu.Kernel.State Xinu.Kernel.Entry Xinu.Lib.StateError
open Xinu.Paging.Address Xinu.Paging.BackingStore Xinu.Paging.Ipt
open Xinu.Replacement.Fifo Xinu.Replacement.ModifyBits
open Xinu.Space.Agreement Xinu.Space.Unmap Xinu.Space.Transfers

set_option autoImplicit false

variable [Config]

/-- Where a page is mapped: the frames of its process's directory and of the page table. -/
structure Mapping (s : St) (fr : Nat) (pid : Int) (vpn d table : Nat) : Prop where
  page : IsPage s fr pid vpn
  heapPage : HeapPage s pid vpn
  maps : Maps s pid vpn fr
  dirBound : d < nframes
  directory : (s.ker.proctab pid).pd = frameNum2ptr d
  dirStatus : (s.ipt d).status = .pdir
  isTable : IsTable s table pid
  address : base (pdeOf s pid (vpn / 1024)) = frame0 + table
  count : (s.ipt table).refCount = presCount (s.mem (frame0 + table))
  positive : 1 ≤ (s.ipt table).refCount

variable {s final : St} {limbo fr d table vpn pdi : Nat} {fresh : List Nat} {pid : Int}

theorem mapping_of_page (tables : Tables s limbo fresh) (bound : fr < nframes)
    (status : (s.ipt fr).status = .page) (notLimbo : fr ≠ limbo) :
    ∃ pid vpn d table, Mapping s fr pid vpn d table := by
  obtain ⟨pid, vpn, page, ⟨live, low, high⟩, maps⟩ := tables.mapped fr bound status notLimbo
  have own := private_of_heap tables live low high
  obtain ⟨d, dirBound, directory, dirStatus, _⟩ := tables.dirs pid live.1
  obtain ⟨table, isTable, address⟩ := tables.tables pid (vpn / 1024) live own maps.1
  obtain ⟨count, _⟩ := tables.counts pid (vpn / 1024) table live own maps.1 address
  refine ⟨pid, vpn, d, table, page, ⟨live, low, high⟩, maps, dirBound, directory, dirStatus,
    isTable, address, count, ?_⟩
  have notNone : presCount (s.mem (frame0 + table)) ≠ 0 := by
    intro zero
    have absent := count_zero.mp zero (vpn % 1024) (Nat.mod_lt _ (by decide))
    have present := maps.2.1
    rw [pte_word address, absent] at present
    cases present
  omega

theorem mapping_vpn (tables : Tables s limbo fresh) (mapping : Mapping s fr pid vpn d table) :
    vpn0 ≤ vpn ∧ vpn < 5696 := by
  obtain ⟨live, low, high⟩ := mapping.heapPage
  have heap := tables.heaps pid live
  refine ⟨low, ?_⟩
  rw [vpn0] at high
  omega

theorem table_ne_dir (mapping : Mapping s fr pid vpn d table) : table ≠ d := by
  rintro rfl
  have status := mapping.isTable.2.1
  rw [mapping.dirStatus] at status
  cases status

/-- A reference count that falls to zero frees the table. -/
def dropCount (s : St) (d pdi table : Nat) : St :=
  let counted := setFrame s table
    { s.ipt table with refCount := (s.ipt table).refCount - 1 }
  if (s.ipt table).refCount = 1 then releaseTable counted d pdi table else counted

theorem dec_ref_count_ok (pdi : Nat) (tableBound : table < nframes) (status : (s.ipt table).status = .ptab)
    (positive : 1 ≤ (s.ipt table).refCount) (small : (s.ipt table).refCount ≤ 1024)
    (dirBound : d < nframes) :
    ∃ trace, decRefCount (frameNum2ptr table) (frameNum2ptr d) pdi s =
        .ok () { dropCount s d pdi table with trace := trace } ∧
      AddsProper s { dropCount s d pdi table with trace := trace } := by
  let numbered : St := { s with trace := .faddr2frameNum (frameNum2ptr table) :: s.trace }
  let counted : St := setFrame numbered table
    { s.ipt table with refCount := (s.ipt table).refCount - 1 }
  have proper : Proper (.faddr2frameNum (frameNum2ptr table)) := by
    simpa [Proper, frameAddress] using frame_addr_ptr table tableBound
  have less : ((s.ipt table).refCount + word32 - 1) % word32 = (s.ipt table).refCount - 1 := by
    rw [word32]
    omega
  unfold decRefCount dropCount
  rw [bind_ok (faddr_to_frame_num_ok _ _), frame_num_of_ptr table tableBound,
    bind_ok (modify_frame_ok tableBound _)]
  simp only [less]
  rw [bind_ok (read_frame_ok tableBound)]
  simp only [set_frame_self]
  by_cases last : (s.ipt table).refCount = 1
  · have zero : (s.ipt table).refCount - 1 = 0 := by omega
    rw [if_pos zero, if_pos last]
    have notPage : (counted.ipt table).status ≠ .page := by
      simp [counted, status]
    have freed := free_frame_plain (s := counted) tableBound (Or.inr notPage)
    have cleared := set_entry_ok (frameNum2ptr d) pdi (fun entry => setPres entry false)
      (setFrame counted table clearedFrame)
    rw [frame_ptr_page d dirBound] at cleared
    rw [bind_ok freed, bind_ok cleared]
    refine ⟨.hookPtableDelete (table + frame0) :: .faddr2frameNum (frameNum2ptr table) :: s.trace,
      ?_, ?_⟩
    · have entry : (setFrame counted table clearedFrame).entry (frameNum2ptr d) pdi =
          s.mem (frame0 + d) pdi := by
        rw [St.entry, frame_ptr_page d dirBound]
        rfl
      rw [entry]
      rfl
    · refine ⟨[.hookPtableDelete (table + frame0), .faddr2frameNum (frameNum2ptr table)], rfl, ?_⟩
      simp [Proper, frameAddress, frame_addr_ptr table tableBound]
  · have more : ¬(s.ipt table).refCount - 1 = 0 := by omega
    rw [if_neg more, if_neg last]
    exact ⟨_, rfl, adds_proper_one _ proper rfl⟩

/-- The page tables after the page at `pti` has been taken out. -/
def dropPage (s : St) (d pdi table pti : Nat) : St :=
  if (s.ipt table).refCount = 1 then releaseTable (unmapPage s table pti) d pdi table
  else unmapPage s table pti

omit [Config] in
theorem drop_page_count (pti : Nat) :
    dropCount (s.setWord (frame0 + table) pti (setPres (s.mem (frame0 + table) pti) false))
      d pdi table = dropPage s d pdi table pti := rfl

omit [Config] in
theorem drop_page_last (last : (s.ipt table).refCount = 1) (pti : Nat) :
    dropPage s d pdi table pti = releaseTable (unmapPage s table pti) d pdi table := if_pos last

omit [Config] in
theorem drop_page_more (more : (s.ipt table).refCount ≠ 1) (pti : Nat) :
    dropPage s d pdi table pti = unmapPage s table pti := if_neg more

theorem drop_page_tables (tables : Tables s empty fresh) (mapping : Mapping s fr pid vpn d table) :
    Tables (dropPage s d (vpn / 1024) table (vpn % 1024)) fr fresh := by
  obtain ⟨live, low, high⟩ := mapping.heapPage
  have own := private_of_heap tables live low high
  have unmapped := unmap_page_tables tables mapping.page mapping.heapPage mapping.maps mapping.address
  have pde := unmap_page_pde tables mapping.isTable.2.1 live.1 (vpn / 1024) (vpn % 1024)
  by_cases last : (s.ipt table).refCount = 1
  · have zero : ((unmapPage s table (vpn % 1024)).ipt table).refCount = 0 := by
      simp [unmapPage, last]
    rw [drop_page_last last]
    apply release_table_tables unmapped live own _ _ mapping.dirBound mapping.directory zero
    · rw [pde]
      exact mapping.maps.1
    · rw [pde]
      exact mapping.address
  · rw [drop_page_more last]
    apply tables_settled unmapped
    have positive := mapping.positive
    simp only [unmapPage, set_frame_self]
    omega

omit [Config] in
/-- Nothing else changes. -/
theorem drop_page_ker (pti : Nat) : (dropPage s d pdi table pti).ker = s.ker := by
  by_cases last : (s.ipt table).refCount = 1
  · rw [drop_page_last last]
    rfl
  · rw [drop_page_more last]
    rfl

omit [Config] in
theorem drop_page_ipt {x : Nat} (different : x ≠ table) (pti : Nat) :
    (dropPage s d pdi table pti).ipt x = s.ipt x := by
  by_cases last : (s.ipt table).refCount = 1
  · rw [drop_page_last last, release_table_other different, unmap_page_other different]
  · rw [drop_page_more last, unmap_page_other different]

omit [Config] in
theorem drop_page_heads (s : St) (d pdi table pti : Nat) :
    (dropPage s d pdi table pti).flistHead = s.flistHead ∧
      (dropPage s d pdi table pti).flistTail = s.flistTail ∧
      (dropPage s d pdi table pti).disk = s.disk := by
  by_cases last : (s.ipt table).refCount = 1
  · rw [drop_page_last last]
    exact ⟨rfl, rfl, rfl⟩
  · rw [drop_page_more last]
    exact ⟨rfl, rfl, rfl⟩

omit [Config] in
/-- Only present bits change, in the entry of the page and in that of its table. -/
theorem drop_page_mem (apart : table ≠ d) (pti p i : Nat) :
    (dropPage s d pdi table pti).mem p i =
      if p = frame0 + table ∧ i = pti ∨ p = frame0 + d ∧ i = pdi ∧ (s.ipt table).refCount = 1 then
        setPres (s.mem p i) false
      else s.mem p i := by
  have unmapped : (unmapPage s table pti).mem p i =
      if p = frame0 + table ∧ i = pti then setPres (s.mem p i) false else s.mem p i := by
    simp only [unmapPage, set_word_mem, set_frame_mem]
    split
    · rename_i here
      rw [here.1, here.2]
    · rfl
  by_cases last : (s.ipt table).refCount = 1
  · rw [drop_page_last last]
    by_cases entry : p = frame0 + d ∧ i = pdi
    · have notPage : ¬(p = frame0 + table ∧ i = pti) := by omega
      have untouched : (unmapPage s table pti).mem p i = s.mem p i := by
        rw [unmapped, if_neg notPage]
      have released : (releaseTable (unmapPage s table pti) d pdi table).mem p i =
          setPres ((unmapPage s table pti).mem p i) false := by
        simp only [releaseTable, set_word_mem, set_frame_mem]
        rw [if_pos entry, entry.1, entry.2]
      rw [released, untouched, if_pos (Or.inr ⟨entry.1, entry.2, last⟩)]
    · have kept := @release_table_word (unmapPage s table pti) _ table _ p i entry
      have same : (p = frame0 + table ∧ i = pti ∨
          p = frame0 + d ∧ i = pdi ∧ (s.ipt table).refCount = 1) ↔ p = frame0 + table ∧ i = pti := by
        tauto
      simp only [kept, unmapped, same]
  · rw [drop_page_more last, unmapped]
    simp only [last, and_false, or_false]

omit [Config] in
theorem drop_page_frame {x : Nat} (apart : table ≠ d) (notTable : x ≠ table) (notDir : x ≠ d)
    (pti i : Nat) : (dropPage s d pdi table pti).mem (frame0 + x) i = s.mem (frame0 + x) i := by
  rw [drop_page_mem apart, if_neg (by omega)]

section EvictFrame

omit [Config] in
theorem drop_count_trace (trace trace' : List Effect) :
    { dropCount { s with trace := trace } d pdi table with trace := trace' } =
      { dropCount s d pdi table with trace := trace' } := by
  unfold dropCount
  by_cases last : (s.ipt table).refCount = 1
  · simp only [last, if_true]
    rfl
  · simp only [last, if_false]
    rfl

theorem evict_begin_ok (tables : Tables s limbo fresh) (mapping : Mapping s fr pid vpn d table) :
    ∃ trace, evictBegin fr s =
        .ok { fr := fr, vp := vpn, pid := pid, a := pageAddr vpn, pt := frameNum2ptr table,
              pti := vpn % 1024 }
          { dropPage s d (vpn / 1024) table (vpn % 1024) with trace := trace } ∧
      AddsProper s { dropPage s d (vpn / 1024) table (vpn % 1024) with trace := trace } := by
  obtain ⟨bound, _, owner, number⟩ := mapping.page
  obtain ⟨tableBound, tableStatus, _⟩ := mapping.isTable
  have small : vpn < 1048576 := by
    have heap := mapping_vpn tables mapping
    omega
  have pt : pdi2pt s (frameNum2ptr d) (vpn / 1024) = frameNum2ptr table := by
    have address := mapping.address
    rw [pdeOf, mapping.directory] at address
    rw [pdi2pt, address, frame_ptr_base table tableBound]
  let cleared := s.setWord (frame0 + table) (vpn % 1024)
    (setPres (s.mem (frame0 + table) (vpn % 1024)) false)
  have counted : ∀ trace, AddsProper s { cleared with trace := trace } → ∃ trace',
      (do
        decRefCount (frameNum2ptr table) (frameNum2ptr d) (vpn / 1024)
        pure
          { fr := fr, vp := vpn, pid := pid, a := pageAddr vpn, pt := frameNum2ptr table,
            pti := vpn % 1024 } : Call Evicted) { cleared with trace := trace } =
        .ok { fr := fr, vp := vpn, pid := pid, a := pageAddr vpn, pt := frameNum2ptr table,
              pti := vpn % 1024 }
          { dropPage s d (vpn / 1024) table (vpn % 1024) with trace := trace' } ∧
      AddsProper s { dropPage s d (vpn / 1024) table (vpn % 1024) with trace := trace' } := by
    intro trace adds
    have limit : (s.ipt table).refCount ≤ 1024 := by
      rw [mapping.count]
      exact count_bound
    obtain ⟨trace', ran, more⟩ := dec_ref_count_ok (s := { cleared with trace := trace })
      (vpn / 1024) tableBound tableStatus mapping.positive limit mapping.dirBound
    rw [drop_count_trace, drop_page_count] at ran more
    exact ⟨trace', bind_ok ran _, adds_proper_trans adds more⟩
  unfold evictBegin
  rw [bind_ok (read_frame_ok bound), get_bind]
  simp only [owner, number, mapping.directory, page_addr_pdi vpn small, page_addr_pti vpn small, pt]
  have clearRan := set_entry_ok (frameNum2ptr table) (vpn % 1024)
    (fun entry => setPres entry false) s
  rw [St.entry, frame_ptr_page table tableBound] at clearRan
  rw [bind_ok clearRan]
  split
  · have logRan : log (.invalPage (pageAddr vpn)) cleared =
        .ok () { cleared with trace := .invalPage (pageAddr vpn) :: s.trace } := rfl
    rw [bind_ok logRan]
    apply counted
    exact adds_proper_one (.invalPage (pageAddr vpn)) (by simp [Proper, frameAddress]) rfl
  · exact counted s.trace (adds_proper_refl rfl)

/-- The page has been written since it was installed. -/
def Modified (s : St) (table pti : Nat) : Prop :=
  dirty (s.mem (frame0 + table) pti) = true ∨ avail (s.mem (frame0 + table) pti) = 1

/-- What an eviction leaves behind. -/
structure EvictedFrame (s final : St) (fr : Nat) (pid : Int) (vpn d table : Nat) : Prop where
  ker : final.ker = s.ker
  ipt : final.ipt = (dropPage s d (vpn / 1024) table (vpn % 1024)).ipt
  heads : final.flistHead = s.flistHead ∧ final.flistTail = s.flistTail
  mem : ∀ p i, ¬(p = frame0 + table ∧ i = vpn % 1024) →
    final.mem p i = (dropPage s d (vpn / 1024) table (vpn % 1024)).mem p i
  entry : pres (final.mem (frame0 + table) (vpn % 1024)) = false ∧
    base (final.mem (frame0 + table) (vpn % 1024)) = base (s.mem (frame0 + table) (vpn % 1024))
  disk : ¬Modified s table (vpn % 1024) ∧ final.disk = s.disk ∨
    Modified s table (vpn % 1024) ∧
      minId ≤ storeOf s.ker pid vpn ∧ storeOf s.ker pid vpn ≤ maxId ∧
      final.disk = writeBack s (frame0 + fr) (storeOf s.ker pid vpn) (storePage vpn)
  adds : AddsProper s final

/-- The write of a page and the two assignments after it. -/
theorem evict_write_ends {e : Evicted} (frBound : e.fr < nframes) (tableBound : table < nframes)
    (low : vpn0 ≤ vpn) (high : vpn < 1048576) (address : e.a = pageAddr vpn)
    (entry : e.pt = frameNum2ptr table) :
    Ends (evictWrite e s)
      (fun _ final => final.ker = s.ker ∧ final.ipt = s.ipt ∧
        (final.flistHead = s.flistHead ∧ final.flistTail = s.flistTail) ∧
        (∀ p i, final.mem p i = if p = frame0 + table ∧ i = e.pti then
          setAvail (setDirty (s.mem p i) false) 0 else s.mem p i) ∧
        minId ≤ storeOf s.ker e.pid vpn ∧ storeOf s.ker e.pid vpn ≤ maxId ∧
        final.disk = writeBack s (frame0 + e.fr) (storeOf s.ker e.pid vpn) (storePage vpn) ∧
        AddsProper s final)
      (Clean s) := by
  have number : vaddr2vpn e.a = vpn := by
    rw [address, page_number, page_addr vpn high]
    omega
  unfold evictWrite
  rw [bind_ok (get_bs_info_ok number low high)]
  simp only []
  apply ends_bind (write_bs_ends (frameNum2ptr e.fr))
  intro status written _ outcome
  rcases outcome with ⟨failed, adds⟩ | ⟨worked, low, high, _, rfl⟩
  · rw [if_pos failed]
    exact ⟨adds, by simp⟩
  · have notFailed : status ≠ sysErr := by
      rw [worked]
      decide
    rw [if_neg notFailed, bind_ok (set_entry_ok _ _ _ _), entry, frame_ptr_page table tableBound,
      set_entry_ok, frame_ptr_page table tableBound, entry_set_word, frame_ptr_page table tableBound,
      if_pos ⟨rfl, rfl⟩, set_word_set_word]
    refine ⟨rfl, rfl, ⟨rfl, rfl⟩, ?_, low, high, ?_, ?_⟩
    · intro p i
      rw [set_word_mem, St.entry, frame_ptr_page table tableBound]
      split
      · rename_i here
        rw [here.1, here.2]
      · rfl
    · rw [set_word_disk, frame_ptr_page e.fr frBound]
    · exact adds_proper_one _ (by simp [Proper, frameAddress]) rfl

theorem evict_frame_ends (tables : Tables s limbo fresh) (mapping : Mapping s fr pid vpn d table) :
    Ends (evictFrame fr s) (fun _ final => EvictedFrame s final fr pid vpn d table) (Clean s) := by
  obtain ⟨trace, beginRan, begunAdds⟩ := evict_begin_ok tables mapping
  obtain ⟨low, high⟩ := mapping_vpn tables mapping
  have apart := table_ne_dir mapping
  have tableBound := mapping.isTable.1
  have frTable : fr ≠ table := by
    rintro rfl
    have status := mapping.isTable.2.1
    rw [mapping.page.2.1] at status
    cases status
  have frDir : fr ≠ d := by
    rintro rfl
    have status := mapping.dirStatus
    rw [mapping.page.2.1] at status
    cases status
  let dropped := dropPage s d (vpn / 1024) table (vpn % 1024)
  have droppedKer : dropped.ker = s.ker := drop_page_ker _
  obtain ⟨droppedHead, droppedTail, droppedDisk⟩ :=
    drop_page_heads s d (vpn / 1024) table (vpn % 1024)
  have entry : dropped.mem (frame0 + table) (vpn % 1024) =
      setPres (s.mem (frame0 + table) (vpn % 1024)) false := by
    rw [drop_page_mem apart, if_pos (Or.inl ⟨rfl, rfl⟩)]
  let e : Evicted :=
    { fr := fr, vp := vpn, pid := pid, a := pageAddr vpn, pt := frameNum2ptr table,
      pti := vpn % 1024 }
  have test : needsWrite { dropped with trace := trace } e = true ↔
      Modified s table (vpn % 1024) := by
    have word : St.entry { dropped with trace := trace } e.pt e.pti =
        setPres (s.mem (frame0 + table) (vpn % 1024)) false := by
      rw [St.entry, frame_ptr_page table tableBound]
      exact entry
    unfold needsWrite Modified
    rw [word]
    simp
  -- the hook records no address
  have hook : ∀ t : St, AddsProper s t →
      AddsProper s { t with trace := .hookPswapOut e.pid e.vp (fr + frame0) :: t.trace } :=
    fun t adds => adds_proper_trans adds (adds_proper_one _ (by simp [Proper, frameAddress]) rfl)
  unfold evictFrame
  rw [bind_ok beginRan, get_bind]
  by_cases modified : Modified s table (vpn % 1024)
  · rw [if_pos (test.mpr modified)]
    have write := evict_write_ends (s := { dropped with trace := trace }) (e := e) mapping.page.1
      tableBound low (by omega) rfl rfl
    apply ends_bind (ends_stop write fun _ _ => clean_trans begunAdds)
    · rintro _ written _ ⟨ker, ipt, heads, mem, storeLow, storeHigh, disk, adds⟩
      have sameKer : St.ker { dropped with trace := trace } = s.ker := droppedKer
      rw [sameKer] at storeLow storeHigh disk
      refine ⟨ker.trans sameKer, ipt, ⟨heads.1.trans droppedHead, heads.2.trans droppedTail⟩, ?_,
        ?_, Or.inr ⟨modified, storeLow, storeHigh, ?_⟩, hook _ (adds_proper_trans begunAdds adds)⟩
      · intro p i other
        exact (mem p i).trans (if_neg other)
      · have now : written.mem (frame0 + table) (vpn % 1024) =
            setAvail (setDirty (dropped.mem (frame0 + table) (vpn % 1024)) false) 0 :=
          (mem _ _).trans (if_pos ⟨rfl, rfl⟩)
        change pres (written.mem _ _) = false ∧ base (written.mem _ _) = _
        rw [now, entry]
        simp
      · change written.disk = _
        rw [disk]
        have source : dropped.mem (frame0 + fr) = s.mem (frame0 + fr) :=
          funext fun i => drop_page_frame apart frTable frDir _ i
        funext block word
        simp only [writeBack]
        split
        · exact congrFun source _
        · exact congrFun (congrFun droppedDisk _) _
  · rw [if_neg fun needs => modified (test.mp needs)]
    refine ⟨droppedKer, rfl, ⟨droppedHead, droppedTail⟩, fun _ _ _ => rfl, ?_,
      Or.inl ⟨modified, droppedDisk⟩, hook _ begunAdds⟩
    change pres (dropped.mem _ _) = false ∧ base (dropped.mem _ _) = _
    rw [entry]
    simp

end EvictFrame

end Xinu.Space.Evict
