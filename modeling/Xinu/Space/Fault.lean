import Xinu.Space.Allocate
import Xinu.Space.Link

/-!
# What a page fault does

`pf_handler` on a page of the heap, stage by stage: the page table is found or
made, a frame is allocated for the page, the page is read into it and mapped. The
table that was found can be lost in between: the allocation may evict the last page
it has, and then `pf_handler` fills a table that is no longer in the directory.
-/

namespace Xinu.Space.Fault

open Xinu.Kernel.State Xinu.Kernel.Entry Xinu.Lib.StateError
open Xinu.Paging.Address Xinu.Paging.BackingStore Xinu.Paging.Ipt Xinu.Paging.Handler
open Xinu.Replacement.Fifo Xinu.Replacement.Exhaustion
open Xinu.Space.Agreement Xinu.Space.Unmap Xinu.Space.Link Xinu.Space.Transfers
open Xinu.Space.Evict Xinu.Space.Choice Xinu.Space.Allocate

set_option autoImplicit false

variable [Config]

/-- The next allocation evicts the last page of the table at a directory entry. -/
def LosesTable (s : St) (pid : Int) (pdi : Nat) : Prop :=
  ∃ fr vpn table, Picks s fr ∧ IsPage s fr pid vpn ∧ vpn / 1024 = pdi ∧
    pres (pdeOf s pid pdi) = true ∧ base (pdeOf s pid pdi) = frame0 + table ∧
    (s.ipt table).refCount = 1

/-- How `pf_handler` comes to the page table of a page. -/
inductive TableFor (s linked : St) (pid : Int) (pdi table : Nat) : Prop
  | found (same : linked = s) (present : pres (pdeOf s pid pdi) = true)
      (address : base (pdeOf s pid pdi) = frame0 + table)
  | made (opened : St) (d : Nat) (words : Nat → Word) (entry : Word)
      (absent : pres (pdeOf s pid pdi) = false) (dirBound : d < nframes)
      (directory : (s.ker.proctab pid).pd = frameNum2ptr d) (bound : table < nframes)
      (taken : NewFrame s opened table .ptab pid noVpn)
      (blank : ∀ i, pres (words i) = false ∧ dirty (words i) = false ∧ avail (words i) = 0)
      (present : pres entry = true) (address : base entry = frame0 + table)
      (same : linked =
        { linkTable opened d pdi table words entry with trace := linked.trace })

/-- How a page comes into its frame and into its table. -/
structure Filled (s final : St) (fr table : Nat) (pid : Int) (vpn : Nat) : Prop where
  storeLow : minId ≤ storeOf s.ker pid vpn
  storeHigh : storeOf s.ker pid vpn ≤ maxId
  state : ∃ entry, pres entry = true ∧ base entry = frame0 + fr ∧
    dirty entry = dirty (s.mem (frame0 + table) (vpn % 1024)) ∧
    avail entry = avail (s.mem (frame0 + table) (vpn % 1024)) ∧
    final = { installPage (s.setPage (frame0 + fr)
        (diskPage s (storeOf s.ker pid vpn) (storePage vpn))) table (vpn % 1024) entry with
      trace := final.trace }

/-- A page fault on a page of the heap that was served. -/
structure Served (s final : St) (pid : Int) (vpn fr table : Nat) : Prop where
  bound : fr < nframes
  stages : ∃ linked fetched, TableFor s linked pid (vpn / 1024) table ∧
    NewFrame linked fetched fr .page pid vpn ∧ Filled fetched final fr table pid vpn
  adds : AddsProper s final

variable {s final : St} {fr table vpn pdi : Nat} {pid : Int} {fresh : List Nat}

section Directory

/-- A directory entry survives an allocation unless its last page is evicted. -/
theorem new_frame_pde {type : FrameStatus} {owner number : Int} (tables : Tables s empty fresh)
    (live : Live s pid) (taken : NewFrame s final fr type owner number)
    (present : pres (pdeOf s pid pdi) = true) :
    pres (pdeOf final pid pdi) = true ∨ LosesTable s pid pdi := by
  cases taken with
  | unused chosen looked free inited =>
      left
      rw [pdeOf, St.entry, inited.ker, looked.ker, inited.mem, (looked.words _ _).1]
      exact present
  | evicted chosen gone owner page d table looked picks mapping out inited =>
      have chosenTables := looked_tables tables looked
      have chosenLive : Live chosen pid := by
        rw [Live, looked.ker]
        exact live
      obtain ⟨dir, dirBound, directory, notTable⟩ := dir_ne chosenTables chosenLive
        table (by rw [mapping.isTable.2.1]; decide)
      have now : pdeOf final pid pdi = (dropPage chosen d (page / 1024) table (page % 1024)).mem
          (frame0 + dir) pdi := by
        have same : (final.ker.proctab pid).pd = frameNum2ptr dir := by
          rw [inited.ker, out.ker]
          exact directory
        rw [pde_word dirBound same, inited.mem, out.mem]
        omega
      have before : pres (chosen.mem (frame0 + dir) pdi) = true := by
        rw [(looked.words _ _).1]
        rw [looked.ker] at directory
        rw [← pde_word dirBound directory]
        exact present
      rw [now, drop_page_mem (table_ne_dir mapping)]
      split
      · rename_i dropped
        right
        rcases dropped with ⟨equal, _⟩ | ⟨equal, rfl, last⟩
        · omega
        · have sameDir : dir = d := by omega
          subst sameDir
          have isOwner : pid = owner := dir_owner chosenTables mapping.heapPage.1 chosenLive dirBound
            mapping.directory directory
          subst isOwner
          have frameSame := looked.frames fr
          have tableSame := looked.frames table
          simp only [core, Prod.mk.injEq] at frameSame tableSame
          refine ⟨fr, page, table, picks, ⟨mapping.page.1, ?_, ?_, ?_⟩, rfl, present, ?_, ?_⟩
          · exact frameSame.1.symm.trans mapping.page.2.1
          · exact frameSame.2.1.symm.trans mapping.page.2.2.1
          · exact frameSame.2.2.1.symm.trans mapping.page.2.2.2
          · have address := mapping.address
            rw [pdeOf, St.entry, looked.ker, (looked.words _ _).2.1] at address
            exact address
          · exact tableSame.2.2.2.symm.trans last
      · left
        exact before

omit [Config] in
theorem unreferenced_inited {type : FrameStatus} {owner number : Int}
    (unreferenced : Unreferenced s fr) (inited : Inited s final fr type owner number) :
    Unreferenced final fr := by
  have live : ∀ q, Live final q ↔ Live s q := fun q => by rw [Live, Live, inited.ker]
  have heapLive : ∀ q, HeapLive final q ↔ HeapLive s q := fun q => by
    rw [HeapLive, HeapLive, live, inited.ker]
  have pde : ∀ q k, pdeOf final q k = pdeOf s q k := fun q k => by
    rw [pdeOf, pdeOf, St.entry, St.entry, inited.ker, inited.mem]
  refine ⟨?_, ?_⟩
  · intro q alive
    rw [inited.ker]
    exact unreferenced.noDir q ((live q).mp alive)
  · intro q k alive own present
    rw [pde] at present ⊢
    exact unreferenced.noTable q k ((heapLive q).mp alive) own present

/-- Nothing leads to a frame that was just allocated. -/
theorem new_frame_unreferenced {type : FrameStatus} {owner number : Int}
    (tables : Tables s empty fresh) (bound : fr < nframes)
    (taken : NewFrame s final fr type owner number) : Unreferenced final fr := by
  cases taken with
  | unused chosen looked free inited =>
      have status : (chosen.ipt fr).status = .notUsed := (core_status (looked.frames fr)).trans free
      exact unreferenced_inited (unreferenced_of_status (looked_tables tables looked) bound
        (Or.inl status)) inited
  | evicted chosen gone owner page d table looked picks mapping out inited =>
      exact unreferenced_inited (unreferenced_of_status
        (evicted_tables (looked_tables tables looked) mapping out) bound
        (Or.inr (evicted_page mapping out))) inited

end Directory

section Tables

theorem tables_trace {limbo : Nat} (tables : Tables s limbo fresh) (trace : List Effect) :
    Tables { s with trace := trace } limbo fresh :=
  tables_congr tables ⟨fun _ => rfl, fun _ => rfl, fun _ _ _ _ => ⟨rfl, rfl⟩⟩

theorem new_frame_live {type : FrameStatus} {owner number : Int}
    (taken : NewFrame s final fr type owner number) :
    (Live final pid ↔ Live s pid) ∧ (HeapLive final pid ↔ HeapLive s pid) ∧
      ∀ vpn, HeapPage final pid vpn ↔ HeapPage s pid vpn := by
  have ker := new_frame_ker taken
  unfold HeapPage HeapLive Live
  rw [ker]
  exact ⟨Iff.rfl, Iff.rfl, fun _ => Iff.rfl⟩

theorem new_frame_pde_words {type : FrameStatus} {owner number : Int}
    (taken : NewFrame s final fr type owner number) :
    base (pdeOf final pid pdi) = base (pdeOf s pid pdi) ∧
      (pres (pdeOf final pid pdi) = true → pres (pdeOf s pid pdi) = true) := by
  rw [pdeOf, pdeOf, St.entry, St.entry, new_frame_ker taken]
  exact new_frame_words taken _ _

theorem new_frame_pte_words {type : FrameStatus} {owner number : Int} {pti : Nat}
    (taken : NewFrame s final fr type owner number)
    (absent : pres (pteOf s pid pdi pti) = false) : pres (pteOf final pid pdi pti) = false := by
  rw [pteOf, (new_frame_pde_words taken).1]
  by_contra present
  have before := (new_frame_words taken _ _).2 (by simpa using present)
  rw [pteOf] at absent
  rw [absent] at before
  cases before

/-- The table for a page is in the directory, with no page or with those it had. -/
theorem table_for_tables (tables : Tables s empty []) {linked : St} (live : HeapLive s pid)
    (own : Private pdi) (made : TableFor s linked pid pdi table) :
    Tables linked empty [table] ∧ pres (pdeOf linked pid pdi) = true ∧
      base (pdeOf linked pid pdi) = frame0 + table ∧ linked.ker = s.ker := by
  cases made with
  | found same present address =>
      rw [same]
      exact ⟨tables_exempt tables table, present, address, rfl⟩
  | made opened d words entry absent dirBound directory bound taken blank present address same =>
      have openedTables := new_frame_tables tables taken
      have ker := new_frame_ker taken
      have isNew := new_frame_core taken
      simp only [core, newFrame, Prod.mk.injEq] at isNew
      have openedAbsent : pres (pdeOf opened pid pdi) = false := by
        by_contra isPresent
        have before := (new_frame_pde_words taken).2 (by simpa using isPresent)
        rw [absent] at before
        cases before
      have openedDir : (opened.ker.proctab pid).pd = frameNum2ptr d := by rw [ker, directory]
      have linkedTables := link_table_tables words entry openedTables
        ((new_frame_live taken).2.1.mpr live) own openedAbsent
        ⟨bound, isNew.1, isNew.2.1⟩ isNew.2.2.2 (new_frame_unreferenced tables bound taken)
        dirBound openedDir (fun i => (blank i).1) address
      have newEntry : pdeOf linked pid pdi = entry := by
        have same' : (linked.ker.proctab pid).pd = frameNum2ptr d := by
          rw [same]
          exact openedDir
        rw [pde_word dirBound same', same]
        exact if_pos ⟨rfl, rfl⟩
      refine ⟨?_, ?_, ?_, ?_⟩
      · rw [same]
        exact tables_trace linkedTables _
      · rw [newEntry, present]
      · rw [newEntry, address]
      · rw [same]
        exact ker

theorem table_for_absent (tables : Tables s empty []) {linked : St} (live : HeapLive s pid)
    (own : Private (vpn / 1024)) (made : TableFor s linked pid (vpn / 1024) table)
    (notMapped : ¬(pres (pdeOf s pid (vpn / 1024)) = true ∧
      pres (pteOf s pid (vpn / 1024) (vpn % 1024)) = true)) :
    pres (pteOf linked pid (vpn / 1024) (vpn % 1024)) = false := by
  cases made with
  | found same present address =>
      rw [same]
      by_contra isPresent
      exact notMapped ⟨present, by simpa using isPresent⟩
  | made opened d words entry absent dirBound directory bound taken blank present address same =>
      have linkedBase := (table_for_tables tables live own
        (.made opened d words entry absent dirBound directory bound taken blank present address
          same)).2.2.1
      have notDir : table ≠ d := by
        rintro rfl
        have unreferenced := new_frame_unreferenced tables bound taken
        apply unreferenced.noDir pid ((new_frame_live taken).1.mpr live.1)
        rw [new_frame_ker taken, directory]
      rw [pte_word linkedBase, same]
      change pres ((linkTable opened d (vpn / 1024) table words entry).mem _ _) = false
      have notEntry : ¬(frame0 + table = frame0 + d ∧ vpn % 1024 = vpn / 1024) := by omega
      rw [linkTable, set_word_mem, if_neg notEntry, set_page_mem, if_pos rfl]
      exact (blank _).1

/-- A new table can not be the one that an allocation takes away. -/
theorem table_for_loses {linked : St} (made : TableFor s linked pid pdi table)
    (loses : LosesTable linked pid pdi) (linkedBase : base (pdeOf linked pid pdi) = frame0 + table) :
    LosesTable s pid pdi := by
  cases made with
  | found same present address =>
      rw [same] at loses
      exact loses
  | made opened d words entry absent dirBound directory bound taken blank present address same =>
      obtain ⟨x, page, t, _, _, _, _, address', last⟩ := loses
      have equal : t = table := by omega
      subst equal
      have isNew := new_frame_core taken
      simp only [core, newFrame, Prod.mk.injEq] at isNew
      rw [same] at last
      have none : (opened.ipt t).refCount = 1 := last
      rw [isNew.2.2.2] at none
      cases none

/-- The table for a page is still in the directory when the page has got its frame. -/
theorem fetched_tables (tables : Tables s empty []) {linked fetched : St} {number : Int}
    (live : HeapLive s pid) (own : Private pdi) (keeps : ¬LosesTable s pid pdi)
    (made : TableFor s linked pid pdi table) (taken : NewFrame linked fetched fr .page pid number) :
    Tables fetched fr [table] ∧ pres (pdeOf fetched pid pdi) = true ∧
      base (pdeOf fetched pid pdi) = frame0 + table := by
  obtain ⟨linkedTables, linkedPresent, linkedBase, linkedKer⟩ :=
    table_for_tables tables live own made
  have linkedLive : Live linked pid := by
    rw [Live, linkedKer]
    exact live.1
  have fetchedTables := new_frame_tables linkedTables taken
  rw [if_pos rfl] at fetchedTables
  refine ⟨fetchedTables, ?_, (new_frame_pde_words taken).1.trans linkedBase⟩
  rcases new_frame_pde linkedTables linkedLive taken linkedPresent with present | loses
  · exact present
  · exact absurd (table_for_loses made loses linkedBase) keeps

/-- A fault that does not lose its table leaves the tables in agreement. -/
theorem served_tables (tables : Tables s empty []) (heapPage : HeapPage s pid vpn)
    (notMapped : ¬(pres (pdeOf s pid (vpn / 1024)) = true ∧
      pres (pteOf s pid (vpn / 1024) (vpn % 1024)) = true))
    (keeps : ¬LosesTable s pid (vpn / 1024)) (served : Served s final pid vpn fr table) :
    Tables final empty [] := by
  obtain ⟨linked, fetched, made, taken, filled⟩ := served.stages
  obtain ⟨live, low, high⟩ := heapPage
  have own := private_of_heap tables live low high
  obtain ⟨linkedTables, linkedPresent, linkedBase, linkedKer⟩ :=
    table_for_tables tables live own made
  have linkedAbsent := table_for_absent tables live own made notMapped
  have linkedPage : HeapPage linked pid vpn := by
    unfold HeapPage HeapLive Live
    rw [linkedKer]
    exact ⟨live, low, high⟩
  obtain ⟨fetchedTables, fetchedPresent, fetchedBase⟩ :=
    fetched_tables tables live own keeps made taken
  have fetchedPage : HeapPage fetched pid vpn := ((new_frame_live taken).2.2 vpn).mpr linkedPage
  have isNew := new_frame_core taken
  simp only [core, newFrame, Prod.mk.injEq] at isNew
  have isPage : IsPage fetched fr pid vpn := ⟨served.bound, isNew.1, isNew.2.1, isNew.2.2.1⟩
  obtain ⟨entry, present, target, _, _, same⟩ := filled.state
  let read := fetched.setPage (frame0 + fr)
    (diskPage fetched (storeOf fetched.ker pid vpn) (storePage vpn))
  have readAlike : Alike fetched read := by
    refine ⟨fun _ => rfl, fun _ => rfl, ?_⟩
    intro x bound status i
    have different : ¬frame0 + x = frame0 + fr := by
      intro equal
      have sameFrame : x = fr := by omega
      rw [sameFrame, isPage.2.1] at status
      simp at status
    rw [set_page_mem, if_neg different]
    exact ⟨rfl, rfl⟩
  have readPde := alike_pde fetchedTables readAlike fetchedPage.1.1 (vpn / 1024)
  have readPte := alike_pte fetchedTables readAlike fetchedPage.1 own fetchedPresent (vpn % 1024)
  rw [same]
  apply tables_trace
  apply install_page_tables (s := read) (tables_congr fetchedTables readAlike) isPage fetchedPage
  · rw [readPde.1, fetchedPresent]
  · rw [readPte.1]
    exact new_frame_pte_words taken linkedAbsent
  · rw [readPde.2, fetchedBase]
  · exact present
  · exact target

end Tables

end Xinu.Space.Fault
