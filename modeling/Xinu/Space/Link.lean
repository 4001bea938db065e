import Xinu.Space.Unmap

/-!
# Putting a table into a directory and a page into a table

The two table updates of a page fault: `linkTable` enters an empty page table into
the directory of its process, `installPage` maps a page and counts it.
-/

namespace Xinu.Space.Link

open Xinu.Lib.Counting Xinu.Kernel.State Xinu.Kernel.Entry Xinu.Paging.Address Xinu.Paging.Ipt
open Xinu.Replacement.Fifo Xinu.Space.Agreement Xinu.Space.Unmap

set_option autoImplicit false

/-- The words of an empty table and the directory entry that leads to it. -/
def linkTable (s : St) (d pdi table : Nat) (words : Nat → Word) (entry : Word) : St :=
  (s.setPage (frame0 + table) words).setWord (frame0 + d) pdi entry

/-- The entry of a page and the reference count of its table. -/
def installPage (s : St) (table pti : Nat) (entry : Word) : St :=
  setFrame (s.setWord (frame0 + table) pti entry) table
    { s.ipt table with refCount := (s.ipt table).refCount + 1 }

variable [Config]

variable {s : St} {limbo fr d table vpn pdi : Nat} {fresh : List Nat} {pid : Int}

/-- No directory entry leads to a frame, and it is no directory itself. -/
structure Unreferenced (s : St) (fr : Nat) : Prop where
  noDir : ∀ pid, Live s pid → (s.ker.proctab pid).pd ≠ frameNum2ptr fr
  noTable : ∀ pid pdi, HeapLive s pid → Private pdi → pres (pdeOf s pid pdi) = true →
    base (pdeOf s pid pdi) ≠ frame0 + fr

theorem unreferenced_of_status (tables : Tables s limbo fresh) (bound : fr < nframes)
    (status : (s.ipt fr).status = .notUsed ∨ (s.ipt fr).status = .page) : Unreferenced s fr where
  noDir := by
    intro pid live same
    obtain ⟨d, dBound, directory, dirStatus, _⟩ := tables.dirs pid live
    have equal := frame_ptr_injective d fr dBound bound (directory.symm.trans same)
    rw [equal] at dirStatus
    rcases status with free | page
    · rw [free] at dirStatus
      cases dirStatus
    · rw [page] at dirStatus
      cases dirStatus
  noTable := by
    intro pid pdi live own present same
    obtain ⟨t, isTable, address⟩ := tables.tables pid pdi live own present
    have equal : t = fr := by omega
    subst equal
    have tableStatus := isTable.2.1
    rcases status with free | page
    · rw [free] at tableStatus
      cases tableStatus
    · rw [page] at tableStatus
      cases tableStatus

theorem tables_exempt (tables : Tables s limbo fresh) (table : Nat) :
    Tables s limbo (table :: fresh) := by
  refine { tables with counts := ?_ }
  intro pid pdi t live own present address
  obtain ⟨count, positive⟩ := tables.counts pid pdi t live own present address
  exact ⟨count, fun absent => positive fun inFresh => absent (by simp [inFresh])⟩

section LinkTable

variable {words : Nat → Word} {entry : Word}

omit [Config] in
theorem link_table_word (p i : Nat) (notTable : p ≠ frame0 + table)
    (notEntry : ¬(p = frame0 + d ∧ i = pdi)) :
    (linkTable s d pdi table words entry).mem p i = s.mem p i := by
  rw [linkTable, set_word_mem, if_neg notEntry, set_page_mem, if_neg notTable]

/-- An empty table is entered into the directory of its process. -/
theorem link_table_tables (words : Nat → Word) (entry : Word) (tables : Tables s limbo fresh)
    (live : HeapLive s pid) (own : Private pdi) (absent : pres (pdeOf s pid pdi) = false) (isTable : IsTable s table pid)
    (zero : (s.ipt table).refCount = 0) (unreferenced : Unreferenced s table) (bound : d < nframes)
    (directory : (s.ker.proctab pid).pd = frameNum2ptr d) (blank : ∀ i, pres (words i) = false)
    (address : base entry = frame0 + table) :
    Tables (linkTable s d pdi table words entry) limbo (table :: fresh) := by
  obtain ⟨dir, dirBound, dirEq, dirStatus, _⟩ := tables.dirs pid live.1
  have sameDir := frame_ptr_injective d dir bound dirBound (directory.symm.trans dirEq)
  subst sameDir
  have apart : table ≠ d := by
    rintro rfl
    exact unreferenced.noDir pid live.1 directory
  have newEntry : pdeOf (linkTable s d pdi table words entry) pid pdi = entry := by
    have same : ((linkTable s d pdi table words entry).ker.proctab pid).pd = frameNum2ptr d :=
      directory
    rw [pde_word bound same, linkTable, set_word_mem, if_pos ⟨rfl, rfl⟩]
  have newWords : ∀ i, (linkTable s d pdi table words entry).mem (frame0 + table) i = words i := by
    intro i
    have notEntry : ¬(frame0 + table = frame0 + d ∧ i = pdi) := by omega
    rw [linkTable, set_word_mem, if_neg notEntry, set_page_mem, if_pos rfl]
  have pde : ∀ {other}, Live s other → ∀ index, ¬(other = pid ∧ index = pdi) →
      pdeOf (linkTable s d pdi table words entry) other index = pdeOf s other index := by
    intro other otherLive index different
    obtain ⟨otherDir, otherBound, otherEq, _, _⟩ := tables.dirs other otherLive
    have same : ((linkTable s d pdi table words entry).ker.proctab other).pd =
      frameNum2ptr otherDir := otherEq
    rw [pde_word otherBound otherEq, pde_word otherBound same]
    apply link_table_word
    · intro equal
      have sameTable : otherDir = table := by omega
      subst sameTable
      exact unreferenced.noDir other otherLive otherEq
    · rintro ⟨equal, rfl⟩
      have sameDir : otherDir = d := by omega
      subst sameDir
      exact different ⟨dir_owner tables live otherLive bound directory otherEq, rfl⟩
  have tableWord : ∀ {x}, (s.ipt x).status ≠ .pdir → x ≠ table → ∀ i,
      (linkTable s d pdi table words entry).mem (frame0 + x) i = s.mem (frame0 + x) i := by
    intro x notDir notTable i
    apply link_table_word
    · omega
    · rintro ⟨equal, _⟩
      have same : x = d := by omega
      subst same
      exact notDir dirStatus
  have pte : ∀ {other}, HeapLive s other → ∀ index pti, Private index →
      ¬(other = pid ∧ index = pdi) → pres (pdeOf s other index) = true →
      pteOf (linkTable s d pdi table words entry) other index pti = pteOf s other index pti := by
    intro other otherLive index pti otherOwn different otherPresent
    obtain ⟨x, isTab, tabAddress⟩ := tables.tables other index otherLive otherOwn otherPresent
    rw [pteOf, pteOf, pde otherLive.1 index different, tabAddress]
    apply tableWord (by rw [isTab.2.1]; decide)
    rintro rfl
    exact unreferenced.noTable other index otherLive otherOwn otherPresent tabAddress
  refine ⟨tables.pids, tables.nullHeap, tables.heaps, tables.dirs, ?_, ?_, ?_, ?_, ?_, ?_, ?_⟩
  · intro g shared
    obtain ⟨isGlobal, full⟩ := tables.globals g shared
    refine ⟨isGlobal, fun pti ptiBound => ?_⟩
    rw [tableWord (by rw [isGlobal.2.1]; decide) (global_ne tables live.1 isTable isGlobal)]
    exact full pti ptiBound
  · intro other otherLive index shared
    have different : ¬(other = pid ∧ index = pdi) := by
      rintro ⟨_, rfl⟩
      have private' := own.2.1
      omega
    rw [pde otherLive index different]
    exact tables.shared other otherLive index shared
  · intro other index otherLive otherOwn otherPresent
    by_cases here : other = pid ∧ index = pdi
    · obtain ⟨rfl, rfl⟩ := here
      rw [newEntry]
      exact ⟨table, isTable, address⟩
    · rw [pde otherLive.1 index here] at otherPresent ⊢
      exact tables.tables other index otherLive otherOwn otherPresent
  · intro other left right otherLive ownLeft ownRight presLeft presRight equal
    by_cases hereLeft : other = pid ∧ left = pdi
    · by_cases hereRight : other = pid ∧ right = pdi
      · exact hereLeft.2.trans hereRight.2.symm
      · obtain ⟨rfl, rfl⟩ := hereLeft
        rw [newEntry, address, pde otherLive.1 right hereRight] at equal
        rw [pde otherLive.1 right hereRight] at presRight
        exact absurd equal.symm
          (unreferenced.noTable other right otherLive ownRight presRight)
    · rw [pde otherLive.1 left hereLeft] at presLeft equal
      by_cases hereRight : other = pid ∧ right = pdi
      · obtain ⟨rfl, rfl⟩ := hereRight
        rw [newEntry, address] at equal
        exact absurd equal (unreferenced.noTable other left otherLive ownLeft presLeft)
      · rw [pde otherLive.1 right hereRight] at presRight equal
        exact tables.distinct other left right otherLive ownLeft ownRight presLeft presRight equal
  · intro other index pti otherLive otherOwn otherPresent ptiBound presEntry
    by_cases here : other = pid ∧ index = pdi
    · obtain ⟨rfl, rfl⟩ := here
      rw [pteOf, newEntry, address, newWords, blank] at presEntry
      cases presEntry
    · rw [pde otherLive.1 index here] at otherPresent
      rw [pte otherLive index pti otherOwn here otherPresent] at presEntry ⊢
      exact tables.entries other index pti otherLive otherOwn otherPresent ptiBound presEntry
  · intro x xBound status notLimbo
    obtain ⟨other, page, holds, ⟨otherLive, otherLow, otherHigh⟩, presTable, presEntry,
      entryAddress⟩ := tables.mapped x xBound status notLimbo
    have otherOwn := private_of_heap tables otherLive otherLow otherHigh
    have different : ¬(other = pid ∧ page / 1024 = pdi) := by
      rintro ⟨rfl, rfl⟩
      rw [absent] at presTable
      cases presTable
    refine ⟨other, page, holds, ⟨otherLive, otherLow, otherHigh⟩, ?_, ?_, ?_⟩
    · rw [pde otherLive.1 _ different]
      exact presTable
    · rw [pte otherLive _ _ otherOwn different presTable]
      exact presEntry
    · rw [pte otherLive _ _ otherOwn different presTable]
      exact entryAddress
  · intro other index x otherLive otherOwn otherPresent tabAddress
    by_cases here : other = pid ∧ index = pdi
    · obtain ⟨rfl, rfl⟩ := here
      rw [newEntry, address] at tabAddress
      have same : x = table := by omega
      subst same
      refine ⟨?_, by simp⟩
      have none : presCount ((linkTable s d index x words entry).mem (frame0 + x)) = 0 :=
        count_zero.mpr fun i _ => by rw [newWords, blank]
      exact zero.trans none.symm
    · rw [pde otherLive.1 index here] at otherPresent tabAddress
      obtain ⟨count, positive⟩ :=
        tables.counts other index x otherLive otherOwn otherPresent tabAddress
      obtain ⟨y, isTab, otherAddress⟩ := tables.tables other index otherLive otherOwn otherPresent
      have same : y = x := by omega
      subst same
      have notTable : y ≠ table := by
        rintro rfl
        exact unreferenced.noTable other index otherLive otherOwn otherPresent tabAddress
      refine ⟨count.trans (pres_count_congr fun i => ?_).symm, fun absent =>
        positive fun inFresh => absent (by simp [inFresh])⟩
      rw [tableWord (by rw [isTab.2.1]; decide) notTable]

end LinkTable

section InstallPage

variable {entry : Word}

omit [Config] in
theorem install_page_word (p i pti : Nat) (other : ¬(p = frame0 + table ∧ i = pti)) :
    (installPage s table pti entry).mem p i = s.mem p i := if_neg other

omit [Config] in
theorem install_page_other {x : Nat} (different : x ≠ table) (pti : Nat) :
    (installPage s table pti entry).ipt x = s.ipt x := set_frame_other _ _ _ _ different

omit [Config] in
theorem install_page_status (s : St) (table : Nat) (entry : Word) (x pti : Nat) :
    ((installPage s table pti entry).ipt x).status = (s.ipt x).status ∧
      ((installPage s table pti entry).ipt x).pid = (s.ipt x).pid ∧
      ((installPage s table pti entry).ipt x).vpn = (s.ipt x).vpn := by
  by_cases here : x = table
  · subst here
    simp [installPage]
  · rw [install_page_other here]
    exact ⟨rfl, rfl, rfl⟩

/-- A page is mapped, and its table has one page more. -/
theorem install_page_tables (tables : Tables s fr (table :: fresh)) (isPage : IsPage s fr pid vpn)
    (heapPage : HeapPage s pid vpn) (presTable : pres (pdeOf s pid (vpn / 1024)) = true)
    (absent : pres (pteOf s pid (vpn / 1024) (vpn % 1024)) = false)
    (address : base (pdeOf s pid (vpn / 1024)) = frame0 + table)
    (present : pres entry = true) (target : base entry = frame0 + fr) :
    Tables (installPage s table (vpn % 1024) entry) empty fresh := by
  obtain ⟨live, low, high⟩ := heapPage
  have own := private_of_heap tables live low high
  obtain ⟨t', isTable, tableAddress⟩ := tables.tables pid (vpn / 1024) live own presTable
  have sameTable : t' = table := by omega
  subst sameTable
  let final := installPage s t' (vpn % 1024) entry
  have isTab : ∀ x owner, IsTable final x owner ↔ IsTable s x owner := by
    intro x owner
    obtain ⟨status, own, _⟩ := install_page_status s t' entry x (vpn % 1024)
    rw [IsTable, IsTable, status, own]
  have isPg : ∀ x owner page, IsPage final x owner page ↔ IsPage s x owner page := by
    intro x owner page
    obtain ⟨status, own, number⟩ := install_page_status s t' entry x (vpn % 1024)
    rw [IsPage, IsPage, status, own, number]
  have pde : ∀ {other}, Live s other → ∀ index, pdeOf final other index = pdeOf s other index := by
    intro other otherLive index
    obtain ⟨dir, dirBound, directory, different⟩ := dir_ne tables otherLive t'
      (by rw [isTable.2.1]; decide)
    have same : (final.ker.proctab other).pd = frameNum2ptr dir := directory
    rw [pde_word dirBound directory, pde_word dirBound same]
    apply install_page_word
    omega
  have installed : final.mem (frame0 + t') (vpn % 1024) = entry := if_pos ⟨rfl, rfl⟩
  -- every other entry is as before
  have pte : ∀ {other index pti}, HeapLive s other → Private index →
      pres (pdeOf s other index) = true → pti < 1024 →
      ¬(other = pid ∧ index * 1024 + pti = vpn) →
      pteOf final other index pti = pteOf s other index pti := by
    intro other index pti otherLive otherOwn otherPresent bound different
    rw [pteOf, pteOf, pde otherLive.1]
    apply install_page_word
    rintro ⟨same, rfl⟩
    obtain ⟨owner, indexSame⟩ :=
      table_owner tables live own presTable address otherLive otherOwn otherPresent same
    exact different ⟨owner, by omega⟩
  refine ⟨tables.pids, tables.nullHeap, tables.heaps, ?_, ?_, ?_, ?_, ?_, ?_, ?_, ?_⟩
  · intro other otherLive
    obtain ⟨dir, bound, directory, status, owner⟩ := tables.dirs other otherLive
    obtain ⟨statusSame, pidSame, _⟩ := install_page_status s t' entry dir (vpn % 1024)
    exact ⟨dir, bound, directory, statusSame.trans status, pidSame.trans owner⟩
  · intro g shared
    obtain ⟨isGlobal, full⟩ := tables.globals g shared
    refine ⟨(isTab g global).mpr isGlobal, fun pti bound => ?_⟩
    have different := global_ne tables live.1 isTable isGlobal
    rw [install_page_word _ _ _ (by omega)]
    exact full pti bound
  · intro other otherLive index shared
    rw [pde otherLive]
    exact tables.shared other otherLive index shared
  · intro other index otherLive otherOwn otherPresent
    rw [pde otherLive.1] at otherPresent ⊢
    obtain ⟨x, isTable, tabAddress⟩ := tables.tables other index otherLive otherOwn otherPresent
    exact ⟨x, (isTab x other).mpr isTable, tabAddress⟩
  · intro other left right otherLive ownLeft ownRight presLeft presRight equal
    rw [pde otherLive.1] at presLeft presRight equal
    rw [pde otherLive.1] at equal
    exact tables.distinct other left right otherLive ownLeft ownRight presLeft presRight equal
  · intro other index pti otherLive otherOwn otherPresent bound presEntry
    rw [pde otherLive.1] at otherPresent
    have proper : ∀ x, x < nframes → x ≠ empty := by
      rintro x inside rfl
      exact empty_not_frame inside
    by_cases here : other = pid ∧ index * 1024 + pti = vpn
    · obtain ⟨rfl, rfl⟩ := here
      have indexSame : (index * 1024 + pti) / 1024 = index := by omega
      have ptiSame : (index * 1024 + pti) % 1024 = pti := by omega
      rw [indexSame] at address
      rw [ptiSame] at installed
      refine ⟨fr, (isPg fr other _).mpr isPage, proper fr isPage.1, ?_⟩
      rw [pteOf, pde otherLive.1, address, installed, target]
    · rw [pte otherLive otherOwn otherPresent bound here] at presEntry ⊢
      obtain ⟨x, holds, _, entryAddress⟩ :=
        tables.entries other index pti otherLive otherOwn otherPresent bound presEntry
      exact ⟨x, (isPg x other _).mpr holds, proper x holds.1, entryAddress⟩
  · intro x bound status _
    have samePage := (install_page_status s t' entry x (vpn % 1024)).1
    rw [samePage] at status
    by_cases here : x = fr
    · subst here
      refine ⟨pid, vpn, (isPg x pid vpn).mpr isPage, ⟨live, low, high⟩, ?_, ?_, ?_⟩
      · rw [pde live.1]
        exact presTable
      · rw [pteOf, pde live.1, address, installed, present]
      · rw [pteOf, pde live.1, address, installed, target]
    · obtain ⟨other, page, holds, ⟨otherLive, otherLow, otherHigh⟩, presTab, presEntry,
        entryAddress⟩ := tables.mapped x bound status here
      have otherOwn := private_of_heap tables otherLive otherLow otherHigh
      have different : ¬(other = pid ∧ page / 1024 * 1024 + page % 1024 = vpn) := by
        rintro ⟨rfl, same⟩
        have pageSame : page = vpn := by omega
        subst pageSame
        rw [absent] at presEntry
        cases presEntry
      have bound1024 := Nat.mod_lt page (show 0 < 1024 by decide)
      refine ⟨other, page, (isPg x other page).mpr holds, ⟨otherLive, otherLow, otherHigh⟩,
        ?_, ?_, ?_⟩
      · rw [pde otherLive.1]
        exact presTab
      · rw [pte otherLive otherOwn presTab bound1024 different]
        exact presEntry
      · rw [pte otherLive otherOwn presTab bound1024 different]
        exact entryAddress
  · intro other index x otherLive otherOwn otherPresent tabAddress
    rw [pde otherLive.1] at otherPresent tabAddress
    obtain ⟨count, positive⟩ :=
      tables.counts other index x otherLive otherOwn otherPresent tabAddress
    by_cases here : x = t'
    · subst here
      have more : presCount (final.mem (frame0 + x)) = presCount (s.mem (frame0 + x)) + 1 :=
        count_set (Nat.mod_lt vpn (by decide)) (by rwa [← pte_word address])
          (by rw [installed, present])
          (fun i _ different => by rw [install_page_word]; exact fun same => different same.2)
      have refCount : (final.ipt x).refCount = (s.ipt x).refCount + 1 := by
        simp [final, installPage]
      rw [refCount, more, count]
      exact ⟨rfl, fun _ => by omega⟩
    · rw [install_page_other here]
      refine ⟨?_, fun notFresh => positive (by simp [here, notFresh])⟩
      rw [count]
      apply pres_count_congr
      intro i
      rw [install_page_word]
      omega

end InstallPage

end Xinu.Space.Link
