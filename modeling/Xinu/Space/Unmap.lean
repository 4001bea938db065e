import Xinu.Space.Agreement

/-!
# Taking a page out of its table

The two table updates of an eviction. `unmapPage` clears the entry of a page and
takes one off the reference count of its table; `releaseTable` frees a table that
has no page left and clears its directory entry.
-/

namespace Xinu.Space.Unmap

open Xinu.Kernel.State Xinu.Kernel.Entry Xinu.Lib.Counting Xinu.Paging.Address
open Xinu.Paging.Ipt
open Xinu.Replacement.Fifo Xinu.Space.Agreement

set_option autoImplicit false

/-- The entry `pti` of the table in frame `table` is cleared. -/
def unmapPage (s : St) (table pti : Nat) : St :=
  setFrame (s.setWord (frame0 + table) pti (setPres (s.mem (frame0 + table) pti) false)) table
    { s.ipt table with refCount := (s.ipt table).refCount - 1 }

/-- The table in a frame is freed and taken out of the directory in frame `d`. -/
def releaseTable (s : St) (d pdi table : Nat) : St :=
  (setFrame s table clearedFrame).setWord (frame0 + d) pdi
    (setPres (s.mem (frame0 + d) pdi) false)

variable [Config]

variable {s : St} {limbo fr d table vpn pdi : Nat} {fresh : List Nat} {pid : Int}

/-- The directory of a process is in no frame of another kind. -/
theorem dir_ne (tables : Tables s limbo fresh) (live : Live s pid) (table : Nat)
    (other : (s.ipt table).status ≠ .pdir) :
    ∃ d < nframes, (s.ker.proctab pid).pd = frameNum2ptr d ∧ d ≠ table := by
  obtain ⟨d, bound, directory, status, _⟩ := tables.dirs pid live
  refine ⟨d, bound, directory, ?_⟩
  rintro rfl
  exact other status

/-- Only the process of a private directory uses it. -/
theorem dir_owner (tables : Tables s limbo fresh) (live : HeapLive s pid) {other : Int}
    (otherLive : Live s other) (bound : d < nframes)
    (directory : (s.ker.proctab pid).pd = frameNum2ptr d)
    (same : (s.ker.proctab other).pd = frameNum2ptr d) : other = pid := by
  obtain ⟨left, leftBound, leftDir, _, leftPid⟩ := tables.dirs pid live.1
  obtain ⟨right, rightBound, rightDir, _, rightPid⟩ := tables.dirs other otherLive
  have leftSame := frame_ptr_injective d left bound leftBound (directory.symm.trans leftDir)
  have rightSame := frame_ptr_injective d right bound rightBound (same.symm.trans rightDir)
  subst leftSame rightSame
  rw [if_pos live.2] at leftPid
  by_cases heap : (s.ker.proctab other).vh = true
  · rw [if_pos heap] at rightPid
    omega
  · rw [if_neg heap] at rightPid
    have isNull : pid = nullproc := leftPid.symm.trans rightPid
    have noHeap := tables.nullHeap
    rw [← isNull, live.2] at noHeap
    cases noHeap

/-- The page table of a process is none of the shared ones. -/
theorem global_ne (tables : Tables s limbo fresh) (live : Live s pid)
    (isTable : IsTable s table pid) {g : Nat} (isGlobal : IsTable s g global) : g ≠ table := by
  rintro rfl
  have nonneg := tables.pids pid live
  have owner : global = pid := isGlobal.2.2.symm.trans isTable.2.2
  rw [global] at owner
  omega

/-- Only one directory entry leads to a table. -/
theorem table_owner (tables : Tables s limbo fresh) (live : HeapLive s pid) (own : Private pdi)
    (present : pres (pdeOf s pid pdi) = true) (address : base (pdeOf s pid pdi) = frame0 + table)
    {other : Int} {index : Nat} (otherLive : HeapLive s other) (otherOwn : Private index)
    (otherPresent : pres (pdeOf s other index) = true)
    (same : base (pdeOf s other index) = frame0 + table) : other = pid ∧ index = pdi := by
  obtain ⟨left, leftTable, leftAddress⟩ := tables.tables pid pdi live own present
  obtain ⟨right, rightTable, rightAddress⟩ :=
    tables.tables other index otherLive otherOwn otherPresent
  have leftSame : left = table := by omega
  have rightSame : right = table := by omega
  subst leftSame rightSame
  have owner : other = pid := rightTable.2.2.symm.trans leftTable.2.2
  subst owner
  exact ⟨rfl, tables.distinct other index pdi live otherOwn own otherPresent present
    (same.trans address.symm)⟩

section UnmapPage

omit [Config] in
theorem unmap_page_other {x : Nat} (different : x ≠ table) (pti : Nat) :
    (unmapPage s table pti).ipt x = s.ipt x := set_frame_other _ _ _ _ different

omit [Config] in
theorem unmap_page_status (s : St) (table x pti : Nat) :
    ((unmapPage s table pti).ipt x).status = (s.ipt x).status ∧
      ((unmapPage s table pti).ipt x).pid = (s.ipt x).pid ∧
      ((unmapPage s table pti).ipt x).vpn = (s.ipt x).vpn := by
  by_cases here : x = table
  · subst here
    simp [unmapPage]
  · rw [unmap_page_other here]
    exact ⟨rfl, rfl, rfl⟩

theorem unmap_page_table (x : Nat) (owner : Int) (pti : Nat) :
    IsTable (unmapPage s table pti) x owner ↔ IsTable s x owner := by
  obtain ⟨status, own, _⟩ := unmap_page_status s table x pti
  rw [IsTable, IsTable, status, own]

theorem unmap_page_page (x : Nat) (owner : Int) (page pti : Nat) :
    IsPage (unmapPage s table pti) x owner page ↔ IsPage s x owner page := by
  obtain ⟨status, own, number⟩ := unmap_page_status s table x pti
  rw [IsPage, IsPage, status, own, number]

omit [Config] in
theorem unmap_page_word (p i pti : Nat) (other : ¬(p = frame0 + table ∧ i = pti)) :
    (unmapPage s table pti).mem p i = s.mem p i := if_neg other

theorem unmap_page_pde (tables : Tables s limbo fresh) (isTable : (s.ipt table).status = .ptab)
    {other : Int} (live : Live s other) (index pti : Nat) :
    pdeOf (unmapPage s table pti) other index = pdeOf s other index := by
  obtain ⟨dir, bound, directory, different⟩ := dir_ne tables live table (by rw [isTable]; decide)
  have same : ((unmapPage s table pti).ker.proctab other).pd = frameNum2ptr dir := directory
  rw [pde_word bound directory, pde_word bound same]
  apply unmap_page_word
  omega

/-- A mapped page is taken out of its table. The table may be left without a page. -/
theorem unmap_page_tables (tables : Tables s empty fresh) (isPage : IsPage s fr pid vpn)
    (heapPage : HeapPage s pid vpn) (maps : Maps s pid vpn fr)
    (address : base (pdeOf s pid (vpn / 1024)) = frame0 + table) :
    Tables (unmapPage s table (vpn % 1024)) fr (table :: fresh) := by
  obtain ⟨live, low, high⟩ := heapPage
  obtain ⟨present, presPage, pageAddress⟩ := maps
  have own := private_of_heap tables live low high
  obtain ⟨t', isTable, tableAddress⟩ := tables.tables pid (vpn / 1024) live own present
  have sameTable : t' = table := by omega
  subst sameTable
  have frBound := isPage.1
  have pde : ∀ {other}, Live s other → ∀ index,
      pdeOf (unmapPage s t' (vpn % 1024)) other index = pdeOf s other index :=
    fun otherLive index => unmap_page_pde tables isTable.2.1 otherLive index _
  have unmapped : pres ((unmapPage s t' (vpn % 1024)).mem (frame0 + t') (vpn % 1024)) = false := by
    simp [unmapPage, set_word_mem]
  -- an entry that is still present is another one
  have entry : ∀ {other index pti}, HeapLive s other → Private index →
      pres (pdeOf s other index) = true → pti < 1024 →
      ¬(other = pid ∧ index * 1024 + pti = vpn) →
      pteOf (unmapPage s t' (vpn % 1024)) other index pti = pteOf s other index pti := by
    intro other index pti otherLive otherOwn otherPresent bound different
    rw [pteOf, pteOf, pde otherLive.1]
    apply unmap_page_word
    rintro ⟨same, rfl⟩
    obtain ⟨owner, indexSame⟩ :=
      table_owner tables live own present address otherLive otherOwn otherPresent same
    exact different ⟨owner, by omega⟩
  refine ⟨tables.pids, tables.nullHeap, tables.heaps, ?_, ?_, ?_, ?_, ?_, ?_, ?_, ?_⟩
  · intro other otherLive
    obtain ⟨dir, bound, directory, status, owner⟩ := tables.dirs other otherLive
    obtain ⟨statusSame, pidSame, _⟩ := unmap_page_status s t' dir (vpn % 1024)
    exact ⟨dir, bound, directory, statusSame.trans status, pidSame.trans owner⟩
  · intro g shared
    obtain ⟨isGlobal, full⟩ := tables.globals g shared
    refine ⟨(unmap_page_table g global _).mpr isGlobal, fun pti bound => ?_⟩
    have different := global_ne tables live.1 isTable isGlobal
    rw [unmap_page_word _ _ _ (by omega)]
    exact full pti bound
  · intro other otherLive index shared
    rw [pde otherLive]
    exact tables.shared other otherLive index shared
  · intro other index otherLive otherOwn otherPresent
    rw [pde otherLive.1] at otherPresent ⊢
    obtain ⟨x, isTab, tabAddress⟩ := tables.tables other index otherLive otherOwn otherPresent
    exact ⟨x, (unmap_page_table x other _).mpr isTab, tabAddress⟩
  · intro other left right otherLive ownLeft ownRight presLeft presRight equal
    rw [pde otherLive.1] at presLeft presRight equal
    rw [pde otherLive.1] at equal
    exact tables.distinct other left right otherLive ownLeft ownRight presLeft presRight equal
  · intro other index pti otherLive otherOwn otherPresent bound presEntry
    rw [pde otherLive.1] at otherPresent
    have different : ¬(other = pid ∧ index * 1024 + pti = vpn) := by
      rintro ⟨rfl, rfl⟩
      have indexSame : (index * 1024 + pti) / 1024 = index := by omega
      have ptiSame : (index * 1024 + pti) % 1024 = pti := by omega
      rw [indexSame] at address
      rw [pteOf, pde otherLive.1, address] at presEntry
      rw [ptiSame] at unmapped presEntry
      rw [unmapped] at presEntry
      cases presEntry
    rw [entry otherLive otherOwn otherPresent bound different] at presEntry ⊢
    obtain ⟨x, holds, _, entryAddress⟩ :=
      tables.entries other index pti otherLive otherOwn otherPresent bound presEntry
    refine ⟨x, (unmap_page_page x other _ _).mpr holds, ?_, entryAddress⟩
    rintro rfl
    apply different
    refine ⟨holds.2.2.1.symm.trans isPage.2.2.1, ?_⟩
    have numbers := holds.2.2.2.symm.trans isPage.2.2.2
    omega
  · intro x bound status notLimbo
    rw [(unmap_page_status s t' x _).1] at status
    have notEmpty : x ≠ empty := by
      rintro rfl
      exact empty_not_frame bound
    obtain ⟨other, page, holds, ⟨otherLive, otherLow, otherHigh⟩, presTable, presEntry,
      entryAddress⟩ := tables.mapped x bound status notEmpty
    have otherOwn := private_of_heap tables otherLive otherLow otherHigh
    have different : ¬(other = pid ∧ page / 1024 * 1024 + page % 1024 = vpn) := by
      rintro ⟨rfl, same⟩
      have pageSame : page = vpn := by omega
      subst pageSame
      apply notLimbo
      omega
    refine ⟨other, page, (unmap_page_page x other page _).mpr holds,
      ⟨otherLive, otherLow, otherHigh⟩, ?_, ?_, ?_⟩
    · rw [pde otherLive.1]
      exact presTable
    · rw [entry otherLive otherOwn presTable (Nat.mod_lt _ (by decide)) different]
      exact presEntry
    · rw [entry otherLive otherOwn presTable (Nat.mod_lt _ (by decide)) different]
      exact entryAddress
  · intro other index x otherLive otherOwn otherPresent tabAddress
    rw [pde otherLive.1] at otherPresent tabAddress
    obtain ⟨count, positive⟩ :=
      tables.counts other index x otherLive otherOwn otherPresent tabAddress
    by_cases here : x = t'
    · subst here
      have cleared : presCount ((unmapPage s x (vpn % 1024)).mem (frame0 + x)) + 1 =
          presCount (s.mem (frame0 + x)) :=
        count_clear (Nat.mod_lt vpn (by decide)) (by rwa [← pte_word address]) unmapped
          (fun i _ different => by rw [unmap_page_word]; exact fun same => different same.2)
      refine ⟨?_, by simp⟩
      have refCount : ((unmapPage s x (vpn % 1024)).ipt x).refCount = (s.ipt x).refCount - 1 := by
        simp [unmapPage]
      rw [refCount]
      omega
    · rw [unmap_page_other here]
      refine ⟨?_, fun absent => positive fun inFresh => absent (by simp [inFresh])⟩
      rw [count]
      apply pres_count_congr
      intro i
      rw [unmap_page_word]
      omega

end UnmapPage

/-- A table that has a page needs no exemption. -/
theorem tables_settled (tables : Tables s limbo (table :: fresh))
    (counted : 1 ≤ (s.ipt table).refCount) : Tables s limbo fresh := by
  refine { tables with counts := ?_ }
  intro other index x live own present address
  obtain ⟨count, positive⟩ := tables.counts other index x live own present address
  refine ⟨count, fun absent => ?_⟩
  by_cases here : x = table
  · rw [here]
    exact counted
  · exact positive (by simp [here, absent])

section ReleaseTable

variable {pdi : Nat}

omit [Config] in
theorem release_table_other {x : Nat} (different : x ≠ table) :
    (releaseTable s d pdi table).ipt x = s.ipt x := set_frame_other _ _ _ _ different

omit [Config] in
theorem release_table_word (p i : Nat) (other : ¬(p = frame0 + d ∧ i = pdi)) :
    (releaseTable s d pdi table).mem p i = s.mem p i := if_neg other

/-- A table without a page is freed together with its directory entry. -/
theorem release_table_tables (tables : Tables s limbo (table :: fresh)) (live : HeapLive s pid)
    (own : Private pdi) (present : pres (pdeOf s pid pdi) = true)
    (address : base (pdeOf s pid pdi) = frame0 + table) (bound : d < nframes)
    (directory : (s.ker.proctab pid).pd = frameNum2ptr d) (unused : (s.ipt table).refCount = 0) :
    Tables (releaseTable s d pdi table) limbo fresh := by
  obtain ⟨t', isTable, tableAddress⟩ := tables.tables pid pdi live own present
  have sameTable : t' = table := by omega
  subst sameTable
  obtain ⟨dir, dirBound, dirEq, dirStatus, _⟩ := tables.dirs pid live.1
  have sameDir := frame_ptr_injective d dir bound dirBound (directory.symm.trans dirEq)
  subst sameDir
  have empties : ∀ i < 1024, pres (s.mem (frame0 + t') i) = false := by
    have none : presCount (s.mem (frame0 + t')) = 0 :=
      (tables.counts pid pdi t' live own present address).1.symm.trans unused
    exact count_zero.mp none
  have keptFrame : ∀ {x : Nat}, (s.ipt x).status ≠ .ptab ∨ (s.ipt x).pid ≠ pid →
      (releaseTable s d pdi t').ipt x = s.ipt x := by
    intro x other
    apply release_table_other
    rintro rfl
    rcases other with status | owner
    · exact status isTable.2.1
    · exact owner isTable.2.2
  -- the entry that is cleared is the only one that changes
  have pde : ∀ {other}, Live s other → ∀ index, ¬(other = pid ∧ index = pdi) →
      pdeOf (releaseTable s d pdi t') other index = pdeOf s other index := by
    intro other otherLive index different
    obtain ⟨otherDir, otherBound, otherEq, _, _⟩ := tables.dirs other otherLive
    have same : ((releaseTable s d pdi t').ker.proctab other).pd = frameNum2ptr otherDir := otherEq
    rw [pde_word otherBound otherEq, pde_word otherBound same]
    apply release_table_word
    rintro ⟨equal, rfl⟩
    have sameDir : otherDir = d := by omega
    subst sameDir
    exact different ⟨dir_owner tables live otherLive bound directory otherEq, rfl⟩
  have cleared : pres (pdeOf (releaseTable s d pdi t') pid pdi) = false := by
    have same : ((releaseTable s d pdi t').ker.proctab pid).pd = frameNum2ptr d := directory
    rw [pde_word bound same]
    simp [releaseTable, set_word_mem]
  have elsewhere : ∀ {other index},
      pres (pdeOf (releaseTable s d pdi t') other index) = true → ¬(other = pid ∧ index = pdi) := by
    rintro other index otherPresent ⟨rfl, rfl⟩
    rw [cleared] at otherPresent
    cases otherPresent
  have pte : ∀ {other}, HeapLive s other → ∀ index pti, Private index →
      ¬(other = pid ∧ index = pdi) → pres (pdeOf s other index) = true →
      pteOf (releaseTable s d pdi t') other index pti = pteOf s other index pti := by
    intro other otherLive index pti otherOwn different otherPresent
    obtain ⟨x, isTab, tabAddress⟩ := tables.tables other index otherLive otherOwn otherPresent
    rw [pteOf, pteOf, pde otherLive.1 index different, tabAddress]
    apply release_table_word
    rintro ⟨equal, _⟩
    have same : x = d := by omega
    subst same
    have status := isTab.2.1
    rw [dirStatus] at status
    cases status
  refine ⟨tables.pids, tables.nullHeap, tables.heaps, ?_, ?_, ?_, ?_, ?_, ?_, ?_, ?_⟩
  · intro other otherLive
    obtain ⟨dir, bound, directory, status, owner⟩ := tables.dirs other otherLive
    have kept := keptFrame (x := dir) (Or.inl (by rw [status]; decide))
    refine ⟨dir, bound, directory, ?_, ?_⟩
    · rw [kept]
      exact status
    · rw [kept]
      exact owner
  · intro g shared
    obtain ⟨isGlobal, full⟩ := tables.globals g shared
    have different := global_ne tables live.1 isTable isGlobal
    refine ⟨?_, fun pti ptiBound => ?_⟩
    · rw [IsTable, release_table_other different]
      exact isGlobal
    · rw [release_table_word]
      · exact full pti ptiBound
      · rintro ⟨equal, _⟩
        have same : g = d := by omega
        subst same
        have status := isGlobal.2.1
        rw [dirStatus] at status
        cases status
  · intro other otherLive index shared
    have different : ¬(other = pid ∧ index = pdi) := by
      rintro ⟨_, rfl⟩
      have private' := own.2.1
      omega
    rw [pde otherLive index different]
    exact tables.shared other otherLive index shared
  · intro other index otherLive otherOwn otherPresent
    have different := elsewhere otherPresent
    rw [pde otherLive.1 index different] at otherPresent ⊢
    obtain ⟨x, isTab, tabAddress⟩ := tables.tables other index otherLive otherOwn otherPresent
    refine ⟨x, ?_, tabAddress⟩
    have notFreed : x ≠ t' := by
      rintro rfl
      exact different (table_owner tables live own present address otherLive otherOwn otherPresent
        tabAddress)
    rw [IsTable, release_table_other notFreed]
    exact isTab
  · intro other left right otherLive ownLeft ownRight presLeft presRight equal
    have differentLeft := elsewhere presLeft
    have differentRight := elsewhere presRight
    rw [pde otherLive.1 left differentLeft] at presLeft equal
    rw [pde otherLive.1 right differentRight] at presRight equal
    exact tables.distinct other left right otherLive ownLeft ownRight presLeft presRight equal
  · intro other index pti otherLive otherOwn otherPresent ptiBound presEntry
    have different := elsewhere otherPresent
    rw [pde otherLive.1 index different] at otherPresent
    rw [pte otherLive index pti otherOwn different otherPresent] at presEntry ⊢
    obtain ⟨x, holds, notLimbo, entryAddress⟩ :=
      tables.entries other index pti otherLive otherOwn otherPresent ptiBound presEntry
    refine ⟨x, ?_, notLimbo, entryAddress⟩
    rw [IsPage, keptFrame (Or.inl (by rw [holds.2.1]; decide))]
    exact holds
  · intro x xBound status notLimbo
    have notFreed : x ≠ t' := by
      rintro rfl
      simp [releaseTable, clearedFrame] at status
    rw [release_table_other notFreed] at status
    obtain ⟨other, page, holds, ⟨otherLive, otherLow, otherHigh⟩, presTable, presEntry,
      entryAddress⟩ := tables.mapped x xBound status notLimbo
    have otherOwn := private_of_heap tables otherLive otherLow otherHigh
    have different : ¬(other = pid ∧ page / 1024 = pdi) := by
      rintro ⟨rfl, rfl⟩
      rw [pte_word address, empties _ (Nat.mod_lt _ (by decide))] at presEntry
      cases presEntry
    refine ⟨other, page, ?_, ⟨otherLive, otherLow, otherHigh⟩, ?_, ?_, ?_⟩
    · rw [IsPage, release_table_other notFreed]
      exact holds
    · rw [pde otherLive.1 _ different]
      exact presTable
    · rw [pte otherLive _ _ otherOwn different presTable]
      exact presEntry
    · rw [pte otherLive _ _ otherOwn different presTable]
      exact entryAddress
  · intro other index x otherLive otherOwn otherPresent tabAddress
    have different := elsewhere otherPresent
    rw [pde otherLive.1 index different] at otherPresent tabAddress
    obtain ⟨count, positive⟩ :=
      tables.counts other index x otherLive otherOwn otherPresent tabAddress
    have notFreed : x ≠ t' := by
      rintro rfl
      exact different (table_owner tables live own present address otherLive otherOwn otherPresent
        tabAddress)
    obtain ⟨y, isTab, otherAddress⟩ := tables.tables other index otherLive otherOwn otherPresent
    have same : y = x := by omega
    subst same
    rw [release_table_other notFreed]
    refine ⟨?_, fun absent => positive (by simp [notFreed, absent])⟩
    rw [count]
    apply pres_count_congr
    intro i
    rw [release_table_word]
    rintro ⟨equal, _⟩
    have sameDir : y = d := by omega
    subst sameDir
    have status := isTab.2.1
    rw [dirStatus] at status
    cases status

end ReleaseTable

end Xinu.Space.Unmap
