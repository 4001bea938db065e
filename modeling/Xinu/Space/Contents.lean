import Xinu.Space.Runs

/-!
# What the pages of a heap contain

A word of a heap page is held in a frame or, when the page is in no frame, in its store.
An eviction and a page fault move words between the two and change none, because a page
whose entry is not marked as modified is still as in its store.
-/

namespace Xinu.Space.Contents

open Xinu.Kernel.State Xinu.Kernel.Entry Xinu.Lib.StateError Xinu.Lib.Counting
open Xinu.Paging.Address Xinu.Paging.BackingStore Xinu.Paging.Ipt Xinu.Replacement.Fifo
open Xinu.Space.Agreement Xinu.Space.Transfers Xinu.Space.Unmap Xinu.Space.Evict
open Xinu.Space.Choice Xinu.Space.Allocate Xinu.Space.Link Xinu.Space.Fault Xinu.Space.Ownership
open Xinu.Swap.Places Xinu.Swap.Conservation

set_option autoImplicit false

section Definitions

/-- The words of a heap page in its backing store. -/
def storeWord (s : St) (pid : Int) (vpn i : Nat) : Word :=
  diskPage s (storeOf s.ker pid vpn) (storePage vpn) i

variable [Config]

/-- Where a word of a heap page is, while the frame `limbo` has no page yet or any more. -/
inductive Holds (s : St) (limbo : Nat) (pid : Int) (vpn i : Nat) (word : Word) : Prop
  | frame (fr : Nat) (page : IsPage s fr pid vpn) (loaded : fr ≠ limbo)
      (same : s.mem (frame0 + fr) i = word)
  | store (absent : ∀ fr, IsPage s fr pid vpn → fr = limbo) (same : storeWord s pid vpn i = word)

/-- A page whose entry is not marked is as in its store. -/
def Synced (s : St) (limbo : Nat) : Prop :=
  ∀ fr pid vpn table, IsPage s fr pid vpn → fr ≠ limbo → HeapPage s pid vpn →
    base (pdeOf s pid (vpn / 1024)) = frame0 + table → ¬Modified s table (vpn % 1024) →
    ∀ i < 1024, s.mem (frame0 + fr) i = storeWord s pid vpn i

/-- No word of a heap changes. -/
def Carries (s : St) (limbo : Nat) (final : St) (limbo' : Nat) : Prop :=
  ∀ pid vpn i word, HeapPage s pid vpn → i < 1024 → Holds s limbo pid vpn i word →
    Holds final limbo' pid vpn i word

end Definitions

variable [Config] {s t final : St} {limbo limbo' fr d table vpn : Nat} {pid : Int}
  {fresh : List Nat}

theorem carries_trans {middle : St} {between : Nat} (first : Carries s limbo middle between)
    (pages : ∀ pid vpn, HeapPage s pid vpn → HeapPage middle pid vpn)
    (second : Carries middle between final limbo') : Carries s limbo final limbo' :=
  fun pid vpn i word heapPage bound holds =>
    second pid vpn i word (pages pid vpn heapPage) bound (first pid vpn i word heapPage bound holds)

section Same

/-- Two states with the same pages in the same frames and stores. -/
structure SamePages (s : St) (limbo : Nat) (t : St) (limbo' : Nat) : Prop where
  frames : ∀ fr pid vpn, IsPage t fr pid vpn ∧ fr ≠ limbo' ↔ IsPage s fr pid vpn ∧ fr ≠ limbo
  heap : ∀ fr pid vpn, IsPage s fr pid vpn → fr ≠ limbo → HeapPage t pid vpn → HeapPage s pid vpn
  words : ∀ fr pid vpn, IsPage s fr pid vpn → fr ≠ limbo → ∀ i,
    t.mem (frame0 + fr) i = s.mem (frame0 + fr) i
  stores : ∀ pid vpn, HeapPage s pid vpn → ∀ i < 1024, storeWord t pid vpn i = storeWord s pid vpn i

theorem same_carries (same : SamePages s limbo t limbo') : Carries s limbo t limbo' := by
  intro pid vpn i word heapPage bound holds
  cases holds with
  | frame fr page loaded isWord =>
      obtain ⟨page', loaded'⟩ := (same.frames fr pid vpn).mpr ⟨page, loaded⟩
      exact .frame fr page' loaded' ((same.words fr pid vpn page loaded i).trans isWord)
  | store absent isWord =>
      refine .store ?_ ((same.stores pid vpn heapPage i bound).trans isWord)
      intro fr page
      by_contra loaded
      obtain ⟨page', loaded'⟩ := (same.frames fr pid vpn).mp ⟨page, loaded⟩
      exact loaded' (absent fr page')

theorem same_synced (same : SamePages s limbo t limbo')
    (marks : ∀ fr pid vpn table, IsPage s fr pid vpn → fr ≠ limbo → HeapPage s pid vpn →
      base (pdeOf t pid (vpn / 1024)) = frame0 + table → ¬Modified t table (vpn % 1024) →
      base (pdeOf s pid (vpn / 1024)) = frame0 + table ∧ ¬Modified s table (vpn % 1024))
    (synced : Synced s limbo) : Synced t limbo' := by
  intro fr pid vpn table page loaded heapPage address unmarked i bound
  obtain ⟨page', loaded'⟩ := (same.frames fr pid vpn).mp ⟨page, loaded⟩
  have heapPage' := same.heap fr pid vpn page' loaded' heapPage
  obtain ⟨address', unmarked'⟩ := marks fr pid vpn table page' loaded' heapPage' address unmarked
  rw [same.words fr pid vpn page' loaded' i, same.stores pid vpn heapPage' i bound]
  exact synced fr pid vpn table page' loaded' heapPage' address' unmarked' i bound

omit [Config] in
theorem store_word_congr (disk : t.disk = s.disk)
    (places : (t.ker.proctab pid).pbsd = (s.ker.proctab pid).pbsd) (i : Nat) :
    storeWord t pid vpn i = storeWord s pid vpn i := by
  rw [storeWord, storeWord, diskPage, diskPage, disk, storeOf, storeOf, places]

theorem is_page_of_core {x : Nat} (same : core (t.ipt x) = core (s.ipt x)) :
    IsPage t x pid vpn ↔ IsPage s x pid vpn := by
  simp only [core, Prod.mk.injEq] at same
  rw [IsPage, IsPage, same.1, same.2.1, same.2.2.1]

omit [Config] in
theorem heap_page_of_ker (ker : t.ker = s.ker) : HeapPage t pid vpn ↔ HeapPage s pid vpn := by
  rw [HeapPage, HeapPage, HeapLive, HeapLive, Live, Live, ker]

end Same

section Stages

/-- The table of a page is not a frame with a page. -/
theorem page_not_table {x : Nat} {owner : Int} (page : IsPage s x pid vpn)
    (isTable : IsTable s table owner) : x ≠ table := by
  rintro rfl
  have status := page.2.1
  rw [isTable.2.1] at status
  cases status

/-- The scan for a frame only clears marks in page tables. -/
theorem looked_same (tables : Tables s empty fresh) (looked : Looked s t) :
    SamePages s empty t empty where
  frames := fun x q v => and_congr (is_page_of_core (looked.frames x)) Iff.rfl
  heap := fun _ q v _ _ after => (heap_page_of_ker looked.ker).mp after
  words := by
    intro x q v page _ i
    apply looked.others
    rintro y bound status _ ⟨equal, _⟩
    obtain ⟨owner, number, dir, table, mapping⟩ :=
      mapping_of_page tables bound status (proper_of_bound bound)
    rw [(mapping_place tables mapping).1, frame_ptr_page table mapping.isTable.1] at equal
    exact page_not_table page mapping.isTable (by omega)
  stores := fun q v _ i _ => store_word_congr looked.disk (by rw [looked.ker]) i

theorem looked_synced (tables : Tables s empty fresh) (looked : Looked s t)
    (synced : Synced s empty) : Synced t empty := by
  refine same_synced (looked_same tables looked) ?_ synced
  intro x q v table _ _ _ address unmarked
  rw [pdeOf, St.entry, looked.ker, (looked.words _ _).2.1] at address
  refine ⟨address, ?_⟩
  rw [Modified, (looked.words _ _).2.2] at unmarked
  exact unmarked

omit [Config] in
/-- A page that has been written back is in its store. -/
theorem written_back (source : Nat) (bsId : Int) (page i : Nat) (bound : i < 1024) :
    diskPage { s with disk := writeBack s source bsId page } bsId page i = s.mem source i := by
  rw [diskPage]
  dsimp only [writeBack]
  have inside : pageBlock bsId page ≤ pageBlock bsId page + i / 128 ∧
      pageBlock bsId page + i / 128 < pageBlock bsId page + 8 := by omega
  rw [if_pos inside]
  congr 1
  omega

omit [Config] in
theorem written_apart (source : Nat) {bsId other : Int} {page otherPage : Nat}
    (apart : Xinu.Swap.Places.Apart bsId other page otherPage) (i : Nat) (bound : i < 1024) :
    diskPage { s with disk := writeBack s source bsId page } other otherPage i =
      diskPage s other otherPage i := by
  rw [diskPage, diskPage]
  dsimp only [writeBack]
  rw [if_neg]
  rcases apart with below | above
  · omega
  · omega

/-- What an eviction does to the stores. -/
theorem evicted_stores {gone : St} {owner : Int} {page : Nat} (kept : StoresKept s)
    (synced : Synced s empty) (mapping : Mapping s fr owner page d table)
    (out : EvictedFrame s gone fr owner page d table) {q : Int} {v i : Nat}
    (heapPage : HeapPage s q v) (bound : i < 1024) :
    storeWord gone q v i =
      if q = owner ∧ v = page then s.mem (frame0 + fr) i else storeWord s q v i := by
  have places : storeOf gone.ker q v = storeOf s.ker q v := by rw [out.ker]
  rcases out.disk with ⟨unmarked, disk⟩ | ⟨_, _, _, disk⟩
  · have same : storeWord gone q v i = storeWord s q v i := by
      rw [storeWord, storeWord, places, diskPage, diskPage, disk]
    rw [same]
    split
    · rename_i here
      rw [here.1, here.2]
      exact (synced fr owner page table mapping.page (proper_of_bound mapping.page.1)
        mapping.heapPage mapping.address unmarked i bound).symm
    · rfl
  · have isWritten : storeWord gone q v i = diskPage { s with
        disk := writeBack s (frame0 + fr) (storeOf s.ker owner page) (storePage page) }
        (storeOf s.ker q v) (storePage v) i := by
      rw [storeWord, places, diskPage, diskPage, disk]
    rw [isWritten]
    split
    · rename_i here
      rw [here.1, here.2]
      exact written_back _ _ _ i bound
    · rename_i other
      obtain ⟨store, placed⟩ := page_placed kept mapping.heapPage
      obtain ⟨otherStore, otherPlaced⟩ := page_placed kept heapPage
      have apart := placed_apart kept mapping.heapPage heapPage placed otherPlaced
        fun same => other ⟨same.1.symm, same.2.symm⟩
      have here : storeOf s.ker owner page = (store : Int) := placed.place
      have there : storeOf s.ker q v = (otherStore : Int) := otherPlaced.place
      rw [storeWord, here, there]
      exact written_apart _ apart i bound

/-- An eviction keeps all bases, and the marks of all entries but one. -/
theorem evicted_words {gone : St} {owner : Int} {page : Nat}
    (mapping : Mapping s fr owner page d table) (out : EvictedFrame s gone fr owner page d table)
    (p i : Nat) :
    base (gone.mem p i) = base (s.mem p i) ∧
      (¬(p = frame0 + table ∧ i = page % 1024) →
        (dirty (gone.mem p i) = true ∨ avail (gone.mem p i) = 1 ↔
          dirty (s.mem p i) = true ∨ avail (s.mem p i) = 1)) := by
  by_cases here : p = frame0 + table ∧ i = page % 1024
  · refine ⟨?_, fun other => absurd here other⟩
    rw [here.1, here.2]
    exact out.entry.2
  · rw [out.mem p i here, drop_page_mem (table_ne_dir mapping)]
    split
    · simp
    · simp

/-- The page that is evicted is in its store from then on, and the others stay where they are. -/
theorem evicted_carries {gone : St} {owner : Int} {page : Nat} (tables : Tables s empty fresh)
    (kept : StoresKept s) (synced : Synced s empty) (mapping : Mapping s fr owner page d table)
    (out : EvictedFrame s gone fr owner page d table) :
    Carries s empty gone fr ∧ Synced gone fr := by
  have apart := table_ne_dir mapping
  -- the frames of pages are neither the table nor the directory
  have frames : ∀ x q v, IsPage s x q v → core (gone.ipt x) = core (s.ipt x) := by
    intro x q v isPage
    rw [out.ipt, drop_page_ipt (page_not_table isPage mapping.isTable)]
  have words : ∀ x q v, IsPage s x q v → ∀ i, gone.mem (frame0 + x) i = s.mem (frame0 + x) i := by
    intro x q v isPage i
    have notTable := page_not_table isPage mapping.isTable
    have notDir : x ≠ d := by
      rintro rfl
      have status := isPage.2.1
      rw [mapping.dirStatus] at status
      cases status
    rw [out.mem _ i (by omega), drop_page_frame apart notTable notDir]
  have back : ∀ x q v, IsPage gone x q v → IsPage s x q v := by
    intro x q v isPage
    by_cases here : x = table
    · subst here
      exfalso
      have status := isPage.2.1
      rw [out.ipt] at status
      by_cases last : (s.ipt x).refCount = 1
      · rw [drop_page_last last] at status
        simp [releaseTable, clearedFrame] at status
      · rw [drop_page_more last, (unmap_page_status s x x (page % 1024)).1,
          mapping.isTable.2.1] at status
        cases status
    · have same : core (gone.ipt x) = core (s.ipt x) := by rw [out.ipt, drop_page_ipt here]
      exact (is_page_of_core same).mp isPage
  have unique : ∀ x, IsPage s x owner page → x = fr := by
    intro x isPage
    obtain ⟨q, v, other, _, maps⟩ := tables.mapped x isPage.1 isPage.2.1 (proper_of_bound isPage.1)
    have sameOwner : q = owner := other.2.2.1.symm.trans isPage.2.2.1
    have sameNumber : (v : Int) = page := other.2.2.2.symm.trans isPage.2.2.2
    have samePage : v = page := by omega
    rw [sameOwner, samePage] at maps
    have left := maps.2.2
    have right := mapping.maps.2.2
    omega
  constructor
  · intro q v i word heapPage bound holds
    have stored := evicted_stores kept synced mapping out heapPage bound
    cases holds with
    | frame x isPage loaded same =>
        by_cases here : x = fr
        · subst here
          have sameOwner : q = owner := isPage.2.2.1.symm.trans mapping.page.2.2.1
          have sameNumber : (v : Int) = page := isPage.2.2.2.symm.trans mapping.page.2.2.2
          have samePage : v = page := by omega
          rw [if_pos ⟨sameOwner, samePage⟩, same] at stored
          refine .store ?_ stored
          intro y inGone
          apply unique
          rw [← sameOwner, ← samePage]
          exact back y q v inGone
        · exact .frame x ((is_page_of_core (frames x q v isPage)).mpr isPage) here
            ((words x q v isPage i).trans same)
    | store absent same =>
        have other : ¬(q = owner ∧ v = page) := by
          rintro ⟨rfl, rfl⟩
          exact proper_of_bound mapping.page.1 (absent fr mapping.page)
        rw [if_neg other, same] at stored
        refine .store ?_ stored
        intro x inGone
        have isPage := back x q v inGone
        exact absurd (absent x isPage) (proper_of_bound isPage.1)
  · intro x q v other inGone loaded heapPage address unmarked i bound
    have isPage := back x q v inGone
    have heapPage' : HeapPage s q v := (heap_page_of_ker out.ker).mp heapPage
    have different : ¬(q = owner ∧ v = page) := by
      rintro ⟨rfl, rfl⟩
      exact loaded (unique x isPage)
    have stored := evicted_stores kept synced mapping out heapPage' bound
    rw [if_neg different] at stored
    rw [words x q v isPage i, stored]
    obtain ⟨q', v', dir, place, there⟩ :=
      mapping_of_page tables isPage.1 isPage.2.1 (proper_of_bound isPage.1)
    have samePid : q' = q := there.page.2.2.1.symm.trans isPage.2.2.1
    have sameNumber : (v' : Int) = v := there.page.2.2.2.symm.trans isPage.2.2.2
    have sameVpn : v' = v := by omega
    rw [samePid, sameVpn] at there
    have address' : base (pdeOf s q (v / 1024)) = frame0 + other := by
      rw [← address, pdeOf, pdeOf, St.entry, St.entry, out.ker]
      exact ((evicted_words mapping out _ _).1).symm
    have sameTable : place = other := by
      have here := there.address
      omega
    subst sameTable
    refine synced x q v place isPage (proper_of_bound isPage.1) heapPage' address' ?_ i bound
    rw [Modified, ← (evicted_words mapping out _ _).2]
    · exact unmarked
    · rintro ⟨equal, index⟩
      have same : place = table := by omega
      subst same
      have sameOwner : q = owner := there.isTable.2.2.symm.trans mapping.isTable.2.2
      subst sameOwner
      have own := private_of_heap tables heapPage'.1 heapPage'.2.1 heapPage'.2.2
      obtain ⟨live, low, high⟩ := mapping.heapPage
      have ownPage := private_of_heap tables live low high
      have sameEntry := tables.distinct q _ _ live own ownPage there.maps.1 mapping.maps.1
        (address'.trans mapping.address.symm)
      exact different ⟨rfl, by omega⟩

theorem inited_same {type : FrameStatus} {owner number : Int}
    (inited : Inited s final fr type owner number)
    (was : (s.ipt fr).status = .notUsed ∧ limbo = empty ∨ limbo = fr) :
    SamePages s limbo final fr where
  frames := by
    intro x q v
    constructor
    · rintro ⟨page, other⟩
      have page' := (is_page_of_core (inited_other inited other)).mp page
      rcases was with ⟨_, rfl⟩ | rfl
      · exact ⟨page', proper_of_bound page'.1⟩
      · exact ⟨page', other⟩
    · rintro ⟨page, loaded⟩
      have other : x ≠ fr := by
        rintro rfl
        rcases was with ⟨free, _⟩ | rfl
        · have status := page.2.1
          rw [free] at status
          cases status
        · exact loaded rfl
      exact ⟨(is_page_of_core (inited_other inited other)).mpr page, other⟩
  heap := fun _ q v _ _ after => (heap_page_of_ker inited.ker).mp after
  words := fun x q v _ _ i => by rw [inited.mem]
  stores := fun q v _ i _ => store_word_congr inited.disk (by rw [inited.ker]) i

theorem inited_synced {type : FrameStatus} {owner number : Int}
    (inited : Inited s final fr type owner number)
    (was : (s.ipt fr).status = .notUsed ∧ limbo = empty ∨ limbo = fr) (synced : Synced s limbo) :
    Synced final fr := by
  refine same_synced (inited_same inited was) ?_ synced
  intro x q v table _ _ _ address unmarked
  rw [pdeOf, St.entry, inited.ker, inited.mem] at address
  rw [Modified, inited.mem] at unmarked
  exact ⟨address, unmarked⟩

/-- An allocation changes no word of a heap. -/
theorem new_frame_carries {type : FrameStatus} {owner number : Int}
    (tables : Tables s empty fresh) (kept : StoresKept s) (synced : Synced s empty)
    (taken : NewFrame s final fr type owner number) :
    Carries s empty final fr ∧ Synced final fr := by
  cases taken with
  | unused chosen looked free inited =>
      have was : (chosen.ipt fr).status = .notUsed ∧ empty = empty ∨ empty = fr :=
        Or.inl ⟨(core_status (looked.frames fr)).trans free, rfl⟩
      refine ⟨carries_trans (same_carries (looked_same tables looked)) ?_
        (same_carries (inited_same inited was)), inited_synced inited was
          (looked_synced tables looked synced)⟩
      exact fun q v heapPage => (heap_page_of_ker looked.ker).mpr heapPage
  | evicted chosen gone owner page d table looked picks mapping out inited =>
      have chosenKept : StoresKept chosen := by
        refine kept_of_ker kept ?_ ?_ ?_ ?_ <;> rw [looked.ker]
      obtain ⟨outCarries, outSynced⟩ := evicted_carries (looked_tables tables looked) chosenKept
        (looked_synced tables looked synced) mapping out
      refine ⟨carries_trans (same_carries (looked_same tables looked)) ?_
        (carries_trans outCarries ?_ (same_carries (inited_same inited (Or.inr rfl)))),
        inited_synced inited (Or.inr rfl) outSynced⟩
      · exact fun q v heapPage => (heap_page_of_ker looked.ker).mpr heapPage
      · exact fun q v heapPage => (heap_page_of_ker out.ker).mpr heapPage

/-- A frame that holds no page need not be exempt. -/
theorem other_kind_same (other : (s.ipt fr).status ≠ .page) : SamePages s fr s empty where
  frames := fun x q v => by
    refine and_congr_right fun page => ⟨fun _ => ?_, fun _ => proper_of_bound page.1⟩
    rintro rfl
    exact other page.2.1
  heap := fun _ _ _ _ _ after => after
  words := fun _ _ _ _ _ _ => rfl
  stores := fun _ _ _ _ _ => rfl

theorem other_kind_synced (other : (s.ipt fr).status ≠ .page) (synced : Synced s fr) :
    Synced s empty :=
  same_synced (other_kind_same other) (fun _ _ _ _ _ _ _ address unmarked => ⟨address, unmarked⟩)
    synced

end Stages

section Faults

variable {pdi : Nat} {linked : St}

/-- A new page table changes no word of a heap. -/
theorem table_for_carries (tables : Tables s empty []) (kept : StoresKept s)
    (synced : Synced s empty) (live : HeapLive s pid) (made : TableFor s linked pid pdi table) :
    Carries s empty linked empty ∧ Synced linked empty := by
  cases made with
  | found same present address =>
      subst same
      exact ⟨fun _ _ _ _ _ _ holds => holds, synced⟩
  | made opened d words entry absent dirBound directory bound taken blank present address same =>
      obtain ⟨openedCarries, openedSynced⟩ := new_frame_carries tables kept synced taken
      have openedTables := new_frame_tables tables taken
      rw [if_neg (by decide)] at openedTables
      have isNew := new_frame_core taken
      simp only [core, newFrame, Prod.mk.injEq] at isNew
      have notPage : (opened.ipt table).status ≠ .page := by
        rw [isNew.1]
        decide
      have ker := new_frame_ker taken
      have openedLive := (new_frame_live taken).2.1.mpr live
      have openedDir : (opened.ker.proctab pid).pd = frameNum2ptr d := by rw [ker, directory]
      have openedAbsent : pres (pdeOf opened pid pdi) = false := by
        by_contra isPresent
        have before := (new_frame_pde_words taken).2 (by simpa using isPresent)
        rw [absent] at before
        cases before
      have unreferenced := new_frame_unreferenced tables bound taken
      have dirStatus : (opened.ipt d).status = .pdir := by
        obtain ⟨dir, inside, isDir, status, _⟩ := openedTables.dirs pid openedLive.1
        rwa [frame_ptr_injective dir d inside dirBound (isDir.symm.trans openedDir)] at status
      have linkedKer : linked.ker = opened.ker := by rw [same]; rfl
      have linkedIpt : linked.ipt = opened.ipt := by rw [same]; rfl
      have linkedDisk : linked.disk = opened.disk := by rw [same]; rfl
      have linkedMem : ∀ p i, p ≠ frame0 + table → ¬(p = frame0 + d ∧ i = pdi) →
          linked.mem p i = opened.mem p i := by
        intro p i notTable notEntry
        rw [same]
        exact link_table_word p i notTable notEntry
      have samePages : SamePages opened empty linked empty := by
        refine ⟨?_, fun _ q v _ _ after => (heap_page_of_ker linkedKer).mp after, ?_, ?_⟩
        · intro x q v
          rw [IsPage, IsPage, linkedIpt]
        · intro x q v page _ i
          apply linkedMem
          · rintro equal
            have same : x = table := by omega
            rw [← same] at notPage
            exact notPage page.2.1
          · rintro ⟨equal, _⟩
            have same : x = d := by omega
            have status := page.2.1
            rw [same, dirStatus] at status
            cases status
        · exact fun q v _ i _ => store_word_congr linkedDisk (by rw [linkedKer]) i
      have marks : ∀ x q v place, IsPage opened x q v → x ≠ empty → HeapPage opened q v →
          base (pdeOf linked q (v / 1024)) = frame0 + place → ¬Modified linked place (v % 1024) →
          base (pdeOf opened q (v / 1024)) = frame0 + place ∧
            ¬Modified opened place (v % 1024) := by
        intro x q v place page loaded heapPage leads unmarked
        obtain ⟨q', v', dir, place', there⟩ :=
          mapping_of_page openedTables page.1 page.2.1 loaded
        have samePid : q' = q := there.page.2.2.1.symm.trans page.2.2.1
        have sameNumber : (v' : Int) = v := there.page.2.2.2.symm.trans page.2.2.2
        have sameVpn : v' = v := by omega
        rw [samePid, sameVpn] at there
        have linkedDir : (linked.ker.proctab q).pd = frameNum2ptr dir := by
          rw [linkedKer, there.directory]
        have notTableDir : frame0 + dir ≠ frame0 + table := by
          intro equal
          have same : dir = table := by omega
          exact unreferenced.noDir q heapPage.1.1 (same ▸ there.directory)
        have entrySame : pdeOf linked q (v / 1024) = pdeOf opened q (v / 1024) := by
          rw [pde_word there.dirBound there.directory, pde_word there.dirBound linkedDir]
          apply linkedMem _ _ notTableDir
          rintro ⟨equal, index⟩
          have sameDir : dir = d := by omega
          have isDir := there.directory
          rw [sameDir] at isDir
          have sameOwner : q = pid :=
            dir_owner openedTables openedLive heapPage.1.1 dirBound openedDir isDir
          have isPresent := there.maps.1
          rw [sameOwner, index, openedAbsent] at isPresent
          cases isPresent
        rw [entrySame] at leads
        have samePlace : place' = place := by
          have here := there.address
          omega
        subst samePlace
        have own := private_of_heap openedTables heapPage.1 heapPage.2.1 heapPage.2.2
        have other : place' ≠ table := by
          rintro rfl
          exact unreferenced.noTable q _ heapPage.1 own there.maps.1 leads
        have notDir : place' ≠ d := by
          rintro rfl
          have status := there.isTable.2.1
          rw [dirStatus] at status
          cases status
        refine ⟨leads, ?_⟩
        rw [Modified, linkedMem _ _ (by omega) (by omega)] at unmarked
        exact unmarked
      have openedSynced' := other_kind_synced notPage openedSynced
      refine ⟨carries_trans openedCarries ?_ (carries_trans (same_carries
        (other_kind_same notPage)) (fun _ _ heapPage => heapPage) (same_carries samePages)),
        same_synced samePages marks openedSynced'⟩
      exact fun q v heapPage => ((new_frame_live taken).2.2 v).mpr heapPage

/-- The page comes from its store into the new frame. -/
theorem filled_carries {fetched : St} (tables : Tables fetched fr [table])
    (synced : Synced fetched fr) (heapPage : HeapPage fetched pid vpn)
    (page : IsPage fetched fr pid vpn) (present : pres (pdeOf fetched pid (vpn / 1024)) = true)
    (address : base (pdeOf fetched pid (vpn / 1024)) = frame0 + table)
    (absent : pres (pteOf fetched pid (vpn / 1024) (vpn % 1024)) = false)
    (filled : Filled fetched final fr table pid vpn) :
    Carries fetched fr final empty ∧ Synced final empty := by
  obtain ⟨entry, _, _, _, _, same⟩ := filled.state
  have own := private_of_heap tables heapPage.1 heapPage.2.1 heapPage.2.2
  obtain ⟨t, isTable, tableBase⟩ := tables.tables pid _ heapPage.1 own present
  have sameTable : t = table := by omega
  subst sameTable
  have ker : final.ker = fetched.ker := by rw [same]; rfl
  have disk : final.disk = fetched.disk := by rw [same]; rfl
  have pages : ∀ x q v, IsPage final x q v ↔ IsPage fetched x q v := by
    intro x q v
    have kept := install_page_status (fetched.setPage (frame0 + fr)
      (diskPage fetched (storeOf fetched.ker pid vpn) (storePage vpn))) t entry x (vpn % 1024)
    rw [IsPage, IsPage, same]
    dsimp only
    rw [kept.1, kept.2.1, kept.2.2]
    rfl
  have word : ∀ p i, ¬(p = frame0 + t ∧ i = vpn % 1024) →
      final.mem p i = if p = frame0 + fr then storeWord fetched pid vpn i else fetched.mem p i := by
    intro p i other
    rw [same]
    exact if_neg other
  have notTable : fr ≠ t := page_not_table page isTable
  have single : ∀ x, IsPage fetched x pid vpn → x = fr := by
    intro x isPage
    by_contra loaded
    obtain ⟨q, v, other, _, maps⟩ := tables.mapped x isPage.1 isPage.2.1 loaded
    have samePid : q = pid := other.2.2.1.symm.trans isPage.2.2.1
    have sameNumber : (v : Int) = vpn := other.2.2.2.symm.trans isPage.2.2.2
    have sameVpn : v = vpn := by omega
    rw [samePid, sameVpn] at maps
    have isPresent := maps.2.1
    rw [absent] at isPresent
    cases isPresent
  have owner : ∀ q v, IsPage fetched fr q v → q = pid ∧ v = vpn := by
    intro q v isPage
    have sameNumber : (v : Int) = vpn := isPage.2.2.2.symm.trans page.2.2.2
    exact ⟨isPage.2.2.1.symm.trans page.2.2.1, by omega⟩
  have stores : ∀ q v i, storeWord final q v i = storeWord fetched q v i :=
    fun q v i => store_word_congr disk (by rw [ker]) i
  have inFrame : ∀ i, final.mem (frame0 + fr) i = storeWord fetched pid vpn i := by
    intro i
    rw [word _ i (by omega), if_pos rfl]
  have elsewhere : ∀ x q v, IsPage fetched x q v → x ≠ fr → ∀ i,
      final.mem (frame0 + x) i = fetched.mem (frame0 + x) i := by
    intro x q v isPage loaded i
    have apart := page_not_table isPage isTable
    rw [word _ i (by omega), if_neg (by omega)]
  constructor
  · intro q v i value _ bound holds
    cases holds with
    | frame x isPage loaded isWord =>
        exact .frame x ((pages x q v).mpr isPage) (proper_of_bound isPage.1)
          ((elsewhere x q v isPage loaded i).trans isWord)
    | store outside isWord =>
        by_cases here : q = pid ∧ v = vpn
        · rw [here.1, here.2] at isWord ⊢
          exact .frame fr ((pages fr pid vpn).mpr page) (proper_of_bound page.1)
            ((inFrame i).trans isWord)
        · refine .store ?_ ((stores q v i).trans isWord)
          intro x isPage
          have before := (pages x q v).mp isPage
          rw [outside x before] at before
          exact absurd (owner q v before) here
  · intro x q v place isPage _ heapPageAfter leads unmarked i bound
    have before := (pages x q v).mp isPage
    by_cases here : x = fr
    · subst here
      obtain ⟨rfl, rfl⟩ := owner q v before
      rw [inFrame, stores]
    · have heapPage' : HeapPage fetched q v := (heap_page_of_ker ker).mp heapPageAfter
      obtain ⟨q', v', dir, place', there⟩ := mapping_of_page tables before.1 before.2.1 here
      have samePid : q' = q := there.page.2.2.1.symm.trans before.2.2.1
      have sameNumber : (v' : Int) = v := there.page.2.2.2.symm.trans before.2.2.2
      have sameVpn : v' = v := by omega
      rw [samePid, sameVpn] at there
      have finalDir : (final.ker.proctab q).pd = frameNum2ptr dir := by rw [ker, there.directory]
      have notPage : dir ≠ fr := by
        rintro rfl
        have status := there.dirStatus
        rw [page.2.1] at status
        cases status
      have notTable' : dir ≠ t := by
        rintro rfl
        have status := there.dirStatus
        rw [isTable.2.1] at status
        cases status
      have entrySame : pdeOf final q (v / 1024) = pdeOf fetched q (v / 1024) := by
        rw [pde_word there.dirBound there.directory, pde_word there.dirBound finalDir,
          word _ _ (by omega), if_neg (by omega)]
      rw [entrySame] at leads
      have samePlace : place' = place := by
        have here := there.address
        omega
      subst samePlace
      have placeNotPage : place' ≠ fr := fun equal => page_not_table page there.isTable equal.symm
      rw [elsewhere x q v before here i, stores]
      refine synced x q v place' before here heapPage' leads ?_ i bound
      rw [Modified, word, if_neg (by omega)] at unmarked
      · exact unmarked
      · rintro ⟨equal, index⟩
        have same : place' = t := by omega
        subst same
        have sameOwner : q = pid := there.isTable.2.2.symm.trans isTable.2.2
        subst sameOwner
        have ownOther := private_of_heap tables heapPage'.1 heapPage'.2.1 heapPage'.2.2
        have sameEntry := tables.distinct q _ _ heapPage.1 ownOther own there.maps.1 present
          (leads.trans address.symm)
        have samePage : v = vpn := by omega
        subst samePage
        exact here (single x before)

/-- A page fault that keeps its table changes no word of a heap. -/
theorem served_carries (tables : Tables s empty []) (kept : StoresKept s)
    (synced : Synced s empty) (heapPage : HeapPage s pid vpn)
    (notMapped : ¬(pres (pdeOf s pid (vpn / 1024)) = true ∧
      pres (pteOf s pid (vpn / 1024) (vpn % 1024)) = true))
    (keeps : ¬LosesTable s pid (vpn / 1024)) (served : Served s final pid vpn fr table) :
    Carries s empty final empty ∧ Synced final empty := by
  obtain ⟨linked, fetched, made, taken, filled⟩ := served.stages
  obtain ⟨live, low, high⟩ := heapPage
  have own := private_of_heap tables live low high
  obtain ⟨linkedTables, _, _, linkedKer⟩ := table_for_tables tables live own made
  obtain ⟨linkedCarries, linkedSynced⟩ := table_for_carries tables kept synced live made
  have linkedKept : StoresKept linked := by
    refine kept_of_ker kept ?_ ?_ ?_ ?_ <;> rw [linkedKer]
  obtain ⟨fetchedCarries, fetchedSynced⟩ :=
    new_frame_carries linkedTables linkedKept linkedSynced taken
  obtain ⟨fetchedTables, fetchedPresent, fetchedBase⟩ :=
    fetched_tables tables live own keeps made taken
  have linkedPage : HeapPage linked pid vpn := (heap_page_of_ker linkedKer).mpr ⟨live, low, high⟩
  have fetchedPage : HeapPage fetched pid vpn := ((new_frame_live taken).2.2 vpn).mpr linkedPage
  have isNew := new_frame_core taken
  simp only [core, newFrame, Prod.mk.injEq] at isNew
  obtain ⟨finalCarries, finalSynced⟩ := filled_carries fetchedTables fetchedSynced fetchedPage
    ⟨served.bound, isNew.1, isNew.2.1, isNew.2.2.1⟩ fetchedPresent fetchedBase
    (new_frame_pte_words taken (table_for_absent tables live own made notMapped)) filled
  refine ⟨carries_trans linkedCarries ?_ (carries_trans fetchedCarries ?_ finalCarries),
    finalSynced⟩
  · exact fun q v before => (heap_page_of_ker linkedKer).mpr before
  · exact fun q v before => ((new_frame_live taken).2.2 v).mpr before

end Faults

end Xinu.Space.Contents
