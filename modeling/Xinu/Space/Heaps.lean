import Xinu.Space.Contents
import Xinu.Space.FrameTable

/-!
# The heaps over whole runs

To its process a heap is an array of bytes: no step changes a byte of a heap but a store
of the process itself to its address.
-/

namespace Xinu.Space.Heaps

open Xinu.Kernel.State Xinu.Kernel.Entry Xinu.Kernel.Semaphore Xinu.Lib.StateError
open Xinu.Paging.Address Xinu.Paging.BackingStore Xinu.Paging.Ipt Xinu.Paging.Handler
open Xinu.Paging.Process Xinu.Paging.Cpu Xinu.Paging.System
open Xinu.Processes.KernelVariables Xinu.Processes.Steps Xinu.Replacement.Fifo
open Xinu.Space.Agreement Xinu.Space.Transfers Xinu.Space.Evict Xinu.Space.Allocate
open Xinu.Space.Fault Xinu.Space.Service Xinu.Space.Ownership Xinu.Space.Members Xinu.Space.Boot
open Xinu.Space.Contents Xinu.Space.FrameTable Xinu.Space.Runs
open Xinu.Swap.Allocation Xinu.Swap.Places Xinu.Swap.Conservation

set_option autoImplicit false

/-- A word of a heap page, wherever it is. -/
def heapWord (s : St) (pid : Int) (vpn i : Nat) : Word :=
  if pres (pdeOf s pid (vpn / 1024)) = true ∧
      pres (pteOf s pid (vpn / 1024) (vpn % 1024)) = true then
    s.mem (base (pteOf s pid (vpn / 1024) (vpn % 1024))) i
  else storeWord s pid vpn i

/-- The byte of a process at an address of its heap. -/
def heapByte (s : St) (pid : Int) (a : Nat) : Byte :=
  byteOf (heapWord s pid (vaddr2vpn a) (vaddr2offset a / 4)) (vaddr2offset a % 4)

variable [Config] {s t final : St} {pid : Int} {a vpn i : Nat} {word : Word}

theorem holds_heap_word (tables : Tables s empty []) (heapPage : HeapPage s pid vpn) :
    Holds s empty pid vpn i word ↔ heapWord s pid vpn i = word := by
  have agrees := frame_table_agrees tables
  rw [heapWord]
  split
  · rename_i present
    obtain ⟨fr, page, unique⟩ := (agrees.pages pid vpn heapPage).mp present
    have address := agrees.frames pid vpn fr heapPage present page
    rw [address]
    constructor
    · intro holds
      cases holds with
      | frame x isPage _ same => rw [← unique x isPage, same]
      | store absent _ => exact absurd (absent fr page) (proper_of_bound page.1)
    · exact fun same => .frame fr page (proper_of_bound page.1) same
  · rename_i absent
    have none : ∀ fr, IsPage s fr pid vpn → fr = empty := by
      intro fr page
      have mapped := page_mapped tables page
      exact absurd ⟨mapped.1, mapped.2.1⟩ absent
    constructor
    · intro holds
      cases holds with
      | frame x isPage loaded _ => exact absurd (none x isPage) loaded
      | store _ same => exact same
    · exact fun same => .store none same

/-- The words of the heaps that are there afterwards are as before. -/
def Keeps (s final : St) : Prop :=
  ∀ pid vpn i word, HeapPage s pid vpn → Live final pid → i < 1024 →
    Holds s empty pid vpn i word → Holds final empty pid vpn i word

theorem keeps_of_carries (carries : Carries s empty final empty) : Keeps s final :=
  fun pid vpn i word heapPage _ bound holds => carries pid vpn i word heapPage bound holds

section Kernel

/-- Two states that differ in nothing a heap depends on. -/
structure SameHeaps (s t : St) : Prop where
  frames : t.ipt = s.ipt ∧ t.mem = s.mem ∧ t.disk = s.disk
  heap : ∀ q, HeapLive t q ↔ HeapLive s q
  procs : ∀ q, HeapLive s q → (t.ker.proctab q).pd = (s.ker.proctab q).pd ∧
    (t.ker.proctab q).hsize = (s.ker.proctab q).hsize ∧
    (t.ker.proctab q).pbsd = (s.ker.proctab q).pbsd

theorem same_heaps_pages (same : SameHeaps s t) : SamePages s empty t empty where
  frames := fun x q v => by rw [IsPage, IsPage, same.frames.1]
  heap := by
    rintro x q v _ _ ⟨live, low, high⟩
    have before := (same.heap q).mp live
    rw [(same.procs q before).2.1] at high
    exact ⟨before, low, high⟩
  words := fun x q v _ _ i => by rw [same.frames.2.1]
  stores := fun q v heapPage i _ =>
    store_word_congr same.frames.2.2 (same.procs q heapPage.1).2.2 i

theorem same_heaps_synced (same : SameHeaps s t) (synced : Synced s empty) : Synced t empty := by
  refine same_synced (same_heaps_pages same) ?_ synced
  intro x q v table _ _ heapPage address unmarked
  rw [pdeOf, St.entry, (same.procs q heapPage.1).1, same.frames.2.1] at address
  rw [Modified, same.frames.2.1] at unmarked
  exact ⟨address, unmarked⟩

omit [Config] in
/-- All processes have kept their heaps. -/
theorem same_heaps_of_procs (frames : t.ipt = s.ipt ∧ t.mem = s.mem ∧ t.disk = s.disk)
    (procs : ∀ q, ∃ state, t.ker.proctab q = { s.ker.proctab q with prstate := state } ∧
      Reschedules (s.ker.proctab q).prstate state) : SameHeaps s t where
  frames := frames
  heap := by
    intro q
    obtain ⟨state, same, alive⟩ := procs q
    exact heap_live_of_space (space_rescheduled same alive)
  procs := by
    intro q _
    obtain ⟨state, same, _⟩ := procs q
    rw [same]
    exact ⟨rfl, rfl, rfl⟩

end Kernel

section Members

theorem killed_keeps (sound : Sound s) (synced : Synced s empty) (down : Killed pid s final) :
    Synced final empty ∧ Keeps s final := by
  obtain ⟨_, _, parted⟩ := killed_sound sound down
  have alive := (not_bad down.valid).2.2
  have fewerKept : StoresKept { s with ker := { s.ker with prcount := s.ker.prcount - 1 } } :=
    kept_of_ker sound.stores rfl rfl rfl rfl
  obtain ⟨memlist, freed, semtab, bstab, free, frames, _, _, same⟩ :=
    taken_down_stages fewerKept alive (killed_down down)
  have outside := keeps_ok (keeps_free_proc_frames pid) frames
  simp only [outsideView, Prod.mk.injEq] at outside
  have disk : final.disk = s.disk := by
    rw [same]
    exact outside.2.2.1
  have back : ∀ x q v, IsPage final x q v → IsPage s x q v := by
    intro x q v page
    have cores := parted.frames x page.1
    split at cores
    · have status := page.2.1
      rw [core_status cores] at status
      cases status
    · exact (is_page_of_core cores).mp page
  have stores : ∀ q v i, q ≠ pid → storeWord final q v i = storeWord s q v i :=
    fun q v i other => store_word_congr disk (by rw [parted.left.others q other]) i
  constructor
  · intro x q v table page _ heapPage address unmarked i bound
    obtain ⟨before, other⟩ := (parted_live parted q).2.mp heapPage.1
    have proc := parted.left.others q other
    rw [parted.mem, stores q v i other]
    refine synced x q v table (back x q v page) (proper_of_bound page.1) ⟨before, heapPage.2.1, ?_⟩ ?_ ?_ i bound
    · rw [← proc]
      exact heapPage.2.2
    · rw [pdeOf, St.entry, proc, parted.mem] at address
      exact address
    · rw [Modified, parted.mem] at unmarked
      exact unmarked
  · intro q v i word _ stays bound holds
    have other := ((parted_live parted q).1.mp stays).2
    cases holds with
    | frame x page loaded isWord =>
        have cores := parted_frame parted page.1 (by rw [page.2.2.1]; exact other)
        refine .frame x ((is_page_of_core cores).mpr page) loaded ?_
        rw [parted.mem]
        exact isWord
    | store absent isWord =>
        exact .store (fun x page => absent x (back x q v page)) ((stores q v i other).trans isWord)

/-- A new process finds its heap in its stores, and the others keep theirs. -/
theorem vcreated_keeps {hsize : Nat} (sound : Sound s) (synced : Synced s empty)
    (made : Vcreated pid hsize s final) :
    Synced final empty ∧ Keeps s final ∧ ∀ fr vpn, ¬IsPage final fr pid vpn := by
  obtain ⟨finalTables, _⟩ :=
    vcreated_grown sound.tables sound.queue sound.stores sound.owned sound.rooted made
  have joined := (vcreated_kept sound.stores made).2.1
  obtain ⟨memlist, nextpid, saddr, ssize, mapped, stored, directory, stores, same⟩ := made.stages
  obtain ⟨mappedStores, none, enough⟩ := admitted_stores sound.stores
    ⟨made.slot, Nat.not_lt_of_le made.enough, memlist, nextpid, directory⟩
  obtain ⟨_, ⟨pbsd, semtab, bstab, free, active, rfl⟩, _⟩ :=
    bs_init_ok mappedStores none enough stores
  let opening : St := { s with ker := entered s.ker memlist s.ker.createNextpid nextpid }
  let held : St := { opening with ker := taken opening.ker .pfSem }
  have openingAlike : Alike s opening := ⟨fun _ => rfl, fun _ => rfl, fun _ _ _ _ => ⟨rfl, rfl⟩⟩
  have openingQueue : QueueKept opening := queue_of_ker sound.queue rfl ⟨rfl, rfl⟩ rfl
  obtain ⟨d, opened, bound, allocated, mappedSame, mem, _⟩ :=
    init_pd_made (tables_congr sound.tables openingAlike) openingQueue directory
  have heldHeaps : SameHeaps s held :=
    ⟨⟨rfl, rfl, rfl⟩, fun _ => Iff.rfl, fun _ _ => ⟨rfl, rfl, rfl⟩⟩
  have heldTables : Tables held empty [] :=
    tables_congr sound.tables ⟨fun _ => rfl, fun _ => rfl, fun _ _ _ _ => ⟨rfl, rfl⟩⟩
  have heldKept : StoresKept held := kept_of_ker sound.stores rfl rfl rfl rfl
  obtain ⟨openedCarries, openedSynced⟩ :=
    new_frame_carries heldTables heldKept (same_heaps_synced heldHeaps synced) allocated
  have openedTables := new_frame_tables heldTables allocated
  rw [if_neg (by decide)] at openedTables
  have isNew : (opened.ipt d).status = .pdir := core_status (new_frame_core allocated)
  have notPage : (opened.ipt d).status ≠ .page := by
    rw [isNew]
    decide
  have ker : opened.ker = held.ker := new_frame_ker allocated
  have finalIpt : final.ipt = opened.ipt := by rw [same, mappedSame]
  have finalDisk : final.disk = opened.disk := by rw [same, mappedSame]
  have finalMem : ∀ p i, final.mem p i =
      if p = frame0 + d then initialPDE opening.ker i else opened.mem p i := by
    intro p i
    rw [same]
    exact mem p i
  have notNew : ∀ q v, HeapPage opened q v → q ≠ pid := by
    rintro q v heapPage rfl
    apply slot_dead made.slot
    have live := heapPage.1.1
    rw [Live, ker] at live
    exact live
  have proc : ∀ q, q ≠ pid → final.ker.proctab q = opened.ker.proctab q := by
    intro q other
    rw [joined.others q other, ker]
    rfl
  have owned : ∀ x q v, IsPage opened x q v → HeapPage opened q v := by
    intro x q v page
    obtain ⟨q', v', other, heapPage, _⟩ :=
      openedTables.mapped x page.1 page.2.1 (proper_of_bound page.1)
    have samePid : q' = q := other.2.2.1.symm.trans page.2.2.1
    have sameNumber : (v' : Int) = v := other.2.2.2.symm.trans page.2.2.2
    have sameVpn : v' = v := by omega
    rw [← samePid, ← sameVpn]
    exact heapPage
  have pages : SamePages opened empty final empty := by
    refine ⟨?_, fun x q v page _ _ => owned x q v page, ?_, ?_⟩
    · intro x q v
      rw [IsPage, IsPage, finalIpt]
    · intro x q v page _ i
      rw [finalMem, if_neg]
      intro equal
      have here : x = d := by omega
      rw [here] at page
      exact notPage page.2.1
    · intro q v heapPage i _
      exact store_word_congr finalDisk (by rw [proc q (notNew q v heapPage)]) i
  have finalSynced : Synced final empty := by
    refine same_synced pages ?_ (other_kind_synced notPage openedSynced)
    intro x q v table page loaded heapPage address unmarked
    obtain ⟨q', v', dir, place, there⟩ := mapping_of_page openedTables page.1 page.2.1 loaded
    have samePid : q' = q := there.page.2.2.1.symm.trans page.2.2.1
    have sameNumber : (v' : Int) = v := there.page.2.2.2.symm.trans page.2.2.2
    have sameVpn : v' = v := by omega
    rw [samePid, sameVpn] at there
    have unreferenced := new_frame_unreferenced heldTables bound allocated
    have notDir : dir ≠ d := by
      rintro rfl
      exact unreferenced.noDir q heapPage.1.1 there.directory
    have finalDir : (final.ker.proctab q).pd = frameNum2ptr dir := by
      rw [proc q (notNew q v heapPage), there.directory]
    have entrySame : pdeOf final q (v / 1024) = pdeOf opened q (v / 1024) := by
      rw [pde_word there.dirBound there.directory, pde_word there.dirBound finalDir, finalMem,
        if_neg (by omega)]
    rw [entrySame] at address
    have samePlace : place = table := by
      have here := there.address
      omega
    subst samePlace
    have notNewTable : place ≠ d := by
      rintro rfl
      have status := there.isTable.2.1
      rw [isNew] at status
      cases status
    refine ⟨address, ?_⟩
    rw [Modified, finalMem, if_neg (by omega)] at unmarked
    exact unmarked
  refine ⟨finalSynced, keeps_of_carries ?_, fun x v page => ?_⟩
  swap
  · have before := ((pages.frames x pid v).mp ⟨page, proper_of_bound page.1⟩).1
    exact notNew pid v (owned x pid v before) rfl
  have after : ∀ q v, HeapPage s q v → HeapPage opened q v :=
    fun q v heapPage => ((new_frame_live allocated).2.2 v).mpr heapPage
  exact carries_trans (same_carries (same_heaps_pages heldHeaps)) (fun _ _ before => before)
    (carries_trans openedCarries after (carries_trans (same_carries (other_kind_same notPage))
      (fun _ _ before => before) (same_carries pages)))

end Members

section Accesses

variable {fr table : Nat}

theorem touched_carries {write : Bool} (reached : Accessed s a fr table)
    (ran : touch a write s = .ok () final) (synced : Synced s empty) :
    Synced final empty ∧ Carries s empty final empty ∧
      (write = true → Modified final table (vaddr2vpn a % 1024)) := by
  obtain ⟨ker, words⟩ := touch_words ran
  have mem : ∀ p i, final.mem p i =
      if p = frame0 + table ∧ i = vaddr2vpn a % 1024 then
        if write = true then setDirty (setAcc (s.mem p i) true) true else setAcc (s.mem p i) true
      else s.mem p i := by
    intro p i
    cases ran
    dsimp only
    rw [set_word_mem, reached.pointer, frame_ptr_page table reached.isTable.1, reached.entry]
    split
    · rename_i here
      rw [here.1, here.2, St.entry, frame_ptr_page table reached.isTable.1]
    · rfl
  have rest : final.ipt = s.ipt ∧ final.disk = s.disk := by
    cases ran
    exact ⟨rfl, rfl⟩
  have pages : SamePages s empty final empty := by
    refine ⟨?_, fun _ q v _ _ after => (heap_page_of_ker ker).mp after, ?_, ?_⟩
    · intro x q v
      rw [IsPage, IsPage, rest.1]
    · intro x q v page _ i
      have apart := page_not_table page reached.isTable
      rw [mem, if_neg (by omega)]
    · exact fun q v _ i _ => store_word_congr rest.2 (by rw [ker]) i
  refine ⟨same_synced pages ?_ synced, same_carries pages, ?_⟩
  · intro x q v place _ _ _ address unmarked
    rw [pdeOf, ker, (words _ _).2] at address
    refine ⟨address, fun marked => unmarked ?_⟩
    rw [Modified, mem]
    split
    · cases write with
      | true => simp
      | false => simpa [Modified] using marked
    · exact marked
  · intro writes
    rw [Modified, mem, if_pos ⟨rfl, rfl⟩, if_pos writes]
    simp

/-- The word of a store, and no other, changes. -/
theorem stored_holds {value : Byte} (sound : Sound s) (synced : Synced s empty)
    (live : Live s s.ker.currpid) (ran : store a value s = .ok () final) :
    Synced final empty ∧ ∀ q v i word, HeapPage s q v → i < 1024 → Holds s empty q v i word →
      Holds final empty q v i
        (if q = s.ker.currpid ∧ v = vaddr2vpn a ∧ i = vaddr2offset a / 4 then
          setByte word (vaddr2offset a % 4) value else word) := by
  unfold store at ran
  rw [get_bind] at ran
  split at ran
  · rename_i access
    obtain ⟨_, touched, touchRan, ran⟩ := bind_ok_inv ran
    obtain ⟨fr, table, reached⟩ := access_reaches sound live access
    obtain ⟨touchedSynced, touchedCarries, marked⟩ :=
      touched_carries reached touchRan synced
    obtain ⟨touchedSound, _⟩ := touched_sound sound touchRan
    have ker := touch_ker _ _ _ _ _ touchRan
    have words := (touch_words touchRan).2
    have pd : currentPd touched = currentPd s := by rw [currentPd, currentPd, ker]
    have ipt : touched.ipt = s.ipt := by
      cases touchRan
      rfl
    have target : base (pte touched (currentPd touched) a) = frame0 + fr := by
      have same := reached.target
      unfold pte pdi2pt at same ⊢
      rw [pd, (words _ _).2, (words _ _).2]
      exact same
    have page : IsPage touched fr s.ker.currpid (vaddr2vpn a) := by
      rw [IsPage, ipt]
      exact reached.page
    cases ran
    dsimp only
    rw [target]
    have mem : ∀ p i, (touched.setWord (frame0 + fr) (vaddr2offset a / 4)
        (setByte (touched.mem (frame0 + fr) (vaddr2offset a / 4)) (vaddr2offset a % 4)
          value)).mem p i =
        if p = frame0 + fr ∧ i = vaddr2offset a / 4 then
          setByte (touched.mem p i) (vaddr2offset a % 4) value else touched.mem p i := by
      intro p i
      rw [set_word_mem]
      split
      · rename_i here
        rw [here.1, here.2]
      · rfl
    have single : ∀ x q v, IsPage touched x q v → x = fr →
        q = s.ker.currpid ∧ v = vaddr2vpn a := by
      rintro x q v isPage rfl
      have sameNumber : (v : Int) = vaddr2vpn a := isPage.2.2.2.symm.trans page.2.2.2
      exact ⟨isPage.2.2.1.symm.trans page.2.2.1, by omega⟩
    have only : ∀ x, IsPage touched x s.ker.currpid (vaddr2vpn a) → x = fr := by
      intro x isPage
      have left := (page_mapped touchedSound.tables isPage).2.2
      have right := (page_mapped touchedSound.tables page).2.2
      omega
    have touchedPde : base (pdeOf touched s.ker.currpid (vaddr2vpn a / 1024)) =
        frame0 + table := by
      rw [pdeOf, ker, (words _ _).2]
      exact reached.address
    constructor
    · intro x q v place isPage loaded heapPage address unmarked i bound
      have heapPage' : HeapPage touched q v := heapPage
      obtain ⟨q', v', dir, place', there⟩ :=
        mapping_of_page touchedSound.tables isPage.1 isPage.2.1 loaded
      have samePid : q' = q := there.page.2.2.1.symm.trans isPage.2.2.1
      have sameNumber : (v' : Int) = v := there.page.2.2.2.symm.trans isPage.2.2.2
      have sameVpn : v' = v := by omega
      rw [samePid, sameVpn] at there
      have notPage : ∀ {y owner}, IsTable touched y owner → y ≠ fr :=
        fun isTable equal => page_not_table page isTable equal.symm
      have dirNotPage : dir ≠ fr := by
        rintro rfl
        have status := there.dirStatus
        rw [page.2.1] at status
        cases status
      have entrySame : pdeOf (touched.setWord (frame0 + fr) (vaddr2offset a / 4)
          (setByte (touched.mem (frame0 + fr) (vaddr2offset a / 4)) (vaddr2offset a % 4)
            value)) q (v / 1024) = pdeOf touched q (v / 1024) := by
        rw [pde_word there.dirBound there.directory,
          pde_word (s := touched.setWord _ _ _) there.dirBound there.directory, mem,
          if_neg (by omega)]
      rw [entrySame] at address
      have samePlace : place' = place := by
        have here := there.address
        omega
      subst samePlace
      have placeNotPage := notPage there.isTable
      rw [Modified, mem, if_neg (by omega)] at unmarked
      have other : x ≠ fr := by
        intro here
        obtain ⟨rfl, rfl⟩ := single x q v isPage here
        have sameTable : place' = table := by omega
        rw [sameTable] at unmarked
        exact unmarked (marked rfl)
      rw [mem, if_neg (by omega)]
      exact touchedSynced x q v place' isPage loaded heapPage' address unmarked i bound
    · intro q v i word heapPage bound holds
      cases touchedCarries q v i word heapPage bound holds with
      | frame x isPage loaded same =>
          refine .frame x isPage loaded ?_
          rw [mem, same]
          refine if_congr ?_ rfl rfl
          constructor
          · rintro ⟨equal, index⟩
            obtain ⟨owner, number⟩ := single x q v isPage (by omega)
            exact ⟨owner, number, index⟩
          · rintro ⟨rfl, rfl, index⟩
            exact ⟨by rw [only x isPage], index⟩
      | store absent same =>
          rw [if_neg]
          · exact .store absent same
          · rintro ⟨rfl, rfl, _⟩
            exact proper_of_bound page.1 (absent fr page)
  · cases ran

theorem loaded_carries {value : Byte} (sound : Sound s) (synced : Synced s empty)
    (live : Live s s.ker.currpid) (ran : load a s = .ok value final) :
    Synced final empty ∧ Carries s empty final empty ∧
      HeapPage s s.ker.currpid (vaddr2vpn a) ∧
      Holds final empty s.ker.currpid (vaddr2vpn a) (vaddr2offset a / 4)
        (final.mem (base (pte final (currentPd final) a)) (vaddr2offset a / 4)) ∧
      value = final.byteAt (base (pte final (currentPd final) a)) (vaddr2offset a) := by
  unfold load at ran
  rw [get_bind] at ran
  split at ran
  · rename_i access
    obtain ⟨_, touched, touchRan, ran⟩ := bind_ok_inv ran
    obtain ⟨fr, table, reached⟩ := access_reaches sound live access
    obtain ⟨touchedSynced, touchedCarries, _⟩ := touched_carries reached touchRan synced
    obtain ⟨touchedSound, _⟩ := touched_sound sound touchRan
    have ker := touch_ker _ _ _ _ _ touchRan
    obtain ⟨again, _, after⟩ := access_reaches touchedSound
      (by rw [Live, ker]; exact live) (touched_accessible access touchRan)
    cases ran
    refine ⟨touchedSynced, touchedCarries, reached.heapPage, ?_, rfl⟩
    rw [after.target]
    have page := after.page
    rw [ker] at page
    exact .frame again page (proper_of_bound page.1) rfl
  · cases ran

end Accesses

section Steps

/-- A word of the heap of a process after a step. -/
def writtenWord (s : St) (event : Event) (pid : Int) (vpn i : Nat) (before : Word) : Word :=
  match event with
  | .store a value =>
      if pid = s.ker.currpid ∧ vpn = vaddr2vpn a ∧ i = vaddr2offset a / 4 then
        setByte before (vaddr2offset a % 4) value
      else before
  | _ => before

/-- The byte at an address of the heap of a process after a step. -/
def writtenByte (s : St) (event : Event) (pid : Int) (a : Nat) (before : Byte) : Byte :=
  match event with
  | .store b value => if pid = s.ker.currpid ∧ a = b then value else before
  | _ => before

omit [Config] in
theorem byte_of_written (event : Event) (before : Word) :
    byteOf (writtenWord s event pid (vaddr2vpn a) (vaddr2offset a / 4) before)
        (vaddr2offset a % 4) =
      writtenByte s event pid a (byteOf before (vaddr2offset a % 4)) := by
  cases event with
  | store b value =>
      dsimp only [writtenWord, writtenByte]
      by_cases own : pid = s.ker.currpid
      · by_cases here : vaddr2vpn a = vaddr2vpn b ∧ vaddr2offset a / 4 = vaddr2offset b / 4
        · rw [if_pos ⟨own, here⟩,
            byte_set_byte _ _ _ _ (Nat.mod_lt _ (by decide)) (Nat.mod_lt _ (by decide))]
          refine if_congr ?_ rfl rfl
          obtain ⟨page, word⟩ := here
          rw [page_number, page_number] at page
          rw [page_offset, page_offset] at word ⊢
          constructor
          · intro lane
            exact ⟨own, by omega⟩
          · rintro ⟨_, rfl⟩
            rfl
        · rw [if_neg fun all => here all.2, if_neg]
          rintro ⟨_, rfl⟩
          exact here ⟨rfl, rfl⟩
      · rw [if_neg fun all => own all.1, if_neg fun all => own all.1]
  | _ => rfl

theorem served_keeps (sound : Sound s) (synced : Synced s empty) (live : Live s s.ker.currpid)
    (faults : Faults s a) (valid : isInvalidAddr s.ker a s.ker.currpid = false)
    (enough : Enough s) (keeps : ¬LosesTable s s.ker.currpid (vaddr2pdi a)) {served : St}
    (ran : pfService s.ker.currpid a { s with ker := taken (counted s).ker .pfSem } =
      .ok () served) :
    Synced { served with ker := (counted s).ker } empty ∧
      Carries s empty { served with ker := (counted s).ker } empty := by
  let held : St := { s with ker := taken (counted s).ker .pfSem }
  obtain ⟨fr, table, index, heldPage, notMapped, outcome, _⟩ :=
    fault_served sound live faults valid (enough_fits enough) ran
  obtain ⟨heldSound, _⟩ := held_sound sound
  have heldKeeps : ¬LosesTable held s.ker.currpid (vaddr2vpn a / 1024) := by
    rw [← index]
    exact keeps
  have heldHeaps : SameHeaps s held :=
    ⟨⟨rfl, rfl, rfl⟩, fun _ => Iff.rfl, fun _ _ => ⟨rfl, rfl, rfl⟩⟩
  obtain ⟨servedCarries, servedSynced⟩ := served_carries heldSound.tables heldSound.stores
    (same_heaps_synced heldHeaps synced) heldPage notMapped heldKeeps outcome
  have ker : served.ker = held.ker := pf_service_ker _ _ _ _ _ ran
  have servedHeaps : SameHeaps served { served with ker := (counted s).ker } := by
    refine ⟨⟨rfl, rfl, rfl⟩, fun q => ?_, fun q _ => ?_⟩
    · rw [HeapLive, HeapLive, Live, Live, ker]
      exact Iff.rfl
    · rw [ker]
      exact ⟨rfl, rfl, rfl⟩
  refine ⟨same_heaps_synced servedHeaps servedSynced, ?_⟩
  exact carries_trans (same_carries (same_heaps_pages heldHeaps)) (fun _ _ before => before)
    (carries_trans servedCarries (fun q v before => (heap_page_of_ker ker).mpr before)
      (same_carries (same_heaps_pages servedHeaps)))

/-- A step that is no store changes no word of a heap. -/
theorem exec_keeps {event : Event} {reply : Reply} (sound : Sound s) (synced : Synced s empty)
    (serves : Serves s event) (ran : exec event s = .ok reply final)
    (other : ∀ a value, event ≠ .store a value) : Synced final empty ∧ Keeps s final := by
  obtain ⟨fixed, supplied, keeps⟩ := serves
  have running := exec_running ran
  cases exec_did ran with
  | switched pid target =>
      have same := same_heaps_of_procs (s := s)
        (t := { s with ker := switchedKer s.ker pid }) ⟨rfl, rfl, rfl⟩ (switched_proc target.2.2)
      exact ⟨same_heaps_synced same synced,
        keeps_of_carries (same_carries (same_heaps_pages same))⟩
  | resumed pid suspended =>
      have same := same_heaps_of_procs (s := s)
        (t := { s with ker := ready s.ker pid }) ⟨rfl, rfl, rfl⟩ (resumed_proc suspended)
      exact ⟨same_heaps_synced same synced,
        keeps_of_carries (same_carries (same_heaps_pages same))⟩
  | refused _ _ memlist createNext vcreateNext hand =>
      have same : SameHeaps s { s with
          ker := reserved s.ker memlist createNext vcreateNext, fifoNextframe := hand } :=
        ⟨⟨rfl, rfl, rfl⟩, fun _ => Iff.rfl, fun _ _ => ⟨rfl, rfl, rfl⟩⟩
      exact ⟨same_heaps_synced same synced,
        keeps_of_carries (same_carries (same_heaps_pages same))⟩
  | created ssize priority pid slot memlist nextpid saddr size =>
      have same : SameHeaps s { s with
          ker := createdKer (entered s.ker memlist nextpid s.ker.vcreateNextpid) pid saddr size } := by
        have others : ∀ q, q ≠ pid → (createdKer
            (entered s.ker memlist nextpid s.ker.vcreateNextpid) pid saddr size).proctab q =
            s.ker.proctab q := fun q other => Function.update_of_ne other _ _
        have plain : ((createdKer (entered s.ker memlist nextpid s.ker.vcreateNextpid) pid saddr
            size).proctab pid).vh = false := by simp [createdKer, Ker.setProc]
        refine ⟨⟨rfl, rfl, rfl⟩, fun q => ?_, fun q live => ?_⟩
        · by_cases here : q = pid
          · subst here
            constructor
            · rintro ⟨_, heap⟩
              rw [plain] at heap
              cases heap
            · exact fun live => absurd live.1 (slot_dead slot)
          · rw [HeapLive, HeapLive, Live, Live, others q here]
        · have here : q ≠ pid := by
            rintro rfl
            exact slot_dead slot live.1
          rw [others q here]
          exact ⟨rfl, rfl, rfl⟩
      exact ⟨same_heaps_synced same synced,
        keeps_of_carries (same_carries (same_heaps_pages same))⟩
  | vcreated ssize hsize priority pid final made =>
      obtain ⟨finalSynced, kept, _⟩ := vcreated_keeps sound synced made
      exact ⟨finalSynced, kept⟩
  | killed pid final down => exact killed_keeps sound synced down
  | served a final faults valid free served =>
      rcases running with ⟨pid, impossible⟩ | running
      · cases impossible
      obtain ⟨finalSynced, carries⟩ := served_keeps sound synced (live_of_running running) faults
        valid (supplied valid) keeps served
      exact ⟨finalSynced, keeps_of_carries carries⟩
  | removed a final faults invalid down =>
      obtain ⟨countedSound, _⟩ := counted_sound sound
      have same : SameHeaps s (counted s) :=
        ⟨⟨rfl, rfl, rfl⟩, fun _ => Iff.rfl, fun _ _ => ⟨rfl, rfl, rfl⟩⟩
      obtain ⟨finalSynced, kept⟩ :=
        killed_keeps countedSound (same_heaps_synced same synced) down
      refine ⟨finalSynced, fun q v i word heapPage alive bound holds => ?_⟩
      exact kept q v i word heapPage alive bound
        (same_carries (same_heaps_pages same) q v i word heapPage bound holds)
  | spared a faults =>
      have same : SameHeaps s (counted s) :=
        ⟨⟨rfl, rfl, rfl⟩, fun _ => Iff.rfl, fun _ _ => ⟨rfl, rfl, rfl⟩⟩
      exact ⟨same_heaps_synced same synced,
        keeps_of_carries (same_carries (same_heaps_pages same))⟩
  | loaded a value final loaded =>
      rcases running with ⟨pid, impossible⟩ | running
      · cases impossible
      obtain ⟨finalSynced, carries, _⟩ :=
        loaded_carries sound synced (live_of_running running) loaded
      exact ⟨finalSynced, keeps_of_carries carries⟩
  | stored a value final stored => exact absurd rfl (other a value)
  | policy policy status final ran => exact absurd fixed id

/-- One step changes a word of a heap only by a store of its process. -/
theorem exec_holds {event : Event} {reply : Reply} (sound : Sound s) (synced : Synced s empty)
    (serves : Serves s event) (ran : exec event s = .ok reply final) :
    Synced final empty ∧ ∀ q v i word, HeapPage s q v → Live final q → i < 1024 →
      Holds s empty q v i word → Holds final empty q v i (writtenWord s event q v i word) := by
  cases event with
  | store a value =>
      have live : Live s s.ker.currpid := by
        rcases exec_running ran with ⟨pid, impossible⟩ | running
        · cases impossible
        · exact live_of_running running
      obtain ⟨_, middle, stored, done⟩ := bind_ok_inv (exec_performed ran)
      cases done
      obtain ⟨finalSynced, holds⟩ := stored_holds sound synced live stored
      exact ⟨finalSynced, fun q v i word heapPage _ bound => holds q v i word heapPage bound⟩
  | _ => exact exec_keeps sound synced serves ran fun _ _ impossible => by cases impossible

/-- One step changes a byte of a heap only by a store of its process. -/
theorem exec_byte {event : Event} {reply : Reply} (sound : Sound s) (synced : Synced s empty)
    (serves : Serves s event) (ran : exec event s = .ok reply final) (live : HeapLive s pid)
    (inside : InHeap s.ker pid a) (alive : Live final pid) :
    heapByte final pid a = writtenByte s event pid a (heapByte s pid a) := by
  obtain ⟨finalSound, stays, _⟩ := exec_sound sound serves ran
  obtain ⟨heapPage, _⟩ := heap_page_of_address sound.stores live inside
  have same := stays.procs pid live.1 alive
  simp only [space, Prod.mk.injEq] at same
  have finalPage : HeapPage final pid (vaddr2vpn a) := by
    refine ⟨⟨alive, same.2.1.trans live.2⟩, heapPage.2.1, ?_⟩
    rw [same.2.2.2]
    exact heapPage.2.2
  have index : vaddr2offset a / 4 < 1024 := by
    rw [page_offset]
    omega
  have before := (holds_heap_word sound.tables heapPage (i := vaddr2offset a / 4)).mpr rfl
  have after := (exec_holds sound synced serves ran).2 pid _ _ _ heapPage alive index before
  rw [heapByte, (holds_heap_word finalSound.tables finalPage).mp after, byte_of_written]
  rfl

omit [Config] in
theorem load_accessible {value : Byte} (ran : load a s = .ok value final) : Accessible s a := by
  unfold load at ran
  rw [get_bind] at ran
  split at ran
  · assumption
  · cases ran

/-- A load returns the byte of the heap at its address. -/
theorem load_byte {value : Byte} (sound : Sound s) (synced : Synced s empty)
    (ran : exec (.load a) s = .ok (.byte value) final) :
    HeapLive s s.ker.currpid ∧ InHeap s.ker s.ker.currpid a ∧
      value = heapByte s s.ker.currpid a := by
  have live : Live s s.ker.currpid := by
    rcases exec_running ran with ⟨pid, impossible⟩ | running
    · cases impossible
    · exact live_of_running running
  obtain ⟨read, middle, loaded, done⟩ := bind_ok_inv (exec_performed ran)
  cases done
  obtain ⟨_, carries, heapPage, holds, same⟩ := loaded_carries sound synced live loaded
  obtain ⟨finalSound, _⟩ := loaded_sound sound loaded
  have ker := load_ker _ _ _ _ loaded
  have index : vaddr2offset a / 4 < 1024 := by
    rw [page_offset]
    omega
  have finalPage : HeapPage final s.ker.currpid (vaddr2vpn a) := (heap_page_of_ker ker).mpr heapPage
  have before := (holds_heap_word sound.tables heapPage (i := vaddr2offset a / 4)).mpr rfl
  have after := carries _ _ _ _ heapPage index before
  have left := (holds_heap_word finalSound.tables finalPage).mp after
  have right := (holds_heap_word finalSound.tables finalPage).mp holds
  refine ⟨heapPage.1, (load_accessible loaded).1, ?_⟩
  rw [same, St.byteAt, heapByte, ← right, left]

/-- A process that is new has no page in a frame. -/
theorem exec_born {event : Event} {reply : Reply} (sound : Sound s) (synced : Synced s empty)
    (fixed : Fixed s event) (ran : exec event s = .ok reply final) (live : HeapLive final pid) (dead : ¬Live s pid) :
    ∀ fr vpn, ¬IsPage final fr pid vpn := by
  have unborn : Live s pid → ∀ fr vpn, ¬IsPage final fr pid vpn := fun alive => absurd alive dead
  cases exec_did ran with
  | switched pid' target =>
      obtain ⟨state, same, alive⟩ := switched_proc target.2.2 pid
      exact unborn ((live_of_space (t := { s with ker := switchedKer s.ker pid' })
        (space_rescheduled same alive)).mp live.1)
  | resumed pid' suspended =>
      obtain ⟨state, same, alive⟩ := resumed_proc suspended pid
      exact unborn ((live_of_space (t := { s with ker := ready s.ker pid' })
        (space_rescheduled same alive)).mp live.1)
  | refused _ _ memlist createNext vcreateNext hand => exact unborn live.1
  | created ssize priority pid' slot memlist nextpid saddr size =>
      by_cases here : pid = pid'
      · subst here
        have heap := live.2
        simp [createdKer, Ker.setProc] at heap
      · have same : (createdKer (entered s.ker memlist nextpid s.ker.vcreateNextpid) pid' saddr
            size).proctab pid = s.ker.proctab pid := Function.update_of_ne here _ _
        have alive := live.1
        rw [Live, same] at alive
        exact unborn alive
  | vcreated ssize hsize priority pid' final made =>
      by_cases here : pid = pid'
      · subst here
        exact (vcreated_keeps sound synced made).2.2
      · have alive := live.1
        rw [Live, (vcreated_kept sound.stores made).2.1.others pid here] at alive
        exact unborn alive
  | killed pid' final down =>
      exact unborn ((parted_live (killed_sound sound down).2.2 pid).1.mp live.1).1
  | served a final faults valid free served => exact unborn live.1
  | removed a final faults invalid down =>
      exact unborn ((parted_live (killed_sound (counted_sound sound).1 down).2.2 pid).1.mp live.1).1
  | spared a faults => exact unborn live.1
  | loaded a value final loaded =>
      have alive := live.1
      rw [Live, load_ker _ _ _ _ loaded] at alive
      exact unborn alive
  | stored a value final stored =>
      have alive := live.1
      rw [Live, store_ker _ _ _ _ _ stored] at alive
      exact unborn alive
  | policy policy status final ran => exact absurd fixed id

end Steps

section Reached

variable {policy : Int}

theorem started_synced (started : Started policy s) : Synced s empty := by
  have ready := booted_ready started.1
  intro fr q v table page _ heapPage
  have heap := heapPage.1.2
  rw [(ready.noHeap q).1] at heap
  cases heap

theorem run_synced (run : Run (Started policy) Serves s) : Synced s empty := by
  induction run with
  | start started => exact started_synced started
  | step before serves ran induction => exact (exec_holds (run_sound before) induction serves ran).1

end Reached

end Xinu.Space.Heaps
