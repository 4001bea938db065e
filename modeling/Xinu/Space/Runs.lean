import Xinu.Space.Boot
import Xinu.Swap.Places

/-!
# Address spaces over whole runs

The tables stay in agreement in every run whose page faults get the frames they need and do
not lose the page table they work on.
-/

namespace Xinu.Space.Runs

open Xinu.Kernel.State Xinu.Kernel.Entry Xinu.Kernel.Semaphore Xinu.Lib.StateError
open Xinu.Paging.Address Xinu.Paging.Ipt Xinu.Paging.Handler Xinu.Paging.Process Xinu.Paging.Cpu
open Xinu.Paging.System Xinu.Processes.KernelVariables Xinu.Processes.Steps
open Xinu.Replacement.Fifo Xinu.Replacement.FifoRuns Xinu.Space.Agreement Xinu.Space.Allocate
open Xinu.Space.Fault Xinu.Space.Transfers Xinu.Space.Service Xinu.Space.Ownership Xinu.Space.Members Xinu.Space.Boot
open Xinu.Swap.Conservation Xinu.Swap.Places

set_option autoImplicit false

variable [Config]

/-- Every allocation of a page fault can be served. -/
def Supplied (s : St) : Event → Prop
  | .fault a => isInvalidAddr s.ker a s.ker.currpid = false → Enough s
  | _ => True

/-- A page fault does not evict the last page of the table that it works on. -/
def KeepsTable (s : St) : Event → Prop
  | .fault a => ¬LosesTable s s.ker.currpid (vaddr2pdi a)
  | _ => True

/-- What is known about the tables between two steps. -/
structure Sound (s : St) : Prop where
  tables : Tables s empty []
  queue : QueueKept s
  stores : StoresKept s
  owned : Owned s empty
  rooted : Rooted s

variable {s t final : St} {pid : Int} {a : Nat}

section Steps

theorem sound_of_alike (sound : Sound s) (alike : Alike s t)
    (roots : t.ker.gpt = s.ker.gpt ∧ t.ker.dpt = s.ker.dpt ∧ t.ker.gpd = s.ker.gpd)
    (queue : QueueKept t) (stores : StoresKept t) : Sound t ∧ Stays s t := by
  have stays := stays_of_alike sound.tables alike roots
  have live : ∀ q, Live t q ↔ Live s q := fun q => live_of_space (alike.procs q)
  refine ⟨⟨tables_congr sound.tables alike, queue, stores,
    owned_of_alike sound.tables alike sound.owned, ?_⟩, stays⟩
  refine rooted_stays sound.rooted sound.tables stays ((live _).mpr sound.rooted.null) ?_
  intro q after before
  exact absurd ((live q).mp after) before

omit [Config] in
theorem space_rescheduled {before after : Procent} {state : PrState}
    (same : after = { before with prstate := state }) (alive : Reschedules before.prstate state) :
    space after = space before := by
  subst same
  simp [space, alive.1]

/-- A step that only changes kernel variables. -/
theorem sound_of_ker (ker : Ker) (hand : Nat) (sound : Sound s)
    (procs : ∀ q, space (ker.proctab q) = space (s.ker.proctab q))
    (roots : ker.gpt = s.ker.gpt ∧ ker.dpt = s.ker.dpt ∧ ker.gpd = s.ker.gpd)
    (policy : ker.currpolicy = s.ker.currpolicy)
    (stores : StoresKept { s with ker := ker, fifoNextframe := hand }) :
    Sound { s with ker := ker, fifoNextframe := hand } ∧
      Stays s { s with ker := ker, fifoNextframe := hand } := by
  refine sound_of_alike sound ⟨procs, fun _ => rfl, fun _ _ _ _ => ⟨rfl, rfl⟩⟩ roots ?_ stores
  exact queue_of_ker sound.queue rfl ⟨rfl, rfl⟩ policy

theorem killed_sound (sound : Sound s) (down : Killed pid s final) :
    Sound final ∧ Stays s final ∧ Parted pid s final := by
  have alive := (not_bad down.valid).2.2
  let fewer : St := { s with ker := { s.ker with prcount := s.ker.prcount - 1 } }
  obtain ⟨fewerSound, fewerStays⟩ : Sound fewer ∧ Stays s fewer :=
    sound_of_ker _ s.fifoNextframe sound (fun _ => rfl) ⟨rfl, rfl, rfl⟩ rfl
      (kept_of_ker sound.stores rfl rfl rfl rfl)
  obtain ⟨parted, queue⟩ :=
    taken_down_parted fewerSound.stores fewerSound.queue alive (killed_down down)
  have tables := parted_tables fewerSound.tables alive down.notNull parted
  obtain ⟨owned, stays⟩ :=
    parted_owned fewerSound.tables fewerSound.owned alive down.notNull parted
  refine ⟨⟨tables, queue, (killed_kept sound.stores down).1, owned, ?_⟩,
    stays_trans fewerStays stays fun q before _ => before,
    ⟨⟨parted.left.dead, parted.left.others⟩, parted.roots, parted.mem, parted.frames⟩⟩
  refine rooted_stays fewerSound.rooted fewerSound.tables stays ?_ ?_
  · exact (parted_live parted _).1.mpr ⟨sound.rooted.null, Ne.symm down.notNull⟩
  · intro q after before
    exact absurd ((parted_live parted q).1.mp after).1 before

theorem counted_sound (sound : Sound s) : Sound (counted s) ∧ Stays s (counted s) :=
  sound_of_ker _ s.fifoNextframe sound (fun _ => rfl) ⟨rfl, rfl, rfl⟩ rfl
    (kept_of_ker sound.stores rfl rfl rfl rfl)

/-- A valid address on which the processor faults lies in the heap of the process. -/
theorem fault_in_heap (sound : Sound s) (live : Live s s.ker.currpid) (faults : Faults s a)
    (valid : isInvalidAddr s.ker a s.ker.currpid = false) :
    HeapLive s s.ker.currpid ∧ InHeap s.ker s.ker.currpid a := by
  obtain ⟨small, unmapped⟩ := faults
  rw [word32] at small
  unfold isInvalidAddr at valid
  simp only [decide_eq_false_iff_not, Nat.not_le] at valid
  have low : vheapStart ≤ a := by
    by_contra below
    apply unmapped
    have index : vaddr2pdi a < numGlobalPt := by
      rw [page_directory_index a small, numGlobalPt]
      rw [vheapStart] at below
      omega
    obtain ⟨present, address⟩ := sound.tables.shared _ live _ index
    have room : vaddr2pti a < 1024 := by
      rw [page_table_index]
      omega
    obtain ⟨isTable, full⟩ := sound.tables.globals _ index
    refine ⟨present, ?_⟩
    rw [pte, pdi2pt]
    have target : base (s.entry (currentPd s) (vaddr2pdi a)) = frame0 + vaddr2pdi a := address
    rw [target, frame_ptr_base _ isTable.1, St.entry, frame_ptr_page _ isTable.1]
    exact full _ room
  have heap : (s.ker.proctab s.ker.currpid).vh = true := by
    by_contra plain
    have none := sound.rooted.plain _ live (by simpa using plain)
    rw [none, word32] at valid
    rw [vheapStart] at low valid
    omega
  refine ⟨⟨live, heap⟩, low, ?_⟩
  have size := sound.tables.heaps _ ⟨live, heap⟩
  rw [word32, vheapStart, nbpg] at valid
  rw [vheapStart, nbpg]
  omega

/-- A fault begins with the lock taken, and otherwise where the last step has ended. -/
theorem held_sound (sound : Sound s) :
    Sound { s with ker := taken (counted s).ker .pfSem } ∧
      Stays s { s with ker := taken (counted s).ker .pfSem } :=
  sound_of_alike sound ⟨fun _ => rfl, fun _ => rfl, fun _ _ _ _ => ⟨rfl, rfl⟩⟩ ⟨rfl, rfl, rfl⟩
    (queue_of_ker sound.queue rfl ⟨rfl, rfl⟩ rfl) (kept_of_ker sound.stores rfl rfl rfl rfl)

/-- What a fault that is served does to the page of its address. -/
structure FaultServed (s served : St) (pid : Int) (a fr table : Nat) : Prop where
  index : vaddr2pdi a = vaddr2vpn a / 1024
  heapPage : HeapPage s pid (vaddr2vpn a)
  notMapped : ¬(pres (pdeOf s pid (vaddr2vpn a / 1024)) = true ∧
    pres (pteOf s pid (vaddr2vpn a / 1024) (vaddr2vpn a % 1024)) = true)
  outcome : Served s served pid (vaddr2vpn a) fr table
  queue : QueueKept served

theorem fault_served (sound : Sound s) (live : Live s s.ker.currpid) (faults : Faults s a)
    (valid : isInvalidAddr s.ker a s.ker.currpid = false)
    (fits : Fits s s.ker.currpid (vaddr2pdi a)) {served : St}
    (ran : pfService s.ker.currpid a { s with ker := taken (counted s).ker .pfSem } =
      .ok () served) :
    ∃ fr table, FaultServed { s with ker := taken (counted s).ker .pfSem } served s.ker.currpid a
      fr table := by
  let held : St := { s with ker := taken (counted s).ker .pfSem }
  obtain ⟨heapLive, inside⟩ := fault_in_heap sound live faults valid
  obtain ⟨heapPage, small⟩ := heap_page_of_address sound.stores heapLive inside
  obtain ⟨bound, unmapped⟩ := faults
  have index : vaddr2pdi a = vaddr2vpn a / 1024 := by
    rw [page_directory_index a bound, page_number]
    omega
  have entry : vaddr2pti a = vaddr2vpn a % 1024 := by rw [page_table_index, page_number]
  obtain ⟨heldSound, _⟩ := held_sound sound
  have heldPage : HeapPage held s.ker.currpid (vaddr2vpn a) := heapPage
  have heldFits : Fits held s.ker.currpid (vaddr2vpn a / 1024) := index ▸ fits
  obtain ⟨⟨fr, table, outcome⟩, queue⟩ := ends_ok
    (pf_service_ends heldSound.tables heldSound.queue heldPage bound rfl heldFits) ran
  refine ⟨fr, table, index, heldPage, ?_, outcome, queue⟩
  rintro ⟨present, presPage⟩
  obtain ⟨t, isTable, address⟩ := heldSound.tables.tables _ _ heldPage.1
    (private_of_heap heldSound.tables heldPage.1 heldPage.2.1 heldPage.2.2) present
  apply unmapped
  rw [← index] at present presPage address
  refine ⟨present, ?_⟩
  have target : base (s.entry (currentPd s) (vaddr2pdi a)) = frame0 + t := address
  rw [pteOf, address, ← entry] at presPage
  rw [pte, pdi2pt, target, frame_ptr_base t isTable.1, St.entry, frame_ptr_page t isTable.1]
  exact presPage

/-- A page fault that is served. -/
theorem served_sound (sound : Sound s) (live : Live s s.ker.currpid) (faults : Faults s a)
    (valid : isInvalidAddr s.ker a s.ker.currpid = false)
    (fits : Fits s s.ker.currpid (vaddr2pdi a))
    (keeps : ¬LosesTable s s.ker.currpid (vaddr2pdi a)) {served : St}
    (ran : pfService s.ker.currpid a { s with ker := taken (counted s).ker .pfSem } =
      .ok () served) :
    Sound { served with ker := (counted s).ker } ∧
      Stays s { served with ker := (counted s).ker } ∧ AddsProper s served := by
  let held : St := { s with ker := taken (counted s).ker .pfSem }
  obtain ⟨fr, table, index, heldPage, notMapped, outcome, queue⟩ :=
    fault_served sound live faults valid fits ran
  obtain ⟨heldSound, heldStays⟩ := held_sound sound
  have heldKeeps : ¬LosesTable held s.ker.currpid (vaddr2vpn a / 1024) := by
    rw [← index]
    exact keeps
  have servedTables := served_tables heldSound.tables heldPage notMapped heldKeeps outcome
  obtain ⟨servedOwned, servedStays⟩ :=
    served_owned heldSound.tables heldSound.owned heldPage heldKeeps outcome
  have ker : served.ker = held.ker := pf_service_ker _ _ _ _ _ ran
  have servedLive : ∀ q, Live served q ↔ Live held q := fun q => by rw [Live, Live, ker]
  have servedSound : Sound served := by
    refine ⟨servedTables, queue, kept_of_ker heldSound.stores ?_ ?_ ?_ ?_, servedOwned, ?_⟩
    · rw [ker]
    · rw [ker]
    · rw [ker]
    · rw [ker]
    · refine rooted_stays heldSound.rooted heldSound.tables servedStays ?_ ?_
      · exact (servedLive _).mpr heldSound.rooted.null
      · intro q after before
        exact absurd ((servedLive q).mp after) before
  obtain ⟨finalSound, finalStays⟩ : Sound { served with ker := (counted s).ker } ∧
      Stays served { served with ker := (counted s).ker } := by
    refine sound_of_alike servedSound ⟨?_, fun _ => rfl, fun _ _ _ _ => ⟨rfl, rfl⟩⟩ ?_ ?_ ?_
    · intro q
      rw [ker]
      rfl
    · rw [ker]
      exact ⟨rfl, rfl, rfl⟩
    · exact queue_of_ker servedSound.queue rfl ⟨rfl, rfl⟩ (by rw [ker]; rfl)
    · exact kept_of_ker sound.stores rfl rfl rfl rfl
  refine ⟨finalSound, stays_trans heldStays (stays_trans servedStays finalStays ?_) ?_,
    outcome.adds⟩
  · intro q before _
    exact (servedLive q).mpr before
  · intro q before _
    exact before

/-- A word whose marks have changed. -/
theorem marked_sound (sound : Sound s) {p i : Nat} {word : Word}
    (present : pres word = pres (s.mem p i)) (target : base word = base (s.mem p i)) :
    Sound (s.setWord p i word) ∧ Stays s (s.setWord p i word) := by
  refine sound_of_alike sound ⟨fun _ => rfl, fun _ => rfl, ?_⟩ ⟨rfl, rfl, rfl⟩
    (queue_of_ker sound.queue rfl ⟨rfl, rfl⟩ rfl) (kept_of_ker sound.stores rfl rfl rfl rfl)
  intro fr _ _ k
  rw [set_word_mem]
  split
  · rename_i here
    rw [here.1, here.2]
    exact ⟨present, target⟩
  · exact ⟨rfl, rfl⟩

theorem touched_sound {write : Bool} (sound : Sound s) (ran : touch a write s = .ok () final) :
    Sound final ∧ Stays s final := by
  cases ran
  refine marked_sound sound ?_ ?_
  · cases write <;> simp [St.entry]
  · cases write <;> simp [St.entry]

omit [Config] in
theorem touch_words {write : Bool} (ran : touch a write s = .ok () final) :
    final.ker = s.ker ∧ ∀ table index, pres (final.entry table index) = pres (s.entry table index) ∧
      base (final.entry table index) = base (s.entry table index) := by
  cases ran
  refine ⟨rfl, fun table index => ?_⟩
  dsimp only
  rw [entry_set_word]
  split
  · rename_i here
    rw [← here.2, St.entry, St.entry, here.1]
    cases write <;> simp
  · exact ⟨rfl, rfl⟩

omit [Config] in
theorem touched_accessible {write : Bool} (access : Accessible s a)
    (ran : touch a write s = .ok () final) : Accessible final a := by
  obtain ⟨inside, present, presPage⟩ := access
  obtain ⟨ker, words⟩ := touch_words ran
  have pd : currentPd final = currentPd s := by rw [currentPd, currentPd, ker]
  refine ⟨?_, ?_, ?_⟩
  · rw [ker]
    exact inside
  · rw [pd, (words _ _).1]
    exact present
  · unfold pte pdi2pt at presPage ⊢
    rw [pd, (words _ _).1, (words _ _).2]
    exact presPage

/-- A word of a page has changed. -/
theorem written_sound (sound : Sound s) {fr vpn : Nat} (page : IsPage s fr pid vpn) (i : Nat)
    (word : Word) :
    Sound (s.setWord (frame0 + fr) i word) ∧ Stays s (s.setWord (frame0 + fr) i word) := by
  refine sound_of_alike sound ⟨fun _ => rfl, fun _ => rfl, ?_⟩ ⟨rfl, rfl, rfl⟩
    (queue_of_ker sound.queue rfl ⟨rfl, rfl⟩ rfl) (kept_of_ker sound.stores rfl rfl rfl rfl)
  intro x _ status k
  rw [set_word_mem, if_neg]
  · exact ⟨rfl, rfl⟩
  · rintro ⟨equal, _⟩
    have same : x = fr := by omega
    rw [same, page.2.1] at status
    simp at status

/-- The page that an access of the current process reaches, and the table that maps it. -/
structure Accessed (s : St) (a fr table : Nat) : Prop where
  heapPage : HeapPage s s.ker.currpid (vaddr2vpn a)
  page : IsPage s fr s.ker.currpid (vaddr2vpn a)
  isTable : IsTable s table s.ker.currpid
  address : base (pdeOf s s.ker.currpid (vaddr2vpn a / 1024)) = frame0 + table
  pointer : pdi2pt s (currentPd s) (vaddr2pdi a) = frameNum2ptr table
  entry : vaddr2pti a = vaddr2vpn a % 1024
  target : base (pte s (currentPd s) a) = frame0 + fr

theorem access_reaches (sound : Sound s) (live : Live s s.ker.currpid) (access : Accessible s a) :
    ∃ fr table, Accessed s a fr table := by
  obtain ⟨inside, present, presPage⟩ := access
  have heap : (s.ker.proctab s.ker.currpid).vh = true := by
    by_contra plain
    have none := sound.rooted.plain _ live (by simpa using plain)
    obtain ⟨low, high⟩ := inside
    rw [none] at high
    omega
  obtain ⟨⟨heapLive, low, high⟩, small⟩ :=
    heap_page_of_address sound.stores ⟨live, heap⟩ inside
  have own := private_of_heap sound.tables heapLive low high
  have bound : a < 4294967296 := by
    rw [page_number] at small
    omega
  have index : vaddr2pdi a = vaddr2vpn a / 1024 := by
    rw [page_directory_index a bound, page_number]
    omega
  have entry : vaddr2pti a = vaddr2vpn a % 1024 := by rw [page_table_index, page_number]
  have presentPde : pres (pdeOf s s.ker.currpid (vaddr2vpn a / 1024)) = true := by
    rw [← index]
    exact present
  obtain ⟨t, isTable, address⟩ := sound.tables.tables _ _ heapLive own presentPde
  have target : base (s.entry (currentPd s) (vaddr2pdi a)) = frame0 + t := by
    rw [index]
    exact address
  have pointer : pdi2pt s (currentPd s) (vaddr2pdi a) = frameNum2ptr t := by
    rw [pdi2pt, target, frame_ptr_base t isTable.1]
  have word : pte s (currentPd s) a = pteOf s s.ker.currpid (vaddr2vpn a / 1024)
      (vaddr2vpn a % 1024) := by
    rw [pte_word address, pte, pointer, St.entry, frame_ptr_page t isTable.1, entry]
  rw [word] at presPage
  obtain ⟨fr, page, _, base⟩ :=
    sound.tables.entries _ _ _ heapLive own presentPde (Nat.mod_lt _ (by decide)) presPage
  have number : vaddr2vpn a / 1024 * 1024 + vaddr2vpn a % 1024 = vaddr2vpn a := by omega
  rw [number] at page
  exact ⟨fr, t, ⟨heapLive, low, high⟩, page, isTable, address, pointer, entry, word ▸ base⟩

theorem loaded_sound {value : Byte} (sound : Sound s) (ran : load a s = .ok value final) :
    Sound final ∧ Stays s final := by
  unfold load at ran
  rw [get_bind] at ran
  split at ran
  · obtain ⟨_, touched, touchRan, ran⟩ := bind_ok_inv ran
    cases ran
    exact touched_sound sound touchRan
  · cases ran

theorem stored_sound {value : Byte} (sound : Sound s) (live : Live s s.ker.currpid)
    (ran : store a value s = .ok () final) : Sound final ∧ Stays s final := by
  unfold store at ran
  rw [get_bind] at ran
  split at ran
  · rename_i access
    obtain ⟨_, touched, touchRan, ran⟩ := bind_ok_inv ran
    obtain ⟨touchedSound, touchedStays⟩ := touched_sound sound touchRan
    have ker := touch_ker _ _ _ _ _ touchRan
    have touchedLive : ∀ q, Live touched q ↔ Live s q := fun q => by rw [Live, Live, ker]
    have touchedAccess : Accessible touched a := touched_accessible access touchRan
    obtain ⟨fr, _, reached⟩ :=
      access_reaches touchedSound (by rw [ker]; exact (touchedLive _).mpr live) touchedAccess
    cases ran
    dsimp only
    rw [reached.target]
    obtain ⟨finalSound, finalStays⟩ := written_sound touchedSound reached.page (vaddr2offset a / 4)
      (setByte (touched.mem (frame0 + fr) (vaddr2offset a / 4)) (vaddr2offset a % 4) value)
    exact ⟨finalSound, stays_trans touchedStays finalStays fun q before _ =>
      (touchedLive q).mpr before⟩
  · cases ran

theorem created_sound {memlist : MemList} {nextpid : Int} {saddr size : Nat} (sound : Sound s)
    (slot : IsFree s pid) :
    Sound { s with
        ker := createdKer (entered s.ker memlist nextpid s.ker.vcreateNextpid) pid saddr size } ∧
      Stays s { s with
        ker := createdKer (entered s.ker memlist nextpid s.ker.vcreateNextpid) pid saddr size } ∧
      ∀ q, Live s q → Live { s with
        ker := createdKer (entered s.ker memlist nextpid s.ker.vcreateNextpid) pid saddr size } q := by
  have grown : Grown pid s { s with
      ker := createdKer (entered s.ker memlist nextpid s.ker.vcreateNextpid) pid saddr size } :=
    created_grown sound.tables sound.rooted slot
  obtain ⟨owned, stays⟩ := grown_owned sound.owned grown (Or.inl rfl)
  exact ⟨⟨grown_tables sound.tables grown, queue_of_ker sound.queue rfl ⟨rfl, rfl⟩ rfl,
    created_kept sound.stores slot, owned, grown_rooted sound.tables sound.rooted grown stays⟩,
    stays, fun q live => (grown_live grown q).1.mpr (Or.inl live)⟩

/-- Only a switch is possible without a running process. -/
theorem exec_running {event : Event} {reply : Reply} (ran : exec event s = .ok reply final) :
    (∃ pid, event = .resched pid) ∨ Running s := by
  unfold exec at ran
  rw [get_bind] at ran
  cases event with
  | resched pid => exact Or.inl ⟨pid, rfl⟩
  | _ =>
      dsimp only at ran
      split at ran
      · exact Or.inr ‹_›
      · cases ran

omit [Config] in
theorem live_of_running (running : Running s) : Live s s.ker.currpid := by
  rw [Running] at running
  rw [Live, running]
  decide

/-- The steps of a run with one policy, in which allocations succeed and tables are kept. -/
def Serves (s : St) (event : Event) : Prop :=
  Fixed s event ∧ Supplied s event ∧ KeepsTable s event

/-- Each allocation of a page fault finds a frame, and there may be just enough of them. -/
def Fitting (s : St) : Event → Prop
  | .fault a => isInvalidAddr s.ker a s.ker.currpid = false → Fits s s.ker.currpid (vaddr2pdi a)
  | _ => True

/-- `Serves` with no frame to spare. -/
def Completes (s : St) (event : Event) : Prop :=
  Fixed s event ∧ Fitting s event ∧ KeepsTable s event

theorem completes_of_serves {event : Event} (serves : Serves s event) : Completes s event := by
  refine ⟨serves.1, ?_, serves.2.2⟩
  cases event with
  | fault a => exact fun valid => enough_fits (serves.2.1 valid)
  | _ => trivial

/-- At most one process is gone, and it took its own frames with it. -/
def Leaves (s final : St) : Prop :=
  (∀ q, Live s q → Live final q) ∨
    ∃ pid, Live s pid ∧ pid ≠ nullproc ∧ Parted pid s final

omit [Config] in
theorem live_of_procs (same : ∀ q, space (final.ker.proctab q) = space (s.ker.proctab q)) (q : Int)
    (live : Live s q) : Live final q := (live_of_space (same q)).mpr live

theorem exec_completed {event : Event} {reply : Reply} (sound : Sound s)
    (completes : Completes s event) (ran : exec event s = .ok reply final) :
    Sound final ∧ Stays s final ∧ Leaves s final := by
  obtain ⟨fixed, fitting, keeps⟩ := completes
  have running := exec_running ran
  have kept := did_kept sound.stores (exec_did ran)
  cases exec_did ran with
  | switched pid target =>
      have procs : ∀ q, ∃ state, (switchedKer s.ker pid).proctab q =
          { s.ker.proctab q with prstate := state } ∧
          Reschedules (s.ker.proctab q).prstate state := switched_proc target.2.2
      have rest := switched_ker s.ker pid
      have spaces : ∀ q, space ((switchedKer s.ker pid).proctab q) = space (s.ker.proctab q) := by
        intro q
        obtain ⟨state, same, alive⟩ := procs q
        exact space_rescheduled same alive
      obtain ⟨finalSound, stays⟩ := sound_of_ker _ s.fifoNextframe sound spaces
        (by rw [rest]; exact ⟨rfl, rfl, rfl⟩) (by rw [rest]) kept
      exact ⟨finalSound, stays, Or.inl (live_of_procs spaces)⟩
  | resumed pid suspended =>
      have spaces : ∀ q, space ((ready s.ker pid).proctab q) = space (s.ker.proctab q) := by
        intro q
        obtain ⟨state, same, alive⟩ := resumed_proc suspended q
        exact space_rescheduled same alive
      obtain ⟨finalSound, stays⟩ :=
        sound_of_ker _ s.fifoNextframe sound spaces ⟨rfl, rfl, rfl⟩ rfl kept
      exact ⟨finalSound, stays, Or.inl (live_of_procs spaces)⟩
  | refused _ _ memlist createNext vcreateNext hand =>
      obtain ⟨finalSound, stays⟩ :=
        sound_of_ker (reserved s.ker memlist createNext vcreateNext) hand sound (fun _ => rfl)
          ⟨rfl, rfl, rfl⟩ rfl kept
      exact ⟨finalSound, stays, Or.inl fun _ live => live⟩
  | created ssize priority pid slot memlist nextpid saddr size =>
      obtain ⟨finalSound, stays, live⟩ := created_sound sound slot
      exact ⟨finalSound, stays, Or.inl live⟩
  | vcreated ssize hsize priority pid final made =>
      obtain ⟨tables, owned, stays, rooted, queue⟩ :=
        vcreated_grown sound.tables sound.queue sound.stores sound.owned sound.rooted made
      have joined := (vcreated_kept sound.stores made).2.1
      refine ⟨⟨tables, queue, kept, owned, rooted⟩, stays, Or.inl fun q live => ?_⟩
      have other : q ≠ pid := fun equal => slot_dead made.slot (equal ▸ live)
      rw [Live, joined.others q other]
      exact live
  | killed pid final down =>
      obtain ⟨finalSound, stays, parted⟩ := killed_sound sound down
      exact ⟨finalSound, stays, Or.inr ⟨pid, (not_bad down.valid).2.2, down.notNull, parted⟩⟩
  | served a final faults valid free served =>
      rcases running with ⟨pid, impossible⟩ | running
      · cases impossible
      obtain ⟨finalSound, stays, _⟩ := served_sound sound (live_of_running running) faults valid
        (fitting valid) keeps served
      exact ⟨finalSound, stays, Or.inl fun _ live => live⟩
  | removed a final faults invalid down =>
      obtain ⟨countedSound, countedStays⟩ := counted_sound sound
      obtain ⟨finalSound, stays, parted⟩ := killed_sound countedSound down
      exact ⟨finalSound, stays_trans countedStays stays fun q before _ => before,
        Or.inr ⟨_, (not_bad down.valid).2.2, down.notNull,
          ⟨⟨parted.left.dead, parted.left.others⟩, parted.roots, parted.mem, parted.frames⟩⟩⟩
  | spared a faults =>
      obtain ⟨finalSound, stays⟩ := counted_sound sound
      exact ⟨finalSound, stays, Or.inl fun _ live => live⟩
  | loaded a value final ran =>
      obtain ⟨finalSound, stays⟩ := loaded_sound sound ran
      refine ⟨finalSound, stays, Or.inl fun q live => ?_⟩
      rw [Live, load_ker _ _ _ _ ran]
      exact live
  | stored a value final stored =>
      rcases running with ⟨pid, impossible⟩ | running
      · cases impossible
      obtain ⟨finalSound, stays⟩ := stored_sound sound (live_of_running running) stored
      refine ⟨finalSound, stays, Or.inl fun q live => ?_⟩
      rw [Live, store_ker _ _ _ _ _ stored]
      exact live
  | policy policy status final ran => exact absurd fixed id

theorem exec_sound {event : Event} {reply : Reply} (sound : Sound s) (serves : Serves s event)
    (ran : exec event s = .ok reply final) : Sound final ∧ Stays s final ∧ Leaves s final :=
  exec_completed sound (completes_of_serves serves) ran

end Steps

section Reached

variable {policy : Int}

theorem started_sound (started : Started policy s) : Sound s := by
  have ready := booted_ready started.1
  exact ⟨ready_tables ready, ready_queue ready, started_kept started, ready_owned ready,
    ready_rooted ready⟩

theorem run_completed (run : Run (Started policy) Completes s) : Sound s := by
  induction run with
  | start started => exact started_sound started
  | step _ completes ran induction => exact (exec_completed induction completes ran).1

theorem run_completes (run : Run (Started policy) Serves s) : Run (Started policy) Completes s :=
  run_mono (fun _ _ => completes_of_serves) run

theorem run_sound (run : Run (Started policy) Serves s) : Sound s :=
  run_completed (run_completes run)

end Reached

section Checks

instance (s : St) : Decidable (Enough s) :=
  decidable_of_iff ((∃ fr < nframes, (s.ipt fr).status = .page) ∨
      ∃ left < nframes, ∃ right < nframes, left ≠ right ∧
        (s.ipt left).status = .notUsed ∧ (s.ipt right).status = .notUsed) <| by
    constructor
    · rintro (⟨fr, bound, page⟩ | ⟨left, inside, right, bound, different, free⟩)
      · exact Or.inl ⟨fr, bound, page⟩
      · exact Or.inr ⟨left, right, inside, bound, different, free⟩
    · rintro (⟨fr, bound, page⟩ | ⟨left, right, inside, bound, different, free⟩)
      · exact Or.inl ⟨fr, bound, page⟩
      · exact Or.inr ⟨left, inside, right, bound, different, free⟩

instance (s : St) (event : Event) : Decidable (Supplied s event) :=
  match event with
  | .fault a => inferInstanceAs
      (Decidable (isInvalidAddr s.ker a s.ker.currpid = false → Enough s))
  | .resched _ | .resume _ | .create .. | .vcreate .. | .kill _ | .load _ | .store ..
  | .srpolicy _ => isTrue trivial

/-- The steps of a run under FIFO whose allocations succeed. -/
def SuppliedFifo (s : St) (event : Event) : Prop := Fixed s event ∧ Supplied s event

instance decideSupplied (s : St) (event : Event) : Decidable (SuppliedFifo s event) :=
  inferInstanceAs (Decidable (_ ∧ _))

/-- The oldest page is not the only one of the table that a fault works on. -/
def KeepsOldest (s : St) : Event → Prop
  | .fault a => s.ker.currpolicy = .fifo ∧ ¬(AllUsed s ∧
      (s.ipt (base (pdeOf s s.ker.currpid (vaddr2pdi a)) - frame0)).refCount = 1 ∧
      (s.ipt s.flistTail).pid = s.ker.currpid)
  | _ => True

instance (s : St) (event : Event) : Decidable (KeepsOldest s event) :=
  match event with
  | .fault _ => inferInstanceAs (Decidable (_ ∧ ¬_))
  | .resched _ | .resume _ | .create .. | .vcreate .. | .kill _ | .load _ | .store ..
  | .srpolicy _ => isTrue trivial

theorem keeps_table_of_oldest {event : Event} (keeps : KeepsOldest s event) :
    KeepsTable s event := by
  cases event with
  | fault a =>
      obtain ⟨fifo, spared⟩ := keeps
      rintro ⟨fr, vpn, table, picks, page, _, _, address, last⟩
      rcases picks with ⟨_, full, oldest⟩ | ⟨gca, _⟩
      · apply spared
        rw [address, Nat.add_sub_cancel_left, ← oldest]
        exact ⟨full, last, page.2.2.1⟩
      · rw [fifo] at gca
        cases gca
  | _ => trivial

/-- The steps of `Serves` that can be recognised under FIFO. -/
def ServesFifo (s : St) (event : Event) : Prop := SuppliedFifo s event ∧ KeepsOldest s event

instance decideServes (s : St) (event : Event) : Decidable (ServesFifo s event) :=
  inferInstanceAs (Decidable (_ ∧ _))

theorem serves_of_fifo {event : Event} (serves : ServesFifo s event) : Serves s event :=
  ⟨serves.1.1, serves.1.2, keeps_table_of_oldest serves.2⟩

end Checks

section Example

abbrev thirteen : Config := smallConfig 13 (by decide) (by decide)

def afterEvents (allowed : St → Event → Prop) [∀ s event, Decidable (allowed s event)]
    (events : List Event) : St :=
  finalState (@bootAndRun thirteen fifo allowed _ events blankMachine)

omit [Config] in
theorem after_events {allowed : St → Event → Prop} [∀ s event, Decidable (allowed s event)]
    {events : List Event}
    (ran : returned (@bootAndRun thirteen fifo allowed _ events blankMachine) = true) :
    @Run thirteen (@Started thirteen fifo) allowed (afterEvents allowed events) :=
  @start_and_run _ thirteen _ _ _ _ _ power_on_blank stores_off_blank (returned_unit ran)

/-- Three processes, one with two stores and two pages. The last fault evicts a page of
another process. -/
def threeHeaps : List Event :=
  [.vcreate 1024 2 20, .vcreate 1024 8 20, .vcreate 1024 1 20, .resume 1, .resume 2, .resume 3,
    .resched 1, .fault 0x1000000, .resched 3, .fault 0x1000000, .resched 2, .fault 0x1000000]

omit [Config] in
theorem three_heaps_run : @Run thirteen (@Started thirteen fifo) (@Serves thirteen)
    (@afterEvents (@ServesFifo thirteen) (@decideServes thirteen) threeHeaps) :=
  @run_mono thirteen _ _ _ _ (fun _ _ => @serves_of_fifo thirteen _ _)
    (@after_events _ (@decideServes thirteen) _ (by decide +kernel))

end Example

end Xinu.Space.Runs
