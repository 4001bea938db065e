import Mathlib.Algebra.GroupWithZero.Nat
import Xinu.Swap.Places

/-!
# The emulated swap disk

Under QEMU the stores lie on a disk of `QRDISK_MAX_BUFF` blocks, which ends in the middle
of the third store. The transfers stay below that number in every run whose heaps fit
into the first three stores as far as those are on the disk.
-/

namespace Xinu.Swap.Disk

open Xinu.Kernel.State Xinu.Kernel.Entry Xinu.Kernel.Semaphore Xinu.Lib.Counting
open Xinu.Lib.StateError Xinu.Paging.Address Xinu.Paging.BackingStore Xinu.Paging.Process
open Xinu.Paging.System Xinu.Processes.KernelVariables Xinu.Processes.Steps
open Xinu.Replacement.FifoResults Xinu.Space.Agreement Xinu.Swap.Ledger Xinu.Swap.Allocation
open Xinu.Swap.Conservation

set_option autoImplicit false

def qrdiskMaxBuff : Nat := 4096

/-- The pages of a store that lie on the emulated disk. -/
def diskPages (store : Nat) : Nat := min maxPagesPerBs (qrdiskMaxBuff / 8 - store * rdPagesPerBs)

section Blocks

/-- A store and page that `read_bs` and `write_bs` transfer. -/
def Transfers (ker : Ker) (bsId : Int) (page : Nat) : Prop :=
  ker.pageServerActive = true ∧ minId ≤ bsId ∧ bsId ≤ maxId ∧ ¬BadStorePage ker bsId page

instance (ker : Ker) (bsId : Int) (page : Nat) : Decidable (Transfers ker bsId page) :=
  inferInstanceAs (Decidable (_ ∧ _))

/-- The block numbers that one call passes to the device. -/
def blocksOf (ker : Ker) (bsId : Int) (page : Nat) : List Nat :=
  if Transfers ker bsId page then (List.range 8).map fun i => pageBlock bsId page + i else []

/-- The same for a call in the trace. -/
def effectBlocks (ker : Ker) : Effect → List Nat
  | .readBs _ bsId page => blocksOf ker bsId page
  | .writeBs _ bsId page => blocksOf ker bsId page
  | _ => []

variable {s : St} {ker : Ker} {bsId : Int} {page : Nat}

theorem mem_blocks (block : Nat) : block ∈ blocksOf ker bsId page ↔
    Transfers ker bsId page ∧ pageBlock bsId page ≤ block ∧ block < pageBlock bsId page + 8 := by
  unfold blocksOf
  split
  · rename_i transfers
    simp only [List.mem_map, List.mem_range, transfers, true_and]
    constructor
    · rintro ⟨i, inside, rfl⟩
      omega
    · rintro ⟨low, high⟩
      exact ⟨block - pageBlock bsId page, by omega, by omega⟩
  · rename_i rejected
    simp [rejected]

/-- `write_bs` writes to the blocks that it passes to the device and to no others. -/
theorem write_bs_blocks {src block word : Nat} {status : Int} {final : St}
    (ran : writeBs src bsId page s = .ok status final)
    (changed : final.disk block word ≠ s.disk block word) : block ∈ blocksOf s.ker bsId page := by
  obtain ⟨_, logged, logRan, ran⟩ := bind_ok_inv ran
  cases logRan
  rw [get_bind] at ran
  split at ran
  · cases ran
    exact absurd rfl changed
  rename_i server
  split at ran
  · cases ran
    exact absurd rfl changed
  rename_i number
  obtain ⟨_, held, waited, ran⟩ := bind_ok_inv ran
  obtain ⟨free, rfl⟩ := wait_returned waited
  have given := signal_taken free (s := { s with
    ker := taken s.ker .bsSem, trace := .writeBs src bsId page :: s.trace }) rfl
  rw [get_bind] at ran
  split at ran
  · rw [bind_ok given] at ran
    cases ran
    exact absurd rfl changed
  · rename_i good
    rw [bind_ok given] at ran
    cases ran
    rw [mem_blocks]
    refine ⟨⟨Bool.eq_true_of_not_eq_false server, by omega, by omega, good⟩, ?_⟩
    by_contra outside
    exact changed (if_neg outside)

end Blocks

section Capacity

/-- The stores in use end on the disk. -/
def OnDisk (ker : Ker) : Prop :=
  ∀ store < maxBsEntries, unallocated ker store = false →
    (ker.bstab store).npages ≤ diskPages store

/-- The pages on the disk that are in no store in use. -/
def room (ker : Ker) : Nat :=
  ((List.range maxBsEntries).map fun store =>
    if unallocated ker store = true then diskPages store else 0).sum

variable {s final : St} {ker : Ker} {pages : Int → Nat → Nat} {pid : Int} {i : Nat}

/-- Only the first three stores have pages on the disk. -/
theorem room_eq (ker : Ker) : room ker = (if unallocated ker 0 = true then 200 else 0) +
    (if unallocated ker 1 = true then 200 else 0) + if unallocated ker 2 = true then 102 else 0 := by
  have stores : List.range maxBsEntries = [0, 1, 2, 3, 4, 5, 6, 7] := by decide
  have sizes : diskPages 0 = 200 ∧ diskPages 1 = 200 ∧ diskPages 2 = 102 ∧ diskPages 3 = 0 ∧
      diskPages 4 = 0 ∧ diskPages 5 = 0 ∧ diskPages 6 = 0 ∧ diskPages 7 = 0 := by decide
  rw [room, stores]
  simp [sizes, Nat.add_assoc]

theorem on_disk_of_shares (stores : Stores ker pages) (each : ∀ pid i store, 0 < pages pid i →
      (ker.proctab pid).pbsd i = ((store : Nat) : Int) → pages pid i ≤ diskPages store) :
    OnDisk ker := by
  intro store bound taken
  obtain ⟨pid, i, some, place⟩ := stores.owned store bound taken
  rw [(share_store stores some place).2]
  exact each pid i store some place

theorem share_on_disk {store : Nat} (stores : Stores ker pages) (disk : OnDisk ker)
    (some : 0 < pages pid i) (place : (ker.proctab pid).pbsd i = (store : Int)) :
    pages pid i ≤ diskPages store := by
  obtain ⟨bound, entry⟩ := share_store stores some place
  have small := disk store bound (by rw [unallocated, entry]; rfl)
  rw [entry] at small
  exact small

/-- All transfers of stores that end on the disk are in range. -/
theorem on_disk_blocks {bsId : Int} {page block : Nat} (stores : Stores ker pages)
    (disk : OnDisk ker) (passed : block ∈ blocksOf ker bsId page) : block < qrdiskMaxBuff := by
  obtain ⟨⟨_, low, high, good⟩, _, before⟩ := (mem_blocks block).mp passed
  have bound : bsId.toNat < maxBsEntries := by
    rw [minId] at low
    rw [maxId] at high
    rw [maxBsEntries]
    omega
  have opened : (ker.bstab bsId.toNat).isopen = true := by
    by_contra closed
    exact good (Or.inl (Bool.eq_false_of_not_eq_true closed))
  have taken : unallocated ker bsId.toNat = false := by
    by_contra free
    have closed := stores.closed bsId.toNat bound (Bool.eq_true_of_not_eq_false free)
    rw [closed] at opened
    cases opened
  have small := disk bsId.toNat bound taken
  have inside : page < (ker.bstab bsId.toNat).npages := by
    by_contra outside
    exact good (Or.inr (by omega))
  rw [diskPages, qrdiskMaxBuff, rdPagesPerBs] at small
  rw [pageBlock, rdPagesPerBs] at before
  rw [qrdiskMaxBuff]
  omega

end Capacity

section Allocation

variable {s next final : St} {pages : Int → Nat → Nat} {pid : Int} {i : Nat}

/-- A turn of the loop of `bs_init` takes the first store, so what is left to be taken
still fits on the disk. -/
theorem turn_on_disk {remain : Int} (stores : Stores s.ker pages) (disk : OnDisk s.ker)
    (some : 0 < remain) (fits : remain ≤ room s.ker) (none : pages pid i = 0)
    (turn : TurnTaken pages pid i (min remain maxPagesPerBs).toNat s next) :
    OnDisk next.ker ∧ remain - maxPagesPerBs ≤ room next.ker := by
  obtain ⟨store, bound, isFree, first, place, table⟩ := turn.place
  rw [maxBsEntries] at bound table
  have pagesFit : (min remain maxPagesPerBs).toNat ≤ diskPages store ∧
      remain - maxPagesPerBs ≤ room next.ker := by
    rw [room_eq] at fits ⊢
    rw [table 0 (by omega), table 1 (by omega), table 2 (by omega)]
    rw [diskPages, maxPagesPerBs, qrdiskMaxBuff, rdPagesPerBs]
    have before : ∀ other, other < store → ¬unallocated s.ker other = true := by
      intro other below
      rw [first other below]
      decide
    have cases : store = 0 ∨ store = 1 ∨ store = 2 ∨ 3 ≤ store := by omega
    rcases cases with rfl | rfl | rfl | behind
    · rw [if_pos isFree] at fits
      grind
    · rw [if_neg (before 0 (by omega)), if_pos isFree] at fits
      grind
    · rw [if_neg (before 0 (by omega)), if_neg (before 1 (by omega)), if_pos isFree] at fits
      grind
    · rw [if_neg (before 0 (by omega)), if_neg (before 1 (by omega)),
        if_neg (before 2 (by omega))] at fits
      omega
  refine ⟨on_disk_of_shares turn.stores ?_, pagesFit.2⟩
  intro q j other positive otherPlace
  by_cases here : q = pid ∧ j = i
  · obtain ⟨rfl, rfl⟩ := here
    rw [place] at otherPlace
    have same : store = other := by omega
    subst same
    rw [setShare, if_pos ⟨rfl, rfl⟩]
    exact pagesFit.1
  · rw [setShare, if_neg here] at positive ⊢
    refine share_on_disk stores disk positive ?_
    by_cases isPid : q = pid
    · subst isPid
      rw [← turn.places j fun same => here ⟨rfl, same⟩]
      exact otherPlace
    · obtain ⟨_, _, _, _, _, rfl⟩ := turn.moved
      simp only [Function.update_of_ne isPid] at otherPlace
      exact otherPlace

theorem bs_init_from_disk {fuel : Nat} {remain : Int} (stores : Stores s.ker pages)
    (disk : OnDisk s.ker) (fits : remain ≤ room s.ker) (none : ∀ j, i ≤ j → pages pid j = 0)
    (ran : bsInitFrom pid fuel remain i s = .ok () final) : OnDisk final.ker := by
  induction fuel generalizing i remain s pages with
  | zero =>
      cases ran
      exact disk
  | succ fuel induction =>
      by_cases some : 0 < remain
      · have free : 0 < s.ker.freeBsCount := by
          by_contra nothing
          have zero : count maxBsEntries (unallocated s.ker) = 0 := by
            rw [← stores.counted]
            omega
          rw [count_zero, maxBsEntries] at zero
          rw [room_eq, zero 0 (by omega), zero 1 (by omega), zero 2 (by omega)] at fits
          simp only [Bool.false_eq_true, if_false] at fits
          omega
        obtain ⟨next, turn, ran⟩ :=
          bs_init_turn stores (none i (Nat.le_refl i)) some free ran
        obtain ⟨nextDisk, left⟩ :=
          turn_on_disk stores disk some fits (none i (Nat.le_refl i)) turn
        refine induction turn.stores nextDisk left ?_ ran
        intro j above
        rw [setShare, if_neg (by omega)]
        exact none j (by omega)
      · unfold bsInitFrom at ran
        rw [if_neg some] at ran
        cases ran
        exact disk

end Allocation

section Runs

variable {s final : St} {pid : Int}

/-- Nothing but the scheduling of the processes and the free store counter matters. -/
theorem on_disk_congr {ker after : Ker} (disk : OnDisk ker) (table : after.bstab = ker.bstab) :
    OnDisk after := by
  intro store bound taken
  rw [unallocated, table] at taken
  rw [table]
  exact disk store bound taken

variable [Config]

theorem vcreated_on_disk {hsize : Nat} (kept : StoresKept s) (disk : OnDisk s.ker)
    (fits : hsize ≤ room s.ker) (made : Vcreated pid hsize s final) : OnDisk final.ker := by
  obtain ⟨memlist, nextpid, saddr, ssize, mapped, stored, directory, stores, rfl⟩ := made.stages
  obtain ⟨mappedStores, none, enough⟩ := admitted_stores kept
    ⟨made.slot, Nat.not_lt_of_le made.enough, memlist, nextpid, directory⟩
  obtain ⟨failed, _⟩ | ⟨_, pd, ker⟩ := init_pd_ker directory
  · cases failed
  obtain ⟨_, size⟩ := admitted_size mappedStores enough
  obtain ⟨_, cleared, clearRan, stores⟩ := bind_ok_inv stores
  cases clearRan
  obtain ⟨_, filled, loopRan, stores⟩ := bind_ok_inv stores
  cases stores
  have table : mapped.ker.bstab = s.ker.bstab := by
    rw [ker]
    rfl
  have clearedStores := clear_map_stores mappedStores none
  have clearedRoom : (toInt32 hsize : Int) ≤ room s.ker := by
    rw [size]
    exact_mod_cast fits
  have same : room mapped.ker = room s.ker := by
    unfold room unallocated
    rw [table]
  have filledDisk :=
    bs_init_from_disk (s := { mapped with ker := _ }) clearedStores
      (on_disk_congr disk table) (by rw [← same] at clearedRoom; exact clearedRoom)
      (fun j _ => none j) loopRan
  exact on_disk_congr filledDisk rfl

theorem killed_on_disk (kept : StoresKept s) (disk : OnDisk s.ker) (down : Killed pid s final) :
    OnDisk final.ker := by
  obtain ⟨finalKept, left⟩ := killed_kept kept down
  refine on_disk_of_shares finalKept ?_
  intro q j store some place
  have shares := left_share left
  by_cases here : q = pid
  · rw [shares] at some
    simp [here] at some
  · have same : share final.ker q j = share s.ker q j := by
      rw [shares]
      exact if_neg here
    rw [same] at some ⊢
    rw [left.others q here] at place
    exact share_on_disk kept disk some place

/-- A heap that gets stores gets only pages that are on the disk. -/
def FitsDisk (s : St) : Event → Prop
  | .vcreate _ hsize _ => s.ker.freeBsCount < bsReq hsize ∨ hsize ≤ room s.ker
  | _ => True

instance (s : St) (event : Event) : Decidable (FitsDisk s event) :=
  match event with
  | .vcreate _ hsize _ => inferInstanceAs
      (Decidable (s.ker.freeBsCount < bsReq hsize ∨ hsize ≤ room s.ker))
  | .resched _ | .resume _ | .create .. | .kill _ | .fault _ | .load _ | .store .. | .srpolicy _ =>
      isTrue trivial

theorem did_on_disk {event : Event} {reply : Reply} (kept : StoresKept s) (disk : OnDisk s.ker)
    (fits : FitsDisk s event) (did : Did s event reply final) : OnDisk final.ker := by
  cases did with
  | vcreated ssize hsize priority pid final made =>
      rcases fits with refused | fits
      · exact absurd made.enough (Nat.not_le_of_lt refused)
      · exact vcreated_on_disk kept disk fits made
  | killed pid final down => exact killed_on_disk kept disk down
  | removed a final faults invalid down =>
      have countedKept : StoresKept (counted s) := kept_of_ker kept rfl rfl rfl rfl
      exact killed_on_disk countedKept (on_disk_congr disk rfl) down
  | switched pid target => exact on_disk_congr disk (by dsimp only; rw [switched_ker])
  | loaded a value final ran => exact on_disk_congr disk (by rw [load_ker _ _ _ _ ran])
  | stored a value final ran => exact on_disk_congr disk (by rw [store_ker _ _ _ _ _ ran])
  | policy policy status final ran =>
      rw [srpolicy_returned ran]
      exact on_disk_congr disk rfl
  | resumed pid suspended => exact on_disk_congr disk rfl
  | refused _ _ memlist createNext vcreateNext hand => exact on_disk_congr disk rfl
  | created ssize priority pid slot memlist nextpid saddr size => exact on_disk_congr disk rfl
  | served a final faults valid free ran => exact on_disk_congr disk rfl
  | spared a faults => exact on_disk_congr disk rfl

theorem run_on_disk {policy : Int} (run : Run (Started policy) FitsDisk s) : OnDisk s.ker := by
  induction run with
  | start started =>
      intro store bound taken
      rw [unallocated, (started.2 store bound).1] at taken
      cases taken
  | step run fits ran induction => exact did_on_disk (run_kept run) induction fits (exec_did ran)

end Runs

section Results

variable [Config]

/-- The calls that a step has added to the trace. -/
def newEffects (s final : St) : List Effect :=
  final.trace.take (final.trace.length - s.trace.length)

/-- Every block number that `read_bs` and `write_bs` pass to the device in any step from
here, finished or not, is one of the device. The store table does not change in a step
before the last transfer of the step. -/
def TransfersInRange (s : St) : Prop :=
  ∀ event, ∀ effect ∈ newEffects s (finalState (exec event s)),
    ∀ block ∈ effectBlocks s.ker effect, block < qrdiskMaxBuff

/-- The emulated disk is large enough in all runs in which no heap is admitted that is larger
than what is left of it. -/
theorem transfers_in_range_when_heaps_fit {policy : Int} {s : St}
    (run : Run (Started policy) FitsDisk s) : TransfersInRange s := by
  have kept := run_kept run
  have disk := run_on_disk run
  intro event effect _ block passed
  cases effect with
  | readBs dst bsId page => exact on_disk_blocks kept disk passed
  | writeBs src bsId page => exact on_disk_blocks kept disk passed
  | _ => cases passed

end Results

section Example

/-- The heap of one process takes the rest of the disk after that of another one. -/
def fullDisk : St := finalState (@bootAndRun nine fifo FitsDisk _
  [.vcreate 1024 200 20, .vcreate 1024 302 20, .resume 2, .resched 2] blankMachine)

theorem full_disk_run : @Run nine (@Started nine fifo) FitsDisk fullDisk :=
  @start_and_run _ nine _ _ _ _ _ power_on_blank stores_off_blank (returned_unit (by decide +kernel))

theorem transfers_in_range_when_disk_is_full :
    room fullDisk.ker = 0 ∧ @TransfersInRange nine fullDisk :=
  ⟨by decide +kernel, @transfers_in_range_when_heaps_fit nine _ _ full_disk_run⟩

/-- A heap of three stores, all of which are free. -/
def largeHeap : St := finalState (@bootAndRun nine fifo (fun _ _ => True) _
  [.vcreate 1024 600 20, .resume 1, .resched 1] blankMachine)

theorem large_heap_run : @Run nine (@Started nine fifo) (fun _ _ => True) largeHeap :=
  @start_and_run _ nine _ _ _ _ _ power_on_blank stores_off_blank (returned_unit (by decide +kernel))

/-- The fault on its last page reads blocks behind the end of the disk. -/
theorem last_page_off_disk : ∃ s, @Run nine (@Started nine fifo) (fun _ _ => True) s ∧
    ¬@TransfersInRange nine s := by
  refine ⟨largeHeap, large_heap_run, ?_⟩
  intro inRange
  have passed : (newEffects largeHeap (finalState (@exec nine (.fault 0x1257000) largeHeap))).any
      (fun effect => (effectBlocks largeHeap.ker effect).any (fun block => decide (block = 4872))) =
        true := by
    decide +kernel
  obtain ⟨effect, member, some⟩ := List.any_eq_true.mp passed
  obtain ⟨block, isPassed, isLast⟩ := List.any_eq_true.mp some
  have small := inRange (.fault 0x1257000) effect member block isPassed
  rw [of_decide_eq_true isLast] at small
  exact absurd small (by decide)

end Example

end Xinu.Swap.Disk
