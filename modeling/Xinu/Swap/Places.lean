import Xinu.Space.Transfers
import Xinu.Swap.Conservation

/-!
# The place of a heap page on the swap disk

`get_bs_info` sends every address of a heap to a page of one of the stores of the
process, and two different heap pages never lie in the same blocks of the disk.
-/

namespace Xinu.Swap.Places

open Xinu.Kernel.State Xinu.Lib.StateError Xinu.Paging.Address Xinu.Paging.BackingStore
open Xinu.Paging.Cpu Xinu.Paging.Process Xinu.Paging.System Xinu.Replacement.FifoResults
open Xinu.Space.Agreement Xinu.Space.Transfers Xinu.Swap.Ledger Xinu.Swap.Allocation
open Xinu.Swap.Conservation

set_option autoImplicit false

/-- A place in a store that is in use, which `read_bs` and `write_bs` accept. -/
structure Accepted (ker : Ker) (bsId : Int) (page : Nat) : Prop where
  server : ker.pageServerActive = true
  number : minId ≤ bsId ∧ bsId ≤ maxId
  allocated : (ker.bstab bsId.toNat).isallocated = true
  opened : (ker.bstab bsId.toNat).isopen = true
  below : page < (ker.bstab bsId.toNat).npages

/-- The blocks of two places do not overlap. -/
def Apart (bsId other : Int) (page otherPage : Nat) : Prop :=
  pageBlock bsId page + 8 ≤ pageBlock other otherPage ∨
    pageBlock other otherPage + 8 ≤ pageBlock bsId page

variable {s : St} {pid other : Int} {a b vpn otherVpn : Nat}

/-- What the account says about the place of one page. -/
structure Placed (s : St) (pid : Int) (vpn store : Nat) : Prop where
  bound : store < maxBsEntries
  place : (s.ker.proctab pid).pbsd ((vpn - vpn0) / maxPagesPerBs) = (store : Int)
  entry : ∃ npages ≤ maxPagesPerBs, storePage vpn < npages ∧ s.ker.bstab store =
    { isopen := true, isallocated := true, usecount := 0, npages := npages }

theorem share_of_page (page : HeapPage s pid vpn) :
    storePage vpn < share s.ker pid ((vpn - vpn0) / maxPagesPerBs) := by
  obtain ⟨live, low, high⟩ := page
  rw [share_live live, heapShare, storePage]
  rw [vpn0] at low high ⊢
  rw [maxPagesPerBs]
  omega

theorem page_placed (kept : StoresKept s) (page : HeapPage s pid vpn) :
    ∃ store, Placed s pid vpn store := by
  have inside := share_of_page page
  obtain ⟨store, bound, place, entry⟩ :=
    kept.held pid ((vpn - vpn0) / maxPagesPerBs) (by omega)
  refine ⟨store, bound, place, _, ?_, inside, entry⟩
  rw [share_live page.1, heapShare]
  exact Nat.min_le_right _ _

theorem placed_accepted {store : Nat} (kept : StoresKept s) (placed : Placed s pid vpn store) :
    Accepted s.ker (store : Int) (storePage vpn) := by
  obtain ⟨npages, _, inside, entry⟩ := placed.entry
  have bound := placed.bound
  refine ⟨?_, ?_, ?_, ?_, ?_⟩
  · by_contra off
    have isFree := kept.server (Bool.eq_false_of_not_eq_true off) store bound
    rw [unallocated, entry] at isFree
    cases isFree
  · rw [maxBsEntries] at bound
    rw [minId, maxId]
    omega
  · rw [Int.toNat_natCast, entry]
  · rw [Int.toNat_natCast, entry]
  · rw [Int.toNat_natCast, entry]
    exact inside

/-- Different pages of one store have different offsets, and the stride leaves room for
all pages of a store. -/
theorem placed_apart {store otherStore : Nat} (kept : StoresKept s)
    (page : HeapPage s pid vpn) (otherPage : HeapPage s other otherVpn)
    (placed : Placed s pid vpn store) (otherPlaced : Placed s other otherVpn otherStore)
    (different : ¬(pid = other ∧ vpn = otherVpn)) :
    Apart (store : Int) (otherStore : Int) (storePage vpn) (storePage otherVpn) := by
  have distinct : ¬(store = otherStore ∧ storePage vpn = storePage otherVpn) := by
    rintro ⟨rfl, sameOffset⟩
    obtain ⟨samePid, sameIndex⟩ := kept.distinct pid other _ _
      (Nat.lt_of_le_of_lt (Nat.zero_le _) (share_of_page page))
      (Nat.lt_of_le_of_lt (Nat.zero_le _) (share_of_page otherPage))
      (placed.place.trans otherPlaced.place.symm)
    apply different
    refine ⟨samePid, ?_⟩
    have low := page.2.1
    have otherLow := otherPage.2.1
    rw [storePage, storePage] at sameOffset
    rw [maxPagesPerBs] at sameOffset sameIndex
    omega
  have offset : storePage vpn < maxPagesPerBs := Nat.mod_lt _ (by decide)
  have otherOffset : storePage otherVpn < maxPagesPerBs := Nat.mod_lt _ (by decide)
  rw [maxPagesPerBs] at offset otherOffset
  unfold Apart pageBlock
  rw [Int.toNat_natCast, Int.toNat_natCast, rdPagesPerBs]
  omega

/-- An address of a heap lies on a page of it. -/
theorem heap_page_of_address (kept : StoresKept s) (live : HeapLive s pid)
    (inside : InHeap s.ker pid a) : HeapPage s pid (vaddr2vpn a) ∧ vaddr2vpn a < 1048576 := by
  have fits := heap_fits kept fun j => share_live live
  obtain ⟨low, high⟩ := inside
  unfold HeapPage
  rw [page_number]
  rw [maxPagesPerBs, maxBsEntries] at fits
  rw [vheapStart] at low high
  rw [nbpg] at high
  rw [vpn0]
  refine ⟨⟨live, ?_, ?_⟩, ?_⟩ <;> omega

/-- The addresses of the heaps have places, and those of different pages are apart. -/
structure PlacesKept (s : St) : Prop where
  placed : ∀ pid a, HeapLive s pid → InHeap s.ker pid a →
    ∃ bsId page, getBsInfo pid a s = .ok (bsId, page) s ∧ Accepted s.ker bsId page
  apart : ∀ pid other a b bsId otherBsId page otherPage,
    HeapLive s pid → InHeap s.ker pid a → HeapLive s other → InHeap s.ker other b →
    ¬(pid = other ∧ vaddr2vpn a = vaddr2vpn b) →
    getBsInfo pid a s = .ok (bsId, page) s → getBsInfo other b s = .ok (otherBsId, otherPage) s →
    Apart bsId otherBsId page otherPage

theorem places_of_stores (kept : StoresKept s) : PlacesKept s := by
  have info : ∀ {pid a}, HeapLive s pid → InHeap s.ker pid a →
      ∃ store, Placed s pid (vaddr2vpn a) store ∧ HeapPage s pid (vaddr2vpn a) ∧
        getBsInfo pid a s = .ok ((store : Int), storePage (vaddr2vpn a)) s := by
    intro pid a live inside
    obtain ⟨page, bound⟩ := heap_page_of_address kept live inside
    obtain ⟨store, placed⟩ := page_placed kept page
    refine ⟨store, placed, page, ?_⟩
    rw [get_bs_info_ok rfl page.2.1 bound, storeOf, placed.place]
  refine ⟨?_, ?_⟩
  · intro pid a live inside
    obtain ⟨store, placed, page, found⟩ := info live inside
    exact ⟨_, _, found, placed_accepted kept placed⟩
  · intro pid other a b bsId otherBsId page otherPage live inside otherLive otherInside different
      found otherFound
    obtain ⟨store, placed, isPage, same⟩ := info live inside
    obtain ⟨otherStore, otherPlaced, otherIsPage, otherSame⟩ := info otherLive otherInside
    rw [same] at found
    rw [otherSame] at otherFound
    cases found
    cases otherFound
    exact placed_apart kept isPage otherIsPage placed otherPlaced different

/-- Every heap page has its own place on the swap disk, whatever the processes do. -/
theorem every_page_has_its_place [Config] {policy : Int}
    (run : Run (Started policy) (fun _ _ => True) s) : PlacesKept s :=
  places_of_stores (run_kept run)

theorem two_heaps_have_places :
    (twoHeaps.ker.proctab 3).prstate = .susp ∧ InHeap twoHeaps.ker 3 (vheapStart + 200 * nbpg) ∧
      PlacesKept twoHeaps :=
  ⟨by decide +kernel, by decide +kernel, @every_page_has_its_place twoHeaps nine _ two_heaps_run⟩

end Xinu.Swap.Places
