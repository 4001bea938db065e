import Xinu.Lib.Counting
import Xinu.Paging.System

/-!
# Who owns which backing store

`Stores ker pages` says that the store table agrees with an account of the pages that
each process has in each of its stores: every share is an open store of that size, no
store is in two shares, no allocated store is in none, and `free_bs_count` counts the
rest. Taking and giving back one store each change one share.
-/

namespace Xinu.Swap.Ledger

open Xinu.Kernel.State Xinu.Lib.Counting Xinu.Lib.StateError
open Xinu.Paging.BackingStore

set_option autoImplicit false

def unallocated (ker : Ker) (store : Nat) : Bool := !(ker.bstab store).isallocated

structure Stores (ker : Ker) (pages : Int → Nat → Nat) : Prop where
  held : ∀ pid i, 0 < pages pid i → ∃ store < maxBsEntries,
    (ker.proctab pid).pbsd i = (store : Int) ∧ ker.bstab store =
      { isopen := true, isallocated := true, usecount := 0, npages := pages pid i }
  distinct : ∀ pid other i j, 0 < pages pid i → 0 < pages other j →
    (ker.proctab pid).pbsd i = (ker.proctab other).pbsd j → pid = other ∧ i = j
  owned : ∀ store < maxBsEntries, unallocated ker store = false →
    ∃ pid i, 0 < pages pid i ∧ (ker.proctab pid).pbsd i = (store : Int)
  closed : ∀ store < maxBsEntries, unallocated ker store = true →
    (ker.bstab store).isopen = false
  counted : ker.freeBsCount = count maxBsEntries (unallocated ker)
  server : ker.pageServerActive = false → ∀ store < maxBsEntries, unallocated ker store = true

/-- The account after one share has changed. -/
def setShare (pages : Int → Nat → Nat) (pid : Int) (i npages : Nat) : Int → Nat → Nat :=
  fun other j => if other = pid ∧ j = i then npages else pages other j

variable {ker after : Ker} {pages : Int → Nat → Nat} {pid : Int} {i store npages : Nat}

/-- The account is about the store map, the store table and the two counters. -/
theorem stores_congr (stores : Stores ker pages)
    (maps : ∀ pid i, 0 < pages pid i → (after.proctab pid).pbsd i = (ker.proctab pid).pbsd i)
    (table : ∀ store < maxBsEntries, after.bstab store = ker.bstab store)
    (free : after.freeBsCount = ker.freeBsCount)
    (server : after.pageServerActive = ker.pageServerActive) : Stores after pages := by
  have same : ∀ store < maxBsEntries, unallocated after store = unallocated ker store :=
    fun store bound => by rw [unallocated, unallocated, table store bound]
  refine ⟨?_, ?_, ?_, ?_, ?_, ?_⟩
  · intro pid i some
    obtain ⟨store, bound, place, entry⟩ := stores.held pid i some
    exact ⟨store, bound, (maps pid i some).trans place, (table store bound).trans entry⟩
  · intro pid other i j some otherSome equal
    rw [maps pid i some, maps other j otherSome] at equal
    exact stores.distinct pid other i j some otherSome equal
  · intro store bound taken
    rw [same store bound] at taken
    obtain ⟨pid, i, some, place⟩ := stores.owned store bound taken
    exact ⟨pid, i, some, (maps pid i some).trans place⟩
  · intro store bound isFree
    rw [same store bound] at isFree
    rw [table store bound]
    exact stores.closed store bound isFree
  · rw [free, stores.counted]
    exact (count_congr same).symm
  · intro off store bound
    rw [same store bound]
    exact stores.server (server.symm.trans off) store bound

theorem stores_free_bound (stores : Stores ker pages) : ker.freeBsCount ≤ maxBsEntries := by
  rw [stores.counted]
  exact count_bound

/-- The stores in two shares are different numbers. -/
theorem share_store (stores : Stores ker pages) (some : 0 < pages pid i)
    (place : (ker.proctab pid).pbsd i = (store : Int)) :
    store < maxBsEntries ∧ ker.bstab store =
      { isopen := true, isallocated := true, usecount := 0, npages := pages pid i } := by
  obtain ⟨other, bound, otherPlace, entry⟩ := stores.held pid i some
  have same : other = store := by
    rw [place] at otherPlace
    exact (Int.ofNat_inj.mp otherPlace).symm
  subst same
  exact ⟨bound, entry⟩

/-- There are no more shares of a process than stores. -/
theorem share_bound (stores : Stores ker pages)
    (all : ∀ j ≤ i, 0 < pages pid j) : i < maxBsEntries := by
  by_contra large
  have place : ∀ j, ∃ store, j ≤ i → store < maxBsEntries ∧
      (ker.proctab pid).pbsd j = (store : Int) := by
    intro j
    by_cases inside : j ≤ i
    · obtain ⟨store, bound, place, _⟩ := stores.held pid j (all j inside)
      exact ⟨store, fun _ => ⟨bound, place⟩⟩
    · exact ⟨0, fun isInside => absurd isInside inside⟩
  choose number numbered using place
  have fewer : (Finset.range maxBsEntries).card < (Finset.range (i + 1)).card := by
    rw [Finset.card_range, Finset.card_range]
    omega
  have maps : ∀ j ∈ Finset.range (i + 1), number j ∈ Finset.range maxBsEntries := by
    intro j member
    rw [Finset.mem_range] at member ⊢
    exact (numbered j (by omega)).1
  obtain ⟨left, leftMember, right, rightMember, different, equal⟩ :=
    Finset.exists_ne_map_eq_of_card_lt_of_maps_to fewer maps
  rw [Finset.mem_range] at leftMember rightMember
  have leftPlace := (numbered left (by omega)).2
  have rightPlace := (numbered right (by omega)).2
  rw [equal] at leftPlace
  exact different (stores.distinct pid pid left right (all left (by omega)) (all right (by omega))
    (leftPlace.trans rightPlace.symm)).2

section Taking

/-- The kernel variables after `store` has become the `i`th one of a process. -/
structure Took (ker after : Ker) (pid : Int) (i store npages : Nat) : Prop where
  bound : store < maxBsEntries
  wasFree : unallocated ker store = true
  entry : after.bstab store =
    { isopen := true, isallocated := true, usecount := 0, npages := npages }
  others : ∀ other < maxBsEntries, other ≠ store → after.bstab other = ker.bstab other
  place : (after.proctab pid).pbsd i = (store : Int)
  places : ∀ other j, ¬(other = pid ∧ j = i) →
    (after.proctab other).pbsd j = (ker.proctab other).pbsd j
  free : after.freeBsCount + 1 = ker.freeBsCount
  server : after.pageServerActive = true

theorem stores_take (stores : Stores ker pages) (none : pages pid i = 0) (some : 0 < npages)
    (took : Took ker after pid i store npages) : Stores after (setShare pages pid i npages) := by
  have here : setShare pages pid i npages pid i = npages := if_pos ⟨rfl, rfl⟩
  have other : ∀ {q j}, ¬(q = pid ∧ j = i) → setShare pages pid i npages q j = pages q j :=
    fun different => if_neg different
  -- the store is in no share that there was before
  have apart : ∀ {q j}, 0 < pages q j → (ker.proctab q).pbsd j ≠ (store : Int) := by
    intro q j positive place
    obtain ⟨_, entry⟩ := share_store stores positive place
    have wasFree := took.wasFree
    rw [unallocated, entry] at wasFree
    cases wasFree
  have old : ∀ {q j}, ¬(q = pid ∧ j = i) → 0 < setShare pages pid i npages q j →
      0 < pages q j ∧ (after.proctab q).pbsd j = (ker.proctab q).pbsd j ∧
        (after.proctab q).pbsd j ≠ (store : Int) := by
    intro q j different positive
    rw [other different] at positive
    rw [took.places q j different]
    exact ⟨positive, rfl, apart positive⟩
  refine ⟨?_, ?_, ?_, ?_, ?_, ?_⟩
  · intro q j positive
    by_cases same : q = pid ∧ j = i
    · obtain ⟨rfl, rfl⟩ := same
      rw [here]
      exact ⟨store, took.bound, took.place, took.entry⟩
    · obtain ⟨before, place, notStore⟩ := old same positive
      obtain ⟨b, bound, wasPlace, entry⟩ := stores.held q j before
      rw [place, wasPlace] at notStore
      have different : b ≠ store := fun equal => notStore (by rw [equal])
      rw [other same]
      exact ⟨b, bound, place.trans wasPlace, (took.others b bound different).trans entry⟩
  · intro p q j k positive otherPositive equal
    by_cases left : p = pid ∧ j = i
    · by_cases right : q = pid ∧ k = i
      · exact ⟨left.1.trans right.1.symm, left.2.trans right.2.symm⟩
      · obtain ⟨_, _, notStore⟩ := old right otherPositive
        rw [left.1, left.2, took.place] at equal
        exact absurd equal.symm notStore
    · obtain ⟨before, place, notStore⟩ := old left positive
      by_cases right : q = pid ∧ k = i
      · rw [right.1, right.2, took.place] at equal
        exact absurd equal notStore
      · obtain ⟨otherBefore, otherPlace, _⟩ := old right otherPositive
        rw [place, otherPlace] at equal
        exact stores.distinct p q j k before otherBefore equal
  · intro b bound taken
    by_cases same : b = store
    · subst same
      exact ⟨pid, i, by rw [here]; exact some, took.place⟩
    · rw [unallocated, took.others b bound same] at taken
      obtain ⟨q, j, positive, place⟩ := stores.owned b bound taken
      have different : ¬(q = pid ∧ j = i) := by
        rintro ⟨rfl, rfl⟩
        omega
      refine ⟨q, j, ?_, (took.places q j different).trans place⟩
      rw [other different]
      exact positive
  · intro b bound isFree
    have different : b ≠ store := by
      rintro rfl
      rw [unallocated, took.entry] at isFree
      cases isFree
    rw [unallocated, took.others b bound different] at isFree
    rw [took.others b bound different]
    exact stores.closed b bound isFree
  · have nowTaken : unallocated after store = false := by rw [unallocated, took.entry]; rfl
    have fewer : count maxBsEntries (unallocated after) + 1 =
        count maxBsEntries (unallocated ker) :=
      count_clear took.bound took.wasFree nowTaken fun b bound different => by
        rw [unallocated, unallocated, took.others b bound different]
    have counted := stores.counted
    have free := took.free
    omega
  · intro off
    rw [took.server] at off
    cases off

end Taking

section Giving

/-- The kernel variables after a process has given back its `i`th store. -/
structure Gave (ker after : Ker) (pid : Int) (i store : Nat) : Prop where
  place : (ker.proctab pid).pbsd i = (store : Int)
  entry : (after.bstab store).isopen = false ∧ unallocated after store = true
  others : ∀ other < maxBsEntries, other ≠ store → after.bstab other = ker.bstab other
  places : ∀ other, (after.proctab other).pbsd = (ker.proctab other).pbsd
  free : after.freeBsCount = ker.freeBsCount + 1
  server : after.pageServerActive = ker.pageServerActive

theorem stores_give (stores : Stores ker pages) (some : 0 < pages pid i)
    (gave : Gave ker after pid i store) : Stores after (setShare pages pid i 0) := by
  obtain ⟨bound, held⟩ := share_store stores some gave.place
  have wasTaken : unallocated ker store = false := by rw [unallocated, held]; rfl
  have left : ∀ {q j}, 0 < setShare pages pid i 0 q j →
      ¬(q = pid ∧ j = i) ∧ 0 < pages q j ∧ setShare pages pid i 0 q j = pages q j := by
    intro q j positive
    by_cases same : q = pid ∧ j = i
    · rw [setShare, if_pos same] at positive
      omega
    · rw [setShare, if_neg same] at positive ⊢
      exact ⟨same, positive, rfl⟩
  refine ⟨?_, ?_, ?_, ?_, ?_, ?_⟩
  · intro q j positive
    obtain ⟨different, before, same⟩ := left positive
    obtain ⟨b, inside, place, entry⟩ := stores.held q j before
    have notStore : b ≠ store := by
      rintro rfl
      exact different (stores.distinct q pid j i before some (place.trans gave.place.symm))
    rw [same, gave.places]
    exact ⟨b, inside, place, (gave.others b inside notStore).trans entry⟩
  · intro p q j k positive otherPositive equal
    rw [gave.places, gave.places] at equal
    exact stores.distinct p q j k (left positive).2.1 (left otherPositive).2.1 equal
  · intro b inside taken
    have notStore : b ≠ store := by
      rintro rfl
      rw [gave.entry.2] at taken
      cases taken
    rw [unallocated, gave.others b inside notStore] at taken
    obtain ⟨q, j, positive, place⟩ := stores.owned b inside taken
    have different : ¬(q = pid ∧ j = i) := by
      rintro ⟨rfl, rfl⟩
      rw [gave.place] at place
      exact notStore (Int.ofNat_inj.mp place).symm
    refine ⟨q, j, ?_, ?_⟩
    · rw [setShare, if_neg different]
      exact positive
    · rw [gave.places]
      exact place
  · intro b inside isFree
    by_cases same : b = store
    · rw [same]
      exact gave.entry.1
    · rw [unallocated, gave.others b inside same] at isFree
      rw [gave.others b inside same]
      exact stores.closed b inside isFree
  · have more : count maxBsEntries (unallocated after) =
        count maxBsEntries (unallocated ker) + 1 :=
      count_set bound wasTaken gave.entry.2 fun b inside different => by
        rw [unallocated, unallocated, gave.others b inside different]
    rw [gave.free, stores.counted, more]
  · intro off
    rw [gave.server] at off
    rw [stores.server off store bound] at wasTaken
    cases wasTaken

end Giving

end Xinu.Swap.Ledger
