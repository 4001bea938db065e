import Xinu.Swap.Ledger

/-!
# The store loops of `vcreate` and `kill`

One turn of the loop of `bs_init` takes the first unallocated store, and one turn of
the loop of `freeProcBS` gives one back. Neither touches anything outside of the store
tables, the counters and the store map of its process.
-/

namespace Xinu.Swap.Allocation

open Xinu.Kernel.State Xinu.Kernel.Semaphore Xinu.Lib.Counting Xinu.Lib.StateError
open Xinu.Paging.Address Xinu.Paging.BackingStore Xinu.Paging.Process Xinu.Swap.Ledger

set_option autoImplicit false

/-- The pages of a heap that go to its `i`th store. -/
def heapShare (hsize i : Nat) : Nat := min (hsize - maxPagesPerBs * i) maxPagesPerBs

/-- Only the server, its tables and its semaphores have changed. -/
def ServerMoved (s final : St) : Prop :=
  ∃ semtab bstab active, final = { s with ker := { s.ker with
    semtab := semtab, bstab := bstab, pageServerActive := active } }

/-- The store map of a process and the count of the free stores may have changed too. -/
def StoresMoved (pid : Int) (s final : St) : Prop :=
  ∃ pbsd semtab bstab free active, final = { s with ker := { s.ker with
    proctab := Function.update s.ker.proctab pid { s.ker.proctab pid with pbsd := pbsd }
    semtab := semtab
    bstab := bstab
    freeBsCount := free
    pageServerActive := active } }

variable {s middle final : St} {pages : Int → Nat → Nat} {pid : Int}

section Moves

theorem server_moved_refl (s : St) : ServerMoved s s :=
  ⟨s.ker.semtab, s.ker.bstab, s.ker.pageServerActive, rfl⟩

theorem stores_moved_refl (pid : Int) (s : St) : StoresMoved pid s s := by
  refine ⟨(s.ker.proctab pid).pbsd, s.ker.semtab, s.ker.bstab, s.ker.freeBsCount,
    s.ker.pageServerActive, ?_⟩
  rw [Function.update_eq_self]

theorem stores_moved_trans (first : StoresMoved pid s middle)
    (second : StoresMoved pid middle final) : StoresMoved pid s final := by
  obtain ⟨_, _, _, _, _, rfl⟩ := first
  obtain ⟨pbsd, semtab, bstab, free, active, rfl⟩ := second
  refine ⟨pbsd, semtab, bstab, free, active, ?_⟩
  simp only [Function.update_idem, Function.update_self]

end Moves

section Server

theorem psinit_ok {status : Int} (off : s.ker.pageServerActive = false)
    (ran : psinit s = .ok status final) :
    ∃ semtab bstab, final = { s with ker := { s.ker with
        semtab := semtab, bstab := bstab, pageServerActive := true } } ∧
      ∀ store < maxBsEntries, bstab store =
        { isopen := false, isallocated := false, usecount := 0, npages := 0 } := by
  obtain ⟨_, held, waited, ran⟩ := bind_ok_inv ran
  obtain ⟨free, rfl⟩ := wait_returned waited
  rw [get_bind] at ran
  have stillOff : ¬(taken s.ker .bsInitSem).pageServerActive = true := by
    change ¬s.ker.pageServerActive = true
    rw [off]
    decide
  rw [if_neg stillOff] at ran
  obtain ⟨_, created, createRan, ran⟩ := bind_ok_inv ran
  cases createRan
  obtain ⟨_, cleared, clearRan, ran⟩ := bind_ok_inv ran
  cases clearRan
  obtain ⟨_, released, signalled, ran⟩ := bind_ok_inv ran
  rw [signal_nobody] at signalled
  · cases signalled
    cases ran
    refine ⟨_, _, rfl, ?_⟩
    intro store bound
    exact if_pos bound
  · simp [taken, Ker.setSem]
    omega

/-- Starting the page server changes nothing for the account. -/
theorem psinit_stores {status : Int} (stores : Stores s.ker pages)
    (off : s.ker.pageServerActive = false) (ran : psinit s = .ok status final) :
    Stores final.ker pages ∧ ServerMoved s final ∧ final.ker.pageServerActive = true ∧
      ∀ store < maxBsEntries, unallocated final.ker store = unallocated s.ker store := by
  obtain ⟨semtab, bstab, rfl, clear⟩ := psinit_ok off ran
  have same : ∀ store < maxBsEntries,
      (!(bstab store).isallocated) = unallocated s.ker store := by
    intro store bound
    rw [stores.server off store bound, clear store bound]
    rfl
  have none : ∀ {pid i}, ¬0 < pages pid i := by
    intro pid i some
    obtain ⟨store, bound, _, entry⟩ := stores.held pid i some
    have isFree := stores.server off store bound
    rw [unallocated, entry] at isFree
    cases isFree
  refine ⟨⟨?_, ?_, ?_, ?_, ?_, ?_⟩, ⟨semtab, bstab, true, rfl⟩, rfl, same⟩
  · intro pid i some
    exact absurd some none
  · intro pid other i j some
    exact absurd some none
  · intro store bound taken
    have isFree := (same store bound).trans (stores.server off store bound)
    rw [unallocated] at taken
    rw [taken] at isFree
    cases isFree
  · intro store bound _
    exact congrArg BsEntry.isopen (clear store bound)
  · exact stores.counted.trans (count_congr same).symm
  · intro active
    cases active

theorem get_bs_ok {store npages : Nat} {status : Int} (active : s.ker.pageServerActive = true)
    (bound : store < maxBsEntries) (some : 0 < npages) (small : npages ≤ maxPagesPerBs)
    (closed : (s.ker.bstab store).isopen = false)
    (ran : getBs store npages s = .ok status final) :
    status = npages ∧ ∃ semtab, final = { s with ker := { s.ker with
      semtab := semtab
      bstab := Function.update s.ker.bstab store
        { s.ker.bstab store with isopen := true, npages := npages } } } := by
  have valid : ¬(maxId < (store : Int) ∨ (store : Int) < minId ∨ npages = 0 ∨
      maxPagesPerBs < npages) := by
    rw [maxBsEntries] at bound
    rw [maxId, minId]
    omega
  unfold getBs at ran
  rw [get_bind, if_neg (by rw [active]; decide), if_neg valid] at ran
  obtain ⟨_, held, waited, ran⟩ := bind_ok_inv ran
  obtain ⟨free, rfl⟩ := wait_returned waited
  rw [get_bind] at ran
  have stillClosed : ¬((taken s.ker .bsSem).bstab (store : Int).toNat).isopen = true := by
    change ¬(s.ker.bstab (store : Int).toNat).isopen = true
    rw [Int.toNat_natCast, closed]
    decide
  rw [if_neg stillClosed] at ran
  obtain ⟨_, opened, openRan, ran⟩ := bind_ok_inv ran
  cases openRan
  obtain ⟨_, released, signalled, ran⟩ := bind_ok_inv ran
  rw [signal_nobody] at signalled
  · cases signalled
    cases ran
    exact ⟨rfl, _, rfl⟩
  · simp [taken, Ker.setSem, Ker.setStore]
    omega

/-- `allocate_bs` takes the first unallocated store. -/
theorem allocate_bs_from_ok {npages fuel i : Nat} {status : Int}
    (active : s.ker.pageServerActive = true) (some : 0 < npages) (small : npages ≤ maxPagesPerBs)
    (closed : ∀ store < maxBsEntries, unallocated s.ker store = true →
      (s.ker.bstab store).isopen = false)
    (room : ∃ store, i ≤ store ∧ store < i + fuel ∧ unallocated s.ker store = true)
    (bound : i + fuel = maxBsEntries) (ran : allocateBsFrom npages fuel i s = .ok status final) :
    ∃ store semtab, i ≤ store ∧ store < maxBsEntries ∧ unallocated s.ker store = true ∧
      (∀ other, i ≤ other → other < store → unallocated s.ker other = false) ∧
      status = (store : Int) ∧ final = { s with ker := { s.ker with
        semtab := semtab
        bstab := Function.update s.ker.bstab store
          { isopen := true, isallocated := true, usecount := 0, npages := npages } } } := by
  induction fuel generalizing i with
  | zero =>
      obtain ⟨store, low, high, _⟩ := room
      omega
  | succ fuel induction =>
      unfold allocateBsFrom at ran
      rw [get_bind] at ran
      by_cases here : (s.ker.bstab i).isallocated = false
      · rw [if_pos here] at ran
        have isFree : unallocated s.ker i = true := by rw [unallocated, here]; rfl
        obtain ⟨opened, middle, getRan, ran⟩ := bind_ok_inv ran
        obtain ⟨returned, semtab, rfl⟩ :=
          get_bs_ok active (by omega) some small (closed i (by omega) isFree) getRan
        have isOpen : ¬opened = sysErr := by
          rw [returned, sysErr]
          omega
        rw [if_neg isOpen] at ran
        cases ran
        refine ⟨i, semtab, Nat.le_refl i, by omega, isFree, ?_, rfl, ?_⟩
        · intro other low high
          omega
        · simp only [Ker.setStore, Function.update_self, Function.update_idem]
      · rw [if_neg here] at ran
        have isTaken : unallocated s.ker i = false := by
          rw [unallocated, Bool.eq_true_of_not_eq_false here]
          rfl
        have later : ∃ store, i + 1 ≤ store ∧ store < i + 1 + fuel ∧
            unallocated s.ker store = true := by
          obtain ⟨store, low, high, isFree⟩ := room
          have different : store ≠ i := by
            rintro rfl
            rw [isTaken] at isFree
            cases isFree
          exact ⟨store, by omega, by omega, isFree⟩
        obtain ⟨store, semtab, low, inside, isFree, first, rest⟩ :=
          induction later (by omega) ran
        refine ⟨store, semtab, by omega, inside, isFree, ?_, rest⟩
        intro other above below
        by_cases same : other = i
        · rw [same]
          exact isTaken
        · exact first other (by omega) below

theorem allocate_bs_ok {npages : Nat} {status : Int} (stores : Stores s.ker pages)
    (free : 0 < s.ker.freeBsCount) (some : 0 < npages) (small : npages ≤ maxPagesPerBs)
    (ran : allocateBs npages s = .ok status final) :
    ∃ opened store semtab, Stores opened.ker pages ∧ ServerMoved s opened ∧
      opened.ker.pageServerActive = true ∧
      (∀ store < maxBsEntries, unallocated opened.ker store = unallocated s.ker store) ∧
      store < maxBsEntries ∧ unallocated s.ker store = true ∧
      (∀ other < store, unallocated s.ker other = false) ∧
      status = (store : Int) ∧ final = { opened with ker := { opened.ker with
        semtab := semtab
        bstab := Function.update opened.ker.bstab store
          { isopen := true, isallocated := true, usecount := 0, npages := npages } } } := by
  have room : ∃ store < maxBsEntries, unallocated s.ker store = true := by
    apply exists_of_count
    rw [← stores.counted]
    exact free
  have started : ∃ opened, Stores opened.ker pages ∧ ServerMoved s opened ∧
      opened.ker.pageServerActive = true ∧
      (∀ store < maxBsEntries, unallocated opened.ker store = unallocated s.ker store) ∧
      allocateBsFrom npages maxBsEntries 0 opened = .ok status final := by
    unfold allocateBs at ran
    rw [get_bind] at ran
    split at ran
    · rename_i off
      obtain ⟨code, opened, initRan, ran⟩ := bind_ok_inv ran
      obtain ⟨openedStores, moved, active, same⟩ := psinit_stores stores off initRan
      exact ⟨opened, openedStores, moved, active, same, ran⟩
    · rename_i active
      exact ⟨s, stores, server_moved_refl s, Bool.eq_true_of_not_eq_false active,
        fun _ _ => rfl, ran⟩
  obtain ⟨opened, openedStores, moved, active, same, ran⟩ := started
  obtain ⟨found, inside, isFree⟩ := room
  obtain ⟨store, semtab, _, bound, wasFree, first, returned, rfl⟩ :=
    allocate_bs_from_ok active some small openedStores.closed
      ⟨found, Nat.zero_le _, by omega, (same found inside).trans isFree⟩ (by omega) ran
  refine ⟨opened, store, semtab, openedStores, moved, active, same, bound,
    (same store bound).symm.trans wasFree, ?_, returned, rfl⟩
  intro other below
  rw [← same other (by omega)]
  exact first other (Nat.zero_le _) below

end Server

section Taking

/-- One turn of the loop of `bs_init`, up to the next one. -/
structure TurnTaken (pages : Int → Nat → Nat) (pid : Int) (i npages : Nat) (s next : St) : Prop where
  stores : Stores next.ker (setShare pages pid i npages)
  moved : StoresMoved pid s next
  free : next.ker.freeBsCount + 1 = s.ker.freeBsCount
  place : ∃ store < maxBsEntries, unallocated s.ker store = true ∧
    (∀ other < store, unallocated s.ker other = false) ∧
    (next.ker.proctab pid).pbsd i = (store : Int) ∧
    ∀ other < maxBsEntries, unallocated next.ker other =
      if other = store then false else unallocated s.ker other
  places : ∀ j, j ≠ i → (next.ker.proctab pid).pbsd j = (s.ker.proctab pid).pbsd j

theorem bs_init_turn {fuel i : Nat} {remain : Int} (stores : Stores s.ker pages)
    (none : pages pid i = 0) (some : 0 < remain) (free : 0 < s.ker.freeBsCount)
    (ran : bsInitFrom pid (fuel + 1) remain i s = .ok () final) :
    ∃ next, TurnTaken pages pid i (min remain maxPagesPerBs).toNat s next ∧
      bsInitFrom pid fuel (remain - maxPagesPerBs) (i + 1) next = .ok () final := by
  have most := stores_free_bound stores
  unfold bsInitFrom at ran
  rw [if_pos some] at ran
  obtain ⟨status, allocated, allocateRan, ran⟩ := bind_ok_inv ran
  obtain ⟨_, placed, placeRan, ran⟩ := bind_ok_inv ran
  obtain ⟨_, next, countRan, ran⟩ := bind_ok_inv ran
  cases placeRan
  have positive : 0 < (min remain maxPagesPerBs).toNat := by
    rw [maxPagesPerBs]
    omega
  have small : (min remain maxPagesPerBs).toNat ≤ maxPagesPerBs := by
    rw [maxPagesPerBs]
    omega
  obtain ⟨opened, store, semtab, openedStores, moved, active, same, bound, isFree, first, rfl, rfl⟩ :=
    allocate_bs_ok stores free positive small allocateRan
  obtain ⟨openSem, openTab, openActive, rfl⟩ := moved
  have less : (s.ker.freeBsCount + word32 - 1) % word32 + 1 = s.ker.freeBsCount := by
    rw [maxBsEntries] at most
    rw [word32]
    omega
  cases countRan
  refine ⟨_, ?_, ran⟩
  refine ⟨?_, ?_, less, ⟨store, bound, isFree, first, ?_, ?_⟩, ?_⟩
  · refine stores_take openedStores none positive ⟨bound, ?_, ?_, ?_, ?_, ?_, less, active⟩
    · exact (same store bound).trans isFree
    · exact Function.update_self ..
    · intro other _ different
      exact Function.update_of_ne different ..
    · simp [Ker.setProc]
    · intro other j different
      by_cases isPid : other = pid
      · subst isPid
        have notHere : j ≠ i := fun equal => different ⟨rfl, equal⟩
        simp [Ker.setProc, Function.update_of_ne notHere]
      · simp [Ker.setProc, Function.update_of_ne isPid]
  · exact ⟨_, _, _, _, _, rfl⟩
  · simp [Ker.setProc]
  · intro other inside
    by_cases here : other = store
    · subst here
      rw [if_pos rfl, unallocated]
      simp [Ker.setProc]
    · rw [if_neg here, ← same other inside, unallocated, unallocated]
      simp [Ker.setProc, Function.update_of_ne here]
  · intro j different
    simp [Ker.setProc, Function.update_of_ne different]

/-- The account once the loop is over. -/
theorem account_complete {hsize i : Nat} (done : hsize ≤ maxPagesPerBs * i)
    (before : ∀ j, pages pid j = if j < i then heapShare hsize j else 0) :
    (fun q j => if q = pid then heapShare hsize j else pages q j) = pages := by
  funext q j
  by_cases isPid : q = pid
  · rw [if_pos isPid, isPid, before]
    split
    · rfl
    · rename_i above
      rw [maxPagesPerBs] at done
      rw [heapShare, maxPagesPerBs]
      omega
  · rw [if_neg isPid]

/-- The number of stores that a heap still needs when it has got `i` of them. -/
def storesLeft (hsize i : Nat) : Nat :=
  (hsize - maxPagesPerBs * i + maxPagesPerBs - 1) / maxPagesPerBs

theorem stores_left_all (hsize : Nat) : storesLeft hsize 0 = bsReq hsize := by
  unfold storesLeft bsReq
  rw [maxPagesPerBs]
  split <;> omega

/-- The heap of a process gets all of its stores. -/
theorem bs_init_from_ok {hsize fuel i : Nat} (stores : Stores s.ker pages)
    (before : ∀ j, pages pid j = if j < i then heapShare hsize j else 0)
    (enough : hsize ≤ maxPagesPerBs * (i + s.ker.freeBsCount)) (fueled : hsize ≤ i + fuel)
    (ran : bsInitFrom pid fuel ((hsize : Int) - maxPagesPerBs * i) i s = .ok () final) :
    Stores final.ker (fun q j => if q = pid then heapShare hsize j else pages q j) ∧
      StoresMoved pid s final ∧ final.ker.freeBsCount + storesLeft hsize i = s.ker.freeBsCount := by
  induction fuel generalizing i s pages with
  | zero =>
      cases ran
      rw [account_complete (by rw [maxPagesPerBs]; omega) before]
      refine ⟨stores, stores_moved_refl pid _, ?_⟩
      rw [storesLeft, maxPagesPerBs]
      omega
  | succ fuel induction =>
      by_cases some : 0 < (hsize : Int) - maxPagesPerBs * i
      · have free : 0 < s.ker.freeBsCount := by
          rw [maxPagesPerBs] at enough some
          by_contra none
          have zero : s.ker.freeBsCount = 0 := by omega
          rw [zero] at enough
          omega
        have none : pages pid i = 0 := by rw [before, if_neg (Nat.lt_irrefl i)]
        obtain ⟨next, turn, ran⟩ := bs_init_turn stores none some free ran
        have share : (min ((hsize : Int) - maxPagesPerBs * i) maxPagesPerBs).toNat =
            heapShare hsize i := by
          rw [heapShare, maxPagesPerBs]
          omega
        have later : (hsize : Int) - maxPagesPerBs * i - maxPagesPerBs =
            (hsize : Int) - maxPagesPerBs * (i + 1 : Nat) := by
          rw [maxPagesPerBs]
          omega
        have nextStores := turn.stores
        rw [share] at nextStores
        rw [later] at ran
        have account : ∀ j, setShare pages pid i (heapShare hsize i) pid j =
            if j < i + 1 then heapShare hsize j else 0 := by
          intro j
          unfold setShare
          by_cases here : j = i
          · rw [if_pos ⟨rfl, here⟩, if_pos (by omega), here]
          · rw [if_neg (fun both => here both.2), before]
            split <;> split <;> first | rfl | omega
        have left := turn.free
        obtain ⟨finalStores, finalMoved, counted⟩ := induction nextStores account
          (by rw [maxPagesPerBs] at enough ⊢; omega) (by omega) ran
        refine ⟨?_, stores_moved_trans turn.moved finalMoved, ?_⟩
        swap
        · rw [storesLeft, maxPagesPerBs] at counted ⊢
          rw [maxPagesPerBs] at some
          omega
        have same : (fun q j => if q = pid then heapShare hsize j else pages q j) =
            fun q j => if q = pid then heapShare hsize j
              else setShare pages pid i (heapShare hsize i) q j := by
          funext q j
          by_cases isPid : q = pid
          · rw [if_pos isPid, if_pos isPid]
          · rw [if_neg isPid, if_neg isPid, setShare, if_neg (fun both => isPid both.1)]
        rw [same]
        exact finalStores
      · unfold bsInitFrom at ran
        rw [if_neg some] at ran
        cases ran
        rw [account_complete (by rw [maxPagesPerBs] at some ⊢; omega) before]
        refine ⟨stores, stores_moved_refl pid _, ?_⟩
        rw [maxPagesPerBs] at some
        rw [storesLeft, maxPagesPerBs]
        omega

/-- Before each further turn of the loop of `bs_init` the account is right and the turns
so far have taken one store each. -/
theorem bs_init_turns {turns i : Nat} {remain : Int} (stores : Stores s.ker pages)
    (none : ∀ j, i ≤ j → pages pid j = 0) (more : 0 < remain - maxPagesPerBs * turns)
    (free : turns < s.ker.freeBsCount) (ran : bsInitFrom pid turns remain i s = .ok () final) :
    ∃ pages, Stores final.ker pages ∧ final.ker.freeBsCount + turns = s.ker.freeBsCount := by
  induction turns generalizing i remain s pages with
  | zero =>
      cases ran
      exact ⟨pages, stores, rfl⟩
  | succ turns induction =>
      rw [maxPagesPerBs] at more
      obtain ⟨next, turn, ran⟩ :=
        bs_init_turn stores (none i (Nat.le_refl i)) (by omega) (by omega) ran
      have left := turn.free
      have later : ∀ j, i + 1 ≤ j →
          setShare pages pid i (min remain maxPagesPerBs).toNat pid j = 0 := by
        intro j above
        rw [setShare, if_neg (by omega)]
        exact none j (by omega)
      obtain ⟨account, after, counted⟩ := induction turn.stores later
        (by rw [maxPagesPerBs]; omega) (by omega) ran
      exact ⟨account, after, by omega⟩

/-- `bs_init` clears the map of a process that has no stores. -/
theorem clear_map_stores (stores : Stores s.ker pages) (none : ∀ j, pages pid j = 0) :
    Stores (s.ker.setProc pid fun proc =>
      { proc with pbsd := fun i => if i < maxBsEntries then 0 else proc.pbsd i }) pages := by
  refine stores_congr stores ?_ (fun _ _ => rfl) rfl rfl
  intro q j some
  have other : q ≠ pid := by
    rintro rfl
    rw [none] at some
    omega
  simp [Ker.setProc, Function.update_of_ne other]

/-- A heap that passes the admission test has a size below the sign bit. -/
theorem admitted_size {hsize : Nat} (stores : Stores s.ker pages)
    (enough : bsReq hsize ≤ s.ker.freeBsCount) :
    hsize ≤ maxPagesPerBs * s.ker.freeBsCount ∧ toInt32 hsize = hsize := by
  have most := stores_free_bound stores
  have room : hsize ≤ maxPagesPerBs * s.ker.freeBsCount := by
    unfold bsReq at enough
    split at enough
    · omega
    · rw [maxPagesPerBs] at enough ⊢
      omega
  refine ⟨room, ?_⟩
  rw [maxBsEntries] at most
  rw [maxPagesPerBs] at room
  rw [toInt32, if_pos (by omega)]

theorem bs_init_ok {hsize : Nat} {status : Int} (stores : Stores s.ker pages)
    (none : ∀ j, pages pid j = 0) (enough : bsReq hsize ≤ s.ker.freeBsCount)
    (ran : bsInit pid hsize s = .ok status final) :
    Stores final.ker (fun q j => if q = pid then heapShare hsize j else pages q j) ∧
      StoresMoved pid s final ∧ final.ker.freeBsCount + bsReq hsize = s.ker.freeBsCount := by
  obtain ⟨room, size⟩ := admitted_size stores enough
  have signed : toInt32 hsize = (hsize : Int) - maxPagesPerBs * (0 : Nat) := by
    rw [size]
    omega
  obtain ⟨_, cleared, clearRan, ran⟩ := bind_ok_inv ran
  cases clearRan
  obtain ⟨_, filled, loopRan, ran⟩ := bind_ok_inv ran
  cases ran
  rw [signed] at loopRan
  have clearedMoved : StoresMoved pid s { s with ker := s.ker.setProc pid fun proc =>
      { proc with pbsd := fun i => if i < maxBsEntries then 0 else proc.pbsd i } } :=
    ⟨_, s.ker.semtab, s.ker.bstab, s.ker.freeBsCount, s.ker.pageServerActive, rfl⟩
  have clearedStores := clear_map_stores stores none
  obtain ⟨finalStores, moved, counted⟩ := bs_init_from_ok clearedStores
    (fun j => by rw [none, if_neg (Nat.not_lt_zero j)])
    (by rw [Nat.zero_add]; exact room) (by omega) loopRan
  rw [stores_left_all] at counted
  exact ⟨finalStores, stores_moved_trans clearedMoved moved, counted⟩

end Taking

section Giving

/-- The server's tables and the count of the free stores may have changed. -/
def StoresReleased (s final : St) : Prop :=
  ∃ semtab bstab free, final = { s with ker := { s.ker with
    semtab := semtab, bstab := bstab, freeBsCount := free } }

theorem stores_released_refl (s : St) : StoresReleased s s :=
  ⟨s.ker.semtab, s.ker.bstab, s.ker.freeBsCount, rfl⟩

theorem stores_released_trans (first : StoresReleased s middle)
    (second : StoresReleased middle final) : StoresReleased s final := by
  obtain ⟨_, _, _, rfl⟩ := first
  obtain ⟨semtab, bstab, free, rfl⟩ := second
  exact ⟨semtab, bstab, free, rfl⟩

theorem deallocate_bs_ok {store npages : Nat} {status : Int} (bound : store < maxBsEntries)
    (active : s.ker.pageServerActive = true) (entry : s.ker.bstab store =
      { isopen := true, isallocated := true, usecount := 0, npages := npages })
    (ran : deallocateBs (store : Int) s = .ok status final) :
    ∃ semtab, final = { s with ker := { s.ker with
      semtab := semtab
      bstab := Function.update s.ker.bstab store
        { isopen := false, isallocated := false, usecount := 0, npages := 0 } } } := by
  have valid : ¬(maxId < (store : Int) ∨ (store : Int) < minId) := by
    rw [maxBsEntries] at bound
    rw [maxId, minId]
    omega
  unfold deallocateBs at ran
  rw [if_neg valid, get_bind] at ran
  simp only [Int.toNat_natCast, entry, Bool.true_eq_false, if_false, Int.lt_irrefl] at ran
  obtain ⟨code, released, releaseRan, ran⟩ := bind_ok_inv ran
  unfold releaseBs at releaseRan
  rw [get_bind, if_neg (by rw [active]; decide)] at releaseRan
  obtain ⟨_, held, waited, releaseRan⟩ := bind_ok_inv releaseRan
  obtain ⟨free, rfl⟩ := wait_returned waited
  rw [get_bind] at releaseRan
  have isOpen : ¬(maxId < (store : Int) ∨ (store : Int) < minId ∨
      ((taken s.ker .bsSem).bstab (store : Int).toNat).isopen = false) := by
    rintro (high | low | closed)
    · exact valid (Or.inl high)
    · exact valid (Or.inr low)
    · change (s.ker.bstab (store : Int).toNat).isopen = false at closed
      rw [Int.toNat_natCast, entry] at closed
      cases closed
  rw [if_neg isOpen] at releaseRan
  obtain ⟨_, shut, shutRan, releaseRan⟩ := bind_ok_inv releaseRan
  cases shutRan
  obtain ⟨_, given, signalled, releaseRan⟩ := bind_ok_inv releaseRan
  rw [signal_nobody] at signalled
  · cases signalled
    cases releaseRan
    cases ran
    refine ⟨((taken s.ker .bsSem).setSem .bsSem fun sentry =>
      { sentry with scount := sentry.scount + 1 }).semtab, ?_⟩
    simp only [Ker.setStore, Ker.setSem, Int.toNat_natCast, Function.update_self,
      Function.update_idem]
    rfl
  · simp [taken, Ker.setSem, Ker.setStore]
    omega

/-- One turn of the loop of `freeProcBS`. -/
theorem free_proc_bs_turn {fuel i : Nat} {remain : Int} (stores : Stores s.ker pages)
    (share : 0 < pages pid i) (some : 0 < remain)
    (ran : freeProcBSFrom pid (fuel + 1) remain i s = .ok () final) :
    ∃ next, Stores next.ker (setShare pages pid i 0) ∧ StoresReleased s next ∧
      freeProcBSFrom pid fuel (remain - maxPagesPerBs) (i + 1) next = .ok () final := by
  have most := stores_free_bound stores
  obtain ⟨store, bound, place, entry⟩ := stores.held pid i share
  have active : s.ker.pageServerActive = true := by
    by_contra off
    have isFree := stores.server (Bool.eq_false_of_not_eq_true off) store bound
    rw [unallocated, entry] at isFree
    cases isFree
  unfold freeProcBSFrom at ran
  rw [if_pos some, get_bind, place] at ran
  obtain ⟨status, released, releaseRan, ran⟩ := bind_ok_inv ran
  obtain ⟨_, next, countRan, ran⟩ := bind_ok_inv ran
  obtain ⟨semtab, rfl⟩ := deallocate_bs_ok bound active entry releaseRan
  have more : (s.ker.freeBsCount + 1) % word32 = s.ker.freeBsCount + 1 := by
    rw [maxBsEntries] at most
    rw [word32]
    omega
  cases countRan
  refine ⟨_, ?_, ⟨_, _, _, rfl⟩, ran⟩
  apply stores_give stores share
  refine ⟨place, ?_, ?_, fun _ => rfl, more, rfl⟩
  · simp [unallocated]
  · intro other _ different
    exact Function.update_of_ne different ..

theorem free_proc_bs_from_ok {hsize fuel i : Nat} (stores : Stores s.ker pages)
    (before : ∀ j, pages pid j = if j < i then 0 else heapShare hsize j)
    (fueled : hsize ≤ i + fuel)
    (ran : freeProcBSFrom pid fuel ((hsize : Int) - maxPagesPerBs * i) i s = .ok () final) :
    Stores final.ker (fun q j => if q = pid then 0 else pages q j) ∧ StoresReleased s final := by
  have complete : ∀ {pages : Int → Nat → Nat} {i : Nat}, hsize ≤ maxPagesPerBs * i →
      (∀ j, pages pid j = if j < i then 0 else heapShare hsize j) →
      (fun q j => if q = pid then 0 else pages q j) = pages := by
    intro pages i done before
    funext q j
    by_cases isPid : q = pid
    · rw [if_pos isPid, isPid, before]
      split
      · rfl
      · rename_i above
        rw [maxPagesPerBs] at done
        rw [heapShare, maxPagesPerBs]
        omega
    · rw [if_neg isPid]
  induction fuel generalizing i s pages with
  | zero =>
      cases ran
      rw [complete (by rw [maxPagesPerBs]; omega) before]
      exact ⟨stores, stores_released_refl _⟩
  | succ fuel induction =>
      by_cases some : 0 < (hsize : Int) - maxPagesPerBs * i
      · have share : 0 < pages pid i := by
          rw [before, if_neg (Nat.lt_irrefl i), heapShare]
          rw [maxPagesPerBs] at some ⊢
          omega
        obtain ⟨next, nextStores, released, ran⟩ := free_proc_bs_turn stores share some ran
        have later : (hsize : Int) - maxPagesPerBs * i - maxPagesPerBs =
            (hsize : Int) - maxPagesPerBs * (i + 1 : Nat) := by
          rw [maxPagesPerBs]
          omega
        rw [later] at ran
        have account : ∀ j, setShare pages pid i 0 pid j =
            if j < i + 1 then 0 else heapShare hsize j := by
          intro j
          unfold setShare
          by_cases here : j = i
          · rw [if_pos ⟨rfl, here⟩, if_pos (by omega)]
          · rw [if_neg (fun both => here both.2), before]
            split <;> split <;> first | rfl | omega
        obtain ⟨finalStores, finalReleased⟩ := induction nextStores account (by omega) ran
        refine ⟨?_, stores_released_trans released finalReleased⟩
        have same : (fun q j => if q = pid then 0 else pages q j) =
            fun q j => if q = pid then 0 else setShare pages pid i 0 q j := by
          funext q j
          by_cases isPid : q = pid
          · rw [if_pos isPid, if_pos isPid]
          · rw [if_neg isPid, if_neg isPid, setShare, if_neg (fun both => isPid both.1)]
        rw [same]
        exact finalStores
      · unfold freeProcBSFrom at ran
        rw [if_neg some] at ran
        cases ran
        rw [complete (by rw [maxPagesPerBs] at some ⊢; omega) before]
        exact ⟨stores, stores_released_refl _⟩

/-- A heap that has all of its shares fits into the stores. -/
theorem heap_fits {hsize : Nat} (stores : Stores s.ker pages)
    (shares : ∀ j, pages pid j = heapShare hsize j) : hsize ≤ maxPagesPerBs * maxBsEntries := by
  by_contra large
  have all : ∀ j ≤ maxBsEntries, 0 < pages pid j := by
    intro j bound
    rw [maxBsEntries] at bound
    rw [maxPagesPerBs, maxBsEntries] at large
    rw [shares, heapShare, maxPagesPerBs]
    omega
  exact absurd (share_bound stores all) (Nat.lt_irrefl _)

theorem free_proc_bs_ok {status : Int} (stores : Stores s.ker pages)
    (shares : ∀ j, pages pid j = if (s.ker.proctab pid).vh = true
      then heapShare (s.ker.proctab pid).hsize j else 0)
    (ran : freeProcBS pid s = .ok status final) :
    Stores final.ker (fun q j => if q = pid then 0 else pages q j) ∧ StoresReleased s final := by
  unfold freeProcBS at ran
  rw [get_bind] at ran
  by_cases heap : (s.ker.proctab pid).vh = true
  · rw [if_neg (by rw [heap]; decide)] at ran
    simp only [if_pos heap] at shares
    have fits := heap_fits stores shares
    have signed : toInt32 (s.ker.proctab pid).hsize =
        ((s.ker.proctab pid).hsize : Int) - maxPagesPerBs * (0 : Nat) := by
      rw [maxPagesPerBs, maxBsEntries] at fits
      rw [toInt32, if_pos (by omega), maxPagesPerBs]
      omega
    obtain ⟨_, emptied, loopRan, ran⟩ := bind_ok_inv ran
    cases ran
    rw [signed] at loopRan
    exact free_proc_bs_from_ok stores (fun j => by rw [shares, if_neg (Nat.not_lt_zero j)])
      (by omega) loopRan
  · rw [if_pos (Bool.eq_false_of_not_eq_true heap)] at ran
    cases ran
    simp only [if_neg heap] at shares
    have same : (fun q j => if q = pid then 0 else pages q j) = pages := by
      funext q j
      by_cases isPid : q = pid
      · rw [if_pos isPid, isPid, shares]
      · rw [if_neg isPid]
    rw [same]
    exact ⟨stores, stores_released_refl _⟩

end Giving

end Xinu.Swap.Allocation
