import Mathlib.Order.Interval.Set.Defs
import Mathlib.Order.Nat
import Xinu.Kernel.HeapBounds

/-!
# The laws of the allocators

What `getmem`, `getstk` and `vgetmem` give, what `freemem` and `vfreemem` take, and that the
second undo the first. A request is rounded up to the size of a node in 32 bits.
-/

namespace Xinu.Kernel.HeapLaws

open Xinu.Kernel.State Xinu.Kernel.Memory Xinu.Kernel.FreeList Xinu.Kernel.Heap
open Xinu.Kernel.HeapLists Xinu.Kernel.HeapRuns Xinu.Kernel.HeapBounds

set_option autoImplicit false

variable {low high n a x nbytes : Nat} {m m' : FreeMem} {block : Nat × Nat}
  {blocks blocks' front rest : List (Nat × Nat)}

section Statements

/-- The invariant of the allocators -/
structure Listed (low high : Nat) (m : FreeMem) (blocks : List (Nat × Nat)) : Prop
    extends Bounded low high m blocks where
  length : m.memlist.mlength = total blocks

/-- The request rounded up to a multiple of the size of a node, without a bound -/
def rounded (nbytes : Nat) : Nat := (nbytes + 7) / 8 * 8

/-- The list of a process, which the first `vgetmem` makes. -/
def VheapListed (p : Vheap) (blocks : List (Nat × Nat)) : Prop :=
  if p.vh = false then blocks = []
  else if p.vmeminit = false then
    p.hsize ≠ 0 ∧ vheapStart + nbpg * p.hsize < word32 ∧ blocks = [(vheapStart, nbpg * p.hsize)]
  else vheapStart + nbpg * p.hsize < word32 ∧ Listed vheapStart (vheapEnd p.hsize) p.mem blocks

/-- An allocator that returns `result` has given `place start size`, or nothing. -/
structure Gives (place : Nat → Nat → Nat) (nbytes : Nat) (blocks blocks' : List (Nat × Nat))
    (result : Nat) : Prop where
  given : result = sysErrPtr ∧ blocks' = blocks ∨ ∃ start size, result = place start size ∧
    nbytes ≤ size ∧ ∀ address, start ≤ address → address < start + size →
      cover address blocks = 1 ∧ cover address blocks' = 0
  refused : result = sysErrPtr ↔ ∀ block ∈ blocks, block.2 < rounded nbytes

/-- `getmem` and `vgetmem` return the lowest address of a block. -/
def lowest (start _size : Nat) : Nat := start

/-- `getstk` returns the address of the highest word. -/
def highest (start size : Nat) : Nat := start + size - 4

def GetmemGives (minheap maxheap : Nat) (m : FreeMem) (blocks : List (Nat × Nat)) (nbytes : Nat) :
    Prop :=
  ∃ result m' blocks', getmem (fuelOf minheap maxheap) m nbytes = some (result, m') ∧
    Listed minheap maxheap m' blocks' ∧ Gives lowest nbytes blocks blocks' result

def GetstkGives (minheap maxheap : Nat) (m : FreeMem) (blocks : List (Nat × Nat)) (nbytes : Nat) :
    Prop :=
  ∃ result m' blocks', Heap.getstk (fuelOf minheap maxheap) m nbytes = some (result, m') ∧
    Listed minheap maxheap m' blocks' ∧ Gives highest nbytes blocks blocks' result

def VgetmemGives (p : Vheap) (blocks : List (Nat × Nat)) (nbytes : Nat) : Prop :=
  ∃ result p' blocks',
    vgetmem (fuelOf vheapStart (vheapEnd p.hsize)) p nbytes = some (result, p') ∧
      VheapListed p' blocks' ∧ Gives lowest nbytes blocks blocks' result

/-- The bytes that are free -/
def freeBytes (blocks : List (Nat × Nat)) : Set Nat := {address | 0 < cover address blocks}

/-- A range has a free byte. -/
def Meets (a n : Nat) (blocks : List (Nat × Nat)) : Prop :=
  (Set.Ico a (a + n) ∩ freeBytes blocks).Nonempty

end Statements

section Searches

/-- What a search returns, whatever it is asked for. -/
theorem first_fit_found {fuel result : Nat} (represents : Represents m (front ++ rest))
    (found : firstFit n fuel m (lastOf front) (headOf rest) = some (result, m')) :
    (∀ block ∈ rest, block.2 < n) ∧ result = sysErrPtr ∨
      ∃ block ∈ rest, n ≤ block.2 ∧ result = block.1 := by
  induction rest generalizing front fuel with
  | nil =>
      cases fuel with
      | zero => cases found
      | succ fuel =>
          refine Or.inl ⟨by simp, ?_⟩
          simp only [firstFit, headOf, List.head?_nil, Option.map_none, Option.getD_none, if_true,
            Option.some.injEq, Prod.mk.injEq] at found
          exact found.1.symm
  | cons block rest induction =>
      cases fuel with
      | zero => cases found
      | succ fuel =>
          obtain ⟨proper, lengthEq, nextEq, _⟩ := chain_member represents
          have here : headOf (block :: rest) = block.1 := rfl
          rw [firstFit, here, if_neg proper, lengthEq, nextEq] at found
          split_ifs at found with exact larger
          · cases found
            exact Or.inr ⟨block, List.mem_cons_self, Nat.le_of_eq exact.symm, rfl⟩
          · cases found
            exact Or.inr ⟨block, List.mem_cons_self, Nat.le_of_lt larger, rfl⟩
          · rw [← @last_of_concat block front] at found
            have split : front ++ block :: rest = (front ++ [block]) ++ rest := by simp
            rw [split] at represents
            rcases induction represents found with ⟨small, none⟩ | ⟨other, member, large, isOther⟩
            · refine Or.inl ⟨?_, none⟩
              intro other member
              rcases List.mem_cons.mp member with rfl | later
              · omega
              · exact small other later
            · exact Or.inr ⟨other, List.mem_cons_of_mem _ member, large, isOther⟩

theorem search_found {fuel result : Nat} (represents : Represents m blocks)
    (found : firstFit n fuel m none m.memlist.mnext = some (result, m')) :
    (∀ block ∈ blocks, block.2 < n) ∧ result = sysErrPtr ∨
      ∃ block ∈ blocks, n ≤ block.2 ∧ result = block.1 := by
  have head : m.memlist.mnext = headOf blocks := chain_head represents
  rw [head, ← last_of_nil] at found
  have listed : Represents m ([] ++ blocks) := represents
  exact first_fit_found listed found

/-- The scan of `getstk` ends with a block, unless none is large enough. -/
theorem last_fit_found {fuel : Nat} {fits found : Option (Option Nat × Nat)}
    (represents : Represents m (front ++ rest))
    (scanned : lastFit n m fuel (lastOf front) (headOf rest) fits = some found) :
    (∀ block ∈ rest, block.2 < n) ∧ found = fits ∨ found.isSome := by
  induction rest generalizing front fuel fits with
  | nil =>
      cases fuel with
      | zero => cases scanned
      | succ fuel =>
          refine Or.inl ⟨by simp, ?_⟩
          simp only [lastFit, headOf, List.head?_nil, Option.map_none, Option.getD_none, if_true,
            Option.some.injEq] at scanned
          exact scanned.symm
  | cons block rest induction =>
      cases fuel with
      | zero => cases scanned
      | succ fuel =>
          obtain ⟨proper, lengthEq, nextEq, _⟩ := chain_member represents
          have here : headOf (block :: rest) = block.1 := rfl
          rw [lastFit, here, if_neg proper, lengthEq, nextEq, ← @last_of_concat block front]
            at scanned
          have split : front ++ block :: rest = (front ++ [block]) ++ rest := by simp
          rw [split] at represents
          rcases induction represents scanned with ⟨small, kept⟩ | some
          · split_ifs at kept with large
            · exact Or.inr (by rw [kept]; rfl)
            · refine Or.inl ⟨?_, kept⟩
              intro other member
              rcases List.mem_cons.mp member with rfl | later
              · omega
              · exact small other later
          · exact Or.inr some

end Searches

section Lists

theorem cover_below (spaced : Spaced low high blocks) (below : x < low) : cover x blocks = 0 := by
  induction blocks generalizing low with
  | nil => rfl
  | cons first rest induction =>
      obtain ⟨above, _, _, spacedRest⟩ := spaced
      rw [cover_cons, induction spacedRest (by omega), if_neg (by omega)]

/-- No address lies in two blocks. -/
theorem cover_le_one (spaced : Spaced low high blocks) (address : Nat) :
    cover address blocks ≤ 1 := by
  induction blocks generalizing low with
  | nil => exact Nat.zero_le 1
  | cons first rest induction =>
      obtain ⟨_, _, _, spacedRest⟩ := spaced
      rw [cover_cons]
      split_ifs with inside
      · rw [cover_below spacedRest (by omega), Nat.zero_add]
      · exact induction spacedRest

theorem listed_short (listed : Listed low high m blocks) (bound : high < word32)
    (ordered : low ≤ high) : m.memlist.mlength < word32 := by
  have within := total_within listed.spaced ordered
  rw [listed.length]
  omega

theorem carved_large (carved : Carved n x blocks blocks') : ∃ block ∈ blocks, n ≤ block.2 := by
  cases carved with
  | whole front back => exact ⟨(x, n), by simp, Nat.le_refl n⟩
  | bottom front back left positive => exact ⟨(x, n + left), by simp, Nat.le_add_right n left⟩
  | top front back addr left positive place =>
      exact ⟨(addr, left + n), by simp, Nat.le_add_left n left⟩

theorem carved_listed (listed : Listed low high m blocks) (bound : high < word32)
    (ordered : low ≤ high) (carved : Carved n x blocks blocks') (represents : Represents m' blocks')
    (length : m'.memlist.mlength = (m.memlist.mlength + word32 - n) % word32) (positive : 0 < n)
    (even : n % 8 = 0) : Listed low high m' blocks' := by
  have sum := carved_total carved
  have within := total_within listed.spaced ordered
  refine ⟨⟨represents, (carved_spaced carved positive listed.spaced).1,
    carved_even carved listed.even even⟩, ?_⟩
  rw [length, listed.length, sum]
  have same : total blocks' + n + word32 - n = total blocks' + word32 := by omega
  rw [same, Nat.add_mod_right]
  exact Nat.mod_eq_of_lt (by omega)

theorem joined_listed (listed : Listed low high m blocks) (bound : high < word32)
    (ordered : low ≤ high) (joined : Joined a n blocks blocks') (represents : Represents m' blocks')
    (length : m'.memlist.mlength = (m.memlist.mlength + n) % word32) (positive : 0 < n)
    (above : low ≤ a) (inside : a + n ≤ high) (even : n % 8 = 0) :
    Listed low high m' blocks' := by
  have spaced := joined_spaced joined positive above inside listed.spaced
  have within := total_within spaced ordered
  refine ⟨⟨represents, spaced, joined_even joined listed.even even⟩, ?_⟩
  rw [length, listed.length, ← joined_total joined]
  exact Nat.mod_eq_of_lt (by omega)

theorem rounded_fits (short : nbytes + 7 < word32) : roundmb nbytes = rounded nbytes :=
  roundmb_fits short

theorem roundmb_wrapped (word : nbytes < word32) (wrapped : ¬nbytes + 7 < word32) :
    roundmb nbytes = 0 := by
  unfold roundmb word32 at *
  omega

/-- What is carved out was free, and is not any more. -/
theorem carved_gives {place : Nat → Nat → Nat} (spaced : Spaced low high blocks)
    (carved : Carved n x blocks blocks') (asked : nbytes ≤ n) (size : n = rounded nbytes)
    (proper : place x n ≠ sysErrPtr) : Gives place nbytes blocks blocks' (place x n) := by
  refine ⟨Or.inr ⟨x, n, rfl, asked, ?_⟩, ?_⟩
  · intro address above below
    have split := carved_cover carved address
    have once := cover_le_one spaced address
    rw [cover_cons, cover_nil, if_pos ⟨above, below⟩] at split
    omega
  · refine iff_of_false proper fun small => ?_
    obtain ⟨block, member, large⟩ := carved_large carved
    have less := small block member
    omega

theorem nothing_gives {place : Nat → Nat → Nat} (small : ∀ block ∈ blocks, block.2 < rounded nbytes) :
    Gives place nbytes blocks blocks sysErrPtr :=
  ⟨Or.inl ⟨rfl, rfl⟩, iff_of_true rfl small⟩

end Lists

section Allocators

variable {fuel result : Nat}

theorem block_proper (spaced : Spaced low high blocks) (bound : high < word32)
    (member : block ∈ blocks) : block.1 ≠ sysErrPtr := by
  have place := spaced_above spaced member
  unfold word32 sysErrPtr at *
  omega

/-- The search of `getmem` and `vgetmem` gives what was asked when the request was rounded up. -/
theorem search_gives (listed : Listed low high m blocks) (bound : high < word32)
    (ordered : low ≤ high) (asked : 0 < nbytes) (short : nbytes + 7 < word32) :
    ∃ result m' blocks',
      firstFit (roundmb nbytes) (fuelOf low high) m none m.memlist.mnext = some (result, m') ∧
        Listed low high m' blocks' ∧ Gives lowest nbytes blocks blocks' result := by
  have enough := fuel_enough listed.spaced ordered
  have size := rounded_fits short
  have large : nbytes ≤ roundmb nbytes := by
    rw [size, rounded]
    omega
  rcases get_block_result listed.spaced bound (Nat.lt_of_lt_of_le asked large) listed.represents
    enough with ⟨x, m', blocks', found, carved, represents, length⟩ | nothing
  · have inside := carved_spaced carved (Nat.lt_of_lt_of_le asked large) listed.spaced
    have proper : lowest x (roundmb nbytes) ≠ sysErrPtr := by
      unfold lowest sysErrPtr
      unfold word32 at bound
      omega
    exact ⟨x, m', blocks', found, carved_listed listed bound ordered carved represents length
      (Nat.lt_of_lt_of_le asked large) (roundmb_bound nbytes).2,
      carved_gives listed.spaced carved large size proper⟩
  · refine ⟨sysErrPtr, m, blocks, nothing, listed, nothing_gives ?_⟩
    rcases search_found listed.represents nothing with ⟨small, _⟩ | ⟨block, member, _, same⟩
    · rwa [size] at small
    · exact absurd same.symm (block_proper listed.spaced bound member)

theorem search_meets (listed : Listed low high m blocks) (bound : high < word32)
    (ordered : low ≤ high) (asked : 0 < nbytes) (condition : nbytes + 7 < word32 ∨ blocks = []) :
    ∃ result m' blocks',
      firstFit (roundmb nbytes) (fuelOf low high) m none m.memlist.mnext = some (result, m') ∧
        Listed low high m' blocks' ∧ Gives lowest nbytes blocks blocks' result := by
  rcases condition with short | rfl
  · exact search_gives listed bound ordered asked short
  · have head : m.memlist.mnext = 0 := listed.represents
    refine ⟨sysErrPtr, m, [], ?_, listed, nothing_gives (by simp)⟩
    unfold fuelOf firstFit
    exact if_pos head

/-- No block has the size of a request whose rounding wraps. -/
theorem all_small_fails {place : Nat → Nat → Nat} (spaced : Spaced low high blocks)
    (bound : high < word32) (wrapped : ¬nbytes + 7 < word32)
    (gives : Gives place nbytes blocks blocks' result) : result = sysErrPtr := by
  refine gives.refused.mpr ?_
  intro block member
  have inside := spaced_above spaced member
  unfold rounded
  unfold word32 at *
  omega

/-- A request that was rounded to zero is given the first block, whatever its size is. -/
theorem search_wrapped (listed : Listed low high m blocks) (bound : high < word32)
    (word : nbytes < word32) (wrapped : ¬nbytes + 7 < word32) (some_block : blocks ≠ [])
    (found : firstFit (roundmb nbytes) fuel m none m.memlist.mnext = some (result, m'))
    {place : Nat → Nat → Nat} : ¬Gives place nbytes blocks blocks' result := by
  intro gives
  have fails := all_small_fails listed.spaced bound wrapped gives
  rcases search_found listed.represents found with ⟨small, _⟩ | ⟨block, member, _, same⟩
  · obtain ⟨block, member⟩ := List.exists_mem_of_ne_nil blocks some_block
    have less := small block member
    rw [roundmb_wrapped word wrapped] at less
    omega
  · exact block_proper listed.spaced bound member (same.symm.trans fails)

/-- What the scan of `getstk` finds in a list. -/
theorem stack_scan (listed : Listed low high m blocks) (ordered : low ≤ high) (n : Nat) :
    ∃ found, lastFit n m (fuelOf low high) none m.memlist.mnext none = some found ∧
      ((∀ block ∈ blocks, block.2 < n) ∧ found = none ∨ ∃ prev, ∃ block ∈ blocks,
        found = some (prev, block.1) ∧ (m.node block.1).mlength = block.2) := by
  have head : m.memlist.mnext = headOf blocks := chain_head listed.represents
  have split : Represents m ([] ++ blocks) := listed.represents
  obtain ⟨found, scanned, place⟩ : ∃ found,
      lastFit n m (fuelOf low high) (lastOf []) (headOf blocks) none = some found ∧
        (found = none ∨ ∃ before block back, blocks = before ++ block :: back ∧ n ≤ block.2 ∧
          found = some (lastOf ([] ++ before), block.1)) :=
    last_fit_result split (fuel_enough listed.spaced ordered)
  refine ⟨found, ?_, ?_⟩
  · rw [head]
    exact scanned
  · rcases place with rfl | ⟨before, block, back, rfl, _, rfl⟩
    · rcases last_fit_found split scanned with small | isSome
      · exact Or.inl small
      · cases isSome
    · obtain ⟨_, lengthEq, _, _⟩ := chain_member split
      exact Or.inr ⟨lastOf ([] ++ before), block, by simp, rfl, lengthEq⟩

/-- `getstk` that fails has found no block, as a block it finds is taken off the length. -/
theorem getstk_refused (listed : Listed low high m blocks) (bound : high < word32)
    (ordered : low ≤ high) (asked : nbytes ≠ 0) (positive : 0 < roundmb nbytes)
    (refused : Heap.getstk (fuelOf low high) m nbytes = some (sysErrPtr, m)) :
    ∀ block ∈ blocks, block.2 < roundmb nbytes := by
  have short := listed_short listed bound ordered
  have most := (roundmb_bound nbytes).1
  obtain ⟨found, scanned, ⟨small, _⟩ | ⟨prev, block, _, rfl, _⟩⟩ :=
    stack_scan listed ordered (roundmb nbytes)
  · exact small
  · unfold Heap.getstk at refused
    rw [if_neg asked] at refused
    simp only [Option.bind_eq_bind, scanned, Option.bind_some] at refused
    have taken : m.memlist.mlength =
        (m.memlist.mlength + word32 - roundmb nbytes) % word32 := by
      split_ifs at refused
      · have same := (Prod.mk.inj (Option.some.inj refused)).2
        have length := congrArg (fun m : FreeMem => m.memlist.mlength) same
        exact length.symm.trans (sub_length_of (set_next_length _ _))
      · have same := (Prod.mk.inj (Option.some.inj refused)).2
        have length := congrArg (fun m : FreeMem => m.memlist.mlength) same
        exact length.symm.trans (sub_length_of (congrArg Memblk.mlength (set_node_memlist _)))
    unfold word32 at *
    omega

theorem getstk_gives (listed : Listed low high m blocks) (bound : high < word32)
    (ordered : low ≤ high) (asked : 0 < nbytes) (short : nbytes + 7 < word32) :
    GetstkGives low high m blocks nbytes := by
  have enough := fuel_enough listed.spaced ordered
  have size := rounded_fits short
  have large : nbytes ≤ roundmb nbytes ∧ 8 ≤ roundmb nbytes := by
    rw [size, rounded]
    omega
  have positive : 0 < roundmb nbytes := by omega
  rcases getstk_result listed.spaced bound (Nat.ne_of_gt asked) large.2 listed.represents
    enough with ⟨x, m', blocks', found, carved, represents, length⟩ | nothing
  · have inside := carved_spaced carved positive listed.spaced
    have proper : highest x (roundmb nbytes) ≠ sysErrPtr := by
      unfold highest sysErrPtr
      unfold word32 at bound
      omega
    exact ⟨highest x (roundmb nbytes), m', blocks', found,
      carved_listed listed bound ordered carved represents length positive (roundmb_bound nbytes).2,
      carved_gives listed.spaced carved large.1 size proper⟩
  · have small := getstk_refused listed bound ordered (Nat.ne_of_gt asked) positive nothing
    rw [size] at small
    exact ⟨sysErrPtr, m, blocks, nothing, listed, nothing_gives small⟩

theorem getstk_none (listed : Listed low high m []) (ordered : low ≤ high) (asked : nbytes ≠ 0) :
    GetstkGives low high m [] nbytes := by
  refine ⟨sysErrPtr, m, [], ?_, listed, nothing_gives (by simp)⟩
  obtain ⟨found, scanned, ⟨_, rfl⟩ | ⟨_, block, member, _⟩⟩ :=
    stack_scan listed ordered (roundmb nbytes)
  · unfold Heap.getstk
    rw [if_neg asked]
    simp only [Option.bind_eq_bind, scanned, Option.bind_some]
  · cases member

/-- A stack whose size was rounded to zero ends at the end of a block. -/
theorem getstk_wrapped (listed : Listed low high m blocks) (bound : high < word32)
    (ordered : low ≤ high) (word : nbytes < word32) (wrapped : ¬nbytes + 7 < word32)
    (some_block : blocks ≠ []) : ¬GetstkGives low high m blocks nbytes := by
  rintro ⟨result, m', blocks', taken, _, gives⟩
  have fails := all_small_fails listed.spaced bound wrapped gives
  have zero := roundmb_wrapped word wrapped
  have asked : nbytes ≠ 0 := by
    unfold word32 at wrapped
    omega
  obtain ⟨found, scanned, ⟨small, _⟩ | ⟨prev, block, member, rfl, lengthEq⟩⟩ :=
    stack_scan listed ordered (roundmb nbytes)
  · obtain ⟨block, member⟩ := List.exists_mem_of_ne_nil blocks some_block
    have less := small block member
    omega
  · have inside := spaced_above listed.spaced member
    have even := listed.even block member
    rw [zero] at scanned
    unfold Heap.getstk at taken
    rw [if_neg asked, zero] at taken
    simp only [Option.bind_eq_bind, scanned, Option.bind_some, lengthEq] at taken
    rw [if_neg (by omega)] at taken
    have same := (Prod.mk.inj (Option.some.inj taken)).1
    have top : (block.1 + (block.2 - 0)) % word32 = block.1 + block.2 := by
      rw [Nat.sub_zero, Nat.mod_eq_of_lt (by omega)]
    rw [top, fails] at same
    unfold sysErrPtr at same
    unfold word32 at same bound
    omega

end Allocators

section VirtualLists

variable {p p' : Vheap} {fuel result : Nat} {status : Int}

/-- The list that `vgetmem` searches, which it may have made. -/
def searched (p : Vheap) : Vheap := if p.vmeminit = false then vmeminit p else p

theorem vheap_searched (listed : VheapListed p blocks) (virtual : p.vh = true) :
    vheapStart + nbpg * p.hsize < word32 ∧
      Listed vheapStart (vheapEnd p.hsize) (searched p).mem blocks := by
  unfold VheapListed at listed
  rw [if_neg (by rw [virtual]; decide)] at listed
  unfold searched
  split_ifs at listed ⊢ with unset
  · obtain ⟨paged, bound, rfl⟩ := listed
    have parts := vmeminit_partitions bound paged (p := p) rfl
    have ends := vheap_end bound
    rw [show vheapEnd p.hsize - vheapStart = nbpg * p.hsize by omega] at parts
    exact ⟨bound, ⟨parts.represents, parts.spaced, parts.even⟩, parts.length⟩
  · exact listed

theorem searched_listed (virtual : p.vh = true) (bound : vheapStart + nbpg * p.hsize < word32)
    (listed : Listed vheapStart (vheapEnd p.hsize) m blocks) :
    VheapListed { searched p with mem := m } blocks := by
  have same : (searched p).vh = true ∧ (searched p).hsize = p.hsize ∧
      (searched p).vmeminit = true := by
    unfold searched
    split_ifs with unset
    · exact ⟨virtual, rfl, rfl⟩
    · exact ⟨virtual, rfl, by simpa using unset⟩
  unfold VheapListed
  simp only [same]
  exact ⟨bound, listed⟩

theorem vgetmem_searches (asked : nbytes ≠ 0) (virtual : p.vh = true) :
    vgetmem fuel p nbytes =
      (firstFit (roundmb nbytes) fuel (searched p).mem none (searched p).mem.memlist.mnext).map
        fun result => (result.1, { searched p with mem := result.2 }) := by
  unfold vgetmem searched
  rw [if_neg asked, if_neg (by rw [virtual]; decide)]

theorem vheap_plain (listed : VheapListed p blocks) (plain : ¬p.vh = true) :
    blocks = [] ∧ p.vh = false := by
  have none : p.vh = false := by simpa using plain
  unfold VheapListed at listed
  rw [if_pos none] at listed
  exact ⟨listed, none⟩

end VirtualLists

section Results

/-- The three allocators give what was asked unless rounding the request up wraps, where they
give a block of any size that there is. -/
theorem allocators_give (nbytes : Nat) (asked : 0 < nbytes) (word : nbytes < word32) :
    (∀ (minheap maxheap : Nat) (m : FreeMem) (blocks : List (Nat × Nat)), minheap ≤ maxheap →
      maxheap < word32 → Listed minheap maxheap m blocks →
        (GetmemGives minheap maxheap m blocks nbytes ↔ nbytes + 7 < word32 ∨ blocks = []) ∧
        (GetstkGives minheap maxheap m blocks nbytes ↔ nbytes + 7 < word32 ∨ blocks = [])) ∧
    ∀ (p : Vheap) (blocks : List (Nat × Nat)), VheapListed p blocks →
      (VgetmemGives p blocks nbytes ↔ nbytes + 7 < word32 ∨ blocks = []) := by
  have proper := Nat.ne_of_gt asked
  refine ⟨?_, ?_⟩
  · intro minheap maxheap m blocks ordered bound listed
    have searches : getmem (fuelOf minheap maxheap) m nbytes =
        firstFit (roundmb nbytes) (fuelOf minheap maxheap) m none m.memlist.mnext := if_neg proper
    refine ⟨⟨?_, ?_⟩, ?_, ?_⟩
    · rintro ⟨result, m', blocks', found, _, gives⟩
      by_contra neither
      obtain ⟨wrapped, some_block⟩ := not_or.mp neither
      rw [searches] at found
      exact search_wrapped listed bound word wrapped some_block found gives
    · unfold GetmemGives
      rw [searches]
      exact search_meets listed bound ordered asked
    · intro gives
      by_contra neither
      obtain ⟨wrapped, some_block⟩ := not_or.mp neither
      exact getstk_wrapped listed bound ordered word wrapped some_block gives
    · rintro (short | rfl)
      · exact getstk_gives listed bound ordered asked short
      · exact getstk_none listed ordered proper
  · intro p blocks listed
    by_cases virtual : p.vh = true
    · obtain ⟨bound, found⟩ := vheap_searched listed virtual
      have ends := vheap_end bound
      unfold VgetmemGives
      rw [vgetmem_searches proper virtual]
      constructor
      · rintro ⟨result, p', blocks', took, _, gives⟩
        by_contra neither
        obtain ⟨wrapped, some_block⟩ := not_or.mp neither
        obtain ⟨⟨start, m'⟩, search, same⟩ := Option.map_eq_some_iff.mp took
        cases same
        exact search_wrapped found (by omega) word wrapped some_block search gives
      · intro condition
        obtain ⟨result, m', blocks', search, listed', gives⟩ :=
          search_meets found (by omega) (by omega) asked condition
        exact ⟨result, { searched p with mem := m' }, blocks', by rw [search]; rfl,
          searched_listed virtual bound listed', gives⟩
    · obtain ⟨rfl, plain⟩ := vheap_plain listed virtual
      refine iff_of_true ⟨sysErrPtr, p, [], ?_, listed, nothing_gives (by simp)⟩ (Or.inr rfl)
      unfold vgetmem
      rw [if_neg proper, if_pos plain]

/-- One block of 64 bytes -/
def oneBlock : FreeMem where
  memlist := { mnext := 1048576, mlength := 64 }
  node := fun _ => { mnext := 0, mlength := 64 }

theorem one_block_listed : Listed 1048576 1048640 oneBlock [(1048576, 64)] := by
  refine ⟨⟨⟨rfl, by decide, rfl, rfl⟩, by decide, ?_⟩, rfl⟩
  intro block member
  obtain rfl := List.mem_singleton.mp member
  rfl

theorem allocators_give_five : GetmemGives 1048576 1048640 oneBlock [(1048576, 64)] 5 ∧
    GetstkGives 1048576 1048640 oneBlock [(1048576, 64)] 5 := by
  have laws := (allocators_give 5 (by decide) (by decide)).1 _ _ oneBlock _
    (show 1048576 ≤ 1048640 by decide) (by decide) one_block_listed
  exact ⟨laws.1.mpr (Or.inl (by decide)), laws.2.mpr (Or.inl (by decide))⟩

/-- `getmem` is asked for nearly 4 GB and returns the address of a block of 64 bytes. -/
theorem largest_request_given :
    (getmem (fuelOf 1048576 1048640) oneBlock 4294967295).map Prod.fst = some 1048576 ∧
      ¬GetmemGives 1048576 1048640 oneBlock [(1048576, 64)] 4294967295 := by
  have search : (getmem (fuelOf 1048576 1048640) oneBlock 4294967295).map Prod.fst =
      some 1048576 := by
    decide +kernel
  refine ⟨search, ?_⟩
  rintro ⟨result, m', blocks', found, _, gives⟩
  rw [found] at search
  have start : result = 1048576 := Option.some.inj search
  have fails : result = sysErrPtr :=
    all_small_fails one_block_listed.toBounded.spaced (by decide) (by decide) gives
  rw [start] at fails
  exact absurd fails (by decide)

end Results

end Xinu.Kernel.HeapLaws
