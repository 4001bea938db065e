import Mathlib.Order.Interval.Set.Basic
import Xinu.Kernel.HeapLaws

/-!
# The laws of the frees

A free of what was just allocated restores the list, node for node. A free of any range of the
heap adds exactly that range to the free bytes, unless a byte of it is free already.
-/

namespace Xinu.Kernel.HeapFrees

open Xinu.Kernel.State Xinu.Kernel.Memory Xinu.Kernel.FreeList Xinu.Kernel.Heap
open Xinu.Kernel.HeapLists Xinu.Kernel.HeapRuns Xinu.Kernel.HeapBounds Xinu.Kernel.HeapLaws

set_option autoImplicit false

variable {low high n a x nbytes : Nat} {m m' : FreeMem} {block : Nat × Nat}
  {blocks blocks' : List (Nat × Nat)}

section Statements

/-- The head and the nodes of the list are the same. -/
def SameList (blocks : List (Nat × Nat)) (m m' : FreeMem) : Prop :=
  m'.memlist = m.memlist ∧ ∀ block ∈ blocks, m'.node block.1 = m.node block.1

/-- A free of a list of blocks in a heap -/
structure Frees (low high nbytes a : Nat) (m : FreeMem) (blocks : List (Nat × Nat))
    (status : Int) (m' : FreeMem) : Prop where
  refused : status = sysErr ↔ nbytes = 0 ∨ Meets a (rounded nbytes) blocks
  taken : status = sysErr ∧ m' = m ∨ status = ok ∧ ∃ blocks', Listed low high m' blocks' ∧
    freeBytes blocks' = freeBytes blocks ∪ Set.Ico a (a + rounded nbytes)

end Statements

section Lists

theorem chain_nodes {node node' : Nat → Memblk} {start start' : Nat}
    (chain : Chain node start blocks) (other : Chain node' start' blocks) :
    start' = start ∧ ∀ block ∈ blocks, node' block.1 = node block.1 := by
  induction blocks generalizing start start' with
  | nil => exact ⟨other.trans chain.symm, by simp⟩
  | cons first rest induction =>
      obtain ⟨rfl, _, length, linked⟩ := chain
      obtain ⟨rfl, _, length', linked'⟩ := other
      obtain ⟨next, nodes⟩ := induction linked linked'
      refine ⟨rfl, ?_⟩
      intro block member
      rcases List.mem_cons.mp member with rfl | later
      · cases fields : node block.1
        cases fields' : node' block.1
        rw [fields] at next length
        rw [fields'] at next length'
        simp only at next length length'
        rw [next, length, length']
      · exact nodes block later

theorem listed_same (listed : Listed low high m blocks) (other : Listed low high m' blocks) :
    SameList blocks m m' := by
  obtain ⟨next, nodes⟩ := chain_nodes listed.represents other.represents
  refine ⟨?_, nodes⟩
  have lengths := other.length.trans listed.length.symm
  cases fields : m.memlist
  cases fields' : m'.memlist
  rw [fields, fields'] at next lengths
  simp only at next lengths
  rw [next, lengths]

/-- A list of blocks with gaps between them is known by the bytes that it covers. -/
theorem spaced_unique {low' high' : Nat} (spaced : Spaced low high blocks)
    (other : Spaced low' high' blocks')
    (same : ∀ address, cover address blocks = cover address blocks') : blocks = blocks' := by
  induction blocks generalizing low low' blocks' with
  | nil =>
      cases blocks' with
      | nil => rfl
      | cons first' rest' =>
          obtain ⟨_, positive, _, _⟩ := other
          have here := same first'.1
          rw [cover_nil, cover_cons, if_pos (by omega)] at here
          omega
  | cons first rest induction =>
      obtain ⟨above, positive, fits, spacedRest⟩ := spaced
      cases blocks' with
      | nil =>
          have here := same first.1
          rw [cover_nil, cover_cons, if_pos (by omega)] at here
          omega
      | cons first' rest' =>
          obtain ⟨above', positive', fits', spacedRest'⟩ := other
          have outside : ∀ address, address ≤ first.1 + first.2 → cover address rest = 0 :=
            fun address below => cover_below spacedRest (by omega)
          have outside' : ∀ address, address ≤ first'.1 + first'.2 → cover address rest' = 0 :=
            fun address below => cover_below spacedRest' (by omega)
          have covers : ∀ address, address ≤ first.1 + first.2 →
              address ≤ first'.1 + first'.2 →
                (first.1 ≤ address ∧ address < first.1 + first.2 ↔
                  first'.1 ≤ address ∧ address < first'.1 + first'.2) := by
            intro address below below'
            have here := same address
            rw [cover_cons, cover_cons, outside address below, outside' address below'] at here
            split_ifs at here <;> omega
          -- the two begin and end at the same address, as the later one is in a gap of the other
          have start : first.1 = first'.1 := by
            rcases Nat.lt_trichotomy first.1 first'.1 with less | equal | more
            · have here := covers first.1 (by omega) (by omega)
              omega
            · exact equal
            · have here := covers first'.1 (by omega) (by omega)
              omega
          have length : first.2 = first'.2 := by
            rcases Nat.lt_trichotomy first.2 first'.2 with less | equal | more
            · have here := covers (first.1 + first.2) (by omega) (by omega)
              omega
            · exact equal
            · have here := covers (first'.1 + first'.2) (by omega) (by omega)
              omega
          have head : first = first' := Prod.ext start length
          subst head
          rw [induction spacedRest spacedRest']
          intro address
          have here := same address
          rw [cover_cons, cover_cons] at here
          omega

/-- What was carved out is joined again. -/
theorem joined_carved {blocks'' : List (Nat × Nat)} (spaced : Spaced low high blocks)
    (carved : Carved n x blocks blocks') (joined : Joined x n blocks' blocks'') (positive : 0 < n) :
    blocks'' = blocks := by
  have inside := carved_spaced carved positive spaced
  refine spaced_unique (joined_spaced joined positive inside.2.1 inside.2.2 inside.1) spaced ?_
  intro address
  rw [joined_cover joined, carved_cover carved]

/-- The tests of a free and the bytes of the range -/
theorem overlaps_meets (spaced : Spaced low high blocks) (positive : 0 < n)
    (short : a + n < word32) : Overlaps a n blocks ↔ Meets a n blocks := by
  unfold Overlaps
  rw [Nat.mod_eq_of_lt short]
  constructor
  · rintro (⟨block, member, below, above⟩ | ⟨block, member, above, below⟩)
    · exact ⟨a, ⟨Nat.le_refl a, by omega⟩, cover_member member (Nat.le_of_lt below) above⟩
    · have long := (spaced_above spaced member).2.1
      exact ⟨block.1, ⟨above, below⟩, cover_member member (Nat.le_refl _) (by omega)⟩
  · rintro ⟨address, ⟨above, below⟩, covered⟩
    obtain ⟨block, member, test⟩ := List.countP_pos_iff.mp covered
    have inside : block.1 ≤ address ∧ address < block.1 + block.2 := by simpa using test
    by_cases before : block.1 < a
    · exact Or.inl ⟨block, member, before, by omega⟩
    · exact Or.inr ⟨block, member, by omega, by omega⟩

theorem joined_bytes (joined : Joined a n blocks blocks') :
    freeBytes blocks' = freeBytes blocks ∪ Set.Ico a (a + n) := by
  ext address
  have put := joined_cover joined address
  rw [cover_cons, cover_nil] at put
  unfold freeBytes
  simp only [Set.mem_ofPred_eq, Set.mem_union, Set.mem_Ico]
  split_ifs at put <;> omega

end Lists

section Undo

variable {result fuel : Nat}

/-- A search that finds a block takes it out of the list. -/
theorem search_carved (listed : Listed low high m blocks) (bound : high < word32)
    (ordered : low ≤ high) (asked : nbytes ≠ 0) (short : nbytes + 7 < word32)
    (found : firstFit (roundmb nbytes) (fuelOf low high) m none m.memlist.mnext = some (result, m'))
    (success : result ≠ sysErrPtr) :
    ∃ blocks', Carved (roundmb nbytes) result blocks blocks' ∧ Listed low high m' blocks' := by
  have positive : 0 < roundmb nbytes := by
    rw [rounded_fits short, rounded]
    omega
  rcases get_block_result listed.spaced bound positive listed.represents
    (fuel_enough listed.spaced ordered) with
    ⟨x, m'', blocks', found', carved, represents, length⟩ | nothing
  · rw [found] at found'
    cases found'
    exact ⟨blocks', carved, carved_listed listed bound ordered carved represents length positive
      (roundmb_bound nbytes).2⟩
  · rw [found] at nothing
    cases nothing
    exact absurd rfl success

theorem getstk_carved (listed : Listed low high m blocks) (bound : high < word32)
    (ordered : low ≤ high) (asked : nbytes ≠ 0) (short : nbytes + 7 < word32)
    (found : Heap.getstk (fuelOf low high) m nbytes = some (result, m'))
    (success : result ≠ sysErrPtr) :
    ∃ start blocks', result = start + roundmb nbytes - 4 ∧
      Carved (roundmb nbytes) start blocks blocks' ∧ Listed low high m' blocks' := by
  have large : 8 ≤ roundmb nbytes := by
    rw [rounded_fits short, rounded]
    omega
  rcases getstk_result listed.spaced bound asked large listed.represents
    (fuel_enough listed.spaced ordered) with
    ⟨x, m'', blocks', found', carved, represents, length⟩ | nothing
  · rw [found] at found'
    cases found'
    exact ⟨x, blocks', rfl, carved, carved_listed listed bound ordered carved represents length
      (by omega) (roundmb_bound nbytes).2⟩
  · rw [found] at nothing
    cases nothing
    exact absurd rfl success

/-- A block that was carved out is taken back, and the list is what it was. -/
theorem give_restores (listed : Listed low high m blocks) (bound : high < word32)
    (ordered : low ≤ high) (started : 0 < low) (carved : Carved n x blocks blocks')
    (listed' : Listed low high m' blocks') (positive : 0 < n) (even : n % 8 = 0) :
    ∃ m'', giveBack (fuelOf low high) m' x n = some (ok, m'') ∧ Listed low high m'' blocks ∧
      SameList blocks m m'' := by
  obtain ⟨spaced', above, inside⟩ := carved_spaced carved positive listed.spaced
  have free : ¬Overlaps x n blocks' := by
    rw [overlaps_meets spaced' positive (by omega)]
    rintro ⟨address, within, covered⟩
    have split := carved_cover carved address
    have once := cover_le_one listed.spaced address
    have is_free : 0 < cover address blocks' := covered
    rw [cover_cons, cover_nil, if_pos (Set.mem_Ico.mp within)] at split
    omega
  obtain ⟨m'', blocks'', gave, represents, joined, length⟩ := give_back_joined spaced' bound
    listed'.represents (fuel_enough spaced' ordered) started above inside positive free
  have again := joined_carved listed.spaced carved joined positive
  have listed'' := joined_listed listed' bound ordered joined represents length positive above
    inside even
  rw [again] at listed''
  exact ⟨m'', gave, listed'', listed_same listed listed''⟩

section Kernel

variable (bound : high < word32) (ordered : low ≤ high) (started : 0 < low)
  (listed : Listed low high m blocks) (success : result ≠ sysErrPtr)
  (short : nbytes + 7 < word32)

include short in
theorem rounded_positive (asked : nbytes ≠ 0) : 0 < roundmb nbytes := by
  rw [rounded_fits short, rounded]
  omega

include bound ordered started listed success short

theorem freemem_undoes_getmem (took : getmem (fuelOf low high) m nbytes = some (result, m')) :
    ∃ m'', Heap.freemem (fuelOf low high) low high m' result nbytes = some (ok, m'') ∧
      Listed low high m'' blocks ∧ SameList blocks m m'' := by
  have asked : nbytes ≠ 0 := by
    rintro rfl
    exact success (Prod.mk.inj (Option.some.inj took)).1.symm
  have positive := rounded_positive short asked
  unfold getmem at took
  rw [if_neg asked] at took
  obtain ⟨blocks', carved, listed'⟩ :=
    search_carved listed bound ordered asked short took success
  have inside := carved_spaced carved positive listed.spaced
  obtain ⟨m'', gave, again⟩ := give_restores listed bound ordered started carved listed' positive
    (roundmb_bound nbytes).2
  refine ⟨m'', ?_, again⟩
  unfold Heap.freemem
  rw [if_neg (by omega), gave]

/-- `freestk` finds the first byte of the stack from its highest word. -/
theorem freestk_undoes_getstk (took : Heap.getstk (fuelOf low high) m nbytes = some (result, m')) :
    ∃ m'', Heap.freestk (fuelOf low high) low high m' result nbytes = some (ok, m'') ∧
      Listed low high m'' blocks ∧ SameList blocks m m'' := by
  have asked : nbytes ≠ 0 := by
    rintro rfl
    exact success (Prod.mk.inj (Option.some.inj took)).1.symm
  have positive := rounded_positive short asked
  obtain ⟨start, blocks', rfl, carved, listed'⟩ :=
    getstk_carved listed bound ordered asked short took success
  have inside := carved_spaced carved positive listed.spaced
  obtain ⟨m'', gave, again⟩ := give_restores listed bound ordered started carved listed' positive
    (roundmb_bound nbytes).2
  refine ⟨m'', ?_, again⟩
  have even := (roundmb_bound nbytes).2
  have base : (start + roundmb nbytes - 4 + word32 - roundmb nbytes + 4) % word32 = start := by
    rw [show start + roundmb nbytes - 4 + word32 - roundmb nbytes + 4 = start + word32 by omega,
      Nat.add_mod_right]
    exact Nat.mod_eq_of_lt (by omega)
  unfold Heap.freestk Heap.freemem
  rw [base, if_neg (by omega), roundmb_roundmb, gave]

end Kernel

theorem vfreemem_undoes_vgetmem {p p' : Vheap} (listed : VheapListed p blocks)
    (success : result ≠ sysErrPtr) (short : nbytes + 7 < word32)
    (took : vgetmem (fuelOf vheapStart (vheapEnd p.hsize)) p nbytes = some (result, p')) :
    ∃ p'', vfreemem (fuelOf vheapStart (vheapEnd p.hsize)) p' result nbytes = some (ok, p'') ∧
      VheapListed p'' blocks ∧ (p.vmeminit = true → SameList blocks p.mem p''.mem) := by
  have asked : nbytes ≠ 0 := by
    rintro rfl
    exact success (Prod.mk.inj (Option.some.inj took)).1.symm
  have positive := rounded_positive short asked
  by_cases virtual : p.vh = true
  · obtain ⟨bound, found⟩ := vheap_searched listed virtual
    have ends := vheap_end bound
    rw [vgetmem_searches asked virtual] at took
    obtain ⟨⟨start, m'⟩, search, same⟩ := Option.map_eq_some_iff.mp took
    cases same
    obtain ⟨blocks', carved, listed'⟩ :=
      search_carved found (by omega) (by omega) asked short search success
    have inside := carved_spaced carved positive found.spaced
    obtain ⟨m'', gave, listed'', again⟩ := give_restores found (by omega) (by omega)
      (show 0 < vheapStart by decide) carved listed' positive (roundmb_bound nbytes).2
    have size : (searched p).hsize = p.hsize ∧ (searched p).vh = true := by
      unfold searched
      split_ifs <;> exact ⟨rfl, virtual⟩
    refine ⟨{ searched p with mem := m'' }, ?_, searched_listed virtual bound listed'', ?_⟩
    · unfold vfreemem
      simp only [size]
      rw [if_neg (by omega), if_neg (by decide), gave]
      rfl
    · intro ready
      have same : searched p = p := if_neg (by rw [ready]; decide)
      rw [same] at again
      exact again
  · have plain : p.vh = false := by simpa using virtual
    unfold vgetmem at took
    rw [if_neg asked, if_pos plain] at took
    cases took
    exact absurd rfl success

end Undo

section Ranges

/-- Behind the tests of the arguments a free refuses a range that meets a free block, and adds
any other one. -/
theorem give_frees (listed : Listed low high m blocks) (bound : high < word32)
    (ordered : low ≤ high) (started : 0 < low) (ends : high % 8 = 0) (aligned : a % 8 = 0)
    (above : low ≤ a) (inside : a + nbytes ≤ high) (asked : nbytes ≠ 0) :
    ∃ status m', giveBack (fuelOf low high) m a (roundmb nbytes) = some (status, m') ∧
      Frees low high nbytes a m blocks status m' := by
  have short : nbytes + 7 < word32 := by
    unfold word32 at *
    omega
  have size := rounded_fits short
  have fits : a + roundmb nbytes ≤ high := by
    rw [size, rounded]
    omega
  have positive := rounded_positive short asked
  have enough := fuel_enough listed.spaced ordered
  have meets := overlaps_meets listed.spaced positive (show a + roundmb nbytes < word32 by omega)
  rw [size] at meets
  by_cases overlaps : Overlaps a (rounded nbytes) blocks
  · rw [← size] at overlaps
    refine ⟨sysErr, m, give_back_refused listed.spaced bound listed.represents enough overlaps,
      ?_, Or.inl ⟨rfl, rfl⟩⟩
    rw [size] at overlaps
    exact iff_of_true rfl (Or.inr (meets.mp overlaps))
  · obtain ⟨m', blocks', gave, represents, joined, length⟩ := give_back_joined listed.spaced bound
      listed.represents enough started above fits positive (size ▸ overlaps)
    refine ⟨ok, m', gave, ?_, Or.inr ⟨rfl, blocks', ?_, ?_⟩⟩
    · refine iff_of_false (by decide) ?_
      rintro (none | meeting)
      · exact asked none
      · exact overlaps (meets.mpr meeting)
    · exact joined_listed listed bound ordered joined represents length positive above fits
        (roundmb_bound nbytes).2
    · rw [← size]
      exact joined_bytes joined

theorem refuses_empty : Frees low high 0 a m blocks sysErr m :=
  ⟨iff_of_true rfl (Or.inl rfl), Or.inl ⟨rfl, rfl⟩⟩

end Ranges

section Results

/-- What an allocation takes is given back by the free of the same size, and the list has the
nodes and the length that it had. -/
theorem free_undoes_allocation (nbytes : Nat) (short : nbytes + 7 < word32) :
    (∀ (minheap maxheap : Nat) (m m' : FreeMem) (blocks : List (Nat × Nat)) (result : Nat),
      0 < minheap → minheap ≤ maxheap → maxheap < word32 → Listed minheap maxheap m blocks →
        result ≠ sysErrPtr →
        (getmem (fuelOf minheap maxheap) m nbytes = some (result, m') →
          ∃ m'', Heap.freemem (fuelOf minheap maxheap) minheap maxheap m' result nbytes =
              some (ok, m'') ∧
            Listed minheap maxheap m'' blocks ∧ SameList blocks m m'') ∧
        (Heap.getstk (fuelOf minheap maxheap) m nbytes = some (result, m') →
          ∃ m'', Heap.freestk (fuelOf minheap maxheap) minheap maxheap m' result nbytes =
              some (ok, m'') ∧
            Listed minheap maxheap m'' blocks ∧ SameList blocks m m'')) ∧
    ∀ (p p' : Vheap) (blocks : List (Nat × Nat)) (result : Nat), VheapListed p blocks →
      result ≠ sysErrPtr →
      vgetmem (fuelOf vheapStart (vheapEnd p.hsize)) p nbytes = some (result, p') →
        ∃ p'', vfreemem (fuelOf vheapStart (vheapEnd p.hsize)) p' result nbytes =
            some (ok, p'') ∧
          VheapListed p'' blocks ∧ (p.vmeminit = true → SameList blocks p.mem p''.mem) := by
  refine ⟨?_, fun p p' blocks result listed success took =>
    vfreemem_undoes_vgetmem listed success short took⟩
  intro minheap maxheap m m' blocks result started ordered bound listed success
  exact ⟨fun took => freemem_undoes_getmem bound ordered started listed success short took,
    fun took => freestk_undoes_getstk bound ordered started listed success short took⟩

theorem free_undoes_allocation_five :
    ∃ m' m'', getmem (fuelOf 1048576 1048640) oneBlock 5 = some (1048576, m') ∧
      Heap.freemem (fuelOf 1048576 1048640) 1048576 1048640 m' 1048576 5 = some (ok, m'') ∧
        SameList [(1048576, 64)] oneBlock m'' := by
  have search : (getmem (fuelOf 1048576 1048640) oneBlock 5).map Prod.fst = some 1048576 := by
    decide +kernel
  obtain ⟨⟨result, m'⟩, took, rfl⟩ := Option.map_eq_some_iff.mp search
  obtain ⟨m'', gave, _, same⟩ := ((free_undoes_allocation 5 (by decide)).1 1048576 1048640
    oneBlock m' [(1048576, 64)] 1048576 (by decide) (by decide) (by decide) one_block_listed
    (by decide)).1 took
  exact ⟨m', m'', took, gave, same⟩

/-- A free of an aligned range of the heap is refused when it is empty or meets a free block,
and then it changes nothing; any other one adds exactly its bytes. -/
theorem free_all_or_nothing (a nbytes : Nat) (aligned : a % 8 = 0) :
    (∀ (minheap maxheap : Nat) (m : FreeMem) (blocks : List (Nat × Nat)), 0 < minheap →
      maxheap < word32 → maxheap % 8 = 0 → Listed minheap maxheap m blocks → minheap ≤ a →
      a + nbytes ≤ maxheap →
        ∃ status m', Heap.freemem (fuelOf minheap maxheap) minheap maxheap m a nbytes =
            some (status, m') ∧
          Frees minheap maxheap nbytes a m blocks status m') ∧
    ∀ (p : Vheap) (blocks : List (Nat × Nat)), vheapStart + nbpg * p.hsize < word32 →
      p.vh = true → Listed vheapStart (vheapEnd p.hsize) p.mem blocks → vheapStart ≤ a →
      a + nbytes ≤ vheapEnd p.hsize →
        ∃ status m', vfreemem (fuelOf vheapStart (vheapEnd p.hsize)) p a nbytes =
            some (status, { p with mem := m' }) ∧
          Frees vheapStart (vheapEnd p.hsize) nbytes a p.mem blocks status m' := by
  refine ⟨?_, ?_⟩
  · intro minheap maxheap m blocks started bound ends listed above inside
    by_cases empty : nbytes = 0
    · subst empty
      exact ⟨sysErr, m, if_pos (Or.inl rfl), refuses_empty⟩
    · obtain ⟨status, m', gave, frees⟩ := give_frees listed bound (by omega) started ends aligned
        above inside empty
      refine ⟨status, m', ?_, frees⟩
      unfold Heap.freemem
      rw [if_neg (by omega), gave]
  · intro p blocks bound virtual listed above inside
    have heap := vheap_end bound
    have pages : nbpg = 4096 := rfl
    have first : vheapStart = 16777216 := rfl
    by_cases empty : nbytes = 0
    · subst empty
      exact ⟨sysErr, p.mem, if_pos (Or.inl rfl), refuses_empty⟩
    · obtain ⟨status, m', gave, frees⟩ := give_frees listed (by omega) (by omega) (by decide)
        (by rw [heap, pages, first]; omega) aligned above inside empty
      refine ⟨status, m', ?_, frees⟩
      unfold vfreemem
      rw [if_neg (by omega), virtual, if_neg (by decide), gave]
      rfl

theorem free_refused_in_one_block :
    ∃ status m', Heap.freemem (fuelOf 1048576 1048640) 1048576 1048640 oneBlock 1048600 5 =
        some (status, m') ∧
      Frees 1048576 1048640 5 1048600 oneBlock [(1048576, 64)] status m' :=
  (free_all_or_nothing 1048600 5 (by decide)).1 1048576 1048640 oneBlock [(1048576, 64)]
    (by decide) (by decide) (by decide) one_block_listed (by decide) (by decide)

/-- No byte, and so none that is free, but the free is refused. -/
theorem empty_free_refused :
    Heap.freemem (fuelOf 1048576 1048640) 1048576 1048640 oneBlock 1048600 0 =
        some (sysErr, oneBlock) ∧
      ¬Meets 1048600 (rounded 0) [(1048576, 64)] := by
  refine ⟨if_pos (Or.inl rfl), ?_⟩
  rintro ⟨address, ⟨above, below⟩, _⟩
  exact absurd below (by change ¬address < 1048600; omega)

end Results

end Xinu.Kernel.HeapFrees
