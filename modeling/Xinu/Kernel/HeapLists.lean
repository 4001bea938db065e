import Xinu.Kernel.Heap

/-!
# Free lists as lists of blocks

The nodes that are linked from the head of a free list are a list of blocks. The allocators
carve a block out of one block of the list, and a free joins a block to the list. The node
before a position is the last node in front of it.
-/

namespace Xinu.Kernel.HeapLists

open Xinu.Kernel.State Xinu.Kernel.Memory Xinu.Kernel.FreeList Xinu.Kernel.Heap

set_option autoImplicit false

variable {m m' : FreeMem} {node node' : Nat → Memblk} {low high n a x start : Nat}
  {block : Nat × Nat} {front back back' blocks blocks' rest : List (Nat × Nat)}

section Blocks

def Apart (blocks : List (Nat × Nat)) : Prop :=
  blocks.Pairwise fun block other => block.1 + block.2 < other.1

def Within (low high : Nat) (blocks : List (Nat × Nat)) : Prop :=
  ∀ block ∈ blocks, low ≤ block.1 ∧ 0 < block.2 ∧ block.1 + block.2 ≤ high

/-- Blocks in address order inside of the heap, with a gap between any two of them. -/
theorem spaced_iff : Spaced low high blocks ↔ Within low high blocks ∧ Apart blocks := by
  constructor
  · intro spaced
    refine ⟨fun block member => spaced_above spaced member, ?_⟩
    induction blocks generalizing low with
    | nil => exact .nil
    | cons first rest induction =>
        obtain ⟨_, _, _, spacedRest⟩ := spaced
        refine List.pairwise_cons.mpr ⟨?_, induction spacedRest⟩
        intro other member
        have above := spaced_above spacedRest member
        omega
  · rintro ⟨within, apart⟩
    induction blocks generalizing low with
    | nil => trivial
    | cons first rest induction =>
        obtain ⟨above, positive, fits⟩ := within first (by simp)
        obtain ⟨behind, apartRest⟩ := List.pairwise_cons.mp apart
        refine ⟨above, positive, fits, induction ?_ apartRest⟩
        intro other member
        have gap := behind other member
        have inside := within other (List.mem_cons_of_mem _ member)
        omega

/-- How many of the blocks an address lies in. -/
def cover (address : Nat) (blocks : List (Nat × Nat)) : Nat :=
  blocks.countP fun block => block.1 ≤ address ∧ address < block.1 + block.2

@[simp] theorem cover_nil (address : Nat) : cover address [] = 0 := rfl

@[simp] theorem cover_cons (address : Nat) :
    cover address (block :: blocks) =
      cover address blocks +
        if block.1 ≤ address ∧ address < block.1 + block.2 then 1 else 0 := by
  simp [cover, List.countP_cons]

@[simp] theorem cover_append (address : Nat) :
    cover address (front ++ back) = cover address front + cover address back := by
  simp [cover]

def total (blocks : List (Nat × Nat)) : Nat := (blocks.map Prod.snd).sum

@[simp] theorem total_nil : total [] = 0 := rfl

@[simp] theorem total_cons : total (block :: blocks) = block.2 + total blocks := by
  simp [total]

@[simp] theorem total_append : total (front ++ back) = total front + total back := by
  simp [total]

/-- Every length is a multiple of the size of a node. -/
def Even (blocks : List (Nat × Nat)) : Prop := ∀ block ∈ blocks, block.2 % 8 = 0

end Blocks

section Carving

/-- `n` bytes at `x` are taken out of the list: a whole block, the bottom of a block or the
top of one. -/
inductive Carved (n x : Nat) : List (Nat × Nat) → List (Nat × Nat) → Prop
  | whole (front back : List (Nat × Nat)) : Carved n x (front ++ (x, n) :: back) (front ++ back)
  | bottom (front back : List (Nat × Nat)) (left : Nat) (positive : 0 < left) :
      Carved n x (front ++ (x, n + left) :: back) (front ++ (x + n, left) :: back)
  | top (front back : List (Nat × Nat)) (addr left : Nat) (positive : 0 < left)
      (place : x = addr + left) :
      Carved n x (front ++ (addr, left + n) :: back) (front ++ (addr, left) :: back)

theorem carved_spaced (carved : Carved n x blocks blocks') (positive : 0 < n)
    (spaced : Spaced low high blocks) :
    Spaced low high blocks' ∧ low ≤ x ∧ x + n ≤ high := by
  rw [spaced_iff] at spaced ⊢
  obtain ⟨within, apart⟩ := spaced
  unfold Within Apart at *
  cases carved <;> simp only [List.pairwise_append, List.pairwise_cons, List.forall_mem_append,
    List.forall_mem_cons] at * <;> grind

theorem carved_cover (carved : Carved n x blocks blocks') (address : Nat) :
    cover address blocks = cover address blocks' + cover address [(x, n)] := by
  cases carved <;> simp <;> grind

theorem carved_total (carved : Carved n x blocks blocks') :
    total blocks = total blocks' + n := by
  cases carved <;> simp <;> omega

theorem carved_even (carved : Carved n x blocks blocks') (even : Even blocks) (rounded : n % 8 = 0) :
    Even blocks' := by
  unfold Even at *
  cases carved <;> simp only [List.forall_mem_append, List.forall_mem_cons] at * <;> grind

end Carving

section Joining

/-- `n` bytes at `a` are put on the list, as a block of their own or joined to the block
before them, to the block after them, or to both. -/
inductive Joined (a n : Nat) : List (Nat × Nat) → List (Nat × Nat) → Prop
  | alone (front back : List (Nat × Nat)) (below : ∀ block ∈ front, block.1 + block.2 < a)
      (above : ∀ block ∈ back, a + n < block.1) :
      Joined a n (front ++ back) (front ++ (a, n) :: back)
  | next (front back : List (Nat × Nat)) (length : Nat)
      (below : ∀ block ∈ front, block.1 + block.2 < a) :
      Joined a n (front ++ (a + n, length) :: back) (front ++ (a, n + length) :: back)
  | prev (front back : List (Nat × Nat)) (addr length : Nat) (ends : addr + length = a)
      (above : ∀ block ∈ back, a + n < block.1) :
      Joined a n (front ++ (addr, length) :: back) (front ++ (addr, length + n) :: back)
  | both (front back : List (Nat × Nat)) (addr length behind : Nat) (ends : addr + length = a) :
      Joined a n (front ++ (addr, length) :: (a + n, behind) :: back)
        (front ++ (addr, length + n + behind) :: back)

theorem joined_spaced (joined : Joined a n blocks blocks') (positive : 0 < n) (above : low ≤ a)
    (inside : a + n ≤ high) (spaced : Spaced low high blocks) : Spaced low high blocks' := by
  rw [spaced_iff] at spaced ⊢
  obtain ⟨within, apart⟩ := spaced
  unfold Within Apart at *
  cases joined <;> simp only [List.pairwise_append, List.pairwise_cons, List.forall_mem_append,
    List.forall_mem_cons] at * <;> grind

theorem joined_cover (joined : Joined a n blocks blocks') (address : Nat) :
    cover address blocks' = cover address blocks + cover address [(a, n)] := by
  cases joined <;> simp <;> grind

theorem joined_total (joined : Joined a n blocks blocks') : total blocks' = total blocks + n := by
  cases joined <;> simp <;> omega

theorem joined_even (joined : Joined a n blocks blocks') (even : Even blocks)
    (rounded : n % 8 = 0) : Even blocks' := by
  unfold Even at *
  cases joined <;> simp only [List.forall_mem_append, List.forall_mem_cons] at * <;> grind

end Joining

section Chains

/-- The nodes that are linked from an address on. -/
def Chain (node : Nat → Memblk) : Nat → List (Nat × Nat) → Prop
  | start, [] => start = 0
  | start, block :: rest =>
      start = block.1 ∧ start ≠ 0 ∧ (node start).mlength = block.2 ∧ Chain node (node start).mnext rest

def Represents (m : FreeMem) (blocks : List (Nat × Nat)) : Prop :=
  Chain m.node m.memlist.mnext blocks

/-- The last node of a stretch of the list. -/
def lastOf (front : List (Nat × Nat)) : Option Nat := front.getLast?.map Prod.fst

/-- The address of the first node of a stretch, or `NULL`. -/
def headOf (back : List (Nat × Nat)) : Nat := (back.head?.map Prod.fst).getD 0

@[simp] theorem last_of_concat : lastOf (front ++ [block]) = some block.1 := by
  simp [lastOf]

@[simp] theorem last_of_nil : lastOf [] = none := rfl

theorem chain_head (chain : Chain node start back) : start = headOf back := by
  cases back with
  | nil => exact chain
  | cons first rest => exact chain.1

theorem chain_congr (chain : Chain node start blocks)
    (same : ∀ block ∈ blocks, node' block.1 = node block.1) : Chain node' start blocks := by
  induction blocks generalizing start with
  | nil => exact chain
  | cons first rest induction =>
      obtain ⟨here, proper, length, linked⟩ := chain
      have unchanged : node' start = node start := by
        rw [here]
        exact same first (by simp)
      refine ⟨here, proper, by rw [unchanged]; exact length, ?_⟩
      rw [unchanged]
      exact induction linked fun other member => same other (by simp [member])

theorem chain_append (chain : Chain node start (front ++ back)) :
    ∃ joint, Chain node joint back ∧
      (front = [] ∧ joint = start ∨
        ∃ start' last, front = start' ++ [last] ∧ (node last.1).mnext = joint ∧
          (node last.1).mlength = last.2) := by
  induction front generalizing start with
  | nil => exact ⟨start, chain, Or.inl ⟨rfl, rfl⟩⟩
  | cons first rest induction =>
      obtain ⟨here, _, length, linked⟩ := chain
      obtain ⟨joint, chainBack, atEnd | inside⟩ := induction linked
      · obtain ⟨rfl, rfl⟩ := atEnd
        exact ⟨_, chainBack, Or.inr ⟨[], first, rfl, by rw [here], by rw [← here, length]⟩⟩
      · obtain ⟨others, last, rfl, next, lastLength⟩ := inside
        exact ⟨joint, chainBack, Or.inr ⟨first :: others, last, rfl, next, lastLength⟩⟩

/-- The front of a list whose last node is linked to another stretch. -/
theorem chain_retarget {start' : Nat} (value : Nat) (chain : Chain node start (front ++ back))
    (entry : front = [] → start' = value) (same : front ≠ [] → start' = start)
    (inner : ∀ block ∈ front, (node' block.1).mlength = (node block.1).mlength)
    (links : ∀ block ∈ front.dropLast, (node' block.1).mnext = (node block.1).mnext)
    (joint : ∀ block ∈ front.getLast?, (node' block.1).mnext = value)
    (tail : Chain node' value back') : Chain node' start' (front ++ back') := by
  induction front generalizing start start' with
  | nil =>
      rw [entry rfl]
      exact tail
  | cons first rest induction =>
      obtain ⟨here, proper, length, linked⟩ := chain
      have begins := same (by simp)
      refine ⟨by rw [begins, here], by rw [begins]; exact proper, ?_, ?_⟩
      · rw [begins, here, inner first (by simp), ← here]
        exact length
      · rw [begins, here]
        apply induction linked
        · rintro rfl
          exact joint first (by simp)
        · intro more
          obtain ⟨second, others, rfl⟩ := List.exists_cons_of_ne_nil more
          rw [links first (by simp), here]
        · intro other member
          exact inner other (by simp [member])
        · intro other member
          apply links
          cases rest with
          | nil => cases member
          | cons second others => simp [member]
        · intro other member
          apply joint
          cases rest with
          | nil => cases member
          | cons second others => simpa using member

/-- The list is as long as the fuel of a walk has to be. -/
theorem chain_member (chain : Chain node start (front ++ block :: back)) :
    block.1 ≠ 0 ∧ (node block.1).mlength = block.2 ∧ (node block.1).mnext = headOf back ∧
      Chain node block.1 (block :: back) := by
  obtain ⟨joint, chainBack, _⟩ := chain_append chain
  obtain ⟨rfl, proper, length, linked⟩ := chainBack
  exact ⟨proper, length, chain_head linked, rfl, proper, length, linked⟩

end Chains

section Updates

theorem sub_length_length :
    (m.subLength n).memlist.mlength = (m.memlist.mlength + word32 - n) % word32 := rfl

theorem set_node_memlist (value : Memblk) : (m.setNode a value).memlist = m.memlist := rfl

theorem set_next_length (prev : Option Nat) (value : Nat) :
    (m.setNext prev value).memlist.mlength = m.memlist.mlength := by
  cases prev <;> rfl

theorem sub_length_mnext : (m.subLength n).memlist.mnext = m.memlist.mnext := by
  obtain ⟨⟨mnext, mlength⟩, node⟩ := m
  exact Eq.refl mnext

theorem add_length_mnext : (m.addLength n).memlist.mnext = m.memlist.mnext := by
  obtain ⟨⟨mnext, mlength⟩, node⟩ := m
  exact Eq.refl mnext

theorem sub_length_node : (m.subLength n).node = m.node := by
  obtain ⟨memlist, node⟩ := m
  exact Eq.refl node

theorem add_length_node : (m.addLength n).node = m.node := by
  obtain ⟨memlist, node⟩ := m
  exact Eq.refl node

/-- What is taken off the list is taken off its length. -/
theorem sub_length_of (same : m'.memlist.mlength = m.memlist.mlength) :
    (m'.subLength n).memlist.mlength = (m.memlist.mlength + word32 - n) % word32 :=
  sub_length_length.trans (congrArg (fun length => (length + word32 - n) % word32) same)

/-- The node before a position is linked to another stretch. -/
theorem represents_relink (value : Nat) (represents : Represents m (front ++ back))
    (distinct : ∀ start' last, front = start' ++ [last] → ∀ other ∈ start', other.1 ≠ last.1)
    (memlist : m'.memlist.mnext = (m.setNext (lastOf front) value).memlist.mnext)
    (nodes : ∀ block ∈ front, m'.node block.1 = (m.setNext (lastOf front) value).node block.1)
    (tail : Chain m'.node value back') : Represents m' (front ++ back') := by
  rcases List.eq_nil_or_concat front with rfl | ⟨others, last, split⟩
  · unfold Represents
    rw [memlist]
    exact tail
  · rw [List.concat_eq_append] at split
    subst split
    have apart := distinct others last rfl
    rw [last_of_concat] at memlist nodes
    have lastNode : m'.node last.1 = { m.node last.1 with mnext := value } := by
      rw [nodes last (by simp)]
      simp [FreeMem.setNext, FreeMem.setNode]
    have otherNode : ∀ other ∈ others, m'.node other.1 = m.node other.1 := by
      intro other member
      rw [nodes other (by simp [member])]
      simp [FreeMem.setNext, FreeMem.setNode, apart other member]
    apply chain_retarget value represents
    · intro empty
      simp at empty
    · intro _
      exact memlist
    · intro block member
      rcases List.mem_append.mp member with inner | isLast
      · rw [otherNode block inner]
      · rw [List.mem_singleton.mp isLast, lastNode]
    · intro block member
      rw [List.dropLast_concat] at member
      rw [otherNode block member]
    · intro block isLast
      have same : block = last := by simpa using isLast.symm
      rw [same, lastNode]
    · exact tail

/-- A node of the list changes, and the nodes in front of it stay. -/
theorem represents_change (represents : Represents m (front ++ block :: back))
    (memlist : m'.memlist.mnext = m.memlist.mnext)
    (nodes : ∀ other ∈ front, m'.node other.1 = m.node other.1)
    (tail : Chain m'.node block.1 back') : Represents m' (front ++ back') := by
  obtain ⟨joint, chainBack, place⟩ := chain_append represents
  have jointEq : joint = block.1 := chain_head chainBack
  apply chain_retarget block.1 represents
  · intro empty
    subst empty
    rw [memlist]
    exact chain_head represents
  · intro _
    exact memlist
  · intro other member
    rw [nodes other member]
  · intro other member
    rw [nodes other (List.dropLast_subset _ member)]
  · intro other isLast
    rw [nodes other (List.mem_of_getLast? isLast)]
    rcases place with ⟨empty, _⟩ | ⟨others, last, split, next, _⟩
    · rw [empty] at isLast
      cases isLast
    · have same : other = last := by simpa [split] using isLast.symm
      rw [same, next, jointEq]
  · exact tail

/-- The length of the list has no part in how it is linked. -/
theorem represents_length (represents : Represents m blocks)
    (memlist : m'.memlist.mnext = m.memlist.mnext) (nodes : m'.node = m.node) :
    Represents m' blocks := by
  unfold Represents
  rw [memlist, nodes]
  exact represents

end Updates

section Searches

theorem front_distinct (spaced : Spaced low high (front ++ back)) :
    ∀ start' last, front = start' ++ [last] → ∀ other ∈ start', other.1 ≠ last.1 := by
  rintro start' last rfl other member
  have split : start' ++ [last] ++ back = start' ++ last :: back := by simp
  rw [split] at spaced
  have below := (spaced_split spaced).1 other member
  omega

/-- The search of `getmem` and `vgetmem` behind the blocks of `front`. -/
theorem first_fit_result {fuel : Nat} (spaced : Spaced low high (front ++ rest))
    (bound : high < word32) (positive : 0 < n) (represents : Represents m (front ++ rest))
    (enough : rest.length < fuel) :
    (∃ x m' blocks', firstFit n fuel m (lastOf front) (headOf rest) = some (x, m') ∧
      Carved n x (front ++ rest) blocks' ∧ Represents m' blocks' ∧
      m'.memlist.mlength = (m.memlist.mlength + word32 - n) % word32) ∨
    firstFit n fuel m (lastOf front) (headOf rest) = some (sysErrPtr, m) := by
  induction rest generalizing front fuel with
  | nil =>
      obtain ⟨fuel, rfl⟩ : ∃ smaller, fuel = smaller + 1 :=
        ⟨fuel - 1, by simp only [List.length_nil] at enough; omega⟩
      exact Or.inr (by simp [firstFit, headOf])
  | cons block rest induction =>
      obtain ⟨fuel, rfl⟩ : ∃ smaller, fuel = smaller + 1 :=
        ⟨fuel - 1, by simp only [List.length_cons] at enough; omega⟩
      obtain ⟨addr, length⟩ := block
      obtain ⟨proper, lengthEq, nextEq, chain⟩ := chain_member represents
      obtain ⟨below, _, _, inside, spacedRest⟩ := spaced_split spaced
      simp only at proper lengthEq nextEq below inside spacedRest chain
      have frontApart : ∀ other ∈ front, other.1 ≠ addr := by
        intro other member
        have ends := below other member
        omega
      have here : headOf ((addr, length) :: rest) = addr := rfl
      obtain ⟨_, _, _, chainRest⟩ := chain
      unfold firstFit
      rw [here, if_neg proper, lengthEq]
      split
      · rename_i exact
        subst exact
        refine Or.inl ⟨addr, _, front ++ rest, rfl, .whole front rest, ?_, ?_⟩
        · apply represents_relink (headOf rest) represents (front_distinct spaced)
          · rw [nextEq]
            exact sub_length_mnext
          · intro other _
            rw [nextEq, sub_length_node]
          · rw [nextEq]
            have same : ∀ other ∈ rest,
                ((m.setNext (lastOf front) (headOf rest)).subLength length).node other.1 =
                  m.node other.1 := by
              intro other member
              have above := spaced_above spacedRest member
              rcases List.eq_nil_or_concat front with rfl | ⟨others, last, rfl⟩
              · rfl
              · have ends := below last (by simp)
                have different : other.1 ≠ last.1 := by omega
                simp [FreeMem.setNext, FreeMem.setNode, FreeMem.subLength, different]
            rw [nextEq] at chainRest
            exact chain_congr chainRest same
        · exact sub_length_of (set_next_length _ _)
      · rename_i notExact
        split
        · rename_i larger
          have leftover : (addr + n) % word32 = addr + n := Nat.mod_eq_of_lt (by omega)
          have sum : n + (length - n) = length := by omega
          have carved := Carved.bottom (n := n) (x := addr) front rest (length - n) (by omega)
          rw [sum] at carved
          refine Or.inl ⟨addr, _, front ++ (addr + n, length - n) :: rest, rfl, carved, ?_, ?_⟩
          · rw [leftover]
            have keptLength : ((m.setNext (lastOf front) (addr + n)).node addr).mlength = length := by
              rcases List.eq_nil_or_concat front with rfl | ⟨others, last, rfl⟩
              · exact lengthEq
              · have different : addr ≠ last.1 := (frontApart last (by simp)).symm
                simp [FreeMem.setNext, FreeMem.setNode, different, lengthEq]
            have keptNext : ((m.setNext (lastOf front) (addr + n)).node addr).mnext =
                headOf rest := by
              rcases List.eq_nil_or_concat front with rfl | ⟨others, last, rfl⟩
              · exact nextEq
              · have different : addr ≠ last.1 := (frontApart last (by simp)).symm
                simp [FreeMem.setNext, FreeMem.setNode, different, nextEq]
            apply represents_relink (addr + n) represents (front_distinct spaced)
            · rw [sub_length_mnext, set_node_memlist]
            · intro other member
              have ends := below other member
              have different : other.1 ≠ addr + n := by omega
              simp [FreeMem.subLength, FreeMem.setNode, different]
            · refine ⟨rfl, by omega, ?_, ?_⟩
              · simp [FreeMem.subLength, FreeMem.setNode, keptLength]
              · simp only [FreeMem.subLength, FreeMem.setNode, Function.update_self, keptNext]
                rw [nextEq] at chainRest
                refine chain_congr chainRest ?_
                intro other member
                have above := spaced_above spacedRest member
                have apart : other.1 ≠ addr + n := by omega
                rw [Function.update_of_ne apart]
                rcases List.eq_nil_or_concat front with rfl | ⟨others, last, rfl⟩
                · rfl
                · have ends := below last (by simp)
                  have different : other.1 ≠ last.1 := by omega
                  simp [FreeMem.setNext, FreeMem.setNode, different]
          · exact sub_length_of (set_next_length _ _)
        · rw [nextEq, ← @last_of_concat (addr, length) front]
          have split : front ++ (addr, length) :: rest = (front ++ [(addr, length)]) ++ rest := by
            simp
          rw [split] at spaced represents ⊢
          exact induction spaced represents (by simpa using enough)

/-- The scan of `getstk` behind the blocks of `front`. -/
theorem last_fit_result {fuel : Nat} {fits : Option (Option Nat × Nat)}
    (represents : Represents m (front ++ rest)) (enough : rest.length < fuel) :
    ∃ found, lastFit n m fuel (lastOf front) (headOf rest) fits = some found ∧
      (found = fits ∨ ∃ before block back, rest = before ++ block :: back ∧ n ≤ block.2 ∧
        found = some (lastOf (front ++ before), block.1)) := by
  induction rest generalizing front fuel fits with
  | nil =>
      obtain ⟨fuel, rfl⟩ : ∃ smaller, fuel = smaller + 1 :=
        ⟨fuel - 1, by simp only [List.length_nil] at enough; omega⟩
      exact ⟨fits, by simp [lastFit, headOf], Or.inl rfl⟩
  | cons block rest induction =>
      obtain ⟨fuel, rfl⟩ : ∃ smaller, fuel = smaller + 1 :=
        ⟨fuel - 1, by simp only [List.length_cons] at enough; omega⟩
      obtain ⟨proper, lengthEq, nextEq, _⟩ := chain_member represents
      have here : headOf (block :: rest) = block.1 := rfl
      have split : front ++ block :: rest = (front ++ [block]) ++ rest := by simp
      rw [split] at represents
      unfold lastFit
      rw [here, if_neg proper, lengthEq, nextEq, ← @last_of_concat block front]
      obtain ⟨found, scanned, kept | deeper⟩ :=
        @induction (front ++ [block]) fuel
          (if n ≤ block.2 then some (lastOf front, block.1) else fits) represents
          (by simpa using enough)
      · refine ⟨found, scanned, ?_⟩
        split at kept
        · rename_i large
          exact Or.inr ⟨[], block, rest, rfl, large, by rw [kept, List.append_nil]⟩
        · exact Or.inl kept
      · obtain ⟨before, other, back, restEq, large, foundEq⟩ := deeper
        refine ⟨found, scanned, Or.inr ⟨block :: before, other, back, by rw [restEq]; rfl, large, ?_⟩⟩
        rw [foundEq, List.append_assoc]
        rfl

/-- The walk of a free behind the blocks of `front`. -/
theorem walk_result {fuel : Nat} (represents : Represents m (front ++ (rest ++ back)))
    (below : ∀ block ∈ rest, block.1 < a) (above : ∀ block ∈ back, a ≤ block.1)
    (enough : rest.length < fuel) :
    walkTo m a fuel (lastOf front) (headOf (rest ++ back)) =
      some (lastOf (front ++ rest), headOf back) := by
  induction rest generalizing front fuel with
  | nil =>
      obtain ⟨fuel, rfl⟩ : ∃ smaller, fuel = smaller + 1 :=
        ⟨fuel - 1, by simp only [List.length_nil] at enough; omega⟩
      unfold walkTo
      rw [if_neg]
      · rw [List.append_nil, List.nil_append]
      · rintro ⟨proper, less⟩
        cases back with
        | nil => exact proper rfl
        | cons first back =>
            have notBelow := above first (by simp)
            have lower : first.1 < a := less
            omega
  | cons block rest induction =>
      obtain ⟨fuel, rfl⟩ : ∃ smaller, fuel = smaller + 1 :=
        ⟨fuel - 1, by simp only [List.length_cons] at enough; omega⟩
      rw [List.cons_append] at represents
      obtain ⟨proper, _, nextEq, _⟩ := chain_member represents
      have here : headOf (block :: rest ++ back) = block.1 := rfl
      have split : front ++ block :: (rest ++ back) = (front ++ [block]) ++ (rest ++ back) := by
        simp
      rw [split] at represents
      unfold walkTo
      rw [here, if_pos ⟨proper, below block (by simp)⟩, nextEq,
        ← @last_of_concat block front,
        induction represents (fun other member => below other (by simp [member]))
          (by simpa using enough), List.append_assoc]
      rfl

/-- The walk of a free from the head of the list on. -/
theorem walk_from_head {fuel : Nat} (represents : Represents m (front ++ back))
    (below : ∀ block ∈ front, block.1 < a) (above : ∀ block ∈ back, a ≤ block.1)
    (enough : (front ++ back).length < fuel) :
    walkTo m a fuel none m.memlist.mnext = some (lastOf front, headOf back) := by
  have head : m.memlist.mnext = headOf (front ++ back) := chain_head represents
  have shorter : front.length < fuel := by
    rw [List.length_append] at enough
    omega
  have walked : walkTo m a fuel (lastOf []) (headOf (front ++ back)) =
      some (lastOf ([] ++ front), headOf back) := walk_result represents below above shorter
  rw [head]
  exact walked

end Searches

section Frees

theorem top_of_last {last : Nat × Nat} (represents : Represents m (front ++ last :: back))
    (fits : last.1 + last.2 < word32) : topOf m (some last.1) = last.1 + last.2 := by
  obtain ⟨_, lengthEq, _, _⟩ := chain_member represents
  change (last.1 + (m.node last.1).mlength) % word32 = last.1 + last.2
  rw [lengthEq, Nat.mod_eq_of_lt fits]

theorem link_alone {top next : Nat} {prev : Option Nat} (notTop : ¬top = a) :
    linkBlock m a n top prev next =
      ((m.setNode a { mnext := next, mlength := n }).setNext prev a, some a) := by
  simp only [linkBlock, if_neg notTop]

theorem link_prev {top next prev : Nat} (isTop : top = a) :
    linkBlock m a n top (some prev) next =
      (m.setNode prev
        { m.node prev with mlength := ((m.node prev).mlength + n) % word32 }, some prev) := by
  simp only [linkBlock, if_pos isTop]

/-- A block that overlaps no block of the list joins the block before it or becomes a node. -/
theorem link_block_result (spaced : Spaced low high (front ++ back)) (bound : high < word32)
    (represents : Represents m (front ++ back)) (above : low ≤ a) (started : 0 < low)
    (inside : a + n ≤ high)
    (free : ∀ last ∈ front.getLast?, last.1 + last.2 ≤ a) (below : ∀ block ∈ front, block.1 < a)
    (behind : ∀ block ∈ back, a + n ≤ block.1) (positive : 0 < n) :
    ∃ m' front' c length,
      linkBlock m a n (topOf m (lastOf front)) (lastOf front) (headOf back) = (m', some c) ∧
      Represents m' (front' ++ (c, length) :: back) ∧
      m'.memlist.mlength = m.memlist.mlength ∧
      (front' = front ∧ c = a ∧ length = n ∧ (∀ block ∈ front, block.1 + block.2 < a) ∨
        ∃ before, front = front' ++ [(c, before)] ∧ c + before = a ∧ length = before + n) := by
  have backApart : ∀ block ∈ back, block.1 ≠ a := by
    intro block member
    have start := behind block member
    omega
  rcases List.eq_nil_or_concat front with rfl | ⟨others, last, rfl⟩
  · have notTop : ¬topOf m (lastOf []) = a := by
      change ¬0 = a
      omega
    refine ⟨_, [], a, n, link_alone notTop, ?_, rfl, Or.inl ⟨rfl, rfl, rfl, by simp⟩⟩
    refine ⟨rfl, ?_, ?_, ?_⟩
    · change a ≠ 0
      omega
    · simp [FreeMem.setNext, FreeMem.setNode]
    · have chain := represents
      unfold Represents at chain
      rw [List.nil_append, chain_head chain] at chain
      simp only [FreeMem.setNext, FreeMem.setNode, last_of_nil, Function.update_self]
      refine chain_congr chain ?_
      intro block member
      rw [Function.update_of_ne (backApart block member)]
  · rw [List.concat_eq_append] at *
    have split : others ++ [last] ++ back = others ++ last :: back := by simp
    rw [split] at spaced represents
    obtain ⟨otherBelow, _, _, fits, spacedBack⟩ := spaced_split spaced
    obtain ⟨proper, lengthEq, nextEq, chain⟩ := chain_member represents
    have ends := free last (by simp)
    have lastBelow := below last (by simp)
    rw [last_of_concat, top_of_last represents (by omega)]
    have backLast : ∀ block ∈ back, block.1 ≠ last.1 := by
      intro block member
      have start := behind block member
      omega
    have chainBack : Chain m.node (headOf back) back := by
      obtain ⟨_, _, _, linked⟩ := chain
      rwa [nextEq] at linked
    by_cases adjacent : last.1 + last.2 = a
    · refine ⟨_, others, last.1, last.2 + n, link_prev adjacent, ?_, rfl,
        Or.inr ⟨last.2, rfl, adjacent, rfl⟩⟩
      apply represents_change represents
      · rfl
      · intro other member
        have ends := otherBelow other member
        have different : other.1 ≠ last.1 := by omega
        simp [FreeMem.setNode, different]
      · refine ⟨rfl, proper, ?_, ?_⟩
        · simp only [FreeMem.setNode, Function.update_self, lengthEq]
          exact Nat.mod_eq_of_lt (by omega)
        · simp only [FreeMem.setNode, Function.update_self, nextEq]
          refine chain_congr chainBack ?_
          intro block member
          rw [Function.update_of_ne (backLast block member)]
    · refine ⟨_, others ++ [last], a, n, link_alone adjacent, ?_, rfl,
        Or.inl ⟨rfl, rfl, rfl, ?_⟩⟩
      · have different : last.1 ≠ a := by omega
        have tail : (others ++ [last]) ++ (a, n) :: back = others ++ last :: (a, n) :: back := by
          simp
        rw [tail]
        apply represents_change represents
        · rfl
        · intro other member
          have otherEnds := otherBelow other member
          have notLast : other.1 ≠ last.1 := by omega
          have notBlock : other.1 ≠ a := by omega
          simp [FreeMem.setNext, FreeMem.setNode, notLast, notBlock]
        · refine ⟨rfl, proper, ?_, ?_⟩
          · simp [FreeMem.setNext, FreeMem.setNode, different, lengthEq]
          · refine ⟨by simp [FreeMem.setNext, FreeMem.setNode], ?_, ?_, ?_⟩
            · simp only [FreeMem.setNext, FreeMem.setNode, Function.update_self]
              omega
            · simp [FreeMem.setNext, FreeMem.setNode, different.symm]
            · simp only [FreeMem.setNext, FreeMem.setNode, Function.update_self, ne_eq,
                different.symm, not_false_eq_true, Function.update_of_ne]
              refine chain_congr chainBack ?_
              intro block member
              rw [Function.update_of_ne (backLast block member),
                Function.update_of_ne (backApart block member)]
      · intro block member
        rcases List.mem_append.mp member with inOthers | isLast
        · have otherEnds := otherBelow block inOthers
          omega
        · rw [List.mem_singleton.mp isLast]
          omega

/-- A node joins the node behind it when they are adjacent. -/
theorem join_next_result {c length : Nat} (represents : Represents m (front ++ (c, length) :: back))
    (fits : c + length < word32) (behind : ∀ block ∈ back, c + length ≤ block.1)
    (short : ∀ block ∈ back, length + block.2 < word32) (frontApart : ∀ block ∈ front, block.1 ≠ c)
    (positive : 0 < length) (spaced : Spaced low high back) :
    ∃ blocks', Represents (joinNext m (some c) (headOf back)) blocks' ∧
      (joinNext m (some c) (headOf back)).memlist = m.memlist ∧
      (blocks' = front ++ (c, length) :: back ∧ (∀ block ∈ back, c + length < block.1) ∨
        ∃ more back', back = (c + length, more) :: back' ∧
          blocks' = front ++ (c, length + more) :: back') := by
  obtain ⟨proper, lengthEq, nextEq, chain⟩ := chain_member represents
  simp only at proper lengthEq nextEq chain
  unfold joinNext
  simp only [lengthEq, Nat.mod_eq_of_lt fits]
  split
  · rename_i adjacent
    cases back with
    | nil =>
        have zero : c + length = 0 := adjacent
        omega
    | cons first back =>
        obtain ⟨addr, more⟩ := first
        have place : c + length = addr := adjacent
        subst place
        have split : front ++ (c, length) :: (c + length, more) :: back =
            (front ++ [(c, length)]) ++ (c + length, more) :: back := by simp
        obtain ⟨_, moreEq, moreNext, chainMore⟩ := chain_member (split ▸ represents)
        simp only at moreEq moreNext chainMore
        refine ⟨_, ?_, rfl, Or.inr ⟨more, back, rfl, rfl⟩⟩
        apply represents_change represents
        · rfl
        · intro other member
          simp [FreeMem.setNode, frontApart other member]
        · have here : headOf ((c + length, more) :: back) = c + length := rfl
          refine ⟨rfl, proper, ?_, ?_⟩
          · simp only [FreeMem.setNode, Function.update_self, here, moreEq]
            exact Nat.mod_eq_of_lt (short (c + length, more) (by simp))
          · simp only [FreeMem.setNode, Function.update_self, here, moreNext]
            obtain ⟨_, _, _, linked⟩ := chainMore
            rw [moreNext] at linked
            refine chain_congr linked ?_
            intro block member
            have above := behind block (by simp [member])
            have different : block.1 ≠ c := by omega
            rw [Function.update_of_ne different]
  · rename_i notAdjacent
    refine ⟨_, represents, rfl, Or.inl ⟨rfl, ?_⟩⟩
    cases back with
    | nil => simp
    | cons first back =>
        have notFirst : c + length ≠ first.1 := notAdjacent
        have start := behind first (by simp)
        intro block member
        rcases List.mem_cons.mp member with rfl | later
        · omega
        · obtain ⟨_, _, _, spacedBack⟩ := spaced
          have above := spaced_above spacedBack later
          omega

/-- The test of `freemem` and `vfreemem` against the blocks of the list. The end of the range
is a 32-bit sum. -/
def Overlaps (a n : Nat) (blocks : List (Nat × Nat)) : Prop :=
  (∃ block ∈ blocks, block.1 < a ∧ a < block.1 + block.2) ∨
    ∃ block ∈ blocks, a ≤ block.1 ∧ block.1 < (a + n) % word32

/-- The blocks below an address and the blocks from it on. -/
theorem spaced_at (spaced : Spaced low high blocks) (a : Nat) :
    ∃ front back, blocks = front ++ back ∧ (∀ block ∈ front, block.1 < a) ∧
      ∀ block ∈ back, a ≤ block.1 := by
  induction blocks generalizing low with
  | nil => exact ⟨[], [], rfl, by simp, by simp⟩
  | cons first rest induction =>
      obtain ⟨_, _, _, spacedRest⟩ := spaced
      by_cases below : first.1 < a
      · obtain ⟨front, back, split, belowFront, aboveBack⟩ := induction spacedRest
        refine ⟨first :: front, back, by rw [split]; rfl, ?_, aboveBack⟩
        intro block member
        rcases List.mem_cons.mp member with rfl | later
        · exact below
        · exact belowFront block later
      · refine ⟨[], first :: rest, rfl, by simp, ?_⟩
        intro block member
        rcases List.mem_cons.mp member with rfl | later
        · omega
        · have above := spaced_above spacedRest later
          omega

/-- The test that the code makes on the two neighbours of the range. -/
theorem overlaps_neighbours (spaced : Spaced low high (front ++ back)) (bound : high < word32)
    (represents : Represents m (front ++ back)) (below : ∀ block ∈ front, block.1 < a)
    (above : ∀ block ∈ back, a ≤ block.1) :
    (lastOf front ≠ none ∧ a < topOf m (lastOf front) ∨
        headOf back ≠ 0 ∧ headOf back < (a + n) % word32) ↔ Overlaps a n (front ++ back) := by
  unfold Overlaps
  apply or_congr
  · rcases List.eq_nil_or_concat front with rfl | ⟨others, last, rfl⟩
    · refine iff_of_false (by simp) ?_
      rintro ⟨block, member, start, _⟩
      have notBelow := above block (by simpa using member)
      omega
    · rw [List.concat_eq_append] at *
      have split : others ++ [last] ++ back = others ++ last :: back := by simp
      rw [split] at spaced represents ⊢
      obtain ⟨otherBelow, _, _, fits, _⟩ := spaced_split spaced
      have lastBelow := below last (by simp)
      rw [last_of_concat, top_of_last represents (by omega)]
      constructor
      · rintro ⟨_, overlaps⟩
        exact ⟨last, by simp, lastBelow, overlaps⟩
      · rintro ⟨block, member, start, overlaps⟩
        refine ⟨by simp, ?_⟩
        rcases List.mem_append.mp member with inOthers | inRest
        · have ends := otherBelow block inOthers
          omega
        · rcases List.mem_cons.mp inRest with rfl | inBack
          · exact overlaps
          · have notBelow := above block inBack
            omega
  · cases back with
    | nil =>
        refine iff_of_false (by simp [headOf]) ?_
        rintro ⟨block, member, start, _⟩
        have isBelow := below block (by simpa using member)
        omega
    | cons first back =>
        obtain ⟨proper, _, _, _⟩ := chain_member represents
        obtain ⟨_, _, _, _, spacedBack⟩ := spaced_split spaced
        have here : headOf (first :: back) = first.1 := rfl
        rw [here]
        constructor
        · rintro ⟨_, overlaps⟩
          exact ⟨first, by simp, above first (by simp), overlaps⟩
        · rintro ⟨block, member, start, overlaps⟩
          refine ⟨proper, ?_⟩
          rcases List.mem_append.mp member with inFront | inRest
          · have isBelow := below block inFront
            omega
          · rcases List.mem_cons.mp inRest with rfl | inBack
            · exact overlaps
            · have later := spaced_above spacedBack inBack
              omega

/-- A range that overlaps a block of the list is refused. -/
theorem give_back_refused {fuel : Nat} (spaced : Spaced low high blocks) (bound : high < word32)
    (represents : Represents m blocks) (enough : blocks.length < fuel)
    (overlaps : Overlaps a n blocks) : giveBack fuel m a n = some (sysErr, m) := by
  obtain ⟨front, back, rfl, below, above⟩ := spaced_at spaced a
  have walked := walk_from_head represents below above enough
  unfold giveBack
  rw [walked]
  exact if_pos ((overlaps_neighbours spaced bound represents below above).mpr overlaps)

/-- A range inside of the heap that overlaps no block of the list joins the list. -/
theorem give_back_joined {fuel : Nat} (spaced : Spaced low high blocks) (bound : high < word32)
    (represents : Represents m blocks) (enough : blocks.length < fuel) (started : 0 < low)
    (aboveLow : low ≤ a) (inside : a + n ≤ high) (positive : 0 < n)
    (free : ¬Overlaps a n blocks) :
    ∃ m' blocks', giveBack fuel m a n = some (ok, m') ∧ Represents m' blocks' ∧
      Joined a n blocks blocks' ∧
      m'.memlist.mlength = (m.memlist.mlength + n) % word32 := by
  obtain ⟨front, back, rfl, below, above⟩ := spaced_at spaced a
  have walked := walk_from_head represents below above enough
  have noTest := fun test =>
    free ((overlaps_neighbours spaced bound represents below above).mp test)
  have frontEnds : ∀ block ∈ front, block.1 + block.2 ≤ a := by
    intro block member
    by_contra beyond
    exact free (Or.inl ⟨block, by simp [member], below block member, by omega⟩)
  have backStarts : ∀ block ∈ back, a + n ≤ block.1 := by
    intro block member
    by_contra before
    refine free (Or.inr ⟨block, by simp [member], above block member, ?_⟩)
    rw [Nat.mod_eq_of_lt (by omega)]
    omega
  have spacedBack : Spaced low high back := by
    rw [spaced_iff] at spaced ⊢
    exact ⟨fun block member => spaced.1 block (by simp [member]),
      (List.pairwise_append.mp spaced.2).2.1⟩
  have lengthened : Represents (m.addLength n) (front ++ back) :=
    represents_length represents add_length_mnext add_length_node
  have sameTop : topOf (m.addLength n) (lastOf front) = topOf m (lastOf front) := by
    cases lastOf front with
    | none => rfl
    | some last => simp only [topOf, add_length_node]
  obtain ⟨linked, front', c, length, link, linkedRep, linkedLength, shape⟩ :=
    link_block_result (n := n) spaced bound lengthened aboveLow started inside
      (fun last isLast => frontEnds last (List.mem_of_getLast? isLast)) below backStarts positive
  rw [sameTop] at link
  have fits : c + length = a + n := by
    rcases shape with ⟨_, rfl, rfl, _⟩ | ⟨before, _, ends, rfl⟩
    · rfl
    · omega
  have more : 0 < length := by
    rcases shape with ⟨_, _, rfl, _⟩ | ⟨before, _, _, rfl⟩ <;> omega
  have backShort : ∀ block ∈ back, length + block.2 < word32 := by
    intro block member
    have start := backStarts block member
    have ends := spaced_above spacedBack member
    omega
  have frontApart : ∀ block ∈ front', block.1 ≠ c := by
    intro block member
    rcases shape with ⟨rfl, rfl, _, gap⟩ | ⟨before, split, _, _⟩
    · have ends := gap block member
      omega
    · rw [split, List.append_assoc] at spaced
      have ends := (spaced_split spaced).1 block member
      simp only at ends
      omega
  obtain ⟨blocks', represented, memlist, joinedShape⟩ :=
    join_next_result linkedRep (by omega) (fun block member => by
      have start := backStarts block member
      omega) backShort frontApart more spacedBack
  refine ⟨joinNext linked (some c) (headOf back), blocks', ?_, represented, ?_, ?_⟩
  · unfold giveBack
    rw [walked]
    simp only [Option.bind_eq_bind, Option.bind_some]
    rw [if_neg noTest, link]
  · rcases shape with ⟨rfl, rfl, rfl, gap⟩ | ⟨before, rfl, ends, rfl⟩
    · rcases joinedShape with ⟨rfl, behind⟩ | ⟨behind, rest, rfl, rfl⟩
      · exact .alone front' back gap behind
      · exact .next front' rest behind gap
    · rw [List.append_assoc]
      rcases joinedShape with ⟨rfl, behind⟩ | ⟨behind, rest, rfl, rfl⟩
      · refine .prev front' back c before ends fun block member => ?_
        have start := behind block member
        omega
      · have place : c + (before + n) = a + n := by omega
        rw [place]
        exact .both front' rest c before behind ends
  · rw [memlist, linkedLength]
    rfl

end Frees

section Allocators

/-- What `getmem`, `vgetmem` and `getstk` do with a list of blocks when they find room. -/
theorem get_block_result {fuel : Nat} (spaced : Spaced low high blocks) (bound : high < word32)
    (positive : 0 < n) (represents : Represents m blocks) (enough : blocks.length < fuel) :
    (∃ x m' blocks', firstFit n fuel m none m.memlist.mnext = some (x, m') ∧
      Carved n x blocks blocks' ∧ Represents m' blocks' ∧
      m'.memlist.mlength = (m.memlist.mlength + word32 - n) % word32) ∨
    firstFit n fuel m none m.memlist.mnext = some (sysErrPtr, m) := by
  have head : m.memlist.mnext = headOf blocks := chain_head represents
  have spacedNil : Spaced low high ([] ++ blocks) := spaced
  have searched := first_fit_result spacedNil bound positive represents enough
  rw [last_of_nil, ← head] at searched
  exact searched

theorem getstk_result {fuel nbytes : Nat} (spaced : Spaced low high blocks) (bound : high < word32)
    (asked : nbytes ≠ 0) (positive : 8 ≤ roundmb nbytes) (represents : Represents m blocks)
    (enough : blocks.length < fuel) :
    (∃ x m' blocks', Heap.getstk fuel m nbytes = some (x + roundmb nbytes - 4, m') ∧
      Carved (roundmb nbytes) x blocks blocks' ∧ Represents m' blocks' ∧
      m'.memlist.mlength = (m.memlist.mlength + word32 - roundmb nbytes) % word32) ∨
    Heap.getstk fuel m nbytes = some (sysErrPtr, m) := by
  have head : m.memlist.mnext = headOf blocks := chain_head represents
  have scan : ∃ found, lastFit (roundmb nbytes) m fuel (lastOf []) (headOf blocks) none =
      some found ∧ (found = none ∨ ∃ before block back, blocks = before ++ block :: back ∧
        roundmb nbytes ≤ block.2 ∧ found = some (lastOf ([] ++ before), block.1)) :=
    last_fit_result represents enough
  obtain ⟨found, scanned, rfl | fitting⟩ := scan
  · right
    rw [last_of_nil, ← head] at scanned
    unfold Heap.getstk
    rw [if_neg asked]
    simp only [Option.bind_eq_bind, scanned, Option.bind_some]
  · obtain ⟨before, block, back, rfl, large, rfl⟩ := fitting
    left
    rw [last_of_nil, ← head, List.nil_append] at scanned
    obtain ⟨addr, length⟩ := block
    obtain ⟨proper, lengthEq, nextEq, chain⟩ := chain_member represents
    obtain ⟨below, _, _, inside, spacedBack⟩ := spaced_split spaced
    simp only at proper lengthEq nextEq chain large below inside spacedBack
    obtain ⟨_, _, _, chainBack⟩ := chain
    rw [nextEq] at chainBack
    unfold Heap.getstk
    rw [if_neg asked]
    simp only [Option.bind_eq_bind, scanned, Option.bind_some, lengthEq]
    by_cases exact : roundmb nbytes = length
    · rw [if_pos exact, ← exact]
      have place : (addr + roundmb nbytes - 4) % word32 = addr + roundmb nbytes - 4 :=
        Nat.mod_eq_of_lt (by omega)
      refine ⟨addr, _, before ++ back, by rw [place], .whole before back, ?_,
        sub_length_of (set_next_length _ _)⟩
      apply represents_relink (headOf back) represents (front_distinct spaced)
      · rw [nextEq]
        exact sub_length_mnext
      · intro other _
        rw [nextEq, sub_length_node]
      · rw [nextEq, sub_length_node]
        refine chain_congr chainBack ?_
        intro other member
        have above := spaced_above spacedBack member
        rcases List.eq_nil_or_concat before with rfl | ⟨others, last, rfl⟩
        · rfl
        · have ends := below last (by simp)
          have different : other.1 ≠ last.1 := by omega
          simp [FreeMem.setNext, FreeMem.setNode, different]
    · rw [if_neg exact]
      have sum : length - roundmb nbytes + roundmb nbytes = length := by omega
      have carved := Carved.top (n := roundmb nbytes) before back addr (length - roundmb nbytes)
        (by omega) rfl
      rw [sum] at carved
      have place : ((addr + (length - roundmb nbytes)) % word32 + roundmb nbytes - 4) % word32 =
          addr + (length - roundmb nbytes) + roundmb nbytes - 4 := by
        rw [Nat.mod_eq_of_lt (show addr + (length - roundmb nbytes) < word32 by omega)]
        exact Nat.mod_eq_of_lt (by omega)
      refine ⟨addr + (length - roundmb nbytes), _, _, by rw [place], carved, ?_,
        sub_length_of (congrArg Memblk.mlength (set_node_memlist _))⟩
      apply represents_change represents
      · rw [sub_length_mnext, set_node_memlist]
      · intro other member
        have ends := below other member
        have different : other.1 ≠ addr := by omega
        rw [sub_length_node]
        simp [FreeMem.setNode, different]
      · rw [sub_length_node]
        refine ⟨rfl, proper, by simp [FreeMem.setNode], ?_⟩
        simp only [FreeMem.setNode, Function.update_self, nextEq]
        refine chain_congr chainBack ?_
        intro other member
        have above := spaced_above spacedBack member
        have different : other.1 ≠ addr := by omega
        rw [Function.update_of_ne different]

end Allocators

end Xinu.Kernel.HeapLists
