import Mathlib.Algebra.GroupWithZero.Nat
import Xinu.Kernel.Memory

/-!
# Stacks taken from the free list and given back

A free list in order has its blocks in address order, inside of the heap and with a
gap between any two of them, and its length adds up. `getstk` takes the top of one
block, and `freestk` puts exactly that section back.
-/

namespace Xinu.Kernel.FreeList

open Xinu.Kernel.State Xinu.Kernel.Memory Xinu.Lib.StateError

set_option autoImplicit false

/-- Blocks from `low` up to `high`, with a gap in front of all but the first one. -/
def Spaced (low high : Nat) : List (Nat × Nat) → Prop
  | [] => True
  | block :: rest =>
      low ≤ block.1 ∧ 0 < block.2 ∧ block.1 + block.2 ≤ high ∧
        Spaced (block.1 + block.2 + 1) high rest

instance decidableSpaced : (low high : Nat) → (blocks : List (Nat × Nat)) →
    Decidable (Spaced low high blocks)
  | _, _, [] => .isTrue trivial
  | low, high, block :: rest =>
      have := decidableSpaced (block.1 + block.2 + 1) high rest
      inferInstanceAs (Decidable (low ≤ block.1 ∧ 0 < block.2 ∧ block.1 + block.2 ≤ high ∧
        Spaced (block.1 + block.2 + 1) high rest))

structure InOrder (ker : Ker) : Prop where
  spaced : Spaced ker.minheap ker.maxheap ker.memlist.blocks
  bound : ker.maxheap < word32
  total : ker.memlist.mlength = (ker.memlist.blocks.map Prod.snd).sum

variable {low high n fits : Nat} {block : Nat × Nat} {front back blocks rest : List (Nat × Nat)}

section Spacing

theorem spaced_above (spaced : Spaced low high blocks) (member : block ∈ blocks) :
    low ≤ block.1 ∧ 0 < block.2 ∧ block.1 + block.2 ≤ high := by
  induction blocks generalizing low with
  | nil => cases member
  | cons first rest induction =>
      obtain ⟨above, positive, fits, spacedRest⟩ := spaced
      rcases List.mem_cons.mp member with rfl | later
      · exact ⟨above, positive, fits⟩
      · have laterAbove := induction spacedRest later
        omega

theorem spaced_split (spaced : Spaced low high (front ++ block :: back)) :
    (∀ other ∈ front, other.1 + other.2 < block.1) ∧ low ≤ block.1 ∧ 0 < block.2 ∧
      block.1 + block.2 ≤ high ∧ Spaced (block.1 + block.2 + 1) high back := by
  induction front generalizing low with
  | nil =>
      obtain ⟨above, positive, fits, spacedRest⟩ := spaced
      refine ⟨?_, above, positive, fits, spacedRest⟩
      intro other member
      cases member
  | cons first rest induction =>
      obtain ⟨above, _, _, spacedRest⟩ := spaced
      obtain ⟨below, blockAbove, positive, fits, spacedBack⟩ := induction spacedRest
      refine ⟨?_, by omega, positive, fits, spacedBack⟩
      intro other member
      rcases List.mem_cons.mp member with rfl | later
      · omega
      · exact below other later

theorem total_le (spaced : Spaced low high blocks) :
    (blocks.map Prod.snd).sum + low ≤ max low high := by
  induction blocks generalizing low with
  | nil =>
      simp only [List.map_nil, List.sum_nil]
      omega
  | cons first rest induction =>
      obtain ⟨above, _, fits, spacedRest⟩ := spaced
      have restTotal := induction spacedRest
      simp only [List.map_cons, List.sum_cons]
      omega

end Spacing

section TakeTop

/-- The block that gives up its top section, and what is left of the list. -/
theorem take_top_inv (took : takeTop n blocks = some (fits, rest)) :
    ∃ front back,
      (blocks = front ++ (fits, n) :: back ∧ rest = front ++ back) ∨
        ∃ addr left, 0 < left ∧ fits = addr + left ∧
          blocks = front ++ (addr, left + n) :: back ∧ rest = front ++ (addr, left) :: back := by
  induction blocks generalizing fits rest with
  | nil => cases took
  | cons first blocks induction =>
      obtain ⟨addr, mlength⟩ := first
      unfold takeTop at took
      cases later : takeTop n blocks with
      | some found =>
          obtain ⟨laterFits, laterRest⟩ := found
          rw [later] at took
          simp only [Option.some.injEq, Prod.mk.injEq] at took
          obtain ⟨rfl, rfl⟩ := took
          obtain ⟨front, back, whole | split⟩ := induction later
          · refine ⟨(addr, mlength) :: front, back, Or.inl ?_⟩
            rw [whole.1, whole.2]
            exact ⟨rfl, rfl⟩
          · obtain ⟨other, left, positive, place, before, after⟩ := split
            refine ⟨(addr, mlength) :: front, back, Or.inr ⟨other, left, positive, place, ?_⟩⟩
            rw [before, after]
            exact ⟨rfl, rfl⟩
      | none =>
          rw [later] at took
          simp only [] at took
          split at took
          · cases took
          · split at took
            · rename_i same
              simp only [Option.some.injEq, Prod.mk.injEq] at took
              obtain ⟨rfl, rfl⟩ := took
              exact ⟨[], blocks, Or.inl ⟨by rw [same]; rfl, rfl⟩⟩
            · simp only [Option.some.injEq, Prod.mk.injEq] at took
              obtain ⟨rfl, rfl⟩ := took
              refine ⟨[], blocks, Or.inr ⟨addr, mlength - n, by omega, rfl, ?_, rfl⟩⟩
              rw [Nat.sub_add_cancel (by omega)]
              rfl

theorem take_top_none : takeTop n blocks = none ↔ ∀ block ∈ blocks, block.2 < n := by
  induction blocks with
  | nil => simp [takeTop]
  | cons first blocks induction =>
      obtain ⟨addr, mlength⟩ := first
      unfold takeTop
      cases later : takeTop n blocks with
      | some found =>
          rw [later] at induction
          simp only [reduceCtorEq, List.mem_cons, false_iff, forall_eq_or_imp, not_and]
          exact fun _ all => absurd (induction.mpr all) (by simp)
      | none =>
          rw [later] at induction
          have small := induction.mp rfl
          simp only [List.mem_cons, forall_eq_or_imp]
          split
          · rename_i tooSmall
            exact iff_of_true rfl ⟨tooSmall, small⟩
          · rename_i large
            split
            · exact iff_of_false (by simp) fun all => large all.1
            · exact iff_of_false (by simp) fun all => large all.1

/-- A request that was rounded to zero takes nothing. -/
theorem take_top_zero (spaced : Spaced low high blocks) (took : takeTop 0 blocks = some (fits, rest)) :
    rest = blocks := by
  obtain ⟨front, back, whole | split⟩ := take_top_inv took
  · obtain ⟨_, _, positive, _⟩ := spaced_split (whole.1 ▸ spaced)
    omega
  · obtain ⟨addr, left, _, _, before, after⟩ := split
    rw [before, after, Nat.add_zero]

end TakeTop

section GiveBack

/-- The walk of `freemem` stops between the blocks below and the blocks above. -/
theorem walk_stops {addr : Nat} (below : ∀ block ∈ front, block.1 < addr)
    (above : ∀ block ∈ back, addr ≤ block.1) :
    ((front ++ back).takeWhile fun block => block.1 < addr) = front ∧
      ((front ++ back).dropWhile fun block => block.1 < addr) = back := by
  have belowAll : ∀ block ∈ front, decide (block.1 < addr) = true := by
    intro block member
    simpa using below block member
  rw [List.takeWhile_append_of_pos belowAll, List.dropWhile_append_of_pos belowAll]
  cases back with
  | nil => simp
  | cons first back =>
      have notBelow : ¬first.1 < addr := Nat.not_lt.mpr (above first (by simp))
      simp [notBelow]

/-- The case of `freemem` that finds room between two neighbours of the list. -/
theorem freemem_between {s : St} {addr : Nat} (walk : s.ker.memlist.blocks = front ++ back)
    (inside : s.ker.minheap ≤ addr ∧ addr ≤ s.ker.maxheap) (positive : 0 < n)
    (rounded : roundmb n = n) (fit : addr + n < word32)
    (below : ∀ block ∈ front, block.1 < addr ∧ block.1 + block.2 ≤ addr)
    (above : ∀ block ∈ back, addr + n ≤ block.1) :
    freemem addr n s = .ok ok { s with ker := { s.ker with memlist :=
      { mlength := (s.ker.memlist.mlength + n) % word32
        blocks := match front.getLast? with
          | none => coalesceNext (addr, n) back
          | some prev =>
              if prev.1 + prev.2 = addr then front.dropLast ++ coalesceNext (prev.1, prev.2 + n) back
              else front ++ coalesceNext (addr, n) back } } } := by
  obtain ⟨before, after⟩ := walk_stops (fun block member => (below block member).1)
    (fun block member => Nat.le_trans (Nat.le_add_right addr n) (above block member))
  have valid : ¬(n = 0 ∨ addr < s.ker.minheap ∨ s.ker.maxheap < addr) := by omega
  unfold freemem
  rw [get_bind, if_neg valid]
  simp only [rounded, walk, before, after]
  rw [if_neg]
  · rfl
  rw [Bool.or_eq_true]
  rintro (prevOverlaps | nextOverlaps)
  · cases last : front.getLast? with
    | none =>
        rw [last] at prevOverlaps
        cases prevOverlaps
    | some prev =>
        rw [last] at prevOverlaps
        have starts := of_decide_eq_true prevOverlaps
        have ends := (below prev (List.mem_of_getLast? last)).2
        omega
  · cases back with
    | nil => cases nextOverlaps
    | cons next back =>
        have ends := of_decide_eq_true nextOverlaps
        rw [Nat.mod_eq_of_lt fit] at ends
        have starts := above next (by simp)
        omega

theorem coalesce_gapped (apart : ∀ next ∈ back, block.1 + block.2 < next.1) :
    coalesceNext block back = block :: back := by
  cases back with
  | nil => rfl
  | cons next back =>
      have gap := apart next (by simp)
      exact if_neg (by omega)

/-- `freemem` of the section that `takeTop` has taken restores the list. -/
theorem freemem_restores {s : St} (spaced : Spaced s.ker.minheap s.ker.maxheap blocks)
    (bound : s.ker.maxheap < word32) (took : takeTop n blocks = some (fits, rest))
    (now : s.ker.memlist.blocks = rest) (positive : 0 < n) (rounded : roundmb n = n) :
    freemem fits n s = .ok ok { s with ker := { s.ker with memlist :=
      { mlength := (s.ker.memlist.mlength + n) % word32, blocks := blocks } } } := by
  obtain ⟨front, back, whole | split⟩ := take_top_inv took
  · -- the whole block was taken, and it becomes a node again
    obtain ⟨before, after⟩ := whole
    subst before after
    obtain ⟨below, above, _, inside, spacedBack⟩ := spaced_split spaced
    simp only at below above inside spacedBack
    have behind : ∀ next ∈ back, fits + n < next.1 := fun next member => by
      have nextAbove := spaced_above spacedBack member
      omega
    rw [freemem_between now ⟨above, by omega⟩ positive rounded (by omega)
      (fun other member => by have ends := below other member; omega)
      (fun next member => Nat.le_of_lt (behind next member)), coalesce_gapped behind]
    cases last : front.getLast? with
    | none =>
        rw [List.getLast?_eq_none_iff.mp last]
        rfl
    | some prev =>
        have ends := below prev (List.mem_of_getLast? last)
        simp only [if_neg (show ¬prev.1 + prev.2 = fits by omega)]
  · -- the top section goes back to the block below it
    obtain ⟨addr, left, leftPositive, rfl, before, after⟩ := split
    subst before after
    obtain ⟨below, above, _, inside, spacedBack⟩ := spaced_split spaced
    simp only at below above inside spacedBack
    have behind : ∀ next ∈ back, addr + left + n < next.1 := fun next member => by
      have nextAbove := spaced_above spacedBack member
      omega
    have walk : s.ker.memlist.blocks = (front ++ [(addr, left)]) ++ back := by
      rw [now, List.append_assoc, List.singleton_append]
    have frontBelow : ∀ block ∈ front ++ [(addr, left)],
        block.1 < addr + left ∧ block.1 + block.2 ≤ addr + left := by
      intro other member
      rcases List.mem_append.mp member with inFront | isBlock
      · have ends := below other inFront
        omega
      · rw [List.mem_singleton.mp isBlock]
        exact ⟨by simpa using leftPositive, Nat.le_refl _⟩
    rw [freemem_between walk ⟨by omega, by omega⟩ positive rounded (by omega) frontBelow
      (fun next member => Nat.le_of_lt (behind next member))]
    have merged : coalesceNext (addr, left + n) back = (addr, left + n) :: back :=
      coalesce_gapped fun next member => by have gap := behind next member; simp only; omega
    simp only [List.getLast?_append, List.getLast?_singleton, Option.some_or, if_true,
      List.dropLast_concat, merged]

end GiveBack

section Stacks

theorem roundmb_roundmb (nbytes : Nat) : roundmb (roundmb nbytes) = roundmb nbytes := by
  unfold roundmb
  rw [word32]
  omega

theorem roundmb_bound (nbytes : Nat) : roundmb nbytes ≤ 4294967288 ∧ roundmb nbytes % 8 = 0 := by
  unfold roundmb
  rw [word32]
  omega

variable {s : St} {nbytes : Nat}

/-- No block of the free list holds a stack of this size, or the size was rounded to zero. -/
def NothingTaken (ker : Ker) (nbytes : Nat) : Prop :=
  roundmb nbytes = 0 ∨ ∀ block ∈ ker.memlist.blocks, block.2 < roundmb nbytes

theorem total_bound (order : InOrder s.ker) : s.ker.memlist.mlength < word32 := by
  cases blocks : s.ker.memlist.blocks with
  | nil =>
      rw [order.total, blocks]
      decide
  | cons first rest =>
      have spaced := order.spaced
      have within := spaced_above spaced (blocks ▸ List.mem_cons_self)
      have total := total_le spaced
      have bound := order.bound
      rw [order.total]
      omega

/-- `getstk` fails and changes nothing, or it takes the top section of a block. -/
theorem getstk_took (nbytes : Nat) (order : InOrder s.ker) :
    getstk nbytes s = .ok sysErrPtr s ∧ NothingTaken s.ker nbytes ∨
      ∃ fits rest, takeTop (roundmb nbytes) s.ker.memlist.blocks = some (fits, rest) ∧
        getstk nbytes s = .ok (fits + roundmb nbytes - 4) { s with ker := { s.ker with memlist :=
          { mlength := (s.ker.memlist.mlength + word32 - roundmb nbytes) % word32
            blocks := rest } } } ∧
        s.ker.minheap ≤ fits ∧ fits + roundmb nbytes ≤ s.ker.maxheap := by
  unfold getstk
  by_cases zero : nbytes = 0
  · rw [if_pos zero, zero]
    exact Or.inl ⟨rfl, Or.inl rfl⟩
  · rw [if_neg zero]
    simp only [get_bind]
    cases took : takeTop (roundmb nbytes) s.ker.memlist.blocks with
    | none => exact Or.inl ⟨rfl, Or.inr (take_top_none.mp took)⟩
    | some found =>
        obtain ⟨fits, rest⟩ := found
        have place : s.ker.minheap ≤ fits ∧ fits + roundmb nbytes ≤ s.ker.maxheap := by
          obtain ⟨front, back, whole | split⟩ := take_top_inv took
          · obtain ⟨_, above, _, inside, _⟩ := spaced_split (whole.1 ▸ order.spaced)
            exact ⟨above, inside⟩
          · obtain ⟨addr, left, _, rfl, before, _⟩ := split
            obtain ⟨_, above, _, inside, _⟩ := spaced_split (before ▸ order.spaced)
            simp only at above inside
            omega
        have small : (fits + roundmb nbytes - 4) % word32 = fits + roundmb nbytes - 4 := by
          have bound := order.bound
          apply Nat.mod_eq_of_lt
          omega
        refine Or.inr ⟨fits, rest, rfl, ?_, place.1, place.2⟩
        simp only [small]
        rfl

/-- `freestk` gives back what `getstk` has taken. -/
theorem freestk_restores (order : InOrder s.ker) {t opened : St} {saddr : Nat}
    (took : getstk nbytes s = .ok saddr opened) (stack : saddr ≠ sysErrPtr)
    (memlist : t.ker.memlist = opened.ker.memlist)
    (bounds : t.ker.minheap = s.ker.minheap ∧ t.ker.maxheap = s.ker.maxheap) :
    ∃ status, freestk saddr nbytes t =
      .ok status { t with ker := { t.ker with memlist := s.ker.memlist } } := by
  have total := total_bound order
  have bound := order.bound
  obtain ⟨small, multiple⟩ := roundmb_bound nbytes
  obtain ⟨failed, _⟩ | ⟨fits, rest, top, ran, low, high⟩ := getstk_took nbytes order
  · rw [failed] at took
    cases took
    exact absurd rfl stack
  · rw [ran] at took
    cases took
    simp only at memlist
    unfold freestk
    by_cases zero : roundmb nbytes = 0
    · rw [zero] at top memlist ⊢
      have restored : t.ker.memlist = s.ker.memlist := by
        rw [memlist, take_top_zero order.spaced top, Nat.sub_zero, Nat.add_mod_right,
          Nat.mod_eq_of_lt total]
      refine ⟨sysErr, ?_⟩
      rw [← restored]
      unfold freemem
      rw [get_bind, if_pos (Or.inl rfl)]
      rfl
    · have address : (fits + roundmb nbytes - 4 + word32 - roundmb nbytes + 4) % word32 = fits := by
        rw [word32] at bound ⊢
        omega
      have spaced : Spaced t.ker.minheap t.ker.maxheap s.ker.memlist.blocks := by
        rw [bounds.1, bounds.2]
        exact order.spaced
      have blocks : t.ker.memlist.blocks = rest := by rw [memlist]
      have restored := freemem_restores spaced (by rw [bounds.2]; exact bound) top blocks
        (by omega) (roundmb_roundmb nbytes)
      have length : (t.ker.memlist.mlength + roundmb nbytes) % word32 = s.ker.memlist.mlength := by
        rw [memlist]
        rw [word32] at total ⊢
        simp only
        omega
      rw [length] at restored
      rw [address]
      exact ⟨ok, restored⟩

/-- A stack that was taken is missing from the list. -/
theorem getstk_takes (order : InOrder s.ker) {saddr : Nat} {opened : St}
    (took : getstk nbytes s = .ok saddr opened) :
    opened.ker.memlist = s.ker.memlist ↔ NothingTaken s.ker nbytes := by
  have total := total_bound order
  obtain ⟨small, _⟩ := roundmb_bound nbytes
  obtain ⟨failed, nothing⟩ | ⟨fits, rest, top, ran, _, _⟩ := getstk_took nbytes order
  · rw [failed] at took
    cases took
    exact iff_of_true rfl nothing
  · rw [ran] at took
    cases took
    simp only
    constructor
    · intro same
      left
      have length := congrArg MemList.mlength same
      simp only at length
      rw [word32] at total length
      omega
    · rintro (zero | tooSmall)
      · rw [zero] at top ⊢
        rw [take_top_zero order.spaced top, Nat.sub_zero, Nat.add_mod_right, Nat.mod_eq_of_lt total]
      · rw [take_top_none.mpr tooSmall] at top
        cases top

end Stacks

end Xinu.Kernel.FreeList
