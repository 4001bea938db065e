import Xinu.Lfs.Create

/-!
# Complete file systems

`lfscreate` rounds the number of index blocks up to whole sectors and gives the rest of the disk to
the data blocks. It tests neither that there is an index block nor that a sector is left, and both
of its lists then go wrong.
-/

namespace Xinu.Lfs.Formatting

open Xinu.Kernel.State (word32)
open Xinu.Lfs.Device Xinu.Lfs.Accounts Xinu.Lfs.Storage Xinu.Lfs.Create
open Xinu.Lib.SingleList

set_option autoImplicit false

section Definitions

/-- The sectors of the index area for a number of index blocks -/
def ibsectorsOf (lfiblks : Nat) : Nat := (lfiblks + (ibPerSector - 1)) / ibPerSector

def iblocksOf (lfiblks : Nat) : List Nat := List.range' 0 (ibPerSector * ibsectorsOf lfiblks)

/-- The sectors behind the index area -/
def dblocksOf (lfiblks dsiz : Nat) : List Nat :=
  List.range' (ibsectorsOf lfiblks + 1) (dsiz / lfBlksiz - (ibsectorsOf lfiblks + 1))

/-- A list from a head visits some nodes, each once, and ends with a null. -/
def Visits (next : Nat → Option Nat) (head : Option Nat) (nodes : List Nat) : Prop :=
  ∃ order : List Nat, order.Perm nodes ∧ order.head? = head ∧ Follows next order none

/-- What `lfscreate` is to make of a disk: only its sectors are written, the lists of the directory
visit all index blocks and all sectors behind them, and nothing shares a sector. -/
structure Complete (lfiblks dsiz : Nat) (disk disk' : Disk) : Prop where
  outside : ∀ sector, dsiz / lfBlksiz ≤ sector → disk' sector = disk sector
  directory : ∃ dir, disk' 0 = .directory dir ∧ dir.lfdNfiles = 0
  ifree : Visits (fun i => (lfibget disk' i).ibNext) (disk' 0).asDir.lfdIfree (iblocksOf lfiblks)
  dfree : Visits (fun dnum => (disk' dnum).asNext) (disk' 0).asDir.lfdDfree (dblocksOf lfiblks dsiz)
  apart : ∀ i ∈ iblocksOf lfiblks, ∀ dnum ∈ dblocksOf lfiblks dsiz,
    ib2sect i ≠ dnum ∧ ib2sect i ≠ 0 ∧ dnum ≠ 0
  places : ∀ i ∈ iblocksOf lfiblks, ∀ j ∈ iblocksOf lfiblks, ib2sect i = ib2sect j →
    ib2disp i = ib2disp j → i = j

/-- There is an index block and a data block. -/
def HasBlocks (lfiblks dsiz : Nat) : Prop :=
  0 < lfiblks ∧ ibsectorsOf lfiblks + 1 < dsiz / lfBlksiz

instance (lfiblks dsiz : Nat) : Decidable (HasBlocks lfiblks dsiz) :=
  inferInstanceAs (Decidable (_ ∧ _))

end Definitions

section Disks

variable {lfiblks dsiz : Nat} {disk disk' : Disk}

theorem createDblocks_above {count sector dbindex : Nat} (above : dbindex + count ≤ sector) :
    createDblocks dbindex count disk sector = disk sector := by
  induction count with
  | zero => rfl
  | succ count induction =>
      rw [createDblocks, Function.update_of_ne (by omega)]
      exact induction (by omega)

/-- The disk that `lfscreate` makes, with `last` for the number of data blocks that it puts in front
of the last one. -/
theorem lfscreate_eq (accepted : ibsectorsOf lfiblks ≤ dsiz / lfBlksiz / 2) :
    lfscreate disk lfiblks dsiz =
      let dbindex := ibsectorsOf lfiblks + 1
      let last := (word32 + (word32 + dsiz / lfBlksiz - ibsectorsOf lfiblks - 1) % word32 - 1) %
        word32
      let front := lfibput (createIblocks (ibsectorsOf lfiblks * ibPerSector - 1)
        (Function.update disk 0 (.directory { zeroDir with lfdDfree := some dbindex })))
        (ibsectorsOf lfiblks * ibPerSector - 1) (lfibclear 0)
      some (Function.update (createDblocks dbindex last front) (dbindex + last) (.dbfree none)) :=
  if_neg (not_lt.mpr accepted)

theorem last_eq (small : dsiz < word32) (room : ibsectorsOf lfiblks + 1 < dsiz / lfBlksiz) :
    (word32 + (word32 + dsiz / lfBlksiz - ibsectorsOf lfiblks - 1) % word32 - 1) % word32 =
      dsiz / lfBlksiz - ibsectorsOf lfiblks - 2 := by
  have below : dsiz / lfBlksiz < word32 := Nat.lt_of_le_of_lt (Nat.div_le_self _ _) small
  generalize dsiz / lfBlksiz = sectors at *
  unfold word32 at *
  omega

/-- The index blocks in front of a number lie in sectors of the index area. -/
theorem ib2sect_le {ibsectors i : Nat} (inside : i < ibPerSector * ibsectors) :
    ib2sect i ≤ ibsectors := by
  simp only [ibPerSector] at inside
  simp only [ib2sect, ibPerSector, lfAreaIb]
  omega

theorem outside_kept (small : dsiz < word32) (accepted : ibsectorsOf lfiblks ≤ dsiz / lfBlksiz / 2)
    (blocks : HasBlocks lfiblks dsiz) (made : lfscreate disk lfiblks dsiz = some disk')
    {sector : Nat} (outside : dsiz / lfBlksiz ≤ sector) : disk' sector = disk sector := by
  obtain ⟨positive, room⟩ := blocks
  have someSectors : 0 < ibsectorsOf lfiblks := by
    simp only [ibsectorsOf, ibPerSector]
    omega
  rw [lfscreate_eq accepted] at made
  dsimp only at made
  rw [last_eq small room] at made
  obtain rfl := Option.some.inj made
  have beyond : ∀ i, i < ibPerSector * ibsectorsOf lfiblks → sector ≠ ib2sect i := by
    intro i inside
    have low := ib2sect_le inside
    omega
  have last : ibsectorsOf lfiblks * ibPerSector - 1 < ibPerSector * ibsectorsOf lfiblks := by
    simp only [ibPerSector]
    omega
  rw [Function.update_of_ne (by omega), createDblocks_above (by omega),
    lfibput_sector _ _ (beyond _ last), createIblocks_sector fun i inside =>
      beyond i (Nat.lt_trans inside last)]
  exact Function.update_of_ne (by omega) _ _

theorem complete_of_blocks (small : dsiz < word32)
    (accepted : ibsectorsOf lfiblks ≤ dsiz / lfBlksiz / 2) (blocks : HasBlocks lfiblks dsiz)
    (made : lfscreate disk lfiblks dsiz = some disk') : Complete lfiblks dsiz disk disk' := by
  have created : Created ⟨ibsectorsOf lfiblks, dsiz / lfBlksiz⟩ disk' :=
    ⟨⟨disk, lfiblks, dsiz, blocks.1, small, rfl, rfl, made⟩, blocks.2⟩
  obtain ⟨sector, someBlocks, iblocks, dblocks⟩ := created_sectors created
  have room := blocks.2
  have count : (⟨ibsectorsOf lfiblks, dsiz / lfBlksiz⟩ : Area).iblocks =
      ibPerSector * ibsectorsOf lfiblks := rfl
  rw [count] at someBlocks iblocks
  refine ⟨fun sector outside => outside_kept small accepted blocks made outside, ⟨_, sector, rfl⟩,
    ⟨_, List.Perm.refl _, ?_, ?_⟩, ⟨_, List.Perm.refl _, ?_, ?_⟩, ?_, ?_⟩
  · rw [sector, iblocksOf]
    obtain ⟨n, more⟩ : ∃ n, ibPerSector * ibsectorsOf lfiblks = n + 1 :=
      ⟨ibPerSector * ibsectorsOf lfiblks - 1, by omega⟩
    rw [more, List.range'_succ]
    rfl
  · refine follows_range' 0 _ (fun i _ inside => ?_) fun i ends => ?_
    · rw [iblocks i (by omega)]
      exact if_pos (by omega)
    · rw [iblocks i (by omega)]
      exact if_neg (by omega)
  · rw [sector, dblocksOf]
    obtain ⟨n, more⟩ : ∃ n, dsiz / lfBlksiz - (ibsectorsOf lfiblks + 1) = n + 1 :=
      ⟨dsiz / lfBlksiz - (ibsectorsOf lfiblks + 1) - 1, by omega⟩
    rw [more, List.range'_succ]
    rfl
  · refine follows_range' _ _ (fun dnum above inside => ?_) fun dnum ends => ?_
    · rw [dblocks dnum ⟨show ibsectorsOf lfiblks < dnum by omega,
        show dnum < dsiz / lfBlksiz by omega⟩]
      exact if_pos (show dnum + 1 < dsiz / lfBlksiz by omega)
    · rw [dblocks dnum ⟨show ibsectorsOf lfiblks < dnum by omega,
        show dnum < dsiz / lfBlksiz by omega⟩]
      exact if_neg (show ¬dnum + 1 < dsiz / lfBlksiz by omega)
  · intro i isIblock dnum isDblock
    have low := ib2sect_le (Nat.zero_add _ ▸ (List.mem_range'_1.mp isIblock).2)
    have high := (List.mem_range'_1.mp isDblock).1
    exact ⟨by omega, ib2sect_pos i, by omega⟩
  · intro i _ j _ sectors displacements
    simp only [ib2sect, ib2disp, ibPerSector, lfAreaIb] at sectors displacements
    omega

theorem directory_made (accepted : ibsectorsOf lfiblks ≤ dsiz / lfBlksiz / 2)
    (made : lfscreate disk lfiblks dsiz = some disk') :
    disk' 0 = .directory { zeroDir with lfdDfree := some (ibsectorsOf lfiblks + 1) } := by
  rw [lfscreate_eq accepted] at made
  obtain rfl := Option.some.inj made
  rw [Function.update_of_ne (by omega), createDblocks_below (by omega),
    lfibput_sector _ _ (Ne.symm (ib2sect_pos _)),
    createIblocks_sector fun i _ => Ne.symm (ib2sect_pos i)]
  exact Function.update_self _ _ _

/-- Without an index block the list of the directory still has one. -/
theorem no_iblocks (made : lfscreate disk 0 dsiz = some disk') : ¬Complete 0 dsiz disk disk' := by
  intro complete
  have sector := directory_made (Nat.zero_le _) made
  obtain ⟨order, visited, first, -⟩ := complete.ifree
  rw [sector] at first
  have empty : order = [] := visited.eq_nil
  rw [empty] at first
  cases first

/-- A disk on which nothing has been written -/
def blank : Disk := fun _ => .data fun _ => 0

/-- Without a sector for data blocks the sector behind the disk is written. -/
theorem no_dblocks (full : dsiz / lfBlksiz = ibsectorsOf lfiblks + 1)
    (accepted : ibsectorsOf lfiblks ≤ dsiz / lfBlksiz / 2)
    (made : lfscreate blank lfiblks dsiz = some disk') :
    disk' (dsiz / lfBlksiz) = .dbfree (some (dsiz / lfBlksiz + 1)) := by
  have last : (word32 + (word32 + dsiz / lfBlksiz - ibsectorsOf lfiblks - 1) % word32 - 1) %
      word32 = 4294967295 := by
    rw [full]
    unfold word32
    omega
  rw [lfscreate_eq accepted] at made
  dsimp only at made
  rw [last] at made
  obtain rfl := Option.some.inj made
  rw [full, Function.update_of_ne (by omega)]
  exact @createDblocks_get 4294967295 (ibsectorsOf lfiblks + 1) _ 0 (by omega)

end Disks

section Results

variable {lfiblks dsiz : Nat}

theorem always_complete_iff (small : dsiz < word32)
    (accepted : ibsectorsOf lfiblks ≤ dsiz / lfBlksiz / 2) :
    (∀ disk disk', lfscreate disk lfiblks dsiz = some disk' → Complete lfiblks dsiz disk disk') ↔
      HasBlocks lfiblks dsiz := by
  constructor
  · intro always
    obtain ⟨disk', made⟩ : ∃ disk', lfscreate blank lfiblks dsiz = some disk' :=
      ⟨_, lfscreate_eq accepted⟩
    have complete := always blank disk' made
    by_contra lacks
    by_cases nothing : lfiblks = 0
    · subst nothing
      exact no_iblocks made complete
    · have someSectors : 0 < ibsectorsOf lfiblks := by
        simp only [ibsectorsOf, ibPerSector]
        omega
      have full : dsiz / lfBlksiz = ibsectorsOf lfiblks + 1 := by
        unfold HasBlocks at lacks
        omega
      have kept := complete.outside _ (Nat.le_refl _)
      rw [no_dblocks full accepted made] at kept
      cases kept
  · intro blocks disk disk' made
    exact complete_of_blocks small accepted blocks made

/-- On every disk that `lfscreate` accepts it makes a complete file system exactly when it is asked
for an index block and a sector is left for data blocks. -/
theorem file_system_complete_iff (lfiblks dsiz : Nat) (small : dsiz < word32)
    (accepted : ibsectorsOf lfiblks ≤ dsiz / lfBlksiz / 2) :
    (∀ disk disk', lfscreate disk lfiblks dsiz = some disk' → Complete lfiblks dsiz disk disk') ↔
      HasBlocks lfiblks dsiz :=
  always_complete_iff small accepted

theorem file_system_complete_iff_small :
    (∀ disk disk', lfscreate disk 3 4096 = some disk' → Complete 3 4096 disk disk') ↔
      HasBlocks 3 4096 :=
  file_system_complete_iff 3 4096 (by decide) (by decide)

/-- One index block on a disk of two sectors -/
theorem file_system_is_not_complete :
    ¬∀ lfiblks dsiz disk disk', dsiz < word32 → lfscreate disk lfiblks dsiz = some disk' →
      Complete lfiblks dsiz disk disk' := by
  intro always
  have blocks := (always_complete_iff (by decide) (by decide)).mp
    fun disk disk' => always 1 1024 disk disk' (by decide)
  exact absurd blocks (by decide)

end Results

end Xinu.Lfs.Formatting
