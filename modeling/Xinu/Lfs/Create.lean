import Xinu.Lfs.Sessions

/-!
# A new file system

The disk that `lfscreate` makes: all index blocks and all data blocks are free, and there is no
file.
-/

namespace Xinu.Lfs.Create

open Xinu.Kernel.State (word32)
open Xinu.Lfs.Device Xinu.Lfs.Accounts Xinu.Lfs.Storage Xinu.Lfs.Setup Xinu.Lfs.Layout
open Xinu.Lfs.Sessions Xinu.Lib.SingleList
open Xinu.Lfs.Open (Distinct)

set_option autoImplicit false

/-- A disk made by `lfscreate`, with an index block and a data block at the least. -/
structure Created (area : Area) (disk : Disk) : Prop where
  made : ∃ blank lfiblks dsiz, 0 < lfiblks ∧ dsiz < word32 ∧
    area.ibsectors = (lfiblks + (ibPerSector - 1)) / ibPerSector ∧ area.dhigh = dsiz / lfBlksiz ∧
    lfscreate blank lfiblks dsiz = some disk
  room : area.ibsectors + 1 < area.dhigh

section Loops

variable {count sector dbindex : Nat} {disk : Disk}

theorem createIblocks_sector (outside : ∀ i < count, sector ≠ ib2sect i) :
    createIblocks count disk sector = disk sector := by
  induction count with
  | zero => rfl
  | succ count ih =>
      rw [createIblocks, lfibput_sector _ _ (outside count (Nat.lt_succ_self count))]
      exact ih fun i below => outside i (Nat.lt_succ_of_lt below)

theorem createIblocks_get {i : Nat} (inside : i < count) :
    lfibget (createIblocks count disk) i = { lfibclear 0 with ibNext := some (i + 1) } := by
  induction count with
  | zero => omega
  | succ count ih =>
      rw [createIblocks]
      rcases Nat.lt_succ_iff_lt_or_eq.mp inside with earlier | rfl
      · rw [lfibget_lfibput_other _ _ (Nat.ne_of_lt earlier)]
        exact ih earlier
      · exact lfibget_lfibput_self _ _ _

theorem createDblocks_below (below : sector < dbindex) :
    createDblocks dbindex count disk sector = disk sector := by
  induction count with
  | zero => rfl
  | succ count ih =>
      rw [createDblocks, Function.update_of_ne (by omega)]
      exact ih

theorem createDblocks_get {i : Nat} (inside : i < count) :
    createDblocks dbindex count disk (dbindex + i) = .dbfree (some (dbindex + i + 1)) := by
  induction count with
  | zero => omega
  | succ count ih =>
      rw [createDblocks]
      rcases Nat.lt_succ_iff_lt_or_eq.mp inside with earlier | rfl
      · rw [Function.update_of_ne (by omega)]
        exact ih earlier
      · exact Function.update_self _ _ _

end Loops

section Disk

variable {area : Area} {disk : Disk}

/-- The three areas of a new disk. -/
theorem created_sectors (created : Created area disk) :
    disk 0 = .directory { zeroDir with lfdDfree := some (area.ibsectors + 1) } ∧
      0 < area.iblocks ∧
      (∀ i < area.iblocks, lfibget disk i =
        { lfibclear 0 with ibNext := if i + 1 < area.iblocks then some (i + 1) else none }) ∧
      ∀ dnum, area.Data dnum →
        disk dnum = .dbfree (if dnum + 1 < area.dhigh then some (dnum + 1) else none) := by
  obtain ⟨⟨blank, lfiblks, dsiz, positive, small, sectors, high, made⟩, room⟩ := created
  have inArea : 0 < area.ibsectors := by
    rw [sectors]
    simp only [ibPerSector]
    omega
  unfold lfscreate at made
  dsimp only at made
  rw [← sectors, ← high] at made
  split_ifs at made with full
  have bound : area.dhigh < word32 := by
    rw [high]
    exact Nat.lt_of_le_of_lt (Nat.div_le_self _ _) small
  have dblks : (word32 + area.dhigh - area.ibsectors - 1) % word32 =
      area.dhigh - area.ibsectors - 1 := by
    have split : word32 + area.dhigh - area.ibsectors - 1 =
        (area.dhigh - area.ibsectors - 1) + word32 := by omega
    rw [split, Nat.add_mod_right, Nat.mod_eq_of_lt (by omega)]
  have last : (word32 + (area.dhigh - area.ibsectors - 1) - 1) % word32 =
      area.dhigh - area.ibsectors - 2 := by
    have split : word32 + (area.dhigh - area.ibsectors - 1) - 1 =
        (area.dhigh - area.ibsectors - 2) + word32 := by omega
    rw [split, Nat.add_mod_right, Nat.mod_eq_of_lt (by omega)]
  rw [dblks, last] at made
  have top : area.ibsectors + 1 + (area.dhigh - area.ibsectors - 2) = area.dhigh - 1 := by omega
  rw [top] at made
  have made := Option.some.inj made
  have blocks : area.ibsectors * ibPerSector = area.iblocks := Nat.mul_comm _ _
  rw [blocks] at made
  have someBlocks : 0 < area.iblocks := by
    simp only [Area.iblocks, ibPerSector]
    omega
  have below : ∀ i < area.iblocks, ib2sect i < area.ibsectors + 1 := fun i inside => by
    simp only [Area.iblocks, ibPerSector] at inside
    simp only [ib2sect, ibPerSector, lfAreaIb]
    omega
  refine ⟨?_, someBlocks, fun i inside => ?_, fun dnum data => ?_⟩
  · rw [← made, Function.update_of_ne (by omega), createDblocks_below (by omega),
      lfibput_sector _ _ (Ne.symm (ib2sect_pos _)),
      createIblocks_sector fun i _ => Ne.symm (ib2sect_pos i)]
    exact Function.update_self _ _ _
  · have low := below i inside
    have placed : disk (ib2sect i) = lfibput (createIblocks (area.iblocks - 1)
        (Function.update blank 0 (.directory { zeroDir with
          lfdDfree := some (area.ibsectors + 1) }))) (area.iblocks - 1) (lfibclear 0)
        (ib2sect i) := by
      rw [← made, Function.update_of_ne (by omega), createDblocks_below low]
    rw [lfibget_congr placed]
    by_cases isLast : i = area.iblocks - 1
    · have ends : ¬i + 1 < area.iblocks := by omega
      rw [isLast, lfibget_lfibput_self, ← isLast, if_neg ends]
      rfl
    · rw [lfibget_lfibput_other _ _ isLast, createIblocks_get (by omega), if_pos (by omega)]
  · obtain ⟨low, highEnd⟩ := data
    rw [← made]
    by_cases isLast : dnum = area.dhigh - 1
    · have ends : ¬dnum + 1 < area.dhigh := by omega
      rw [if_neg ends, isLast, Function.update_self]
    · obtain ⟨i, rfl⟩ : ∃ i, dnum = area.ibsectors + 1 + i :=
        ⟨dnum - (area.ibsectors + 1), by omega⟩
      rw [Function.update_of_ne isLast, createDblocks_get (by omega), if_pos (by omega)]

/-- All blocks are free. -/
def freshLedger (area : Area) : Ledger :=
  { ifree := List.range' 0 area.iblocks
    dfree := List.range' (area.ibsectors + 1) (area.dhigh - area.ibsectors - 1)
    chain := fun _ => []
    slot := fun _ _ => none
    iowner := fun _ => none
    downer := fun _ => none }

theorem sound_fresh (area : Area) : Sound area (freshLedger area) := by
  refine ⟨fun f id => by simp [freshLedger], fun id => ?_, fun f => List.nodup_nil,
    List.nodup_range', List.nodup_range', fun id j dnum => by simp [freshLedger],
    fun dnum => ?_, fun id j dnum held => by cases held⟩
  · simp [freshLedger, List.mem_range'_1]
  · simp only [freshLedger, List.mem_range'_1, Area.Data, and_true]
    omega

/-- A new disk is in order. -/
theorem tidy_created (created : Created area disk) :
    Tidy area (freshLedger area)
      { block := lfibget disk, bytes := fun dnum => (disk dnum).asBytes } (lfsinit disk) := by
  obtain ⟨sector, some_blocks, iblocks, dblocks⟩ := created_sectors created
  have room := created.room
  have dir : (loadDir (lfsinit disk)).lfDir =
      { zeroDir with lfdDfree := some (area.ibsectors + 1) } := by
    change (disk 0).asDir = _
    rw [sector]
    rfl
  have unused : ∀ dev, ((loadDir (lfsinit disk)).lfltab dev).lfstate ≠ .used := fun dev used => by
    cases used
  have none_files : ∀ f, ¬f < (loadDir (lfsinit disk)).lfDir.lfdNfiles := fun f inside => by
    rw [dir] at inside
    exact Nat.not_lt_zero f inside
  refine ⟨⟨sound_fresh area, ?_, fun f inside => absurd inside (none_files f),
    fun f inside => absurd inside (none_files f), fun f _ => rfl,
    fun dev used => absurd used (unused dev), fun dev used => absurd used (unused dev),
    fun dev used => absurd used (unused dev)⟩, ?_, fun dev used => by cases used⟩
  · constructor
    case ihead =>
      rw [dir]
      obtain ⟨n, more⟩ : ∃ n, area.iblocks = n + 1 := ⟨area.iblocks - 1, by omega⟩
      simp [freshLedger, zeroDir, more, List.range'_succ]
    case ilinks =>
      refine follows_range' 0 area.iblocks (fun i _ inside => ?_) fun i ends => ?_
      · change (lfibget disk i).ibNext = _
        rw [iblocks i (by omega)]
        exact if_pos (by omega)
      · change (lfibget disk i).ibNext = _
        rw [iblocks i (by omega)]
        exact if_neg (by omega)
    case dhead =>
      rw [dir]
      obtain ⟨n, more⟩ : ∃ n, area.dhigh - area.ibsectors - 1 = n + 1 :=
        ⟨area.dhigh - area.ibsectors - 2, by omega⟩
      simp [freshLedger, more, List.range'_succ]
    case dlinks =>
      refine follows_range' _ _ (fun i above inside => ?_) fun i ends => ?_
      · change (disk i).asNext = _
        rw [dblocks i ⟨by omega, by omega⟩]
        exact if_pos (by omega)
      · change (disk i).asNext = _
        rw [dblocks i ⟨by omega, by omega⟩]
        exact if_neg (by omega)
    case slots => exact fun f id member => by cases member
    case clean => exact fun _ _ _ => rfl
    case dclean => exact fun _ _ _ taken => by cases taken
    case held => exact fun dev _ used => absurd used (unused dev)
    case dheld => exact fun dev _ used => absurd used (unused dev)
    case distinct => exact fun dev _ used => absurd used (unused dev)
  · exact ⟨_, sector, by rw [dir], fun _ => .inl dir.symm⟩

end Disk

end Xinu.Lfs.Create
