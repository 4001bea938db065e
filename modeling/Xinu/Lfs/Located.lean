import Xinu.Lfs.Layout

/-!
# A position with its blocks

`lfsetup` in front of a read finds the blocks of the position, and in front of a write it finds
them or takes them. The files and the other control blocks stay as they are.
-/

namespace Xinu.Lfs.Located

open Xinu.Lfs.Device Xinu.Lfs.Accounts Xinu.Lfs.Storage Xinu.Lfs.Setup Xinu.Lfs.Position
open Xinu.Lfs.Layout Xinu.Lib.SingleList

set_option autoImplicit false

variable {area : Area} {v v' : Ledger} {im im' : Image} {s s' start found : FileSystem}
  {size size' : Nat → Nat} {dev f k : Nat}

/-- What a setup leaves alone. -/
structure Kindred (dev : Nat) (s s' : FileSystem) : Prop where
  tab : ∀ other, other ≠ dev → s'.lfltab other = s.lfltab other
  control : ∃ iblock inum idirty dnum dblock byte ddirty, s'.lfltab dev = { s.lfltab dev with
    lfiblock := iblock, lfinum := inum, lfibdirty := idirty, lfdnum := dnum, lfdblock := dblock,
    lfbyte := byte, lfdbdirty := ddirty }
  count : s'.lfDir.lfdNfiles = s.lfDir.lfdNfiles
  entries : ∀ g, ∃ ilist, s'.lfDir.lfdFiles g = { s.lfDir.lfdFiles g with ldIlist := ilist }
  present : s'.lfDirpresent = s.lfDirpresent

namespace Kindred

variable (kin : Kindred dev s s')

include kin

theorem sizes : sizes s' = sizes s := funext fun g => by
  obtain ⟨ilist, same⟩ := kin.entries g
  rw [Layout.sizes, Layout.sizes, same]

theorem state : (s'.lfltab dev).lfstate = (s.lfltab dev).lfstate := by
  obtain ⟨_, _, _, _, _, _, _, same⟩ := kin.control
  rw [same]

theorem dirptr : (s'.lfltab dev).lfdirptr = (s.lfltab dev).lfdirptr := by
  obtain ⟨_, _, _, _, _, _, _, same⟩ := kin.control
  rw [same]

theorem pos : (s'.lfltab dev).lfpos = (s.lfltab dev).lfpos := by
  obtain ⟨_, _, _, _, _, _, _, same⟩ := kin.control
  rw [same]

end Kindred

theorem Kindred.mark (kin : Kindred dev s s') : Kindred dev s (markData s' dev) where
  tab := fun other ne => (Function.update_of_ne ne _ _).trans (kin.tab other ne)
  control := by
    obtain ⟨iblock, inum, idirty, dnum, dblock, byte, ddirty, same⟩ := kin.control
    refine ⟨iblock, inum, idirty, dnum, dblock, byte, true, ?_⟩
    rw [markData, same]
    exact Function.update_self _ _ _
  count := kin.count
  entries := kin.entries
  present := kin.present

theorem kindred_found (cleaned : Cleaned area v im s dev start)
    (grows : Grows dev f v im start v' im' found) : Kindred dev s found where
  tab := fun other ne => by
    rw [grows.tab other ne, cleaned.tab, Function.update_of_ne ne]
  control := by
    obtain ⟨iblock, inum, idirty, dnum, same⟩ := grows.control
    rw [cleaned.tab, Function.update_self] at same
    exact ⟨iblock, inum, idirty, dnum, _, _, false, same⟩
  count := by rw [grows.files, cleaned.dir]
  entries := fun g => by
    by_cases isFile : g = f
    · subst isFile
      obtain ⟨ilist, same⟩ := grows.entry_self
      exact ⟨ilist, by rw [same, cleaned.dir]⟩
    · exact ⟨(s.lfDir.lfdFiles g).ldIlist, by rw [grows.entry_other g isFile, cleaned.dir]⟩
  present := grows.present.trans cleaned.present

theorem Kindred.chosen (kin : Kindred dev s found) (chosen : Chosen dev found s') :
    Kindred dev s s' where
  tab := fun other ne => (chosen.tab other ne).trans (kin.tab other ne)
  control := by
    obtain ⟨iblock, idirty, dnum, dblock, byte, ddirty, same⟩ := chosen.control
    obtain ⟨_, inum, _, _, _, _, _, before⟩ := kin.control
    exact ⟨iblock, inum, idirty, dnum, dblock, byte, ddirty, by rw [same, before]⟩
  count := chosen.count.trans kin.count
  entries := fun g => by
    obtain ⟨ilist, same⟩ := kin.entries g
    exact ⟨ilist, by rw [chosen.files, same]⟩
  present := chosen.present.trans kin.present

/-- The files behind a setup, from the one file that it is about. -/
theorem files_of (before : Files area v im s size) (used : (s.lfltab dev).lfstate = .used)
    (isFile : (s.lfltab dev).lfdirptr = f) (sound' : Sound area v')
    (stored' : Stored area none v' im' s') (kin : Kindred dev s s') (file : FileOk v' im' s' f)
    (others : ∀ g < s.lfDir.lfdNfiles, g ≠ f → FileOk v' im' s' g)
    (chain_other : ∀ g, g ≠ f → v'.chain g = v.chain g)
    (slots : ∀ g, g ≠ f → ∀ id ∈ v.chain g, v'.slot id = v.slot id)
    (sized : Sized v' f (size' f)) (size_other : ∀ g, g ≠ f → size' g = size g)
    (upto : (s.lfltab dev).lfpos ≤ size' f)
    (placed : ∃ id dnum, Placed v' (s'.lfltab dev) id dnum) : Files area v' im' s' size' where
  sound := sound'
  stored := stored'
  file := fun g inside => by
    rw [kin.count] at inside
    by_cases same : g = f
    · exact same ▸ file
    · exact others g inside same
  sized := fun g inside => by
    rw [kin.count] at inside
    by_cases same : g = f
    · exact same ▸ sized
    · have old := before.sized g inside
      rw [size_other g same]
      constructor
      · rw [chain_other g same]
        exact old.blocks
      · intro k id j at_ slot_inside
        rw [chain_other g same] at at_
        rw [slots g same id (List.mem_of_getElem? at_)]
        exact old.data k id j at_ slot_inside
  unused := fun g outside => by
    rw [kin.count] at outside
    have other : g ≠ f := fun same => by
      have inside := before.entry dev used
      omega
    rw [chain_other g other]
    exact before.unused g outside
  entry := fun other usedOther => by
    rw [kin.count]
    by_cases same : other = dev
    · rw [same, kin.dirptr]
      exact before.entry dev used
    · rw [kin.tab other same] at usedOther ⊢
      exact before.entry other usedOther
  pos := fun other usedOther => by
    by_cases same : other = dev
    · rw [same, kin.dirptr, kin.pos, isFile]
      exact upto
    · rw [kin.tab other same] at usedOther ⊢
      have apart : (s.lfltab other).lfdirptr ≠ f := fun equal =>
        same (before.stored.distinct other dev usedOther used (equal.trans isFile.symm))
      rw [size_other _ apart]
      exact before.pos other usedOther
  byte := fun other usedOther short => by
    by_cases same : other = dev
    · exact same ▸ placed
    · rw [kin.tab other same] at usedOther short ⊢
      have apart : (s.lfltab other).lfdirptr ≠ f := fun equal =>
        same (before.stored.distinct other dev usedOther used (equal.trans isFile.symm))
      obtain ⟨id, dnum, old⟩ := before.byte other usedOther short
      refine ⟨id, dnum, ?_, old.inum, ?_, old.dnum, old.byte⟩
      · rw [chain_other _ apart]
        exact old.at_
      · rw [slots _ apart id (List.mem_of_getElem? old.at_)]
        exact old.slot

section Setup

/-- The chain does not grow in front of a position that has its index block. -/
theorem grows_none (grows : Grows dev f v im start v' im' found)
    (bound : (v'.chain f).length ≤ max (v.chain f).length (k + 1)) (inside : k < (v.chain f).length) :
    v'.chain f = v.chain f ∧ (v'.chain f).length = (v.chain f).length := by
  have longer := grows.chain_self.length_le
  have same : (v'.chain f).length = (v.chain f).length := by omega
  exact ⟨grows.same_chain same, same⟩

theorem Kept.of_eq (kept : Kept s) (dir : s'.lfDir = s.lfDir) (sector : s'.disk 0 = s.disk 0)
    (flag : s'.lfDirdirty = s.lfDirdirty) : Kept s' := by
  unfold Kept
  rw [dir, sector, flag]
  exact kept

/-- What a setup does for a position that has its blocks. -/
theorem lfsetup_old (before : Files area v im s size)
    (used : (s.lfltab dev).lfstate = .used) (cleaned : Cleaned area v im s dev start)
    (searched : Searched area v' im' found dev (s.lfltab dev).lfdirptr
      ((s.lfltab dev).lfpos / lfIdata))
    (grows : Grows dev (s.lfltab dev).lfdirptr v im start v' im' found)
    (bound : (v'.chain (s.lfltab dev).lfdirptr).length ≤
      max (v.chain (s.lfltab dev).lfdirptr).length ((s.lfltab dev).lfpos / lfIdata + 1))
    (done : setupData found dev = some s') {id dnum : Nat}
    (has : (found.lfltab dev).lfinum = some id)
    (taken : v.slot id ((s.lfltab dev).lfpos % lfIdata / lfBlksiz) = some dnum) :
    Files area v' im' s' size ∧ Placed v' (s'.lfltab dev) id dnum ∧ Kindred dev s s' ∧
      (Kept s → Kept s') := by
  have kinFound := kindred_found cleaned grows
  rw [← kinFound.pos] at searched taken
  rw [← grows.slot] at taken
  obtain ⟨stored', placed, chosen, dir, disk, flag⟩ := setupData_old searched has taken done
  have kin := kinFound.chosen chosen
  have at_ := (searched_next searched has).1
  rw [kinFound.pos] at at_
  have inside : (s.lfltab dev).lfpos / lfIdata < (v.chain (s.lfltab dev).lfdirptr).length := by
    by_contra outside
    rw [grows.slot] at taken
    cases (grows.new_empty searched.sound before.sound at_ (by omega) _).symm.trans taken
  obtain ⟨same, sameLength⟩ := grows_none grows bound inside
  obtain ⟨dirFound, sector, flagFound⟩ := grows.quiet sameLength
  have reached := before.sized _ (before.entry dev used)
  refine ⟨?_, placed, kin, fun kept => ?_⟩
  · refine files_of before used rfl searched.sound stored' kin ⟨?_, ?_, ?_⟩ ?_ grows.chain_other
      (fun _ _ id _ => congrFun grows.slot id) ⟨?_, ?_⟩ (fun _ _ => rfl) (before.pos dev used)
      ⟨id, dnum, placed⟩
    · rw [dir]
      exact searched.file.head
    · exact searched.file.links
    · exact searched.file.offset
    · intro g inside apart
      have old := grows.fileOk_other apart ((before.file g inside).of_entry (by rw [cleaned.dir]))
      exact old.of_entry (by rw [dir])
    · rw [same]
      exact reached.blocks
    · rw [same, grows.slot]
      exact reached.data
  · exact Kept.of_eq (cleaned.kept kept) (dir.trans dirFound) (by rw [disk, sector])
      (flag.trans flagFound)

theorem lfsetup_get (before : Files area v im s size) (used : (s.lfltab dev).lfstate = .used)
    (inside : (s.lfltab dev).lfpos < size (s.lfltab dev).lfdirptr)
    (done : lfsetup s dev = some s') :
    ∃ v' im' id dnum, Files area v' im' s' size ∧ Placed v' (s'.lfltab dev) id dnum ∧
      Kindred dev s s' ∧ (∀ g p, byteAt v' im' g p = byteAt v im g p) ∧ (Kept s → Kept s') := by
  obtain ⟨start, found, v', im', cleaned, searched, grows, bound, chosen⟩ :=
    lfsetup_search before used done
  obtain ⟨id, dnum, at_, taken⟩ := sized_at (before.sized _ (before.entry dev used)) inside
  obtain ⟨id', at_', has⟩ := searched.at_
  rw [grows.getElem?_old (List.getElem?_eq_some_iff.mp at_).1, at_] at at_'
  obtain rfl := Option.some.inj at_'
  obtain ⟨files, placed, kin, kept⟩ := lfsetup_old before used cleaned searched grows bound chosen
    has taken
  exact ⟨v', im', id, dnum, files, placed, kin,
    grows.byteAt_eq searched.sound before.sound, kept⟩

/-- A file whose size is raised for the byte that is about to be written. -/
def raise (size : Nat → Nat) (f pos : Nat) : Nat → Nat :=
  Function.update size f (max (size f) (pos + 1))

/-- The block of a position counts as changed, and the size as raised. -/
theorem files_mark (before : Files area v im s size) (used : (s.lfltab dev).lfstate = .used)
    {id dnum : Nat} (placed : Placed v (s.lfltab dev) id dnum) :
    Files area v im (markData s dev)
      (raise size (s.lfltab dev).lfdirptr (s.lfltab dev).lfpos) := by
  have self : (markData s dev).lfltab dev = { s.lfltab dev with lfdbdirty := true } :=
    Function.update_self _ _ _
  have marked : Kindred dev s (markData s dev) := by
    refine ⟨fun other ne => Function.update_of_ne ne _ _, ⟨_, _, _, _, _, _, _, self⟩, rfl,
      fun g => ⟨_, rfl⟩, rfl⟩
  refine files_of before used rfl before.sound ?_ marked
    ((before.file _ (before.entry dev used)).of_entry rfl)
    (fun g inside _ => (before.file g inside).of_entry rfl)
    (fun _ _ => rfl) (fun _ _ _ _ => rfl) ?_ (fun g apart => Function.update_of_ne apart _ _) ?_ ?_
  · exact stored_relabel before.sound before.stored _ rfl rfl rfl rfl rfl rfl
      (fun other dirty => .inl dirty) fun d dirty => .inl ⟨dirty.1, rfl, dirty.2.2⟩
  · rw [raise, Function.update_self]
    exact sized_extend (before.sized _ (before.entry dev used)) (before.pos dev used) placed.at_
      placed.slot
  · rw [raise, Function.update_self]
    omega
  · rw [self]
    exact ⟨id, dnum, placed.at_, placed.inum, placed.slot, placed.dnum, placed.byte⟩

/-- The size that a new block makes room for. -/
theorem sized_fill (sound : Sound area v) {pos id dnum : Nat} (sized : Sized v f pos)
    (grows : Grows dev f v im start v' im' found) (sound' : Sound area v')
    (bound : (v'.chain f).length ≤ max (v.chain f).length (pos / lfIdata + 1))
    (at_ : (v'.chain f)[pos / lfIdata]? = some id)
    (empty : v'.slot id (pos % lfIdata / lfBlksiz) = none) :
    Sized (v'.fill id (pos % lfIdata / lfBlksiz) dnum) f (pos + 1) := by
  have reach : pos / lfIdata < (v'.chain f).length := (List.getElem?_eq_some_iff.mp at_).1
  have short : (v.chain f).length ≤ pos / lfIdata + 1 := by
    by_contra long
    have := (sized.blocks (pos / lfIdata + 1)).mp (by omega)
    simp only [lfIdata] at this
    omega
  have length : (v'.chain f).length = pos / lfIdata + 1 := by
    generalize pos / lfIdata = place at *
    omega
  constructor
  · intro k
    change k < (v'.chain f).length ↔ _
    rw [length]
    simp only [lfIdata]
    omega
  · intro k id' j at_' inside
    change (v'.chain f)[k]? = some id' at at_'
    have place : k < pos / lfIdata + 1 := length ▸ (List.getElem?_eq_some_iff.mp at_').1
    simp only [Ledger.fill, slot_update]
    by_cases here : id' = id ∧ j = pos % lfIdata / lfBlksiz
    · obtain ⟨rfl, rfl⟩ := here
      have same : k = pos / lfIdata :=
        (List.getElem?_inj (List.getElem?_eq_some_iff.mp at_').1 (sound'.chain_nodup f)).mp
          (at_'.trans at_.symm)
      simp only [and_self, if_true, Option.isSome_some, true_iff, same]
      simp only [lfIdata, lfBlksiz]
      omega
    · rw [if_neg here]
      have elsewhere : ¬(k = pos / lfIdata ∧ j = pos % lfIdata / lfBlksiz) := fun both => by
        rw [both.1, at_] at at_'
        exact here ⟨(Option.some.inj at_').symm, both.2⟩
      rcases Nat.lt_or_ge k (v.chain f).length with old | new
      · rw [grows.getElem?_old old] at at_'
        rw [grows.slot, sized.data k id' j at_' inside]
        simp only [lfIdata, lfBlksiz, lfIblen] at elsewhere inside ⊢
        omega
      · have none_taken := grows.new_empty sound' sound at_' new j
        have beyond : pos ≤ lfIdata * k := Nat.not_lt.mp fun less =>
          absurd ((sized.blocks k).mpr less) (by omega)
        rw [grows.slot, none_taken]
        simp only [Option.isSome_none, Bool.false_eq_true, false_iff]
        simp only [lfIdata, lfBlksiz] at elsewhere beyond place ⊢
        omega

/-- What a setup does for a position at the end of the file whose block is new. -/
theorem lfsetup_new (before : Files area v im s size)
    (used : (s.lfltab dev).lfstate = .used) (cleaned : Cleaned area v im s dev start)
    (searched : Searched area v' im' found dev (s.lfltab dev).lfdirptr
      ((s.lfltab dev).lfpos / lfIdata))
    (grows : Grows dev (s.lfltab dev).lfdirptr v im start v' im' found)
    (bound : (v'.chain (s.lfltab dev).lfdirptr).length ≤
      max (v.chain (s.lfltab dev).lfdirptr).length ((s.lfltab dev).lfpos / lfIdata + 1))
    (done : setupData found dev = some s') {id : Nat}
    (has : (found.lfltab dev).lfinum = some id)
    (empty : v'.slot id ((s.lfltab dev).lfpos % lfIdata / lfBlksiz) = none)
    (atEnd : (s.lfltab dev).lfpos = size (s.lfltab dev).lfdirptr) :
    ∃ v'' im'' dnum, Files area v'' im'' (markData s' dev)
        (raise size (s.lfltab dev).lfdirptr (s.lfltab dev).lfpos) ∧
      Placed v'' (s'.lfltab dev) id dnum ∧ Kindred dev s s' ∧
      (∀ g pos, g < s.lfDir.lfdNfiles → pos < size g →
        byteAt v'' im'' g pos = byteAt v im g pos) ∧
      (Kept s → Backed s') := by
  have kinFound := kindred_found cleaned grows
  have at_ := (searched_next searched has).1
  have searched' := searched
  rw [← kinFound.pos] at searched' empty
  obtain ⟨dnum, im'', free, stored', placed, chosen, blocks, next, offset, bytes⟩ :=
    setupData_new searched' has empty done
  rw [kinFound.pos] at empty stored' placed
  have kin := kinFound.chosen chosen
  have member : id ∈ v'.chain (s.lfltab dev).lfdirptr := List.mem_of_getElem? at_
  have sound'' := sound_fill searched.sound free empty (dindex_lt _) member
  have oldFiles : ∀ g < s.lfDir.lfdNfiles, FileOk v im start g := fun g inside =>
    (before.file g inside).of_entry (by rw [cleaned.dir])
  refine ⟨_, im'', dnum, ?_, placed, kin, ?_, ?_⟩
  · refine files_of before used rfl sound'' stored' kin.mark ⟨?_, ?_, ?_⟩ ?_ ?_ ?_ ?_
      (fun g apart => Function.update_of_ne apart _ _) ?_ ?_
    · have head := searched.file.head
      rw [← chosen.files] at head
      exact head
    · refine follows_congr searched.file.links fun other _ => ?_
      by_cases same : other = id
      · rw [same, next]
      · rw [blocks other same]
    · intro place other placedOther
      have old := searched.file.offset place other placedOther
      by_cases same : other = id
      · rw [same, offset, ← same, old]
      · rw [blocks other same, old]
    · intro g inside apart
      have ok := grows.fileOk_other apart (oldFiles g inside)
      have otherBlocks : ∀ other ∈ v'.chain g, im''.block other = im'.block other :=
        fun other chained => blocks other fun same =>
          apart (searched.sound.chain_unique (same ▸ chained) member)
      refine ⟨?_, follows_congr ok.links fun other chained => by rw [otherBlocks other chained],
        fun place other placedOther => ?_⟩
      · have head := ok.head
        rw [← chosen.files] at head
        exact head
      · rw [otherBlocks other (List.mem_of_getElem? placedOther)]
        exact ok.offset place other placedOther
    · exact fun g apart => grows.chain_other g apart
    · intro g apart other chained
      have ne : other ≠ id := fun same => by
        rw [← grows.chain_other g apart] at chained
        exact apart (searched.sound.chain_unique (same ▸ chained) member)
      funext j
      simp [Ledger.fill, ne, grows.slot]
    · rw [raise, Function.update_self, ← atEnd, Nat.max_eq_right (Nat.le_succ _)]
      exact sized_fill before.sound (atEnd ▸ before.sized _ (before.entry dev used)) grows
        searched.sound bound at_ empty
    · rw [raise, Function.update_self]
      omega
    · refine ⟨id, dnum, ?_⟩
      have self : (markData s' dev).lfltab dev = { s'.lfltab dev with lfdbdirty := true } :=
        Function.update_self _ _ _
      rw [self]
      exact ⟨placed.at_, placed.inum, placed.slot, placed.dnum, placed.byte⟩
  · intro g pos inside short
    obtain ⟨id', dnum', at_', taken'⟩ := sized_at (before.sized g inside) short
    have kept : ((v'.fill id ((s.lfltab dev).lfpos % lfIdata / lfBlksiz) dnum).chain g)[
        pos / lfIdata]? = some id' := by
      change (v'.chain g)[pos / lfIdata]? = some id'
      by_cases same : g = (s.lfltab dev).lfdirptr
      · subst same
        rw [grows.getElem?_old (List.getElem?_eq_some_iff.mp at_').1, at_']
      · rw [grows.chain_other g same, at_']
    have taken'' := taken'
    rw [← grows.slot] at taken''
    have other : dnum' ≠ dnum := fun same =>
      searched.sound.slot_not_free taken'' (same ▸ free ▸ List.mem_cons_self)
    simp only [byteAt, kept, at_', slot_fill_of empty taken'', taken']
    rw [bytes dnum' other, grows.bytes]
  · exact fun kept => chosen.backed (grows.backed (cleaned.kept kept).backed)

theorem lfsetup_put (before : Files area v im s size) (used : (s.lfltab dev).lfstate = .used)
    (done : lfsetup s dev = some s') :
    ∃ v' im' id dnum, Files area v' im' (markData s' dev)
        (raise size (s.lfltab dev).lfdirptr (s.lfltab dev).lfpos) ∧
      Placed v' (s'.lfltab dev) id dnum ∧ Kindred dev s s' ∧
      (∀ g pos, g < s.lfDir.lfdNfiles → pos < size g →
        byteAt v' im' g pos = byteAt v im g pos) ∧
      (Kept s → Backed s') ∧
      ((s.lfltab dev).lfpos < size (s.lfltab dev).lfdirptr → Kept s → Kept s') := by
  obtain ⟨start, found, v', im', cleaned, searched, grows, bound, chosen⟩ :=
    lfsetup_search before used done
  obtain ⟨id, at_, has⟩ := searched.at_
  cases taken : v'.slot id ((s.lfltab dev).lfpos % lfIdata / lfBlksiz) with
  | some dnum =>
      have taken' := taken
      rw [grows.slot] at taken'
      obtain ⟨files, placed, kin, kept⟩ := lfsetup_old before used cleaned searched grows bound
        chosen has taken'
      have marked := files_mark files (kin.state.trans used) placed
      rw [kin.dirptr, kin.pos] at marked
      exact ⟨v', im', id, dnum, marked, placed, kin,
        fun g pos _ _ => grows.byteAt_eq searched.sound before.sound g pos,
        fun old => (kept old).backed, fun _ => kept⟩
  | none =>
      have notInside : ¬(s.lfltab dev).lfpos < size (s.lfltab dev).lfdirptr := fun inside => by
        obtain ⟨id', dnum, at_', taken'⟩ := sized_at (before.sized _ (before.entry dev used)) inside
        rw [grows.getElem?_old (List.getElem?_eq_some_iff.mp at_').1, at_'] at at_
        obtain rfl := Option.some.inj at_
        rw [grows.slot, taken'] at taken
        cases taken
      have atEnd := Nat.le_antisymm (before.pos dev used) (Nat.not_lt.mp notInside)
      obtain ⟨v'', im'', dnum, files, placed, kin, bytes, backed⟩ := lfsetup_new before used
        cleaned searched grows bound chosen has taken atEnd
      exact ⟨v'', im'', id, dnum, files, placed, kin, bytes, backed,
        fun inside => absurd inside notInside⟩

end Setup

end Xinu.Lfs.Located
