import Xinu.Lfs.Storage

/-!
# Setting up the blocks of a position

A flush, the search for the index block of a position and the choice of its data block. The chain
of the file only grows behind its end, and the blocks of the other files stay as they are.
-/

namespace Xinu.Lfs.Setup

open Xinu.Lfs.Device Xinu.Lfs.Accounts Xinu.Lfs.Storage Xinu.Lib.SingleList
open Xinu.Lfs.Open (Distinct)

set_option autoImplicit false

/-- The chain of a file as its entry and its index blocks have it. -/
structure FileOk (v : Ledger) (im : Image) (s : FileSystem) (f : Nat) : Prop where
  head : (s.lfDir.lfdFiles f).ldIlist = (v.chain f).head?
  links : Follows (fun id => (im.block id).ibNext) (v.chain f) none
  offset : ∀ k id, (v.chain f)[k]? = some id → (im.block id).ibOffset = lfIdata * k

theorem FileOk.of_entry {v : Ledger} {im : Image} {s s' : FileSystem} {f : Nat}
    (ok : FileOk v im s f) (same : s'.lfDir.lfdFiles f = s.lfDir.lfdFiles f) : FileOk v im s' f :=
  ⟨by rw [same]; exact ok.head, ok.links, ok.offset⟩

/-- The byte of a file at a position. -/
def byteAt (v : Ledger) (im : Image) (f pos : Nat) : Byte :=
  match (v.chain f)[pos / lfIdata]? with
  | none => 0
  | some id =>
      match v.slot id (pos % lfIdata / lfBlksiz) with
      | none => 0
      | some dnum => im.bytes dnum (pos % lfBlksiz)

/-- The directory sector has a directory with no more files than the one in memory. -/
def Backed (s : FileSystem) : Prop :=
  ∃ dir, s.disk 0 = .directory dir ∧ dir.lfdNfiles ≤ s.lfDir.lfdNfiles

variable {area : Area} {v v' v'' : Ledger} {im im' im'' : Image} {s s' s'' : FileSystem}
  {dev f k : Nat}

section Flush

theorem not_iDirty {lfptr : Lflcblk} (clean : lfptr.lfibdirty = false) (id : Nat) :
    ¬IDirty lfptr id := fun dirty => by
  cases clean.symm.trans dirty.2.1

theorem not_dDirty {lfptr : Lflcblk} (written : lfptr.lfdbdirty = false) (dnum : Nat) :
    ¬DDirty lfptr dnum := fun dirty => by
  cases written.symm.trans dirty.2.1

theorem ne_dirty_of_apart (sound : Sound area v) (before : Stored area none v im s)
    (used : (s.lfltab dev).lfstate = .used) {id : Nat}
    (chained : id ∈ v.chain (s.lfltab dev).lfdirptr) (clean : (s.lfltab dev).lfibdirty = false)
    (other : Nat) : ¬IDirty (s.lfltab other) id := fun ⟨usedOther, dirty, has⟩ => by
  have same := before.distinct other dev usedOther used
    (sound.chain_unique (before.held other id usedOther has).1 chained)
  rw [same, clean] at dirty
  cases dirty

theorem ne_ddirty_of_apart (sound : Sound area v) (before : Stored area none v im s)
    (used : (s.lfltab dev).lfstate = .used) {id j dnum : Nat}
    (chained : id ∈ v.chain (s.lfltab dev).lfdirptr) (taken : v.slot id j = some dnum)
    (clean : (s.lfltab dev).lfdbdirty = false) (other : Nat) :
    ¬DDirty (s.lfltab other) dnum := fun ⟨usedOther, dirty, has⟩ => by
  obtain ⟨⟨id', j', chainedOther, takenOther⟩, -⟩ := before.dheld other dnum usedOther has
  obtain ⟨rfl, -⟩ := sound.slot_unique taken takenOther
  have same := before.distinct other dev usedOther used
    (sound.chain_unique chainedOther chained)
  rw [same, clean] at dirty
  cases dirty

/-- The control block changes in what its blocks do not depend on. -/
theorem stored_relabel (sound : Sound area v) (before : Stored area none v im s) (p : Lflcblk)
    (state : p.lfstate = (s.lfltab dev).lfstate) (dirptr : p.lfdirptr = (s.lfltab dev).lfdirptr)
    (inum : p.lfinum = (s.lfltab dev).lfinum) (iblock : p.lfiblock = (s.lfltab dev).lfiblock)
    (dnum : p.lfdnum = (s.lfltab dev).lfdnum) (dblock : p.lfdblock = (s.lfltab dev).lfdblock)
    (clean : ∀ id, IDirty (s.lfltab dev) id → IDirty p id ∨ lfibget s.disk id = im.block id)
    (dclean : ∀ dnum, DDirty (s.lfltab dev) dnum →
      DDirty p dnum ∨ (s.disk dnum).asBytes = im.bytes dnum) :
    Stored area none v im (s.setDev dev p) := by
  refine stored_setDev sound before dev p im ?_ ?_ ?_ before.slots (fun _ => .inl rfl)
    (fun _ => .inl rfl) clean dclean
  · intro used other ne usedOther equal
    exact ne (before.distinct other dev usedOther (state ▸ used) (equal.trans dirptr))
  · intro id used has
    rw [dirptr, iblock]
    exact before.held dev id (state ▸ used) (inum ▸ has)
  · intro d used has
    rw [dirptr, dblock]
    exact before.dheld dev d (state ▸ used) (dnum ▸ has)

theorem stored_flushDir (sound : Sound area v) (before : Stored area none v im s) :
    Stored area none v im (flushDir s) := by
  refine stored_frame sound before (by rw [flushDir_lfDir]) (by rw [flushDir_lfDir])
    (fun sector ne => ?_) (flushDir_lfltab s)
  rw [flushDir]
  split_ifs
  · exact Function.update_of_ne ne _ _
  · rfl

theorem stored_flushData (sound : Sound area v) (before : Stored area none v im s)
    (used : (s.lfltab dev).lfstate = .used) :
    Stored area none v im (flushData s dev) ∧ (flushData s dev).disk 0 = s.disk 0 := by
  unfold flushData
  dsimp only
  split
  · rename_i dnum dirty has
    obtain ⟨⟨id, j, -, taken⟩, block⟩ := before.dheld dev dnum used has
    have pos := data_pos (sound.slot_data taken)
    have written := stored_writeData sound before taken
    rw [block] at written
    refine ⟨?_, Function.update_of_ne (Ne.symm pos) _ _⟩
    refine stored_relabel sound written _ rfl rfl rfl rfl rfl rfl
      (fun id dirty => .inl dirty) fun d isDirty => .inr ?_
    obtain rfl : dnum = d := Option.some.inj (has.symm.trans isDirty.2.2)
    simp [FileSystem.write, Sector.asBytes, block]
  · rename_i clean
    refine ⟨stored_relabel sound before _ rfl rfl rfl rfl rfl rfl (fun id dirty => .inl dirty)
      fun d isDirty => ?_, rfl⟩
    exact absurd isDirty.2.2 (clean d isDirty.2.1)

theorem stored_flushIndex (sound : Sound area v) (before : Stored area none v im s)
    (used : (s.lfltab dev).lfstate = .used) :
    Stored area none v im (flushIndex s dev) ∧ (flushIndex s dev).disk 0 = s.disk 0 := by
  unfold flushIndex
  dsimp only
  split
  · rename_i inum dirty has
    obtain ⟨chained, block⟩ := before.held dev inum used has
    refine ⟨?_, lfibput_sector s.disk (s.lfltab dev).lfiblock (Ne.symm (ib2sect_pos inum))⟩
    have put := @stored_putIblock _ _ none _ _ _ sound before _ _ (s.lfltab dev).lfiblock chained
      (fun other usedOther hasOther => by
        have same := before.distinct other dev usedOther used
          (sound.chain_unique (before.held other inum usedOther hasOther).1 chained)
        rw [same])
      (fun j inside => by rw [← block]; exact before.slots _ inum chained (by simp) j inside)
      (fun _ _ _ => by simp)
    rw [← block, Function.update_eq_self, block] at put
    refine stored_relabel sound put _ rfl rfl rfl rfl rfl rfl (fun id isDirty => .inr ?_)
      fun d dirty => .inl dirty
    obtain rfl : inum = id := Option.some.inj (has.symm.trans isDirty.2.2)
    rw [block]
    exact lfibget_lfibput_self s.disk inum _
  · rename_i clean
    refine ⟨stored_relabel sound before _ rfl rfl rfl rfl rfl rfl (fun id isDirty => ?_)
      fun d dirty => .inl dirty, rfl⟩
    exact absurd isDirty.2.2 (clean id isDirty.2.1)

/-- What a flush leaves. -/
structure Flushed (area : Area) (v : Ledger) (im : Image) (s : FileSystem) (dev : Nat)
    (s' : FileSystem) : Prop where
  stored : Stored area none v im s'
  tab : s'.lfltab = Function.update s.lfltab dev
    { s.lfltab dev with lfdbdirty := false, lfibdirty := false }
  dir : s'.lfDir = s.lfDir
  present : s'.lfDirpresent = s.lfDirpresent
  sector : s'.disk 0 = if s.lfDirdirty = true then .directory s.lfDir else s.disk 0
  written : s'.lfDirdirty = false

theorem flushed_lfflush (sound : Sound area v) (before : Stored area none v im s)
    (used : (s.lfltab dev).lfstate = .used) : Flushed area v im s dev (lfflush s dev) := by
  have first := stored_flushDir sound before
  have usedFirst : ((flushDir s).lfltab dev).lfstate = .used := by rwa [flushDir_lfltab]
  obtain ⟨second, sectorData⟩ := stored_flushData sound first usedFirst
  have usedSecond : ((flushData (flushDir s) dev).lfltab dev).lfstate = .used := by
    obtain ⟨disk, equal⟩ := flushData_eq (flushDir s) dev
    rw [equal]
    simpa using usedFirst
  obtain ⟨third, sectorIndex⟩ := stored_flushIndex sound second usedSecond
  have steps : lfflush s dev = flushIndex (flushData (flushDir s) dev) dev := by
    rw [lfflush, if_neg (by simp [used])]
  obtain ⟨disk, equal⟩ := lfflush_eq s dev used
  refine ⟨steps ▸ third, by rw [equal], by rw [equal], by rw [equal], ?_, by rw [equal]⟩
  rw [steps, sectorIndex, sectorData, flushDir]
  split_ifs
  · exact Function.update_self 0 (Sector.directory s.lfDir) s.disk
  · rfl

end Flush

section Relation

/-- What the search for an index block changes: the chain of one file may grow. -/
structure Grows (dev f : Nat) (v : Ledger) (im : Image) (s : FileSystem) (v' : Ledger) (im' : Image)
    (s' : FileSystem) : Prop where
  chain_other : ∀ g, g ≠ f → v'.chain g = v.chain g
  chain_self : v.chain f <+: v'.chain f
  slot : v'.slot = v.slot
  dfree : v'.dfree = v.dfree
  bytes : im'.bytes = im.bytes
  block : ∀ g, g ≠ f → ∀ id ∈ v.chain g, im'.block id = im.block id
  tab : ∀ other, other ≠ dev → s'.lfltab other = s.lfltab other
  control : ∃ iblock inum dirty dnum, s'.lfltab dev = { s.lfltab dev with
    lfiblock := iblock, lfinum := inum, lfibdirty := dirty, lfdnum := dnum }
  files : s'.lfDir.lfdNfiles = s.lfDir.lfdNfiles
  entry_other : ∀ g, g ≠ f → s'.lfDir.lfdFiles g = s.lfDir.lfdFiles g
  entry_self : ∃ ilist, s'.lfDir.lfdFiles f = { s.lfDir.lfdFiles f with ldIlist := ilist }
  present : s'.lfDirpresent = s.lfDirpresent
  backed : Backed s → Backed s'
  quiet : (v'.chain f).length = (v.chain f).length →
    s'.lfDir = s.lfDir ∧ s'.disk 0 = s.disk 0 ∧ s'.lfDirdirty = s.lfDirdirty

theorem Grows.refl (dev f : Nat) (v : Ledger) (im : Image) (s : FileSystem) :
    Grows dev f v im s v im s where
  chain_other := fun _ _ => rfl
  chain_self := List.prefix_rfl
  slot := rfl
  dfree := rfl
  bytes := rfl
  block := fun _ _ _ _ => rfl
  tab := fun _ _ => rfl
  control := ⟨_, _, _, _, rfl⟩
  files := rfl
  entry_other := fun _ _ => rfl
  entry_self := ⟨_, rfl⟩
  present := rfl
  backed := id
  quiet := fun _ => ⟨rfl, rfl, rfl⟩

theorem Grows.trans (first : Grows dev f v im s v' im' s')
    (second : Grows dev f v' im' s' v'' im'' s'') : Grows dev f v im s v'' im'' s'' where
  chain_other := fun g ne => (second.chain_other g ne).trans (first.chain_other g ne)
  chain_self := first.chain_self.trans second.chain_self
  slot := second.slot.trans first.slot
  dfree := second.dfree.trans first.dfree
  bytes := second.bytes.trans first.bytes
  block := fun g ne id member =>
    (second.block g ne id ((first.chain_other g ne).symm ▸ member)).trans (first.block g ne id member)
  tab := fun other ne => (second.tab other ne).trans (first.tab other ne)
  control := by
    obtain ⟨iblock, inum, dirty, dnum, same⟩ := second.control
    obtain ⟨iblock', inum', dirty', dnum', same'⟩ := first.control
    exact ⟨iblock, inum, dirty, dnum, by rw [same, same']⟩
  files := second.files.trans first.files
  entry_other := fun g ne => (second.entry_other g ne).trans (first.entry_other g ne)
  entry_self := by
    obtain ⟨ilist, same⟩ := second.entry_self
    obtain ⟨ilist', same'⟩ := first.entry_self
    exact ⟨ilist, by rw [same, same']⟩
  present := second.present.trans first.present
  backed := second.backed ∘ first.backed
  quiet := fun same => by
    have shorter := first.chain_self.length_le
    have longer := second.chain_self.length_le
    obtain ⟨dir, sector, flag⟩ := first.quiet (by omega)
    obtain ⟨dir', sector', flag'⟩ := second.quiet (by omega)
    exact ⟨dir'.trans dir, sector'.trans sector, flag'.trans flag⟩

theorem Grows.same_chain (grows : Grows dev f v im s v' im' s')
    (same : (v'.chain f).length = (v.chain f).length) : v'.chain f = v.chain f :=
  (grows.chain_self.eq_of_length same.symm).symm

theorem Grows.fileOk_other (grows : Grows dev f v im s v' im' s') {g : Nat} (ne : g ≠ f)
    (ok : FileOk v im s g) : FileOk v' im' s' g where
  head := by rw [grows.entry_other g ne, grows.chain_other g ne, ok.head]
  links := by
    rw [grows.chain_other g ne]
    exact follows_congr ok.links fun id member => by rw [grows.block g ne id member]
  offset := fun k id at_ => by
    rw [grows.chain_other g ne] at at_
    rw [grows.block g ne id (List.mem_of_getElem? at_)]
    exact ok.offset k id at_

/-- The index blocks behind the old end of the chain have no data blocks. -/
theorem Grows.new_empty (grows : Grows dev f v im s v' im' s') (sound' : Sound area v')
    (sound : Sound area v) {k id : Nat} (at_ : (v'.chain f)[k]? = some id)
    (outside : (v.chain f).length ≤ k) (j : Nat) : v.slot id j = none := by
  obtain ⟨new, chain⟩ := grows.chain_self
  by_contra taken
  obtain ⟨dnum, held⟩ := Option.ne_none_iff_exists'.mp taken
  obtain ⟨-, owner, member⟩ := sound.owned id j dnum held
  have member' : id ∈ v'.chain owner := by
    by_cases isFile : owner = f
    · rw [isFile, ← chain]
      exact List.mem_append_left new (isFile ▸ member)
    · rw [grows.chain_other owner isFile]
      exact member
  obtain rfl := sound'.chain_unique member' (List.mem_of_getElem? at_)
  obtain ⟨place, placed⟩ := List.mem_iff_getElem?.mp member
  have inside := (List.getElem?_eq_some_iff.mp placed).1
  have again : (v'.chain owner)[place]? = some id := by
    rw [← chain, List.getElem?_append_left inside, placed]
  have equal : place = k :=
    (List.getElem?_inj (List.getElem?_eq_some_iff.mp again).1 (sound'.chain_nodup owner)).mp
      (again.trans at_.symm)
  omega

theorem Grows.getElem?_old (grows : Grows dev f v im s v' im' s') {k : Nat}
    (inside : k < (v.chain f).length) : (v'.chain f)[k]? = (v.chain f)[k]? := by
  obtain ⟨new, chain⟩ := grows.chain_self
  rw [← chain, List.getElem?_append_left inside]

/-- The bytes stay where they are when the chain grows. -/
theorem Grows.byteAt_eq (grows : Grows dev f v im s v' im' s') (sound' : Sound area v')
    (sound : Sound area v) (g pos : Nat) : byteAt v' im' g pos = byteAt v im g pos := by
  unfold byteAt
  rw [grows.slot, grows.bytes]
  by_cases same : g = f
  · subst same
    rcases Nat.lt_or_ge (pos / lfIdata) (v.chain g).length with inside | outside
    · rw [grows.getElem?_old inside]
    · rw [List.getElem?_eq_none_iff.mpr outside]
      cases now : (v'.chain g)[pos / lfIdata]? with
      | none => rfl
      | some id => simp [grows.new_empty sound' sound now outside]
  · rw [grows.chain_other g same]

end Relation

section Search

/-- The control block has the index block at place `k` of the chain. -/
structure Searched (area : Area) (v : Ledger) (im : Image) (s : FileSystem) (dev f k : Nat) :
    Prop where
  sound : Sound area v
  stored : Stored area none v im s
  file : FileOk v im s f
  used : (s.lfltab dev).lfstate = .used
  dirptr : (s.lfltab dev).lfdirptr = f
  at_ : ∃ id, (v.chain f)[k]? = some id ∧ (s.lfltab dev).lfinum = some id
  written : (s.lfltab dev).lfdbdirty = false
  last : (s.lfltab dev).lfibdirty = true → (v.chain f).length = k + 1

/-- The control block reads the index block at another place of the chain. -/
theorem searched_load (sound : Sound area v) (before : Stored area none v im s)
    (file : FileOk v im s f) (used : (s.lfltab dev).lfstate = .used)
    (dirptr : (s.lfltab dev).lfdirptr = f) (written : (s.lfltab dev).lfdbdirty = false)
    (clean : (s.lfltab dev).lfibdirty = false) {id : Nat} (at_ : (v.chain f)[k]? = some id)
    (dnum : Option Nat) (same_dnum : dnum = none ∨ dnum = (s.lfltab dev).lfdnum)
    (result : s' = s.setDev dev { s.lfltab dev with
      lfiblock := lfibget s.disk id, lfinum := some id, lfdnum := dnum }) :
    Searched area v im s' dev f k ∧ Grows dev f v im s v im s' := by
  subst result
  have member : id ∈ v.chain (s.lfltab dev).lfdirptr := dirptr ▸ List.mem_of_getElem? at_
  have block : lfibget s.disk id = im.block id :=
    before.clean id ((sound.chained _ id).mp member).1
      (ne_dirty_of_apart sound before used member clean)
  have self : (s.setDev dev { s.lfltab dev with
      lfiblock := lfibget s.disk id, lfinum := some id, lfdnum := dnum }).lfltab dev =
        { s.lfltab dev with
          lfiblock := lfibget s.disk id, lfinum := some id, lfdnum := dnum } :=
    Function.update_self _ _ _
  refine ⟨⟨sound, ?_, ⟨file.head, file.links, file.offset⟩, ?_, ?_, ?_, ?_, ?_⟩, ?_⟩
  · refine stored_setDev sound before dev _ im ?_ ?_ ?_ before.slots (fun _ => .inl rfl)
      (fun _ => .inl rfl) ?_ ?_
    · intro _ other ne usedOther equal
      exact ne (before.distinct other dev usedOther used equal)
    · intro other _ has
      obtain rfl : id = other := Option.some.inj has
      exact ⟨member, block.symm⟩
    · intro d _ has
      rcases same_dnum with none_dnum | same
      · rw [none_dnum] at has
        cases has
      · exact before.dheld dev d used (same ▸ has)
    · exact fun other dirty => absurd dirty (not_iDirty clean other)
    · exact fun d dirty => absurd dirty (not_dDirty written d)
  · rw [self]; exact used
  · rw [self]; exact dirptr
  · rw [self]; exact ⟨id, at_, rfl⟩
  · rw [self]; exact written
  · rw [self]
    intro dirty
    rw [clean] at dirty
    cases dirty
  · exact { Grows.refl dev f v im s with
      tab := fun other ne => Function.update_of_ne ne _ _
      control := ⟨_, _, _, _, self⟩
      backed := fun backed => backed }

/-- The control block starts a new index block, which has just been put at the end of the chain. -/
theorem stored_fresh (sound : Sound area v) {id : Nat} (before : Stored area (some id) v im s)
    (used : (s.lfltab dev).lfstate = .used) (member : id ∈ v.chain (s.lfltab dev).lfdirptr)
    (empty : ∀ j, v.slot id j = none) (written : (s.lfltab dev).lfdbdirty = false)
    (clean : (s.lfltab dev).lfibdirty = false) (offset : Nat)
    (dnum : Option Nat) (same_dnum : dnum = none ∨ dnum = (s.lfltab dev).lfdnum) :
    Stored area none v { im with block := Function.update im.block id (lfibclear offset) }
      (s.setDev dev { s.lfltab dev with
        lfiblock := lfibclear offset, lfinum := some id, lfibdirty := true, lfdnum := dnum }) := by
  refine stored_setDev sound before dev _ _ ?_ ?_ ?_ ?_ ?_ (fun _ => .inl rfl) ?_ ?_
  · intro _ other ne usedOther equal
    exact ne (before.distinct other dev usedOther used equal)
  · intro other _ has
    obtain rfl : id = other := Option.some.inj has
    exact ⟨member, by simp⟩
  · intro d _ has
    rcases same_dnum with none_dnum | same
    · rw [none_dnum] at has
      cases has
    · exact before.dheld dev d used (same ▸ has)
  · intro g other chained _ j inside
    by_cases same : other = id
    · subst same
      simp [lfibclear, empty j]
    · have ne : (some id : Option Nat) ≠ some other := fun equal => same (Option.some.inj equal).symm
      simpa [same] using before.slots g other chained ne j inside
  · intro other
    by_cases same : other = id
    · subst same
      exact .inr ⟨used, rfl, rfl⟩
    · exact .inl (by simp [same])
  · exact fun other dirty => absurd dirty (not_iDirty clean other)
  · exact fun d dirty => absurd dirty (not_dDirty written d)

end Search

end Xinu.Lfs.Setup
