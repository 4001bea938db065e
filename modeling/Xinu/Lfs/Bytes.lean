import Xinu.Lfs.Located

/-!
# Bytes written, read and sought

`lflputc`, `lflgetc` and `lflseek` on a pseudo-device that is in use: the files stay laid out, one
byte changes at most, and the position moves.
-/

namespace Xinu.Lfs.Bytes

open Xinu.Kernel.State (sysErr ok)
open Xinu.Lfs.Device Xinu.Lfs.Accounts Xinu.Lfs.Storage Xinu.Lfs.Setup Xinu.Lfs.Position
open Xinu.Lfs.Layout Xinu.Lfs.Located Xinu.Lib.SingleList

set_option autoImplicit false

variable {area : Area} {v v' : Ledger} {im im' : Image} {s s' : FileSystem}
  {size : Nat → Nat} {dev f pos : Nat}

/-- What a call on a pseudo-device in use leaves alone. -/
structure Moves (dev : Nat) (s s' : FileSystem) (pos : Nat) : Prop where
  tab : ∀ other, other ≠ dev → s'.lfltab other = s.lfltab other
  state : (s'.lfltab dev).lfstate = (s.lfltab dev).lfstate
  dirptr : (s'.lfltab dev).lfdirptr = (s.lfltab dev).lfdirptr
  name : (s'.lfltab dev).lfname = (s.lfltab dev).lfname
  pos : (s'.lfltab dev).lfpos = pos
  count : s'.lfDir.lfdNfiles = s.lfDir.lfdNfiles
  names : ∀ g, (s'.lfDir.lfdFiles g).ldName = (s.lfDir.lfdFiles g).ldName
  present : s'.lfDirpresent = s.lfDirpresent

theorem Kindred.names (kin : Kindred dev s s') (g : Nat) :
    (s'.lfDir.lfdFiles g).ldName = (s.lfDir.lfdFiles g).ldName := by
  obtain ⟨ilist, same⟩ := kin.entries g
  rw [same]

theorem Kindred.name (kin : Kindred dev s s') :
    (s'.lfltab dev).lfname = (s.lfltab dev).lfname := by
  obtain ⟨_, _, _, _, _, _, _, same⟩ := kin.control
  rw [same]

section Positions

/-- The next position inside of a block has the blocks of the last one. -/
theorem next_place (short : pos % lfBlksiz + 1 < lfBlksiz) :
    (pos + 1) / lfIdata = pos / lfIdata ∧
      (pos + 1) % lfIdata / lfBlksiz = pos % lfIdata / lfBlksiz ∧
      (pos + 1) % lfBlksiz = pos % lfBlksiz + 1 := by
  simp only [lfBlksiz, lfIdata] at *
  omega

theorem place_injective {other : Nat} (area : other / lfIdata = pos / lfIdata)
    (index : other % lfIdata / lfBlksiz = pos % lfIdata / lfBlksiz)
    (byte : other % lfBlksiz = pos % lfBlksiz) : other = pos := by
  simp only [lfBlksiz, lfIdata] at *
  omega

theorem byteAt_placed {lfptr : Lflcblk} {id dnum : Nat} (placed : Placed v lfptr id dnum) :
    byteAt v im lfptr.lfdirptr lfptr.lfpos = im.bytes dnum (lfptr.lfpos % lfBlksiz) := by
  simp only [byteAt, placed.at_, placed.slot]

/-- A control block that has moved on by one byte. -/
theorem placed_next {lfptr p : Lflcblk} {id dnum : Nat} (placed : Placed v lfptr id dnum)
    (dirptr : p.lfdirptr = lfptr.lfdirptr) (inum : p.lfinum = lfptr.lfinum)
    (block : p.lfdnum = lfptr.lfdnum) (moved : p.lfpos = lfptr.lfpos + 1)
    (byte : p.lfbyte = lfptr.lfbyte + 1) (short : p.lfbyte < lfBlksiz) : Placed v p id dnum := by
  obtain ⟨sameArea, sameIndex, next⟩ := @next_place lfptr.lfpos (by
    rw [← placed.byte, ← byte]
    exact short)
  constructor
  · rw [dirptr, moved, sameArea]
    exact placed.at_
  · rw [inum, placed.inum]
  · rw [moved, sameIndex]
    exact placed.slot
  · rw [block, placed.dnum]
  · rw [byte, placed.byte, moved, next]

/-- One byte of one block is replaced: the byte of one position changes. -/
theorem byteAt_update (sound : Sound area v) {lfptr : Lflcblk} {id dnum : Nat}
    (placed : Placed v lfptr id dnum) (ch : Byte) (g other : Nat)
    (bytes : im'.bytes = Function.update im.bytes dnum
      (Function.update (im.bytes dnum) (lfptr.lfpos % lfBlksiz) ch)) :
    byteAt v im' g other =
      if g = lfptr.lfdirptr ∧ other = lfptr.lfpos then ch else byteAt v im g other := by
  split_ifs with here
  · obtain ⟨rfl, rfl⟩ := here
    rw [byteAt_placed placed, bytes]
    simp
  · unfold byteAt
    cases at_ : (v.chain g)[other / lfIdata]? with
    | none => rfl
    | some id' =>
        cases taken : v.slot id' (other % lfIdata / lfBlksiz) with
        | none => simp [taken]
        | some d =>
            simp only [taken, bytes]
            by_cases same : d = dnum
            · subst same
              obtain ⟨rfl, index⟩ := sound.slot_unique taken placed.slot
              have sameFile := sound.chain_unique (List.mem_of_getElem? at_)
                (List.mem_of_getElem? placed.at_)
              subst sameFile
              have sameArea : other / lfIdata = lfptr.lfpos / lfIdata :=
                (List.getElem?_inj (List.getElem?_eq_some_iff.mp at_).1
                  (sound.chain_nodup _)).mp (at_.trans placed.at_.symm)
              have byte : other % lfBlksiz ≠ lfptr.lfpos % lfBlksiz := fun equal =>
                here ⟨rfl, place_injective sameArea index equal⟩
              simp [byte]
            · simp [same]

end Positions

section Put

/-- The position is in its block, which counts as changed, and the size has room for the byte. -/
structure Writable (area : Area) (v : Ledger) (im : Image) (s : FileSystem) (dev : Nat)
    (size : Nat → Nat) (id dnum : Nat) : Prop where
  files : Files area v im (markData s dev)
    (raise size (s.lfltab dev).lfdirptr (s.lfltab dev).lfpos)
  used : (s.lfltab dev).lfstate = .used
  placed : Placed v (s.lfltab dev) id dnum
  sizes : sizes s = size
  upto : (s.lfltab dev).lfpos ≤ size (s.lfltab dev).lfdirptr

/-- The state in which a byte is written. -/
theorem enterBlock_put (before : Files area v im s (sizes s)) (kept : Kept s)
    (used : (s.lfltab dev).lfstate = .used) (done : enterBlock s dev = some s') :
    ∃ v' im' id dnum, Writable area v' im' s' dev (sizes s) id dnum ∧ Kindred dev s s' ∧
      (∀ g pos, g < s.lfDir.lfdNfiles → pos < sizes s g →
        byteAt v' im' g pos = byteAt v im g pos) ∧
      Backed s' ∧ ((s.lfltab dev).lfpos < sizes s (s.lfltab dev).lfdirptr → Kept s') := by
  unfold enterBlock at done
  split_ifs at done with outside
  · obtain ⟨v', im', id, dnum, files, placed, kin, bytes, backed, stays⟩ :=
      lfsetup_put before used done
    rw [← kin.pos, ← kin.dirptr] at files
    exact ⟨v', im', id, dnum,
      ⟨files, kin.state.trans used, placed, kin.sizes, by
        rw [kin.pos, kin.dirptr]
        exact before.pos dev used⟩,
      kin, bytes, backed kept, fun inside => stays inside kept⟩
  · obtain rfl := Option.some.inj done
    obtain ⟨id, dnum, placed⟩ := before.byte dev used (Nat.not_le.mp outside)
    exact ⟨v, im, id, dnum,
      ⟨files_mark before used placed, used, placed, rfl, before.pos dev used⟩,
      ⟨fun _ _ => rfl, ⟨_, _, _, _, _, _, _, rfl⟩, rfl, fun _ => ⟨_, rfl⟩, rfl⟩,
      fun _ _ _ _ => rfl, kept.backed, fun _ => kept⟩

theorem extendFile_lfltab (s : FileSystem) (dev : Nat) :
    (extendFile s dev).lfltab = s.lfltab := by
  unfold extendFile
  dsimp only
  split_ifs <;> rfl

theorem extendFile_disk (s : FileSystem) (dev : Nat) : (extendFile s dev).disk = s.disk := by
  unfold extendFile
  dsimp only
  split_ifs <;> rfl

theorem extendFile_present (s : FileSystem) (dev : Nat) :
    (extendFile s dev).lfDirpresent = s.lfDirpresent := by
  unfold extendFile
  dsimp only
  split_ifs <;> rfl

/-- The directory behind a byte at the end differs in one size. -/
theorem extendFile_dir (s : FileSystem) (dev : Nat) :
    (extendFile s dev).lfDir.lfdIfree = s.lfDir.lfdIfree ∧
      (extendFile s dev).lfDir.lfdDfree = s.lfDir.lfdDfree ∧
      (extendFile s dev).lfDir.lfdNfiles = s.lfDir.lfdNfiles ∧
      ∀ g, ((extendFile s dev).lfDir.lfdFiles g).ldIlist = (s.lfDir.lfdFiles g).ldIlist ∧
        ((extendFile s dev).lfDir.lfdFiles g).ldName = (s.lfDir.lfdFiles g).ldName := by
  unfold extendFile
  dsimp only
  split_ifs
  · refine ⟨rfl, rfl, rfl, fun g => ?_⟩
    by_cases same : g = (s.lfltab dev).lfdirptr
    · subst same
      simp [FileSystem.setEntry, FileSystem.setDir]
    · simp [FileSystem.setEntry, FileSystem.setDir, same]
  · exact ⟨rfl, rfl, rfl, fun g => ⟨rfl, rfl⟩⟩

theorem extendFile_sizes (s : FileSystem) (dev : Nat)
    (upto : (s.lfltab dev).lfpos ≤ sizes s (s.lfltab dev).lfdirptr) :
    sizes (extendFile s dev) = raise (sizes s) (s.lfltab dev).lfdirptr (s.lfltab dev).lfpos := by
  funext g
  unfold extendFile
  dsimp only
  split_ifs with atEnd
  · by_cases same : g = (s.lfltab dev).lfdirptr
    · subst same
      have size : (s.lfDir.lfdFiles (s.lfltab dev).lfdirptr).ldSize = (s.lfltab dev).lfpos :=
        Nat.le_antisymm atEnd upto
      simp [sizes, raise, FileSystem.setEntry, FileSystem.setDir, size]
    · simp [sizes, raise, FileSystem.setEntry, FileSystem.setDir, same]
  · by_cases same : g = (s.lfltab dev).lfdirptr
    · subst same
      have more : (s.lfltab dev).lfpos + 1 ≤ sizes s (s.lfltab dev).lfdirptr := Nat.not_le.mp atEnd
      rw [raise, Function.update_self, Nat.max_eq_left more]
    · rw [raise, Function.update_of_ne same]

/-- The byte is written and the position moves on. -/
theorem storeByte_files {id dnum : Nat} (before : Writable area v im s dev size id dnum)
    (ch : Byte) :
    ∃ im', Files area v im' (storeByte s dev ch) (sizes (storeByte s dev ch)) ∧
      sizes (storeByte s dev ch) =
        raise size (s.lfltab dev).lfdirptr (s.lfltab dev).lfpos ∧
      Moves dev s (storeByte s dev ch) ((s.lfltab dev).lfpos + 1) ∧
      ∀ g other, byteAt v im' g other =
        if g = (s.lfltab dev).lfdirptr ∧ other = (s.lfltab dev).lfpos then ch
        else byteAt v im g other := by
  obtain ⟨ifree, dfree, count, entries⟩ := extendFile_dir s dev
  have sizeNow : sizes (extendFile s dev) =
      raise size (s.lfltab dev).lfdirptr (s.lfltab dev).lfpos := by
    rw [extendFile_sizes s dev (before.sizes ▸ before.upto), before.sizes]
  have tab := extendFile_lfltab s dev
  obtain ⟨p, isControl⟩ : ∃ p, p = { s.lfltab dev with
      lfdblock := Function.update (s.lfltab dev).lfdblock (s.lfltab dev).lfbyte ch
      lfbyte := (s.lfltab dev).lfbyte + 1
      lfpos := (s.lfltab dev).lfpos + 1
      lfdbdirty := true } := ⟨_, rfl⟩
  have result : storeByte s dev ch = (extendFile s dev).setDev dev p := by
    rw [isControl]
    rfl
  have self : (storeByte s dev ch).lfltab dev = p := by
    rw [result]
    exact Function.update_self _ _ _
  have others : ∀ other, other ≠ dev → (storeByte s dev ch).lfltab other = s.lfltab other :=
    fun other ne => by
      rw [result, ← tab]
      exact Function.update_of_ne ne _ _
  have selfMarked : (markData s dev).lfltab dev = { s.lfltab dev with lfdbdirty := true } :=
    Function.update_self _ _ _
  have othersMarked : ∀ other, other ≠ dev → (markData s dev).lfltab other = s.lfltab other :=
    fun other ne => Function.update_of_ne ne _ _
  have used := before.used
  have files := before.files
  have placed := before.placed
  have held : im.bytes dnum = (s.lfltab dev).lfdblock := by
    have block := (files.stored.dheld dev dnum (by rw [selfMarked]; exact used)
      (by rw [selfMarked]; exact placed.dnum)).2
    rwa [selfMarked] at block
  have framed : Stored area none v im ((extendFile s dev).setDev dev
      { s.lfltab dev with lfdbdirty := true }) := by
    refine stored_frame files.sound files.stored ifree dfree
      (fun sector _ => congrFun (extendFile_disk s dev) sector) ?_
    change Function.update (extendFile s dev).lfltab dev _ = Function.update s.lfltab dev _
    rw [tab]
  have framedTab : ((extendFile s dev).setDev dev
      { s.lfltab dev with lfdbdirty := true }).lfltab dev =
        { s.lfltab dev with lfdbdirty := true } := Function.update_self _ _ _
  have stored' : Stored area none v (im.setByte dnum ((s.lfltab dev).lfpos % lfBlksiz) ch)
      (storeByte s dev ch) := by
    have same : storeByte s dev ch = ((extendFile s dev).setDev dev
        { s.lfltab dev with lfdbdirty := true }).setDev dev p := by
      rw [result]
      simp [FileSystem.setDev]
    rw [same]
    refine stored_setDev files.sound framed dev p _ ?_ ?_ ?_ files.stored.slots
      (fun _ => .inl rfl) ?_ ?_ ?_
    · intro _ other ne usedOther equal
      refine ne (framed.distinct other dev usedOther (by rw [framedTab]; exact used) ?_)
      rw [equal, framedTab, isControl]
    · intro id' _ has
      rw [isControl] at has ⊢
      have old := framed.held dev id' (by rw [framedTab]; exact used) (by rw [framedTab]; exact has)
      rwa [framedTab] at old
    · intro d _ has
      rw [isControl] at has ⊢
      obtain rfl : dnum = d := Option.some.inj (placed.dnum.symm.trans has)
      refine ⟨⟨id, _, List.mem_of_getElem? placed.at_, placed.slot⟩, ?_⟩
      simp [Image.setByte, held, placed.byte]
    · intro d
      by_cases same_block : d = dnum
      · subst same_block
        exact .inr ⟨by rw [isControl]; exact used, by rw [isControl],
          by rw [isControl]; exact placed.dnum⟩
      · exact .inl (by simp [Image.setByte, same_block])
    · intro other dirty
      rw [framedTab] at dirty
      exact .inl (by rw [isControl]; exact dirty)
    · intro d dirty
      rw [framedTab] at dirty
      exact .inl (by rw [isControl]; exact ⟨dirty.1, rfl, dirty.2.2⟩)
  have sizeResult : sizes (storeByte s dev ch) =
      raise size (s.lfltab dev).lfdirptr (s.lfltab dev).lfpos := by
    rw [result]
    exact sizeNow
  have countResult : (storeByte s dev ch).lfDir.lfdNfiles = s.lfDir.lfdNfiles := by
    rw [result]
    exact count
  refine ⟨_, ⟨files.sound, stored', ?_, ?_, ?_, ?_, ?_, ?_⟩, sizeResult, ?_, fun g other =>
    byteAt_update files.sound placed ch g other rfl⟩
  · intro g inside
    have ok := files.file g (countResult ▸ inside)
    refine ⟨?_, ok.links, ok.offset⟩
    rw [result]
    exact (entries g).1.trans ok.head
  · intro g inside
    rw [sizeResult]
    exact files.sized g (countResult ▸ inside)
  · intro g outside
    exact files.unused g (countResult ▸ outside)
  · intro other usedOther
    rw [countResult]
    by_cases same : other = dev
    · have old := files.entry dev (by rw [selfMarked]; exact used)
      rw [selfMarked] at old
      rw [same, self, isControl]
      exact old
    · rw [others other same] at usedOther ⊢
      have old := files.entry other (by rw [othersMarked other same]; exact usedOther)
      rwa [othersMarked other same] at old
  · intro other usedOther
    rw [sizeResult]
    by_cases same : other = dev
    · rw [same, self, isControl, raise, Function.update_self]
      exact Nat.le_max_right _ _
    · rw [others other same] at usedOther ⊢
      have old := files.pos other (by rw [othersMarked other same]; exact usedOther)
      rwa [othersMarked other same] at old
  · intro other usedOther short
    by_cases same : other = dev
    · rw [same, self] at short ⊢
      refine ⟨id, dnum, placed_next placed ?_ ?_ ?_ ?_ ?_ short⟩ <;> rw [isControl]
    · rw [others other same] at usedOther short ⊢
      have old := files.byte other (by rw [othersMarked other same]; exact usedOther)
        (by rw [othersMarked other same]; exact short)
      rwa [othersMarked other same] at old
  · refine ⟨others, ?_, ?_, ?_, ?_, countResult, fun g => ?_, ?_⟩
    · rw [self, isControl]
    · rw [self, isControl]
    · rw [self, isControl]
    · rw [self, isControl]
    · rw [result]
      exact (entries g).2
    · rw [result]
      exact extendFile_present s dev

theorem Kindred.moves {found : FileSystem} (kin : Kindred dev s found)
    (moves : Moves dev found s' pos) : Moves dev s s' pos where
  tab := fun other ne => (moves.tab other ne).trans (kin.tab other ne)
  state := moves.state.trans kin.state
  dirptr := moves.dirptr.trans kin.dirptr
  name := moves.name.trans (Kindred.name kin)
  pos := moves.pos
  count := moves.count.trans kin.count
  names := fun g => (moves.names g).trans (Kindred.names kin g)
  present := moves.present.trans kin.present

/-- What a completed call leaves: the files laid out, the directory kept and the position moved. -/
structure Completed (area : Area) (v' : Ledger) (im' : Image) (s : FileSystem) (dev : Nat)
    (s' : FileSystem) (pos : Nat) : Prop where
  files : Files area v' im' s' (sizes s')
  kept : Kept s'
  moves : Moves dev s s' pos

theorem storeByte_kept (backed : Backed s)
    (kept : (s.lfltab dev).lfpos < sizes s (s.lfltab dev).lfdirptr → Kept s) (ch : Byte) :
    Kept (storeByte s dev ch) := by
  by_cases inside : (s.lfltab dev).lfpos < sizes s (s.lfltab dev).lfdirptr
  · have same : extendFile s dev = s := if_neg (Nat.not_le.mpr inside)
    refine Kept.of_eq (kept inside) ?_ ?_ ?_ <;>
    · unfold storeByte
      dsimp only
      rw [same]
      rfl
  · obtain ⟨dir, sector, fewer⟩ := backed
    have atEnd : (s.lfDir.lfdFiles (s.lfltab dev).lfdirptr).ldSize ≤ (s.lfltab dev).lfpos :=
      Nat.not_lt.mp inside
    refine ⟨dir, (congrFun (extendFile_disk s dev) 0).trans sector, ?_, fun lowered => ?_⟩
    · rw [show (storeByte s dev ch).lfDir.lfdNfiles = s.lfDir.lfdNfiles from
        (extendFile_dir s dev).2.2.1]
      exact fewer
    · have raised : (extendFile s dev).lfDirdirty = true := by
        unfold extendFile
        dsimp only
        rw [if_pos atEnd]
      cases raised.symm.trans lowered

/-- `lflputc` writes the byte at the position, or behind the last byte. -/
theorem lflputc_spec (before : Files area v im s (sizes s)) (kept : Kept s)
    (used : (s.lfltab dev).lfstate = .used) {ch : Byte} {result : Int}
    (done : lflputc s dev ch = some (s', result)) :
    result = ok ∧ ∃ v' im', Completed area v' im' s dev s' ((s.lfltab dev).lfpos + 1) ∧
      sizes s' = raise (sizes s) (s.lfltab dev).lfdirptr (s.lfltab dev).lfpos ∧
      ∀ g < s.lfDir.lfdNfiles, ∀ other < sizes s' g, byteAt v' im' g other =
        if g = (s.lfltab dev).lfdirptr ∧ other = (s.lfltab dev).lfpos then ch
        else byteAt v im g other := by
  have upto : (s.lfltab dev).lfpos ≤ (s.lfDir.lfdFiles (s.lfltab dev).lfdirptr).ldSize :=
    before.pos dev used
  rw [lflputc, if_neg (by simp [used]), if_neg (Nat.not_lt.mpr upto)] at done
  obtain ⟨entered, entering, equal⟩ := Option.map_eq_some_iff.mp done
  obtain ⟨rfl, rfl⟩ : storeByte entered dev ch = s' ∧ ok = result := by simpa using equal
  obtain ⟨v₁, im₁, id, dnum, writable, kin, bytes, backed, stays⟩ :=
    enterBlock_put before kept used entering
  obtain ⟨im', files, size, moves, written⟩ := storeByte_files writable ch
  rw [kin.pos] at moves
  rw [kin.pos, kin.dirptr] at size written
  refine ⟨rfl, v₁, im', ⟨files, storeByte_kept backed (fun inside => stays ?_) ch,
    Kindred.moves kin moves⟩, size, fun g inside other short => ?_⟩
  · rwa [kin.pos, kin.dirptr, kin.sizes] at inside
  · rw [written]
    split_ifs with here
    · rfl
    · refine bytes g other inside ?_
      rw [size, raise] at short
      by_cases same : g = (s.lfltab dev).lfdirptr
      · subst same
        rw [Function.update_self] at short
        have apart : other ≠ (s.lfltab dev).lfpos := fun equal => here ⟨rfl, equal⟩
        have bound := before.pos dev used
        omega
      · rwa [Function.update_of_ne same] at short

end Put

section Get

/-- A control block moves inside of its file. -/
theorem files_move (before : Files area v im s size) (used : (s.lfltab dev).lfstate = .used)
    (pos byte : Nat) (upto : pos ≤ size (s.lfltab dev).lfdirptr)
    (placed : byte < lfBlksiz → ∃ id dnum,
      Placed v { s.lfltab dev with lfbyte := byte, lfpos := pos } id dnum) :
    Files area v im (s.setDev dev { s.lfltab dev with lfbyte := byte, lfpos := pos }) size := by
  have self : (s.setDev dev { s.lfltab dev with lfbyte := byte, lfpos := pos }).lfltab dev =
      { s.lfltab dev with lfbyte := byte, lfpos := pos } := Function.update_self _ _ _
  have others : ∀ other, other ≠ dev →
      (s.setDev dev { s.lfltab dev with lfbyte := byte, lfpos := pos }).lfltab other =
        s.lfltab other := fun other ne => Function.update_of_ne ne _ _
  refine ⟨before.sound, ?_, fun g inside => (before.file g inside).of_entry rfl, before.sized,
    before.unused, ?_, ?_, ?_⟩
  · exact stored_relabel before.sound before.stored _ rfl rfl rfl rfl rfl rfl
      (fun id dirty => .inl dirty) fun d dirty => .inl dirty
  · intro other usedOther
    by_cases same : other = dev
    · rw [same, self]
      exact before.entry dev used
    · rw [others other same] at usedOther ⊢
      exact before.entry other usedOther
  · intro other usedOther
    by_cases same : other = dev
    · rw [same, self]
      exact upto
    · rw [others other same] at usedOther ⊢
      exact before.pos other usedOther
  · intro other usedOther short
    by_cases same : other = dev
    · rw [same, self] at short ⊢
      exact placed short
    · rw [others other same] at usedOther short ⊢
      exact before.byte other usedOther short

theorem moves_setDev (s : FileSystem) (dev pos byte : Nat) :
    Moves dev s (s.setDev dev { s.lfltab dev with lfbyte := byte, lfpos := pos }) pos := by
  have self : (s.setDev dev { s.lfltab dev with lfbyte := byte, lfpos := pos }).lfltab dev =
      { s.lfltab dev with lfbyte := byte, lfpos := pos } := Function.update_self _ _ _
  refine ⟨fun other ne => Function.update_of_ne ne _ _, ?_, ?_, ?_, ?_, rfl, fun _ => rfl, rfl⟩ <;>
    rw [self]

/-- The state in which a byte is read. -/
theorem enterBlock_get (before : Files area v im s (sizes s)) (kept : Kept s)
    (used : (s.lfltab dev).lfstate = .used)
    (inside : (s.lfltab dev).lfpos < sizes s (s.lfltab dev).lfdirptr)
    (done : enterBlock s dev = some s') :
    ∃ v' im' id dnum, Files area v' im' s' (sizes s') ∧ Placed v' (s'.lfltab dev) id dnum ∧
      Kindred dev s s' ∧ (∀ g pos, byteAt v' im' g pos = byteAt v im g pos) ∧ Kept s' := by
  unfold enterBlock at done
  split_ifs at done with outside
  · obtain ⟨v', im', id, dnum, files, placed, kin, bytes, stays⟩ :=
      lfsetup_get before used inside done
    rw [← kin.sizes] at files
    exact ⟨v', im', id, dnum, files, placed, kin, bytes, stays kept⟩
  · obtain rfl := Option.some.inj done
    obtain ⟨id, dnum, placed⟩ := before.byte dev used (Nat.not_le.mp outside)
    exact ⟨v, im, id, dnum, before, placed,
      ⟨fun _ _ => rfl, ⟨_, _, _, _, _, _, _, rfl⟩, rfl, fun _ => ⟨_, rfl⟩, rfl⟩,
      fun _ _ => rfl, kept⟩

/-- `lflgetc` reads the byte at the position. -/
theorem lflgetc_spec (before : Files area v im s (sizes s)) (kept : Kept s)
    (used : (s.lfltab dev).lfstate = .used)
    (inside : (s.lfltab dev).lfpos < sizes s (s.lfltab dev).lfdirptr) {result : Int}
    (done : lflgetc s dev = some (s', result)) :
    result = (byteAt v im (s.lfltab dev).lfdirptr (s.lfltab dev).lfpos).toNat ∧
      ∃ v' im', Completed area v' im' s dev s' ((s.lfltab dev).lfpos + 1) ∧ sizes s' = sizes s ∧
        ∀ g other, byteAt v' im' g other = byteAt v im g other := by
  have short : (s.lfltab dev).lfpos < (s.lfDir.lfdFiles (s.lfltab dev).lfdirptr).ldSize := inside
  rw [lflgetc, if_neg (by simp [used]), if_neg (Nat.not_le.mpr short)] at done
  obtain ⟨entered, entering, equal⟩ := Option.map_eq_some_iff.mp done
  obtain ⟨rfl, rfl⟩ : nextByte entered dev = s' ∧
      ((entered.lfltab dev).lfdblock (entered.lfltab dev).lfbyte).toNat = result := by
    simpa using equal
  obtain ⟨v', im', id, dnum, files, placed, kin, bytes, keptEntered⟩ :=
    enterBlock_get before kept used inside entering
  have usedEntered := kin.state.trans used
  have block := (files.stored.dheld dev dnum usedEntered placed.dnum).2
  refine ⟨?_, v', im', ⟨?_, ?_, ?_⟩, kin.sizes, bytes⟩
  · rw [← bytes, ← kin.pos, ← kin.dirptr, byteAt_placed placed, block, placed.byte]
  · refine files_move files usedEntered _ _ ?_ fun short =>
      ⟨id, dnum, placed_next placed rfl rfl rfl rfl rfl short⟩
    rw [kin.pos, kin.dirptr, kin.sizes]
    exact inside
  · exact Kept.of_eq keptEntered rfl rfl rfl
  · have moves : Moves dev entered (nextByte entered dev) ((entered.lfltab dev).lfpos + 1) :=
      moves_setDev entered dev _ _
    rw [kin.pos] at moves
    exact Kindred.moves kin moves

theorem lflgetc_eof (used : (s.lfltab dev).lfstate = .used)
    (outside : sizes s (s.lfltab dev).lfdirptr ≤ (s.lfltab dev).lfpos) :
    lflgetc s dev = some (s, eof) := by
  have ended : (s.lfDir.lfdFiles (s.lfltab dev).lfdirptr).ldSize ≤ (s.lfltab dev).lfpos := outside
  rw [lflgetc, if_neg (by simp [used]), if_pos ended]

/-- `lflseek` moves up to the size at most. -/
theorem lflseek_spec (before : Files area v im s (sizes s)) (kept : Kept s)
    (used : (s.lfltab dev).lfstate = .used) {offset : Nat}
    (inside : offset ≤ sizes s (s.lfltab dev).lfdirptr) :
    (lflseek s dev offset).2 = ok ∧
      Completed area v im s dev (lflseek s dev offset).1 offset ∧
      sizes (lflseek s dev offset).1 = sizes s := by
  have within_size : offset ≤ (s.lfDir.lfdFiles (s.lfltab dev).lfdirptr).ldSize := inside
  have moved : lflseek s dev offset =
      (s.setDev dev { s.lfltab dev with lfbyte := lfBlksiz, lfpos := offset }, ok) := by
    rw [lflseek, if_neg (by simp [used]), if_neg (Nat.not_lt.mpr within_size)]
  rw [moved]
  refine ⟨rfl, ⟨?_, Kept.of_eq kept rfl rfl rfl, ?_⟩, rfl⟩
  · exact files_move before used offset lfBlksiz inside fun short =>
      absurd short (Nat.lt_irrefl _)
  · exact moves_setDev s dev offset lfBlksiz

end Get

end Xinu.Lfs.Bytes
