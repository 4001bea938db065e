import Xinu.Lfs.Programs
import Xinu.Lfs.Create

/-!
# Block numbers in programs

Whatever other processes do in between, a program finds only numbers of index blocks where it looks
for such numbers, and never a sector of the index area where it looks for a data block. It writes
into that area by `lfibput` alone, and there with `lf_mutex` or while it closes a file.
-/

namespace Xinu.Lfs.Numbers

open Xinu.Kernel.State (sysErr ok)
open Xinu.Lfs.Device (Lfdir Lfiblk Lflcblk Sector Disk Byte ib2sect ib2disp lfibclear zeroDir
  zeroIblk lfIdata lfIblen ibPerSector lfAreaIb lfBlksiz Dirty)
open Xinu.Lfs.Accounts Xinu.Lfs.Programs

set_option autoImplicit false

section Numbers

variable (area : Area)

/-- A sector that is no index sector: the directory, or a data block. -/
def DOk (dnum : Nat) : Prop := dnum = 0 ∨ area.Data dnum

def INumber (number : Option Nat) : Prop := ∀ inum, number = some inum → inum < area.iblocks

def DNumber (number : Option Nat) : Prop := ∀ dnum, number = some dnum → DOk area dnum

structure BlockOk (block : Lfiblk) : Prop where
  next : INumber area block.ibNext
  dba : ∀ j, DNumber area (block.ibDba j)

structure DirOk (dir : Lfdir) : Prop where
  ifree : INumber area dir.lfdIfree
  dfree : DNumber area dir.lfdDfree
  ilist : ∀ f, INumber area (dir.lfdFiles f).ldIlist

structure DevOk (lfptr : Lflcblk) : Prop where
  inum : INumber area lfptr.lfinum
  dnum : DNumber area lfptr.lfdnum
  block : BlockOk area lfptr.lfiblock

structure MemoryOk (m : Memory) : Prop where
  dir : DirOk area m.lfDir
  dev : ∀ dev, DevOk area (m.lfltab dev)

/-- What is read from a sector. -/
structure ReadOk (sector : Nat) (value : Sector) : Prop where
  dir : sector = 0 → DirOk area value.asDir
  iblock : ∀ inum < area.iblocks, sector = ib2sect inum → BlockOk area (value.asIblks (ib2disp inum))
  next : DOk area sector → DNumber area value.asNext

end Numbers

section Programs

variable {area : Area} {closing : Bool} {α β : Type}

/-- The sector behind a put of an index block. -/
def putValue (value : Sector) (inum : Nat) (block : Lfiblk) : Sector :=
  .iblks (Function.update value.asIblks (ib2disp inum) block)

/-- A program that keeps to its numbers, and puts index blocks with the mutex or while it closes.
`held` is whether it has the mutex. -/
inductive Fine (area : Area) (closing : Bool) {α : Type} (post : Bool → α → Prop) :
    Bool → Prog α → Prop where
  | done {held : Bool} {value : α} (ends : post held value) : Fine area closing post held (.done value)
  | halt {held : Bool} : Fine area closing post held .halt
  | read {held : Bool} {sector : Nat} {next : Sector → Prog α}
      (then_ : ∀ value, ReadOk area sector value → Fine area closing post held (next value)) :
      Fine area closing post held (.read sector none next)
  | iput {held : Bool} {inum : Nat} {block : Lfiblk} {next : Prog α}
      (guarded : closing = true ∨ held = true) (inside : inum < area.iblocks)
      (ok : BlockOk area block) (then_ : Fine area closing post held next) :
      Fine area closing post held (.read (ib2sect inum) (some inum) fun value =>
        .write (ib2sect inum) (putValue value inum block) (some (inum, block)) next)
  | write {held : Bool} {sector : Nat} {value : Sector} {next : Prog α}
      (outside : DOk area sector) (ok : ReadOk area sector value)
      (then_ : Fine area closing post held next) :
      Fine area closing post held (.write sector value none next)
  | wait {next : Prog α} (then_ : Fine area closing post true next) :
      Fine area closing post false (.wait next)
  | signal {next : Prog α} (then_ : Fine area closing post false next) :
      Fine area closing post true (.signal next)
  | memory {held : Bool} {change : Memory → Memory} {next : Memory → Prog α}
      (keeps : ∀ m, MemoryOk area m → MemoryOk area (change m))
      (then_ : ∀ m, MemoryOk area m → Fine area closing post held (next (change m))) :
      Fine area closing post held (.memory change next)

variable {post : Bool → α → Prop} {post' : Bool → β → Prop} {held : Bool}

theorem fine_bind {first : Prog α} {f : α → Prog β} (fine : Fine area closing post held first)
    (next : ∀ held value, post held value → Fine area closing post' held (f value)) :
    Fine area closing post' held (first >>= f) := by
  change Fine area closing post' held (first.bind f)
  induction fine with
  | done ends => exact next _ _ ends
  | halt => exact .halt
  | read _ ih => exact .read ih
  | iput guarded inside ok _ ih => exact .iput guarded inside ok ih
  | write outside ok _ ih => exact .write outside ok ih
  | wait _ ih => exact .wait ih
  | signal _ ih => exact .signal ih
  | memory keeps _ ih => exact .memory keeps ih

/-- The program leaves the mutex as it is. -/
def Ends (held : Bool) (good : α → Prop) : Bool → α → Prop := fun after value =>
  after = held ∧ good value

variable {good : α → Prop}

theorem fine_seq {first : Prog α} {f : α → Prog β}
    (fine : Fine area closing (Ends held good) held first)
    (next : ∀ value, good value → Fine area closing post' held (f value)) :
    Fine area closing post' held (first >>= f) :=
  fine_bind fine fun _ value ends => ends.1 ▸ next value ends.2

theorem fine_pure {value : α} (ends : good value) :
    Fine area closing (Ends held good) held (pure value) := .done ⟨rfl, ends⟩

theorem fine_getMemory :
    Fine area closing (Ends held (MemoryOk area)) held getMemory :=
  .memory (fun _ ok => ok) fun _ ok => .done ⟨rfl, ok⟩

def Any : α → Prop := fun _ => True

theorem fine_modify {change : Memory → Memory}
    (keeps : ∀ m, MemoryOk area m → MemoryOk area (change m)) :
    Fine area closing (Ends held Any) held (modify change) :=
  .memory keeps fun _ _ => .done ⟨rfl, trivial⟩

theorem memoryOk_setDev {m : Memory} (ok : MemoryOk area m) (dev : Nat) {lfptr : Lflcblk}
    (devOk : DevOk area lfptr) : MemoryOk area (m.setDev dev lfptr) where
  dir := ok.dir
  dev := fun other => by
    by_cases same : other = dev
    · subst same
      simpa [Memory.setDev] using devOk
    · simpa [Memory.setDev, same] using ok.dev other

theorem memoryOk_setEntry {m : Memory} (ok : MemoryOk area m) (entry : Nat)
    {ldptr : Device.Ldentry} (ilist : INumber area ldptr.ldIlist) :
    MemoryOk area (m.setEntry entry ldptr) where
  dir := ⟨ok.dir.ifree, ok.dir.dfree, fun f => by
    by_cases same : f = entry
    · subst same
      simpa [Memory.setEntry] using ilist
    · simpa [Memory.setEntry, same] using ok.dir.ilist f⟩
  dev := ok.dev

theorem fine_modifyDev {change : Lflcblk → Lflcblk} (dev : Nat)
    (keeps : ∀ lfptr, DevOk area lfptr → DevOk area (change lfptr)) :
    Fine area closing (Ends held Any) held (modifyDev dev change) :=
  fine_modify fun _ ok => memoryOk_setDev ok dev (keeps _ (ok.dev dev))

theorem fine_writeSector {sector : Nat} {value : Sector} (outside : DOk area sector)
    (ok : ReadOk area sector value) :
    Fine area closing (Ends held Any) held (writeSector sector value) :=
  .write outside ok (.done ⟨rfl, trivial⟩)

theorem fine_wait {rest : Prog α} (fine : Fine area closing post true rest) :
    Fine area closing post false (waitMutex >>= fun _ => rest) := .wait fine

theorem fine_signal {rest : Prog α} (fine : Fine area closing post false rest) :
    Fine area closing post true (signalMutex >>= fun _ => rest) := .signal fine

end Programs

section Values

variable {area : Area}

theorem iNumber_none : INumber area none := fun _ has => by cases has

theorem dNumber_none : DNumber area none := fun _ has => by cases has

theorem iNumber_some {inum : Nat} (inside : inum < area.iblocks) : INumber area (some inum) :=
  fun _ has => Option.some.inj has ▸ inside

theorem dNumber_some {dnum : Nat} (ok : DOk area dnum) : DNumber area (some dnum) :=
  fun _ has => Option.some.inj has ▸ ok

theorem blockOk_clear (offset : Nat) : BlockOk area (lfibclear offset) :=
  ⟨iNumber_none, fun _ => dNumber_none⟩

/-- No data block and no directory is in the index area. -/
theorem dOk_ne_sector {dnum inum : Nat} (ok : DOk area dnum) (inside : inum < area.iblocks) :
    dnum ≠ ib2sect inum := by
  rcases ok with rfl | data
  · exact (Storage.ib2sect_pos inum).symm
  · exact Storage.data_ne_sector data inside

variable (some_blocks : 0 < area.iblocks)

include some_blocks

theorem dirOk_zero : DirOk area zeroDir :=
  ⟨iNumber_some some_blocks, dNumber_some (.inl rfl), fun _ => iNumber_some some_blocks⟩

theorem blockOk_zero : BlockOk area zeroIblk :=
  ⟨iNumber_some some_blocks, fun _ => dNumber_some (.inl rfl)⟩

theorem readOk_data {sector : Nat} (bytes : Nat → Byte) : ReadOk area sector (.data bytes) :=
  ⟨fun _ => dirOk_zero some_blocks, fun _ _ _ => blockOk_zero some_blocks,
    fun _ => dNumber_some (.inl rfl)⟩

theorem readOk_dbfree {sector : Nat} {next : Option Nat} (ok : DNumber area next) :
    ReadOk area sector (.dbfree next) :=
  ⟨fun _ => dirOk_zero some_blocks, fun _ _ _ => blockOk_zero some_blocks, fun _ => ok⟩

theorem readOk_directory {sector : Nat} {dir : Lfdir} (ok : DirOk area dir) :
    ReadOk area sector (.directory dir) :=
  ⟨fun _ => ok, fun _ _ _ => blockOk_zero some_blocks, fun _ => dNumber_some (.inl rfl)⟩

end Values

section Blocks

variable {area : Area} {closing held : Bool} (some_blocks : 0 < area.iblocks)

theorem fine_lfibget {inum : Nat} (inside : inum < area.iblocks) :
    Fine area closing (Ends held (BlockOk area)) held (lfibget inum) :=
  .read fun _ ok => .done ⟨rfl, ok.iblock inum inside rfl⟩

theorem fine_lfibput {inum : Nat} {block : Lfiblk} (guarded : closing = true ∨ held = true)
    (inside : inum < area.iblocks) (ok : BlockOk area block) :
    Fine area closing (Ends held Any) held (lfibput inum block) :=
  .iput guarded inside ok (.done ⟨rfl, trivial⟩)

include some_blocks

theorem fine_writeDir : Fine area closing (Ends held Any) held writeDir :=
  fine_seq fine_getMemory fun _ ok =>
    fine_writeSector (.inl rfl) (readOk_directory some_blocks ok.dir)

theorem fine_lfiballoc :
    Fine area closing (Ends held fun ibnum => ibnum < area.iblocks) held lfiballoc := by
  refine fine_seq fine_getMemory fun m ok => ?_
  cases free : m.lfDir.lfdIfree with
  | none => exact .halt
  | some ibnum =>
      have inside := ok.dir.ifree ibnum free
      refine fine_seq (fine_lfibget inside) fun iblock block => ?_
      refine fine_seq (fine_modify fun m ok =>
        ⟨⟨block.next, ok.dir.dfree, ok.dir.ilist⟩, ok.dev⟩) fun _ _ => ?_
      refine fine_seq (fine_writeDir some_blocks) fun _ _ => ?_
      exact fine_seq (fine_modify fun m ok => ⟨ok.dir, ok.dev⟩) fun _ _ => fine_pure inside

theorem fine_lfdballoc :
    Fine area closing (Ends held (DOk area)) held lfdballoc := by
  refine fine_seq fine_getMemory fun m ok => ?_
  cases free : m.lfDir.lfdDfree with
  | none => exact .halt
  | some dnum =>
      have outside := ok.dir.dfree dnum free
      have got : Fine area closing (Ends held (DNumber area)) held
          (.read dnum none fun value => .done value.asNext) :=
        .read fun value ok => .done ⟨rfl, ok.next outside⟩
      refine fine_seq got fun next number => ?_
      refine fine_seq (fine_modify fun m ok =>
        ⟨⟨ok.dir.ifree, number, ok.dir.ilist⟩, ok.dev⟩) fun _ _ => ?_
      refine fine_seq (fine_writeDir some_blocks) fun _ _ => ?_
      exact fine_seq (fine_modify fun m ok => ⟨ok.dir, ok.dev⟩) fun _ _ => fine_pure outside

theorem fine_lfdbfree {dnum : Nat} (outside : DOk area dnum) :
    Fine area closing (Ends held Any) held (lfdbfree dnum) := by
  refine fine_seq fine_getMemory fun m ok => ?_
  refine fine_seq (fine_modify fun m ok =>
    ⟨⟨ok.dir.ifree, dNumber_some outside, ok.dir.ilist⟩, ok.dev⟩) fun _ _ => ?_
  refine fine_seq (fine_writeSector outside (readOk_dbfree some_blocks ok.dir.dfree)) fun _ _ => ?_
  exact fine_writeDir some_blocks

end Blocks

section Positions

variable {area : Area} {closing held : Bool} (some_blocks : 0 < area.iblocks) (dev : Nat)

include some_blocks

theorem fine_flushDir : Fine area closing (Ends held Any) held flushDir := by
  refine fine_seq fine_getMemory fun m ok => ?_
  split_ifs with dirty
  · exact fine_seq (fine_writeDir some_blocks) fun _ _ =>
      fine_modify fun m ok => ⟨ok.dir, ok.dev⟩
  · exact fine_pure trivial

theorem fine_flushData : Fine area closing (Ends held Any) held (flushData dev) := by
  refine fine_seq fine_getMemory fun m ok => ?_
  have lowered : Fine area closing (Ends held Any) held
      (modifyDev dev fun lfptr => { lfptr with lfdbdirty := false }) :=
    fine_modifyDev dev fun lfptr ok => ⟨ok.inum, ok.dnum, ok.block⟩
  dsimp only
  split
  · rename_i dnum _ has
    exact fine_seq (fine_writeSector ((ok.dev dev).dnum dnum has) (readOk_data some_blocks _))
      fun _ _ => lowered
  · exact lowered

omit some_blocks in
theorem fine_flushIndex (guarded : closing = true ∨ held = true) :
    Fine area closing (Ends held Any) held (flushIndex dev) := by
  refine fine_seq fine_getMemory fun m ok => ?_
  have lowered : Fine area closing (Ends held Any) held
      (modifyDev dev fun lfptr => { lfptr with lfibdirty := false }) :=
    fine_modifyDev dev fun lfptr ok => ⟨ok.inum, ok.dnum, ok.block⟩
  dsimp only
  split
  · rename_i inum _ has
    exact fine_seq (fine_lfibput guarded ((ok.dev dev).inum inum has) (ok.dev dev).block)
      fun _ _ => lowered
  · exact lowered

theorem fine_lfflush (guarded : closing = true ∨ held = true) :
    Fine area closing (Ends held Any) held (lfflush dev) := by
  refine fine_seq fine_getMemory fun m ok => ?_
  split_ifs with free
  · exact fine_pure trivial
  · refine fine_seq (fine_flushDir some_blocks) fun _ _ => ?_
    refine fine_seq (fine_flushData some_blocks dev) fun _ _ => ?_
    exact fine_flushIndex dev guarded

omit some_blocks in
theorem fine_loadIblock {ibnum : Nat} (inside : ibnum < area.iblocks) :
    Fine area closing (Ends held Any) held (loadIblock dev ibnum) :=
  fine_seq (fine_lfibget inside) fun _ block =>
    fine_modifyDev dev fun _ ok => ⟨iNumber_some inside, ok.dnum, block⟩

theorem fine_setupFirst : Fine area closing (Ends held Any) held (setupFirst dev) := by
  refine fine_seq fine_getMemory fun m ok => ?_
  have ilist := ok.dir.ilist (m.lfltab dev).lfdirptr
  dsimp only
  cases (m.lfltab dev).lfinum <;>
    cases first : (m.lfDir.lfdFiles (m.lfltab dev).lfdirptr).ldIlist
  case none.none =>
    refine fine_seq (fine_lfiballoc some_blocks) fun ibnum inside => ?_
    refine fine_seq (fine_modifyDev dev fun _ ok => ⟨ok.inum, ok.dnum, blockOk_clear 0⟩)
      fun _ _ => ?_
    refine fine_seq (fine_modify fun m ok => memoryOk_setEntry ok _ (iNumber_some inside))
      fun _ _ => ?_
    exact fine_modifyDev dev fun _ ok => ⟨iNumber_some inside, ok.dnum, ok.block⟩
  case none.some ibnum => exact fine_loadIblock dev (ilist ibnum first)
  case some.none =>
    dsimp only
    split_ifs
    · exact .halt
    · exact fine_pure trivial
  case some.some ibnum =>
    dsimp only
    split_ifs
    · exact fine_loadIblock dev (ilist ibnum first)
    · exact fine_pure trivial

theorem fine_setupNext {inum : Nat} (inside : inum < area.iblocks) :
    Fine area closing (Ends true Any) true (setupNext dev inum) := by
  refine fine_seq fine_getMemory fun m ok => ?_
  have block := (ok.dev dev).block
  have cleared : Fine area closing (Ends true Any) true
      (modifyDev dev fun lfptr => { lfptr with lfdnum := none }) :=
    fine_modifyDev dev fun lfptr ok => ⟨ok.inum, dNumber_none, ok.block⟩
  dsimp only
  split
  · refine fine_seq (fine_lfiballoc some_blocks) fun ibnum insideNext => ?_
    refine fine_seq (fine_lfibput (.inr rfl) inside ⟨iNumber_some insideNext, block.dba⟩)
      fun _ _ => ?_
    exact fine_seq (fine_modifyDev dev fun _ ok =>
      ⟨iNumber_some insideNext, ok.dnum, blockOk_clear _⟩) fun _ _ => cleared
  · rename_i ibnum has
    exact fine_seq (fine_loadIblock dev (block.next ibnum has)) fun _ _ => cleared

theorem fine_setupLoop (fuel : Nat) :
    Fine area closing (Ends true Any) true (setupLoop dev fuel) := by
  induction fuel with
  | zero => exact .halt
  | succ fuel ih =>
      refine fine_seq fine_getMemory fun m ok => ?_
      dsimp only
      split_ifs
      · cases has : (m.lfltab dev).lfinum with
        | none => exact .halt
        | some inum =>
            exact fine_seq (fine_setupNext some_blocks dev ((ok.dev dev).inum inum has))
              fun _ _ => ih
      · exact fine_pure trivial

theorem fine_setupData : Fine area closing (Ends held Any) held (setupData dev) := by
  refine fine_seq fine_getMemory fun m ok => ?_
  have block := (ok.dev dev).block
  dsimp only
  split
  · refine fine_seq (fine_lfdballoc some_blocks) fun dnum outside => ?_
    refine fine_modifyDev dev fun lfptr ok => ⟨ok.inum, dNumber_some outside, ok.block.next, ?_⟩
    intro j
    by_cases same : j = (m.lfltab dev).lfpos % lfIdata / lfBlksiz
    · subst same
      simpa using dNumber_some outside
    · simpa [same] using ok.block.dba j
  · rename_i dnum has
    have outside := block.dba _ dnum has
    split_ifs
    · exact fine_modifyDev dev fun _ ok => ⟨ok.inum, ok.dnum, ok.block⟩
    · have got : Fine area closing (Ends held Any) held
          (.read dnum none fun value => .done value.asBytes) := .read fun _ _ => .done ⟨rfl, trivial⟩
      exact fine_seq got fun _ _ =>
        fine_modifyDev dev fun _ ok => ⟨ok.inum, dNumber_some outside, ok.block⟩

theorem fine_lfsetup (fuel : Nat) :
    Fine area closing (Ends false Any) false (lfsetup dev fuel) := by
  refine fine_wait ?_
  refine fine_seq fine_getMemory fun m ok => ?_
  have rest : Fine area closing (Ends false Any) true (do
      setupFirst dev
      setupLoop dev fuel
      setupData dev
      signalMutex) := by
    refine fine_seq (fine_setupFirst some_blocks dev) fun _ _ => ?_
    refine fine_seq (fine_setupLoop some_blocks dev fuel) fun _ _ => ?_
    exact fine_seq (fine_setupData some_blocks dev) fun _ _ => .signal (.done ⟨rfl, trivial⟩)
  dsimp only
  split_ifs
  · exact fine_seq (fine_lfflush some_blocks dev (.inr rfl)) fun _ _ => rest
  · exact rest

end Positions

section Calls

variable {area : Area} {closing held : Bool} (some_blocks : 0 < area.iblocks) (dev fuel : Nat)

include some_blocks

theorem fine_enterBlock : Fine area closing (Ends false Any) false (enterBlock dev fuel) := by
  refine fine_seq fine_getMemory fun m ok => ?_
  split_ifs
  · exact fine_lfsetup some_blocks dev fuel
  · exact fine_pure trivial

omit some_blocks in
theorem fine_storeByte (ch : Byte) : Fine area closing (Ends held Any) held (storeByte dev ch) := by
  refine fine_seq (fine_modify fun m ok => ?_) fun _ _ =>
    fine_modifyDev dev fun _ ok => ⟨ok.inum, ok.dnum, ok.block⟩
  dsimp only
  split_ifs
  · have ilist := ok.dir.ilist (m.lfltab dev).lfdirptr
    have grown := @memoryOk_setEntry _ _ ok (m.lfltab dev).lfdirptr
      { m.lfDir.lfdFiles (m.lfltab dev).lfdirptr with
        ldSize := (m.lfDir.lfdFiles (m.lfltab dev).lfdirptr).ldSize + 1 } ilist
    exact ⟨grown.dir, grown.dev⟩
  · exact ok

theorem fine_lflputc (ch : Byte) :
    Fine area closing (Ends false Any) false (lflputc dev fuel ch) := by
  refine fine_seq fine_getMemory fun m ok => ?_
  split_ifs
  · exact fine_pure trivial
  · exact fine_pure trivial
  · refine fine_seq (fine_enterBlock some_blocks dev fuel) fun _ _ => ?_
    exact fine_seq (fine_storeByte dev ch) fun _ _ => fine_pure trivial

theorem fine_lflgetc : Fine area closing (Ends false Any) false (lflgetc dev fuel) := by
  refine fine_seq fine_getMemory fun m ok => ?_
  split_ifs
  · exact fine_pure trivial
  · exact fine_pure trivial
  · refine fine_seq (fine_enterBlock some_blocks dev fuel) fun _ _ => ?_
    refine fine_seq fine_getMemory fun _ _ => ?_
    exact fine_seq (fine_modifyDev dev fun _ ok => ⟨ok.inum, ok.dnum, ok.block⟩)
      fun _ _ => fine_pure trivial

theorem fine_freeBlocks {iblock : Lfiblk} (block : BlockOk area iblock) (count : Nat) :
    Fine area closing (Ends held Any) held (freeBlocks iblock count) := by
  induction count with
  | zero => exact fine_pure trivial
  | succ count ih =>
      refine fine_seq ih fun _ _ => ?_
      cases has : iblock.ibDba count with
      | none => exact fine_pure trivial
      | some dnum => exact fine_lfdbfree some_blocks (block.dba count dnum has)

theorem fine_truncateLoop {ifree : Option Nat} (free : INumber area ifree) (nextib : Option Nat)
    (number : INumber area nextib) :
    Fine area closing (Ends true Any) true (truncateLoop ifree fuel nextib) := by
  induction fuel generalizing nextib with
  | zero => exact .halt
  | succ fuel ih =>
      unfold truncateLoop
      split_ifs
      · exact fine_pure trivial
      · cases nextib with
        | none => exact .halt
        | some inum =>
            have inside := number inum rfl
            refine fine_seq (fine_lfibget inside) fun iblock block => ?_
            refine fine_seq (fine_freeBlocks some_blocks block lfIblen) fun _ _ => ?_
            have next : INumber area (if iblock.ibNext = none then ifree else iblock.ibNext) := by
              split_ifs
              · exact free
              · exact block.next
            refine fine_seq (fine_lfibput (.inr rfl) inside ⟨next, fun _ => dNumber_none⟩)
              fun _ _ => ?_
            exact ih _ next

theorem fine_lftruncate : Fine area closing (Ends true Any) true (lftruncate dev fuel) := by
  refine fine_seq fine_getMemory fun m ok => ?_
  dsimp only
  have rest : Fine area closing (Ends true Any) true (do
      modifyDev dev fun lfptr => { lfptr with
        lfpos := 0, lfinum := none, lfdnum := none, lfbyte := lfBlksiz }
      let m' ← getMemory
      modify fun m' => { m'.setEntry (m.lfltab dev).lfdirptr
          { m'.lfDir.lfdFiles (m.lfltab dev).lfdirptr with ldIlist := none, ldSize := 0 }
        with lfDirdirty := true }
      truncateLoop m'.lfDir.lfdIfree fuel (m.lfDir.lfdFiles (m.lfltab dev).lfdirptr).ldIlist
      modify fun m' => { m' with
        lfDir := { m'.lfDir with
          lfdIfree := (m.lfDir.lfdFiles (m.lfltab dev).lfdirptr).ldIlist }
        lfDirdirty := true }) := by
    have ilist := ok.dir.ilist (m.lfltab dev).lfdirptr
    refine fine_seq (fine_modifyDev dev fun _ ok => ⟨iNumber_none, dNumber_none, ok.block⟩)
      fun _ _ => ?_
    refine fine_seq fine_getMemory fun m' ok' => ?_
    refine fine_seq (fine_modify fun m' ok' => ?_) fun _ _ => ?_
    · have emptied := @memoryOk_setEntry _ _ ok' (m.lfltab dev).lfdirptr
        { m'.lfDir.lfdFiles (m.lfltab dev).lfdirptr with ldIlist := none, ldSize := 0 }
        iNumber_none
      exact ⟨emptied.dir, emptied.dev⟩
    · refine fine_seq (fine_truncateLoop some_blocks fuel ok'.dir.ifree _ ilist) fun _ _ => ?_
      exact fine_modify fun m' ok' => ⟨⟨ilist, ok'.dir.dfree, ok'.dir.ilist⟩, ok'.dev⟩
  split_ifs
  · exact fine_pure trivial
  · exact fine_seq (fine_lfflush some_blocks dev (.inr rfl)) fun _ _ => rest
  · exact rest

theorem fine_lflcontrolTrunc :
    Fine area closing (Ends false Any) false (lflcontrolTrunc dev fuel) := by
  refine fine_seq fine_getMemory fun m ok => ?_
  split_ifs
  · exact fine_pure trivial
  · refine fine_wait ?_
    refine fine_seq (fine_lftruncate some_blocks dev fuel) fun _ _ => ?_
    exact fine_signal (fine_pure trivial)

/-- A close puts its index block without the mutex. -/
theorem fine_lflclose : Fine area true (Ends false Any) false (lflclose dev) := by
  refine fine_seq fine_getMemory fun m _ => ?_
  have rest : Fine area true (Ends false Any) false (do
      modifyDev dev fun lfptr => { lfptr with lfstate := .free }
      return ok) :=
    fine_seq (fine_modifyDev dev fun _ ok => ⟨ok.inum, ok.dnum, ok.block⟩) fun _ _ =>
      fine_pure trivial
  dsimp only
  split_ifs
  · exact fine_pure trivial
  · exact fine_seq (fine_lfflush some_blocks dev (.inl rfl)) fun _ _ => rest
  · exact rest

end Calls

end Xinu.Lfs.Numbers
