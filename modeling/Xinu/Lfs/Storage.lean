import Xinu.Lfs.Accounts
import Xinu.Lfs.Open

/-!
# How the accounts are stored

The contents of the index blocks and of the data blocks, and where they are: in the control block
that has the block and has changed it, or else on the disk. Each kind of change of the disk or of
a control block keeps this.
-/

namespace Xinu.Lfs.Storage

open Xinu.Lfs.Device Xinu.Lfs.Accounts Xinu.Lib.SingleList
open Xinu.Lfs.Open (Distinct)

set_option autoImplicit false

section Sectors

theorem lfibget_congr {disk disk' : Disk} {id : Nat}
    (same : disk' (ib2sect id) = disk (ib2sect id)) : lfibget disk' id = lfibget disk id := by
  rw [lfibget, lfibget, same]

theorem lfibget_lfibput_self (disk : Disk) (id : Nat) (block : Lfiblk) :
    lfibget (lfibput disk id block) id = block := by
  simp [lfibget, lfibput, Sector.asIblks]

theorem lfibget_lfibput_other (disk : Disk) {id other : Nat} (block : Lfiblk) (ne : other ≠ id) :
    lfibget (lfibput disk id block) other = lfibget disk other := by
  by_cases sector : ib2sect other = ib2sect id
  · have place : ib2disp other ≠ ib2disp id := fun equal => ne (by
      simp only [ib2sect, ib2disp, ibPerSector, lfAreaIb] at sector equal
      omega)
    simp [lfibget, lfibput, Sector.asIblks, sector, place]
  · exact lfibget_congr (Function.update_of_ne sector _ _)

theorem lfibput_sector (disk : Disk) {id sector : Nat} (block : Lfiblk)
    (ne : sector ≠ ib2sect id) : lfibput disk id block sector = disk sector :=
  Function.update_of_ne ne _ _

variable {area : Area} {id dnum : Nat}

theorem ib2sect_pos (id : Nat) : ib2sect id ≠ 0 := Nat.succ_ne_zero _

theorem data_pos (data : area.Data dnum) : dnum ≠ 0 := Nat.ne_of_gt (Nat.zero_lt_of_lt data.1)

theorem data_ne_sector (data : area.Data dnum) (inside : id < area.iblocks) :
    dnum ≠ ib2sect id := by
  have low := data.1
  simp only [Area.iblocks, ibPerSector] at inside
  simp only [ib2sect, ibPerSector, lfAreaIb]
  omega

end Sectors

structure Image where
  block : Nat → Lfiblk
  bytes : Nat → Nat → Byte

def Image.setByte (im : Image) (dnum byte : Nat) (ch : Byte) : Image :=
  { im with bytes := Function.update im.bytes dnum (Function.update (im.bytes dnum) byte ch) }

/-- The control block has a change of the index block. -/
def IDirty (lfptr : Lflcblk) (id : Nat) : Prop :=
  lfptr.lfstate = .used ∧ lfptr.lfibdirty = true ∧ lfptr.lfinum = some id

/-- The control block has a change of the data block. -/
def DDirty (lfptr : Lflcblk) (dnum : Nat) : Prop :=
  lfptr.lfstate = .used ∧ lfptr.lfdbdirty = true ∧ lfptr.lfdnum = some dnum

/-- `limbo` is an index block whose slots are changing. -/
structure Stored (area : Area) (limbo : Option Nat) (v : Ledger) (im : Image) (s : FileSystem) :
    Prop where
  ihead : s.lfDir.lfdIfree = v.ifree.head?
  ilinks : Follows (fun id => (im.block id).ibNext) v.ifree none
  dhead : s.lfDir.lfdDfree = v.dfree.head?
  dlinks : Follows (fun dnum => (s.disk dnum).asNext) v.dfree none
  slots : ∀ f, ∀ id ∈ v.chain f, limbo ≠ some id → ∀ j < lfIblen,
    (im.block id).ibDba j = v.slot id j
  clean : ∀ id < area.iblocks, (∀ dev, ¬IDirty (s.lfltab dev) id) →
    lfibget s.disk id = im.block id
  dclean : ∀ id j dnum, v.slot id j = some dnum → (∀ dev, ¬DDirty (s.lfltab dev) dnum) →
    (s.disk dnum).asBytes = im.bytes dnum
  held : ∀ dev id, (s.lfltab dev).lfstate = .used → (s.lfltab dev).lfinum = some id →
    id ∈ v.chain (s.lfltab dev).lfdirptr ∧ im.block id = (s.lfltab dev).lfiblock
  dheld : ∀ dev dnum, (s.lfltab dev).lfstate = .used → (s.lfltab dev).lfdnum = some dnum →
    (∃ id j, id ∈ v.chain (s.lfltab dev).lfdirptr ∧ v.slot id j = some dnum) ∧
      im.bytes dnum = (s.lfltab dev).lfdblock
  distinct : Distinct s

variable {area : Area} {limbo limbo' : Option Nat} {v : Ledger} {im : Image} {s s' : FileSystem}

section Memory

/-- Only the directory changes, in memory and on the disk, and the free lists stay. -/
theorem stored_frame (sound : Sound area v) (before : Stored area limbo v im s)
    (ihead : s'.lfDir.lfdIfree = s.lfDir.lfdIfree) (dhead : s'.lfDir.lfdDfree = s.lfDir.lfdDfree)
    (disk : ∀ sector, sector ≠ 0 → s'.disk sector = s.disk sector)
    (tab : s'.lfltab = s.lfltab) : Stored area limbo v im s' where
  ihead := ihead.trans before.ihead
  ilinks := before.ilinks
  dhead := dhead.trans before.dhead
  dlinks := follows_congr before.dlinks fun dnum member => by
    rw [disk dnum (data_pos ((sound.unheld dnum).mp member).1)]
  slots := before.slots
  clean := fun id inside none_dirty => by
    rw [lfibget_congr (disk _ (ib2sect_pos id))]
    exact before.clean id inside (by rwa [tab] at none_dirty)
  dclean := fun id j dnum taken none_dirty => by
    rw [disk dnum (data_pos (sound.slot_data taken))]
    exact before.dclean id j dnum taken (by rwa [tab] at none_dirty)
  held := by rw [tab]; exact before.held
  dheld := by rw [tab]; exact before.dheld
  distinct := by
    unfold Distinct
    rw [tab]
    exact before.distinct

/-- A control block changes, and with it the contents of the blocks that it has changed. -/
theorem stored_setDev (sound : Sound area v) (before : Stored area limbo v im s) (dev : Nat)
    (p : Lflcblk) (im' : Image)
    (apart : p.lfstate = .used → ∀ other, other ≠ dev → (s.lfltab other).lfstate = .used →
      (s.lfltab other).lfdirptr ≠ p.lfdirptr)
    (held : ∀ id, p.lfstate = .used → p.lfinum = some id →
      id ∈ v.chain p.lfdirptr ∧ im'.block id = p.lfiblock)
    (dheld : ∀ dnum, p.lfstate = .used → p.lfdnum = some dnum →
      (∃ id j, id ∈ v.chain p.lfdirptr ∧ v.slot id j = some dnum) ∧ im'.bytes dnum = p.lfdblock)
    (slots : ∀ f, ∀ id ∈ v.chain f, limbo' ≠ some id → ∀ j < lfIblen,
      (im'.block id).ibDba j = v.slot id j)
    (image : ∀ id, im'.block id = im.block id ∨ IDirty p id)
    (contents : ∀ dnum, im'.bytes dnum = im.bytes dnum ∨ DDirty p dnum)
    (clean : ∀ id, IDirty (s.lfltab dev) id → IDirty p id ∨ lfibget s.disk id = im'.block id)
    (dclean : ∀ dnum, DDirty (s.lfltab dev) dnum →
      DDirty p dnum ∨ (s.disk dnum).asBytes = im'.bytes dnum) :
    Stored area limbo' v im' (s.setDev dev p) := by
  have self : (s.setDev dev p).lfltab dev = p := Function.update_self dev _ _
  have others : ∀ other, other ≠ dev → (s.setDev dev p).lfltab other = s.lfltab other :=
    fun other ne => Function.update_of_ne ne _ _
  constructor
  case ihead => exact before.ihead
  case ilinks =>
    refine follows_congr before.ilinks fun id free => ?_
    rcases image id with same | ⟨used, -, has⟩
    · rw [same]
    · exact absurd free (sound.chain_not_spare (held id used has).1)
  case dhead => exact before.dhead
  case dlinks => exact before.dlinks
  case slots => exact slots
  case clean =>
    intro id inside none_dirty
    have notDirty : ¬IDirty p id := self ▸ none_dirty dev
    by_cases dirty : IDirty (s.lfltab dev) id
    · exact (clean id dirty).resolve_left notDirty
    · refine (before.clean id inside fun other => ?_).trans ((image id).resolve_right notDirty).symm
      by_cases same : other = dev
      · exact same ▸ dirty
      · exact others other same ▸ none_dirty other
  case dclean =>
    intro id j dnum taken none_dirty
    have notDirty : ¬DDirty p dnum := self ▸ none_dirty dev
    by_cases dirty : DDirty (s.lfltab dev) dnum
    · exact (dclean dnum dirty).resolve_left notDirty
    · refine (before.dclean id j dnum taken fun other => ?_).trans
        ((contents dnum).resolve_right notDirty).symm
      by_cases same : other = dev
      · exact same ▸ dirty
      · exact others other same ▸ none_dirty other
  case held =>
    intro other id used has
    by_cases same : other = dev
    · subst same
      rw [self] at used has ⊢
      exact held id used has
    · rw [others other same] at used has ⊢
      obtain ⟨chained, block⟩ := before.held other id used has
      refine ⟨chained, ?_⟩
      rcases image id with same_block | ⟨usedP, -, hasP⟩
      · exact same_block.trans block
      · exact absurd (sound.chain_unique chained (held id usedP hasP).1)
          (apart usedP other same used)
  case dheld =>
    intro other dnum used has
    by_cases same : other = dev
    · subst same
      rw [self] at used has ⊢
      exact dheld dnum used has
    · rw [others other same] at used has ⊢
      obtain ⟨⟨id, j, chained, taken⟩, block⟩ := before.dheld other dnum used has
      refine ⟨⟨id, j, chained, taken⟩, ?_⟩
      rcases contents dnum with same_block | ⟨usedP, -, hasP⟩
      · exact same_block.trans block
      · obtain ⟨⟨id', j', chainedP, takenP⟩, -⟩ := dheld dnum usedP hasP
        obtain ⟨rfl, -⟩ := sound.slot_unique taken takenP
        exact absurd (sound.chain_unique chained chainedP) (apart usedP other same used)
  case distinct =>
    intro first second usedFirst usedSecond equal
    by_cases sameFirst : first = dev <;> by_cases sameSecond : second = dev
    · exact sameFirst.trans sameSecond.symm
    · subst sameFirst
      rw [self] at usedFirst equal
      rw [others second sameSecond] at usedSecond equal
      exact absurd equal.symm (apart usedFirst second sameSecond usedSecond)
    · subst sameSecond
      rw [self] at usedSecond equal
      rw [others first sameFirst] at usedFirst equal
      exact absurd equal (apart usedSecond first sameFirst usedFirst)
    · rw [others first sameFirst] at usedFirst equal
      rw [others second sameSecond] at usedSecond equal
      exact before.distinct first second usedFirst usedSecond equal

end Memory

section Disk

/-- An index block in a chain is written to the disk, with what it holds from now on. -/
theorem stored_putIblock (sound : Sound area v) (before : Stored area limbo v im s) {id f : Nat}
    {block : Lfiblk} (chained : id ∈ v.chain f)
    (holders : ∀ dev, (s.lfltab dev).lfstate = .used → (s.lfltab dev).lfinum = some id →
      (s.lfltab dev).lfiblock = block)
    (slots : ∀ j < lfIblen, block.ibDba j = v.slot id j)
    (rest : ∀ other, limbo' ≠ some other → other ≠ id → limbo ≠ some other) :
    Stored area limbo' v { im with block := Function.update im.block id block }
      (s.putIblock id block) where
  ihead := before.ihead
  ilinks := follows_congr before.ilinks fun other free => by
    have ne : other ≠ id := fun same => sound.chain_not_spare chained (same ▸ free)
    simp [ne]
  dhead := before.dhead
  dlinks := follows_congr before.dlinks fun dnum free => by
    have ne := data_ne_sector ((sound.unheld dnum).mp free).1 ((sound.chained f id).mp chained).1
    exact congrArg Sector.asNext (lfibput_sector s.disk block ne)
  slots := fun g other member notLimbo => by
    by_cases same : other = id
    · subst same
      simpa using slots
    · simpa [same] using before.slots g other member (rest other notLimbo same)
  clean := fun other inside none_dirty => by
    by_cases same : other = id
    · subst same
      simpa [FileSystem.putIblock] using lfibget_lfibput_self s.disk other block
    · simpa [FileSystem.putIblock, same] using (lfibget_lfibput_other s.disk block same).trans
        (before.clean other inside none_dirty)
  dclean := fun other j dnum taken none_dirty => by
    have ne := data_ne_sector (sound.slot_data taken) ((sound.chained f id).mp chained).1
    rw [show (s.putIblock id block).disk dnum = s.disk dnum from lfibput_sector s.disk block ne]
    exact before.dclean other j dnum taken none_dirty
  held := fun dev other used has => by
    obtain ⟨member, same_block⟩ := before.held dev other used has
    refine ⟨member, ?_⟩
    by_cases same : other = id
    · subst same
      simpa [FileSystem.putIblock] using (holders dev used has).symm
    · simpa [FileSystem.putIblock, same] using same_block
  dheld := before.dheld
  distinct := before.distinct

/-- A data block in a slot is written to the disk. -/
theorem stored_writeData (sound : Sound area v) (before : Stored area limbo v im s)
    {id j dnum : Nat} (taken : v.slot id j = some dnum) :
    Stored area limbo v im (s.write dnum (.data (im.bytes dnum))) where
  ihead := before.ihead
  ilinks := before.ilinks
  dhead := before.dhead
  dlinks := follows_congr before.dlinks fun other free => by
    have ne : other ≠ dnum := fun same => sound.slot_not_free taken (same ▸ free)
    exact congrArg Sector.asNext (Function.update_of_ne ne _ _)
  slots := before.slots
  clean := fun other inside none_dirty => by
    have ne := data_ne_sector (sound.slot_data taken) inside
    exact (lfibget_congr (Function.update_of_ne ne.symm _ _)).trans
      (before.clean other inside none_dirty)
  dclean := fun other k d held none_dirty => by
    by_cases same : d = dnum
    · subst same
      simp [FileSystem.write, Sector.asBytes]
    · exact (congrArg Sector.asBytes (Function.update_of_ne same _ _)).trans
        (before.dclean other k d held none_dirty)
  held := before.held
  dheld := before.dheld
  distinct := before.distinct

end Disk

section Free

/-- No control block has a free index block. -/
theorem spare_not_held (sound : Sound area v) (before : Stored area limbo v im s) {id : Nat}
    (free : id ∈ v.ifree) (dev : Nat) : ¬IDirty (s.lfltab dev) id := fun ⟨used, _, has⟩ =>
  sound.chain_not_spare (before.held dev id used has).1 free

theorem stored_lfiballoc (sound : Sound area v) (before : Stored area none v im s) {ibnum : Nat}
    (alloc : lfiballoc s = some (ibnum, s')) (f : Nat) :
    v.ifree = ibnum :: v.ifree.tail ∧ Stored area (some ibnum) (v.grow f ibnum) im s' ∧
      s' = { s with
        lfDir := { s.lfDir with lfdIfree := v.ifree.tail.head? }
        disk := Function.update s.disk 0
          (.directory { s.lfDir with lfdIfree := v.ifree.tail.head? })
        lfDirdirty := false } := by
  cases free : v.ifree with
  | nil => simp [lfiballoc, before.ihead, free] at alloc
  | cons first rest =>
      have member : first ∈ v.ifree := free ▸ List.mem_cons_self
      have next : (lfibget s.disk first).ibNext = rest.head? := by
        rw [before.clean first ((sound.spare first).mp member).1
          (spare_not_held sound before member)]
        have links := before.ilinks
        rw [free] at links
        simpa using links.1
      simp only [lfiballoc, before.ihead, free, List.head?_cons, Option.some.injEq,
        Prod.mk.injEq] at alloc
      obtain ⟨rfl, rfl⟩ := alloc
      refine ⟨rfl, ?_, by simp [FileSystem.writeDir, FileSystem.setDir, FileSystem.write, next]⟩
      constructor
      case ihead => simp [FileSystem.writeDir, FileSystem.setDir, FileSystem.write, next,
        Ledger.grow, free]
      case ilinks =>
        have links := before.ilinks
        rw [free] at links
        simpa [Ledger.grow, free] using links.2
      case dhead => exact before.dhead
      case dlinks =>
        refine follows_congr before.dlinks fun dnum unheld => ?_
        exact congrArg Sector.asNext
          (Function.update_of_ne (data_pos ((sound.unheld dnum).mp unheld).1) _ _)
      case slots =>
        intro g id chained notLimbo j inside
        have ne : id ≠ first := fun same => notLimbo (same ▸ rfl)
        refine before.slots g id ?_ (by simp) j inside
        by_cases same : g = f
        · subst same
          simpa [Ledger.grow, ne] using chained
        · simpa [Ledger.grow, same] using chained
      case clean =>
        exact fun id inside none_dirty =>
          (lfibget_congr (Function.update_of_ne (ib2sect_pos id) _ _)).trans
            (before.clean id inside none_dirty)
      case dclean =>
        exact fun id j dnum taken none_dirty =>
          (congrArg Sector.asBytes (Function.update_of_ne (data_pos (sound.slot_data taken)) _ _)).trans
            (before.dclean id j dnum taken none_dirty)
      case held =>
        intro dev id used has
        obtain ⟨chained, block⟩ := before.held dev id used has
        exact ⟨mem_grow v f first chained, block⟩
      case dheld =>
        intro dev dnum used has
        obtain ⟨⟨id, j, chained, taken⟩, block⟩ := before.dheld dev dnum used has
        exact ⟨⟨id, j, mem_grow v f first chained, taken⟩, block⟩
      case distinct => exact before.distinct

/-- No control block has a free data block. -/
theorem unheld_not_held (sound : Sound area v) (before : Stored area limbo v im s) {dnum dev : Nat}
    (free : dnum ∈ v.dfree) (used : (s.lfltab dev).lfstate = .used) :
    (s.lfltab dev).lfdnum ≠ some dnum := fun has => by
  obtain ⟨⟨id, j, -, taken⟩, -⟩ := before.dheld dev dnum used has
  exact sound.slot_not_free taken free

theorem slot_fill_of {v : Ledger} {id j fresh other k dnum : Nat} (empty : v.slot id j = none)
    (taken : v.slot other k = some dnum) : (v.fill id j fresh).slot other k = some dnum := by
  have elsewhere : ¬(other = id ∧ k = j) := fun here => by
    rw [here.1, here.2, empty] at taken
    cases taken
  simpa [Ledger.fill, slot_update, elsewhere] using taken

theorem stored_lfdballoc (sound : Sound area v) (before : Stored area none v im s)
    {dnum id j : Nat} (alloc : lfdballoc s = some (dnum, s')) (empty : v.slot id j = none) :
    v.dfree = dnum :: v.dfree.tail ∧
      Stored area (some id) (v.fill id j dnum)
        { im with bytes := Function.update im.bytes dnum (s.disk dnum).asBytes } s' ∧
      s' = { s with
        lfDir := { s.lfDir with lfdDfree := v.dfree.tail.head? }
        disk := Function.update s.disk 0
          (.directory { s.lfDir with lfdDfree := v.dfree.tail.head? })
        lfDirdirty := false } := by
  cases free : v.dfree with
  | nil => simp [lfdballoc, before.dhead, free] at alloc
  | cons first rest =>
      have member : first ∈ v.dfree := free ▸ List.mem_cons_self
      have links := before.dlinks
      rw [free] at links
      have next : (s.disk first).asNext = rest.head? := by simpa using links.1
      simp only [lfdballoc, before.dhead, free, List.head?_cons, Option.some.injEq,
        Prod.mk.injEq] at alloc
      obtain ⟨rfl, rfl⟩ := alloc
      have untouched : ∀ sector, sector ≠ 0 → Function.update s.disk 0
          (Sector.directory { s.lfDir with lfdDfree := (s.disk first).asNext }) sector =
            s.disk sector := fun sector ne => Function.update_of_ne ne _ _
      refine ⟨rfl, ?_, by simp [FileSystem.writeDir, FileSystem.setDir, FileSystem.write, next]⟩
      constructor
      case ihead => exact before.ihead
      case ilinks => exact before.ilinks
      case dhead => simp [FileSystem.writeDir, FileSystem.setDir, FileSystem.write, next,
        Ledger.fill, free]
      case dlinks =>
        have rest_links : Follows (fun dnum => (s.disk dnum).asNext) (v.fill id j first).dfree none := by
          simpa [Ledger.fill, free] using links.2
        refine follows_congr rest_links fun other unheld => ?_
        have inside : other ∈ v.dfree := List.mem_of_mem_tail unheld
        exact congrArg Sector.asNext (untouched other (data_pos ((sound.unheld other).mp inside).1))
      case slots =>
        intro f other chained notLimbo k inside
        have ne : other ≠ id := fun same => notLimbo (same ▸ rfl)
        simpa [Ledger.fill, slot_update, ne] using before.slots f other chained (by simp) k inside
      case clean =>
        exact fun other inside none_dirty =>
          (lfibget_congr (untouched _ (ib2sect_pos other))).trans
            (before.clean other inside none_dirty)
      case dclean =>
        intro other k d taken none_dirty
        by_cases same : d = first
        · subst same
          have pos := data_pos ((sound.unheld d).mp member).1
          simpa [FileSystem.writeDir, FileSystem.setDir, FileSystem.write] using
            congrArg Sector.asBytes (untouched d pos)
        · have old : v.slot other k = some d := by
            by_cases here : other = id ∧ k = j
            · simp [Ledger.fill, slot_update, here, Ne.symm same] at taken
            · simpa [Ledger.fill, slot_update, here] using taken
          have stays := before.dclean other k d old none_dirty
          simpa [FileSystem.writeDir, FileSystem.setDir, FileSystem.write, same] using
            (congrArg Sector.asBytes (untouched d (data_pos (sound.slot_data old)))).trans stays
      case held => exact before.held
      case dheld =>
        intro dev d used has
        obtain ⟨⟨other, k, chained, taken⟩, block⟩ := before.dheld dev d used has
        have ne : d ≠ first := fun same => unheld_not_held sound before member used (same ▸ has)
        exact ⟨⟨other, k, chained, slot_fill_of empty taken⟩,
          by simpa [FileSystem.writeDir, FileSystem.setDir, FileSystem.write, ne] using block⟩
      case distinct => exact before.distinct

/-- The block of a slot is freed while the slots of its index block change. -/
theorem stored_lfdbfree (sound : Sound area v) {id j dnum : Nat}
    (before : Stored area (some id) v im s) (taken : v.slot id j = some dnum)
    (unused : ∀ dev, (s.lfltab dev).lfstate = .used → (s.lfltab dev).lfdnum ≠ some dnum) :
    Stored area (some id) (v.release id j dnum) im (lfdbfree s dnum) := by
  have data := sound.slot_data taken
  have disk : ∀ sector, sector ≠ 0 → sector ≠ dnum → (lfdbfree s dnum).disk sector = s.disk sector :=
    fun sector ne other => (Function.update_of_ne ne _ _).trans (Function.update_of_ne other _ _)
  have freed : (lfdbfree s dnum).disk dnum = .dbfree s.lfDir.lfdDfree :=
    (Function.update_of_ne (data_pos data) _ _).trans (Function.update_self _ _ _)
  constructor
  case ihead => exact before.ihead
  case ilinks => exact before.ilinks
  case dhead => rfl
  case dlinks =>
    refine ⟨?_, follows_congr before.dlinks fun other free => ?_⟩
    · have next := before.dhead
      simp [freed, Sector.asNext, next]
    · have ne : other ≠ dnum := fun same => sound.slot_not_free taken (same ▸ free)
      exact congrArg Sector.asNext (disk other (data_pos ((sound.unheld other).mp free).1) ne)
  case slots =>
    intro f other chained notLimbo k inside
    have ne : other ≠ id := fun same => notLimbo (same ▸ rfl)
    simpa [Ledger.release, slot_update, ne] using before.slots f other chained notLimbo k inside
  case clean =>
    exact fun other inside none_dirty =>
      (lfibget_congr (disk _ (ib2sect_pos other) (data_ne_sector data inside).symm)).trans
        (before.clean other inside none_dirty)
  case dclean =>
    intro other k d held none_dirty
    by_cases here : other = id ∧ k = j
    · simp [Ledger.release, slot_update, here] at held
    · have old : v.slot other k = some d := by
        simpa [Ledger.release, slot_update, here] using held
      have ne : d ≠ dnum := fun same => here (sound.slot_unique old (same ▸ taken))
      exact (congrArg Sector.asBytes (disk d (data_pos (sound.slot_data old)) ne)).trans
        (before.dclean other k d old none_dirty)
  case held => exact before.held
  case dheld =>
    intro dev d used has
    obtain ⟨⟨other, k, chained, old⟩, block⟩ := before.dheld dev d used has
    refine ⟨⟨other, k, chained, ?_⟩, block⟩
    have elsewhere : ¬(other = id ∧ k = j) := fun here => by
      rw [here.1, here.2, taken] at old
      exact unused dev used (has.trans old.symm)
    simpa [Ledger.release, slot_update, elsewhere] using old
  case distinct => exact before.distinct

/-- The chain of a file that no control block has is put in front of the free index blocks. -/
theorem stored_drop (before : Stored area none v im s) {f : Nat}
    (links : Follows (fun id => (im.block id).ibNext) (v.chain f) v.ifree.head?)
    (empty : ∀ id ∈ v.chain f, ∀ j, v.slot id j = none)
    (unused : ∀ dev id, (s.lfltab dev).lfstate = .used → (s.lfltab dev).lfinum = some id →
      id ∉ v.chain f) :
    Stored area none (v.drop f) im
      (s.setDir { s.lfDir with lfdIfree := (v.chain f ++ v.ifree).head? }) := by
  have keeps : ∀ g id, id ∈ v.chain g → id ∉ v.chain f → id ∈ (v.drop f).chain g :=
    fun g id chained elsewhere => by
      have ne : g ≠ f := fun same => elsewhere (same ▸ chained)
      simpa [Ledger.drop, ne] using chained
  constructor
  case ihead => rfl
  case ilinks => exact follows_append.mpr ⟨by simpa using links, before.ilinks⟩
  case dhead => exact before.dhead
  case dlinks => exact before.dlinks
  case slots =>
    intro g id chained notLimbo j inside
    by_cases same : g = f
    · subst same
      simp [Ledger.drop] at chained
    · exact before.slots g id (by simpa [Ledger.drop, same] using chained) notLimbo j inside
  case clean => exact before.clean
  case dclean => exact before.dclean
  case held =>
    intro dev id used has
    obtain ⟨chained, block⟩ := before.held dev id used has
    exact ⟨keeps _ id chained (unused dev id used has), block⟩
  case dheld =>
    intro dev d used has
    obtain ⟨⟨id, j, chained, taken⟩, block⟩ := before.dheld dev d used has
    refine ⟨⟨id, j, keeps _ id chained fun both => ?_, taken⟩, block⟩
    cases (empty id both j).symm.trans taken
  case distinct => exact before.distinct

end Free

end Xinu.Lfs.Storage
