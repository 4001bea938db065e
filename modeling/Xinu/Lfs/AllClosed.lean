import Xinu.Lfs.Runs
import Mathlib.Data.List.Dedup
import Mathlib.Data.List.Nodup

/-!
# When all files are closed

No block is shared or lost, and the disk has the directory, once no pseudo-device is in use.
-/

namespace Xinu.Lfs.AllClosed

open Xinu.Kernel.State (sysErr ok)
open Xinu.Lfs.Device Xinu.Lfs.Accounts Xinu.Lfs.Storage Xinu.Lfs.Setup Xinu.Lfs.Layout
open Xinu.Lfs.Sessions Xinu.Lfs.Create Xinu.Lfs.Reference Xinu.Lfs.Simulation Xinu.Lfs.Runs
open Xinu.Lib.SingleList
open Xinu.Lfs.Open (Distinct loadDir_of_present loadDir_lfltab loadDir_present lfsopen_cases)

set_option autoImplicit false

variable {area : Area} {v : Ledger} {im : Image} {s s' : FileSystem} {r : FileStore} {dev : Nat}
  {disk : Disk} {trace : List (Call × Reply)} {event : Call} {reply : Reply}

/-- No pseudo-device is in use. -/
def Idle (s : FileSystem) : Prop := ∀ dev, (s.lfltab dev).lfstate ≠ .used

section Blocks

/-- The data blocks that an index block has on the disk. -/
def dbaOf (disk : Disk) (id : Nat) : List Nat :=
  (List.range lfIblen).filterMap (lfibget disk id).ibDba

/-- Where the blocks of a disk are: in the free lists of the directory, and in the chains of index
blocks of the files. -/
structure Blocks (s : FileSystem) (ifree dfree : List Nat) (chain : Nat → List Nat) : Prop where
  ihead : s.lfDir.lfdIfree = ifree.head?
  ilinks : Follows (fun id => (lfibget s.disk id).ibNext) ifree none
  dhead : s.lfDir.lfdDfree = dfree.head?
  dlinks : Follows (fun dnum => (s.disk dnum).asNext) dfree none
  heads : ∀ f < s.lfDir.lfdNfiles, (s.lfDir.lfdFiles f).ldIlist = (chain f).head?
  links : ∀ f < s.lfDir.lfdNfiles, Follows (fun id => (lfibget s.disk id).ibNext) (chain f) none
  offsets : ∀ f < s.lfDir.lfdNfiles, ∀ k id, (chain f)[k]? = some id →
    (lfibget s.disk id).ibOffset = lfIdata * k

/-- The index blocks of all files. -/
def chained (s : FileSystem) (chain : Nat → List Nat) : List Nat :=
  (List.range s.lfDir.lfdNfiles).flatMap chain

/-- Every block of the disk is in exactly one place. -/
structure Conserved (area : Area) (s : FileSystem) (ifree dfree : List Nat)
    (chain : Nat → List Nat) : Prop where
  blocks : Blocks s ifree dfree chain
  iblocks : (ifree ++ chained s chain).Perm (List.range area.iblocks)
  dblocks : (dfree ++ (chained s chain).flatMap (dbaOf s.disk)).Perm
    (List.range' (area.ibsectors + 1) (area.dhigh - area.ibsectors - 1))

theorem blocks_of_files (files : Files area v im s (sizes s)) (idle : Idle s) :
    Blocks s v.ifree v.dfree v.chain := by
  have sound := files.sound
  have stored := files.stored
  have clean : ∀ id < area.iblocks, lfibget s.disk id = im.block id := fun id inside =>
    stored.clean id inside fun dev dirty => idle dev dirty.1
  have spare : ∀ id ∈ v.ifree, id < area.iblocks := fun id free => ((sound.spare id).mp free).1
  have taken : ∀ f, ∀ id ∈ v.chain f, id < area.iblocks := fun f id member =>
    ((sound.chained f id).mp member).1
  constructor
  case ihead => exact stored.ihead
  case ilinks => exact follows_congr stored.ilinks fun id free => by rw [clean id (spare id free)]
  case dhead => exact stored.dhead
  case dlinks => exact stored.dlinks
  case heads => exact fun f inside => (files.file f inside).head
  case links =>
    exact fun f inside => follows_congr (files.file f inside).links fun id member => by
      rw [clean id (taken f id member)]
  case offsets =>
    intro f inside k id at_
    rw [clean id (taken f id (List.mem_of_getElem? at_))]
    exact (files.file f inside).offset k id at_

theorem chained_nodup (files : Files area v im s (sizes s)) : (chained s v.chain).Nodup := by
  refine List.nodup_flatMap.mpr ⟨fun f _ => files.sound.chain_nodup f, ?_⟩
  refine List.Pairwise.imp_of_mem ?_ List.nodup_range
  intro f g _ _ apart id first second
  exact apart (files.sound.chain_unique first second)

theorem mem_chained (files : Files area v im s (sizes s)) (id : Nat) :
    id ∈ chained s v.chain ↔ ∃ f, id ∈ v.chain f := by
  rw [chained, List.mem_flatMap]
  constructor
  · rintro ⟨f, -, member⟩
    exact ⟨f, member⟩
  · rintro ⟨f, member⟩
    refine ⟨f, List.mem_range.mpr ?_, member⟩
    by_contra outside
    rw [files.unused f (Nat.not_lt.mp outside)] at member
    cases member

theorem iblocks_perm (files : Files area v im s (sizes s)) :
    (v.ifree ++ chained s v.chain).Perm (List.range area.iblocks) := by
  have sound := files.sound
  refine (List.perm_ext_iff_of_nodup ?_ List.nodup_range).mpr fun id => ?_
  · refine List.nodup_append.mpr ⟨sound.ifree_nodup, chained_nodup files, ?_⟩
    rintro id free other member rfl
    obtain ⟨f, inChain⟩ := (mem_chained files id).mp member
    exact sound.chain_not_spare inChain free
  · rw [List.mem_append, mem_chained files, sound.spare, List.mem_range]
    constructor
    · rintro (⟨inside, -⟩ | ⟨f, member⟩)
      · exact inside
      · exact ((sound.chained f id).mp member).1
    · intro inside
      cases owner : v.iowner id with
      | none => exact .inl ⟨inside, rfl⟩
      | some f => exact .inr ⟨f, (sound.chained f id).mpr ⟨inside, owner⟩⟩

theorem mem_dbaOf (files : Files area v im s (sizes s)) (idle : Idle s) {f id : Nat}
    (member : id ∈ v.chain f) (dnum : Nat) :
    dnum ∈ dbaOf s.disk id ↔ ∃ j, v.slot id j = some dnum := by
  have inside := ((files.sound.chained f id).mp member).1
  have clean : lfibget s.disk id = im.block id :=
    files.stored.clean id inside fun dev dirty => idle dev dirty.1
  rw [dbaOf, List.mem_filterMap, clean]
  constructor
  · rintro ⟨j, short, at_⟩
    rw [files.stored.slots f id member (by simp) j (List.mem_range.mp short)] at at_
    exact ⟨j, at_⟩
  · rintro ⟨j, at_⟩
    have short := (files.sound.owned id j dnum at_).1
    refine ⟨j, List.mem_range.mpr short, ?_⟩
    rw [files.stored.slots f id member (by simp) j short]
    exact at_

theorem dbaOf_nodup (files : Files area v im s (sizes s)) (idle : Idle s) {f id : Nat}
    (member : id ∈ v.chain f) : (dbaOf s.disk id).Nodup := by
  have inside := ((files.sound.chained f id).mp member).1
  have clean : lfibget s.disk id = im.block id :=
    files.stored.clean id inside fun dev dirty => idle dev dirty.1
  have slots := files.stored.slots f id member (by simp)
  rw [dbaOf, clean]
  refine (List.pairwise_filterMap).mpr (List.Pairwise.imp_of_mem ?_ List.nodup_range)
  intro j k shortFirst shortSecond apart dnum atFirst other atSecond equal
  rw [slots j (List.mem_range.mp shortFirst)] at atFirst
  rw [slots k (List.mem_range.mp shortSecond), ← equal] at atSecond
  exact apart (files.sound.slot_unique atFirst atSecond).2

theorem dblocks_perm (files : Files area v im s (sizes s)) (idle : Idle s) :
    (v.dfree ++ (chained s v.chain).flatMap (dbaOf s.disk)).Perm
      (List.range' (area.ibsectors + 1) (area.dhigh - area.ibsectors - 1)) := by
  have sound := files.sound
  have taken : ∀ dnum, dnum ∈ (chained s v.chain).flatMap (dbaOf s.disk) ↔
      ∃ id j, v.slot id j = some dnum := fun dnum => by
    rw [List.mem_flatMap]
    constructor
    · rintro ⟨id, inChain, member⟩
      obtain ⟨f, inFile⟩ := (mem_chained files id).mp inChain
      exact ⟨id, (mem_dbaOf files idle inFile dnum).mp member⟩
    · rintro ⟨id, j, held⟩
      obtain ⟨-, f, inFile⟩ := sound.owned id j dnum held
      exact ⟨id, (mem_chained files id).mpr ⟨f, inFile⟩,
        (mem_dbaOf files idle inFile dnum).mpr ⟨j, held⟩⟩
  refine (List.perm_ext_iff_of_nodup ?_ List.nodup_range').mpr fun dnum => ?_
  · refine List.nodup_append.mpr ⟨sound.dfree_nodup, List.nodup_flatMap.mpr ⟨?_, ?_⟩, ?_⟩
    · intro id inChain
      obtain ⟨f, inFile⟩ := (mem_chained files id).mp inChain
      exact dbaOf_nodup files idle inFile
    · refine List.Pairwise.imp_of_mem ?_ (chained_nodup files)
      intro id other inFirst inSecond apart dnum first second
      obtain ⟨f, inFile⟩ := (mem_chained files id).mp inFirst
      obtain ⟨g, inOther⟩ := (mem_chained files other).mp inSecond
      obtain ⟨j, held⟩ := (mem_dbaOf files idle inFile dnum).mp first
      obtain ⟨k, heldOther⟩ := (mem_dbaOf files idle inOther dnum).mp second
      exact apart (sound.slot_unique held heldOther).1
    · rintro dnum free other member rfl
      obtain ⟨id, j, held⟩ := (taken dnum).mp member
      exact sound.slot_not_free held free
  · rw [List.mem_append, taken, sound.unheld, List.mem_range'_1]
    constructor
    · rintro (⟨data, -⟩ | ⟨id, j, held⟩)
      · obtain ⟨low, high⟩ := data
        omega
      · obtain ⟨low, high⟩ := sound.slot_data held
        omega
    · intro inside
      have data : area.Data dnum := ⟨by omega, by omega⟩
      cases owner : v.downer dnum with
      | none => exact .inl ⟨data, rfl⟩
      | some place => exact .inr ⟨place.1, place.2, (sound.held _ _ _).mpr ⟨data, owner⟩⟩

/-- No block of the disk is shared or lost, and index blocks are in order, whenever all files are
closed. The directory is the one in memory, or the one on the disk as long as no file was opened. -/
theorem blocks_conserved (area : Area) (disk : Disk) (trace : List (Call × Reply)) (s : FileSystem)
    (created : Created area disk) (run : Run Apart disk trace s) (idle : Idle s) :
    ∃ ifree dfree chain, Conserved area (loadDir s) ifree dfree chain := by
  obtain ⟨r, sim⟩ := sim_run created (fun _ _ _ _ _ _ _ apart _ => apart) run
  obtain ⟨v, im, tidy, -⟩ := sim.shown
  have idle' : Idle (loadDir s) := fun dev => by
    rw [loadDir_lfltab]
    exact idle dev
  exact ⟨v.ifree, v.dfree, v.chain, blocks_of_files tidy.files idle', iblocks_perm tidy.files,
    dblocks_perm tidy.files idle'⟩

end Blocks

section Directory

/-- The call opens a file that is open already. -/
def Reopens (s : FileSystem) : Call → Prop
  | .fopen name mode => Open.OpensAgain s name mode
  | _ => False

/-- The last file in use is closed with a clean directory that has an entry more than the disk:
an open made the entry, and did not mark the directory. -/
def LosesEntry (s : FileSystem) : Call → Prop
  | .close dev => (s.lfltab dev).lfstate = .used ∧
      (∀ other, other ≠ dev → (s.lfltab other).lfstate ≠ .used) ∧
      s.lfDirdirty = false ∧ (s.disk 0).asDir.lfdNfiles < s.lfDir.lfdNfiles
  | _ => False

/-- The directory sector has the directory in memory, if there is one. -/
def Current (s : FileSystem) : Prop := s.lfDirpresent = true → s.disk 0 = .directory s.lfDir

/-- The last close writes the directory, unless it loses an entry. -/
theorem current_lflclose (sim : Sim area s r) (used : (s.lfltab dev).lfstate = .used)
    (last : ∀ other, other ≠ dev → (s.lfltab other).lfstate ≠ .used) :
    (lflclose s dev).1.disk 0 = .directory (lflclose s dev).1.lfDir ↔
      ¬LosesEntry s (.close dev) := by
  obtain ⟨v, im, tidy, -⟩ := sim.shown
  obtain ⟨-, files, kept⟩ := tidy.at_used used
  obtain ⟨-, -, -, dir, -, -, -, sector⟩ := lflclose_spec files kept used
  obtain ⟨onDisk, isDir, fewer, current⟩ := kept
  rw [sector, dir]
  cases dirty : s.lfDirdirty with
  | true =>
      refine ⟨fun _ loses => ?_, fun _ => by simp⟩
      cases dirty.symm.trans loses.2.2.1
  | false =>
      rw [if_neg (by simp), isDir]
      constructor
      · intro equal loses
        have count := loses.2.2.2
        rw [isDir, equal] at count
        exact Nat.lt_irrefl _ count
      · intro keeps
        rcases current dirty with same | behind
        · rw [same]
        · refine absurd ⟨used, last, dirty, ?_⟩ keeps
          rw [isDir]
          exact behind

theorem current_loadDir (sim : Sim area s r) (before : Current s) : Current (loadDir s) := by
  intro _
  by_cases present : s.lfDirpresent = true
  · rw [loadDir_of_present present]
    exact before present
  · obtain ⟨v, im, tidy, -⟩ := sim.shown
    obtain ⟨dir, sector, -⟩ := tidy.kept
    have same : (loadDir s).disk 0 = s.disk 0 := by rw [loadDir, if_neg present]; rfl
    have loaded : (loadDir s).lfDir = (s.disk 0).asDir := by rw [loadDir, if_neg present]; rfl
    rw [same] at sector ⊢
    rw [loaded, sector]
    rfl

theorem openDevice_used {dev entry mbits : Nat} {name : CString} :
    ((openDevice s dev entry mbits name).lfltab dev).lfstate = .used := by
  simp [openDevice, FileSystem.setDev]

/-- One call keeps the directory on the disk up to date while no file is open. -/
theorem current_call (sim : Sim area s r) (before : Idle s → Current s)
    (keeps : ¬LosesEntry s event) (done : call s event = some (s', reply)) :
    Idle s' → Current s' := by
  have quiet : StaysUsed s s' → Idle s' → Current s' := fun stays idle => by
    rcases stays with rfl | ⟨dev, used⟩
    · exact before idle
    · exact absurd used (idle dev)
  cases event with
  | fopen name mode =>
      obtain ⟨rfl, -⟩ := Prod.mk.inj (Option.some.inj done)
      intro idle
      rcases lfsopen_cases s name mode with refused | ⟨mbits, dev, entry, old⟩ | ⟨mbits, dev, new⟩
      · rcases refused.left with same | same
        · rw [same] at idle ⊢
          exact before idle
        · rw [same] at idle ⊢
          refine current_loadDir sim (before fun dev => ?_)
          have unused := idle dev
          rwa [loadDir_lfltab] at unused
      · rw [old.result] at idle
        exact absurd openDevice_used (idle dev)
      · rw [new.result] at idle
        exact absurd openDevice_used (idle dev)
  | putc dev ch => exact quiet (call_putc sim done).2
  | write dev buff count => exact quiet (call_write sim done).2
  | getc dev => exact quiet (call_getc sim done).2
  | read dev count => exact quiet (call_read sim done).2
  | seek dev offset => exact quiet (call_seek sim done).2
  | truncate dev => exact quiet (call_truncate sim done).2
  | close dev =>
      obtain ⟨rfl, -⟩ := Prod.mk.inj (Option.some.inj done)
      intro idle
      by_cases used : (s.lfltab dev).lfstate = .used
      · have last : ∀ other, other ≠ dev → (s.lfltab other).lfstate ≠ .used := fun other ne => by
          obtain ⟨-, -, refused | ⟨-, others⟩⟩ := Open.lflclose_lfltab s dev
          · rw [refused] at idle
            exact absurd used (idle dev)
          · rw [← others other ne]
            exact idle other
        exact fun _ => (current_lflclose sim used last).mpr keeps
      · have same : (lflclose s dev).1 = s := by rw [lflclose, if_pos used]
        rw [same] at idle ⊢
        exact before idle

/-- A call that opens no file again, and that is not such a close. -/
def Keeps (s : FileSystem) (event : Call) (_ : FileSystem) : Prop :=
  ¬Reopens s event ∧ ¬LosesEntry s event

theorem distinct_of_keeps (sim : Sim area s r) (done : call s event = some (s', reply))
    (keeps : Keeps s event s') (isOpen : IsOpen event) : Distinct s' := by
  cases event with
  | fopen name mode =>
      obtain ⟨rfl, -⟩ := Prod.mk.inj (Option.some.inj done)
      exact (Open.opened_lfsopen (opened_of_sim sim) name mode keeps.1).distinct
  | _ => exact absurd isOpen id

/-- The directory on the disk is the one in memory whenever no pseudo-device is in use. -/
theorem directory_current (area : Area) (disk : Disk) (trace : List (Call × Reply))
    (s : FileSystem) (created : Created area disk) (run : Run Keeps disk trace s) :
    Idle s → Current s := by
  have both : (∃ r, Sim area s r) ∧ (Idle s → Current s) := by
    induction run with
    | start => exact ⟨⟨_, sim_created created⟩, fun _ present => by cases present⟩
    | step run done may ih =>
        obtain ⟨⟨r, sim⟩, before⟩ := ih
        exact ⟨(sim_call sim done (distinct_of_keeps sim done may)).shown,
          current_call sim before may.2 done⟩
  exact both.2

end Directory

section Examples

theorem idle_of_sim (sim : Sim area s r)
    (unused : ∀ dev < nlfl, (s.lfltab dev).lfstate ≠ .used) : Idle s :=
  fun dev used => unused dev (sim.inside dev used) used

/-- A file is written and closed. -/
def closedCalls : List Call :=
  [.fopen (Open.shortName 97) Open.readWrite, .write 0 hello 3, .close 0]

def closedState : FileSystem := endOf (lfsinit sampleDisk) closedCalls

theorem reached_closed :
    Reached sampleArea sampleDisk (played (lfsinit sampleDisk) closedCalls) closedState :=
  (((reached_start created_sample).fopen (Open.shortName 97) Open.readWrite (by decide)
    (by unfold Open.OpenName; decide +kernel)).call (.write 0 hello 3) (by decide +kernel) id).call
    (.close 0) (by decide +kernel) id

theorem idle_closed : Idle closedState := by
  obtain ⟨-, r, sim⟩ := reached_closed
  exact idle_of_sim sim (by decide +kernel)

theorem blocks_conserved_one :
    ∃ ifree dfree chain, Conserved sampleArea (loadDir closedState) ifree dfree chain :=
  blocks_conserved sampleArea sampleDisk (played (lfsinit sampleDisk) closedCalls) closedState
    created_sample (reached_closed.1.mono fun _ _ _ plain => plain.1) idle_closed

theorem directory_current_one : closedState.disk 0 = .directory closedState.lfDir := by
  have first : Keeps (lfsinit sampleDisk) (.fopen (Open.shortName 97) Open.readWrite)
      (endOf (lfsinit sampleDisk) (closedCalls.take 1)) := by
    refine ⟨?_, id⟩
    rintro ⟨⟨dev, -, used, -⟩, -⟩
    cases used
  have second : Keeps (endOf (lfsinit sampleDisk) (closedCalls.take 1)) (.write 0 hello 3)
      (endOf (lfsinit sampleDisk) (closedCalls.take 2)) := ⟨id, id⟩
  have third : Keeps (endOf (lfsinit sampleDisk) (closedCalls.take 2)) (.close 0) closedState := by
    refine ⟨id, ?_⟩
    rintro ⟨-, -, clean, -⟩
    exact absurd clean (by decide +kernel)
  have opened := Run.step .start (call_stepped (by decide +kernel)) first
  have written := Run.step opened (call_stepped (by decide +kernel)) second
  have run : Run Keeps sampleDisk (played (lfsinit sampleDisk) closedCalls) closedState :=
    Run.step written (call_stepped (by decide +kernel)) third
  exact directory_current sampleArea sampleDisk _ closedState created_sample run idle_closed
    (by decide +kernel)

/-- A file is made and closed without a write: it is not on the disk. -/
theorem entry_lost : ¬∀ area disk trace s, Created area disk → Run Apart disk trace s →
    Idle s → Current s := by
  intro always
  have reached := ((reached_start created_sample).fopen (Open.shortName 97) Open.readWrite
    (by decide) (by unfold Open.OpenName; decide +kernel)).call (.close 0) (by decide +kernel) id
  obtain ⟨run, r, sim⟩ := reached
  have current := always sampleArea sampleDisk _ _ created_sample
    (run.mono fun _ _ _ plain => plain.1) (idle_of_sim sim (by decide +kernel)) (by decide +kernel)
  have count := congrArg (fun sector : Sector => sector.asDir.lfdNfiles) current
  exact absurd count (by decide +kernel)

end Examples

end Xinu.Lfs.AllClosed
