import Xinu.Lfs.Numbers
import Xinu.Lfs.Runs

/-!
# Processes on different files

Any number of processes, each with a call on a file of its own, take turns between the accesses to
the disk. A close puts the index block of its file without `lf_mutex`, and two puts in one sector
that overlap lose one of the blocks.
-/

namespace Xinu.Lfs.Interleaving

open Xinu.Kernel.State (sysErr ok)
open Xinu.Lfs.Device (Lfdir Lfiblk Lflcblk Sector Disk Byte FileSystem ib2sect ib2disp lfsinit
  lfsopen lflseek)
open Xinu.Lfs.Accounts Xinu.Lfs.Programs Xinu.Lfs.Numbers
open Xinu.Lfs.Create (Created created_sectors)

set_option autoImplicit false

section System

inductive Call where
  | putc (dev : Nat) (ch : Byte)
  | getc (dev : Nat)
  | truncate (dev : Nat)
  | close (dev : Nat)

def Call.dev : Call → Nat
  | .putc dev _ => dev
  | .getc dev => dev
  | .truncate dev => dev
  | .close dev => dev

def Call.closing : Call → Bool
  | .close _ => true
  | _ => false

/-- `fuel` is a bound on the turns of a loop of the call. -/
def Call.program (fuel : Nat) : Call → Prog Int
  | .putc dev ch => lflputc dev fuel ch
  | .getc dev => lflgetc dev fuel
  | .truncate dev => lflcontrolTrunc dev fuel
  | .close dev => lflclose dev

structure Running where
  dev : Nat
  closing : Bool
  rest : Prog Int

/-- `put` has what the last completed `lfibput` of each index block has put there. -/
structure System where
  disk : Disk
  memory : Memory
  lfMutex : Option Nat
  running : Nat → Option Running
  put : Nat → Option Lfiblk

namespace System

def files (s : System) : FileSystem where
  disk := s.disk
  lfDir := s.memory.lfDir
  lfDirpresent := s.memory.lfDirpresent
  lfDirdirty := s.memory.lfDirdirty
  lfltab := s.memory.lfltab

def setFiles (s : System) (files : FileSystem) : System :=
  { s with
    disk := files.disk
    memory :=
      { lfDir := files.lfDir
        lfDirpresent := files.lfDirpresent
        lfDirdirty := files.lfDirdirty
        lfltab := files.lfltab } }

def setRunning (s : System) (p : Nat) (running : Option Running) : System :=
  { s with running := Function.update s.running p running }

def started (disk : Disk) : System where
  disk := disk
  memory := { lfDir := Device.zeroDir, lfDirpresent := false, lfDirdirty := false,
              lfltab := fun _ => Device.lflinit }
  lfMutex := none
  running := fun _ => none
  put := fun _ => none

end System

/-- The next step of a process, unless it waits for the mutex or has ended. A step is one access
to the disk, one to the mutex, or a change in memory. -/
def advance (s : System) (p : Nat) (r : Running) : Option System :=
  match r.rest with
  | .done _ => some (s.setRunning p none)
  | .halt => none
  | .read sector _ next => some (s.setRunning p (some { r with rest := next (s.disk sector) }))
  | .write sector value iput next =>
      let s := s.setRunning p (some { r with rest := next })
      some { s with
        disk := Function.update s.disk sector value
        put := match iput with
          | none => s.put
          | some (inum, block) => Function.update s.put inum (some block) }
  | .wait next =>
      if s.lfMutex = none then
        some { s.setRunning p (some { r with rest := next }) with lfMutex := some p }
      else none
  | .signal next => some { s.setRunning p (some { r with rest := next }) with lfMutex := none }
  | .memory change next =>
      let memory := change s.memory
      some { s.setRunning p (some { r with rest := next memory }) with memory := memory }

/-- The sector of the put that the process begins with its next step. -/
def Begins (rest : Prog Int) (sector : Nat) : Prop :=
  match rest with
  | .read at_ (some _) _ => at_ = sector
  | _ => False

/-- The sector of the put that the process has begun. -/
def Within (rest : Prog Int) (sector : Nat) : Prop :=
  match rest with
  | .write at_ _ (some _) _ => at_ = sector
  | _ => False

/-- The process begins a put while another one has begun a put in the same sector, and one of the
two closes its file. -/
def Overlaps (s : System) (p : Nat) (r : Running) : Prop :=
  ∃ q other sector, q ≠ p ∧ s.running q = some other ∧ Begins r.rest sector ∧
    Within other.rest sector ∧ (r.closing = true ∨ other.closing = true)

inductive Event where
  | fopen (name : Device.CString) (mode : List Byte)
  | seek (dev offset : Nat)
  | calls (p fuel : Nat) (call : Call)
  | acts (p : Nat)

/-- The files are opened while nobody has the mutex. A call is on a file that is no other
process's. -/
inductive Step : System → Event → System → Prop where
  | fopen {s : System} {name : Device.CString} {mode : List Byte} (free : s.lfMutex = none) :
      Step s (.fopen name mode) (s.setFiles (lfsopen s.files name mode).1)
  | seek {s : System} {dev offset : Nat} (unused : ∀ q r, s.running q = some r → r.dev ≠ dev) :
      Step s (.seek dev offset) (s.setFiles (lflseek s.files dev offset).1)
  | calls {s : System} {p fuel : Nat} {call : Call} (idle : s.running p = none)
      (unused : ∀ q r, s.running q = some r → r.dev ≠ call.dev) :
      Step s (.calls p fuel call)
        (s.setRunning p (some ⟨call.dev, call.closing, call.program fuel⟩))
  | acts {s s' : System} {p : Nat} {r : Running} (has : s.running p = some r)
      (done : advance s p r = some s') : Step s (.acts p) s'

/-- The steps that `allowed` lets through, from a new disk on. -/
inductive Reaches (allowed : System → Event → Prop) (disk : Disk) : System → Prop where
  | start : Reaches allowed disk (.started disk)
  | step {s s' : System} {event : Event} (before : Reaches allowed disk s)
      (may : allowed s event) (step : Step s event s') : Reaches allowed disk s'

/-- An index block is read as it was put last. -/
def KeepsPuts (s : System) : Prop :=
  ∀ inum block, s.put inum = some block → Device.lfibget s.disk inum = block

def Apart (s : System) : Event → Prop
  | .acts p => ∀ r, s.running p = some r → ¬Overlaps s p r
  | _ => True

end System

section Invariant

variable {area : Area} {s s' : System} {p : Nat} {r : Running}

/-- The process has begun a put, and the sector is still as it was read. -/
def Mid (area : Area) (s : System) (p : Nat) (r : Running) : Prop :=
  ∃ inum block next, r.rest = .write (ib2sect inum) (putValue (s.disk (ib2sect inum)) inum block)
      (some (inum, block)) next ∧ inum < area.iblocks ∧ BlockOk area block ∧
    (r.closing = true ∨ s.lfMutex = some p) ∧
    Fine area r.closing (Ends false Any) (decide (s.lfMutex = some p)) next

def ProcOk (area : Area) (s : System) (p : Nat) (r : Running) : Prop :=
  Fine area r.closing (Ends false Any) (decide (s.lfMutex = some p)) r.rest ∨ Mid area s p r

structure Inv (area : Area) (s : System) : Prop where
  memory : MemoryOk area s.memory
  disk : ∀ sector, ReadOk area sector (s.disk sector)
  procs : ∀ p r, s.running p = some r → ProcOk area s p r
  idle : ∀ p, s.running p = none → s.lfMutex ≠ some p
  single : ∀ p q r r' sector, s.running p = some r → s.running q = some r' →
    Within r.rest sector → Within r'.rest sector → p = q
  puts : ∀ inum block, s.put inum = some block →
    inum < area.iblocks ∧ Device.lfibget s.disk inum = block

theorem fine_not_within {closing held : Bool} {post : Bool → Int → Prop} {rest : Prog Int}
    (fine : Fine area closing post held rest) (sector : Nat) : ¬Within rest sector := by
  cases fine <;> exact id

theorem mid_within (mid : Mid area s p r) {sector : Nat} (within_ : Within r.rest sector) :
    ∃ inum < area.iblocks, sector = ib2sect inum ∧
      (r.closing = true ∨ s.lfMutex = some p) := by
  obtain ⟨inum, block, next, is_, inside, -, guarded, -⟩ := mid
  rw [is_] at within_
  exact ⟨inum, inside, Eq.symm within_, guarded⟩

theorem procOk_within (ok : ProcOk area s p r) {sector : Nat} (within_ : Within r.rest sector) :
    ∃ inum < area.iblocks, sector = ib2sect inum ∧
      (r.closing = true ∨ s.lfMutex = some p) := by
  rcases ok with fine | mid
  · exact absurd within_ (fine_not_within fine sector)
  · exact mid_within mid within_

theorem procOk_frame (ok : ProcOk area s p r) (mutex : s'.lfMutex = some p ↔ s.lfMutex = some p)
    (disk : ∀ sector, Within r.rest sector → s'.disk sector = s.disk sector) :
    ProcOk area s' p r := by
  have held : decide (s'.lfMutex = some p) = decide (s.lfMutex = some p) := by simp [mutex]
  rcases ok with fine | ⟨inum, block, next, is_, inside, block_ok, guarded, fine⟩
  · exact .inl (held ▸ fine)
  · refine .inr ⟨inum, block, next, ?_, inside, block_ok, by rwa [mutex], held ▸ fine⟩
    rw [disk (ib2sect inum) (by rw [is_]; rfl)]
    exact is_

/-- What one process changes leaves the others as they are. -/
structure Changes (area : Area) (s s' : System) (p : Nat) (new : Option Running) : Prop where
  running : s'.running = Function.update s.running p new
  memory : MemoryOk area s'.memory
  disk : ∀ sector, ReadOk area sector (s'.disk sector)
  own : ∀ r, new = some r → ProcOk area s' p r
  idle : new = none → s'.lfMutex ≠ some p
  mutex : ∀ q, q ≠ p → (s'.lfMutex = some q ↔ s.lfMutex = some q)
  frame : ∀ q r sector, q ≠ p → s.running q = some r → Within r.rest sector →
    s'.disk sector = s.disk sector
  apart : ∀ q r r' sector, q ≠ p → s.running q = some r → new = some r' →
    Within r.rest sector → ¬Within r'.rest sector
  puts : ∀ inum block, s'.put inum = some block →
    inum < area.iblocks ∧ Device.lfibget s'.disk inum = block

theorem inv_of_changes (inv : Inv area s) {new : Option Running}
    (changes : Changes area s s' p new) : Inv area s' := by
  have self : s'.running p = new := by rw [changes.running, Function.update_self]
  have others : ∀ q, q ≠ p → s'.running q = s.running q := fun q ne => by
    rw [changes.running, Function.update_of_ne ne]
  refine ⟨changes.memory, changes.disk, fun q r has => ?_, fun q none_left => ?_,
    fun q q' r r' sector has has' within_ within_' => ?_, changes.puts⟩
  · by_cases same : q = p
    · subst same
      exact changes.own r (self.symm.trans has)
    · rw [others q same] at has
      exact procOk_frame (inv.procs q r has) (changes.mutex q same) fun sector within_ =>
        changes.frame q r sector same has within_
  · by_cases same : q = p
    · subst same
      exact changes.idle (self.symm.trans none_left)
    · rw [others q same] at none_left
      rw [Ne, changes.mutex q same]
      exact inv.idle q none_left
  · by_cases same : q = p <;> by_cases same' : q' = p
    · exact same.trans same'.symm
    · subst same
      rw [others q' same'] at has'
      exact absurd within_ (changes.apart q' r' r sector same' has' (self.symm.trans has) within_')
    · subst same'
      rw [others q same] at has
      exact absurd within_' (changes.apart q r r' sector same has (self.symm.trans has') within_)
    · rw [others q same] at has
      rw [others q' same'] at has'
      exact inv.single q q' r r' sector has has' within_ within_'

end Invariant

section Steps

variable {area : Area} {s s' : System} {p : Nat} {r : Running}

/-- A step that touches neither the disk nor the mutex. -/
theorem inv_quiet (inv : Inv area s) {memory : Memory} (ok : MemoryOk area memory)
    {new : Option Running}
    (own : ∀ r, new = some r →
      Fine area r.closing (Ends false Any) (decide (s.lfMutex = some p)) r.rest)
    (idle : new = none → s.lfMutex ≠ some p) :
    Inv area { s.setRunning p new with memory := memory } := by
  have changes : Changes area s { s.setRunning p new with memory := memory } p new := by
    refine ⟨rfl, ok, inv.disk, fun r has => .inl (own r has), idle, fun _ _ => Iff.rfl,
      fun _ _ _ _ _ _ => rfl, ?_, inv.puts⟩
    intro q r r' sector _ _ has _
    exact fine_not_within (own r' has) sector
  exact inv_of_changes inv changes

theorem readOk_put {value : Sector} {inum : Nat} {block : Lfiblk} (inside : inum < area.iblocks)
    (before : ReadOk area (ib2sect inum) value) (ok : BlockOk area block) :
    ReadOk area (ib2sect inum) (putValue value inum block) where
  dir := fun zero => absurd zero (Storage.ib2sect_pos inum)
  iblock := fun other insideOther sector => by
    by_cases same : ib2disp other = ib2disp inum
    · simpa [putValue, Sector.asIblks, same] using ok
    · simpa [putValue, Sector.asIblks, same] using before.iblock other insideOther sector
  next := fun outside => absurd rfl (dOk_ne_sector outside inside)

theorem readOk_update (inv : Inv area s) {sector : Nat} {value : Sector}
    (ok : ReadOk area sector value) (other : Nat) :
    ReadOk area other (Function.update s.disk sector value other) := by
  by_cases same : other = sector
  · subst same
    rw [Function.update_self]
    exact ok
  · rw [Function.update_of_ne same]
    exact inv.disk other

/-- A step of a process that has begun no put. -/
theorem inv_advance_fine (inv : Inv area s) (has : s.running p = some r)
    (fine : Fine area r.closing (Ends false Any) (decide (s.lfMutex = some p)) r.rest)
    (apart : ¬Overlaps s p r) (done : advance s p r = some s') : Inv area s' := by
  obtain ⟨dev, closing, rest⟩ := r
  dsimp only at fine
  unfold advance at done
  dsimp only at done
  generalize isHeld : decide (s.lfMutex = some p) = held at fine
  cases fine with
  | done ends =>
      obtain rfl := Option.some.inj done
      refine inv_quiet inv inv.memory (fun r none_left => by cases none_left) fun _ holds => ?_
      rw [ends.1] at isHeld
      exact absurd holds (by simpa using isHeld)
  | halt => cases done
  | read then_ =>
      obtain rfl := Option.some.inj done
      refine inv_quiet inv inv.memory (fun r isNew => ?_) nofun
      obtain rfl := Option.some.inj isNew
      rw [isHeld]
      exact then_ _ (inv.disk _)
  | @iput _ inum block next guarded inside ok then_ =>
      obtain rfl := Option.some.inj done
      have free : ∀ q other, q ≠ p → s.running q = some other →
          ¬Within other.rest (ib2sect inum) := fun q other ne hasOther within_ => by
        obtain ⟨-, -, -, guardedOther⟩ := procOk_within (inv.procs q other hasOther) within_
        by_cases closes : closing = true ∨ other.closing = true
        · exact apart ⟨q, other, ib2sect inum, ne, hasOther, rfl, within_, closes⟩
        · obtain ⟨open_, openOther⟩ := not_or.mp closes
          have holds : s.lfMutex = some p := by
            have isTrue := guarded.resolve_left open_
            rw [← isHeld] at isTrue
            simpa using isTrue
          have holdsOther := guardedOther.resolve_left openOther
          exact ne (Option.some.inj (holdsOther.symm.trans holds))
      refine inv_of_changes inv ⟨rfl, inv.memory, inv.disk, fun r isNew => ?_,
        nofun, fun _ _ => Iff.rfl, fun _ _ _ _ _ _ => rfl,
        fun q other r' sector ne hasOther isNew within_ => ?_, inv.puts⟩
      · obtain rfl := Option.some.inj isNew
        refine .inr ⟨inum, block, next, rfl, inside, ok, guarded.imp_right fun isTrue => ?_, ?_⟩
        · rw [← isHeld] at isTrue
          exact of_decide_eq_true isTrue
        · change Fine area closing (Ends false Any) (decide (s.lfMutex = some p)) next
          rw [isHeld]
          exact then_
      · obtain rfl := Option.some.inj isNew
        intro withinNew
        have same : ib2sect inum = sector := withinNew
        exact free q other ne hasOther (same ▸ within_)
  | @write _ sector value next outside ok then_ =>
      obtain rfl := Option.some.inj done
      refine inv_of_changes inv ⟨rfl, inv.memory, readOk_update inv ok, fun r isNew => .inl ?_,
        nofun, fun _ _ => Iff.rfl,
        fun q other at_ ne hasOther within_ => ?_,
        fun q other r' at_ ne hasOther isNew _ => ?_, fun inum block put => ?_⟩
      · obtain rfl := Option.some.inj isNew
        change Fine area closing (Ends false Any) (decide (s.lfMutex = some p)) next
        rw [isHeld]
        exact then_
      · obtain ⟨inum, inside, rfl, -⟩ := procOk_within (inv.procs q other hasOther) within_
        exact Function.update_of_ne (dOk_ne_sector outside inside).symm _ _
      · obtain rfl := Option.some.inj isNew
        exact fine_not_within then_ at_
      · obtain ⟨inside, kept⟩ := inv.puts inum block put
        refine ⟨inside, (Storage.lfibget_congr ?_).trans kept⟩
        exact Function.update_of_ne (dOk_ne_sector outside inside).symm _ _
  | @wait next then_ =>
      have notHeld : s.lfMutex ≠ some p := by simpa using isHeld
      split_ifs at done with free
      obtain rfl := Option.some.inj done
      refine inv_of_changes inv ⟨rfl, inv.memory, inv.disk, fun r isNew => .inl ?_,
        nofun, fun q ne => ?_, fun _ _ _ _ _ _ => rfl,
        fun q other r' at_ ne hasOther isNew _ => ?_, inv.puts⟩
      · obtain rfl := Option.some.inj isNew
        simpa using then_
      · rw [free]
        simp [Ne.symm ne]
      · obtain rfl := Option.some.inj isNew
        exact fine_not_within then_ at_
  | @signal next then_ =>
      have isHolder : s.lfMutex = some p := by simpa using isHeld
      obtain rfl := Option.some.inj done
      refine inv_of_changes inv ⟨rfl, inv.memory, inv.disk, fun r isNew => .inl ?_,
        nofun, fun q ne => ?_, fun _ _ _ _ _ _ => rfl,
        fun q other r' at_ ne hasOther isNew _ => ?_, inv.puts⟩
      · obtain rfl := Option.some.inj isNew
        simpa using then_
      · rw [isHolder]
        simp [Ne.symm ne]
      · obtain rfl := Option.some.inj isNew
        exact fine_not_within then_ at_
  | @memory _ change next keeps then_ =>
      obtain rfl := Option.some.inj done
      refine inv_quiet inv (keeps _ inv.memory) (fun r isNew => ?_)
        nofun
      obtain rfl := Option.some.inj isNew
      rw [isHeld]
      exact then_ _ inv.memory

/-- The write of a put. The sector is as it was read, so the other index blocks stay. -/
theorem inv_advance_mid (inv : Inv area s) (has : s.running p = some r) (mid : Mid area s p r)
    (done : advance s p r = some s') : Inv area s' := by
  obtain ⟨inum, block, next, is_, inside, ok, -, fine⟩ := mid
  have within_ : Within r.rest (ib2sect inum) := by rw [is_]; rfl
  rw [advance, is_] at done
  obtain rfl := Option.some.inj done
  refine inv_of_changes inv ⟨rfl, inv.memory,
    readOk_update inv (readOk_put inside (inv.disk _) ok), fun r' isNew => .inl ?_,
    nofun, fun _ _ => Iff.rfl,
    fun q other sector ne hasOther withinOther => ?_,
    fun q other r' sector ne hasOther isNew _ => ?_, fun other block' put => ?_⟩
  · obtain rfl := Option.some.inj isNew
    exact fine
  · refine Function.update_of_ne (fun same => ?_) _ _
    exact ne (inv.single q p other r sector hasOther has withinOther (same ▸ within_))
  · obtain rfl := Option.some.inj isNew
    exact fine_not_within fine sector
  · by_cases same : other = inum
    · subst same
      obtain rfl : block = block' := by
        simpa using put
      exact ⟨inside, Storage.lfibget_lfibput_self s.disk other block⟩
    · have kept := inv.puts other block' (by simpa [same, System.setRunning] using put)
      exact ⟨kept.1, (Storage.lfibget_lfibput_other s.disk block same).trans kept.2⟩

theorem inv_advance (inv : Inv area s) (has : s.running p = some r) (apart : ¬Overlaps s p r)
    (done : advance s p r = some s') : Inv area s' :=
  (inv.procs p r has).elim (fun fine => inv_advance_fine inv has fine apart done)
    fun mid => inv_advance_mid inv has mid done

theorem fine_program (some_blocks : 0 < area.iblocks) (fuel : Nat) (call : Call) :
    Fine area call.closing (Ends false Any) false (call.program fuel) := by
  cases call with
  | putc dev ch => exact fine_lflputc some_blocks dev fuel ch
  | getc dev => exact fine_lflgetc some_blocks dev fuel
  | truncate dev => exact fine_lflcontrolTrunc some_blocks dev fuel
  | close dev => exact fine_lflclose some_blocks dev

/-- Only the memory changes, in between the calls. -/
theorem inv_setFiles (inv : Inv area s) {files : FileSystem} (disk : files.disk = s.disk)
    (dir : DirOk area files.lfDir) (dev : ∀ dev, DevOk area (files.lfltab dev)) :
    Inv area (s.setFiles files) := by
  refine ⟨⟨dir, dev⟩, ?_, fun p r has => procOk_frame (inv.procs p r has) Iff.rfl fun sector _ => ?_,
    inv.idle, inv.single, ?_⟩
  · change ∀ sector, ReadOk area sector (files.disk sector)
    rw [disk]
    exact inv.disk
  · exact congrFun disk sector
  · change ∀ inum block, s.put inum = some block →
      inum < area.iblocks ∧ Device.lfibget files.disk inum = block
    rw [disk]
    exact inv.puts

theorem devOk_update {tab : Nat → Lflcblk} {dev : Nat} {lfptr : Lflcblk}
    (before : ∀ dev, DevOk area (tab dev)) (ok : DevOk area lfptr) (other : Nat) :
    DevOk area (Function.update tab dev lfptr other) := by
  by_cases same : other = dev
  · subst same
    rw [Function.update_self]
    exact ok
  · rw [Function.update_of_ne same]
    exact before other

/-- The directory read by an open. -/
theorem loadDir_ok (inv : Inv area s) : (Device.loadDir s.files).disk = s.disk ∧
    DirOk area (Device.loadDir s.files).lfDir ∧
    ∀ dev, DevOk area ((Device.loadDir s.files).lfltab dev) := by
  rw [Device.loadDir]
  split_ifs
  · exact ⟨rfl, inv.memory.dir, inv.memory.dev⟩
  · exact ⟨rfl, (inv.disk 0).dir rfl, inv.memory.dev⟩

theorem inv_fopen (inv : Inv area s) (name : Device.CString) (mode : List Byte) :
    Inv area (s.setFiles (lfsopen s.files name mode).1) := by
  obtain ⟨disk, dir, dev⟩ := loadDir_ok inv
  rcases Open.lfsopen_cases s.files name mode with
    refused | ⟨mbits, free, entry, old⟩ | ⟨mbits, free, new⟩
  · rcases refused.left with same | same
    · rw [same]
      exact inv_setFiles inv rfl inv.memory.dir inv.memory.dev
    · rw [same]
      exact inv_setFiles inv disk dir dev
  · rw [old.result]
    exact inv_setFiles inv disk dir
      (devOk_update dev ⟨iNumber_none, dNumber_none, (dev free).block⟩)
  · rw [new.result]
    refine inv_setFiles inv disk ⟨dir.ifree, dir.dfree, fun f => ?_⟩
      (devOk_update dev ⟨iNumber_none, dNumber_none, (dev free).block⟩)
    by_cases same : f = (Device.loadDir s.files).lfDir.lfdNfiles
    · subst same
      simpa [Device.openDevice, Device.newEntry, FileSystem.setDev, FileSystem.setEntry,
        FileSystem.setDir] using iNumber_none
    · simpa [Device.openDevice, Device.newEntry, FileSystem.setDev, FileSystem.setEntry,
        FileSystem.setDir, same] using dir.ilist f

theorem inv_seek (inv : Inv area s) (dev offset : Nat) :
    Inv area (s.setFiles (lflseek s.files dev offset).1) := by
  rw [lflseek]
  split_ifs
  · exact inv_setFiles inv rfl inv.memory.dir inv.memory.dev
  · exact inv_setFiles inv rfl inv.memory.dir inv.memory.dev
  · have ok := inv.memory.dev dev
    exact inv_setFiles inv rfl inv.memory.dir
      (devOk_update inv.memory.dev ⟨ok.inum, ok.dnum, ok.block⟩)

theorem inv_started {disk : Disk} (created : Created area disk) : Inv area (.started disk) := by
  obtain ⟨sector, some_blocks, iblocks, dblocks⟩ := created_sectors created
  have room := created.room
  have first : DOk area (area.ibsectors + 1) := .inr ⟨Nat.lt_succ_self _, room⟩
  have none_running : ∀ p r, (System.started disk).running p ≠ some r := fun p r has => by cases has
  have none_put : ∀ inum block, (System.started disk).put inum ≠ some block :=
    fun inum block put => by cases put
  have free : ∀ p, (System.started disk).lfMutex ≠ some p := fun p holds => by cases holds
  refine ⟨⟨dirOk_zero some_blocks, fun _ => ⟨iNumber_none, dNumber_some (.inl rfl),
      blockOk_zero some_blocks⟩⟩, fun at_ => ⟨fun zero => ?_, fun inum inside same => ?_,
    fun outside => ?_⟩, fun p r has => absurd has (none_running p r), fun p _ => free p,
    fun p _ r _ _ has => absurd has (none_running p r),
    fun inum block put => absurd put (none_put inum block)⟩
  · subst zero
    change DirOk area (disk 0).asDir
    rw [sector]
    exact ⟨iNumber_some some_blocks, dNumber_some first, fun _ => iNumber_some some_blocks⟩
  · subst same
    change BlockOk area (Device.lfibget disk inum)
    rw [iblocks inum inside]
    refine ⟨?_, fun _ => dNumber_none⟩
    dsimp only
    split_ifs with more
    · exact iNumber_some more
    · exact iNumber_none
  · change DNumber area (disk at_).asNext
    rcases outside with rfl | data
    · rw [sector]
      exact dNumber_some (.inl rfl)
    · rw [dblocks at_ data]
      change DNumber area (if at_ + 1 < area.dhigh then some (at_ + 1) else none)
      split_ifs with more
      · exact dNumber_some (.inr ⟨Nat.lt_succ_of_lt data.1, more⟩)
      · exact dNumber_none

/-- One step keeps the invariant, unless it begins such a put. -/
theorem inv_step (some_blocks : 0 < area.iblocks) (inv : Inv area s) {event : Event}
    (apart : Apart s event) (step : Step s event s') : Inv area s' := by
  cases step with
  | fopen free => exact inv_fopen inv _ _
  | seek unused => exact inv_seek inv _ _
  | @calls p fuel call idle unused =>
      have notHeld : decide (s.lfMutex = some p) = false := by simpa using inv.idle p idle
      refine inv_quiet inv inv.memory (fun r isNew => ?_) nofun
      obtain rfl := Option.some.inj isNew
      rw [notHeld]
      exact fine_program some_blocks fuel call
  | acts has done => exact inv_advance inv has (apart _ has) done

/-- A completed put of an index block is not undone, as long as no put begins while another one in
its sector has begun and one of the two is that of a close. -/
theorem puts_are_kept (area : Area) (disk : Disk) (s : System) (created : Created area disk)
    (run : Reaches Apart disk s) : KeepsPuts s := by
  have inv : Inv area s := by
    induction run with
    | start => exact inv_started created
    | step before may step ih => exact inv_step (created_sectors created).2.1 ih may step
  exact fun inum block put => (inv.puts inum block put).2

end Steps

section Examples

/-- A process takes its next step, if it can. -/
def act (s : System) (p : Nat) : System :=
  ((s.running p).bind (advance s p)).getD s

def acts (p : Nat) : Nat → System → System
  | 0, s => s
  | count + 1, s => acts p count (act s p)

/-- No other process has a call. -/
def Alone (p : Nat) (s : System) : Prop := ∀ q, q ≠ p → s.running q = none

variable {allowed : System → Event → Prop} {disk : Disk} {s s' : System} {p : Nat}

theorem reaches_act (run : Reaches allowed disk s) (may : allowed s (.acts p)) :
    Reaches allowed disk (act s p) := by
  unfold act
  cases has : s.running p with
  | none => exact run
  | some r =>
      cases done : advance s p r with
      | none => simpa [done] using run
      | some s' => simpa [done] using run.step may (.acts has done)

theorem advance_running {r : Running} (done : advance s p r = some s') :
    ∃ new, s'.running = Function.update s.running p new := by
  unfold advance at done
  split at done
  case h_5 =>
    split_ifs at done
    exact ⟨_, by rw [← Option.some.inj done]; rfl⟩
  case h_2 => cases done
  all_goals exact ⟨_, by rw [← Option.some.inj done]; rfl⟩

theorem alone_act (alone : Alone p s) : Alone p (act s p) := by
  unfold act
  cases has : s.running p with
  | none => exact alone
  | some r =>
      cases done : advance s p r with
      | none => simpa [done] using alone
      | some s' =>
          obtain ⟨new, running⟩ := advance_running done
          intro q ne
          simpa [done, running, ne] using alone q ne

theorem apart_alone (alone : Alone p s) : Apart s (.acts p) := by
  rintro r - ⟨q, other, -, ne, has, -⟩
  rw [alone q ne] at has
  cases has

/-- Steps of one process after the other, each alone. -/
theorem reaches_alone (run : Reaches Apart disk s) (alone : Alone p s) (count : Nat) :
    Reaches Apart disk (acts p count s) ∧ Alone p (acts p count s) := by
  induction count generalizing s with
  | zero => exact ⟨run, alone⟩
  | succ count ih => exact ih (reaches_act run (apart_alone alone)) (alone_act alone)

theorem reaches_mono {allowed' : System → Event → Prop} (run : Reaches allowed disk s)
    (more : ∀ s event, allowed s event → allowed' s event) : Reaches allowed' disk s := by
  induction run with
  | start => exact .start
  | step _ may step ih => exact .step ih (more _ _ may) step

def Free (_ : System) (_ : Event) : Prop := True

theorem reaches_free (run : Reaches Free disk s) (p count : Nat) :
    Reaches Free disk (acts p count s) := by
  induction count generalizing s with
  | zero => exact run
  | succ count ih => exact ih (reaches_act run trivial)

theorem quiet_of_alone (alone : Alone p s) (ended : (s.running p).isNone = true) :
    ∀ q, s.running q = none := fun q => by
  by_cases same : q = p
  · subst same
    exact Option.isNone_iff_eq_none.mp ended
  · exact alone q same

theorem reaches_fopen (run : Reaches Apart disk s) (free : s.lfMutex = none)
    (name : Device.CString) (mode : List Byte) :
    Reaches Apart disk (s.setFiles (lfsopen s.files name mode).1) := by
  have may : Apart s (.fopen name mode) := trivial
  exact run.step may (.fopen free)

/-- A call of a process while no other one has a call. -/
theorem reaches_calls (run : Reaches Apart disk s) (quiet : ∀ q, s.running q = none) (p fuel : Nat)
    (call : Call) :
    Reaches Apart disk (s.setRunning p (some ⟨call.dev, call.closing, call.program fuel⟩)) ∧
      Alone p (s.setRunning p (some ⟨call.dev, call.closing, call.program fuel⟩)) := by
  have may : Apart s (.calls p fuel call) := trivial
  refine ⟨run.step may (.calls (quiet p) fun q r has => ?_), fun q ne => ?_⟩
  · rw [quiet q] at has
    cases has
  · exact (Function.update_of_ne ne _ _).trans (quiet q)

/-- Two files are open. -/
def twoFiles : System :=
  let one := System.started Runs.sampleDisk
  let two := one.setFiles (lfsopen one.files (Open.shortName 97) Open.readWrite).1
  two.setFiles (lfsopen two.files (Open.shortName 98) Open.readWrite).1

/-- A process runs a call to its end. -/
def finish (p : Nat) (call : Call) (s : System) : System :=
  acts p 60 (s.setRunning p (some ⟨call.dev, call.closing, call.program 5⟩))

def twoBytes : System := finish 1 (.putc 1 34) (finish 0 (.putc 0 33) twoFiles)

theorem reaches_finish (run : Reaches Apart disk s) (quiet : ∀ q, s.running q = none) (p : Nat)
    (call : Call) (ended : ((finish p call s).running p).isNone = true) :
    Reaches Apart disk (finish p call s) ∧ ∀ q, (finish p call s).running q = none := by
  obtain ⟨called, alone⟩ := reaches_calls run quiet p 5 call
  obtain ⟨reached, alone'⟩ := reaches_alone called alone 60
  exact ⟨reached, quiet_of_alone alone' ended⟩

theorem reaches_twoBytes :
    Reaches Apart Runs.sampleDisk twoBytes ∧ ∀ q, twoBytes.running q = none := by
  have started : Reaches Apart Runs.sampleDisk (.started Runs.sampleDisk) := .start
  have opened : Reaches Apart Runs.sampleDisk twoFiles :=
    reaches_fopen (reaches_fopen started rfl (Open.shortName 97) Open.readWrite) rfl
      (Open.shortName 98) Open.readWrite
  have none_running : ∀ q, twoFiles.running q = none := fun _ => rfl
  obtain ⟨first, quiet⟩ := reaches_finish opened none_running 0 (.putc 0 33) (by decide +kernel)
  unfold twoBytes
  exact reaches_finish first quiet 1 (.putc 1 34) (by decide +kernel)

/-- The files are closed one after the other. -/
theorem puts_are_kept_two : KeepsPuts (finish 1 (.close 1) (finish 0 (.close 0) twoBytes)) := by
  obtain ⟨run, quiet⟩ := reaches_twoBytes
  obtain ⟨first, quiet'⟩ := reaches_finish run quiet 0 (.close 0) (by decide +kernel)
  obtain ⟨second, -⟩ := reaches_finish first quiet' 1 (.close 1) (by decide +kernel)
  exact puts_are_kept Runs.sampleArea Runs.sampleDisk _ Runs.created_sample second

def twoCloses (s : System) : System :=
  (s.setRunning 0 (some ⟨0, true, lflclose 0⟩)).setRunning 1 (some ⟨1, true, lflclose 1⟩)

/-- Two processes begin to close their files. -/
theorem reaches_two_closes (run : Reaches Apart disk s) (quiet : ∀ q, s.running q = none) :
    Reaches Free disk (twoCloses s) := by
  have before : Reaches Free disk s := reaches_mono run fun _ _ _ => trivial
  have first : Step s (.calls 0 5 (.close 0)) (s.setRunning 0 (some ⟨0, true, lflclose 0⟩)) :=
    .calls (quiet 0) fun q r has => by
      rw [quiet q] at has
      cases has
  have idle : (s.setRunning 0 (some ⟨0, true, lflclose 0⟩)).running 1 = none := quiet 1
  have second : Step (s.setRunning 0 (some ⟨0, true, lflclose 0⟩)) (.calls 1 5 (.close 1))
      (twoCloses s) :=
    .calls idle fun q r has => by
      by_cases same : q = 0
      · subst same
        have is_ : (⟨0, true, lflclose 0⟩ : Running) = r := by simpa [System.setRunning] using has
        rw [← is_]
        decide
      · simp [System.setRunning, same, quiet q] at has
  exact (before.step trivial first).step trivial second

/-- Both closes have read the sector of the index blocks, and write it one after the other. -/
def bothClosed : System := acts 1 1 (acts 0 1 (acts 1 8 (acts 0 11 (twoCloses twoBytes))))

theorem put_is_lost : ¬∀ area disk s, Created area disk → Reaches Free disk s → KeepsPuts s := by
  intro always
  obtain ⟨run, quiet⟩ := reaches_twoBytes
  have both := reaches_free (reaches_two_closes run quiet) 0 11
  have reached := reaches_free (reaches_free (reaches_free both 1 8) 0 1) 1 1
  change Reaches Free Runs.sampleDisk bothClosed at reached
  have kept := always Runs.sampleArea Runs.sampleDisk bothClosed Runs.created_sample reached
  have put : (bothClosed.put 0).map (fun block => block.ibDba 0) = some (some 2) := by
    decide +kernel
  obtain ⟨block, isPut, first⟩ := Option.map_eq_some_iff.mp put
  have lost : (Device.lfibget bothClosed.disk 0).ibDba 0 = none := by decide +kernel
  rw [kept 0 block isPut, first] at lost
  cases lost

end Examples

end Xinu.Lfs.Interleaving
