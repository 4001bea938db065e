import Xinu.Kernel.State
import Mathlib.Logic.Function.Basic
import Mathlib.Data.List.Basic

/-!
# The local file system

The disk as an array of sectors, the directory and the control blocks of the pseudo-devices in
memory, and the calls of the file system, each of them run to its end. A null block number is
`none`. A sector is read as what was last written to it; read as anything else it is zeros. A
call has no result when it panics, because no free block is left, or when it does not end.
-/

namespace Xinu.Lfs.Device

open Xinu.Kernel.State (sysErr ok word32)

set_option autoImplicit false

section Data

abbrev Byte := UInt8

def nlfl : Nat := 6

def lfNameLen : Nat := 16

def lfNumDirEnt : Nat := 20

def lfBlksiz : Nat := 512

def lfIblen : Nat := 16

def lfIdata : Nat := 8192

def lfAreaIb : Nat := 1

/-- Index blocks in a sector. -/
def ibPerSector : Nat := 7

def dfill : Byte := 43

def eof : Int := -2

/-- The characters behind a `char *`. -/
abbrev CString := Nat → Byte

structure Lfiblk where
  ibNext : Option Nat
  ibOffset : Nat
  ibDba : Nat → Option Nat

structure Ldentry where
  ldSize : Nat
  ldIlist : Option Nat
  ldName : CString

structure Lfdir where
  lfdDfree : Option Nat
  lfdIfree : Option Nat
  lfdNfiles : Nat
  lfdFiles : Nat → Ldentry

def zeroIblk : Lfiblk := { ibNext := some 0, ibOffset := 0, ibDba := fun _ => some 0 }

def zeroDir : Lfdir :=
  { lfdDfree := some 0
    lfdIfree := some 0
    lfdNfiles := 0
    lfdFiles := fun _ => { ldSize := 0, ldIlist := some 0, ldName := fun _ => 0 } }

inductive Sector where
  | directory (dir : Lfdir)
  | iblks (blocks : Nat → Lfiblk)
  | data (bytes : Nat → Byte)
  | dbfree (next : Option Nat)

namespace Sector

def asDir : Sector → Lfdir
  | .directory dir => dir
  | _ => zeroDir

def asIblks : Sector → Nat → Lfiblk
  | .iblks blocks => blocks
  | _ => fun _ => zeroIblk

def asBytes : Sector → Nat → Byte
  | .data bytes => bytes
  | _ => fun _ => 0

/-- `lf_nextdb` -/
def asNext : Sector → Option Nat
  | .dbfree next => next
  | _ => some 0

end Sector

inductive LfState where
  | free
  | used
  deriving DecidableEq

/-- `lfdirptr` is an index into the directory, and `lfbyte` one into `lfdblock`. -/
structure Lflcblk where
  lfstate : LfState
  lfdirptr : Nat
  lfmode : Nat
  lfpos : Nat
  lfname : CString
  lfinum : Option Nat
  lfiblock : Lfiblk
  lfdnum : Option Nat
  lfdblock : Nat → Byte
  lfbyte : Nat
  lfibdirty : Bool
  lfdbdirty : Bool

abbrev Disk := Nat → Sector

structure FileSystem where
  disk : Disk
  lfDir : Lfdir
  lfDirpresent : Bool
  lfDirdirty : Bool
  lfltab : Nat → Lflcblk

namespace FileSystem

variable (s : FileSystem)

def write (sector : Nat) (value : Sector) : FileSystem :=
  { s with disk := Function.update s.disk sector value }

def setDev (dev : Nat) (lfptr : Lflcblk) : FileSystem :=
  { s with lfltab := Function.update s.lfltab dev lfptr }

def setDir (dir : Lfdir) : FileSystem := { s with lfDir := dir }

def setEntry (entry : Nat) (ldptr : Ldentry) : FileSystem :=
  s.setDir { s.lfDir with lfdFiles := Function.update s.lfDir.lfdFiles entry ldptr }

/-- `write(lf_dskdev, &lf_dir, LF_AREA_DIR)` -/
def writeDir : FileSystem := s.write 0 (.directory s.lfDir)

end FileSystem

end Data

section Blocks

def ib2sect (inum : Nat) : Nat := inum / ibPerSector + lfAreaIb

def ib2disp (inum : Nat) : Nat := inum % ibPerSector

def lfibget (disk : Disk) (inum : Nat) : Lfiblk := (disk (ib2sect inum)).asIblks (ib2disp inum)

def lfibput (disk : Disk) (inum : Nat) (block : Lfiblk) : Disk :=
  Function.update disk (ib2sect inum)
    (.iblks (Function.update (disk (ib2sect inum)).asIblks (ib2disp inum) block))

def lfibclear (offset : Nat) : Lfiblk :=
  { ibNext := none, ibOffset := offset, ibDba := fun _ => none }

variable (s : FileSystem)

def FileSystem.putIblock (inum : Nat) (block : Lfiblk) : FileSystem :=
  { s with disk := lfibput s.disk inum block }

def lfiballoc : Option (Nat × FileSystem) :=
  match s.lfDir.lfdIfree with
  | none => none
  | some ibnum =>
      let taken := s.setDir { s.lfDir with lfdIfree := (lfibget s.disk ibnum).ibNext }
      some (ibnum, { taken.writeDir with lfDirdirty := false })

def lfdballoc : Option (Nat × FileSystem) :=
  match s.lfDir.lfdDfree with
  | none => none
  | some dnum =>
      let taken := s.setDir { s.lfDir with lfdDfree := (s.disk dnum).asNext }
      some (dnum, { taken.writeDir with lfDirdirty := false })

def lfdbfree (dnum : Nat) : FileSystem :=
  let freed := s.setDir { s.lfDir with lfdDfree := some dnum }
  (freed.write dnum (.dbfree s.lfDir.lfdDfree)).writeDir

end Blocks

section Positions

def flushDir (s : FileSystem) : FileSystem :=
  if s.lfDirdirty = true then { s.writeDir with lfDirdirty := false } else s

def flushData (s : FileSystem) (dev : Nat) : FileSystem :=
  let lfptr := s.lfltab dev
  match lfptr.lfdbdirty, lfptr.lfdnum with
  | true, some dnum =>
      (s.write dnum (.data lfptr.lfdblock)).setDev dev { lfptr with lfdbdirty := false }
  | _, _ => s.setDev dev { lfptr with lfdbdirty := false }

def flushIndex (s : FileSystem) (dev : Nat) : FileSystem :=
  let lfptr := s.lfltab dev
  match lfptr.lfibdirty, lfptr.lfinum with
  | true, some inum =>
      (s.putIblock inum lfptr.lfiblock).setDev dev { lfptr with lfibdirty := false }
  | _, _ => s.setDev dev { lfptr with lfibdirty := false }

def lfflush (s : FileSystem) (dev : Nat) : FileSystem :=
  if (s.lfltab dev).lfstate = .free then s
  else flushIndex (flushData (flushDir s) dev) dev

theorem flushDir_lfltab (s : FileSystem) : (flushDir s).lfltab = s.lfltab := by
  rw [flushDir]
  split_ifs <;> rfl

theorem flushDir_lfDir (s : FileSystem) : (flushDir s).lfDir = s.lfDir := by
  rw [flushDir]
  split_ifs <;> rfl

/-- What the second part of a flush leaves: the disk alone, and the flag of the block, change. -/
theorem flushData_eq (s : FileSystem) (dev : Nat) : ∃ disk, flushData s dev =
    { s with
      disk := disk
      lfltab := Function.update s.lfltab dev { s.lfltab dev with lfdbdirty := false } } := by
  unfold flushData
  dsimp only
  split
  · exact ⟨_, rfl⟩
  · exact ⟨s.disk, rfl⟩

theorem flushIndex_eq (s : FileSystem) (dev : Nat) : ∃ disk, flushIndex s dev =
    { s with
      disk := disk
      lfltab := Function.update s.lfltab dev { s.lfltab dev with lfibdirty := false } } := by
  unfold flushIndex
  dsimp only
  split
  · exact ⟨_, rfl⟩
  · exact ⟨s.disk, rfl⟩

/-- A flush changes the disk and lowers the flags. -/
theorem lfflush_eq (s : FileSystem) (dev : Nat) (used : (s.lfltab dev).lfstate = .used) :
    ∃ disk, lfflush s dev =
      { s with
        disk := disk
        lfDirdirty := false
        lfltab := Function.update s.lfltab dev
          { s.lfltab dev with lfdbdirty := false, lfibdirty := false } } := by
  have written : flushDir s = { s with disk := (flushDir s).disk, lfDirdirty := false } := by
    rw [flushDir]
    split_ifs with dirty
    · rfl
    · have lowered : s.lfDirdirty = false := Bool.not_eq_true _ ▸ dirty
      rw [← lowered]
  obtain ⟨first, data⟩ := flushData_eq (flushDir s) dev
  obtain ⟨second, index⟩ := flushIndex_eq (flushData (flushDir s) dev) dev
  refine ⟨second, ?_⟩
  rw [lfflush, if_neg (by simp [used]), index, data, written]
  simp

def Dirty (lfptr : Lflcblk) : Prop := lfptr.lfibdirty = true ∨ lfptr.lfdbdirty = true

instance (lfptr : Lflcblk) : Decidable (Dirty lfptr) := inferInstanceAs (Decidable (_ ∨ _))

/-- The first index block of the file, new when the file is empty, or the one in memory. -/
def setupFirst (s : FileSystem) (dev : Nat) : Option FileSystem :=
  let lfptr := s.lfltab dev
  let ldptr := s.lfDir.lfdFiles lfptr.lfdirptr
  match lfptr.lfinum with
  | none =>
      match ldptr.ldIlist with
      | none => do
          let (ibnum, s) ← lfiballoc s
          let s := s.setEntry lfptr.lfdirptr { ldptr with ldIlist := some ibnum }
          some (s.setDev dev { lfptr with
            lfiblock := lfibclear 0, lfinum := some ibnum, lfibdirty := true })
      | some ibnum =>
          some (s.setDev dev { lfptr with lfiblock := lfibget s.disk ibnum, lfinum := some ibnum })
  | some _ =>
      if lfptr.lfpos < lfptr.lfiblock.ibOffset then
        ldptr.ldIlist.map fun ibnum =>
          s.setDev dev { lfptr with lfiblock := lfibget s.disk ibnum, lfinum := some ibnum }
      else some s

/-- One turn of the loop that looks for the index block of the position. -/
def setupNext (s : FileSystem) (dev inum : Nat) : Option FileSystem :=
  let lfptr := s.lfltab dev
  match lfptr.lfiblock.ibNext with
  | none => do
      let (ibnum, s) ← lfiballoc s
      let s := s.putIblock inum { lfptr.lfiblock with ibNext := some ibnum }
      some (s.setDev dev { lfptr with
        lfinum := some ibnum
        lfiblock := lfibclear (lfptr.lfiblock.ibOffset + lfIdata)
        lfibdirty := true
        lfdnum := none })
  | some ibnum =>
      some (s.setDev dev { lfptr with
        lfiblock := lfibget s.disk ibnum, lfinum := some ibnum, lfdnum := none })

/-- `lfpos & ~LF_IMASK` -/
def posArea (pos : Nat) : Nat := pos / lfIdata * lfIdata

def setupLoop (dev : Nat) : Nat → FileSystem → Option FileSystem
  | 0, _ => none
  | fuel + 1, s =>
      let lfptr := s.lfltab dev
      if lfptr.lfiblock.ibOffset < posArea lfptr.lfpos then
        lfptr.lfinum.bind fun inum => (setupNext s dev inum).bind (setupLoop dev fuel)
      else some s

/-- The data block of the position, new when the index block has none. -/
def setupData (s : FileSystem) (dev : Nat) : Option FileSystem :=
  let lfptr := s.lfltab dev
  let dindex := lfptr.lfpos % lfIdata / lfBlksiz
  let lfbyte := lfptr.lfpos % lfBlksiz
  match lfptr.lfiblock.ibDba dindex with
  | none => do
      let (dnum, s) ← lfdballoc s
      some (s.setDev dev { lfptr with
        lfdblock := fun _ => dfill
        lfiblock := { lfptr.lfiblock with
          ibDba := Function.update lfptr.lfiblock.ibDba dindex (some dnum) }
        lfibdirty := true
        lfdnum := some dnum
        lfbyte := lfbyte })
  | some dnum =>
      if lfptr.lfdnum = some dnum then some (s.setDev dev { lfptr with lfbyte := lfbyte })
      else
        some (s.setDev dev { lfptr with
          lfdblock := (s.disk dnum).asBytes
          lfdbdirty := false
          lfdnum := some dnum
          lfbyte := lfbyte })

def lfsetup (s : FileSystem) (dev : Nat) : Option FileSystem := do
  let s := if Dirty (s.lfltab dev) then lfflush s dev else s
  let s ← setupFirst s dev
  let s ← setupLoop dev ((s.lfltab dev).lfpos / lfIdata + 1) s
  setupData s dev

end Positions

section Calls

variable (s : FileSystem) (dev : Nat)

/-- The setup in front of a byte, when the byte pointer is outside of the block. -/
def enterBlock : Option FileSystem :=
  if lfBlksiz ≤ (s.lfltab dev).lfbyte then lfsetup s dev else some s

/-- The size grows with a byte at the end. -/
def extendFile : FileSystem :=
  let lfptr := s.lfltab dev
  let ldptr := s.lfDir.lfdFiles lfptr.lfdirptr
  if ldptr.ldSize ≤ lfptr.lfpos then
    { s.setEntry lfptr.lfdirptr { ldptr with ldSize := ldptr.ldSize + 1 } with lfDirdirty := true }
  else s

def storeByte (ch : Byte) : FileSystem :=
  let lfptr := s.lfltab dev
  (extendFile s dev).setDev dev { lfptr with
    lfdblock := Function.update lfptr.lfdblock lfptr.lfbyte ch
    lfbyte := lfptr.lfbyte + 1
    lfpos := lfptr.lfpos + 1
    lfdbdirty := true }

def lflputc (ch : Byte) : Option (FileSystem × Int) :=
  if (s.lfltab dev).lfstate ≠ .used then some (s, sysErr)
  else if (s.lfDir.lfdFiles (s.lfltab dev).lfdirptr).ldSize < (s.lfltab dev).lfpos then
    some (s, sysErr)
  else (enterBlock s dev).map fun s => (storeByte s dev ch, ok)

def nextByte : FileSystem :=
  let lfptr := s.lfltab dev
  s.setDev dev { lfptr with lfbyte := lfptr.lfbyte + 1, lfpos := lfptr.lfpos + 1 }

def lflgetc : Option (FileSystem × Int) :=
  if (s.lfltab dev).lfstate ≠ .used then some (s, sysErr)
  else if (s.lfDir.lfdFiles (s.lfltab dev).lfdirptr).ldSize ≤ (s.lfltab dev).lfpos then
    some (s, eof)
  else (enterBlock s dev).map fun s =>
    (nextByte s dev, ((s.lfltab dev).lfdblock (s.lfltab dev).lfbyte).toNat)

def lflseek (offset : Nat) : FileSystem × Int :=
  let lfptr := s.lfltab dev
  if lfptr.lfstate ≠ .used then (s, sysErr)
  else if (s.lfDir.lfdFiles lfptr.lfdirptr).ldSize < offset then (s, sysErr)
  else (s.setDev dev { lfptr with lfpos := offset, lfbyte := lfBlksiz }, ok)

/-- The data blocks of an index block are freed one after the other. -/
def freeBlocks (iblock : Lfiblk) : Nat → FileSystem → FileSystem
  | 0, s => s
  | count + 1, s =>
      let s := freeBlocks iblock count s
      match iblock.ibDba count with
      | none => s
      | some dnum => lfdbfree s dnum

def truncateLoop (ifree : Option Nat) : Nat → Option Nat → FileSystem → Option FileSystem
  | 0, _, _ => none
  | fuel + 1, nextib, s =>
      if nextib = ifree then some s
      else
        nextib.bind fun inum =>
          let iblock := lfibget s.disk inum
          let s := freeBlocks iblock lfIblen s
          let next := if iblock.ibNext = none then ifree else iblock.ibNext
          truncateLoop ifree fuel next
            (s.putIblock inum { ibNext := next, ibOffset := 0, ibDba := fun _ => none })

/-- The loop ends at the latest behind the last index block of the file. -/
def lftruncate : Option (FileSystem × Int) :=
  let lfptr := s.lfltab dev
  let ldptr := s.lfDir.lfdFiles lfptr.lfdirptr
  if ldptr.ldSize = 0 then some (s, ok)
  else do
    let s := if Dirty lfptr then lfflush s dev else s
    let s := s.setDev dev { s.lfltab dev with
      lfpos := 0, lfinum := none, lfdnum := none, lfbyte := lfBlksiz }
    let ifree := s.lfDir.lfdIfree
    let firstib := ldptr.ldIlist
    let s := s.setEntry lfptr.lfdirptr { ldptr with ldIlist := none, ldSize := 0 }
    let s ← truncateLoop ifree (ldptr.ldSize / lfIdata + 2) firstib { s with lfDirdirty := true }
    some ({ s.setDir { s.lfDir with lfdIfree := firstib } with lfDirdirty := true }, ok)

/-- `lflcontrol(dev, LF_CTL_TRUNC)` -/
def lflcontrolTrunc : Option (FileSystem × Int) :=
  if (s.lfltab dev).lfstate ≠ .used then some (s, sysErr) else lftruncate s dev

def lflclose : FileSystem × Int :=
  if (s.lfltab dev).lfstate ≠ .used then (s, sysErr)
  else
    let s :=
      if s.lfDirdirty = true ∨ Dirty (s.lfltab dev) then lfflush s dev else s
    (s.setDev dev { s.lfltab dev with lfstate := .free }, ok)

def readLoop : Nat → List Byte → FileSystem → Option (FileSystem × List Byte × Int)
  | 0, buff, s => some (s, buff, buff.length)
  | left + 1, buff, s => do
      let (s, nxtbyte) ← lflgetc s dev
      if nxtbyte = sysErr then some (s, buff, sysErr)
      else if nxtbyte = eof then some (s, buff, if buff = [] then eof else buff.length)
      else readLoop left (buff ++ [UInt8.ofNat nxtbyte.toNat]) s

/-- The bytes read are part of the result. -/
def lflread (count : Int) : Option (FileSystem × List Byte × Int) :=
  if count < 0 then some (s, [], sysErr) else readLoop dev count.toNat [] s

/-- The flag is lowered once a byte is refused. -/
def writeLoop (buff : Nat → Byte) : Nat → FileSystem → Option (FileSystem × Bool)
  | 0, s => some (s, true)
  | count + 1, s => do
      let (s, accepted) ← writeLoop buff count s
      if accepted = false then some (s, false)
      else do
        let (s, result) ← lflputc s dev (buff count)
        some (s, decide (result ≠ sysErr))

def lflwrite (buff : Nat → Byte) (count : Int) : Option (FileSystem × Int) :=
  if count < 0 then some (s, sysErr)
  else do
    let (s, accepted) ← writeLoop dev buff count.toNat s
    some (s, if accepted = true then count else sysErr)

end Calls

section Open

def lfModeR : Nat := 1

def lfModeW : Nat := 2

def lfModeRW : Nat := 3

def lfModeN : Nat := 4

def lfModeO : Nat := 8

/-- The mode bits of a mode string, which ends in front of its null character. -/
def lfgetmode : List Byte → Nat → Option Nat
  | [], mbits => some (if mbits &&& lfModeRW = 0 then mbits ||| lfModeRW else mbits)
  | ch :: mode, mbits =>
      if ch = 114 then
        if mbits &&& lfModeR ≠ 0 then none else lfgetmode mode (mbits ||| lfModeR)
      else if ch = 119 then
        if mbits &&& lfModeW ≠ 0 then none else lfgetmode mode (mbits ||| lfModeW)
      else if ch = 111 then
        if mbits &&& lfModeO ≠ 0 ∨ mbits &&& lfModeN ≠ 0 then none
        else lfgetmode mode (mbits ||| lfModeO)
      else if ch = 110 then
        if mbits &&& lfModeO ≠ 0 ∨ mbits &&& lfModeN ≠ 0 then none
        else lfgetmode mode (mbits ||| lfModeN)
      else none

/-- The comparison of a name with another one, character by character. `fuel` is a bound on the
length of `nam`. -/
def sameName (nam cmp : CString) : Nat → Nat → Bool
  | 0, _ => false
  | fuel + 1, i =>
      if nam i = 0 then cmp i == 0
      else if nam i ≠ cmp i then false
      else sameName nam cmp fuel (i + 1)

/-- `while ((*to++ = *from++) != NULLCH)` -/
def copyName (source : CString) : Nat → Nat → CString → CString
  | 0, _, target => target
  | fuel + 1, i, target =>
      let target := Function.update target i (source i)
      if source i = 0 then target else copyName source fuel (i + 1) target

/-- `while ((*to = *from++) != NULLCH)` -/
def copyToFirst (source : CString) : Nat → Nat → CString → CString
  | 0, _, target => target
  | fuel + 1, i, target =>
      let target := Function.update target 0 (source i)
      if source i = 0 then target else copyToFirst source fuel (i + 1) target

variable (s : FileSystem)

/-- The name has its null character within its length. -/
def NameFits (name : CString) : Prop := ∃ i < lfNameLen, name i = 0

instance (name : CString) : Decidable (NameFits name) := by
  unfold NameFits
  infer_instance

/-- The first pseudo-device that is free. -/
def freeDevice : Option Nat :=
  (List.range nlfl).find? fun dev => decide ((s.lfltab dev).lfstate = .free)

/-- The comparison with the names of the files that are open. -/
def alreadyOpen (name : CString) : Prop :=
  ∃ dev < nlfl, (s.lfltab dev).lfstate = .used ∧
    sameName name (s.lfltab dev).lfname lfNameLen 0 = true

instance (name : CString) : Decidable (alreadyOpen s name) := by
  unfold alreadyOpen
  infer_instance

/-- The directory is read when it is not in memory yet. -/
def loadDir : FileSystem :=
  if s.lfDirpresent = true then s
  else { s.setDir (s.disk 0).asDir with lfDirpresent := true }

/-- The entry of a name in the directory. -/
def findEntry (name : CString) : Option Nat :=
  (List.range s.lfDir.lfdNfiles).find? fun i =>
    sameName name (s.lfDir.lfdFiles i).ldName lfNameLen 0

/-- A new entry for an empty file. -/
def newEntry (name : CString) : FileSystem :=
  let entry := s.lfDir.lfdNfiles
  let counted := s.setDir { s.lfDir with lfdNfiles := entry + 1 }
  counted.setEntry entry
    { ldSize := 0
      ldIlist := none
      ldName := copyName name lfNameLen 0 (s.lfDir.lfdFiles entry).ldName }

/-- The pseudo-device of a file that has just been opened. -/
def openDevice (dev entry mbits : Nat) (name : CString) : FileSystem :=
  let lfptr := s.lfltab dev
  s.setDev dev { lfptr with
    lfstate := .used
    lfdirptr := entry
    lfmode := mbits &&& lfModeRW
    lfpos := 0
    lfname := copyToFirst name lfNameLen 0 lfptr.lfname
    lfinum := none
    lfdnum := none
    lfbyte := lfBlksiz
    lfibdirty := false
    lfdbdirty := false }

/-- The result is the minor number of the pseudo-device. -/
def lfsopen (name : CString) (mode : List Byte) : FileSystem × Int :=
  if ¬NameFits name then (s, sysErr)
  else
    match lfgetmode mode 0, freeDevice s with
    | some mbits, some lfnext =>
        if alreadyOpen s name then (s, sysErr)
        else
          let s := loadDir s
          match findEntry s name with
          | some entry =>
              if mbits &&& lfModeN ≠ 0 then (s, sysErr)
              else (openDevice s lfnext entry mbits name, lfnext)
          | none =>
              if mbits &&& lfModeO ≠ 0 then (s, sysErr)
              else if lfNumDirEnt ≤ s.lfDir.lfdNfiles then (s, sysErr)
              else (openDevice (newEntry s name) lfnext s.lfDir.lfdNfiles mbits name, lfnext)
    | _, _ => (s, sysErr)

end Open

section Creation

/-- The free index blocks in front of the last one. -/
def createIblocks : Nat → Disk → Disk
  | 0, disk => disk
  | i + 1, disk => lfibput (createIblocks i disk) i { lfibclear 0 with ibNext := some (i + 1) }

/-- The free data blocks in front of the last one. -/
def createDblocks (dbindex : Nat) : Nat → Disk → Disk
  | 0, disk => disk
  | i + 1, disk =>
      Function.update (createDblocks dbindex i disk) (dbindex + i) (.dbfree (some (dbindex + i + 1)))

/-- Both counts of the loops are unsigned words. -/
def lfscreate (disk : Disk) (lfiblks dsiz : Nat) : Option Disk :=
  let sectors := dsiz / lfBlksiz
  let ibsectors := (lfiblks + (ibPerSector - 1)) / ibPerSector
  let lfiblks := ibsectors * ibPerSector
  if sectors / 2 < ibsectors then none
  else
    let dbindex := ibsectors + 1
    let dblks := (word32 + sectors - ibsectors - 1) % word32
    let disk := Function.update disk 0 (.directory { zeroDir with lfdDfree := some dbindex })
    let disk := createIblocks (lfiblks - 1) disk
    let disk := lfibput disk (lfiblks - 1) (lfibclear 0)
    let last := (word32 + dblks - 1) % word32
    let disk := createDblocks dbindex last disk
    some (Function.update disk (dbindex + last) (.dbfree none))

/-- `lflinit` -/
def lflinit : Lflcblk :=
  { lfstate := .free
    lfdirptr := 0
    lfmode := 0
    lfpos := 0
    lfname := fun _ => 0
    lfinum := none
    lfiblock := zeroIblk
    lfdnum := some 0
    lfdblock := fun _ => 0
    lfbyte := lfBlksiz
    lfibdirty := false
    lfdbdirty := false }

/-- The file system behind `lfsinit` and `lflinit`. -/
def lfsinit (disk : Disk) : FileSystem :=
  { disk := disk
    lfDir := zeroDir
    lfDirpresent := false
    lfDirdirty := false
    lfltab := fun _ => lflinit }

end Creation

end Xinu.Lfs.Device
