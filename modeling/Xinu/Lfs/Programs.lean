import Xinu.Lfs.Device

/-!
# Calls as programs

The calls of the file system, disk access by disk access: what a process reads and writes, what it
changes in memory in between, and where it takes and gives back `lf_mutex`. A process has a file
to itself, so the mutex of the file is left out.
-/

namespace Xinu.Lfs.Programs

open Xinu.Kernel.State (sysErr ok)
open Xinu.Lfs.Device

set_option autoImplicit false

section Memory

/-- The file system without the disk. -/
structure Memory where
  lfDir : Lfdir
  lfDirpresent : Bool
  lfDirdirty : Bool
  lfltab : Nat → Lflcblk

def Memory.setDev (m : Memory) (dev : Nat) (lfptr : Lflcblk) : Memory :=
  { m with lfltab := Function.update m.lfltab dev lfptr }

def Memory.setEntry (m : Memory) (entry : Nat) (ldptr : Ldentry) : Memory :=
  { m with lfDir := { m.lfDir with lfdFiles := Function.update m.lfDir.lfdFiles entry ldptr } }

end Memory

section Programs

/-- What a process still has to do. The read of `lfibput` is marked with the index block, and its
write with what was put. -/
inductive Prog (α : Type) where
  | done (value : α)
  | halt
  | read (sector : Nat) (iput : Option Nat) (next : Sector → Prog α)
  | write (sector : Nat) (value : Sector) (iput : Option (Nat × Lfiblk)) (next : Prog α)
  | wait (next : Prog α)
  | signal (next : Prog α)
  | memory (change : Memory → Memory) (next : Memory → Prog α)

namespace Prog

variable {α β : Type}

def bind (first : Prog α) (f : α → Prog β) : Prog β :=
  match first with
  | .done value => f value
  | .halt => .halt
  | .read sector iput next => .read sector iput fun value => (next value).bind f
  | .write sector value iput next => .write sector value iput (next.bind f)
  | .wait next => .wait (next.bind f)
  | .signal next => .signal (next.bind f)
  | .memory change next => .memory change fun m => (next m).bind f

instance : Monad Prog where
  pure := .done
  bind := bind

end Prog

def getMemory : Prog Memory := .memory id .done

def modify (change : Memory → Memory) : Prog Unit := .memory change fun _ => .done ()

def modifyDev (dev : Nat) (change : Lflcblk → Lflcblk) : Prog Unit :=
  modify fun m => m.setDev dev (change (m.lfltab dev))

def writeSector (sector : Nat) (value : Sector) : Prog Unit := .write sector value none (.done ())

def waitMutex : Prog Unit := .wait (.done ())

def signalMutex : Prog Unit := .signal (.done ())

end Programs

section Blocks

def lfibget (inum : Nat) : Prog Lfiblk :=
  .read (ib2sect inum) none fun value => .done (value.asIblks (ib2disp inum))

/-- The sector is read, one of its index blocks replaced, and the sector written back. -/
def lfibput (inum : Nat) (block : Lfiblk) : Prog Unit :=
  .read (ib2sect inum) (some inum) fun value =>
    .write (ib2sect inum) (.iblks (Function.update value.asIblks (ib2disp inum) block))
      (some (inum, block)) (.done ())

def writeDir : Prog Unit := do
  let m ← getMemory
  writeSector 0 (.directory m.lfDir)

def lfiballoc : Prog Nat := do
  let m ← getMemory
  match m.lfDir.lfdIfree with
  | none => .halt
  | some ibnum => do
      let iblock ← lfibget ibnum
      modify fun m => { m with lfDir := { m.lfDir with lfdIfree := iblock.ibNext } }
      writeDir
      modify fun m => { m with lfDirdirty := false }
      return ibnum

def lfdballoc : Prog Nat := do
  let m ← getMemory
  match m.lfDir.lfdDfree with
  | none => .halt
  | some dnum => do
      let next ← .read dnum none fun value => .done value.asNext
      modify fun m => { m with lfDir := { m.lfDir with lfdDfree := next } }
      writeDir
      modify fun m => { m with lfDirdirty := false }
      return dnum

def lfdbfree (dnum : Nat) : Prog Unit := do
  let m ← getMemory
  modify fun m => { m with lfDir := { m.lfDir with lfdDfree := some dnum } }
  writeSector dnum (.dbfree m.lfDir.lfdDfree)
  writeDir

end Blocks

section Positions

def flushDir : Prog Unit := do
  let m ← getMemory
  if m.lfDirdirty = true then do
    writeDir
    modify fun m => { m with lfDirdirty := false }
  else return

def flushData (dev : Nat) : Prog Unit := do
  let m ← getMemory
  match (m.lfltab dev).lfdbdirty, (m.lfltab dev).lfdnum with
  | true, some dnum => writeSector dnum (.data (m.lfltab dev).lfdblock)
  | _, _ => pure ()
  modifyDev dev fun lfptr => { lfptr with lfdbdirty := false }

def flushIndex (dev : Nat) : Prog Unit := do
  let m ← getMemory
  match (m.lfltab dev).lfibdirty, (m.lfltab dev).lfinum with
  | true, some inum => lfibput inum (m.lfltab dev).lfiblock
  | _, _ => pure ()
  modifyDev dev fun lfptr => { lfptr with lfibdirty := false }

def lfflush (dev : Nat) : Prog Unit := do
  let m ← getMemory
  if (m.lfltab dev).lfstate = .free then return
  else do
    flushDir
    flushData dev
    flushIndex dev

/-- An index block of the file is read into the control block. -/
def loadIblock (dev ibnum : Nat) : Prog Unit := do
  let iblock ← lfibget ibnum
  modifyDev dev fun lfptr => { lfptr with lfiblock := iblock, lfinum := some ibnum }

def setupFirst (dev : Nat) : Prog Unit := do
  let m ← getMemory
  let lfptr := m.lfltab dev
  let ldptr := m.lfDir.lfdFiles lfptr.lfdirptr
  match lfptr.lfinum, ldptr.ldIlist with
  | none, none => do
      let ibnum ← lfiballoc
      modifyDev dev fun lfptr => { lfptr with lfiblock := lfibclear 0 }
      modify fun m => m.setEntry lfptr.lfdirptr
        { m.lfDir.lfdFiles lfptr.lfdirptr with ldIlist := some ibnum }
      modifyDev dev fun lfptr => { lfptr with lfibdirty := true, lfinum := some ibnum }
  | none, some ibnum => loadIblock dev ibnum
  | some _, first =>
      if lfptr.lfpos < lfptr.lfiblock.ibOffset then
        match first with
        | none => .halt
        | some ibnum => loadIblock dev ibnum
      else return

def setupNext (dev inum : Nat) : Prog Unit := do
  let m ← getMemory
  let iblock := (m.lfltab dev).lfiblock
  match iblock.ibNext with
  | none => do
      let ibnum ← lfiballoc
      lfibput inum { iblock with ibNext := some ibnum }
      modifyDev dev fun lfptr => { lfptr with
        lfinum := some ibnum
        lfiblock := lfibclear (iblock.ibOffset + lfIdata)
        lfibdirty := true }
  | some ibnum => loadIblock dev ibnum
  modifyDev dev fun lfptr => { lfptr with lfdnum := none }

def setupLoop (dev : Nat) : Nat → Prog Unit
  | 0 => .halt
  | fuel + 1 => do
      let m ← getMemory
      let lfptr := m.lfltab dev
      if lfptr.lfiblock.ibOffset < posArea lfptr.lfpos then
        match lfptr.lfinum with
        | none => .halt
        | some inum => do
            setupNext dev inum
            setupLoop dev fuel
      else return

def setupData (dev : Nat) : Prog Unit := do
  let m ← getMemory
  let lfptr := m.lfltab dev
  let dindex := lfptr.lfpos % lfIdata / lfBlksiz
  match lfptr.lfiblock.ibDba dindex with
  | none => do
      let dnum ← lfdballoc
      modifyDev dev fun lfptr => { lfptr with
        lfdblock := fun _ => dfill
        lfiblock := { lfptr.lfiblock with
          ibDba := Function.update lfptr.lfiblock.ibDba dindex (some dnum) }
        lfibdirty := true
        lfdnum := some dnum
        lfbyte := lfptr.lfpos % lfBlksiz }
  | some dnum =>
      if lfptr.lfdnum = some dnum then
        modifyDev dev fun lfptr => { lfptr with lfbyte := lfptr.lfpos % lfBlksiz }
      else do
        let bytes ← .read dnum none fun value => .done value.asBytes
        modifyDev dev fun lfptr => { lfptr with
          lfdblock := bytes
          lfdbdirty := false
          lfdnum := some dnum
          lfbyte := lfptr.lfpos % lfBlksiz }

/-- `fuel` is a bound on the turns of the loop. -/
def lfsetup (dev fuel : Nat) : Prog Unit := do
  waitMutex
  let m ← getMemory
  if Dirty (m.lfltab dev) then lfflush dev
  setupFirst dev
  setupLoop dev fuel
  setupData dev
  signalMutex

end Positions

section Calls

variable (dev fuel : Nat)

def enterBlock : Prog Unit := do
  let m ← getMemory
  if lfBlksiz ≤ (m.lfltab dev).lfbyte then lfsetup dev fuel else return

/-- The byte is stored, and the size grows with a byte at the end. -/
def storeByte (ch : Byte) : Prog Unit := do
  modify fun m =>
    let lfptr := m.lfltab dev
    let ldptr := m.lfDir.lfdFiles lfptr.lfdirptr
    if ldptr.ldSize ≤ lfptr.lfpos then
      { m.setEntry lfptr.lfdirptr { ldptr with ldSize := ldptr.ldSize + 1 } with lfDirdirty := true }
    else m
  modifyDev dev fun lfptr => { lfptr with
    lfdblock := Function.update lfptr.lfdblock lfptr.lfbyte ch
    lfbyte := lfptr.lfbyte + 1
    lfpos := lfptr.lfpos + 1
    lfdbdirty := true }

def lflputc (ch : Byte) : Prog Int := do
  let m ← getMemory
  if (m.lfltab dev).lfstate ≠ .used then return sysErr
  else if (m.lfDir.lfdFiles (m.lfltab dev).lfdirptr).ldSize < (m.lfltab dev).lfpos then
    return sysErr
  else do
    enterBlock dev fuel
    storeByte dev ch
    return ok

def lflgetc : Prog Int := do
  let m ← getMemory
  if (m.lfltab dev).lfstate ≠ .used then return sysErr
  else if (m.lfDir.lfdFiles (m.lfltab dev).lfdirptr).ldSize ≤ (m.lfltab dev).lfpos then return eof
  else do
    enterBlock dev fuel
    let m ← getMemory
    modifyDev dev fun lfptr => { lfptr with lfbyte := lfptr.lfbyte + 1, lfpos := lfptr.lfpos + 1 }
    return ((m.lfltab dev).lfdblock (m.lfltab dev).lfbyte).toNat

def freeBlocks (iblock : Lfiblk) : Nat → Prog Unit
  | 0 => return
  | count + 1 => do
      freeBlocks iblock count
      match iblock.ibDba count with
      | none => return
      | some dnum => lfdbfree dnum

def truncateLoop (ifree : Option Nat) : Nat → Option Nat → Prog Unit
  | 0, _ => .halt
  | fuel + 1, nextib =>
      if nextib = ifree then return
      else
        match nextib with
        | none => .halt
        | some inum => do
            let iblock ← lfibget inum
            freeBlocks iblock lfIblen
            let next := if iblock.ibNext = none then ifree else iblock.ibNext
            lfibput inum { ibNext := next, ibOffset := 0, ibDba := fun _ => none }
            truncateLoop ifree fuel next

def lftruncate : Prog Unit := do
  let m ← getMemory
  let entry := (m.lfltab dev).lfdirptr
  let ldptr := m.lfDir.lfdFiles entry
  if ldptr.ldSize = 0 then return
  else do
    if Dirty (m.lfltab dev) then lfflush dev
    modifyDev dev fun lfptr => { lfptr with
      lfpos := 0, lfinum := none, lfdnum := none, lfbyte := lfBlksiz }
    let m ← getMemory
    modify fun m => { m.setEntry entry { m.lfDir.lfdFiles entry with ldIlist := none, ldSize := 0 }
      with lfDirdirty := true }
    truncateLoop m.lfDir.lfdIfree fuel ldptr.ldIlist
    modify fun m => { m with lfDir := { m.lfDir with lfdIfree := ldptr.ldIlist }, lfDirdirty := true }

def lflcontrolTrunc : Prog Int := do
  let m ← getMemory
  if (m.lfltab dev).lfstate ≠ .used then return sysErr
  else do
    waitMutex
    lftruncate dev fuel
    signalMutex
    return ok

def lflclose : Prog Int := do
  let m ← getMemory
  if (m.lfltab dev).lfstate ≠ .used then return sysErr
  else do
    if m.lfDirdirty = true ∨ Dirty (m.lfltab dev) then lfflush dev
    modifyDev dev fun lfptr => { lfptr with lfstate := .free }
    return ok

end Calls

end Xinu.Lfs.Programs
