import Xinu.Lfs.Create

/-!
# Files as lists of bytes

The purpose of the local file system: every file is a list of bytes, and every pseudo-device in
use is a position in one of them. The state of the code shows such files.
-/

namespace Xinu.Lfs.Reference

open Xinu.Kernel.State (sysErr ok)
open Xinu.Lfs.Device Xinu.Lfs.Accounts Xinu.Lfs.Storage Xinu.Lfs.Setup Xinu.Lfs.Layout
open Xinu.Lfs.Located Xinu.Lfs.Bytes Xinu.Lfs.Sessions

set_option autoImplicit false

section Files

/-- `device` has the file and the position of a pseudo-device in use. -/
structure FileStore where
  count : Nat
  name : Nat → CString
  bytes : Nat → List Byte
  device : Nat → Option (Nat × Nat)

/-- Bytes put in place of those at a position, and behind the last one. -/
def overwrite (bytes : List Byte) (pos : Nat) (data : List Byte) : List Byte :=
  bytes.take pos ++ data ++ bytes.drop (pos + data.length)

namespace FileStore

variable (r : FileStore) (dev : Nat)

def empty : FileStore :=
  { count := 0, name := fun _ _ => 0, bytes := fun _ => [], device := fun _ => none }

def moveTo (f pos : Nat) : FileStore :=
  { r with device := Function.update r.device dev (some (f, pos)) }

def setBytes (f : Nat) (data : List Byte) : FileStore :=
  { r with bytes := Function.update r.bytes f data }

/-- `data` is written at the position, which moves behind it. -/
def write (data : List Byte) : Option FileStore :=
  (r.device dev).map fun (f, pos) =>
    (r.setBytes f (overwrite (r.bytes f) pos data)).moveTo dev f (pos + data.length)

/-- Up to `count` bytes behind the position are read, and the position moves behind them. -/
def read (count : Nat) : Option (FileStore × List Byte) :=
  (r.device dev).map fun (f, pos) =>
    let data := ((r.bytes f).drop pos).take count
    (r.moveTo dev f (pos + data.length), data)

def seek (offset : Nat) : FileStore × Int :=
  match r.device dev with
  | none => (r, sysErr)
  | some (f, _) =>
      if offset ≤ (r.bytes f).length then (r.moveTo dev f offset, ok) else (r, sysErr)

def truncate : FileStore × Int :=
  match r.device dev with
  | none => (r, sysErr)
  | some (f, _) => ((r.setBytes f []).moveTo dev f 0, ok)

def close : FileStore × Int :=
  match r.device dev with
  | none => (r, sysErr)
  | some _ => ({ r with device := Function.update r.device dev none }, ok)

def freeDevice : Option Nat := (List.range nlfl).find? fun dev => (r.device dev).isNone

/-- The file of a name. -/
def lookup (name : CString) : Option Nat :=
  (List.range r.count).find? fun f => sameName name (r.name f) lfNameLen 0

/-- A file is opened at its beginning. A file that is not there is new. -/
def fopen (name : CString) (mode : List Byte) : FileStore × Int :=
  if ¬NameFits name then (r, sysErr)
  else
    match lfgetmode mode 0, r.freeDevice with
    | some mbits, some dev =>
        match r.lookup name with
        | some f => if mbits &&& lfModeN ≠ 0 then (r, sysErr) else (r.moveTo dev f 0, dev)
        | none =>
            if mbits &&& lfModeO ≠ 0 then (r, sysErr)
            else if lfNumDirEnt ≤ r.count then (r, sysErr)
            else
              ({ r with
                  count := r.count + 1
                  name := Function.update r.name r.count name
                  bytes := Function.update r.bytes r.count []
                  device := Function.update r.device dev (some (r.count, 0)) }, dev)
    | _, _ => (r, sysErr)

end FileStore

inductive Call where
  | fopen (name : CString) (mode : List Byte)
  | putc (dev : Nat) (ch : Byte)
  | write (dev : Nat) (buff : Nat → Byte) (count : Int)
  | getc (dev : Nat)
  | read (dev : Nat) (count : Int)
  | seek (dev offset : Nat)
  | truncate (dev : Nat)
  | close (dev : Nat)

/-- The result of a call, with the bytes that it read. -/
abbrev Reply := List Byte × Int

def call (s : FileSystem) : Call → Option (FileSystem × Reply)
  | .fopen name mode => some ((lfsopen s name mode).1, [], (lfsopen s name mode).2)
  | .putc dev ch => (lflputc s dev ch).map fun (s, result) => (s, [], result)
  | .write dev buff count => (lflwrite s dev buff count).map fun (s, result) => (s, [], result)
  | .getc dev => (lflgetc s dev).map fun (s, result) => (s, [], result)
  | .read dev count => lflread s dev count
  | .seek dev offset => some ((lflseek s dev offset).1, [], (lflseek s dev offset).2)
  | .truncate dev => (lflcontrolTrunc s dev).map fun (s, result) => (s, [], result)
  | .close dev => some ((lflclose s dev).1, [], (lflclose s dev).2)

/-- What a call does to the files. -/
def FileStore.call (r : FileStore) : Call → FileStore × Reply
  | .fopen name mode => ((r.fopen name mode).1, [], (r.fopen name mode).2)
  | .putc dev ch =>
      match r.write dev [ch] with
      | none => (r, [], sysErr)
      | some r => (r, [], ok)
  | .write dev buff count =>
      if count < 0 then (r, [], sysErr)
      else
        match r.write dev ((List.range count.toNat).map buff) with
        | none => (r, [], if count = 0 then 0 else sysErr)
        | some r => (r, [], count)
  | .getc dev =>
      match r.read dev 1 with
      | none => (r, [], sysErr)
      | some (_, []) => (r, [], eof)
      | some (r, byte :: _) => (r, [], byte.toNat)
  | .read dev count =>
      if count < 0 then (r, [], sysErr)
      else
        match r.read dev count.toNat with
        | none => (r, [], if count = 0 then 0 else sysErr)
        | some (r, data) => (r, data, if data = [] ∧ count ≠ 0 then eof else data.length)
  | .seek dev offset => ((r.seek dev offset).1, [], (r.seek dev offset).2)
  | .truncate dev => ((r.truncate dev).1, [], (r.truncate dev).2)
  | .close dev => ((r.close dev).1, [], (r.close dev).2)

end Files

section Shown

variable {area : Area} {v v' : Ledger} {im im' : Image} {s s' : FileSystem} {r : FileStore}
  {dev f pos : Nat}

/-- The bytes of a file as its blocks have them. -/
def contents (v : Ledger) (im : Image) (f size : Nat) : List Byte :=
  (List.range size).map (byteAt v im f)

/-- The names of the files are compared alike. -/
def SameNames (s : FileSystem) (r : FileStore) : Prop :=
  ∀ f < r.count, ∀ name, sameName name (s.lfDir.lfdFiles f).ldName lfNameLen 0 =
    sameName name (r.name f) lfNameLen 0

/-- The state shows these files, with the directory in memory. -/
structure Shows (v : Ledger) (im : Image) (s : FileSystem) (r : FileStore) : Prop where
  count : r.count = s.lfDir.lfdNfiles
  names : SameNames s r
  bytes : ∀ f < r.count, r.bytes f = contents v im f (sizes s f)
  device : ∀ dev, r.device dev =
    if (s.lfltab dev).lfstate = .used then some ((s.lfltab dev).lfdirptr, (s.lfltab dev).lfpos)
    else none

theorem contents_length (v : Ledger) (im : Image) (f size : Nat) :
    (contents v im f size).length = size := by
  simp [contents]

theorem contents_getElem? {size : Nat} (inside : pos < size) :
    (contents v im f size)[pos]? = some (byteAt v im f pos) := by
  simp [contents, inside]

/-- One byte is written in a file that reaches up to the position. -/
theorem contents_write {size size' : Nat} {ch : Byte} (upto : pos ≤ size)
    (grown : size' = max size (pos + 1))
    (bytes : ∀ other < size', byteAt v' im' f other =
      if other = pos then ch else byteAt v im f other) :
    contents v' im' f size' = overwrite (contents v im f size) pos [ch] := by
  apply List.ext_getElem?
  intro other
  rcases Nat.lt_or_ge other size' with inside | outside
  · rw [contents_getElem? inside, bytes other inside, overwrite]
    rcases Nat.lt_trichotomy other pos with before | rfl | behind
    · have short : other < ((contents v im f size).take pos ++ [ch]).length := by
        simp [contents_length]
        omega
      have front : other < ((contents v im f size).take pos).length := by
        simp [contents_length]
        omega
      rw [List.getElem?_append_left short, List.getElem?_append_left front,
        List.getElem?_take_of_lt before, contents_getElem? (by omega), if_neg (by omega)]
    · have front : ((contents v im f size).take other).length = other := by
        simp [contents_length, upto]
      rw [List.getElem?_append_left (by simp [front]),
        List.getElem?_append_right (by omega), front]
      simp
    · have front : ((contents v im f size).take pos ++ [ch]).length = pos + 1 := by
        simp [contents_length, upto]
      rw [List.getElem?_append_right (by omega), front, List.getElem?_drop,
        if_neg (by omega)]
      have place : pos + [ch].length + (other - (pos + 1)) = other := by
        simp only [List.length_singleton]
        omega
      rw [place, contents_getElem? (by omega)]
  · have ended : (contents v' im' f size')[other]? = none := by
      rw [List.getElem?_eq_none_iff, contents_length]
      exact outside
    have length : (overwrite (contents v im f size) pos [ch]).length = size' := by
      simp [overwrite, contents_length]
      omega
    rw [ended]
    exact (List.getElem?_eq_none_iff.mpr (by omega)).symm

theorem overwrite_snoc {bytes data : List Byte} {ch : Byte} (upto : pos ≤ bytes.length) :
    overwrite (overwrite bytes pos data) (pos + data.length) [ch] =
      overwrite bytes pos (data ++ [ch]) := by
  have front : (bytes.take pos ++ data).length = pos + data.length := by simp [upto]
  unfold overwrite
  rw [← front, List.take_left, List.drop_append]
  simp [upto, Nat.add_assoc]

end Shown

end Xinu.Lfs.Reference
