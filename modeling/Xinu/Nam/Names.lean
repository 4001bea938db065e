import Xinu.Kernel.State
import Mathlib.Logic.Function.Basic
import Mathlib.Data.List.Basic
import Mathlib.Tactic.Common

/-!
# The namespace

The table of names, with `mount`, `namrepl` and `nammap`. A buffer is what its address holds, byte
by byte, and a string ends in front of the first null byte. `ndevs` is the number of devices, which
the configuration sets.
-/

namespace Xinu.Nam.Names

open Xinu.Kernel.State (sysErr ok)

set_option autoImplicit false

section Definitions

def nmPrelen : Nat := 64

def nmRepllen : Nat := 96

def nmMaxlen : Nat := 256

def nnamesLimit : Nat := 40

/-- The bytes behind a `char *` -/
abbrev Buffer := Nat → UInt8

structure Nmentry where
  nprefix : Buffer
  nreplace : Buffer
  ndevice : Int

structure Namespace where
  nametab : Nat → Nmentry
  nnames : Nat

/-- The loop of `namlen`, with the characters that it may still look at. -/
def countChars (name : Buffer) : Nat → Nat → Int
  | 0, _ => sysErr
  | left + 1, i => if name i = 0 then i + 1 else countChars name left (i + 1)

def namlen (name : Buffer) (maxlen : Nat) : Int := countChars name maxlen 0

/-- `count` bytes are copied, one after the other. -/
def copyBytes (source : Buffer) (src dst : Nat) : Nat → Buffer → Buffer
  | 0, target => target
  | count + 1, target =>
      Function.update (copyBytes source src dst count target) (dst + count) (source (src + count))

def isbaddev (ndevs : Nat) (device : Int) : Prop := device < 0 ∨ (ndevs : Int) ≤ device

instance (ndevs : Nat) (device : Int) : Decidable (isbaddev ndevs device) :=
  inferInstanceAs (Decidable (_ ∨ _))

def mount (ndevs : Nat) (s : Namespace) (pre replace : Buffer) (device : Int) : Namespace × Int :=
  let psiz := namlen pre nmPrelen
  let rsiz := namlen replace nmRepllen
  if psiz = sysErr ∨ rsiz = sysErr ∨ isbaddev ndevs device ∨ nnamesLimit ≤ s.nnames then (s, sysErr)
  else
    let namptr := s.nametab s.nnames
    ({ nametab := Function.update s.nametab s.nnames
          { nprefix := copyBytes pre 0 0 psiz.toNat namptr.nprefix
            nreplace := copyBytes replace 0 0 rsiz.toNat namptr.nreplace
            ndevice := device }
       nnames := s.nnames + 1 }, ok)

/-- The length of a prefix that the name begins with, from the place `plen` on -/
def matchPrefix (pre name : Buffer) : Nat → Nat → Option Nat
  | 0, _ => none
  | left + 1, plen =>
      if pre plen = 0 then some plen
      else if pre plen ≠ name plen then none
      else matchPrefix pre name left (plen + 1)

/-- The value of an `int32` in a `char`, which has a sign. -/
def toChar (value : Int) : Int := value.bmod 256

/-- What `namrepl` does with the entry that matches. `olen` is a `char`. -/
def substitute (namptr : Nmentry) (name : Buffer) (plen : Nat) (newname : Buffer) : Int × Buffer :=
  let olen := toChar (namlen name nmMaxlen)
  let rlen := namlen namptr.nreplace nmMaxlen - 1
  let remain := olen - plen
  if (nmMaxlen : Int) < rlen + remain then (sysErr, newname)
  else
    let newname := copyBytes namptr.nreplace 0 0 rlen.toNat newname
    (namptr.ndevice, copyBytes name plen rlen.toNat remain.toNat newname)

def namreplLoop (s : Namespace) (name newname : Buffer) : Nat → Nat → Int × Buffer
  | 0, _ => (sysErr, newname)
  | left + 1, i =>
      match matchPrefix ( Nmentry.nprefix (s.nametab i)) name nmPrelen 0 with
      | none => namreplLoop s name newname left (i + 1)
      | some plen => substitute (s.nametab i) name plen newname

/-- The device, and what `newname` holds behind the call -/
def namrepl (s : Namespace) (name newname : Buffer) : Int × Buffer :=
  namreplLoop s name newname s.nnames 0

/-- The loop of `namcpy`, with the room that is left in the buffer. -/
def copyName (oldname : Buffer) : Nat → Nat → Buffer → Buffer × Int
  | 0, _, newname => (newname, sysErr)
  | left + 1, cnt, newname =>
      let newname := Function.update newname cnt (oldname cnt)
      if oldname cnt = 0 then (newname, ok) else copyName oldname left (cnt + 1) newname

def namcpy (newname oldname : Buffer) (buflen : Nat) : Buffer × Int :=
  copyName oldname buflen 0 newname

/-- The rounds of `nammap`. The copy into `tmpname` is made where the call returns. -/
def nammapLoop (s : Namespace) (tmpname : Buffer) (namdev : Int) : Nat → Buffer → Int × Buffer
  | 0, newname => (sysErr, newname)
  | left + 1, newname =>
      let (newdev, newname) := namrepl s tmpname newname
      if newdev ≠ namdev then (newdev, newname) else nammapLoop s tmpname namdev left newname

/-- `tmpname` is what the stack holds. -/
def nammap (s : Namespace) (tmpname name newname : Buffer) (namdev : Int) : Int × Buffer :=
  let (tmpname, status) := namcpy tmpname name nmMaxlen
  if status = sysErr then (sysErr, newname)
  else nammapLoop s tmpname namdev s.nnames newname

end Definitions

section Strings

/-- The buffer has the characters of a string, and a null byte behind them. -/
structure Reads (buffer : Buffer) (chars : List UInt8) : Prop where
  inside : ∀ i, (below : i < chars.length) → buffer i = chars[i]
  ends : buffer chars.length = 0
  plain : 0 ∉ chars

/-- The buffer with other bytes at its beginning -/
def overwrite (buffer : Buffer) (bytes : List UInt8) : Buffer := fun i => bytes.getD i (buffer i)

variable {buffer : Buffer} {chars : List UInt8} {maxlen : Nat}

theorem Reads.ne_zero (reads : Reads buffer chars) {i : Nat} (below : i < chars.length) :
    buffer i ≠ 0 := by
  rw [reads.inside i below]
  exact fun zero => reads.plain (zero ▸ List.getElem_mem below)

theorem count_chars_reads {left i : Nat} (reads : Reads buffer chars) (before : i ≤ chars.length)
    (fits : chars.length < i + left) : countChars buffer left i = chars.length + 1 := by
  induction left generalizing i with
  | zero => omega
  | succ left induction =>
      unfold countChars
      by_cases last : i = chars.length
      · rw [last, if_pos reads.ends]
      · rw [if_neg (reads.ne_zero (by omega))]
        exact induction (by omega) (by omega)

theorem namlen_reads (reads : Reads buffer chars) (fits : chars.length < maxlen) :
    namlen buffer maxlen = chars.length + 1 :=
  count_chars_reads reads (Nat.zero_le _) (by omega)

/-- The characters that the loop has passed are no null bytes. -/
theorem count_chars_ends {left i : Nat} (found : countChars buffer left i ≠ sysErr)
    (passed : ∀ j < i, buffer j ≠ 0) :
    ∃ n, n < i + left ∧ buffer n = 0 ∧ ∀ j < n, buffer j ≠ 0 := by
  induction left generalizing i with
  | zero => exact (found rfl).elim
  | succ left induction =>
      unfold countChars at found
      split_ifs at found with ends
      · exact ⟨i, by omega, ends, passed⟩
      · obtain ⟨n, fits, zero, inside⟩ := induction found fun j below => by
          rcases Nat.lt_succ_iff_lt_or_eq.mp below with earlier | rfl
          · exact passed j earlier
          · exact ends
        exact ⟨n, by omega, zero, inside⟩

/-- Where `namlen` returns a length, there is a string. -/
theorem reads_of_namlen (found : namlen buffer maxlen ≠ sysErr) :
    ∃ chars, Reads buffer chars ∧ chars.length < maxlen := by
  obtain ⟨n, fits, zero, inside⟩ := count_chars_ends found fun j below => absurd below (by omega)
  refine ⟨(List.range n).map buffer, ⟨fun i below => by simp, by simpa using zero, ?_⟩, ?_⟩
  · intro member
    obtain ⟨j, below, same⟩ := List.mem_map.mp member
    exact inside j (List.mem_range.mp below) same
  · rw [List.length_map, List.length_range]
    omega

theorem copy_bytes_apply (source target : Buffer) (src dst count i : Nat) :
    copyBytes source src dst count target i =
      if dst ≤ i ∧ i < dst + count then source (src + (i - dst)) else target i := by
  induction count with
  | zero => rw [copyBytes, if_neg (by omega)]
  | succ count induction =>
      rw [copyBytes]
      by_cases last : i = dst + count
      · rw [last, Function.update_self, if_pos (by omega), Nat.add_sub_cancel_left]
      · rw [Function.update_of_ne last, induction]
        by_cases inside : dst ≤ i ∧ i < dst + count
        · rw [if_pos inside, if_pos (by omega)]
        · rw [if_neg inside, if_neg (by omega)]

/-- A string is copied with its null byte. -/
theorem copy_bytes_reads (reads : Reads buffer chars) (target : Buffer) :
    Reads (copyBytes buffer 0 0 (chars.length + 1) target) chars := by
  refine ⟨fun i below => ?_, ?_, reads.plain⟩
  · rw [copy_bytes_apply, if_pos (by omega)]
    simpa using reads.inside i below
  · rw [copy_bytes_apply, if_pos (by omega)]
    simpa using reads.ends

theorem copy_name_eq (oldname newname : Buffer) {left cnt : Nat} (reads : Reads oldname chars)
    (before : cnt ≤ chars.length) (fits : chars.length < cnt + left)
    (copied : ∀ i < cnt, newname i = oldname i) :
    (copyName oldname left cnt newname).2 = ok ∧
      Reads (copyName oldname left cnt newname).1 chars := by
  induction left generalizing cnt newname with
  | zero => omega
  | succ left induction =>
      unfold copyName
      dsimp only
      have next : ∀ i < cnt + 1, Function.update newname cnt (oldname cnt) i = oldname i := by
        intro i below
        by_cases last : i = cnt
        · rw [last, Function.update_self]
        · rw [Function.update_of_ne last]
          exact copied i (by omega)
      by_cases last : cnt = chars.length
      · rw [if_pos (last ▸ reads.ends)]
        refine ⟨rfl, fun i below => ?_, ?_, reads.plain⟩
        · exact (next i (by omega)).trans (reads.inside i below)
        · exact (next chars.length (by omega)).trans reads.ends
      · rw [if_neg (reads.ne_zero (by omega))]
        exact induction _ (by omega) (by omega) next

theorem namcpy_reads (newname : Buffer) (reads : Reads buffer chars)
    (fits : chars.length < maxlen) :
    (namcpy newname buffer maxlen).2 = ok ∧ Reads (namcpy newname buffer maxlen).1 chars :=
  copy_name_eq buffer newname reads (Nat.zero_le _) (by omega)
    fun i below => absurd below (by omega)

end Strings

end Xinu.Nam.Names
