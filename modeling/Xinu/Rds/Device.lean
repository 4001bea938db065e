import Xinu.Kernel.State
import Xinu.Lib.LinkedQueue

/-!
# The remote disk

The control block of a remote disk device and what `rdsread`, `rdswrite`, `rdscontrol`,
`rdsbufalloc` and `rdsprocess` do to it between the points at which they can be switched out. A
buffer is on the request queue, in the cache or on the free list, and all three are linked through
the buffers themselves.
-/

namespace Xinu.Rds.Device

open Xinu.Kernel.State (sysErr ok)
open Xinu.Lib.LinkedQueue

set_option autoImplicit false

def rdBuffs : Nat := 64

/-- A 32-bit word that may be taken for a `struct rdbuff *`. The two ends of a list lie in the
control block. -/
inductive Ptr where
  | null
  | rhnext
  | rtnext
  | chnext
  | ctnext
  | buffer (i : Nat)
  | word (value : Int)
  deriving DecidableEq

inductive RdState where
  | free
  | opened
  | pending
  deriving DecidableEq

/-- `other` is what the ends of a list have in place of an operation. -/
inductive RdOp where
  | read
  | write
  | sync
  | other
  deriving DecidableEq

inductive RdStatus where
  | valid
  | invalid
  deriving DecidableEq

/-- A disk block, byte by byte. -/
abbrev Block := Nat → UInt8

/-- What a buffer holds besides its links. -/
structure RdBuff where
  rdOp : RdOp
  rdRefcnt : Int
  rdBlknum : Nat
  rdStatus : RdStatus
  rdPid : Int
  rdBlock : Block

structure Rdscblk where
  rdState : RdState
  rdNext : Ptr → Ptr
  rdPrev : Ptr → Ptr
  buff : Ptr → RdBuff
  rdFree : Ptr

def Rdscblk.set (r : Rdscblk) (p : Ptr) (change : RdBuff → RdBuff) : Rdscblk :=
  { r with buff := Function.update r.buff p (change (r.buff p)) }

section Lists

variable (r : Rdscblk) (bptr : Ptr)

/-- Unlinks a node from the list it is on. -/
def unlinkNode : Rdscblk :=
  let pptr := r.rdPrev bptr
  let nptr := r.rdNext bptr
  { r with
    rdNext := Function.update r.rdNext pptr nptr
    rdPrev := Function.update r.rdPrev nptr pptr }

/-- Inserts a request into the request queue just before its tail. -/
def appendRequest : Rdscblk :=
  let pptr := r.rdPrev .rtnext
  let prev := Function.update r.rdPrev .rtnext bptr
  let next := Function.update r.rdNext bptr (r.rdNext pptr)
  { r with
    rdNext := Function.update next pptr bptr
    rdPrev := Function.update prev bptr pptr }

/-- Inserts a buffer at the head of the cache. -/
def insertCache : Rdscblk :=
  let nptr := r.rdNext .chnext
  let next := Function.update r.rdNext bptr nptr
  let prev := Function.update r.rdPrev bptr .chnext
  { r with
    rdNext := Function.update next .chnext bptr
    rdPrev := Function.update prev nptr bptr }

def pushFree : Rdscblk :=
  { r with rdNext := Function.update r.rdNext bptr r.rdFree, rdFree := bptr }

variable (blk : Nat)

/-- The first cached buffer of a block, or the tail of the cache. A search that does not end finds
nothing. -/
def searchCache : Option Ptr :=
  seek r.rdNext .ctnext (fun p => (r.buff p).rdBlknum == blk) (rdBuffs + 1) (r.rdNext .chnext)

/-- The most recent request for a block, or the head of the request queue. -/
def searchRequests : Option Ptr :=
  seek r.rdPrev .rhnext (fun p => (r.buff p).rdBlknum == blk) (rdBuffs + 1) (r.rdPrev .rtnext)

/-- The first write request for a block, or the tail of the request queue. -/
def searchWrites : Option Ptr :=
  seek r.rdNext .rtnext (fun p => (r.buff p).rdBlknum == blk && (r.buff p).rdOp == .write)
    (rdBuffs + 1) (r.rdNext .rhnext)

/-- The first request for a block, or the tail of the request queue. -/
def searchReaders : Option Ptr :=
  seek r.rdNext .rtnext (fun p => (r.buff p).rdBlknum == blk) (rdBuffs + 1) (r.rdNext .rhnext)

end Lists

section Calls

variable (r : Rdscblk) (pid : Int) (blk : Nat) (bptr : Ptr)

/-- `rdsbufalloc` behind its `wait`. There is no result when it panics. -/
def rdsbufalloc : Option (Ptr × Rdscblk) :=
  if r.rdFree ≠ .null then some (r.rdFree, { r with rdFree := r.rdNext r.rdFree })
  else do
    let bptr ← seek r.rdPrev .chnext (fun p => decide ((r.buff p).rdRefcnt ≤ 0)) (rdBuffs + 1)
      (r.rdPrev .ctnext)
    if bptr = .chnext then none else some (bptr, unlinkNode r bptr)

/-- The two searches of `rdsread`, with the block it copies when one of them succeeds. -/
def rdsreadSearch : Option (Option Block) := do
  let bptr ← searchCache r blk
  if bptr ≠ .ctnext ∧ (r.buff bptr).rdStatus ≠ .invalid then some (some (r.buff bptr).rdBlock)
  else do
    let bptr ← searchRequests r blk
    if bptr ≠ .rhnext ∧ (r.buff bptr).rdOp = .write then some (some (r.buff bptr).rdBlock)
    else some none

/-- `rdsread` makes a request of the buffer it got and adds it to the queue. -/
def rdsreadRequest : Rdscblk :=
  appendRequest (r.set bptr fun buff => { buff with
    rdOp := .read, rdRefcnt := 1, rdBlknum := blk, rdStatus := .invalid, rdPid := pid }) bptr

/-- The same for `rdswrite`. -/
def rdswriteRequest (data : Block) : Rdscblk :=
  appendRequest (r.set bptr fun _ =>
    { rdBlock := data, rdOp := .write, rdRefcnt := 0, rdBlknum := blk, rdStatus := .valid,
      rdPid := pid }) bptr

/-- The same for `rdscontrol`. -/
def rdssyncRequest : Rdscblk :=
  appendRequest (r.set bptr fun buff => { buff with
    rdOp := .sync, rdRefcnt := 1, rdBlknum := 0, rdStatus := .invalid, rdPid := pid }) bptr

end Calls

section Service

variable (r : Rdscblk)

/-- `rdsprocess` moves the buffer of a request it has taken to the cache. -/
def moveToCache (bptr : Ptr) (refcnt : Int) : Rdscblk :=
  (insertCache (unlinkNode r bptr) bptr).set bptr fun buff => { buff with rdRefcnt := refcnt }

/-- What `rdsprocess` does to the lists when it has found another request for the block that it has
just read. It links the neighbours of the request with the links of `bptr`. -/
def dropReader (bptr qptr : Ptr) : Rdscblk :=
  let pptr := r.rdPrev qptr
  let nptr := r.rdNext qptr
  let next := Function.update r.rdNext pptr (r.rdNext bptr)
  pushFree { r with
    rdNext := next
    rdPrev := Function.update r.rdPrev nptr (r.rdPrev bptr) } qptr

end Service

section Initial

/-- `rdsinit`, on memory that holds anything, and `rdsopen` when the server accepts. -/
def rdsopen (r : Rdscblk) : Rdscblk where
  rdState := .opened
  rdNext := fun p =>
    match p with
    | .rhnext => .rtnext
    | .rtnext => .null
    | .chnext => .ctnext
    | .ctnext => .null
    | .buffer i => if i + 1 < rdBuffs then .buffer (i + 1) else .null
    | p => r.rdNext p
  rdPrev := fun p =>
    match p with
    | .rhnext => .null
    | .rtnext => .rhnext
    | .chnext => .null
    | .ctnext => .chnext
    | p => r.rdPrev p
  buff := fun p => { r.buff p with rdStatus := .invalid }
  rdFree := .buffer 0

end Initial

end Xinu.Rds.Device
