import Xinu.Kernel.State
import Xinu.Lib.Interleaving
import Xinu.Lib.Semaphores
import Xinu.Lib.SingleList
import Mathlib.Algebra.Order.BigOperators.Group.Finset
import Mathlib.Algebra.BigOperators.Fin
import Mathlib.Data.Multiset.Range
import Mathlib.Logic.Function.Basic

/-!
# Ports

`ptcreate`, `ptsend`, `ptrecv`, `ptreset` and `ptdelete`, by any number of processes. A call can be
switched out in its `wait`, and `_ptclear` in `dispose` and when it has cleared a semaphore. A step
that dereferences `NULL` or panics leads nowhere. `sent` has the messages of the calls of `ptsend`
that returned `OK`, `gone` those that were received or disposed of, and `epoch` counts as `ptseq`
does, without a bound.
-/

namespace Xinu.Kernel.Ports

open Xinu.Kernel.State (word32)
open Xinu.Lib.Interleaving Xinu.Lib.Semaphores Xinu.Lib.SingleList

set_option autoImplicit false

def nports : Nat := 30

instance : NeZero nports := ⟨by decide⟩

section Definitions

structure Ptnode where
  ptmsg : Nat
  ptnext : Option Nat

inductive PtState where
  | free
  | limbo
  | alloc
  deriving DecidableEq

/-- `size` is the count that the port was created with, of which `ptmaxcnt` has 16 bits. -/
structure Ptentry where
  ptssem : Semaphore Int
  ptrsem : Semaphore Int
  ptstate : PtState
  ptmaxcnt : Nat
  ptseq : Nat
  pthead : Option Nat
  pttail : Option Nat
  epoch : Nat
  size : Nat

inductive Request where
  | send (msg : Nat)
  | recv

inductive Side where
  | senders
  | receivers
  deriving DecidableEq

def Request.side : Request → Side
  | .send _ => .senders
  | .recv => .receivers

structure Calling where
  portid : Fin nports
  request : Request
  seq : Nat
  epoch : Nat

inductive Fate where
  | received
  | disposed

/-- Where `_ptclear` has been switched out: in the call of `dispose` for a message, or when it has
cleared `ptssem`, or `ptrsem`. -/
inductive Stage where
  | disposing (walk : Nat)
  | senders
  | receivers

structure Clearing where
  newstate : PtState
  stage : Stage

/-- `released` has the processes that were blocked or had been released when their port was
cleared. -/
structure Machine where
  node : Nat → Ptnode
  ptfree : Option Nat
  porttab : Fin nports → Ptentry
  ptnextid : Nat
  calls : Int → Option Calling
  released : List Int
  clearing : Fin nports → Option Clearing
  sent : Fin nports → List Nat
  gone : Fin nports → List (Nat × Fate)

inductive Reply where
  | ok
  | sysErr
  | msg (value : Nat)
  | port (portid : Nat)

end Definitions

section Pieces

variable (x : Machine) (p : Fin nports)

namespace Machine

def setEntry (entry : Ptentry) : Machine := { x with porttab := Function.update x.porttab p entry }

def setNext (a : Nat) (next : Option Nat) : Machine :=
  { x with node := Function.update x.node a { x.node a with ptnext := next } }

def setCall (pid : Int) (calling : Option Calling) : Machine :=
  { x with calls := Function.update x.calls pid calling }

def next (a : Nat) : Option Nat := (x.node a).ptnext

end Machine

/-- The loop of `ptinit` from the node `curr` on, with `more` of them behind it. -/
def linkNodes : (Nat → Ptnode) → Nat → Nat → Nat → Ptnode
  | node, curr, 0 => Function.update node curr { node curr with ptnext := none }
  | node, curr, more + 1 =>
      linkNodes (Function.update node curr { node curr with ptnext := some (curr + 1) }) (curr + 1)
        more

/-- What `ptcreate` makes of a free entry. -/
def created (count : Nat) (entry : Ptentry) : Ptentry where
  ptssem := ⟨count, [], []⟩
  ptrsem := ⟨0, [], []⟩
  ptstate := .alloc
  ptmaxcnt := count % 65536
  ptseq := (entry.ptseq + 1) % word32
  pthead := none
  pttail := none
  epoch := entry.epoch + 1
  size := count

/-- The loop of `ptcreate` -/
def searchPorts (count : Nat) : Nat → Machine → Machine × Reply
  | 0, x => (x, .sysErr)
  | more + 1, x =>
      let ptnum : Fin nports := Fin.ofNat nports x.ptnextid
      let x := { x with ptnextid := if x.ptnextid + 1 ≥ nports then 0 else x.ptnextid + 1 }
      if (x.porttab ptnum).ptstate = .free then
        (x.setEntry ptnum (created count (x.porttab ptnum)), .port ptnum)
      else searchPorts count more x

def ptcreate (count : Int) : Machine × Reply :=
  if count < 0 then (x, .sysErr) else searchPorts count.toNat nports x

/-- `ptsend` when the port has space -/
def sends (msg : Nat) : Option Machine := do
  let msgnode ← x.ptfree
  let ptptr := x.porttab p
  let x := { x with
    ptfree := x.next msgnode
    node := Function.update x.node msgnode ⟨msg, none⟩ }
  let x := match ptptr.pttail with
    | none => x.setEntry p { ptptr with pthead := some msgnode, pttail := some msgnode }
    | some tailnode =>
        (x.setNext tailnode (some msgnode)).setEntry p { ptptr with pttail := some msgnode }
  some { x.setEntry p { x.porttab p with ptrsem := (x.porttab p).ptrsem.signal } with
    sent := Function.update x.sent p (x.sent p ++ [msg]) }

/-- `ptrecv` when the port has a message -/
def receives : Option (Machine × Nat) := do
  let ptptr := x.porttab p
  let msgnode ← ptptr.pthead
  let msg := (x.node msgnode).ptmsg
  let ptptr := if ptptr.pthead = ptptr.pttail then { ptptr with pthead := none, pttail := none }
    else { ptptr with pthead := x.next msgnode }
  let x := { x.setNext msgnode x.ptfree with ptfree := some msgnode }
  some ({ x.setEntry p { ptptr with ptssem := ptptr.ptssem.signal } with
    gone := Function.update x.gone p (x.gone p ++ [(msg, .received)]) }, msg)

/-- A call behind its `wait` -/
def goesOn (request : Request) : Option (Machine × Reply) :=
  match request with
  | .send msg => (sends x p msg).map fun x => (x, .ok)
  | .recv => (receives x p).map fun result => (result.1, .msg result.2)

/-- The semaphore that the calls of one side wait for -/
def semOf (side : Side) (entry : Ptentry) : Semaphore Int :=
  match side with
  | .senders => entry.ptssem
  | .receivers => entry.ptrsem

def setSem (side : Side) (sem : Semaphore Int) (entry : Ptentry) : Ptentry :=
  match side with
  | .senders => { entry with ptssem := sem }
  | .receivers => { entry with ptrsem := sem }

/-- `ptsend` and `ptrecv` of a port, up to their `wait`, and to the end when it does not block. -/
def beginsAt (pid : Int) (request : Request) : Option (Machine × Option Reply) :=
  let ptptr := x.porttab p
  if ptptr.ptstate ≠ .alloc then some (x, some .sysErr)
  else
    let sem := (semOf request.side ptptr).wait pid
    if (semOf request.side ptptr).count - 1 < 0 then
      some ((x.setEntry p (setSem request.side sem ptptr)).setCall pid
        (some ⟨p, request, ptptr.ptseq, ptptr.epoch⟩), none)
    else
      (goesOn (x.setEntry p (setSem request.side (sem.run pid) ptptr)) p request).map fun result =>
        (result.1, some result.2)

/-- `isbadport` -/
def atPort (portid : Int) (call : Fin nports → Option (Machine × Option Reply)) :
    Option (Machine × Option Reply) :=
  if bad : portid < 0 ∨ portid ≥ nports then some (x, some .sysErr)
  else call ⟨portid.toNat, by omega⟩

/-- A process leaves its `wait`. -/
def leaves (pid : Int) (calling : Calling) : Machine :=
  { (x.setEntry calling.portid (setSem calling.request.side
      ((semOf calling.request.side (x.porttab calling.portid)).run pid)
      (x.porttab calling.portid))).setCall pid none with released := x.released.erase pid }

/-- A process runs that has been released in its `wait`. -/
def proceeds (pid : Int) : Option (Machine × Option Reply) := do
  let calling ← x.calls pid
  let ptptr := x.porttab calling.portid
  if pid ∈ x.released ∨ pid ∈ (semOf calling.request.side ptptr).passed then
    if ptptr.ptstate ≠ .alloc ∨ ptptr.ptseq ≠ calling.seq then
      some (leaves x pid calling, some .sysErr)
    else
      (goesOn (leaves x pid calling) calling.portid calling.request).map fun result =>
        (result.1, some result.2)
  else none

/-- `_ptclear` links the messages into the free list. -/
def freeMessages : Option Machine :=
  let ptptr := x.porttab p
  match ptptr.pthead with
  | none => some x
  | some head => do
      let tail ← ptptr.pttail
      some { x.setNext tail x.ptfree with ptfree := some head }

/-- The processes at a semaphore -/
def waiting (sem : Semaphore Int) : List Int := sem.queue ++ sem.passed

/-- What `_ptclear` makes of the entry up to where it has cleared `ptssem`. A deleted semaphore has
no count. -/
def sendersCleared (newstate : PtState) (entry : Ptentry) : Ptentry :=
  if newstate = .alloc then
    { entry with pthead := none, pttail := none, ptssem := ⟨entry.ptmaxcnt, [], []⟩ }
  else { entry with ptssem := ⟨0, [], []⟩ }

/-- `_ptclear` behind its loop, up to where it has cleared `ptssem` -/
def clearsSenders (newstate : PtState) : Option Machine := do
  let x ← freeMessages x p
  let ptptr := x.porttab p
  some { x.setEntry p (sendersCleared newstate ptptr) with
    released := x.released ++ waiting ptptr.ptssem
    clearing := Function.update x.clearing p (some ⟨newstate, .senders⟩) }

/-- The loop of `_ptclear`, up to the call of `dispose` -/
def disposes (newstate : PtState) (walk : Option Nat) : Option Machine :=
  match walk with
  | some a => some { x with
      gone := Function.update x.gone p (x.gone p ++ [((x.node a).ptmsg, .disposed)])
      clearing := Function.update x.clearing p (some ⟨newstate, .disposing a⟩) }
  | none => clearsSenders x p newstate

/-- What `_ptclear` first makes of the entry. -/
def inLimbo (entry : Ptentry) : Ptentry :=
  { entry with ptstate := .limbo, ptseq := (entry.ptseq + 1) % word32, epoch := entry.epoch + 1 }

/-- `ptreset` and `ptdelete` of a port, to where `_ptclear` can be switched out -/
def ptclear (newstate : PtState) : Option (Machine × Option Reply) :=
  let ptptr := x.porttab p
  if ptptr.ptstate ≠ .alloc then some (x, some .sysErr)
  else (disposes (x.setEntry p (inLimbo ptptr)) p newstate ptptr.pthead).map fun x => (x, none)

/-- `_ptclear` when it runs again, and the end of `ptreset` and `ptdelete` -/
def clearsOn : Option (Machine × Option Reply) := do
  let clearing ← x.clearing p
  let ptptr := x.porttab p
  match clearing.stage with
  | .disposing walk => (disposes x p clearing.newstate (x.next walk)).map fun x => (x, none)
  | .senders => some ({ x.setEntry p { ptptr with ptrsem := ⟨0, [], []⟩ } with
      released := x.released ++ waiting ptptr.ptrsem
      clearing := Function.update x.clearing p (some { clearing with stage := .receivers }) }, none)
  | .receivers => some ({ x.setEntry p { ptptr with ptstate := clearing.newstate } with
      ptnextid := if clearing.newstate = .free then p else x.ptnextid
      clearing := Function.update x.clearing p none }, some .ok)

end Pieces

section Systems

/-- `clearsOn` is the process that clears the port, when it runs again. -/
inductive Event where
  | ptcreate (count : Int)
  | ptsend (pid portid : Int) (msg : Nat)
  | ptrecv (pid portid : Int)
  | proceeds (pid : Int)
  | ptreset (portid : Int)
  | ptdelete (portid : Int)
  | clearsOn (p : Fin nports)

/-- A process that waits in a call makes no other one. -/
def answer (x : Machine) : Event → Option (Machine × Option Reply)
  | .ptcreate count => some ((ptcreate x count).1, some (ptcreate x count).2)
  | .ptsend pid portid msg =>
      if (x.calls pid).isSome then none
      else atPort x portid fun p => beginsAt x p pid (.send msg)
  | .ptrecv pid portid =>
      if (x.calls pid).isSome then none else atPort x portid fun p => beginsAt x p pid .recv
  | .proceeds pid => proceeds x pid
  | .ptreset portid => atPort x portid fun p => ptclear x p .alloc
  | .ptdelete portid => atPort x portid fun p => ptclear x p .free
  | .clearsOn p => clearsOn x p

def act (x : Machine) (event : Event) : Option Machine := (answer x event).map Prod.fst

/-- No port is cleared or created 2 ^ 32 times while a call waits at it. -/
def Fresh (x : Machine) (pid : Int) : Prop :=
  ∀ calling ∈ x.calls pid, (x.porttab calling.portid).ptstate = .alloc →
    (x.porttab calling.portid).ptseq = calling.seq →
      (x.porttab calling.portid).epoch = calling.epoch

instance (x : Machine) (pid : Int) : Decidable (Fresh x pid) :=
  inferInstanceAs (Decidable (∀ calling ∈ x.calls pid, _))

def Proper (x : Machine) : Event → Prop
  | .proceeds pid => Fresh x pid
  | _ => True

instance (x : Machine) (event : Event) : Decidable (Proper x event) :=
  match event with
  | .proceeds pid => inferInstanceAs (Decidable (Fresh x pid))
  | .ptcreate _ => isTrue trivial
  | .ptsend _ _ _ => isTrue trivial
  | .ptrecv _ _ => isTrue trivial
  | .ptreset _ => isTrue trivial
  | .ptdelete _ => isTrue trivial
  | .clearsOn _ => isTrue trivial

/-- The state that `ptinit` leaves. No port has its semaphores yet. -/
def ptinit (node : Nat → Ptnode) (porttab : Fin nports → Ptentry) (maxmsgs : Nat) : Machine where
  node := linkNodes node 0 (maxmsgs - 1)
  ptfree := some 0
  porttab := fun p => { porttab p with
    ptssem := ⟨0, [], []⟩
    ptrsem := ⟨0, [], []⟩
    ptstate := .free
    ptseq := 0
    epoch := 0 }
  ptnextid := 0
  calls := fun _ => none
  released := []
  clearing := fun _ => none
  sent := fun _ => []
  gone := fun _ => []

/-- `getmem` gives no memory for no nodes. -/
def Started (maxmsgs : Nat) (x : Machine) : Prop :=
  0 < maxmsgs ∧ ∃ node porttab, x = ptinit node porttab maxmsgs

/-- The nodes from a first one on -/
def walk (node : Nat → Ptnode) : Nat → Option Nat → List Nat
  | 0, _ => []
  | _ + 1, none => []
  | fuel + 1, some a => a :: walk node fuel (node a).ptnext

namespace Machine

variable (x : Machine) (maxmsgs : Nat) (p : Fin nports)

def freeNodes : List Nat := walk x.node maxmsgs x.ptfree

/-- The nodes that a port has -/
def nodes : List Nat :=
  match (x.porttab p).ptstate, x.clearing p with
  | .alloc, _ => walk x.node maxmsgs (x.porttab p).pthead
  | _, some ⟨_, .disposing _⟩ => walk x.node maxmsgs (x.porttab p).pthead
  | _, _ => []

/-- The messages of a port that have not been disposed of -/
def queued : List Nat :=
  match (x.porttab p).ptstate, x.clearing p with
  | .alloc, _ => (x.nodes maxmsgs p).map fun a => (x.node a).ptmsg
  | _, some ⟨_, .disposing a⟩ => (walk x.node maxmsgs (x.next a)).map fun a => (x.node a).ptmsg
  | _, _ => []

end Machine

/-- A call is answered when its process runs, and one that was blocked before its port was cleared
with `SYSERR`. -/
structure Channels (maxmsgs : Nat) (x : Machine) : Prop where
  fifo : ∀ p, x.sent p = (x.gone p).map Prod.fst ++ x.queued maxmsgs p
  bounded : ∀ p, (x.nodes maxmsgs p).length ≤ (x.porttab p).size
  apart : (x.freeNodes maxmsgs : Multiset Nat) + ∑ p, (x.nodes maxmsgs p : Multiset Nat) =
    Multiset.range maxmsgs
  total : (x.freeNodes maxmsgs).length + ∑ p, (x.nodes maxmsgs p).length = maxmsgs
  refused : ∀ pid calling, x.calls pid = some calling →
    calling.epoch ≠ (x.porttab calling.portid).epoch → Fresh x pid →
      (∀ y reply, proceeds x pid = some (y, reply) →
        reply = some .sysErr ∧ y.sent = x.sent ∧ y.gone = x.gone) ∧
      (x.clearing calling.portid = none → (proceeds x pid).isSome)

end Systems

end Xinu.Kernel.Ports
