import Xinu.Lib.Semaphores
import Xinu.Rds.Device

/-!
# Processes on the remote disk

Any number of processes call the driver while `rdsprocess` serves the requests. A step runs from
one kernel call that can switch processes to the next one. The server carries out each request that
it answers, and a step that panics or does not end leads nowhere. Two fields are ghost state: `log`
has the data of the writes of each block that were accepted, behind what the server had at first,
and `fills` the buffers that `rdsprocess` has filled.
-/

namespace Xinu.Rds.Driver

open Xinu.Kernel.State (sysErr ok)
open Xinu.Lib.LinkedQueue Xinu.Lib.Semaphores
open Xinu.Rds.Device

set_option autoImplicit false

section Machine

inductive Request where
  | read (blk : Nat)
  | write (blk : Nat) (data : Block)
  | sync

/-- Where a process is: at `rdsbufalloc`, in `receive` behind its request, or in the loop that looks
for an older copy in the cache, with the block it has copied. -/
inductive Place where
  | avail
  | receive (bptr : Ptr)
  | cleanup (cptr bptr : Ptr) (buff : Block)

/-- `since` is how many writes of its block were accepted when the call began, and `earlier` how many
buffers had been filled. -/
structure Calling where
  request : Request
  place : Place
  since : Nat
  earlier : Nat

structure Fill where
  bptr : Ptr
  blk : Nat
  data : Block

/-- Where `rdsprocess` is. -/
inductive Service where
  | wait
  | blocked
  | serve
  | reading (bptr : Ptr)
  | notify (bptr : Ptr)
  | others (bptr : Ptr)
  | dropping (bptr qptr : Ptr)
  | writing (blk : Nat) (data : Block)
  | synced (bptr : Ptr)
  | sleep

structure Machine where
  rds : Rdscblk
  avail : Semaphore Int
  reqsem : Int
  driver : Service
  calls : Int → Option Calling
  mail : Int → Option Ptr
  server : Nat → Block
  log : Nat → List Block
  fills : List Fill

inductive Result where
  | read (data : Block)
  | ok
  | sysErr

/-- A call that returns: the process, the call, and its result. -/
structure Return where
  pid : Int
  calling : Calling
  result : Result

end Machine

section Pieces

variable (x : Machine) (pid : Int)

namespace Machine

/-- `send`, which is refused while the process holds a message. -/
def send (msg : Ptr) : Machine :=
  match x.mail pid with
  | some _ => x
  | none => { x with mail := Function.update x.mail pid (some msg) }

theorem send_eq (msg : Ptr) : x.send pid msg = { x with
    mail := Function.update x.mail pid ((x.mail pid).or (some msg)) } := by
  unfold send
  cases held : x.mail pid with
  | none => rfl
  | some old =>
      have kept : Function.update x.mail pid (some old) = x.mail := by
        rw [← held, Function.update_eq_self]
      simp [kept]

def recvclr : Machine := { x with mail := Function.update x.mail pid none }

def setCall (calling : Option Calling) : Machine :=
  { x with calls := Function.update x.calls pid calling }

/-- `signal(rd_reqsem)` -/
def signalReq : Machine :=
  { x with
    reqsem := x.reqsem + 1
    driver := if x.reqsem < 0 then .serve else x.driver }

def signalAvail : Machine := { x with avail := x.avail.signal }

def accept (blk : Nat) (data : Block) : Machine :=
  { x with log := Function.update x.log blk (x.log blk ++ [data]) }

end Machine

/-- The writes of the block of a request that were accepted so far. -/
def sinceOf : Request → Nat
  | .read blk => (x.log blk).length
  | .write _ _ => 0
  | .sync => 0

/-- What is known of a call when it begins. -/
def calling (request : Request) : Calling := ⟨request, .avail, sinceOf x request, x.fills.length⟩

/-- A process goes to wait for a buffer. -/
def waitAvail (request : Request) : Machine :=
  { x with
    avail := x.avail.wait pid
    calls := Function.update x.calls pid (some (calling x request)) }

/-- A write request is put into the queue with a buffer. -/
def queueWrite (blk : Nat) (data : Block) (r : Rdscblk) (bptr : Ptr) : Machine :=
  ({ x with rds := rdswriteRequest r pid blk bptr data }.accept blk data).signalReq

end Pieces

section Steps

variable (x : Machine) (pid : Int)

/-- The first step of a call. -/
def begins (request : Request) : Option (Machine × Option Return) :=
  let returns (result : Result) : Return := ⟨pid, calling x request, result⟩
  if x.rds.rdState ≠ .opened then some (x, some (returns .sysErr))
  else
    match request with
    | .read blk => do
        match ← rdsreadSearch x.rds blk with
        | some data => some (x, some (returns (.read data)))
        | none => some (waitAvail x pid request, none)
    | .write blk data => do
        let bptr ← searchWrites x.rds blk
        if bptr ≠ .rtnext then
          some ({ x with rds := x.rds.set bptr fun buff => { buff with rdBlock := data } }.accept
            blk data, some (returns .ok))
        else do
          let bptr ← searchCache x.rds blk
          if bptr ≠ .ctnext ∧ (x.rds.buff bptr).rdRefcnt ≤ 0 then
            let x := { x with avail := x.avail.semreset (x.avail.count - 1) }
            some (queueWrite x pid blk data (unlinkNode x.rds bptr) bptr, some (returns .ok))
          else some (waitAvail x pid request, none)
    | .sync => some (waitAvail x pid request, none)

/-- A process that has passed `rd_availsem` takes a buffer. `resume` finds that `rdsprocess` is not
suspended. -/
def allocates (calling : Calling) : Option (Machine × Option Return) := do
  let (bptr, r) ← rdsbufalloc x.rds
  let x := { x with avail := { x.avail with passed := x.avail.passed.erase pid } }
  let waits := some { calling with place := .receive bptr }
  match calling.request with
  | .read blk =>
      some ((({ x with rds := rdsreadRequest r pid blk bptr }.recvclr pid).signalReq.setCall pid
        waits), none)
  | .write blk data =>
      some ((queueWrite x pid blk data r bptr).setCall pid none, some ⟨pid, calling, .ok⟩)
  | .sync =>
      some (({ x with rds := rdssyncRequest r pid bptr }.recvclr pid).setCall pid waits, none)

/-- A process takes the message that it waits for. `rdsread` takes it for the address of the buffer
that has the block. -/
def receives (calling : Calling) (msg : Ptr) : Machine × Option Return :=
  let x := x.recvclr pid
  match calling.request with
  | .read _ =>
      if msg = .word sysErr then (x.setCall pid none, some ⟨pid, calling, .sysErr⟩)
      else
        let buff := (x.rds.buff msg).rdBlock
        let x := { x with rds := x.rds.set msg fun b => { b with rdRefcnt := b.rdRefcnt - 1 } }
        if (x.rds.buff msg).rdRefcnt ≤ (0 : Int) then
          (x.setCall pid (some { calling with place := .cleanup (x.rds.rdNext .chnext) msg buff }),
            none)
        else (x.setCall pid none, some ⟨pid, calling, .read buff⟩)
  | _ => (x.setCall pid none, some ⟨pid, calling, .ok⟩)

/-- One turn of the loop behind the copy. `cptr` never moves. -/
def cleanupTurn (calling : Calling) (cptr bptr : Ptr) (buff : Block) : Machine × Option Return :=
  if cptr = bptr then (x.setCall pid none, some ⟨pid, calling, .read buff⟩)
  else
    match calling.request with
    | .read blk =>
        if (x.rds.buff cptr).rdBlknum = blk then
          ({ x with rds := pushFree (unlinkNode x.rds bptr) bptr }, none)
        else (x, none)
    | _ => (x, none)

def proceeds : Option (Machine × Option Return) := do
  let calling ← x.calls pid
  match calling.place with
  | .avail => if pid ∈ x.avail.passed then allocates x pid calling else none
  | .receive _ => (x.mail pid).map (receives x pid calling)
  | .cleanup cptr bptr buff => some (cleanupTurn x pid calling cptr bptr buff)

/-- `rdsprocess` -/
def driverStep : Option Machine :=
  match x.driver with
  | .wait =>
      some { x with
        reqsem := x.reqsem - 1
        driver := if x.reqsem - 1 < 0 then .blocked else .serve }
  | .blocked => none
  | .serve =>
      let bptr := x.rds.rdNext .rhnext
      let buff := x.rds.buff bptr
      match buff.rdOp with
      | .read => some { x with driver := .reading bptr }
      | .write =>
          some { x.signalAvail with
            rds := moveToCache x.rds bptr 0
            driver := .writing buff.rdBlknum buff.rdBlock }
      | .sync => some { x.send buff.rdPid (.word ok) with driver := .synced bptr }
      | .other => some { x with driver := .sleep }
  | .reading bptr =>
      let blk := (x.rds.buff bptr).rdBlknum
      let resp := x.server blk
      let r := x.rds.set bptr fun buff => { buff with rdBlock := resp }
      some { x.signalAvail with
        rds := moveToCache r bptr 1
        driver := .notify bptr
        fills := x.fills ++ [⟨bptr, blk, resp⟩] }
  | .notify bptr =>
      some { x.send (x.rds.buff bptr).rdPid bptr with driver := .others bptr }
  | .others bptr => do
      let qptr ← searchReaders x.rds (x.rds.buff bptr).rdBlknum
      if qptr = .rtnext then some { x with driver := .sleep }
      else
        let r := x.rds.set bptr fun buff => { buff with rdRefcnt := buff.rdRefcnt + 1 }
        some { { x with rds := r }.send (x.rds.buff qptr).rdPid bptr with
          driver := .dropping bptr qptr }
  | .dropping bptr qptr =>
      some { x.signalAvail with rds := dropReader x.rds bptr qptr, driver := .sleep }
  | .writing blk data =>
      some { x with server := Function.update x.server blk data, driver := .sleep }
  | .synced bptr =>
      some { x.signalAvail with rds := pushFree (unlinkNode x.rds bptr) bptr, driver := .sleep }
  | .sleep => some { x with driver := .wait }

end Steps

section Runs

/-- A process calls the driver or goes on with its call, `rdsprocess` takes a step, another process
sends a message, or a process takes a message outside of the driver. -/
inductive Event where
  | call (pid : Int) (request : Request)
  | step (pid : Int)
  | driver
  | send (pid : Int) (msg : Ptr)
  | receive (pid : Int)

def act (x : Machine) : Event → Option (Machine × Option Return)
  | .call pid request => if (x.calls pid).isSome then none else begins x pid request
  | .step pid => proceeds x pid
  | .driver => (driverStep x).map fun x => (x, none)
  | .send pid msg => some (x.send pid msg, none)
  | .receive pid => if (x.calls pid).isSome then none else some (x.recvclr pid, none)

/-- The device has just been opened, and `rdsprocess` has just been started. -/
def started (memory : Rdscblk) (mail : Int → Option Ptr) (server : Nat → Block) : Machine where
  rds := rdsopen memory
  avail := { count := rdBuffs, queue := [], passed := [] }
  reqsem := 0
  driver := .wait
  calls := fun _ => none
  mail := mail
  server := server
  log := fun blk => [server blk]
  fills := []

/-- The states that steps lead to which `allowed` lets through. -/
inductive Reaches (allowed : Machine → Event → Bool) : Machine → Prop where
  | start (memory : Rdscblk) (mail : Int → Option Ptr) (server : Nat → Block) :
      Reaches allowed (started memory mail server)
  | step {x x' : Machine} {event : Event} {out : Option Return} (before : Reaches allowed x)
      (may : allowed x event = true) (done : act x event = some (x', out)) : Reaches allowed x'

def runs (allowed : Machine → Event → Bool) : List Event → Machine → Option Machine
  | [], x => some x
  | event :: rest, x =>
      if allowed x event then (act x event).bind fun after => runs allowed rest after.1 else none

theorem reaches_runs {allowed : Machine → Event → Bool} {x x' : Machine} {events : List Event}
    (reached : Reaches allowed x) (done : runs allowed events x = some x') :
    Reaches allowed x' := by
  induction events generalizing x with
  | nil =>
      obtain rfl := Option.some.inj done
      exact reached
  | cons event rest induction =>
      simp only [runs] at done
      split_ifs at done with may
      obtain ⟨⟨y, out⟩, first, further⟩ := Option.bind_eq_some_iff.mp done
      exact induction (reached.step may first) further

/-- The steps of the driver's own calls and of `rdsprocess`. -/
def ofDriver (_ : Machine) : Event → Bool
  | .send _ _ => false
  | .receive _ => false
  | _ => true

end Runs

end Xinu.Rds.Driver
