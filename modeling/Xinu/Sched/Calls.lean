import Xinu.Kernel.State
import Xinu.Sched.Queues
import Mathlib.Logic.Function.Iterate

/-!
# System calls that schedule

`resched`, `ready`, and the calls that create, suspend, delay, signal and send. A call runs
with interrupts off until it returns or switches to another process. What a process has to
do behind the switch is kept with it, and it does that before anything else when it runs
again.
-/

namespace Xinu.Sched.Calls

open Xinu.Kernel.State Xinu.Sched.Queues

set_option autoImplicit false

structure Procent where
  prstate : PrState
  prprio : Int
  prsem : Int
  prparent : Int
  prhasmsg : Bool
  prmsg : Nat
  deriving DecidableEq

structure Sentry where
  used : Bool
  scount : Int
  deriving DecidableEq

structure Defer where
  ndefers : Int
  attempt : Bool
  deriving DecidableEq

/-- The end of a call or of the clock handler behind `resched`. -/
inductive Rest where
  | receive
  | recvtime
  | kill (pid : Int)
  | clock
  deriving DecidableEq

structure Kernel (Q : Type) where
  proctab : Int → Procent
  currpid : Int
  queues : Q
  semtab : Int → Sentry
  nextsem : Nat
  nextpid : Nat
  prcount : Int
  defer : Defer
  preempt : Nat
  rest : Int → Option Rest

def quantum : Nat := 2

def timeout : Int := -3

def maxseconds : Nat := 4294967

variable [Tables] {Q : Type}

namespace Kernel

variable (x : Kernel Q)

def setProc (pid : Int) (proc : Procent) : Kernel Q :=
  { x with proctab := Function.update x.proctab pid proc }

def setState (pid : Int) (prstate : PrState) : Kernel Q :=
  x.setProc pid { x.proctab pid with prstate := prstate }

def setCount (sem : Int) (scount : Int) : Kernel Q :=
  { x with semtab := Function.update x.semtab sem { x.semtab sem with scount := int32 scount } }

def setRest (pid : Int) (rest : Option Rest) : Kernel Q :=
  { x with rest := Function.update x.rest pid rest }

def setQueues (queues : Q) : Kernel Q := { x with queues := queues }

end Kernel

def isbadpid (x : Kernel Q) (pid : Int) : Prop :=
  pid < 0 ∨ (nproc : Int) ≤ pid ∨ (x.proctab pid).prstate = .free

instance (x : Kernel Q) (pid : Int) : Decidable (isbadpid x pid) :=
  inferInstanceAs (Decidable (_ ∨ _ ∨ _))

def isbadsem (sem : Int) : Prop := sem < 0 ∨ (nsem : Int) ≤ sem

instance (sem : Int) : Decidable (isbadsem sem) := inferInstanceAs (Decidable (_ ∨ _))

section Scheduling

variable [QueueTable Q] (x : Kernel Q)

def insert (pid : Int) (q : Qid) (key : Int) : Kernel Q :=
  if isbadpid x pid then x else x.setQueues (QueueTable.insert pid q key x.queues)

/-- The first ready process becomes the current one. -/
def switch : Kernel Q :=
  let first := QueueTable.dequeue .readylist x.queues
  ({ x with currpid := first.1, queues := first.2, preempt := quantum }).setState first.1 .curr

def resched : Kernel Q :=
  if 0 < x.defer.ndefers then { x with defer := { x.defer with attempt := true } }
  else if (x.proctab x.currpid).prstate = .curr then
    if QueueTable.firstkey .readylist x.queues < (x.proctab x.currpid).prprio then x
    else
      switch (insert (x.setState x.currpid .ready) x.currpid .readylist
        (x.proctab x.currpid).prprio)
  else switch x

def deferStart : Kernel Q :=
  { x with defer :=
    { ndefers := x.defer.ndefers + 1
      attempt := if x.defer.ndefers = 0 then false else x.defer.attempt } }

def deferStop : Kernel Q :=
  if x.defer.ndefers ≤ 0 then x
  else
    let y := { x with defer := { x.defer with ndefers := x.defer.ndefers - 1 } }
    if y.defer.ndefers = 0 ∧ y.defer.attempt = true then resched y else y

def ready (pid : Int) : Kernel Q :=
  if isbadpid x pid then x
  else
    resched (insert (x.setState pid .ready) pid .readylist (x.proctab pid).prprio)

end Scheduling

section Processes

variable [QueueTable Q] (x : Kernel Q)

/-- `newpid`: the slot and the next one to try. -/
def newpid : Nat → Nat → Option Nat × Nat
  | 0, nextpid => (none, nextpid)
  | tries + 1, nextpid =>
      let slot := nextpid % nproc
      if (x.proctab slot).prstate = .free then (some slot, slot + 1) else newpid tries (slot + 1)

/-- `stack` says whether `getstk` finds room. -/
def create (priority : Int) (stack : Bool) : Kernel Q × Option Int :=
  if stack = false then (x, some sysErr)
  else
    let found := newpid x nproc x.nextpid
    let x := { x with nextpid := found.2 }
    match found.1 with
    | none => (x, some sysErr)
    | some pid =>
        if priority < 1 then (x, some sysErr)
        else
          ((({ x with prcount := x.prcount + 1 }).setProc pid
            { x.proctab pid with
              prstate := .susp
              prprio := priority
              prsem := -1
              prparent := x.currpid
              prhasmsg := false }).setRest pid none, some pid)

def resume (pid : Int) : Kernel Q × Option Int :=
  if isbadpid x pid then (x, some sysErr)
  else if (x.proctab pid).prstate ≠ .susp then (x, some sysErr)
  else (ready x pid, some (x.proctab pid).prprio)

def suspend (pid : Int) : Kernel Q × Option Int :=
  if isbadpid x pid ∨ pid = nullproc then (x, some sysErr)
  else if (x.proctab pid).prstate = .ready then
    ((x.setQueues (QueueTable.getitem pid x.queues)).setState pid .susp,
      some (x.proctab pid).prprio)
  else if (x.proctab pid).prstate = .curr then (resched (x.setState pid .susp), none)
  else (x, some sysErr)

def chprio (pid newprio : Int) : Kernel Q × Option Int :=
  if isbadpid x pid then (x, some sysErr)
  else (x.setProc pid { x.proctab pid with prprio := newprio }, some (x.proctab pid).prprio)

def yield : Kernel Q × Option Int := (resched x, some ok)

end Processes

section Delays

variable [QueueTable Q] (x : Kernel Q)

/-- Only the process of the entry and the one behind it change. -/
def unsleep (pid : Int) : Kernel Q :=
  if isbadpid x pid then x
  else if (x.proctab pid).prstate ≠ .sleep ∧ (x.proctab pid).prstate ≠ .rectim then x
  else x.setQueues (QueueTable.getitem pid (QueueTable.passDelay pid x.queues))

/-- The current process goes to sleep in the state that is given. -/
def sleepAs (prstate : PrState) (key : Int) : Kernel Q :=
  resched ((x.setQueues (QueueTable.insertd x.currpid .sleepq key x.queues)).setState x.currpid
    prstate)

def sleepms (delay : Nat) : Kernel Q × Option Int :=
  if delay = 0 then yield x
  else if isbadpid x x.currpid then (x, some sysErr)
  else (sleepAs x .sleep (int32 delay), none)

def sleep (delay : Nat) : Kernel Q × Option Int :=
  if maxseconds < delay then (x, some sysErr)
  else ((sleepms x (1000 * delay % word32)).1, (sleepms x (1000 * delay % word32)).2.map fun _ => ok)

def wakeupLoop : Nat → Kernel Q → Kernel Q
  | 0, x => x
  | fuel + 1, x =>
      if QueueTable.nonempty .sleepq x.queues = true ∧ QueueTable.firstkey .sleepq x.queues ≤ 0 then
        let first := QueueTable.dequeue .sleepq x.queues
        wakeupLoop fuel (ready (x.setQueues first.2) first.1)
      else x

/-- No queue is longer than the process table. -/
def wakeup : Kernel Q := deferStop (wakeupLoop nproc (deferStart x))

/-- `clkhandler` up to the test of the time slice. -/
def clkhandler : Kernel Q :=
  let x := x.setRest x.currpid (some .clock)
  if QueueTable.nonempty .sleepq x.queues = true then
    let x := x.setQueues (QueueTable.countDown .sleepq x.queues)
    if QueueTable.firstkey .sleepq x.queues ≤ 0 then wakeup x else x
  else x

/-- The rest of `clkhandler`. -/
def timeSlice : Kernel Q :=
  let preempt := (x.preempt + word32 - 1) % word32
  if preempt = 0 then resched { x with preempt := quantum } else { x with preempt := preempt }

end Delays

section Messages

variable [QueueTable Q] (x : Kernel Q)

def send (pid : Int) (msg : Nat) : Kernel Q × Option Int :=
  if isbadpid x pid then (x, some sysErr)
  else if (x.proctab pid).prhasmsg = true then (x, some sysErr)
  else
    let y := x.setProc pid { x.proctab pid with prmsg := msg, prhasmsg := true }
    if (x.proctab pid).prstate = .recv then (ready y pid, some ok)
    else if (x.proctab pid).prstate = .rectim then (ready (unsleep y pid) pid, some ok)
    else (y, some ok)

def takeMessage : Kernel Q × Option Int :=
  (x.setProc x.currpid { x.proctab x.currpid with prhasmsg := false },
    some (x.proctab x.currpid).prmsg)

def receive : Kernel Q × Option Int :=
  if (x.proctab x.currpid).prhasmsg = false then
    (resched ((x.setState x.currpid .recv).setRest x.currpid (some .receive)), none)
  else takeMessage x

/-- `recvtime` behind its `resched`. -/
def recvtimeEnd : Kernel Q × Option Int :=
  if (x.proctab x.currpid).prhasmsg = true then takeMessage x else (x, some timeout)

def recvtime (maxwait : Int) : Kernel Q × Option Int :=
  if maxwait < 0 then (x, some sysErr)
  else if (x.proctab x.currpid).prhasmsg = false then
    if isbadpid x x.currpid then (x, some sysErr)
    else (sleepAs (x.setRest x.currpid (some .recvtime)) .rectim maxwait, none)
  else recvtimeEnd x

def recvclr : Kernel Q × Option Int :=
  if (x.proctab x.currpid).prhasmsg = true then takeMessage x else (x, some ok)

end Messages

section Semaphores

variable [QueueTable Q] (x : Kernel Q)

def isFreeSem (sem : Int) : Prop := isbadsem sem ∨ (x.semtab sem).used = false

instance (sem : Int) : Decidable (isFreeSem x sem) := inferInstanceAs (Decidable (_ ∨ _))

def wait (sem : Int) : Kernel Q × Option Int :=
  if isFreeSem x sem then (x, some sysErr)
  else
    let y := x.setCount sem ((x.semtab sem).scount - 1)
    if (y.semtab sem).scount < 0 then
      let z := y.setProc y.currpid { y.proctab y.currpid with prstate := .wait, prsem := sem }
      (resched (z.setQueues (QueueTable.enqueue z.currpid (.squeue sem) z.queues)), none)
    else (y, some ok)

/-- One turn of `signal` and of the loop of `signaln`. -/
def release (sem : Int) (x : Kernel Q) : Kernel Q :=
  let y := x.setCount sem ((x.semtab sem).scount + 1)
  if (x.semtab sem).scount < 0 then
    let first := QueueTable.dequeue (.squeue sem) y.queues
    ready (y.setQueues first.2) first.1
  else y

def signal (sem : Int) : Kernel Q × Option Int :=
  if isFreeSem x sem then (x, some sysErr) else (release sem x, some ok)

def signaln (sem count : Int) : Kernel Q × Option Int :=
  if isbadsem sem ∨ count < 0 then (x, some sysErr)
  else if (x.semtab sem).used = false then (x, some sysErr)
  else (deferStop (Nat.iterate (release sem) count.toNat (deferStart x)), some ok)

/-- `newsem`: the entry and the next one to try. -/
def newsem : Nat → Nat → Option Nat × Nat
  | 0, nextsem => (none, nextsem)
  | tries + 1, nextsem =>
      let next := if nsem ≤ nextsem + 1 then 0 else nextsem + 1
      if (x.semtab nextsem).used = false then (some nextsem, next) else newsem tries next

def semcreate (count : Int) : Kernel Q × Option Int :=
  if count < 0 then (x, some sysErr)
  else
    let found := newsem x nsem x.nextsem
    let x := { x with nextsem := found.2 }
    match found.1 with
    | none => (x, some sysErr)
    | some sem =>
        ({ x with semtab := Function.update x.semtab sem { used := true, scount := count } },
          some sem)

/-- `ready(getfirst(q))` -/
def readyFirst (sem : Int) (x : Kernel Q) : Kernel Q :=
  let first := QueueTable.getfirst (.squeue sem) x.queues
  ready (x.setQueues first.2) first.1

def drain (sem : Int) : Nat → Kernel Q → Kernel Q
  | 0, x => x
  | fuel + 1, x =>
      if (QueueTable.getfirst (.squeue sem) x.queues).1 = Queues.empty then x
      else drain sem fuel (readyFirst sem x)

def semreset (sem count : Int) : Kernel Q × Option Int :=
  if count < 0 ∨ isFreeSem x sem then (x, some sysErr)
  else (deferStop ((drain sem nproc (deferStart x)).setCount sem count), some ok)

def semdelete (sem : Int) : Kernel Q × Option Int :=
  if isFreeSem x sem then (x, some sysErr)
  else
    let unused := { x.semtab sem with used := false }
    let y := { x with semtab := Function.update x.semtab sem unused }
    let scount := (x.semtab sem).scount
    let z := Nat.iterate (readyFirst sem) (-scount).toNat (deferStart y)
    (deferStop (z.setCount sem (if scount < 0 then 1 else scount + 1)), some ok)

end Semaphores

section Kill

variable [QueueTable Q] (x : Kernel Q)

/-- `kill` up to the message to the parent. The last user process ends the system. -/
def kill (pid : Int) : Option (Kernel Q × Option Int) :=
  if isbadpid x pid ∨ pid = nullproc then some (x, some sysErr)
  else if x.prcount - 1 ≤ 1 then none
  else
    let y := ({ x with prcount := x.prcount - 1 }).setRest x.currpid (some (.kill pid))
    some ((send y (x.proctab pid).prparent pid.toNat).1, none)

def killEnd (pid : Int) : Kernel Q × Option Int :=
  match (x.proctab pid).prstate with
  | .curr => (resched (x.setState pid .free), none)
  | .sleep => ((unsleep x pid).setState pid .free, some ok)
  | .rectim => ((unsleep x pid).setState pid .free, some ok)
  | .wait =>
      let y := x.setCount (x.proctab pid).prsem ((x.semtab (x.proctab pid).prsem).scount + 1)
      ((y.setQueues (QueueTable.getitem pid y.queues)).setState pid .free, some ok)
  | .ready => ((x.setQueues (QueueTable.getitem pid x.queues)).setState pid .free, some ok)
  | _ => (x.setState pid .free, some ok)

end Kill

section Events

/-- The calls of the current process. -/
inductive Call where
  | create (priority : Int) (stack : Bool)
  | resume (pid : Int)
  | suspend (pid : Int)
  | kill (pid : Int)
  | chprio (pid newprio : Int)
  | yield
  | sleepms (delay : Nat)
  | sleep (delay : Nat)
  | send (pid : Int) (msg : Nat)
  | receive
  | recvtime (maxwait : Int)
  | recvclr
  | wait (sem : Int)
  | signal (sem : Int)
  | signaln (sem count : Int)
  | semcreate (count : Int)
  | semreset (sem count : Int)
  | semdelete (sem : Int)

inductive Event where
  | call (call : Call)
  | tick
  /-- The current process ends the call that it was switched out of. -/
  | finish

variable [QueueTable Q] (x : Kernel Q)

def doCall : Call → Option (Kernel Q × Option Int)
  | .create priority stack => some (create x priority stack)
  | .resume pid => some (resume x pid)
  | .suspend pid => some (suspend x pid)
  | .kill pid => kill x pid
  | .chprio pid newprio => some (chprio x pid newprio)
  | .yield => some (yield x)
  | .sleepms delay => some (sleepms x delay)
  | .sleep delay => some (sleep x delay)
  | .send pid msg => some (send x pid msg)
  | .receive => some (receive x)
  | .recvtime maxwait => some (recvtime x maxwait)
  | .recvclr => some (recvclr x)
  | .wait sem => some (wait x sem)
  | .signal sem => some (signal x sem)
  | .signaln sem count => some (signaln x sem count)
  | .semcreate count => some (semcreate x count)
  | .semreset sem count => some (semreset x sem count)
  | .semdelete sem => some (semdelete x sem)

def doRest : Rest → Kernel Q × Option Int
  | .receive => takeMessage x
  | .recvtime => recvtimeEnd x
  | .kill pid => killEnd x pid
  | .clock => (timeSlice x, none)

/-- The state after an event, and the value that a call returns. Interrupts stay off until
the rest of a call is done. -/
def act : Event → Option (Kernel Q × Option Int)
  | .finish => (x.rest x.currpid).map fun rest => doRest (x.setRest x.currpid none) rest
  | .call call => if x.rest x.currpid = none then doCall x call else none
  | .tick => if x.rest x.currpid = none then some (clkhandler x, none) else none

/-- The kernel as `sysinit` leaves it, before the first `create`. -/
structure Booted (x : Kernel Q) : Prop where
  null : (x.proctab nullproc).prstate = .curr
  others : ∀ pid, pid ≠ nullproc → (x.proctab pid).prstate = .free
  prio : (x.proctab nullproc).prprio = 0
  current : x.currpid = nullproc
  sems : ∀ sem, x.semtab sem = { used := false, scount := 0 }
  nextsem : x.nextsem = 0
  nextpid : x.nextpid = 1
  prcount : x.prcount = 1
  ndefers : x.defer.ndefers = 0
  preempt : x.preempt = quantum
  rest : ∀ pid, x.rest pid = none

end Events

end Xinu.Sched.Calls
