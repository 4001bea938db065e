import Xinu.Kernel.State
import Xinu.Lib.Interleaving
import Xinu.Lib.Ring

/-!
# Ping replies

The table of processes that use ping. A slot has room for eight replies, but nothing tests whether
it is full, and the index of the next reply goes back to zero behind ten of them. A slot is a queue
as long as neither is noticed.
-/

namespace Xinu.Net.Icmp

open Xinu.Kernel.State (sysErr ok)
open Xinu.Lib.Interleaving Xinu.Lib.Ring

set_option autoImplicit false

section Definitions

def icmpSlots : Nat := 10

def icmpQsiz : Nat := 8

def ipHdrLen : Int := 20

def icmpHdrLen : Int := 8

def icmpEchoreply : Nat := 0

/-- `TIMEOUT` as a message. -/
def timeout : Nat := 4294967293

/-- The fields of a packet that the table of slots depends on, and the buffer that it is in. -/
structure Netpacket where
  buffer : Nat
  netIpsrc : Nat
  netIplen : Nat
  netIctype : Nat
  netIcident : Nat
  netIcdata : Nat → Nat

inductive IcState where
  | free
  | used
  | recv
  deriving DecidableEq

structure Icmpentry where
  icstate : IcState
  icremip : Nat
  ichead : Nat
  ictail : Nat
  iccount : Int
  icpid : Int
  icqueue : Nat → Netpacket

/-- A call of `icmp_recv` that waits for a message. -/
structure Waiting where
  slot : Nat
  len : Int

structure Proc where
  alive : Bool
  prhasmsg : Bool
  prmsg : Nat
  waits : Option Waiting

/-- How a reply leaves the queue of a slot. -/
inductive Departure where
  | received (pid : Int) (pkt : Netpacket)
  | released (pkt : Netpacket)

def Departure.packet : Departure → Netpacket
  | .received _ pkt => pkt
  | .released pkt => pkt

/-- The slots and the processes, with the replies that were put on the queue of each slot and those
that left it. -/
structure Machine where
  icmptab : Nat → Icmpentry
  proc : Int → Proc
  arrived : Nat → List Netpacket
  left : Nat → List Departure

structure Answer where
  value : Int
  bytes : List Nat

end Definitions

section Entries

variable (e : Icmpentry)

def enqueue (pkt : Netpacket) : Icmpentry :=
  { e with
    iccount := e.iccount + 1
    icqueue := Function.update e.icqueue e.ictail pkt
    ictail := advance icmpQsiz e.ictail
    icstate := if e.icstate = .recv then .used else e.icstate }

/-- The index goes back to zero at `ICMP_SLOTS`. -/
def dequeue : Netpacket × Icmpentry :=
  (e.icqueue e.ichead, { e with
    ichead := advance icmpSlots e.ichead
    iccount := e.iccount - 1 })

/-- The loop of `icmp_release`. The count of replies that are left bounds it. -/
def drainQueue : Nat → Icmpentry → List Netpacket × Icmpentry
  | 0, e => ([], e)
  | fuel + 1, e =>
      if 0 < e.iccount then
        let first := dequeue e
        let rest := drainQueue fuel first.2
        (first.1 :: rest.1, rest.2)
      else ([], e)

def registered (remip : Nat) : Icmpentry :=
  { e with
    icstate := .used
    icremip := remip
    iccount := 0
    ichead := 0
    ictail := 0
    icpid := -1 }

end Entries

section Calls

variable (m : Machine)

def setEntry (slot : Nat) (e : Icmpentry) : Machine :=
  { m with icmptab := Function.update m.icmptab slot e }

def setProc (pid : Int) (p : Proc) : Machine := { m with proc := Function.update m.proc pid p }

/-- `send`, whose result nobody looks at here. -/
def send (pid : Int) (msg : Nat) : Machine :=
  if (m.proc pid).alive = false ∨ (m.proc pid).prhasmsg = true then m
  else setProc m pid { m.proc pid with prhasmsg := true, prmsg := msg }

/-- The slot that `icmp_in` puts a reply into. -/
def accepts (pkt : Netpacket) : Option Nat :=
  if pkt.netIctype ≠ icmpEchoreply then none
  else if icmpSlots ≤ pkt.netIcident then none
  else if (m.icmptab pkt.netIcident).icstate = .free ∨
      pkt.netIpsrc ≠ (m.icmptab pkt.netIcident).icremip then none
  else some pkt.netIcident

/-- `icmp_in`. A packet that is not a reply leaves the slots alone. -/
def icmpIn (pkt : Netpacket) : Machine :=
  match accepts m pkt with
  | none => m
  | some slot =>
      let e := m.icmptab slot
      let queued := { setEntry m slot (enqueue e pkt) with
        arrived := Function.update m.arrived slot (m.arrived slot ++ [pkt]) }
      if e.icstate = .recv then send queued e.icpid 1 else queued

def icmpRegister (remip : Nat) : Machine × Int :=
  if ∃ slot < icmpSlots, (m.icmptab slot).icstate ≠ .free ∧
      (m.icmptab slot).icremip = remip then (m, sysErr)
  else
    match (List.range icmpSlots).find? fun slot => decide ((m.icmptab slot).icstate = .free) with
    | none => (m, sysErr)
    | some slot => (setEntry m slot (registered (m.icmptab slot) remip), slot)

/-- The end of `icmp_recv`, behind the wait for a reply. -/
def takeReply (pid : Int) (w : Waiting) : Machine × Answer :=
  let first := dequeue (m.icmptab w.slot)
  let count := (min ((first.1.netIplen : Int) - ipHdrLen - icmpHdrLen) w.len).toNat
  ({ setEntry m w.slot first.2 with
      left := Function.update m.left w.slot (m.left w.slot ++ [.received pid first.1]) },
    { value := count, bytes := (List.range count).map first.1.netIcdata })

def refused (value : Int) : Answer := { value := value, bytes := [] }

/-- `icmp_recv`, up to the wait for a message. `recvtime` does not wait when the time is negative as
an `int32`. -/
def icmpRecv (pid icmpid len : Int) (time : Nat) : Machine × Option Answer :=
  if icmpid < 0 ∨ (icmpSlots : Int) ≤ icmpid then (m, some (refused sysErr))
  else
    let e := m.icmptab icmpid.toNat
    let w : Waiting := { slot := icmpid.toNat, len := len }
    if e.icstate ≠ .used then (m, some (refused sysErr))
    else if e.iccount = 0 then
      let cleared := setProc m pid { m.proc pid with prhasmsg := false }
      if 2147483648 ≤ time then
        (setEntry cleared icmpid.toNat { e with icstate := .used, icpid := pid },
          some (refused sysErr))
      else
        (setProc (setEntry cleared icmpid.toNat { e with icstate := .recv, icpid := pid }) pid
          { m.proc pid with prhasmsg := false, waits := some w }, none)
    else ((takeReply m pid w).1, some (takeReply m pid w).2)

/-- The receiver runs again, with a message or because its time is over. -/
def wake (pid : Int) (w : Waiting) : Machine × Option Answer :=
  let p := m.proc pid
  let msg := if p.prhasmsg = true then p.prmsg else timeout
  let woken := setEntry (setProc m pid { p with prhasmsg := false, waits := none }) w.slot
    { m.icmptab w.slot with icstate := .used }
  if msg = timeout then (woken, some (refused (-3)))
  else if (msg : Int) ≠ ok then (woken, some (refused sysErr))
  else ((takeReply woken pid w).1, some (takeReply woken pid w).2)

def icmpRelease (icmpid : Int) : Machine × Int :=
  if icmpid < 0 ∨ (icmpSlots : Int) ≤ icmpid then (m, sysErr)
  else
    let e := m.icmptab icmpid.toNat
    if e.icstate ≠ .used then (m, sysErr)
    else
      let drained := drainQueue e.iccount.toNat e
      ({ setEntry m icmpid.toNat { drained.2 with icstate := .free } with
          left := Function.update m.left icmpid.toNat
            (m.left icmpid.toNat ++ drained.1.map .released) }, ok)

end Calls

section Runs

/-- A call of a slot; a receiver that runs again; a message from any process to any other; a message
taken by its process outside of `icmp_recv`; the end of a process, with the notice to its parent;
and a new process. -/
inductive Event where
  | register (remip : Nat)
  | packet (pkt : Netpacket)
  | recv (pid icmpid len : Int) (time : Nat)
  | wake (pid : Int)
  | release (icmpid : Int)
  | message (pid : Int) (msg : Nat)
  | take (pid : Int)
  | exit (pid parent : Int)
  | create (pid : Int)

def act (m : Machine) : Event → Option (Machine × Option Answer)
  | .register remip => some ((icmpRegister m remip).1, none)
  | .packet pkt => some (icmpIn m pkt, none)
  | .recv pid icmpid len time =>
      if (m.proc pid).alive = true ∧ (m.proc pid).waits.isNone then
        some (icmpRecv m pid icmpid len time)
      else none
  | .wake pid => (m.proc pid).waits.map fun w => wake m pid w
  | .release icmpid => some ((icmpRelease m icmpid).1, none)
  | .message pid msg => some (send m pid msg, none)
  | .take pid =>
      if (m.proc pid).waits.isNone then
        some (setProc m pid { m.proc pid with prhasmsg := false }, none)
      else none
  | .exit pid parent =>
      if (m.proc pid).alive = true then
        some (setProc (send m parent pid.toNat) pid
          { alive := false, prhasmsg := false, prmsg := 0, waits := none }, none)
      else none
  | .create pid =>
      if (m.proc pid).alive = false then
        some (setProc m pid { alive := true, prhasmsg := false, prmsg := 0, waits := none }, none)
      else none

def step (m : Machine) (event : Event) : Option Machine := (act m event).map Prod.fst

/-- `icmp_init`, on a table that is zero. -/
structure Started (m : Machine) : Prop where
  icstate : ∀ slot, (m.icmptab slot).icstate = .free
  empty : ∀ slot, (m.icmptab slot).ichead = 0 ∧ (m.icmptab slot).ictail = 0 ∧
    (m.icmptab slot).iccount = 0
  waits : ∀ pid, (m.proc pid).waits = none
  arrived : ∀ slot, m.arrived slot = []
  left : ∀ slot, m.left slot = []

/-- The replies that a step puts into a slot or takes from it are at places that it has. -/
def InRange (m : Machine) : Event → Prop
  | .packet pkt => ∀ slot ∈ accepts m pkt, (m.icmptab slot).iccount < icmpQsiz
  | .recv _ icmpid _ _ => (m.icmptab icmpid.toNat).iccount ≠ 0 →
      (m.icmptab icmpid.toNat).ichead < icmpQsiz
  | .wake pid => ∀ w ∈ (m.proc pid).waits, (m.proc pid).prhasmsg = true → (m.proc pid).prmsg = 1 →
      0 < (m.icmptab w.slot).iccount ∧ (m.icmptab w.slot).ichead < icmpQsiz
  | .release icmpid =>
      (m.icmptab icmpid.toNat).ichead + (m.icmptab icmpid.toNat).iccount ≤ icmpQsiz
  | _ => True

/-- A slot as a queue. -/
structure IsQueue (e : Icmpentry) (arrived : List Netpacket) (left : List Departure) : Prop where
  nonneg : 0 ≤ e.iccount
  bounded : e.iccount ≤ icmpQsiz
  inside : e.ichead ≤ icmpQsiz
  fifo : Fifo icmpQsiz e.icqueue (e.ichead % icmpQsiz) e.ictail e.iccount.toNat arrived
    (left.map Departure.packet)

end Runs

section Queues

variable {e e' : Icmpentry} {arrived : List Netpacket} {left : List Departure}

/-- Only the state of the slot, its address or its process changes. -/
theorem IsQueue.same (queue : IsQueue e arrived left) (head : e'.ichead = e.ichead)
    (tail : e'.ictail = e.ictail) (count : e'.iccount = e.iccount)
    (replies : e'.icqueue = e.icqueue) : IsQueue e' arrived left := by
  obtain ⟨nonneg, bounded, inside, fifo⟩ := queue
  rw [← count] at nonneg bounded fifo
  rw [← head] at inside fifo
  rw [← tail, ← replies] at fifo
  exact ⟨nonneg, bounded, inside, fifo⟩

theorem enqueue_queue (queue : IsQueue e arrived left) (room : e.iccount < icmpQsiz)
    (pkt : Netpacket) : IsQueue (enqueue e pkt) (arrived ++ [pkt]) left := by
  obtain ⟨nonneg, bounded, inside, fifo⟩ := queue
  have more : (e.iccount + 1).toNat = e.iccount.toNat + 1 := by omega
  refine ⟨by simp only [enqueue]; omega, by simp only [enqueue]; omega, inside, ?_⟩
  simp only [enqueue]
  rw [more]
  exact fifo.push (by omega) pkt

theorem dequeue_queue (queue : IsQueue e arrived left) (some : 0 < e.iccount)
    (here : e.ichead < icmpQsiz) {departure : Departure}
    (leaves : departure.packet = (dequeue e).1) :
    IsQueue (dequeue e).2 arrived (left ++ [departure]) := by
  obtain ⟨nonneg, bounded, inside, fifo⟩ := queue
  have one : e.iccount.toNat = (e.iccount - 1).toNat + 1 := by omega
  have next : advance icmpSlots e.ichead = e.ichead + 1 := by
    unfold advance icmpSlots
    unfold icmpQsiz at here
    rw [if_neg (by omega)]
  rw [one] at fifo
  have popped := fifo.pop
  rw [Nat.mod_eq_of_lt here, advance_mod here] at popped
  refine ⟨by simp only [dequeue]; omega, by simp only [dequeue]; omega, ?_, ?_⟩
  · simp only [dequeue, next]
    omega
  · rw [List.map_append, List.map_singleton, leaves]
    simp only [dequeue, next]
    exact popped

theorem registered_queue (queue : IsQueue e arrived left) (empty : e.iccount = 0) (remip : Nat) :
    IsQueue (registered e remip) arrived left := by
  have order := queue.fifo.order
  rw [empty] at order
  exact ⟨Int.le_refl 0, Int.natCast_nonneg _, Nat.zero_le _, Nat.zero_le _,
    Nat.mod_lt _ (Nat.zero_lt_succ _), rfl, order⟩

theorem drain_queue (fuel : Nat) (queue : IsQueue e arrived left)
    (enough : e.iccount.toNat ≤ fuel) (here : e.ichead + e.iccount ≤ icmpQsiz) :
    IsQueue (drainQueue fuel e).2 arrived (left ++ (drainQueue fuel e).1.map .released) ∧
      (drainQueue fuel e).2.iccount = 0 := by
  induction fuel generalizing e left with
  | zero =>
      have none : e.iccount = 0 := by
        have nonneg := queue.nonneg
        omega
      refine ⟨?_, none⟩
      rw [drainQueue, List.map_nil, List.append_nil]
      exact queue
  | succ fuel induction =>
      unfold drainQueue
      split_ifs with some
      · have first : e.ichead < icmpQsiz := by omega
        have taken := @dequeue_queue e arrived left queue some first (.released (dequeue e).1) rfl
        have next : advance icmpSlots e.ichead = e.ichead + 1 := by
          unfold advance icmpSlots
          unfold icmpQsiz at first
          rw [if_neg (by omega)]
        have fewer : (dequeue e).2.iccount.toNat ≤ fuel := by
          simp only [dequeue]
          omega
        have further : ((dequeue e).2.ichead : Int) + (dequeue e).2.iccount ≤ icmpQsiz := by
          simp only [dequeue, next]
          omega
        obtain ⟨rest, none⟩ := induction taken fewer further
        refine ⟨?_, none⟩
        rw [List.append_assoc] at rest
        exact rest
      · refine ⟨?_, ?_⟩
        · rw [List.map_nil, List.append_nil]
          exact queue
        · exact Int.le_antisymm (Int.not_lt.mp some) queue.nonneg

end Queues

section Steps

variable {m : Machine} {slot : Nat}

/-- Every slot is a queue, which is empty while the slot is free. -/
structure Slots (m : Machine) : Prop where
  queues : ∀ slot, IsQueue (m.icmptab slot) (m.arrived slot) (m.left slot)
  free : ∀ slot, (m.icmptab slot).icstate = .free → (m.icmptab slot).iccount = 0

theorem slots_same {n : Machine} (slots : Slots m) (tab : n.icmptab = m.icmptab)
    (arrived : n.arrived = m.arrived) (left : n.left = m.left) : Slots n := by
  obtain ⟨queues, free⟩ := slots
  refine ⟨fun slot => ?_, fun slot => ?_⟩
  · rw [tab, arrived, left]
    exact queues slot
  · rw [tab]
    exact free slot

theorem slots_proc (slots : Slots m) (pid : Int) (p : Proc) : Slots (setProc m pid p) :=
  slots_same slots rfl rfl rfl

theorem slots_send (slots : Slots m) (pid : Int) (msg : Nat) : Slots (send m pid msg) := by
  unfold send
  split_ifs
  · exact slots
  · exact slots_proc slots pid _

/-- One slot changes, and what arrived at it and left it. -/
theorem slots_entry {n : Machine} {e : Icmpentry} {arrived : List Netpacket}
    {left : List Departure} (slots : Slots m) (queue : IsQueue e arrived left)
    (free : e.icstate = .free → e.iccount = 0) (tab : n.icmptab = Function.update m.icmptab slot e)
    (arrivals : n.arrived = Function.update m.arrived slot arrived)
    (departures : n.left = Function.update m.left slot left) : Slots n := by
  refine ⟨fun other => ?_, fun other => ?_⟩
  · rw [tab, arrivals, departures]
    by_cases same : other = slot
    · subst same
      simpa using queue
    · simpa [same] using slots.queues other
  · rw [tab]
    by_cases same : other = slot
    · subst same
      simpa using free
    · simpa [same] using slots.free other

/-- One slot changes, and its queue does not. -/
theorem slots_kept {e : Icmpentry} (slots : Slots m)
    (queue : IsQueue e (m.arrived slot) (m.left slot))
    (free : e.icstate = .free → e.iccount = 0) : Slots (setEntry m slot e) :=
  slots_entry slots queue free rfl (Function.update_eq_self slot m.arrived).symm
    (Function.update_eq_self slot m.left).symm

theorem icmp_in_slots (slots : Slots m) (pkt : Netpacket) (range : InRange m (.packet pkt)) :
    Slots (icmpIn m pkt) := by
  unfold icmpIn
  split
  · exact slots
  · rename_i slot found
    have room := range slot found
    have used : (m.icmptab slot).icstate ≠ .free := by
      unfold accepts at found
      split_ifs at found with other outside mismatch
      obtain rfl := Option.some.inj found
      exact fun isFree => mismatch (.inl isFree)
    have queued : Slots { setEntry m slot (enqueue (m.icmptab slot) pkt) with
        arrived := Function.update m.arrived slot (m.arrived slot ++ [pkt]) } := by
      refine slots_entry slots (enqueue_queue (slots.queues slot) room pkt) ?_ rfl rfl
        (Function.update_eq_self slot m.left).symm
      intro isFree
      simp only [enqueue] at isFree
      split_ifs at isFree
      exact absurd isFree used
    dsimp only
    split_ifs
    · exact slots_send queued _ _
    · exact queued

theorem icmp_register_slots (slots : Slots m) (remip : Nat) : Slots (icmpRegister m remip).1 := by
  unfold icmpRegister
  split_ifs
  · exact slots
  · split
    · exact slots
    · rename_i slot found
      have isFree : (m.icmptab slot).icstate = .free := by simpa using List.find?_some found
      exact slots_kept slots (registered_queue (slots.queues slot) (slots.free slot isFree) remip)
        nofun

theorem take_reply_slots (slots : Slots m) (pid : Int) (w : Waiting)
    (used : (m.icmptab w.slot).icstate ≠ .free) (some : 0 < (m.icmptab w.slot).iccount)
    (here : (m.icmptab w.slot).ichead < icmpQsiz) : Slots (takeReply m pid w).1 := by
  refine slots_entry slots (dequeue_queue (slots.queues w.slot) some here rfl) ?_ rfl
    (Function.update_eq_self w.slot m.arrived).symm rfl
  exact fun isFree => absurd isFree used

theorem icmp_recv_slots (slots : Slots m) (pid icmpid len : Int) (time : Nat)
    (range : InRange m (.recv pid icmpid len time)) : Slots (icmpRecv m pid icmpid len time).1 := by
  have kept : ∀ n : Machine, Slots n → n.arrived = m.arrived → n.left = m.left →
      ∀ state, state ≠ .free → Slots (setEntry n icmpid.toNat
        { m.icmptab icmpid.toNat with icstate := state, icpid := pid }) := by
    intro n slotsN arrived left state notFree
    refine slots_kept slotsN ?_ fun isFree => absurd isFree notFree
    rw [arrived, left]
    exact (slots.queues icmpid.toNat).same rfl rfl rfl rfl
  unfold icmpRecv
  dsimp only
  split_ifs with bad unused empty
  · exact slots
  · exact slots
  · exact kept _ (slots_proc slots _ _) rfl rfl .used (by decide)
  · exact slots_proc (kept _ (slots_proc slots _ _) rfl rfl .recv (by decide)) _ _
  · have used : (m.icmptab icmpid.toNat).icstate = .used := not_not.mp unused
    have nonneg := (slots.queues icmpid.toNat).nonneg
    refine take_reply_slots slots pid _ ?_ ?_ (range empty)
    · rw [used]
      decide
    · dsimp only
      omega

/-- A receiver that runs again with `OK` takes a reply that is there. -/
theorem wake_slots (slots : Slots m) (pid : Int) (w : Waiting)
    (range : (m.proc pid).prhasmsg = true → (m.proc pid).prmsg = 1 →
      0 < (m.icmptab w.slot).iccount ∧ (m.icmptab w.slot).ichead < icmpQsiz) :
    Slots (wake m pid w).1 := by
  have woken : Slots (setEntry (setProc m pid { m.proc pid with
      prhasmsg := false, waits := none }) w.slot { m.icmptab w.slot with icstate := .used }) :=
    slots_kept (slots_proc slots _ _) ((slots.queues w.slot).same rfl rfl rfl rfl) nofun
  unfold wake
  dsimp only
  split_ifs with holds timedOut notOk timedOut notOk
  · exact woken
  · exact woken
  · have isOk : (m.proc pid).prmsg = 1 := by
      unfold ok at notOk
      omega
    obtain ⟨some, here⟩ := range holds isOk
    refine take_reply_slots woken pid w (by simp [setEntry]) ?_ ?_
    · simpa [setEntry] using some
    · simpa [setEntry] using here
  · exact woken
  · exact woken
  · exact absurd rfl timedOut

theorem icmp_release_slots (slots : Slots m) (icmpid : Int)
    (range : InRange m (.release icmpid)) : Slots (icmpRelease m icmpid).1 := by
  unfold icmpRelease
  dsimp only
  split_ifs
  · exact slots
  · exact slots
  · obtain ⟨queue, none⟩ := drain_queue (m.icmptab icmpid.toNat).iccount.toNat
      (slots.queues icmpid.toNat) (Nat.le_refl _) range
    let drained := (drainQueue (m.icmptab icmpid.toNat).iccount.toNat (m.icmptab icmpid.toNat)).2
    have emptied : IsQueue { drained with icstate := .free } (m.arrived icmpid.toNat) _ :=
      queue.same rfl rfl rfl rfl
    exact slots_entry slots emptied (fun _ => none) rfl
      (Function.update_eq_self icmpid.toNat m.arrived).symm rfl

theorem step_slots {n : Machine} {event : Event} (slots : Slots m) (range : InRange m event)
    (did : step m event = some n) : Slots n := by
  obtain ⟨⟨left, answer⟩, acted, rfl⟩ := Option.map_eq_some_iff.mp did
  have same : ∀ result : Machine × Option Answer, some result = some (left, answer) →
      Slots result.1 → Slots left := by
    intro result taken holds
    rw [Option.some.inj taken] at holds
    exact holds
  cases event with
  | register remip => exact same _ acted (icmp_register_slots slots remip)
  | packet pkt => exact same _ acted (icmp_in_slots slots pkt range)
  | recv pid icmpid len time =>
      simp only [act] at acted
      split_ifs at acted
      exact same _ acted (icmp_recv_slots slots pid icmpid len time range)
  | wake pid =>
      obtain ⟨w, waits, taken⟩ := Option.map_eq_some_iff.mp acted
      exact same _ (congrArg some taken) (wake_slots slots pid w (range w waits))
  | release icmpid => exact same _ acted (icmp_release_slots slots icmpid range)
  | message pid msg => exact same _ acted (slots_send slots pid msg)
  | take pid =>
      simp only [act] at acted
      split_ifs at acted
      exact same _ acted (slots_proc slots pid _)
  | exit pid parent =>
      simp only [act] at acted
      split_ifs at acted
      exact same _ acted (slots_proc (slots_send slots parent pid.toNat) pid _)
  | create pid =>
      simp only [act] at acted
      split_ifs at acted
      exact same _ acted (slots_proc slots pid _)

theorem started_slots (started : Started m) : Slots m := by
  refine ⟨fun slot => ?_, fun slot _ => (started.empty slot).2.2⟩
  obtain ⟨head, tail, count⟩ := started.empty slot
  refine ⟨Int.le_of_eq count.symm, by rw [count]; decide, by rw [head]; decide, ?_⟩
  rw [head, tail, count, started.arrived, started.left]
  exact fifo_start (by decide)

end Steps

section Results

def reply (buffer : Nat) : Netpacket where
  buffer := buffer
  netIpsrc := 9
  netIplen := 84
  netIctype := icmpEchoreply
  netIcident := 0
  netIcdata := fun _ => 0

/-- Nobody waits, and the table is as it was loaded. -/
def booted : Machine where
  icmptab _ :=
    { icstate := .free
      icremip := 0
      ichead := 0
      ictail := 0
      iccount := 0
      icpid := 0
      icqueue := fun _ => reply 0 }
  proc _ := { alive := true, prhasmsg := false, prmsg := 0, waits := none }
  arrived _ := []
  left _ := []

theorem booted_started : Started booted :=
  ⟨fun _ => rfl, fun _ => ⟨rfl, rfl, rfl⟩, fun _ => rfl, fun _ => rfl, fun _ => rfl⟩

end Results

end Xinu.Net.Icmp
