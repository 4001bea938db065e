import Xinu.Kernel.State
import Xinu.Lib.Interleaving
import Xinu.Lib.Ring

/-!
# UDP endpoints

The table of endpoints and the calls that use it. A receiver that finds no packet waits for a
message, and trusts a message of `OK` to mean that there is one. As long as whoever is woken with
`OK` finds a packet, each endpoint is a queue that holds at most eight packets, and every
packet leaves it once and in the order of arrival.
-/

namespace Xinu.Net.Udp

open Xinu.Kernel.State (sysErr ok word32)
open Xinu.Lib.Interleaving Xinu.Lib.Ring

set_option autoImplicit false

section Definitions

def udpSlots : Nat := 6

def udpQsiz : Nat := 8

def udpHdrLen : Int := 8

/-- `TIMEOUT` as a message. -/
def timeout : Nat := 4294967293

/-- The fields of a packet that the endpoints look at, and the buffer that it is in. -/
structure Netpacket where
  buffer : Nat
  netIpsrc : Nat
  netUdpsport : Nat
  netUdpdport : Nat
  netUdplen : Nat
  netUdpdata : Nat → Nat

inductive UdState where
  | free
  | used
  | recv
  deriving DecidableEq

structure Udpentry where
  udstate : UdState
  udremip : Nat
  udremport : Nat
  udlocport : Nat
  udhead : Nat
  udtail : Nat
  udcount : Int
  udpid : Int
  udqueue : Nat → Netpacket

/-- A call of `udp_recv`, or of `udp_recvaddr`, that waits for a message. -/
structure Waiting where
  slot : Nat
  len : Int
  addr : Bool

structure Proc where
  alive : Bool
  prhasmsg : Bool
  prmsg : Nat
  waits : Option Waiting

/-- How a packet leaves the queue of an endpoint. -/
inductive Departure where
  | received (pid : Int) (pkt : Netpacket)
  | released (pkt : Netpacket)

def Departure.packet : Departure → Netpacket
  | .received _ pkt => pkt
  | .released pkt => pkt

/-- The endpoints and the processes, with the packets that were put on each endpoint's queue and
those that left it. -/
structure Machine where
  udptab : Nat → Udpentry
  proc : Int → Proc
  arrived : Nat → List Netpacket
  left : Nat → List Departure

/-- What a receive returns: its value, the bytes it copies, and the sender of `udp_recvaddr`. -/
structure Answer where
  value : Int
  bytes : List Nat
  sender : Option (Nat × Nat)

end Definitions

section Entries

variable (u : Udpentry)

/-- A packet on its way in belongs to the endpoint. -/
def matchesPacket (pkt : Netpacket) : Prop :=
  u.udstate ≠ .free ∧ pkt.netUdpdport = u.udlocport ∧
    (u.udremport = 0 ∨ pkt.netUdpsport = u.udremport) ∧
    (u.udremip = 0 ∨ pkt.netIpsrc = u.udremip)

instance (pkt : Netpacket) : Decidable (matchesPacket u pkt) :=
  inferInstanceAs (Decidable (_ ∧ _ ∧ _ ∧ _))

def enqueue (pkt : Netpacket) : Udpentry :=
  { u with
    udcount := u.udcount + 1
    udqueue := Function.update u.udqueue u.udtail pkt
    udtail := advance udpQsiz u.udtail
    udstate := if u.udstate = .recv then .used else u.udstate }

def dequeue : Netpacket × Udpentry :=
  (u.udqueue u.udhead, { u with
    udhead := advance udpQsiz u.udhead
    udcount := u.udcount - 1 })

/-- The loop of `udp_release`. The count of packets that are left bounds it. -/
def drainQueue : Nat → Udpentry → List Netpacket × Udpentry
  | 0, u => ([], u)
  | fuel + 1, u =>
      if 0 < u.udcount then
        let first := dequeue u
        let rest := drainQueue fuel first.2
        (first.1 :: rest.1, rest.2)
      else ([], u)

def registered (remip remport locport : Nat) : Udpentry :=
  { u with
    udlocport := locport
    udremport := remport
    udremip := remip
    udcount := 0
    udhead := 0
    udtail := 0
    udpid := -1
    udstate := .used }

end Entries

section Calls

variable (m : Machine)

def setEntry (slot : Nat) (u : Udpentry) : Machine :=
  { m with udptab := Function.update m.udptab slot u }

def setProc (pid : Int) (p : Proc) : Machine := { m with proc := Function.update m.proc pid p }

/-- `send`, whose result nobody looks at here. -/
def send (pid : Int) (msg : Nat) : Machine :=
  if (m.proc pid).alive = false ∨ (m.proc pid).prhasmsg = true then m
  else setProc m pid { m.proc pid with prhasmsg := true, prmsg := msg }

/-- A matching endpoint that is full is passed over. -/
def udpIn (pkt : Netpacket) : Machine :=
  match (List.range udpSlots).find? fun slot =>
      decide (matchesPacket (m.udptab slot) pkt ∧ (m.udptab slot).udcount < udpQsiz) with
  | none => m
  | some slot =>
      let u := m.udptab slot
      let queued := { setEntry m slot (enqueue u pkt) with
        arrived := Function.update m.arrived slot (m.arrived slot ++ [pkt]) }
      if u.udstate = .recv then send queued u.udpid 1 else queued

def udpRegister (remip remport locport : Nat) : Machine × Int :=
  if ∃ slot < udpSlots, (m.udptab slot).udstate ≠ .free ∧
      remport = (m.udptab slot).udremport ∧ locport = (m.udptab slot).udlocport ∧
      remip = (m.udptab slot).udremip then (m, sysErr)
  else
    match (List.range udpSlots).find? fun slot => decide ((m.udptab slot).udstate = .free) with
    | none => (m, sysErr)
    | some slot => (setEntry m slot (registered (m.udptab slot) remip remport locport), slot)

/-- The end of a receive, behind the wait for a packet. -/
def takePacket (pid : Int) (w : Waiting) : Machine × Answer :=
  let first := dequeue (m.udptab w.slot)
  let msglen := min ((first.1.netUdplen : Int) - udpHdrLen) w.len
  ({ setEntry m w.slot first.2 with
      left := Function.update m.left w.slot (m.left w.slot ++ [.received pid first.1]) },
    { value := msglen
      bytes := (List.range msglen.toNat).map first.1.netUdpdata
      sender := if w.addr then some (first.1.netIpsrc, first.1.netUdpsport) else none })

def refused (value : Int) : Answer := { value := value, bytes := [], sender := none }

/-- `udp_recv` and `udp_recvaddr`, up to the wait for a message. `recvtime` does not wait when
the time is negative as an `int32`. -/
def udpRecv (pid slot len : Int) (time : Nat) (addr : Bool) : Machine × Option Answer :=
  if slot < 0 ∨ (udpSlots : Int) ≤ slot then (m, some (refused sysErr))
  else
    let u := m.udptab slot.toNat
    let w : Waiting := { slot := slot.toNat, len := len, addr := addr }
    if u.udstate ≠ .used then (m, some (refused sysErr))
    else if u.udcount = 0 then
      let cleared := setProc m pid { m.proc pid with prhasmsg := false }
      if 2147483648 ≤ time then
        (setEntry cleared slot.toNat { u with udstate := .used, udpid := pid },
          some (refused sysErr))
      else
        (setProc (setEntry cleared slot.toNat { u with udstate := .recv, udpid := pid }) pid
          { m.proc pid with prhasmsg := false, waits := some w }, none)
    else ((takePacket m pid w).1, some (takePacket m pid w).2)

/-- The receiver runs again, with a message or because its time is over. -/
def wake (pid : Int) (w : Waiting) : Machine × Option Answer :=
  let p := m.proc pid
  let msg := if p.prhasmsg = true then p.prmsg else timeout
  let woken := setEntry (setProc m pid { p with prhasmsg := false, waits := none }) w.slot
    { m.udptab w.slot with udstate := .used }
  if msg = timeout then (woken, some (refused (-3)))
  else if (msg : Int) ≠ ok then (woken, some (refused sysErr))
  else ((takePacket woken pid w).1, some (takePacket woken pid w).2)

def udpRelease (slot : Int) : Machine × Int :=
  if slot < 0 ∨ (udpSlots : Int) ≤ slot then (m, sysErr)
  else
    let u := m.udptab slot.toNat
    if u.udstate = .free then (m, sysErr)
    else
      let drained := drainQueue u.udcount.toNat u
      ({ setEntry m slot.toNat { drained.2 with udstate := .free } with
          left := Function.update m.left slot.toNat
            (m.left slot.toNat ++ drained.1.map .released) }, ok)

end Calls

section Runs

/-- A call of an endpoint; a receiver that runs again; a message from any process to any other;
a message taken by its process outside of the receives; the end of a process, with the notice
to its parent; and a new process. -/
inductive Event where
  | register (remip remport locport : Nat)
  | packet (pkt : Netpacket)
  | recv (pid slot len : Int) (time : Nat) (addr : Bool)
  | wake (pid : Int)
  | release (slot : Int)
  | message (pid : Int) (msg : Nat)
  | take (pid : Int)
  | exit (pid parent : Int)
  | create (pid : Int)

def act (m : Machine) : Event → Option (Machine × Option Answer)
  | .register remip remport locport => some ((udpRegister m remip remport locport).1, none)
  | .packet pkt => some (udpIn m pkt, none)
  | .recv pid slot len time addr =>
      if (m.proc pid).alive = true ∧ (m.proc pid).waits.isNone then
        some (udpRecv m pid slot len time addr)
      else none
  | .wake pid => (m.proc pid).waits.map fun w => wake m pid w
  | .release slot => some ((udpRelease m slot).1, none)
  | .message pid msg => some (send m pid msg, none)
  | .take pid =>
      if (m.proc pid).waits.isNone then
        some (setProc m pid { m.proc pid with prhasmsg := false }, none)
      else none
  | .exit pid parent =>
      if (m.proc pid).alive = true then
        let told := send m parent pid.toNat
        some (setProc told pid
          { alive := false, prhasmsg := false, prmsg := 0, waits := none }, none)
      else none
  | .create pid =>
      if (m.proc pid).alive = false then
        some (setProc m pid { alive := true, prhasmsg := false, prmsg := 0, waits := none }, none)
      else none

def step (m : Machine) (event : Event) : Option Machine := (act m event).map Prod.fst

/-- `udp_init`, on a table that is zero. -/
structure Started (m : Machine) : Prop where
  udstate : ∀ slot, (m.udptab slot).udstate = .free
  empty : ∀ slot, (m.udptab slot).udhead = 0 ∧ (m.udptab slot).udtail = 0 ∧
    (m.udptab slot).udcount = 0
  waits : ∀ pid, (m.proc pid).waits = none
  arrived : ∀ slot, m.arrived slot = []
  left : ∀ slot, m.left slot = []

/-- A receiver that runs again with `OK` finds a packet. -/
def FindsPacket (m : Machine) : Event → Prop
  | .wake pid => ∀ w ∈ (m.proc pid).waits, (m.proc pid).prhasmsg = true →
      (m.proc pid).prmsg = 1 → 0 < (m.udptab w.slot).udcount
  | _ => True

/-- An endpoint as a queue. -/
structure IsQueue (u : Udpentry) (arrived : List Netpacket) (left : List Departure) : Prop where
  nonneg : 0 ≤ u.udcount
  bounded : u.udcount ≤ udpQsiz
  head : u.udhead < udpQsiz
  tail : u.udtail = (u.udhead + u.udcount.toNat) % udpQsiz
  order : arrived = left.map Departure.packet ++
    elements udpQsiz u.udqueue u.udhead u.udcount.toNat

end Runs

section Queues

variable {u v : Udpentry} {arrived : List Netpacket} {left : List Departure}

/-- Only the state of the endpoint, its addresses or its process changes. -/
theorem IsQueue.same (queue : IsQueue u arrived left) (head : v.udhead = u.udhead)
    (tail : v.udtail = u.udtail) (count : v.udcount = u.udcount)
    (packets : v.udqueue = u.udqueue) : IsQueue v arrived left := by
  obtain ⟨nonneg, bounded, inside, last, order⟩ := queue
  rw [← count] at nonneg bounded last order
  rw [← head] at inside last order
  rw [← tail] at last
  rw [← packets] at order
  exact ⟨nonneg, bounded, inside, last, order⟩

theorem enqueue_queue (queue : IsQueue u arrived left) (room : u.udcount < udpQsiz)
    (pkt : Netpacket) : IsQueue (enqueue u pkt) (arrived ++ [pkt]) left := by
  obtain ⟨nonneg, bounded, inside, last, order⟩ := queue
  have small : u.udcount.toNat < udpQsiz := by omega
  have more : (u.udcount + 1).toNat = u.udcount.toNat + 1 := by omega
  have here : u.udtail < udpQsiz := by
    rw [last]
    exact Nat.mod_lt _ (by decide)
  refine ⟨by simp only [enqueue]; omega, by simp only [enqueue]; omega, inside, ?_, ?_⟩
  · simp only [enqueue]
    rw [advance_mod here, more, last, Nat.mod_add_mod, Nat.add_assoc]
  · simp only [enqueue]
    rw [more, last, elements_push small, order, List.append_assoc]

theorem dequeue_queue (queue : IsQueue u arrived left) (some : 0 < u.udcount)
    {departure : Departure} (leaves : departure.packet = (dequeue u).1) :
    IsQueue (dequeue u).2 arrived (left ++ [departure]) := by
  obtain ⟨nonneg, bounded, inside, last, order⟩ := queue
  have one : u.udcount.toNat = (u.udcount - 1).toNat + 1 := by omega
  refine ⟨by simp only [dequeue]; omega, by simp only [dequeue]; omega, advance_lt inside, ?_, ?_⟩
  · simp only [dequeue]
    rw [last, advance_mod inside, one, Nat.mod_add_mod]
    congr 1
    omega
  · rw [order, one, elements_pop inside, List.map_append, List.map_singleton, leaves,
      List.append_assoc]
    rfl

theorem registered_queue (queue : IsQueue u arrived left) (empty : u.udcount = 0)
    (remip remport locport : Nat) :
    IsQueue (registered u remip remport locport) arrived left := by
  have order := queue.order
  rw [empty] at order
  exact ⟨Int.le_refl 0, Int.natCast_nonneg _, Nat.zero_lt_succ _, rfl, order⟩

theorem drain_queue (fuel : Nat) (queue : IsQueue u arrived left)
    (enough : u.udcount.toNat ≤ fuel) :
    IsQueue (drainQueue fuel u).2 arrived (left ++ (drainQueue fuel u).1.map .released) ∧
      (drainQueue fuel u).2.udcount = 0 := by
  induction fuel generalizing u left with
  | zero =>
      have none : u.udcount = 0 := by
        have nonneg := queue.nonneg
        omega
      refine ⟨?_, none⟩
      rw [drainQueue, List.map_nil, List.append_nil]
      exact queue
  | succ fuel induction =>
      unfold drainQueue
      split_ifs with some
      · have taken := @dequeue_queue u arrived left queue some (.released (dequeue u).1) rfl
        have fewer : (dequeue u).2.udcount.toNat ≤ fuel := by
          simp only [dequeue]
          omega
        obtain ⟨rest, none⟩ := induction taken fewer
        refine ⟨?_, none⟩
        rw [List.append_assoc] at rest
        exact rest
      · refine ⟨?_, ?_⟩
        · rw [List.map_nil, List.append_nil]
          exact queue
        · exact Int.le_antisymm (Int.not_lt.mp some) queue.nonneg

end Queues

section Steps

variable {m : Machine} {slot : Nat}

/-- Every endpoint is a queue, which is empty while the endpoint is free. -/
structure Endpoints (m : Machine) : Prop where
  queues : ∀ slot, IsQueue (m.udptab slot) (m.arrived slot) (m.left slot)
  free : ∀ slot, (m.udptab slot).udstate = .free → (m.udptab slot).udcount = 0

theorem endpoints_same {n : Machine} (endpoints : Endpoints m) (tab : n.udptab = m.udptab)
    (arrived : n.arrived = m.arrived) (left : n.left = m.left) : Endpoints n := by
  obtain ⟨queues, free⟩ := endpoints
  refine ⟨fun slot => ?_, fun slot => ?_⟩
  · rw [tab, arrived, left]
    exact queues slot
  · rw [tab]
    exact free slot

theorem endpoints_proc (endpoints : Endpoints m) (pid : Int) (p : Proc) :
    Endpoints (setProc m pid p) := endpoints_same endpoints rfl rfl rfl

theorem endpoints_send (endpoints : Endpoints m) (pid : Int) (msg : Nat) :
    Endpoints (send m pid msg) := by
  unfold send
  split_ifs
  · exact endpoints
  · exact endpoints_proc endpoints pid _

/-- One endpoint changes, and what arrived at it and left it. -/
theorem endpoints_entry {n : Machine} {u : Udpentry} {arrived : List Netpacket}
    {left : List Departure} (endpoints : Endpoints m) (queue : IsQueue u arrived left)
    (free : u.udstate = .free → u.udcount = 0)
    (tab : n.udptab = Function.update m.udptab slot u)
    (arrivals : n.arrived = Function.update m.arrived slot arrived)
    (departures : n.left = Function.update m.left slot left) : Endpoints n := by
  refine ⟨fun other => ?_, fun other => ?_⟩
  · rw [tab, arrivals, departures]
    by_cases same : other = slot
    · subst same
      simpa using queue
    · simpa [same] using endpoints.queues other
  · rw [tab]
    by_cases same : other = slot
    · subst same
      simpa using free
    · simpa [same] using endpoints.free other

/-- One endpoint changes, and its queue does not. -/
theorem endpoints_kept {u : Udpentry} (endpoints : Endpoints m)
    (queue : IsQueue u (m.arrived slot) (m.left slot))
    (free : u.udstate = .free → u.udcount = 0) : Endpoints (setEntry m slot u) :=
  endpoints_entry endpoints queue free rfl (Function.update_eq_self slot m.arrived).symm
    (Function.update_eq_self slot m.left).symm

theorem udp_in_endpoints (endpoints : Endpoints m) (pkt : Netpacket) : Endpoints (udpIn m pkt) := by
  unfold udpIn
  split
  · exact endpoints
  · rename_i slot found
    obtain ⟨accepts, room⟩ : matchesPacket (m.udptab slot) pkt ∧
        (m.udptab slot).udcount < udpQsiz := by
      simpa using List.find?_some found
    have queued : Endpoints { setEntry m slot (enqueue (m.udptab slot) pkt) with
        arrived := Function.update m.arrived slot (m.arrived slot ++ [pkt]) } := by
      refine endpoints_entry endpoints (enqueue_queue (endpoints.queues slot) room pkt) ?_ rfl rfl
        (Function.update_eq_self slot m.left).symm
      intro isFree
      simp only [enqueue] at isFree
      split_ifs at isFree
      exact absurd isFree accepts.1
    dsimp only
    split_ifs
    · exact endpoints_send queued _ _
    · exact queued

theorem udp_register_endpoints (endpoints : Endpoints m) (remip remport locport : Nat) :
    Endpoints (udpRegister m remip remport locport).1 := by
  unfold udpRegister
  split_ifs
  · exact endpoints
  · split
    · exact endpoints
    · rename_i slot found
      have isFree : (m.udptab slot).udstate = .free := by simpa using List.find?_some found
      exact endpoints_kept endpoints
        (registered_queue (endpoints.queues slot) (endpoints.free slot isFree) _ _ _)
        fun _ => rfl

theorem take_packet_endpoints (endpoints : Endpoints m) (pid : Int) (w : Waiting)
    (used : (m.udptab w.slot).udstate ≠ .free) (some : 0 < (m.udptab w.slot).udcount) :
    Endpoints (takePacket m pid w).1 := by
  refine endpoints_entry endpoints (dequeue_queue (endpoints.queues w.slot) some rfl) ?_ rfl
    (Function.update_eq_self w.slot m.arrived).symm rfl
  exact fun isFree => absurd isFree used

theorem udp_recv_endpoints (endpoints : Endpoints m) (pid slot len : Int) (time : Nat)
    (addr : Bool) : Endpoints (udpRecv m pid slot len time addr).1 := by
  have kept : ∀ n : Machine, Endpoints n → n.arrived = m.arrived → n.left = m.left →
      ∀ state, state ≠ .free → Endpoints (setEntry n slot.toNat
        { m.udptab slot.toNat with udstate := state, udpid := pid }) := by
    intro n endpointsN arrived left state notFree
    refine endpoints_kept endpointsN ?_ fun isFree => absurd isFree notFree
    rw [arrived, left]
    exact (endpoints.queues slot.toNat).same rfl rfl rfl rfl
  unfold udpRecv
  dsimp only
  split_ifs with bad unused empty
  · exact endpoints
  · exact endpoints
  · exact kept _ (endpoints_proc endpoints _ _) rfl rfl .used (by decide)
  · exact endpoints_proc (kept _ (endpoints_proc endpoints _ _) rfl rfl .recv (by decide)) _ _
  · have used : (m.udptab slot.toNat).udstate = .used := not_not.mp unused
    have nonneg := (endpoints.queues slot.toNat).nonneg
    refine take_packet_endpoints endpoints pid _ ?_ ?_
    · rw [used]
      decide
    · dsimp only
      omega

/-- A receiver that runs again with `OK` takes a packet that is there. -/
theorem wake_endpoints (endpoints : Endpoints m) (pid : Int) (w : Waiting)
    (finds : (m.proc pid).prhasmsg = true → (m.proc pid).prmsg = 1 →
      0 < (m.udptab w.slot).udcount) : Endpoints (wake m pid w).1 := by
  have woken : Endpoints (setEntry (setProc m pid { m.proc pid with
      prhasmsg := false, waits := none }) w.slot { m.udptab w.slot with udstate := .used }) :=
    endpoints_kept (endpoints_proc endpoints _ _)
      ((endpoints.queues w.slot).same rfl rfl rfl rfl) fun isFree => by cases isFree
  unfold wake
  dsimp only
  split_ifs with holds timedOut notOk timedOut notOk
  · exact woken
  · exact woken
  · have isOk : (m.proc pid).prmsg = 1 := by
      unfold ok at notOk
      omega
    refine take_packet_endpoints woken pid w (by simp [setEntry]) ?_
    simpa [setEntry] using finds holds isOk
  · exact woken
  · exact woken
  · exact absurd rfl timedOut

theorem udp_release_endpoints (endpoints : Endpoints m) (slot : Int) :
    Endpoints (udpRelease m slot).1 := by
  unfold udpRelease
  dsimp only
  split_ifs
  · exact endpoints
  · exact endpoints
  · obtain ⟨queue, none⟩ := drain_queue (m.udptab slot.toNat).udcount.toNat
      (endpoints.queues slot.toNat) (Nat.le_refl _)
    let drained := (drainQueue (m.udptab slot.toNat).udcount.toNat (m.udptab slot.toNat)).2
    have emptied : IsQueue { drained with udstate := .free } (m.arrived slot.toNat) _ :=
      queue.same rfl rfl rfl rfl
    exact endpoints_entry endpoints emptied (fun _ => none) rfl
      (Function.update_eq_self slot.toNat m.arrived).symm rfl

theorem step_endpoints {n : Machine} {event : Event} (endpoints : Endpoints m)
    (finds : FindsPacket m event) (did : step m event = some n) : Endpoints n := by
  obtain ⟨⟨left, answer⟩, acted, rfl⟩ := Option.map_eq_some_iff.mp did
  have same : ∀ result : Machine × Option Answer, some result = some (left, answer) →
      Endpoints result.1 → Endpoints left := by
    intro result taken holds
    rw [Option.some.inj taken] at holds
    exact holds
  cases event with
  | register remip remport locport =>
      exact same _ acted (udp_register_endpoints endpoints remip remport locport)
  | packet pkt => exact same _ acted (udp_in_endpoints endpoints pkt)
  | recv pid slot len time addr =>
      simp only [act] at acted
      split_ifs at acted
      exact same _ acted (udp_recv_endpoints endpoints pid slot len time addr)
  | wake pid =>
      obtain ⟨w, waits, taken⟩ := Option.map_eq_some_iff.mp acted
      exact same _ (congrArg some taken) (wake_endpoints endpoints pid w (finds w waits))
  | release slot => exact same _ acted (udp_release_endpoints endpoints slot)
  | message pid msg => exact same _ acted (endpoints_send endpoints pid msg)
  | take pid =>
      simp only [act] at acted
      split_ifs at acted
      exact same _ acted (endpoints_proc endpoints pid _)
  | exit pid parent =>
      simp only [act] at acted
      split_ifs at acted
      exact same _ acted (endpoints_proc (endpoints_send endpoints parent pid.toNat) pid _)
  | create pid =>
      simp only [act] at acted
      split_ifs at acted
      exact same _ acted (endpoints_proc endpoints pid _)

theorem started_endpoints (started : Started m) : Endpoints m := by
  refine ⟨fun slot => ?_, fun slot _ => (started.empty slot).2.2⟩
  obtain ⟨head, tail, count⟩ := started.empty slot
  refine ⟨Int.le_of_eq count.symm, by rw [count]; decide, by rw [head]; decide, ?_, ?_⟩
  · rw [tail, head, count]
    rfl
  · rw [started.arrived, started.left, count]
    rfl

end Steps

section Results

/-- Nobody waits, and the table is as it was loaded. -/
def booted : Machine where
  udptab _ :=
    { udstate := .free
      udremip := 0
      udremport := 0
      udlocport := 0
      udhead := 0
      udtail := 0
      udcount := 0
      udpid := 0
      udqueue := fun _ =>
        { buffer := 0
          netIpsrc := 0
          netUdpsport := 0
          netUdpdport := 0
          netUdplen := 0
          netUdpdata := fun _ => 0 } }
  proc _ := { alive := true, prhasmsg := false, prmsg := 0, waits := none }
  arrived _ := []
  left _ := []

theorem booted_started : Started booted :=
  ⟨fun _ => rfl, fun _ => ⟨rfl, rfl, rfl⟩, fun _ => rfl, fun _ => rfl, fun _ => rfl⟩

end Results

end Xinu.Net.Udp
