import Xinu.Kernel.State
import Xinu.Lib.Interleaving

/-!
# The ARP cache

`arp_resolve` waits for a message when it has asked for an address, and takes any message for the
answer. `arp_in` fills in the entry of a sender and sends that message.
-/

namespace Xinu.Net.Arp

open Xinu.Kernel.State (sysErr ok)
open Xinu.Lib.Interleaving

set_option autoImplicit false

section Definitions

def arpSiz : Nat := 16

def arpRetry : Nat := 3

def arpHtype : Nat := 1

def arpPtype : Nat := 0x0800

def arpOpRply : Nat := 2

def ipBcast : Nat := 0xffffffff

inductive ArState where
  | free
  | pending
  | resolved
  deriving DecidableEq

structure Arpentry where
  arstate : ArState
  arpaddr : Nat
  arpid : Int
  arhaddr : Nat

/-- The entry behind `memset`. -/
def cleared : Arpentry := { arstate := .free, arpaddr := 0, arpid := 0, arhaddr := 0 }

/-- The fields of an ARP packet that `arp_in` looks at, in host order. A hardware address is a
number of 48 bits. -/
structure Arppacket where
  arpHtype : Nat
  arpPtype : Nat
  arpOp : Nat
  arpSndha : Nat
  arpSndpa : Nat
  arpTarpa : Nat

structure NetData where
  ipvalid : Bool
  ipucast : Nat
  ipbcast : Nat
  ethbcast : Nat

/-- A call of `arp_resolve` that waits for a message, with the number of times that it still waits
for one. -/
structure Resolving where
  slot : Nat
  nxthop : Nat
  left : Nat

/-- A process, with the message that it holds. -/
structure Proc where
  alive : Bool
  prmsg : Option Int
  waits : Option Resolving

/-- `received` has the packets for IP and Ethernet that came to `arp_in`. -/
structure Machine where
  arpcache : Nat → Arpentry
  proc : Int → Proc
  received : List Arppacket

def timeout : Int := -3

/-- A call that returns: its address, its value and the hardware address. -/
structure Answer where
  nxthop : Nat
  status : Int
  mac : Nat

end Definitions

section Calls

variable (m : Machine) (net : NetData)

def setEntry (slot : Nat) (e : Arpentry) : Machine :=
  { m with arpcache := Function.update m.arpcache slot e }

def setProc (pid : Int) (p : Proc) : Machine := { m with proc := Function.update m.proc pid p }

/-- `send`, whose result nobody looks at here. -/
def send (pid : Int) (msg : Int) : Machine :=
  if (m.proc pid).alive = false ∨ (m.proc pid).prmsg.isSome then m
  else setProc m pid { m.proc pid with prmsg := some msg }

/-- The first entry in use for an address. -/
def lookup (addr : Nat) : Option Nat :=
  (List.range arpSiz).find? fun slot =>
    decide ((m.arpcache slot).arstate ≠ .free ∧ (m.arpcache slot).arpaddr = addr)

/-- The slot that `arp_alloc` clears. -/
def arpAlloc : Option Nat :=
  ((List.range arpSiz).find? fun slot => decide ((m.arpcache slot).arstate = .free)).or
    ((List.range arpSiz).find? fun slot => decide ((m.arpcache slot).arstate = .resolved))

/-- `arp_resolve`, up to its wait for a message. -/
def arpResolve (pid : Int) (nxthop : Nat) : Machine × Option Answer :=
  if nxthop = ipBcast ∨ nxthop = net.ipbcast then (m, some ⟨nxthop, ok, net.ethbcast⟩)
  else
    match lookup m nxthop with
    | some slot =>
        if (m.arpcache slot).arstate = .resolved then
          (m, some ⟨nxthop, ok, (m.arpcache slot).arhaddr⟩)
        else (m, some ⟨nxthop, sysErr, 0⟩)
    | none =>
        match arpAlloc m with
        | none => (m, some ⟨nxthop, sysErr, 0⟩)
        | some slot =>
            (setProc (setEntry m slot { cleared with
                arstate := .pending, arpaddr := nxthop, arpid := pid }) pid
              { m.proc pid with prmsg := none, waits := some ⟨slot, nxthop, arpRetry⟩ }, none)

/-- The process runs again, with a message or because its time is over. -/
def wake (pid : Int) (w : Resolving) : Machine × Option Answer :=
  let p := m.proc pid
  let msg := p.prmsg.getD timeout
  let returns := setProc m pid { p with prmsg := none, waits := none }
  if msg = timeout then
    if w.left ≤ 1 then
      (setEntry returns w.slot { m.arpcache w.slot with arstate := .free },
        some ⟨w.nxthop, timeout, 0⟩)
    else (setProc m pid { p with prmsg := none, waits := some { w with left := w.left - 1 } }, none)
  else if msg = sysErr then (returns, some ⟨w.nxthop, sysErr, 0⟩)
  else (returns, some ⟨w.nxthop, ok, (m.arpcache w.slot).arhaddr⟩)

/-- What `arp_in` does to the entry of the sender. -/
def noted (pkt : Arppacket) (slot : Nat) : Machine :=
  let e := { m.arpcache slot with arhaddr := pkt.arpSndha }
  if e.arstate = .pending then send (setEntry m slot { e with arstate := .resolved }) e.arpid ok
  else setEntry m slot e

/-- A request for this machine's address, from a sender that is not in the cache. -/
def added (pkt : Arppacket) : Machine :=
  if pkt.arpOp = arpOpRply ∨ net.ipvalid = false ∨ pkt.arpTarpa ≠ net.ipucast then m
  else
    match arpAlloc m with
    | none => m
    | some slot =>
        setEntry m slot { cleared with
          arstate := .resolved, arpaddr := pkt.arpSndpa, arhaddr := pkt.arpSndha }

def arpIn (pkt : Arppacket) : Machine :=
  if pkt.arpHtype ≠ arpHtype ∨ pkt.arpPtype ≠ arpPtype then m
  else
    let m := { m with received := m.received ++ [pkt] }
    match lookup m pkt.arpSndpa with
    | some slot => noted m pkt slot
    | none => added m net pkt

end Calls

section Runs

/-- A call of `arp_resolve`; a process that runs again behind its wait; a packet; a message from any
process to any other; a message taken by its process outside of `arp_resolve`; the end of a process,
with the notice to its parent; and a new process. -/
inductive Event where
  | resolve (net : NetData) (pid : Int) (nxthop : Nat)
  | wake (pid : Int)
  | packet (net : NetData) (pkt : Arppacket)
  | message (pid : Int) (msg : Int)
  | take (pid : Int)
  | exit (pid parent : Int)
  | create (pid : Int)

def act (m : Machine) : Event → Option (Machine × Option Answer)
  | .resolve net pid nxthop =>
      if (m.proc pid).alive = true ∧ (m.proc pid).waits.isNone then
        some (arpResolve m net pid nxthop)
      else none
  | .wake pid => (m.proc pid).waits.map fun w => wake m pid w
  | .packet net pkt => some (arpIn m net pkt, none)
  | .message pid msg => some (send m pid msg, none)
  | .take pid =>
      if (m.proc pid).waits.isNone then
        some (setProc m pid { m.proc pid with prmsg := none }, none)
      else none
  | .exit pid parent =>
      if (m.proc pid).alive = true then
        some (setProc (send m parent pid) pid { alive := false, prmsg := none, waits := none },
          none)
      else none
  | .create pid =>
      if (m.proc pid).alive = false then
        some (setProc m pid { alive := true, prmsg := none, waits := none }, none)
      else none

def step (m : Machine) (event : Event) : Option Machine := (act m event).map Prod.fst

/-- `arp_init`, on a table that is zero. -/
structure Started (m : Machine) : Prop where
  free : ∀ slot, (m.arpcache slot).arstate = .free
  waits : ∀ pid, (m.proc pid).waits = none

end Runs

section Facts

variable {m n : Machine} {slot addr : Nat} {pid other : Int}

theorem lookup_some (found : lookup m addr = some slot) :
    slot < arpSiz ∧ (m.arpcache slot).arstate ≠ .free ∧ (m.arpcache slot).arpaddr = addr := by
  have inside := List.mem_range.mp (List.mem_of_find?_eq_some found)
  have hit : (m.arpcache slot).arstate ≠ .free ∧ (m.arpcache slot).arpaddr = addr := by
    simpa using List.find?_some found
  exact ⟨inside, hit⟩

theorem lookup_none (missing : lookup m addr = none) (inside : slot < arpSiz)
    (used : (m.arpcache slot).arstate ≠ .free) : (m.arpcache slot).arpaddr ≠ addr := by
  have misses := List.find?_eq_none.mp missing slot (List.mem_range.mpr inside)
  intro same
  exact misses (by simp [used, same])

theorem arp_alloc_some (found : arpAlloc m = some slot) :
    slot < arpSiz ∧ (m.arpcache slot).arstate ≠ .pending := by
  rcases Option.or_eq_some_iff.mp found with free | ⟨-, resolved⟩
  · have isFree : (m.arpcache slot).arstate = .free := by simpa using List.find?_some free
    exact ⟨List.mem_range.mp (List.mem_of_find?_eq_some free), by rw [isFree]; decide⟩
  · have isResolved : (m.arpcache slot).arstate = .resolved := by
      simpa using List.find?_some resolved
    exact ⟨List.mem_range.mp (List.mem_of_find?_eq_some resolved), by rw [isResolved]; decide⟩

theorem arp_alloc_none (full : arpAlloc m = none) (inside : slot < arpSiz) :
    (m.arpcache slot).arstate = .pending := by
  obtain ⟨no_free, no_resolved⟩ := Option.or_eq_none_iff.mp full
  have not_free := List.find?_eq_none.mp no_free slot (List.mem_range.mpr inside)
  have not_resolved := List.find?_eq_none.mp no_resolved slot (List.mem_range.mpr inside)
  cases state : (m.arpcache slot).arstate with
  | free => simp [state] at not_free
  | pending => rfl
  | resolved => simp [state] at not_resolved

@[simp]
theorem setEntry_self (e : Arpentry) : (setEntry m slot e).arpcache slot = e :=
  Function.update_self _ _ _

theorem setEntry_ne {i : Nat} (ne : i ≠ slot) (e : Arpentry) :
    (setEntry m slot e).arpcache i = m.arpcache i := Function.update_of_ne ne _ _

@[simp]
theorem setEntry_proc (e : Arpentry) : (setEntry m slot e).proc = m.proc := rfl

@[simp]
theorem setProc_self (p : Proc) : (setProc m pid p).proc pid = p := Function.update_self _ _ _

theorem setProc_ne (ne : other ≠ pid) (p : Proc) : (setProc m pid p).proc other = m.proc other :=
  Function.update_of_ne ne _ _

@[simp]
theorem setProc_arpcache (p : Proc) : (setProc m pid p).arpcache = m.arpcache := rfl

@[simp]
theorem send_arpcache (msg : Int) : (send m pid msg).arpcache = m.arpcache := by
  unfold send
  split_ifs <;> rfl

@[simp]
theorem send_received (msg : Int) : (send m pid msg).received = m.received := by
  unfold send
  split_ifs <;> rfl

/-- A message reaches its process and nobody else, and only when it holds none. -/
theorem send_proc (msg : Int) (other : Int) : (send m pid msg).proc other = m.proc other ∨
    other = pid ∧ (m.proc pid).prmsg = none ∧ (m.proc pid).alive = true ∧
      (send m pid msg).proc other = { m.proc pid with prmsg := some msg } := by
  unfold send
  split_ifs with refused
  · exact .inl rfl
  · obtain ⟨alive, empty⟩ := not_or.mp refused
    by_cases is_pid : other = pid
    · subst is_pid
      exact .inr ⟨rfl, by simpa using empty, by simpa using alive, setProc_self _⟩
    · exact .inl (setProc_ne is_pid _)

end Facts

end Xinu.Net.Arp
