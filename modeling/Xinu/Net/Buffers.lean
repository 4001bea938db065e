import Xinu.Net.Arp
import Xinu.Net.Frames
import Xinu.Net.Output
import Mathlib.Data.List.FinRange

/-!
# Network buffers

The pool of packet buffers and everything that passes them on: `netin` with the packets from the
network, the processes that send and receive, and `ipout`. A call that finds the pool empty waits
for a buffer, and is taken up when there is one.
-/

namespace Xinu.Net.Buffers

open Xinu.Kernel.State (sysErr ok)

set_option autoImplicit false

section Definitions

open Udp (udpSlots udpQsiz) in
open Icmp (icmpSlots icmpQsiz) in
def nbufs : Nat := udpSlots * udpQsiz + icmpSlots * icmpQsiz + 1

def ethArp : Nat := 0x0806

/-- The fields of a packet in host order, and its data -/
structure Packet where
  netIpproto : Nat
  netIpsrc : Nat
  netIpdst : Nat
  netIplen : Nat
  netIctype : Nat
  netIcident : Nat
  netUdpsport : Nat
  netUdpdport : Nat
  netUdplen : Nat
  data : Nat → Nat

structure NetData where
  ipvalid : Bool
  ipucast : Nat
  ipbcast : Nat
  ipmask : Nat
  ipprefix : Nat
  iprouter : Nat
  ethbcast : Nat

/-- Where a process waits in `udp_recv` or `icmp_recv` -/
inductive Waiting where
  | udp (slot : Fin Udp.udpSlots)
  | icmp (slot : Fin Icmp.icmpSlots)

structure Proc where
  prhasmsg : Bool
  prmsg : Nat
  waits : Option Waiting

/-- `free` is the chain of `netbufpool`, `reading` the buffer that `netin` reads into, and `resolving`
has the processes that wait in `arp_resolve` with the packet of each. `sent` has what was written to
the network. -/
structure Machine where
  net : NetData
  free : List Nat
  packet : Nat → Packet
  udptab : Fin Udp.udpSlots → Udp.Udpentry
  icmptab : Fin Icmp.icmpSlots → Icmp.Icmpentry
  ipoqueue : Output.Iqentry
  arp : Arp.Machine
  proc : Int → Proc
  reading : Option Nat
  resolving : List (Int × Nat)
  ipoutPid : Int
  sent : List Packet

end Definitions

section Packets

def ofFrame (f : Frames.Frame) : Packet where
  netIpproto := f.netIpproto
  netIpsrc := f.netIpsrc
  netIpdst := f.netIpdst
  netIplen := f.netIplen
  netIctype := f.netIctype
  netIcident := f.netIcident
  netUdpsport := f.netUdpsport
  netUdpdport := f.netUdpdport
  netUdplen := f.netUdplen
  data := fun i => (f.bytes (42 + i)).toNat

def arpPacket (f : Frames.Frame) : Arp.Arppacket where
  arpHtype := f.short 14
  arpPtype := f.short 16
  arpOp := f.short 20
  arpSndha := f.short 22 * 4294967296 + f.long 24
  arpSndpa := f.long 28
  arpTarpa := f.long 38

namespace Packet

variable (pkt : Packet) (buffer : Nat)

def toUdp : Udp.Netpacket where
  buffer := buffer
  netIpsrc := pkt.netIpsrc
  netUdpsport := pkt.netUdpsport
  netUdpdport := pkt.netUdpdport
  netUdplen := pkt.netUdplen
  netUdpdata := pkt.data

def toIcmp : Icmp.Netpacket where
  buffer := buffer
  netIpsrc := pkt.netIpsrc
  netIplen := pkt.netIplen
  netIctype := pkt.netIctype
  netIcident := pkt.netIcident
  netIcdata := pkt.data

end Packet

def NetData.toFrames (net : NetData) : Frames.NetData where
  ipvalid := net.ipvalid
  ipucast := net.ipucast
  ipbcast := net.ipbcast

def NetData.toArp (net : NetData) : Arp.NetData where
  ipvalid := net.ipvalid
  ipucast := net.ipucast
  ipbcast := net.ipbcast
  ethbcast := net.ethbcast

/-- The UDP packet of `udp_send` and `udp_sendto` -/
def udpPacket (net : NetData) (remip remport locport : Nat) (buff : Nat → Nat) (len : Int) :
    Packet where
  netIpproto := Frames.ipUdp
  netIpsrc := net.ipucast
  netIpdst := remip
  netIplen := ((28 + len) % 65536).toNat
  netIctype := 0
  netIcident := 0
  netUdpsport := locport
  netUdpdport := remport
  netUdplen := ((8 + len) % 65536).toNat
  data := buff

/-- The packet of `icmp_mkpkt` -/
def icmpPacket (net : NetData) (remip type ident : Nat) (buf : Nat → Nat) (len : Int) : Packet where
  netIpproto := Frames.ipIcmp
  netIpsrc := net.ipucast
  netIpdst := remip
  netIplen := ((28 + len) % 65536).toNat
  netIctype := type % 256
  netIcident := ident % 65536
  netUdpsport := 0
  netUdpdport := 0
  netUdplen := 0
  data := buf

end Packets

section Delivery

variable (m : Machine) (b : Nat)

def getbuf : Option (Nat × Machine) :=
  match m.free with
  | [] => none
  | b :: rest => some (b, { m with free := rest })

def freebuf : Machine := { m with free := b :: m.free }

def setUdp (slot : Fin Udp.udpSlots) (u : Udp.Udpentry) : Machine :=
  { m with udptab := Function.update m.udptab slot u }

def setIcmp (slot : Fin Icmp.icmpSlots) (e : Icmp.Icmpentry) : Machine :=
  { m with icmptab := Function.update m.icmptab slot e }

def setProc (pid : Int) (p : Proc) : Machine := { m with proc := Function.update m.proc pid p }

def send (pid : Int) (msg : Nat) : Machine :=
  if (m.proc pid).prhasmsg = true then m
  else setProc m pid { m.proc pid with prhasmsg := true, prmsg := msg }

/-- A matching endpoint that is full is passed over. -/
def udpIn : Machine :=
  let pkt := (m.packet b).toUdp b
  match (List.finRange Udp.udpSlots).find? fun slot =>
      decide (Udp.matchesPacket (m.udptab slot) pkt ∧ (m.udptab slot).udcount < Udp.udpQsiz) with
  | none => freebuf m b
  | some slot =>
      let queued := setUdp m slot (Udp.enqueue (m.udptab slot) pkt)
      if (m.udptab slot).udstate = .recv then send queued (m.udptab slot).udpid 1 else queued

def ipEnqueue : Machine :=
  let added := Output.ipEnqueue m.ipoqueue b
  if added.2 = sysErr then freebuf m b else { m with ipoqueue := added.1 }

/-- The slot that a reply is put into -/
def icmpAccepts (pkt : Packet) : Option (Fin Icmp.icmpSlots) :=
  if inside : pkt.netIcident < Icmp.icmpSlots then
    let e := m.icmptab ⟨pkt.netIcident, inside⟩
    if e.icstate = .free ∨ pkt.netIpsrc ≠ e.icremip then none else some ⟨pkt.netIcident, inside⟩
  else none

def icmpMkpkt (remip type ident : Nat) (buf : Nat → Nat) (len : Int) : Option (Nat × Machine) :=
  (getbuf m).map fun (pkt, m) =>
    (pkt, { m with
      packet := Function.update m.packet pkt (icmpPacket m.net remip type ident buf len) })

def icmpIn : Option Machine :=
  let pkt := m.packet b
  if pkt.netIctype ≠ Icmp.icmpEchoreply ∧ pkt.netIctype ≠ Frames.icmpEchoreqst then
    some (freebuf m b)
  else if pkt.netIctype = Frames.icmpEchoreqst then
    (icmpMkpkt m pkt.netIpsrc Icmp.icmpEchoreply pkt.netIcident pkt.data
      (pkt.netIplen - Frames.ipHdrLen - Frames.icmpHdrLen)).map fun (replypkt, m) =>
        freebuf (ipEnqueue m replypkt) b
  else
    match icmpAccepts m pkt with
    | none => some (freebuf m b)
    | some slot =>
        let queued := setIcmp m slot (Icmp.enqueue (m.icmptab slot) (pkt.toIcmp b))
        some (if (m.icmptab slot).icstate = .recv then send queued (m.icmptab slot).icpid 1
          else queued)

def ipLocal : Option Machine :=
  if (m.packet b).netIpproto = Frames.ipUdp then some (udpIn m b)
  else if (m.packet b).netIpproto = Frames.ipIcmp then icmpIn m b
  else some (freebuf m b)

/-- The packet in a frame comes to `ip_local`. -/
def ipDelivers (net : NetData) (f : Frames.Frame) : Prop :=
  Frames.ipcksum f = 0 ∧ f.netIpvh = 0x45 ∧
    (f.netIpproto = Frames.ipIcmp → Frames.icmpCksum f (f.netIplen - Frames.ipHdrLen) = 0) ∧
      Frames.isLocal net.toFrames f = true

instance (net : NetData) : DecidablePred (ipDelivers net) := fun _ =>
  inferInstanceAs (Decidable (_ ∧ _ ∧ (_ → _) ∧ _))

/-- Each of the other exits of `ip_in` frees the buffer. -/
def ipIn (f : Frames.Frame) : Option Machine :=
  if ipDelivers m.net f then ipLocal m b else some (freebuf m b)

/-- All exits of `arp_in` free the buffer. A reply is sent from the stack. -/
def arpIn (pkt : Arp.Arppacket) : Machine :=
  freebuf { m with arp := Arp.arpIn m.arp m.net.toArp pkt } b

/-- `netin` behind its `read` -/
def netin (f : Frames.Frame) : Option Machine :=
  let m := { m with reading := none, packet := Function.update m.packet b (ofFrame f) }
  if f.netEthtype = ethArp then some (arpIn m b (arpPacket f))
  else if f.netEthtype = Frames.ethIp then ipIn m b f
  else some (freebuf m b)

def ipOut : Machine := freebuf { m with sent := m.sent ++ [m.packet b] } b

/-- Behind `arp_resolve`, where `OK` sends the packet -/
def resolved (answer : Arp.Answer) : Machine :=
  if answer.status = ok then ipOut m b else freebuf m b

/-- The next hop is resolved at once, or the process waits with its packet. -/
def resolve (pid : Int) (nxthop : Nat) : Machine :=
  let call := Arp.arpResolve m.arp m.net.toArp pid nxthop
  match call.2 with
  | some answer => resolved { m with arp := call.1 } b answer
  | none => { m with arp := call.1, resolving := m.resolving ++ [(pid, b)] }

def nextHop (net : NetData) (dest : Nat) : Nat :=
  if dest &&& net.ipmask = net.ipprefix then dest else net.iprouter

/-- The packet is sent to this machine, by 127.0.0.0/8 or by its address. -/
def Loops (net : NetData) (dest : Nat) : Prop := dest / 16777216 = 127 ∨ dest = net.ipucast

instance (net : NetData) : DecidablePred (Loops net) := fun _ =>
  inferInstanceAs (Decidable (_ ∨ _))

def Broadcast (net : NetData) (dest : Nat) : Prop := dest = Frames.ipBcast ∨ dest = net.ipbcast

instance (net : NetData) : DecidablePred (Broadcast net) := fun _ =>
  inferInstanceAs (Decidable (_ ∨ _))

def ipSend (pid : Int) : Option Machine :=
  let dest := (m.packet b).netIpdst
  if Loops m.net dest then ipLocal m b
  else if Broadcast m.net dest then some (ipOut m b)
  else if nextHop m.net dest = 0 then some (freebuf m b)
  else some (resolve m b pid (nextHop m.net dest))

/-- `ipout` with the packet that it has taken from the queue -/
def ipoutSends : Option Machine :=
  let destip := (m.packet b).netIpdst
  if Broadcast m.net destip then some (freebuf m b)
  else if destip = m.net.ipucast then ipLocal m b
  else if nextHop m.net destip = 0 then some (freebuf m b)
  else some (resolve m b m.ipoutPid (nextHop m.net destip))

end Delivery

section Calls

variable (m : Machine)

def slotOf (size : Nat) (slot : Int) : Option (Fin size) :=
  if inside : 0 ≤ slot ∧ slot.toNat < size then some ⟨slot.toNat, inside.2⟩ else none

/-- A new packet in a buffer of the pool goes to `ip_send`. -/
def sendPacket (pid : Int) (pkt : Packet) : Option Machine :=
  (getbuf m).bind fun (b, m) =>
    ipSend { m with packet := Function.update m.packet b pkt } b pid

/-- The packet of `udp_send`, when the endpoint has an address to send to -/
def udpSendPacket (slot : Int) (buff : Nat → Nat) (len : Int) : Option Packet :=
  (slotOf Udp.udpSlots slot).bind fun slot =>
    let u := m.udptab slot
    if u.udstate = .free ∨ u.udremip = 0 then none
    else some (udpPacket m.net u.udremip u.udremport u.udlocport buff len)

def udpSendtoPacket (slot : Int) (remip remport : Nat) (buff : Nat → Nat) (len : Int) :
    Option Packet :=
  (slotOf Udp.udpSlots slot).bind fun slot =>
    let u := m.udptab slot
    if u.udstate = .free then none
    else some (udpPacket m.net remip remport u.udlocport buff len)

/-- A call that has nothing to send returns `SYSERR`. -/
def sends (pid : Int) (pkt : Option Packet) : Option Machine :=
  match pkt with
  | none => some m
  | some pkt => sendPacket m pid pkt

def udpRegister (remip remport locport : Nat) : Machine :=
  if ∃ slot, (m.udptab slot).udstate ≠ .free ∧ remport = (m.udptab slot).udremport ∧
      locport = (m.udptab slot).udlocport ∧ remip = (m.udptab slot).udremip then m
  else
    match (List.finRange Udp.udpSlots).find? fun slot =>
        decide ((m.udptab slot).udstate = .free) with
    | none => m
    | some slot => setUdp m slot (Udp.registered (m.udptab slot) remip remport locport)

def icmpRegister (remip : Nat) : Machine :=
  if ∃ slot, (m.icmptab slot).icstate ≠ .free ∧ (m.icmptab slot).icremip = remip then m
  else
    match (List.finRange Icmp.icmpSlots).find? fun slot =>
        decide ((m.icmptab slot).icstate = .free) with
    | none => m
    | some slot => setIcmp m slot (Icmp.registered (m.icmptab slot) remip)

/-- The end of `udp_recv`, behind the wait for a packet -/
def takeUdp (slot : Fin Udp.udpSlots) : Machine :=
  let first := Udp.dequeue (m.udptab slot)
  freebuf (setUdp m slot first.2) first.1.buffer

def takeIcmp (slot : Fin Icmp.icmpSlots) : Machine :=
  let first := Icmp.dequeue (m.icmptab slot)
  freebuf (setIcmp m slot first.2) first.1.buffer

/-- `recvclr`, and the process waits. -/
def waits (pid : Int) (place : Waiting) : Machine :=
  setProc m pid { m.proc pid with prhasmsg := false, waits := some place }

/-- `recvtime` does not wait when the time is negative as an `int32`. -/
def udpRecv (pid slot : Int) (time : Nat) : Machine :=
  match slotOf Udp.udpSlots slot with
  | none => m
  | some slot =>
      let u := m.udptab slot
      if u.udstate ≠ .used then m
      else if u.udcount = 0 then
        if 2147483648 ≤ time then
          setProc (setUdp m slot { u with udpid := pid }) pid
            { m.proc pid with prhasmsg := false }
        else waits (setUdp m slot { u with udstate := .recv, udpid := pid }) pid (.udp slot)
      else takeUdp m slot

def icmpRecv (pid icmpid : Int) (time : Nat) : Machine :=
  match slotOf Icmp.icmpSlots icmpid with
  | none => m
  | some slot =>
      let e := m.icmptab slot
      if e.icstate ≠ .used then m
      else if e.iccount = 0 then
        if 2147483648 ≤ time then
          setProc (setIcmp m slot { e with icpid := pid }) pid
            { m.proc pid with prhasmsg := false }
        else waits (setIcmp m slot { e with icstate := .recv, icpid := pid }) pid (.icmp slot)
      else takeIcmp m slot

/-- A receiver was sent `OK`. -/
def Told (pid : Int) : Prop := (m.proc pid).prhasmsg = true ∧ (m.proc pid).prmsg = 1

instance : DecidablePred (Told m) := fun _ => inferInstanceAs (Decidable (_ ∧ _))

/-- The receiver runs again, with a message or because its time is over. -/
def wakes (pid : Int) (place : Waiting) : Machine :=
  let woken := setProc m pid { m.proc pid with prhasmsg := false, waits := none }
  match place with
  | .udp slot =>
      let used := setUdp woken slot { m.udptab slot with udstate := .used }
      if Told m pid then takeUdp used slot else used
  | .icmp slot =>
      let used := setIcmp woken slot { m.icmptab slot with icstate := .used }
      if Told m pid then takeIcmp used slot else used

/-- The packets of an endpoint are freed one after the other. -/
def freeAll (buffers : List Nat) : Machine := buffers.foldl freebuf m

def udpRelease (slot : Int) : Machine :=
  match slotOf Udp.udpSlots slot with
  | none => m
  | some slot =>
      let u := m.udptab slot
      if u.udstate = .free then m
      else
        let drained := Udp.drainQueue u.udcount.toNat u
        freeAll (setUdp m slot { drained.2 with udstate := .free }) (drained.1.map (·.buffer))

def icmpRelease (icmpid : Int) : Machine :=
  match slotOf Icmp.icmpSlots icmpid with
  | none => m
  | some slot =>
      let e := m.icmptab slot
      if e.icstate ≠ .used then m
      else
        let drained := Icmp.drainQueue e.iccount.toNat e
        freeAll (setIcmp m slot { drained.2 with icstate := .free }) (drained.1.map (·.buffer))

end Calls

section Runs

/-- What the network and the processes do. `getsBuffer` and `frame` are the two halves of a turn of
`netin`, `ipoutWaits` and `ipoutTakes` those of a turn of `ipout`. `runs` is where a receiver goes on
behind its wait, and `resolves` where a process does that waits in `arp_resolve`. -/
inductive Event where
  | configure (net : NetData)
  | getsBuffer
  | frame (f : Frames.Frame)
  | udpRegister (remip remport locport : Nat)
  | udpSend (pid slot : Int) (buff : Nat → Nat) (len : Int)
  | udpSendto (pid slot : Int) (remip remport : Nat) (buff : Nat → Nat) (len : Int)
  | udpRecv (pid slot : Int) (time : Nat)
  | udpRelease (slot : Int)
  | icmpRegister (remip : Nat)
  | icmpSend (pid : Int) (remip type ident : Nat) (buff : Nat → Nat) (len : Int)
  | icmpRecv (pid icmpid : Int) (time : Nat)
  | icmpRelease (icmpid : Int)
  | runs (pid : Int)
  | resolves (pid : Int)
  | ipoutWaits
  | ipoutTakes

variable (m : Machine)

/-- The process is in none of the calls, and is not `ipout`. -/
def Outside (pid : Int) : Prop :=
  (m.proc pid).waits.isNone ∧ pid ∉ m.resolving.map Prod.fst ∧ pid ≠ m.ipoutPid

instance : DecidablePred (Outside m) := fun _ => inferInstanceAs (Decidable (_ ∧ _ ∧ _))

/-- The packet that a call of a process gives to `ip_send` -/
def sending : Event → Option Packet
  | .udpSend _ slot buff len => udpSendPacket m slot buff len
  | .udpSendto _ slot remip remport buff len => udpSendtoPacket m slot remip remport buff len
  | .icmpSend _ remip type ident buff len => some (icmpPacket m.net remip type ident buff len)
  | _ => none

def taken : Machine := { m with ipoqueue := Output.ipoutTakes m.ipoqueue }

/-- The process waits in `arp_resolve` with the packet, and runs again. -/
def resolves (pid : Int) (b : Nat) (w : Arp.Resolving) : Machine :=
  let call := Arp.wake m.arp pid w
  match call.2 with
  | some answer =>
      resolved { m with arp := call.1, resolving := m.resolving.erase (pid, b) } b answer
  | none => { m with arp := call.1 }

def act : Event → Option Machine
  | .configure net => some { m with net := net }
  | .getsBuffer =>
      match m.reading with
      | none => (getbuf m).map fun (b, m) => { m with reading := some b }
      | some _ => none
  | .frame f => m.reading.bind fun b => netin m b f
  | .udpRegister remip remport locport => some (udpRegister m remip remport locport)
  | .udpSend pid slot buff len =>
      if Outside m pid then sends m pid (sending m (.udpSend pid slot buff len)) else none
  | .udpSendto pid slot remip remport buff len =>
      if Outside m pid then sends m pid (sending m (.udpSendto pid slot remip remport buff len))
      else none
  | .udpRecv pid slot time => if Outside m pid then some (udpRecv m pid slot time) else none
  | .udpRelease slot => some (udpRelease m slot)
  | .icmpRegister remip => some (icmpRegister m remip)
  | .icmpSend pid remip type ident buff len =>
      if Outside m pid then sends m pid (sending m (.icmpSend pid remip type ident buff len))
      else none
  | .icmpRecv pid icmpid time => if Outside m pid then some (icmpRecv m pid icmpid time) else none
  | .icmpRelease icmpid => some (icmpRelease m icmpid)
  | .runs pid => (m.proc pid).waits.map fun place => wakes m pid place
  | .resolves pid =>
      (m.resolving.find? fun held => held.1 = pid).bind fun held =>
        (m.arp.proc pid).waits.map fun w => resolves m pid held.2 w
  | .ipoutWaits =>
      if m.ipoqueue.iqsem.queue = [] ∧ m.ipoqueue.iqsem.passed = [] ∧
          m.ipoutPid ∉ m.resolving.map Prod.fst then
        some { m with ipoqueue := { m.ipoqueue with iqsem := m.ipoqueue.iqsem.wait () } }
      else none
  | .ipoutTakes =>
      if m.ipoqueue.iqsem.passed = [] then none
      else ipoutSends (taken m) (m.ipoqueue.iqbuf m.ipoqueue.iqhead)

/-- `net_init`, with the processes that it creates -/
structure Started (m : Machine) : Prop where
  free : m.free = List.range nbufs
  udptab : ∀ slot, (m.udptab slot).udstate = .free ∧ (m.udptab slot).udhead = 0 ∧
    (m.udptab slot).udtail = 0 ∧ (m.udptab slot).udcount = 0
  icmptab : ∀ slot, (m.icmptab slot).icstate = .free ∧ (m.icmptab slot).ichead = 0 ∧
    (m.icmptab slot).ictail = 0 ∧ (m.icmptab slot).iccount = 0
  ipoqueue : Output.Started m.ipoqueue
  arp : Arp.Started m.arp
  proc : ∀ pid, (m.proc pid).waits = none
  reading : m.reading = none
  resolving : m.resolving = []

/-- A packet for `ip_local` finds room: a reply in its slot, and the answer to an echo request in the
queue of `ipout`. -/
def FindsRoom (pkt : Packet) : Prop :=
  pkt.netIpproto = Frames.ipIcmp →
    (pkt.netIctype = Frames.icmpEchoreqst → Output.CountsAll m.ipoqueue (.enqueue 0)) ∧
      (pkt.netIctype = Icmp.icmpEchoreply → ∀ slot ∈ icmpAccepts m pkt,
        (m.icmptab slot).iccount < Icmp.icmpQsiz)

instance : DecidablePred (FindsRoom m) := fun pkt => by
  unfold FindsRoom Output.CountsAll
  infer_instance

/-- A receiver that was sent `OK` finds a packet, and a reply is taken from a place of its queue. -/
def FindsPacket (pid : Int) : Waiting → Prop
  | .udp slot => Told m pid → 0 < (m.udptab slot).udcount
  | .icmp slot => Told m pid → 0 < (m.icmptab slot).iccount ∧
      (m.icmptab slot).ichead < Icmp.icmpQsiz

instance (pid : Int) : DecidablePred (FindsPacket m pid) := fun place => by
  cases place <;> unfold FindsPacket <;> infer_instance

def Fits : Event → Prop
  | .frame f => f.netEthtype = Frames.ethIp → ipDelivers m.net f → FindsRoom m (ofFrame f)
  | .icmpSend _ remip type ident buff len =>
      Loops m.net remip → FindsRoom m (icmpPacket m.net remip type ident buff len)
  | .icmpRecv _ icmpid _ => ∀ slot ∈ slotOf Icmp.icmpSlots icmpid,
      (m.icmptab slot).iccount ≠ 0 → (m.icmptab slot).ichead < Icmp.icmpQsiz
  | .icmpRelease icmpid => ∀ slot ∈ slotOf Icmp.icmpSlots icmpid,
      (m.icmptab slot).ichead + (m.icmptab slot).iccount ≤ Icmp.icmpQsiz
  | .runs pid => ∀ place ∈ (m.proc pid).waits, FindsPacket m pid place
  | .ipoutTakes =>
      let pkt := m.packet (m.ipoqueue.iqbuf m.ipoqueue.iqhead)
      ¬Broadcast m.net pkt.netIpdst → pkt.netIpdst = m.net.ipucast → FindsRoom (taken m) pkt
  | _ => True

instance : DecidablePred (Fits m) := fun event => by
  cases event <;> unfold Fits <;> infer_instance

end Runs

end Xinu.Net.Buffers
