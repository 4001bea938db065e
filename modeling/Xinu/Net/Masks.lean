import Xinu.Net.Conservation
import Xinu.Lib.Masks

/-!
# The interrupt mask in the calls of the network

Each call with all of its exits. What `getbuf`, `freebuf`, `send`, `recvtime`, `signal` and `write`
do is up to the others: they restore the mask themselves, and any process may run inside of them.
-/

namespace Xinu.Net.Masks

open Xinu.Kernel.State (sysErr ok)
open Xinu.Lib.StateError Xinu.Lib.Masks Xinu.Net.Buffers

set_option autoImplicit false

section Definitions

/-- `TIMEOUT` as a result -/
def timeout : Int := -3

/-- `SYSERR` as a message -/
def sysErrMsg : Nat := 4294967295

def arpTimeout : Nat := 300

/-- What the calls of other parts return, with what has become of the machine then -/
structure Outside where
  getbuf : Machine → Option Nat × Machine
  freebuf : Nat → Machine → Machine
  send : Int → Nat → Machine → Machine
  signal : Machine → Machine
  recvclr : Machine → Machine
  recvtime : Nat → Machine → Nat × Machine
  writePacket : Nat → Machine → Int × Machine
  writeArp : Nat → Machine → Machine

end Definitions

section Delivery

variable (o : Outside)

def udpIn (b : Nat) : Call Machine PUnit := do
  let mask ← disable
  let m ← getMachine
  let pkt := (m.packet b).toUdp b
  match (List.finRange Udp.udpSlots).find? fun slot =>
      decide (Udp.matchesPacket (m.udptab slot) pkt ∧ (m.udptab slot).udcount < Udp.udpQsiz) with
  | none => do
      change (o.freebuf b)
      leave mask ()
  | some slot => do
      change fun m => setUdp m slot (Udp.enqueue (m.udptab slot) pkt)
      if (m.udptab slot).udstate = .recv then do
        change (o.send (m.udptab slot).udpid 1)
        leave mask ()
      else leave mask ()

def ipEnqueue (b : Nat) : Call Machine Int := do
  let mask ← disable
  let m ← getMachine
  if (Output.ipOqsiz : Int) ≤ m.ipoqueue.iqsem.count then do
    change (o.freebuf b)
    leave mask sysErr
  else do
    change fun m => { m with ipoqueue := (Output.ipEnqueue m.ipoqueue b).1 }
    change o.signal
    leave mask ok

/-- `icmp_mkpkt` panics where `getbuf` fails. -/
def icmpMkpkt (remip type ident : Nat) (buf : Nat → Nat) (len : Int) :
    Call Machine (Option Nat) := do
  let pkt ← outcome o.getbuf
  match pkt with
  | none => halt
  | some b => do
      change fun m =>
        { m with packet := Function.update m.packet b (icmpPacket m.net remip type ident buf len) }
      return some b

def icmpIn (b : Nat) : Call Machine PUnit := do
  let mask ← disable
  let m ← getMachine
  let pkt := m.packet b
  if pkt.netIctype ≠ Icmp.icmpEchoreply ∧ pkt.netIctype ≠ Frames.icmpEchoreqst then do
    change (o.freebuf b)
    leave mask ()
  else if pkt.netIctype = Frames.icmpEchoreqst then do
    let replypkt ← icmpMkpkt o pkt.netIpsrc Icmp.icmpEchoreply pkt.netIcident pkt.data
      (pkt.netIplen - Frames.ipHdrLen - Frames.icmpHdrLen)
    match replypkt with
    | none => do
        change (o.freebuf b)
        leave mask ()
    | some replypkt => do
        let _ ← ipEnqueue o replypkt
        change (o.freebuf b)
        leave mask ()
  else
    match icmpAccepts m pkt with
    | none => do
        change (o.freebuf b)
        leave mask ()
    | some slot => do
        change fun m => setIcmp m slot (Icmp.enqueue (m.icmptab slot) (pkt.toIcmp b))
        if (m.icmptab slot).icstate = .recv then do
          change (o.send (m.icmptab slot).icpid 1)
          leave mask ()
        else leave mask ()

def ipLocal (b : Nat) : Call Machine PUnit := do
  let m ← getMachine
  if (m.packet b).netIpproto = Frames.ipUdp then udpIn o b
  else if (m.packet b).netIpproto = Frames.ipIcmp then icmpIn o b
  else change (o.freebuf b)

/-- `ip_out`, behind the conversion of the packet and its checksums -/
def ipOut (b : Nat) : Call Machine Int := do
  let retval ← outcome (o.writePacket b)
  change (o.freebuf b)
  return if retval = sysErr then sysErr else ok

end Delivery

section Resolution

variable (o : Outside) (pid : Int)

/-- The requests of `arp_resolve`: the last message decides. -/
def arpRequests (mask : Bool) (slot nxthop : Nat) : Nat → Call Machine Arp.Answer
  | 0 => do
      change fun m =>
        { m with arp := Arp.setEntry m.arp slot { m.arp.arpcache slot with arstate := .free } }
      leave mask ⟨nxthop, timeout, 0⟩
  | left + 1 => do
      change (o.writeArp nxthop)
      let msg ← outcome (o.recvtime arpTimeout)
      if msg = Udp.timeout then arpRequests mask slot nxthop left
      else if msg = sysErrMsg then leave mask ⟨nxthop, sysErr, 0⟩
      else do
        let m ← getMachine
        leave mask ⟨nxthop, ok, (m.arp.arpcache slot).arhaddr⟩

/-- The new entry of an address that is asked for -/
def pending (nxthop slot : Nat) (m : Machine) : Machine :=
  { m with
    arp := Arp.setEntry m.arp slot
      { Arp.cleared with arstate := .pending, arpaddr := nxthop, arpid := pid } }

def arpResolve (nxthop : Nat) : Call Machine Arp.Answer := do
  let m ← getMachine
  if nxthop = Arp.ipBcast ∨ nxthop = m.net.ipbcast then return ⟨nxthop, ok, m.net.ethbcast⟩
  else do
    let mask ← disable
    match Arp.lookup m.arp nxthop with
    | some slot =>
        if (m.arp.arpcache slot).arstate = .resolved then
          leave mask ⟨nxthop, ok, (m.arp.arpcache slot).arhaddr⟩
        else leave mask ⟨nxthop, sysErr, 0⟩
    | none =>
        match Arp.arpAlloc m.arp with
        | none => leave mask ⟨nxthop, sysErr, 0⟩
        | some slot => do
            change (pending pid nxthop slot)
            change o.recvclr
            arpRequests o mask slot nxthop Arp.arpRetry

/-- The sender's entry gets its hardware address, and the process that waits for it is told. -/
def arpNotice (pkt : Arp.Arppacket) : Option Nat → Call Machine PUnit
  | none => return ()
  | some slot => do
      let m ← getMachine
      let e := { m.arp.arpcache slot with arhaddr := pkt.arpSndha }
      if e.arstate = .pending then do
        change fun m => { m with arp := Arp.setEntry m.arp slot { e with arstate := .resolved } }
        change (o.send e.arpid 1)
      else change fun m => { m with arp := Arp.setEntry m.arp slot e }

/-- The reply of `arp_in` to a request, and its last exit -/
def arpReply (mask : Bool) (pkt : Arp.Arppacket) (b : Nat) : Call Machine PUnit := do
  change (o.writeArp pkt.arpSndpa)
  change (o.freebuf b)
  leave mask ()

def arpIn (pkt : Arp.Arppacket) (b : Nat) : Call Machine PUnit := do
  if pkt.arpHtype ≠ Arp.arpHtype ∨ pkt.arpPtype ≠ Arp.arpPtype then change (o.freebuf b)
  else do
    let mask ← disable
    let m ← getMachine
    let found := Arp.lookup m.arp pkt.arpSndpa
    arpNotice o pkt found
    let m ← getMachine
    if pkt.arpOp = Arp.arpOpRply then do
      change (o.freebuf b)
      leave mask ()
    else if m.net.ipvalid = false ∨ pkt.arpTarpa ≠ m.net.ipucast then do
      change (o.freebuf b)
      leave mask ()
    else
      match found with
      | some _ => arpReply o mask pkt b
      | none =>
          match Arp.arpAlloc m.arp with
          | none => do
              change (o.freebuf b)
              leave mask ()
          | some slot => do
              change fun m =>
                { m with
                  arp := Arp.setEntry m.arp slot
                    { Arp.cleared with
                      arpaddr := pkt.arpSndpa, arhaddr := pkt.arpSndha, arstate := .resolved } }
              arpReply o mask pkt b

end Resolution

section Calls

variable (o : Outside) (pid : Int)

/-- Two of the exits return without a `restore`. -/
def ipSend (b : Nat) : Call Machine Int := do
  let mask ← disable
  let m ← getMachine
  let dest := (m.packet b).netIpdst
  if Loops m.net dest then do
    ipLocal o b
    leave mask ok
  else if Broadcast m.net dest then do
    let retval ← ipOut o b
    leave mask retval
  else if nextHop m.net dest = 0 then do
    change (o.freebuf b)
    return sysErr
  else do
    let answer ← arpResolve o pid (nextHop m.net dest)
    if answer.status ≠ ok then do
      change (o.freebuf b)
      return sysErr
    else do
      let retval ← ipOut o b
      leave mask retval

def icmpSend (remip type ident : Nat) (buf : Nat → Nat) (len : Int) : Call Machine Int := do
  let mask ← disable
  let pkt ← icmpMkpkt o remip type ident buf len
  match pkt with
  | none => return sysErr
  | some b => do
      let retval ← ipSend o pid b
      leave mask retval

/-- The end of `icmp_recv`, behind the wait for a reply -/
def icmpTake (mask : Bool) (slot : Fin Icmp.icmpSlots) (len : Int) : Call Machine Icmp.Answer := do
  let m ← getMachine
  let first := Icmp.dequeue (m.icmptab slot)
  let count := (min ((first.1.netIplen : Int) - Icmp.ipHdrLen - Icmp.icmpHdrLen) len).toNat
  change fun m => setIcmp m slot first.2
  change (o.freebuf first.1.buffer)
  leave mask { value := count, bytes := (List.range count).map first.1.netIcdata }

def icmpRecv (icmpid len : Int) (time : Nat) : Call Machine Icmp.Answer :=
  match slotOf Icmp.icmpSlots icmpid with
  | none => return Icmp.refused sysErr
  | some slot => do
      let mask ← disable
      let m ← getMachine
      if (m.icmptab slot).icstate ≠ .used then leave mask (Icmp.refused sysErr)
      else if (m.icmptab slot).iccount = 0 then do
        change fun m => setIcmp m slot { m.icmptab slot with icstate := .recv, icpid := pid }
        change o.recvclr
        let msg ← outcome (o.recvtime time)
        change fun m => setIcmp m slot { m.icmptab slot with icstate := .used }
        if msg = Icmp.timeout then leave mask (Icmp.refused timeout)
        else if msg ≠ 1 then leave mask (Icmp.refused sysErr)
        else icmpTake o mask slot len
      else icmpTake o mask slot len

def udpRegister (remip remport locport : Nat) : Call Machine Int := do
  let mask ← disable
  let m ← getMachine
  if ∃ slot, (m.udptab slot).udstate ≠ .free ∧ remport = (m.udptab slot).udremport ∧
      locport = (m.udptab slot).udlocport ∧ remip = (m.udptab slot).udremip then
    leave mask sysErr
  else
    match (List.finRange Udp.udpSlots).find? fun slot =>
        decide ((m.udptab slot).udstate = .free) with
    | none => leave mask sysErr
    | some slot => do
        change fun m =>
          setUdp m slot (Udp.registered (m.udptab slot) remip remport locport)
        leave mask (slot.val : Int)

/-- The end of `udp_recv` and `udp_recvaddr`, behind the wait for a packet -/
def udpTake (mask : Bool) (slot : Fin Udp.udpSlots) (len : Int) (addr : Bool) :
    Call Machine Udp.Answer := do
  let m ← getMachine
  let first := Udp.dequeue (m.udptab slot)
  let msglen := min ((first.1.netUdplen : Int) - Udp.udpHdrLen) len
  change fun m => setUdp m slot first.2
  change (o.freebuf first.1.buffer)
  leave mask
    { value := msglen
      bytes := (List.range msglen.toNat).map first.1.netUdpdata
      sender := if addr then some (first.1.netIpsrc, first.1.netUdpsport) else none }

/-- `udp_recv` and `udp_recvaddr`, which also returns where the packet comes from -/
def udpReceive (slot len : Int) (time : Nat) (addr : Bool) : Call Machine Udp.Answer := do
  let mask ← disable
  match slotOf Udp.udpSlots slot with
  | none => leave mask (Udp.refused sysErr)
  | some slot => do
      let m ← getMachine
      if (m.udptab slot).udstate ≠ .used then leave mask (Udp.refused sysErr)
      else if (m.udptab slot).udcount = 0 then do
        change fun m => setUdp m slot { m.udptab slot with udstate := .recv, udpid := pid }
        change o.recvclr
        let msg ← outcome (o.recvtime time)
        change fun m => setUdp m slot { m.udptab slot with udstate := .used }
        if msg = Udp.timeout then leave mask (Udp.refused timeout)
        else if msg ≠ 1 then leave mask (Udp.refused sysErr)
        else udpTake o mask slot len addr
      else udpTake o mask slot len addr

def udpRecv (slot len : Int) (time : Nat) : Call Machine Udp.Answer :=
  udpReceive o pid slot len time false

def udpRecvaddr (slot len : Int) (time : Nat) : Call Machine Udp.Answer :=
  udpReceive o pid slot len time true

/-- The common end of `udp_send` and `udp_sendto`, which ignore what `ip_send` returns -/
def udpPacketSend (mask : Bool) (pkt : Machine → Packet) : Call Machine Int := do
  let b ← outcome o.getbuf
  match b with
  | none => leave mask sysErr
  | some b => do
      change fun m => { m with packet := Function.update m.packet b (pkt m) }
      let _ ← ipSend o pid b
      leave mask ok

def udpSend (slot : Int) (buff : Nat → Nat) (len : Int) : Call Machine Int := do
  let mask ← disable
  match slotOf Udp.udpSlots slot with
  | none => leave mask sysErr
  | some slot => do
      let m ← getMachine
      let u := m.udptab slot
      if u.udstate = .free then leave mask sysErr
      else if u.udremip = 0 then leave mask sysErr
      else
        udpPacketSend o pid mask fun _ =>
          udpPacket m.net u.udremip u.udremport u.udlocport buff len

/-- The addresses of this machine go into the packet behind `getbuf`. -/
def udpSendto (slot : Int) (remip remport : Nat) (buff : Nat → Nat) (len : Int) :
    Call Machine Int := do
  let mask ← disable
  match slotOf Udp.udpSlots slot with
  | none => leave mask sysErr
  | some slot => do
      let m ← getMachine
      if (m.udptab slot).udstate = .free then leave mask sysErr
      else
        udpPacketSend o pid mask fun m =>
          udpPacket m.net remip remport (m.udptab slot).udlocport buff len

/-- Rescheduling is deferred while the packets are freed. -/
def udpRelease (slot : Int) : Call Machine Int := do
  let mask ← disable
  match slotOf Udp.udpSlots slot with
  | none => leave mask sysErr
  | some slot => do
      let m ← getMachine
      let u := m.udptab slot
      if u.udstate = .free then leave mask sysErr
      else do
        let drained := Udp.drainQueue u.udcount.toNat u
        change fun m => setUdp m slot { drained.2 with udstate := .free }
        change fun m => drained.1.foldl (fun m pkt => o.freebuf pkt.buffer m) m
        leave mask ok

end Calls

section Conditions

variable (o : Outside) (pid : Int)

/-- Of the messages behind the requests, the first that is no timeout is no error. -/
def Answered (nxthop : Nat) : Nat → Machine → Prop
  | 0, _ => False
  | left + 1, m =>
      let got := o.recvtime arpTimeout (o.writeArp nxthop m)
      if got.1 = Udp.timeout then Answered nxthop left got.2 else got.1 ≠ sysErrMsg

/-- An address is a broadcast, or its entry is resolved, or it is not in the cache, there is room
for it, and it is answered. -/
def Resolves (m : Machine) (nxthop : Nat) : Prop :=
  nxthop = Arp.ipBcast ∨ nxthop = m.net.ipbcast ∨
    match Arp.lookup m.arp nxthop with
    | some slot => (m.arp.arpcache slot).arstate = .resolved
    | none =>
        match Arp.arpAlloc m.arp with
        | none => False
        | some slot =>
            Answered o nxthop Arp.arpRetry (o.recvclr (pending pid nxthop slot m))

/-- A packet goes out of this machine, but there is no way to its destination. -/
structure NoRoute (m : Machine) (b : Nat) : Prop where
  loops : ¬Loops m.net (m.packet b).netIpdst
  broadcast : ¬Broadcast m.net (m.packet b).netIpdst
  hop : nextHop m.net (m.packet b).netIpdst = 0 ∨
    ¬Resolves o pid m (nextHop m.net (m.packet b).netIpdst)

end Conditions

section Exits

variable (o : Outside) (pid : Int)

theorem udp_in_returns (b : Nat) : Returns Cpu.mask (udpIn o b) := by
  refine returns_disable fun mask => leaves_bind fun m => ?_
  dsimp only
  split
  · exact leaves_bind fun _ => leaves_leave mask ()
  · refine leaves_bind fun _ => leaves_ite ?_ (leaves_leave mask ())
    exact leaves_bind fun _ => leaves_leave mask ()

theorem ip_enqueue_returns (b : Nat) : Returns Cpu.mask (ipEnqueue o b) := by
  refine returns_disable fun mask => leaves_bind fun m => leaves_ite ?_ ?_
  · exact leaves_bind fun _ => leaves_leave mask _
  · exact leaves_bind fun _ => leaves_bind fun _ => leaves_leave mask _

theorem icmp_mkpkt_returns (remip type ident : Nat) (buf : Nat → Nat) (len : Int) :
    Returns Cpu.mask (icmpMkpkt o remip type ident buf len) := by
  refine returns_bind (returns_outcome _) fun pkt => ?_
  cases pkt with
  | none => exact returns_halt
  | some b => exact returns_bind (returns_change _) fun _ => returns_pure _

/-- There is no packet only where the processor has stopped. -/
theorem icmp_mkpkt_some {remip type ident : Nat} {buf : Nat → Nat} {len : Int}
    {c final : Cpu Machine} {value : Option Nat} (ran : icmpMkpkt o remip type ident buf len c = .ok value final) :
    value.isSome = true := by
  obtain ⟨pkt, middle, -, ran⟩ := bind_ok_inv ran
  cases pkt with
  | none => cases ran
  | some b =>
      obtain ⟨_, _, -, ran⟩ := bind_ok_inv ran
      cases ran
      rfl

theorem icmp_in_returns (b : Nat) : Returns Cpu.mask (icmpIn o b) := by
  refine returns_disable fun mask => leaves_bind fun m => leaves_ite ?_ (leaves_ite ?_ ?_)
  · exact leaves_bind fun _ => leaves_leave mask ()
  · refine leaves_bind fun replypkt => ?_
    cases replypkt with
    | none => exact leaves_bind fun _ => leaves_leave mask ()
    | some replypkt =>
        exact leaves_bind fun _ => leaves_bind fun _ => leaves_leave mask ()
  · split
    · exact leaves_bind fun _ => leaves_leave mask ()
    · refine leaves_bind fun _ => leaves_ite ?_ (leaves_leave mask ())
      exact leaves_bind fun _ => leaves_leave mask ()

theorem ip_local_returns (b : Nat) : Returns Cpu.mask (ipLocal o b) :=
  returns_bind returns_get_machine fun _ =>
    returns_ite (udp_in_returns o b) (returns_ite (icmp_in_returns o b) (returns_change _))

theorem ip_out_returns (b : Nat) : Returns Cpu.mask (ipOut o b) :=
  returns_bind (returns_outcome _) fun _ => returns_bind (returns_change _) fun _ => returns_pure _

theorem arp_requests_leaves (mask : Bool) (slot nxthop left : Nat) :
    Leaves mask (arpRequests o mask slot nxthop left) := by
  induction left with
  | zero => exact leaves_bind fun _ => leaves_leave mask _
  | succ left induction =>
      refine leaves_bind fun _ => leaves_bind fun msg => ?_
      refine leaves_ite induction (leaves_ite (leaves_leave mask _) ?_)
      exact leaves_bind fun _ => leaves_leave mask _

theorem arp_resolve_returns (nxthop : Nat) : Returns Cpu.mask (arpResolve o pid nxthop) := by
  refine returns_bind returns_get_machine fun m => returns_ite (returns_pure _) ?_
  refine returns_disable fun mask => ?_
  split
  · exact leaves_ite (leaves_leave mask _) (leaves_leave mask _)
  · split
    · exact leaves_leave mask _
    · exact leaves_bind fun _ => leaves_bind fun _ => arp_requests_leaves o mask _ _ _

theorem arp_in_returns (pkt : Arp.Arppacket) (b : Nat) : Returns Cpu.mask (arpIn o pkt b) := by
  have reply : ∀ mask, Leaves mask (arpReply o mask pkt b) := fun mask =>
    leaves_bind fun _ => leaves_bind fun _ => leaves_leave mask ()
  refine returns_ite (returns_change _) (returns_disable fun mask => leaves_bind fun m => ?_)
  refine leaves_bind fun _ => leaves_bind fun m => leaves_ite ?_ (leaves_ite ?_ ?_)
  · exact leaves_bind fun _ => leaves_leave mask ()
  · exact leaves_bind fun _ => leaves_leave mask ()
  · split
    · exact reply mask
    · split
      · exact leaves_bind fun _ => leaves_leave mask ()
      · exact leaves_bind fun _ => reply mask

theorem icmp_recv_returns (icmpid len : Int) (time : Nat) :
    Returns Cpu.mask (icmpRecv o pid icmpid len time) := by
  have take : ∀ mask slot, Leaves mask (icmpTake o mask slot len) := fun mask slot =>
    leaves_bind fun _ => leaves_bind fun _ => leaves_bind fun _ => leaves_leave mask _
  unfold icmpRecv
  split
  · exact returns_pure _
  · rename_i slot inside
    refine returns_disable fun mask => leaves_bind fun m => ?_
    refine leaves_ite (leaves_leave mask _) (leaves_ite ?_ (take mask slot))
    refine leaves_bind fun _ => leaves_bind fun _ => leaves_bind fun msg => leaves_bind fun _ => ?_
    exact leaves_ite (leaves_leave mask _) (leaves_ite (leaves_leave mask _) (take mask slot))

theorem udp_register_returns (remip remport locport : Nat) :
    Returns Cpu.mask (udpRegister remip remport locport) := by
  refine returns_disable fun mask => leaves_bind fun m => leaves_ite (leaves_leave mask _) ?_
  split
  · exact leaves_leave mask _
  · exact leaves_bind fun _ => leaves_leave mask _

theorem udp_receive_returns (slot len : Int) (time : Nat) (addr : Bool) :
    Returns Cpu.mask (udpReceive o pid slot len time addr) := by
  have take : ∀ mask slot, Leaves mask (udpTake o mask slot len addr) := fun mask slot =>
    leaves_bind fun _ => leaves_bind fun _ => leaves_bind fun _ => leaves_leave mask _
  refine returns_disable fun mask => ?_
  split
  · exact leaves_leave mask _
  · refine leaves_bind fun m => leaves_ite (leaves_leave mask _) (leaves_ite ?_ (take mask _))
    refine leaves_bind fun _ => leaves_bind fun _ => leaves_bind fun msg => leaves_bind fun _ => ?_
    exact leaves_ite (leaves_leave mask _) (leaves_ite (leaves_leave mask _) (take mask _))

/-- What `ip_send` does to the mask does not matter behind it. -/
theorem udp_packet_send_leaves (mask : Bool) (pkt : Machine → Packet) :
    Leaves mask (udpPacketSend o pid mask pkt) := by
  refine leaves_bind fun b => ?_
  cases b with
  | none => exact leaves_leave mask _
  | some b => exact leaves_bind fun _ => leaves_bind fun _ => leaves_leave mask _

theorem udp_send_returns (slot : Int) (buff : Nat → Nat) (len : Int) :
    Returns Cpu.mask (udpSend o pid slot buff len) := by
  refine returns_disable fun mask => ?_
  split
  · exact leaves_leave mask _
  · refine leaves_bind fun m => leaves_ite (leaves_leave mask _) ?_
    exact leaves_ite (leaves_leave mask _) (udp_packet_send_leaves o pid mask _)

theorem udp_sendto_returns (slot : Int) (remip remport : Nat) (buff : Nat → Nat) (len : Int) :
    Returns Cpu.mask (udpSendto o pid slot remip remport buff len) := by
  refine returns_disable fun mask => ?_
  split
  · exact leaves_leave mask _
  · refine leaves_bind fun m => leaves_ite (leaves_leave mask _) ?_
    exact udp_packet_send_leaves o pid mask _

theorem udp_release_returns (slot : Int) : Returns Cpu.mask (udpRelease o slot) := by
  refine returns_disable fun mask => ?_
  split
  · exact leaves_leave mask _
  · refine leaves_bind fun m => leaves_ite (leaves_leave mask _) ?_
    exact leaves_bind fun _ => leaves_bind fun _ => leaves_leave mask _

/-- The exit behind a failing `icmp_mkpkt` restores nothing, but is never taken. -/
theorem icmp_send_returns (remip type ident : Nat) (buf : Nat → Nat) (len : Int) :
    Returns Cpu.mask (icmpSend o pid remip type ident buf len) := by
  refine returns_disable fun mask => leaves_bind_of (fun _ _ _ => icmp_mkpkt_some o) ?_
  intro pkt there
  cases pkt with
  | none => cases there
  | some b => exact leaves_bind fun _ => leaves_leave mask _

end Exits

section Routes

variable {o : Outside} {pid : Int} {c : Cpu Machine} {b : Nat}

theorem arp_requests_status (mask : Bool) (slot nxthop left : Nat) (c : Cpu Machine) :
    ∃ answer final, arpRequests o mask slot nxthop left c = .ok answer final ∧
      (answer.status = ok ↔ Answered o nxthop left c.machine) := by
  induction left generalizing c with
  | zero => exact ⟨_, _, rfl, iff_of_false (show ¬timeout = ok by decide) id⟩
  | succ left induction =>
      rw [arpRequests, change_bind, outcome_bind]
      unfold Answered
      dsimp only
      split_ifs with timedOut failed
      · exact induction _
      · exact ⟨_, _, rfl, iff_of_false (show ¬sysErr = ok by decide) (not_not.mpr failed)⟩
      · exact ⟨_, _, rfl, iff_of_true rfl failed⟩

/-- `arp_resolve` returns, with `OK` for an address that resolves. -/
theorem arp_resolve_status (nxthop : Nat) (c : Cpu Machine) :
    ∃ answer final, arpResolve o pid nxthop c = .ok answer final ∧
      (answer.status = ok ↔ Resolves o pid c.machine nxthop) := by
  have refused : ¬sysErr = ok := by decide
  rw [arpResolve, get_machine_bind]
  unfold Resolves
  split_ifs with broadcast
  · exact ⟨_, _, rfl, iff_of_true rfl (or_assoc.mp (.inl broadcast))⟩
  · rw [not_or] at broadcast
    simp only [broadcast.1, broadcast.2, false_or, disable_bind]
    cases Arp.lookup c.machine.arp nxthop with
    | some slot =>
        dsimp only
        split_ifs with resolved
        · exact ⟨_, _, rfl, iff_of_true rfl resolved⟩
        · exact ⟨_, _, rfl, iff_of_false refused resolved⟩
    | none =>
        dsimp only
        cases Arp.arpAlloc c.machine.arp with
        | none => exact ⟨_, _, rfl, iff_of_false refused id⟩
        | some slot =>
            dsimp only
            rw [change_bind, change_bind]
            exact arp_requests_status _ _ _ _ _

/-- Without a route the interrupts stay disabled, and on the other exits the mask is restored. -/
theorem ip_send_restores_iff (o : Outside) (pid : Int) (c : Cpu Machine) (b : Nat) :
    RestoresFrom c (ipSend o pid b) ↔ (NoRoute o pid c.machine b → c.mask = false) := by
  have kept : ∀ {call : Call Machine Int}, Leaves c.mask call →
      ∀ c' : Cpu Machine, ∀ value final, call c' = .ok value final → final.mask = c.mask :=
    fun leaves c' value final ran => leaves c' value final ran
  unfold RestoresFrom
  rw [ipSend, disable_bind, get_machine_bind]
  dsimp only
  split_ifs with loops broadcast unreachable
  · refine iff_of_true ?_ fun none_ => absurd loops none_.loops
    exact kept (leaves_bind fun _ => leaves_leave c.mask ok) _
  · refine iff_of_true ?_ fun none_ => absurd broadcast none_.broadcast
    exact kept (leaves_bind fun _ => leaves_leave c.mask _) _
  · have route : NoRoute o pid c.machine b := ⟨loops, broadcast, .inl unreachable⟩
    constructor
    · exact fun restores _ => (restores sysErr _ rfl).symm
    · rintro disabled value final ⟨⟩
      exact (disabled route).symm
  · obtain ⟨answer, final, ran, status⟩ := @arp_resolve_status o pid
      (nextHop c.machine.net (c.machine.packet b).netIpdst) { c with mask := false }
    rw [bind_ok ran]
    split_ifs with failed
    · have route : NoRoute o pid c.machine b :=
        ⟨loops, broadcast, .inr fun resolves => failed (status.mpr resolves)⟩
      have mask := arp_resolve_returns o pid _ _ answer final ran
      constructor
      · exact fun restores _ => (restores sysErr _ rfl).symm.trans mask
      · rintro disabled value final ⟨⟩
        exact mask.trans (disabled route).symm
    · refine iff_of_true ?_ fun none_ => ?_
      · exact kept (leaves_bind fun _ => leaves_leave c.mask _) _
      · rcases none_.hop with zero | unresolved
        · exact absurd zero unreachable
        · exact absurd (status.mp (not_not.mp failed)) unresolved

end Routes

section Results

/-- Every call of the network restores the interrupt mask, except for `ip_send` where there is no
route and interrupts were enabled. -/
theorem masks_restored_iff (o : Outside) (pid : Int) (c : Cpu Machine) :
    (∀ b, RestoresFrom c (ipSend o pid b) ↔ (NoRoute o pid c.machine b → c.mask = false)) ∧
      (∀ remip type ident buf len, RestoresFrom c (icmpSend o pid remip type ident buf len)) ∧
      (∀ icmpid len time, RestoresFrom c (icmpRecv o pid icmpid len time)) ∧
      (∀ nxthop, RestoresFrom c (arpResolve o pid nxthop)) ∧
      (∀ pkt b, RestoresFrom c (arpIn o pkt b)) ∧
      (∀ slot buff len, RestoresFrom c (udpSend o pid slot buff len)) ∧
      (∀ slot remip remport buff len,
        RestoresFrom c (udpSendto o pid slot remip remport buff len)) ∧
      (∀ slot len time, RestoresFrom c (udpRecv o pid slot len time)) ∧
      (∀ slot len time, RestoresFrom c (udpRecvaddr o pid slot len time)) ∧
      (∀ remip remport locport, RestoresFrom c (udpRegister remip remport locport)) ∧
      ∀ slot, RestoresFrom c (udpRelease o slot) :=
  ⟨ip_send_restores_iff o pid c, fun _ _ _ _ _ => icmp_send_returns o pid _ _ _ _ _ c,
    fun _ _ _ => icmp_recv_returns o pid _ _ _ c, fun _ => arp_resolve_returns o pid _ c,
    fun _ _ => arp_in_returns o _ _ c, fun _ _ _ => udp_send_returns o pid _ _ _ c,
    fun _ _ _ _ _ => udp_sendto_returns o pid _ _ _ _ _ c,
    fun _ _ _ => udp_receive_returns o pid _ _ _ false c,
    fun _ _ _ => udp_receive_returns o pid _ _ _ true c,
    fun _ _ _ => udp_register_returns _ _ _ c, fun _ => udp_release_returns o _ c⟩

/-- The others let nothing happen. -/
def idle : Outside where
  getbuf m := (none, m)
  freebuf _ m := m
  send _ _ m := m
  signal m := m
  recvclr m := m
  recvtime _ m := (Udp.timeout, m)
  writePacket _ m := (ok, m)
  writeArp _ m := m

/-- The machine 10.0.0.9, which has no router, with a packet for 8.8.8.8 -/
def stranded : Machine :=
  { Conservation.fresh with
    net :=
      { ipvalid := true, ipucast := 0x0a000009, ipbcast := 0x0a0000ff, ipmask := 0xffffff00,
        ipprefix := 0x0a000000, iprouter := 0, ethbcast := 0 }
    packet := fun _ => { Conservation.quiet with netIpdst := 0x08080808 } }

theorem interrupts_stay_disabled : ¬RestoresFrom ⟨true, stranded⟩ (ipSend idle 5 0) := by
  rw [ip_send_restores_iff]
  intro restores
  have route : NoRoute idle 5 stranded 0 := ⟨by decide, by decide, .inl (by decide)⟩
  cases restores route

end Results

end Xinu.Net.Masks
