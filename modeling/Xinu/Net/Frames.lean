import Xinu.Net.Icmp
import Xinu.Net.Udp

/-!
# Frames

A frame from the network, byte by byte, and its way through `netin`, `ip_in`, `ip_local` and
`icmp_in`. What the checksums and the copy of an echo request read and write is recorded. Nothing on
this way compares the length of the frame with the lengths in its headers.
-/

namespace Xinu.Net.Frames

set_option autoImplicit false

section Layout

/-- `PACKLEN` -/
def packlen : Nat := 1514

def ipHdrLen : Nat := 20

def icmpHdrLen : Nat := 8

def ethIp : Nat := 0x0800

def ipIcmp : Nat := 1

def ipUdp : Nat := 17

def ipBcast : Nat := 0xffffffff

def icmpEchoreqst : Nat := 8

/-- A packet buffer behind the read of a frame. The bytes from `received` on are what the buffer had
before. -/
structure Frame where
  received : Nat
  bytes : Nat → UInt8
  fits : received ≤ packlen

namespace Frame

variable (f : Frame)

/-- `ntohs` of the 16 bits at an offset. -/
def short (offset : Nat) : Nat :=
  (f.bytes offset).toNat * 256 + (f.bytes (offset + 1)).toNat

/-- `ntohl` of the 32 bits at an offset. -/
def long (offset : Nat) : Nat := f.short offset * 65536 + f.short (offset + 2)

def netEthtype : Nat := f.short 12

def netIpvh : Nat := (f.bytes 14).toNat

def netIplen : Nat := f.short 16

def netIpproto : Nat := (f.bytes 23).toNat

def netIpsrc : Nat := f.long 26

def netIpdst : Nat := f.long 30

def netUdpsport : Nat := f.short 34

def netUdpdport : Nat := f.short 36

def netUdplen : Nat := f.short 38

def netIctype : Nat := (f.bytes 34).toNat

def netIcident : Nat := f.short 38

end Frame

end Layout

section Checksums

variable (f : Frame)

/-- `0xffff & ~cksum`, behind the carry. -/
def complement (cksum : Nat) : Nat :=
  65535 - (cksum + cksum / 65536) % 4294967296 % 65536

def ipcksum : Nat :=
  let cksum := complement ((List.range 10).map fun i => f.short (14 + 2 * i)).sum
  if cksum = 65535 then 0 else cksum

/-- The bytes that `icmp_cksum` reads for a length: the 16-bit values and a last byte. -/
def icmpCksumReads (buflen : Int) : Nat :=
  2 * (buflen / 2).toNat + if buflen % 2 ≠ 0 then 1 else 0

/-- A last byte is a signed `char`. -/
def icmpCksum (buflen : Int) : Nat :=
  let scount := (buflen / 2).toNat
  let words := ((List.range scount).map fun i => f.short (34 + 2 * i)).sum
  let last := (f.bytes (34 + 2 * scount)).toNat
  let odd :=
    if buflen % 2 = 0 then 0
    else if last < 128 then last * 256
    else 4294967296 - (256 - last) * 256
  complement ((words + odd) % 4294967296)

end Checksums

section Delivery

structure NetData where
  ipvalid : Bool
  ipucast : Nat
  ipbcast : Nat

inductive Buffer where
  | incoming
  | reply

/-- Bytes of a packet buffer that are read or written. -/
structure Access where
  buffer : Buffer
  offset : Nat
  count : Nat

def Access.Inside (access : Access) : Prop := access.offset + access.count ≤ packlen

inductive Outcome where
  | dropped
  | elsewhere
  | udp
  | replied
  | queued (slot : Nat)
  deriving DecidableEq

variable (net : NetData) (m : Icmp.Machine) (f : Frame)

def icmpPacket (buffer : Nat) : Icmp.Netpacket where
  buffer := buffer
  netIpsrc := f.netIpsrc
  netIplen := f.netIplen
  netIctype := f.netIctype
  netIcident := f.netIcident
  netIcdata := fun i => (f.bytes (42 + i)).toNat

def udpPacket (buffer : Nat) : Udp.Netpacket where
  buffer := buffer
  netIpsrc := f.netIpsrc
  netUdpsport := f.netUdpsport
  netUdpdport := f.netUdpdport
  netUdplen := f.netUdplen
  netUdpdata := fun i => (f.bytes (42 + i)).toNat

/-- The size that `memcpy` takes an `int32` for. -/
def toSize (len : Int) : Nat := (len % 4294967296).toNat

/-- The copies of `icmp_mkpkt`: what it is asked to copy comes from the packet of the request. -/
def icmpMkpkt (len : Int) : List Access :=
  [⟨.incoming, 42, toSize len⟩, ⟨.reply, 42, toSize len⟩]

def icmpIn : Outcome × List Access :=
  if f.netIctype ≠ Icmp.icmpEchoreply ∧ f.netIctype ≠ icmpEchoreqst then (.dropped, [])
  else if f.netIctype = icmpEchoreqst then
    (.replied, icmpMkpkt ((f.netIplen : Int) - ipHdrLen - icmpHdrLen))
  else
    match Icmp.accepts m (icmpPacket f 0) with
    | none => (.dropped, [])
    | some slot => (.queued slot, [])

def ipLocal : Outcome × List Access :=
  if f.netIpproto = ipUdp then (.udp, [])
  else if f.netIpproto = ipIcmp then icmpIn m f
  else (.dropped, [])

/-- The packet is for this machine. -/
def isLocal : Bool :=
  if f.netIpdst = ipBcast then true
  else if net.ipvalid = false then decide (f.netIpproto = ipUdp)
  else decide (f.netIpdst = net.ipucast ∨ f.netIpdst = net.ipbcast)

def ipIn : Outcome × List Access :=
  let header : List Access := [⟨.incoming, 14, ipHdrLen⟩]
  if ipcksum f ≠ 0 ∨ f.netIpvh ≠ 0x45 then (.dropped, header)
  else
    let icmplen := (f.netIplen : Int) - ipHdrLen
    let read := if f.netIpproto = ipIcmp then
      header ++ [⟨.incoming, 34, icmpCksumReads icmplen⟩] else header
    if f.netIpproto = ipIcmp ∧ icmpCksum f icmplen ≠ 0 then (.dropped, read)
    else if isLocal net f = true then ((ipLocal m f).1, read ++ (ipLocal m f).2)
    else (.dropped, read)

def netin : Outcome × List Access :=
  if f.netEthtype = ethIp then ipIn net m f else (.elsewhere, [])

end Delivery

end Xinu.Net.Frames
