import Mathlib.Logic.Function.Basic
import Mathlib.Data.List.Basic
import Mathlib.Tactic.Common

/-!
# DHCP

The messages of `getlocalip`, the two parsers of their options and the two functions that build
them. Numbers in a message are in host byte order, and the options are the bytes behind the fixed
part. What `udp_register` and `udp_recv` return is up to the network.
-/

namespace Xinu.Net.Dhcp

set_option autoImplicit false

section Messages

def dhcpRetry : Nat := 5

def dhcpServerId : UInt8 := 54

def ethAddrLen : Nat := 6

def ipBcast : Nat := 0xffffffff

/-- `SYSERR` as an address -/
def sysErrAddress : Nat := 0xffffffff

/-- The bytes of a `struct dhcpmsg` in front of its options -/
def dcOptOffset : Nat := 240

structure Dhcpmsg where
  dcBop : UInt8
  dcHtype : UInt8
  dcHlen : UInt8
  dcHops : UInt8
  dcXid : Nat
  dcSecs : Nat
  dcFlags : Nat
  dcCip : Nat
  dcYip : Nat
  dcSip : Nat
  dcGip : Nat
  dcChaddr : Nat → UInt8
  sname : Nat → UInt8
  bootfile : Nat → UInt8
  dcCookie : Nat
  dcOpt : Nat → UInt8

structure NetData where
  ipucast : Nat
  ipbcast : Nat
  ipmask : Nat
  ipprefix : Nat
  iprouter : Nat
  bootserver : Nat
  ipvalid : Bool
  ethucast : Nat → UInt8
  bootfile : Nat → UInt8

/-- Nothing is known yet, the address of the card included. -/
def noAddresses : NetData where
  ipucast := 0
  ipbcast := 0
  ipmask := 0
  ipprefix := 0
  iprouter := 0
  bootserver := 0
  ipvalid := false
  ethucast := fun _ => 0
  bootfile := fun _ => 0

/-- The four bytes of a number in network byte order -/
def networkBytes (value : Nat) : List UInt8 :=
  [UInt8.ofNat (value / 16777216), UInt8.ofNat (value / 65536), UInt8.ofNat (value / 256),
    UInt8.ofNat value]

/-- `ntohl` of the four bytes at a place -/
def long (opt : Nat → UInt8) (place : Nat) : Nat :=
  (opt place).toNat * 16777216 + (opt (place + 1)).toNat * 65536 + (opt (place + 2)).toNat * 256 +
    (opt (place + 3)).toNat

end Messages

section Options

/-- The place of the last byte of a message of a size among its options -/
def eomOf (size : Int) : Nat := (size - 1 - dcOptOffset).toNat

/-- The loop of `dhcp_get_opt_val`. The pointer that it returns is a place among the options. -/
def getOptValLoop (opt : Nat → UInt8) (eom : Nat) (key : UInt8) (place : Nat) : Option Nat :=
  if place < eom then
    if opt place = key then some (place + 2)
    else getOptValLoop opt eom key (place + 1 + ((opt (place + 1)).toNat + 1))
  else none
termination_by eom - place

def dhcpGetOptVal (msg : Dhcpmsg) (size : Int) (key : UInt8) : Option Nat :=
  getOptValLoop msg.dcOpt (eomOf size) key 0

/-- What the option loop of `getlocalip` looks for. -/
structure Found where
  msgtype : Nat
  addrmask : Nat
  routeraddr : Nat
  deriving DecidableEq

def optionStep (opt : Nat → UInt8) (place : Nat) (found : Found) : Found :=
  if opt place = 53 then { found with msgtype := (opt (place + 2)).toNat }
  else if opt place = 1 then { found with addrmask := long opt (place + 2) }
  else if opt place = 3 then { found with routeraddr := long opt (place + 2) }
  else found

def optionLoop (opt : Nat → UInt8) (eop place : Nat) (found : Found) : Found :=
  if place < eop then
    optionLoop opt eop (place + 1 + ((opt (place + 1)).toNat + 1)) (optionStep opt place found)
  else found
termination_by eop - place

/-- The option loop for a message that `inlen` bytes have been received of -/
def scanOptions (msg : Dhcpmsg) (inlen : Int) : Found :=
  optionLoop msg.dcOpt (eomOf inlen) 0 ⟨0, 0, 0⟩

end Options

section Building

variable (net : NetData)

/-- Four bytes of the hardware address, which `memcpy` puts into a number -/
def xidOf : Nat :=
  (net.ethucast 3).toNat * 16777216 + (net.ethucast 2).toNat * 65536 +
    (net.ethucast 1).toNat * 256 + (net.ethucast 0).toNat

def dhcpBldBootpMsg : Dhcpmsg where
  dcBop := 1
  dcHtype := 1
  dcHlen := 6
  dcHops := 0
  dcXid := xidOf net
  dcSecs := 0
  dcFlags := 0
  dcCip := 0
  dcYip := 0
  dcSip := 0
  dcGip := 0
  dcChaddr := fun i => if i < ethAddrLen then net.ethucast i else 0
  sname := fun _ => 0
  bootfile := fun _ => 0
  dcCookie := 0x63825363
  dcOpt := fun _ => 0

/-- The message with options at the front of its area, and the length that is returned -/
def withOptions (msg : Dhcpmsg) (bytes : List UInt8) : Dhcpmsg × Int :=
  ({ msg with dcOpt := fun i => bytes.getD i 0 }, dcOptOffset + bytes.length + 1)

def dhcpBldDisc : Dhcpmsg × Int :=
  withOptions (dhcpBldBootpMsg net) [53, 1, 1, 0, 55, 2, 1, 3]

/-- There is no message when the offer has no server address. -/
def dhcpBldReq (offer : Dhcpmsg) (offerSize : Int) : Option (Dhcpmsg × Int) :=
  match dhcpGetOptVal offer offerSize dhcpServerId with
  | none => none
  | some serverIp =>
      some (withOptions { dhcpBldBootpMsg net with dcSip := offer.dcSip }
        ([53, 1, 3, 0] ++ [50, 4] ++ networkBytes offer.dcYip ++ [54, 4] ++
          (List.range 4).map fun i => offer.dcOpt (serverIp + i)))

end Building

section Addresses

/-- The characters of one number of a dotted address: its value, the character behind it, and where
that one ends. -/
def dotChars (dotted : Nat → UInt8) : Nat → Nat → Nat → Nat → Option (Nat × UInt8 × Nat)
  | 0, _, _, _ => none
  | left + 1, nch, place, val =>
      let ch := dotted place
      if ch = 0 ∨ ch = 46 then if nch = 0 then none else some (val, ch, place + 1)
      else if 3 ≤ nch ∨ ch < 48 ∨ 57 < ch then none
      else dotChars dotted left (nch + 1) (place + 1) (10 * val + (ch.toNat - 48))

def dotSegments (dotted : Nat → UInt8) : Nat → Nat → Nat → Option Nat
  | 0, _, _ => none
  | left + 1, place, ipaddr =>
      match dotChars dotted 4 0 place 0 with
      | none => none
      | some (val, ch, place) =>
          if 255 < val then none
          else if ch = 0 then some (ipaddr * 256 + val)
          else dotSegments dotted left place (ipaddr * 256 + val)

def dot2ip (dotted : Nat → UInt8) : Option Nat := dotSegments dotted 4 0 0

end Addresses

section Calls

/-- What `udp_recv` returns: with a message, what the buffer holds and how many bytes were
received. -/
inductive Received where
  | timeout
  | sysErr
  | message (msg : Dhcpmsg) (inlen : Int)

/-- What happens to a call: whether the table of endpoints has a free slot, and what the receives
return. -/
structure Outcomes where
  freeSlot : Bool
  received : Nat → Received

/-- `registered` says whether the ports of DHCP are in the table of endpoints, and `releases` counts
the calls of `udp_release`. -/
structure Client where
  net : NetData
  registered : Bool
  releases : Nat

def Client.udpRelease (c : Client) : Client :=
  { c with registered := false, releases := c.releases + 1 }

/-- The address fields that an acknowledgement sets -/
def assign (net : NetData) (msg : Dhcpmsg) (found : Found) : NetData :=
  let ipmask := if found.addrmask ≠ 0 then found.addrmask else net.ipmask
  let iprouter := if found.routeraddr ≠ 0 then found.routeraddr else net.iprouter
  let ipprefix := msg.dcYip &&& ipmask
  { net with
    ipmask := ipmask
    iprouter := iprouter
    ipucast := msg.dcYip
    ipprefix := ipprefix
    ipbcast := ipprefix ||| (ipBcast - ipmask)
    ipvalid := true }

/-- The boot server that a message names, with the length that `getlocalip` has at hand: that of
the message it has sent -/
def bootServer (msg : Dhcpmsg) (len : Int) : Option Nat :=
  match dot2ip msg.sname with
  | some bootserver => some bootserver
  | none => (dhcpGetOptVal msg len dhcpServerId).map (long msg.dcOpt)

/-- What `getlocalip` does behind its `udp_release`, when an acknowledgement has come in -/
def finish (c : Client) (msg : Dhcpmsg) (len : Int) : Client × Nat :=
  match bootServer msg len with
  | none => (c, sysErrAddress)
  | some bootserver =>
      ({ c with net := { c.net with bootserver := bootserver, bootfile := msg.bootfile } },
        c.net.ipucast)

/-- The kind of a message that has come in -/
inductive Kind where
  | skipped
  | offer
  | acknowledged
  deriving DecidableEq

def kindOf (net : NetData) (msg : Dhcpmsg) (inlen : Int) : Kind :=
  if msg.dcXid ≠ xidOf net then .skipped
  else if (scanOptions msg inlen).msgtype = 2 then .offer
  else if msg.dcOpt 2 ≠ 5 then .skipped
  else .acknowledged

/-- The two loops of `getlocalip`: in each of five rounds the message at hand is sent again, which
may fail, and three receives follow. `len` is the length of the message at hand. -/
def receiveLoop (received : Nat → Received) : Nat → Nat → Int → Client → Client × Nat
  | 0, _, _, c => (c.udpRelease, sysErrAddress)
  | left + 1, turn, len, c =>
      match received turn with
      | .timeout => receiveLoop received left (turn + 1) len c
      | .sysErr => (c, sysErrAddress)
      | .message msg inlen =>
          match kindOf c.net msg inlen with
          | .skipped => receiveLoop received left (turn + 1) len c
          | .offer =>
              match dhcpBldReq c.net msg inlen with
              | none => (c, sysErrAddress)
              | some (_, len) => receiveLoop received left (turn + 1) len c
          | .acknowledged =>
              finish { c with net := assign c.net msg (scanOptions msg inlen) }.udpRelease msg len

def receives : Nat := dhcpRetry * 3

def getlocalip (c : Client) (o : Outcomes) : Client × Nat :=
  if c.registered = true ∨ o.freeSlot = false then (c, sysErrAddress)
  else
    receiveLoop o.received receives 0 (dhcpBldDisc c.net).2 { c with registered := true }

end Calls

end Xinu.Net.Dhcp
