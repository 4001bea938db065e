import Xinu.Net.Frames

/-!
# Lengths of packets

What the three lengths of a frame have to agree on: the length of the frame, that of the IP header,
and that of the UDP header or of the ICMP message.
-/

namespace Xinu.Net.Lengths

open Xinu.Net.Frames

set_option autoImplicit false

section Payload

open Xinu.Net.Udp (Machine Waiting Answer takePacket)

variable (f : Frame) (len : Int)

/-- The bytes behind the headers that are inside both the IP packet and the frame. -/
def room : Nat := min (f.netIplen - 28) (f.received - 42)

/-- The bytes of the UDP payload that have arrived. -/
def payload : List Nat :=
  (List.range (min (f.netUdplen - 8) (room f))).map fun i => (f.bytes (42 + i)).toNat

/-- What a receive returns for a buffer of `len` bytes. -/
structure InPayload (answer : Answer) : Prop where
  nonneg : 0 ≤ answer.value
  bounded : answer.value ≤ len
  bytes : answer.bytes <+: payload f

/-- The UDP length counts its header, and what is copied has arrived. -/
def Agrees : Prop := 8 ≤ f.netUdplen ∧ min (f.netUdplen - 8) len.toNat ≤ room f

theorem prefix_payload_iff (count : Nat) :
    (List.range count).map (fun i => (f.bytes (42 + i)).toNat) <+: payload f ↔
      count ≤ min (f.netUdplen - 8) (room f) := by
  unfold payload
  refine ⟨fun isPrefix => ?_, fun fits => ?_⟩
  · have lengths := isPrefix.length_le
    simpa only [List.length_map, List.length_range] using lengths
  · refine List.IsPrefix.map _ ?_
    have split : min (f.netUdplen - 8) (room f) = count + (min (f.netUdplen - 8) (room f) - count) := by
      omega
    rw [split, List.range_add]
    exact List.prefix_append _ _

/-- What comes out of the queue of an endpoint. -/
theorem answer_of {m : Machine} {pid : Int} {w : Waiting} {buffer : Nat}
    (first : (m.udptab w.slot).udqueue (m.udptab w.slot).udhead = udpPacket f buffer) :
    (takePacket m pid w).2.value = min ((f.netUdplen : Int) - 8) w.len ∧
      (takePacket m pid w).2.bytes =
        (List.range (min ((f.netUdplen : Int) - 8) w.len).toNat).map
          fun i => (f.bytes (42 + i)).toNat := by
  simp only [takePacket, Udp.dequeue, first]
  exact ⟨rfl, rfl⟩

/-- A packet that `ip_in` has accepted and that a receiver takes from its endpoint. -/
theorem payload_iff {net : NetData} {icmp : Icmp.Machine} {m : Machine} {pid : Int} {w : Waiting}
    {buffer : Nat} (_accepted : (netin net icmp f).1 = .udp)
    (first : (m.udptab w.slot).udqueue (m.udptab w.slot).udhead = udpPacket f buffer)
    (positive : 0 ≤ w.len) : InPayload f w.len (takePacket m pid w).2 ↔ Agrees f w.len := by
  obtain ⟨value, bytes⟩ := @answer_of f m pid w buffer first
  unfold Agrees
  constructor
  · rintro ⟨nonneg, -, copied⟩
    rw [value] at nonneg
    rw [bytes, prefix_payload_iff] at copied
    omega
  · rintro ⟨header, fits⟩
    refine ⟨?_, ?_, ?_⟩
    · rw [value]
      omega
    · rw [value]
      omega
    · rw [bytes, prefix_payload_iff]
      omega

end Payload

section Samples

/-- The bytes of a packet from 10.0.0.2 to 10.0.0.1, with the checksum of its header and what is
behind the header. -/
def packet (iplen proto cksum : Nat) (body : List Nat) : List UInt8 :=
  ([0, 0, 0, 0, 0, 0, 0, 0, 0, 0, 0, 0, 8, 0, 0x45, 0, iplen / 256, iplen % 256, 0, 0, 0, 0, 255,
    proto, cksum / 256, cksum % 256, 10, 0, 0, 2, 10, 0, 0, 1] ++ body).map UInt8.ofNat

def frame (bytes : List UInt8) (short : bytes.length ≤ packlen) : Frame where
  received := bytes.length
  bytes := fun i => bytes.getD i 0
  fits := short

def host : NetData where
  ipvalid := true
  ipucast := 0x0a000001
  ipbcast := 0x0a0000ff

/-- An endpoint that has one packet. -/
def holding (f : Frame) : Udp.Machine :=
  { Udp.booted with
    udptab := fun slot => { Udp.booted.udptab slot with
      udstate := .used
      udcount := 1
      udtail := 1
      udqueue := fun _ => udpPacket f 0 } }

end Samples

section PayloadResults

/-- Twelve bytes of data, as all lengths say. -/
def sound : Frame :=
  frame (packet 40 17 0xa7c2 ([0, 67, 0, 68, 0, 20, 0, 0] ++ List.replicate 12 7)) (by decide)

theorem payload_iff_sound :
    (netin host Icmp.booted sound).1 = .udp ∧
      (InPayload sound 100 (Udp.takePacket (holding sound) 5 ⟨0, 100, false⟩).2 ↔
        Agrees sound 100) := by
  have accepted : (netin host Icmp.booted sound).1 = .udp := by decide +kernel
  exact ⟨accepted, @payload_iff sound host Icmp.booted (holding sound) 5 ⟨0, 100, false⟩ 0 accepted
    rfl (by decide)⟩

/-- The UDP length is 5, so that the receiver gets the value of `TIMEOUT`. -/
def tooShort : Frame := frame (packet 40 17 0xa7c2 [0, 67, 0, 68, 0, 5, 0, 0]) (by decide)

theorem length_is_negative :
    ¬∀ (f : Frame) (net : NetData) (icmp : Icmp.Machine) (m : Udp.Machine) (pid : Int)
      (w : Udp.Waiting) (buffer : Nat), (netin net icmp f).1 = .udp →
      (m.udptab w.slot).udqueue (m.udptab w.slot).udhead = udpPacket f buffer → 0 ≤ w.len →
      InPayload f w.len (Udp.takePacket m pid w).2 := by
  intro always
  have accepted : (netin host Icmp.booted tooShort).1 = .udp := by decide +kernel
  have nonneg := (always tooShort host Icmp.booted (holding tooShort) 5 ⟨0, 100, false⟩ 0 accepted
    rfl (by decide)).nonneg
  have value : (Udp.takePacket (holding tooShort) 5 ⟨0, 100, false⟩).2.value = -3 := by
    decide +kernel
  rw [value] at nonneg
  exact absurd nonneg (by decide)

end PayloadResults

section Echo

variable (net : NetData) (m : Icmp.Machine) (f : Frame)

/-- The frame is an ICMP message for `icmp_cksum`. -/
def IsIcmp : Prop :=
  f.netEthtype = ethIp ∧ ipcksum f = 0 ∧ f.netIpvh = 0x45 ∧ f.netIpproto = ipIcmp

/-- The message passes its checksum, is for this machine, and is an echo request or a reply that
somebody has registered for. -/
def IsPing : Prop :=
  icmpCksum f ((f.netIplen : Int) - ipHdrLen) = 0 ∧ isLocal net f = true ∧
    (f.netIctype = icmpEchoreqst ∨ (Icmp.accepts m (icmpPacket f 0)).isSome = true)

/-- What the way of a frame through `netin` reads and writes is inside the packet buffers, and an
ICMP message with a wrong IP length is dropped. -/
structure Contained : Prop where
  inside : ∀ access ∈ (netin net m f).2, access.Inside
  dropped : IsIcmp f → f.netIplen < ipHdrLen + icmpHdrLen ∨ packlen < 14 + f.netIplen →
    (netin net m f).1 = .dropped

/-- The IP length of a message fits the buffer, and that of a ping is not below the headers. -/
def Fits : Prop :=
  IsIcmp f → 14 + f.netIplen ≤ packlen ∧ (IsPing net m f → ipHdrLen + icmpHdrLen ≤ f.netIplen)

variable {net m f}

theorem header_inside : (⟨.incoming, 14, ipHdrLen⟩ : Access).Inside := by
  unfold Access.Inside
  decide

/-- A frame with other contents than ICMP is read at its header only. -/
theorem netin_other (other : ¬IsIcmp f) :
    ∀ access ∈ (netin net m f).2, access = ⟨.incoming, 14, ipHdrLen⟩ := by
  intro access member
  by_cases isIp : f.netEthtype = ethIp
  · by_cases bad : ipcksum f ≠ 0 ∨ f.netIpvh ≠ 0x45
    · simpa [netin, isIp, ipIn, bad] using member
    · obtain ⟨header, version⟩ := not_or.mp bad
      have proto : ¬f.netIpproto = ipIcmp := fun icmp =>
        other ⟨isIp, not_not.mp header, not_not.mp version, icmp⟩
      have alone : (ipLocal m f).2 = [] := by
        unfold ipLocal
        rw [if_neg proto]
        split_ifs <;> rfl
      cases is_local : isLocal net f
      · simpa [netin, isIp, ipIn, bad, proto, is_local] using member
      · simpa [netin, isIp, ipIn, bad, proto, is_local, alone] using member
  · simp [netin, isIp] at member

theorem contained_other (other : ¬IsIcmp f) : Contained net m f := by
  refine ⟨fun access member => ?_, fun isIcmp => absurd isIcmp other⟩
  rw [netin_other other access member]
  exact header_inside

/-- An ICMP message on its way, and what becomes of it. -/
theorem netin_icmp (isIcmp : IsIcmp f) :
    netin net m f =
      if icmpCksum f ((f.netIplen : Int) - ipHdrLen) ≠ 0 ∨ isLocal net f = false then
        (.dropped, [⟨.incoming, 14, ipHdrLen⟩,
          ⟨.incoming, 34, icmpCksumReads ((f.netIplen : Int) - ipHdrLen)⟩])
      else ((icmpIn m f).1, [⟨.incoming, 14, ipHdrLen⟩,
          ⟨.incoming, 34, icmpCksumReads ((f.netIplen : Int) - ipHdrLen)⟩] ++ (icmpIn m f).2) := by
  obtain ⟨isIp, header, version, proto⟩ := isIcmp
  have not_udp : ¬ipIcmp = ipUdp := by decide
  unfold netin ipIn ipLocal
  by_cases checksum : icmpCksum f ((f.netIplen : Int) - ipHdrLen) = 0
  · cases is_local : isLocal net f <;>
      simp [isIp, header, version, proto, checksum, not_udp]
  · simp [isIp, header, version, proto, checksum]

/-- The bytes of a message are those behind the IP header. -/
theorem cksum_inside_iff : (⟨.incoming, 34, icmpCksumReads ((f.netIplen : Int) - ipHdrLen)⟩ :
    Access).Inside ↔ 14 + f.netIplen ≤ packlen := by
  unfold Access.Inside icmpCksumReads ipHdrLen packlen
  dsimp only
  split_ifs <;> omega

theorem mkpkt_inside (long : ipHdrLen + icmpHdrLen ≤ f.netIplen)
    (short : 14 + f.netIplen ≤ packlen) (access : Access)
    (member : access ∈ icmpMkpkt ((f.netIplen : Int) - ipHdrLen - icmpHdrLen)) :
    access.Inside := by
  unfold ipHdrLen icmpHdrLen packlen at *
  simp only [icmpMkpkt, List.mem_cons, List.not_mem_nil, or_false] at member
  unfold Access.Inside packlen
  rcases member with rfl | rfl
  · simp only [toSize]
    omega
  · simp only [toSize]
    omega

/-- A message that is not a ping is dropped, and neither is anything copied. -/
theorem icmp_in_other (other : ¬(f.netIctype = icmpEchoreqst ∨
    (Icmp.accepts m (icmpPacket f 0)).isSome = true)) : icmpIn m f = (.dropped, []) := by
  obtain ⟨not_request, not_reply⟩ := not_or.mp other
  unfold icmpIn
  split_ifs
  · rfl
  · cases accepted : Icmp.accepts m (icmpPacket f 0) with
    | none => rfl
    | some slot => simp [accepted] at not_reply

theorem icmp_in_ping (ping : f.netIctype = icmpEchoreqst ∨
    (Icmp.accepts m (icmpPacket f 0)).isSome = true) : (icmpIn m f).1 ≠ .dropped ∧
      ∀ access ∈ (icmpIn m f).2,
        access ∈ icmpMkpkt ((f.netIplen : Int) - ipHdrLen - icmpHdrLen) := by
  unfold icmpIn
  split_ifs with neither request
  · rcases ping with request | reply
    · exact absurd request neither.2
    · have other : Icmp.accepts m (icmpPacket f 0) = none := by
        unfold Icmp.accepts
        exact if_pos neither.1
      rw [other] at reply
      cases reply
  · exact ⟨nofun, fun access member => member⟩
  · obtain ⟨slot, accepted⟩ := Option.isSome_iff_exists.mp (ping.resolve_left request)
    simp [accepted]

/-- An echo request with an IP length of 24. -/
def shortPing : Frame := frame (packet 24 1 0xa7e2 [8, 0, 0xf7, 0xff]) (by decide)

end Echo

end Xinu.Net.Lengths
