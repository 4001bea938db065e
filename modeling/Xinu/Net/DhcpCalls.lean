import Xinu.Net.Dhcp

/-!
# Failed attempts for an address

`getlocalip` releases its endpoint by hand in front of two of its returns. What it leaves behind
elsewhere depends on the first message or error that ends the exchange.
-/

namespace Xinu.Net.DhcpCalls

open Xinu.Net.Dhcp

set_option autoImplicit false

section Definitions

structure SameAddresses (net net' : NetData) : Prop where
  ipucast : net'.ipucast = net.ipucast
  ipmask : net'.ipmask = net.ipmask
  ipprefix : net'.ipprefix = net.ipprefix
  ipbcast : net'.ipbcast = net.ipbcast
  iprouter : net'.iprouter = net.iprouter
  ipvalid : net'.ipvalid = net.ipvalid

/-- The call gets an endpoint. -/
def Registers (c : Client) (o : Outcomes) : Prop := c.registered = false ∧ o.freeSlot = true

/-- The endpoint that a call has registered is released once, a call that fails leaves the addresses
alone, and a later call can register the ports again and succeed. -/
structure Traceless (c : Client) (o : Outcomes) : Prop where
  once : Registers c o → (getlocalip c o).1.releases = c.releases + 1
  none_ : ¬Registers c o → (getlocalip c o).1.releases = c.releases
  addresses : (getlocalip c o).2 = sysErrAddress → SameAddresses c.net (getlocalip c o).1.net
  later : c.registered = false →
    ∃ o', Registers (getlocalip c o).1 o' ∧ (getlocalip (getlocalip c o).1 o').2 ≠ sysErrAddress

variable (net : NetData) (received : Nat → Received)

def isOffer (turn : Nat) : Bool :=
  match received turn with
  | .message msg inlen => kindOf net msg inlen == .offer
  | _ => false

/-- The length of the message that was sent last before a receive -/
def lenAt : Nat → Int
  | 0 => 249
  | turn + 1 => if isOffer net received turn = true then 257 else lenAt turn

/-- An acknowledgement names a boot server, and an address that is not `SYSERR`, or the addresses
that it sets are there already. -/
def Welcome (msg : Dhcpmsg) (inlen len : Int) : Prop :=
  (bootServer msg len).isSome = true ∧ msg.dcYip ≠ sysErrAddress ∨
    SameAddresses net (assign net msg (scanOptions msg inlen))

/-- The exchange goes on behind a receive. -/
def Continues (turn : Nat) : Prop :=
  match received turn with
  | .timeout => True
  | .sysErr => False
  | .message msg inlen => kindOf net msg inlen ≠ .acknowledged

/-- The receive is no error, an offer names its server, and an acknowledgement is welcome. -/
def Fine (turn : Nat) : Prop :=
  match received turn with
  | .timeout => True
  | .sysErr => False
  | .message msg inlen =>
      match kindOf net msg inlen with
      | .skipped => True
      | .offer => (dhcpGetOptVal msg inlen dhcpServerId).isSome = true
      | .acknowledged => Welcome net msg inlen (lenAt net received turn)

/-- Every receive is fine, up to the one that ends the exchange. -/
def Graceful : Prop :=
  ∀ turn < receives, (∀ earlier < turn, Continues net received earlier) → Fine net received turn

end Definitions

section Loop

variable {net : NetData} {received : Nat → Received} {c : Client}

/-- What is left of an exchange that has come to a receive. -/
def GracefulFrom (net : NetData) (received : Nat → Received) (left turn : Nat) : Prop :=
  ∀ later < left, (∀ earlier < later, Continues net received (turn + earlier)) →
    Fine net received (turn + later)

theorem graceful_from_zero (turn : Nat) : GracefulFrom net received 0 turn :=
  fun later below => absurd below (Nat.not_lt_zero later)

theorem graceful_from_fine {left turn : Nat}
    (graceful : GracefulFrom net received (left + 1) turn) : Fine net received turn :=
  graceful 0 (Nat.succ_pos left) fun earlier below => absurd below (Nat.not_lt_zero earlier)

/-- Where the exchange goes on, the rest is what matters. -/
theorem graceful_from_continues {left turn : Nat} (fine : Fine net received turn)
    (continues : Continues net received turn) :
    GracefulFrom net received (left + 1) turn ↔ GracefulFrom net received left (turn + 1) := by
  constructor
  · intro graceful later below earlier
    have next := graceful (later + 1) (by omega) fun i inside => by
      cases i with
      | zero => exact continues
      | succ i => exact (Nat.add_right_comm turn 1 i) ▸ earlier i (by omega)
    exact (Nat.add_right_comm turn 1 later) ▸ next
  · intro graceful later below earlier
    cases later with
    | zero => exact fine
    | succ later =>
        have next := graceful later (by omega) fun i inside =>
          (Nat.add_right_comm turn 1 i) ▸ earlier (i + 1) (by omega)
        exact (Nat.add_right_comm turn 1 later) ▸ next

/-- Where it ends, nothing else matters. -/
theorem graceful_from_ends {left turn : Nat} (ends : ¬Continues net received turn) :
    GracefulFrom net received (left + 1) turn ↔ Fine net received turn := by
  refine ⟨graceful_from_fine, fun fine later below earlier => ?_⟩
  cases later with
  | zero => exact fine
  | succ later => exact absurd (earlier 0 (Nat.succ_pos later)) ends

/-- What a call has done that returns from its loop: the endpoint has been released, and the
addresses are as they were where it fails. -/
structure Clean (c : Client) (result : Client × Nat) : Prop where
  released : result.1.registered = false
  once : result.1.releases = c.releases + 1
  addresses : result.2 = sysErrAddress → SameAddresses c.net result.1.net

theorem same_addresses_refl (net : NetData) : SameAddresses net net :=
  ⟨rfl, rfl, rfl, rfl, rfl, rfl⟩

theorem bld_req_cases (net : NetData) (offer : Dhcpmsg) (size : Int) :
    (dhcpGetOptVal offer size dhcpServerId = none ∧ dhcpBldReq net offer size = none) ∨
      ((dhcpGetOptVal offer size dhcpServerId).isSome = true ∧
        ∃ msg, dhcpBldReq net offer size = some (msg, 257)) := by
  unfold dhcpBldReq
  cases found : dhcpGetOptVal offer size dhcpServerId with
  | none => exact .inl ⟨rfl, rfl⟩
  | some serverIp => exact .inr ⟨rfl, _, rfl⟩

theorem finish_clean_iff (c : Client) (msg : Dhcpmsg) (inlen len : Int) :
    Clean c (finish { c with net := assign c.net msg (scanOptions msg inlen) }.udpRelease msg len) ↔
      Welcome c.net msg inlen len := by
  have moved : ∀ {net net' : NetData}, SameAddresses c.net net →
      net'.ipucast = net.ipucast → net'.ipmask = net.ipmask → net'.ipprefix = net.ipprefix →
      net'.ipbcast = net.ipbcast → net'.iprouter = net.iprouter → net'.ipvalid = net.ipvalid →
      SameAddresses c.net net' := by
    intro net net' same ipucast ipmask ipprefix ipbcast iprouter ipvalid
    exact ⟨ipucast.trans same.ipucast, ipmask.trans same.ipmask, ipprefix.trans same.ipprefix,
      ipbcast.trans same.ipbcast, iprouter.trans same.iprouter, ipvalid.trans same.ipvalid⟩
  unfold finish Welcome
  cases server : bootServer msg len with
  | none =>
      constructor
      · intro clean
        exact .inr (clean.addresses rfl)
      · rintro (⟨named, -⟩ | same)
        · cases named
        · exact ⟨rfl, rfl, fun _ => same⟩
  | some bootserver =>
      constructor
      · intro clean
        by_cases refused : msg.dcYip = sysErrAddress
        · exact .inr (moved (clean.addresses refused) rfl rfl rfl rfl rfl rfl)
        · exact .inl ⟨rfl, refused⟩
      · rintro (⟨-, address⟩ | same)
        · exact ⟨rfl, rfl, fun failed => absurd failed address⟩
        · exact ⟨rfl, rfl, fun _ => moved same rfl rfl rfl rfl rfl rfl⟩

theorem receive_loop_clean_iff (c : Client) (received : Nat → Received) (left turn : Nat) :
    Clean c (receiveLoop received left turn (lenAt c.net received turn) c) ↔
      GracefulFrom c.net received left turn := by
  have kept : ¬(c.releases = c.releases + 1) := by omega
  induction left generalizing turn with
  | zero =>
      exact iff_of_true ⟨rfl, rfl, fun _ => same_addresses_refl c.net⟩ (graceful_from_zero turn)
  | succ left induction =>
      unfold receiveLoop
      cases got : received turn with
      | timeout =>
          have length : lenAt c.net received turn = lenAt c.net received (turn + 1) := by
            simp [lenAt, isOffer, got]
          rw [graceful_from_continues (by simp [Fine, got]) (by simp [Continues, got]), length]
          exact induction (turn + 1)
      | sysErr =>
          rw [graceful_from_ends (by simp [Continues, got])]
          refine iff_of_false (fun clean => kept clean.once) (by simp [Fine, got])
      | message msg inlen =>
          dsimp only
          cases kind : kindOf c.net msg inlen with
          | skipped =>
              have length : lenAt c.net received turn = lenAt c.net received (turn + 1) := by
                simp [lenAt, isOffer, got, kind]
              rw [graceful_from_continues (by simp [Fine, got, kind])
                (by simp [Continues, got, kind]), length]
              exact induction (turn + 1)
          | offer =>
              have continues : Continues c.net received turn := by simp [Continues, got, kind]
              rcases bld_req_cases c.net msg inlen with ⟨missing, none_⟩ | ⟨named, request, built⟩
              · dsimp only
                rw [none_]
                refine iff_of_false (fun clean => kept clean.once) fun graceful => ?_
                have fine := graceful_from_fine graceful
                simp [Fine, got, kind, missing] at fine
              · have length : lenAt c.net received (turn + 1) = 257 := by
                  simp [lenAt, isOffer, got, kind]
                dsimp only
                have fine : Fine c.net received turn := by simpa [Fine, got, kind] using named
                rw [built, graceful_from_continues fine continues]
                dsimp only
                rw [← length]
                exact induction (turn + 1)
          | acknowledged =>
              rw [graceful_from_ends (by simp [Continues, got, kind])]
              dsimp only
              rw [finish_clean_iff]
              simp [Fine, got, kind]

theorem graceful_iff : Graceful net received ↔ GracefulFrom net received receives 0 := by
  simp only [Graceful, GracefulFrom, Nat.zero_add]

/-- A call that gets an endpoint is clean as long as what it receives is fine. -/
theorem clean_iff {o : Outcomes} (registers : Registers c o) :
    Clean c (getlocalip c o) ↔ Graceful c.net o.received := by
  have opened : getlocalip c o =
      receiveLoop o.received receives 0 (dhcpBldDisc c.net).2 { c with registered := true } := by
    simp [getlocalip, registers.1, registers.2]
  rw [opened, graceful_iff]
  have clean : ∀ result, Clean c result ↔ Clean { c with registered := true } result :=
    fun result => ⟨fun h => ⟨h.released, h.once, h.addresses⟩,
      fun h => ⟨h.released, h.once, h.addresses⟩⟩
  rw [clean]
  exact receive_loop_clean_iff { c with registered := true } o.received receives 0

/-- A call without an endpoint changes nothing. -/
theorem not_registered {o : Outcomes} (fails : ¬Registers c o) :
    getlocalip c o = (c, sysErrAddress) := by
  have refused : c.registered = true ∨ o.freeSlot = false := by
    by_contra neither
    push Not at neither
    exact fails ⟨by simpa using neither.1, by simpa using neither.2⟩
  simp [getlocalip, refused]

end Loop

section Later

/-- An acknowledgement of a client's own exchange, from the boot server 1.1.1.1 -/
def acknowledgement (net : NetData) : Dhcpmsg :=
  { dhcpBldBootpMsg net with
    dcOpt := fun i => [53, 1, 5].getD i 0
    sname := fun i => [49, 46, 49, 46, 49, 46, 49].getD i 0 }

theorem acknowledgement_kind (net : NetData) :
    kindOf net (acknowledgement net) 243 = .acknowledged := by
  have scanned : (scanOptions (acknowledgement net) 243).msgtype = 5 := by
    simp [scanOptions, eomOf, dcOptOffset, acknowledgement, optionLoop, optionStep]
  have own : (acknowledgement net).dcXid = xidOf net := rfl
  have type : (acknowledgement net).dcOpt 2 = 5 := rfl
  simp [kindOf, scanned, own, type]

theorem acknowledgement_server (net : NetData) (len : Int) :
    bootServer (acknowledgement net) len = some 16843009 := by
  have named : dot2ip (acknowledgement net).sname = some 16843009 := by
    show dot2ip (fun i => [49, 46, 49, 46, 49, 46, 49].getD i 0) = some 16843009
    decide
  simp [bootServer, named]

theorem assign_ipucast (net : NetData) (msg : Dhcpmsg) (found : Found) :
    (assign net msg found).ipucast = msg.dcYip := rfl

theorem finish_ipucast {c : Client} {msg : Dhcpmsg} {len : Int} {bootserver : Nat}
    (server : bootServer msg len = some bootserver) : (finish c msg len).2 = c.net.ipucast := by
  simp [finish, server]

/-- An acknowledgement ends the exchange at the first receive. -/
theorem acknowledged_at_once {c : Client} {msg : Dhcpmsg} {inlen len : Int} {bootserver : Nat}
    (kind : kindOf c.net msg inlen = .acknowledged) (server : bootServer msg len = some bootserver)
    (left : Nat) :
    (receiveLoop (fun _ => .message msg inlen) (left + 1) 0 len c).2 = msg.dcYip := by
  simp only [receiveLoop, kind, finish_ipucast server]
  exact assign_ipucast c.net msg (scanOptions msg inlen)

/-- Ports that are not in the table can be registered, and an acknowledgement may come in. -/
theorem can_succeed {c : Client} (closed : c.registered = false) :
    ∃ o, Registers c o ∧ (getlocalip c o).2 ≠ sysErrAddress := by
  refine ⟨⟨true, fun _ => .message (acknowledgement c.net) 243⟩, ⟨closed, rfl⟩, ?_⟩
  have opened : getlocalip c ⟨true, fun _ => .message (acknowledgement c.net) 243⟩ =
      receiveLoop (fun _ => .message (acknowledgement c.net) 243) receives 0
        (dhcpBldDisc c.net).2 { c with registered := true } := by
    simp [getlocalip, closed]
  rw [opened]
  have ended := @acknowledged_at_once { c with registered := true } _ _ _ _
    (acknowledgement_kind c.net) (acknowledgement_server c.net (dhcpBldDisc c.net).2) 14
  have yours : (acknowledgement c.net).dcYip = 0 := rfl
  rw [show receives = 14 + 1 from rfl, ended, yours]
  decide

end Later

theorem traceless_iff (c : Client) (o : Outcomes) :
    Traceless c o ↔ (Registers c o → Graceful c.net o.received) := by
  constructor
  · intro traceless registers
    refine (clean_iff registers).mp ⟨?_, traceless.once registers, traceless.addresses⟩
    obtain ⟨o', again, -⟩ := traceless.later registers.1
    exact again.1
  · intro graceful
    by_cases registers : Registers c o
    · have clean := (clean_iff registers).mpr (graceful registers)
      exact ⟨fun _ => clean.once, fun fails => absurd registers fails, clean.addresses,
        fun _ => can_succeed clean.released⟩
    · have same := not_registered registers
      refine ⟨fun gets => absurd gets registers, fun _ => by rw [same], fun _ => ?_,
        fun closed => ?_⟩
      · rw [same]
        exact same_addresses_refl c.net
      · rw [same]
        exact can_succeed closed

section Examples

def freshClient : Client := ⟨noAddresses, false, 0⟩

/-- The first receive is an error: the endpoint stays in the table, and no later call succeeds. -/
theorem error_leaves_a_trace : ¬Traceless freshClient ⟨true, fun _ => .sysErr⟩ := by
  intro traceless
  have once := traceless.once ⟨rfl, rfl⟩
  have leaked : (getlocalip freshClient ⟨true, fun _ => .sysErr⟩).1.releases = 0 := rfl
  rw [leaked] at once
  cases once

end Examples

end Xinu.Net.DhcpCalls
