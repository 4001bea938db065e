import Xinu.Kernel.State

/-!
# Exchanges with the remote disk server

`rdscomm` sends a request and takes datagrams from the UDP slot of the device until one of
them looks like the answer. Header fields are in host byte order. What the network does in
one call is a list of rounds, and a client makes one call after the other.
-/

namespace Xinu.Rds.Comm

open Xinu.Kernel.State

set_option autoImplicit false

def rdRetries : Nat := 10

def rdMsgResponse : Nat := 0x0100

def timeout : Int := -3

/-- The header of a message, and what follows it. -/
structure Datagram where
  rdType : Nat
  rdStatus : Nat
  rdSeq : Nat
  body : List Nat
  deriving DecidableEq

/-- What `udp_recv` returns. -/
inductive Received where
  | timeout
  | sysErr
  | datagram (d : Datagram)
  deriving DecidableEq

/-- One turn of the loop: whether `udp_sendto` succeeds, if it is called, and what `udp_recv`
returns. -/
structure Round where
  sent : Bool
  received : Received
  deriving DecidableEq

/-- The value of a 16-bit word as an `int16`. -/
def toInt16 (value : Nat) : Int :=
  if value % 65536 < 32768 then value % 65536 else (value % 65536 : Nat) - 65536

/-- The type of a reply matches the type of the request. -/
def Matches (type : Nat) (d : Datagram) : Prop :=
  toInt16 d.rdType = ((type ||| rdMsgResponse : Nat) : Int)

instance (type : Nat) (d : Datagram) : Decidable (Matches type d) :=
  inferInstanceAs (Decidable (_ = _))

/-- The retry loop of `rdscomm`, with the reply buffer. -/
def retry (seq type : Nat) : List Round → Bool → Datagram → Int × Datagram
  | [], _, reply => (timeout, reply)
  | round :: rest, xmit, reply =>
      if xmit = true ∧ round.sent = false then (sysErr, reply)
      else
        match round.received with
        | .timeout => retry seq type rest true reply
        | .sysErr => (sysErr, reply)
        | .datagram d =>
            if seq < d.rdSeq then retry seq type rest true d
            -- an older reply only puts the next transmission off
            else if ¬Matches type d then retry seq type rest (decide (¬d.rdSeq < seq)) d
            else if d.rdStatus ≠ 0 then (sysErr, d)
            else (ok, d)

/-- The fields of the control block that `rdscomm` uses. -/
structure Client where
  rdSeq : Nat
  rdRegistered : Bool

/-- A request and what happens to it: `udp_register` and `getlocalip` succeed or fail, and
the network does what `rounds` says. -/
structure Exchange where
  type : Nat
  registers : Bool
  located : Bool
  reply : Datagram
  rounds : Nat → Round

/-- The turns that the loop can take. -/
def Exchange.turns (e : Exchange) : List Round := (List.range rdRetries).map e.rounds

def rdscomm (client : Client) (e : Exchange) : Client × Int × Datagram :=
  if client.rdRegistered = false ∧ e.registers = false then (client, sysErr, e.reply)
  else
    let client := { client with rdRegistered := true }
    if e.located = false then (client, sysErr, e.reply)
    else
      ({ client with rdSeq := (client.rdSeq + 1) % word32 },
        retry client.rdSeq e.type e.turns true e.reply)

/-- The calls of one client, each with the state in which it is made. -/
def calls : Client → List Exchange → List (Client × Exchange)
  | _, [] => []
  | client, e :: rest => (client, e) :: calls (rdscomm client e).1 rest

section Network

/-- The call gets as far as its loop. -/
def Exchange.Begins (client : Client) (e : Exchange) : Prop :=
  (client.rdRegistered = true ∨ e.registers = true) ∧ e.located = true

instance (client : Client) (e : Exchange) : Decidable (e.Begins client) :=
  inferInstanceAs (Decidable (_ ∧ _))

/-- The server answers a request with its sequence number and with its type as a response. -/
def Answers (request : Nat × Nat) (d : Datagram) : Prop :=
  d.rdSeq = request.1 ∧ d.rdType = request.2 ||| rdMsgResponse

instance (request : Nat × Nat) (d : Datagram) : Decidable (Answers request d) :=
  inferInstanceAs (Decidable (_ ∧ _))

/-- What is received answers one of the requests. -/
def FromServer (requests : List (Nat × Nat)) : Received → Prop
  | .datagram d => ∃ request ∈ requests, Answers request d
  | _ => True

instance (requests : List (Nat × Nat)) : (received : Received) →
    Decidable (FromServer requests received)
  | .timeout => .isTrue trivial
  | .sysErr => .isTrue trivial
  | .datagram d => inferInstanceAs (Decidable (∃ request ∈ requests, Answers request d))

/-- The requests that have been sent when a call takes its first datagram. -/
def sentBy (client : Client) (sent : List (Nat × Nat)) (e : Exchange) : List (Nat × Nat) :=
  if e.Begins client ∧ (e.rounds 0).sent = true then (client.rdSeq, e.type) :: sent else sent

/-- The network hands over answers to requests that have been sent, in any order and as often
as it likes. `sent` are the requests of earlier calls. -/
def Genuine : Client → List (Nat × Nat) → List Exchange → Prop
  | _, _, [] => True
  | client, sent, e :: rest =>
      (∀ round ∈ e.turns, FromServer (sentBy client sent e) round.received) ∧
        Genuine (rdscomm client e).1 (sentBy client sent e) rest

instance decidableGenuine : (client : Client) → (sent : List (Nat × Nat)) →
    (es : List Exchange) → Decidable (Genuine client sent es)
  | _, _, [] => .isTrue trivial
  | client, sent, e :: rest =>
      have := decidableGenuine (rdscomm client e).1 (sentBy client sent e) rest
      inferInstanceAs (Decidable
        ((∀ round ∈ e.turns, FromServer (sentBy client sent e) round.received) ∧
          Genuine (rdscomm client e).1 (sentBy client sent e) rest))

end Network

section Acceptance

/-- The result of a call is its own: a reply that comes with `OK` has the sequence number of
the request and the type of its response. -/
def OwnReply (seq type : Nat) (result : Int × Datagram) : Prop :=
  result.1 = ok → result.2.rdSeq = seq ∧ Matches type result.2

instance (seq type : Nat) (result : Int × Datagram) : Decidable (OwnReply seq type result) :=
  inferInstanceAs (Decidable (_ → _))

/-- A turn that leaves the exchange open, with and without a transmission in the next turn. -/
inductive LeavesOpen (seq type : Nat) (xmit : Bool) (round : Round) : Bool → Prop
  | quiet (sent : xmit = true → round.sent = true) (late : round.received = .timeout) :
      LeavesOpen seq type xmit round true
  | newer {d : Datagram} (sent : xmit = true → round.sent = true)
      (got : round.received = .datagram d) (above : seq < d.rdSeq) :
      LeavesOpen seq type xmit round true
  | mismatched {d : Datagram} (sent : xmit = true → round.sent = true)
      (got : round.received = .datagram d) (notAbove : ¬seq < d.rdSeq) (other : ¬Matches type d) :
      LeavesOpen seq type xmit round (decide (¬d.rdSeq < seq))

/-- Turns that all leave the exchange open. -/
inductive Undecided (seq type : Nat) : Bool → List Round → Bool → Prop
  | nil (xmit : Bool) : Undecided seq type xmit [] xmit
  | cons {xmit next last : Bool} {round : Round} {rest : List Round}
      (leaves : LeavesOpen seq type xmit round next) (others : Undecided seq type next rest last) :
      Undecided seq type xmit (round :: rest) last

/-- A turn that brings the answer to an older request of the same type. -/
def Stale (seq type : Nat) (xmit : Bool) (round : Round) : Prop :=
  (xmit = true → round.sent = true) ∧
    ∃ d, round.received = .datagram d ∧ d.rdSeq < seq ∧ Matches type d ∧ d.rdStatus = 0

/-- While the exchange is open no answer to an older request of the same type comes in. -/
def NothingStale (seq type : Nat) (xmit : Bool) (rounds : List Round) : Prop :=
  ∀ before round after last, rounds = before ++ round :: after →
    Undecided seq type xmit before last → ¬Stale seq type last round

variable {seq type : Nat} {xmit : Bool} {round : Round} {rest : List Round}

/-- What the rest of the turns has to satisfy when the first one leaves the exchange open. -/
theorem nothing_stale_cons {next : Bool} (leaves : LeavesOpen seq type xmit round next)
    (fresh : ¬Stale seq type xmit round) :
    NothingStale seq type xmit (round :: rest) ↔ NothingStale seq type next rest := by
  have unique : ∀ other, LeavesOpen seq type xmit round other → other = next := by
    intro other leavesOther
    cases leaves <;> cases leavesOther <;> simp_all
    omega
  constructor
  · intro nothing before later after last split undecided
    exact nothing (round :: before) later after last (by rw [split]; rfl)
      (.cons leaves undecided)
  · intro nothing before later after last split undecided
    cases undecided with
    | nil =>
        cases split
        exact fresh
    | cons leavesOther others =>
        cases split
        rw [unique _ leavesOther] at others
        exact nothing _ _ _ _ rfl others

/-- A turn that ends the exchange has no turns behind it. -/
theorem nothing_stale_last (decides : ∀ next, ¬LeavesOpen seq type xmit round next) :
    NothingStale seq type xmit (round :: rest) ↔ ¬Stale seq type xmit round := by
  constructor
  · intro nothing
    exact nothing [] round rest xmit rfl (.nil xmit)
  · intro fresh before later after last split undecided
    cases undecided with
    | nil =>
        cases split
        exact fresh
    | cons leaves others =>
        cases split
        exact absurd leaves (decides _)

theorem retry_own_iff (rounds : List Round) (xmit : Bool) (reply : Datagram) :
    OwnReply seq type (retry seq type rounds xmit reply) ↔ NothingStale seq type xmit rounds := by
  induction rounds generalizing xmit reply with
  | nil =>
      have nothing : NothingStale seq type xmit [] := by
        intro before round after last split
        cases before <;> cases split
      have own : OwnReply seq type (timeout, reply) := by
        intro accepted
        cases accepted
      exact iff_of_true own nothing
  | cons round rest induction =>
      unfold retry
      split
      · rename_i failed
        have decides : ∀ next, ¬LeavesOpen seq type xmit round next := by
          intro next leaves
          cases leaves <;> simp_all
        have fresh : ¬Stale seq type xmit round := by
          intro stale
          have sent := stale.1 failed.1
          rw [failed.2] at sent
          cases sent
        rw [nothing_stale_last decides]
        refine iff_of_true ?_ fresh
        intro accepted
        cases accepted
      · rename_i goes
        have sent : xmit = true → round.sent = true := by
          intro transmits
          by_contra failed
          exact goes ⟨transmits, by simpa using failed⟩
        cases got : round.received with
        | timeout =>
            have fresh : ¬Stale seq type xmit round := by
              rintro ⟨_, d, gotOther, _⟩
              rw [got] at gotOther
              cases gotOther
            rw [nothing_stale_cons (.quiet sent got) fresh]
            exact induction true reply
        | sysErr =>
            have decides : ∀ next, ¬LeavesOpen seq type xmit round next := by
              intro next leaves
              cases leaves <;> simp_all
            have fresh : ¬Stale seq type xmit round := by
              rintro ⟨_, d, gotOther, _⟩
              rw [got] at gotOther
              cases gotOther
            rw [nothing_stale_last decides]
            refine iff_of_true ?_ fresh
            intro accepted
            cases accepted
        | datagram d =>
            have same : ∀ other, round.received = .datagram other → other = d := by
              intro other gotOther
              rw [got] at gotOther
              exact (Received.datagram.inj gotOther).symm
            dsimp only
            split
            · rename_i above
              have fresh : ¬Stale seq type xmit round := by
                rintro ⟨_, other, gotOther, below, _⟩
                rw [same other gotOther] at below
                omega
              rw [nothing_stale_cons (.newer sent got above) fresh]
              exact induction true d
            · rename_i notAbove
              split
              · rename_i mismatched
                have fresh : ¬Stale seq type xmit round := by
                  rintro ⟨_, other, gotOther, _, fits, _⟩
                  rw [same other gotOther] at fits
                  exact mismatched fits
                rw [nothing_stale_cons (.mismatched sent got notAbove mismatched) fresh]
                exact induction _ d
              · rename_i fits
                rw [not_not] at fits
                have decides : ∀ next, ¬LeavesOpen seq type xmit round next := by
                  intro next leaves
                  cases leaves <;> simp_all
                  omega
                rw [nothing_stale_last decides]
                split
                · rename_i refused
                  have fresh : ¬Stale seq type xmit round := by
                    rintro ⟨_, other, gotOther, _, _, accepted⟩
                    rw [same other gotOther] at accepted
                    exact refused accepted
                  refine iff_of_true ?_ fresh
                  intro accepted
                  cases accepted
                · rename_i accepted
                  rw [not_not] at accepted
                  constructor
                  · rintro own ⟨_, other, gotOther, below, _⟩
                    rw [same other gotOther] at below
                    have equal := (own rfl).1
                    change d.rdSeq = seq at equal
                    omega
                  · intro fresh _
                    refine ⟨?_, fits⟩
                    by_contra different
                    change ¬d.rdSeq = seq at different
                    exact fresh ⟨sent, d, got, by omega, fits, accepted⟩

theorem rdscomm_own_iff (client : Client) (e : Exchange) :
    OwnReply client.rdSeq e.type (rdscomm client e).2 ↔
      (e.Begins client → NothingStale client.rdSeq e.type true e.turns) := by
  have refused : OwnReply client.rdSeq e.type (sysErr, e.reply) := by
    intro accepted
    cases accepted
  unfold rdscomm
  split
  · rename_i unregistered
    refine iff_of_true refused ?_
    rintro ⟨registered | registers, _⟩
    · rw [unregistered.1] at registered
      cases registered
    · rw [unregistered.2] at registers
      cases registers
  · rename_i registered
    split
    · rename_i unlocated
      refine iff_of_true refused ?_
      rintro ⟨_, located⟩
      rw [unlocated] at located
      cases located
    · rename_i located
      have begins : e.Begins client := by
        refine ⟨?_, by simpa using located⟩
        by_contra neither
        rw [not_or, Bool.not_eq_true, Bool.not_eq_true] at neither
        exact registered neither
      rw [forall_prop_of_true begins]
      exact retry_own_iff e.turns true e.reply

/-- In every sequence of calls, every call that returns `OK` has its own answer in the reply
buffer exactly when no call is handed an older answer of its type while it is open. -/
theorem own_replies_iff (client : Client) (es : List Exchange) :
    (∀ call ∈ calls client es,
        OwnReply call.1.rdSeq call.2.type (rdscomm call.1 call.2).2) ↔
      ∀ call ∈ calls client es, call.2.Begins call.1 →
        NothingStale call.1.rdSeq call.2.type true call.2.turns := by
  constructor
  · intro own call member
    exact (rdscomm_own_iff call.1 call.2).mp (own call member)
  · intro nothing call member
    exact (rdscomm_own_iff call.1 call.2).mpr (nothing call member)

/-- The type of a read request. -/
def rdMsgRreq : Nat := 0x0010

/-- The answer to the first read request, which has the sequence number 1. -/
def firstAnswer : Datagram :=
  { rdType := rdMsgRreq ||| rdMsgResponse, rdStatus := 0, rdSeq := 1, body := [7] }

/-- A read whose answer arrives in the turn `turn`, and in no other. -/
def readAnswered (turn : Nat) : Exchange where
  type := rdMsgRreq
  registers := true
  located := true
  reply := { rdType := 0, rdStatus := 0, rdSeq := 0, body := [] }
  rounds := fun i =>
    { sent := true, received := if i = turn then .datagram firstAnswer else .timeout }

/-- The first read is sent twice and answered twice. The second answer arrives during the
second read, which takes it for its own. -/
theorem old_answer_accepted :
    ¬∀ (client : Client) (es : List Exchange), Genuine client [] es →
      ∀ call ∈ calls client es,
        OwnReply call.1.rdSeq call.2.type (rdscomm call.1 call.2).2 := by
  intro always
  have own := always { rdSeq := 1, rdRegistered := true } [readAnswered 1, readAnswered 0]
    (by decide) ({ rdSeq := 2, rdRegistered := true }, readAnswered 0)
    (List.mem_cons_of_mem _ (List.mem_singleton.mpr rfl))
  exact absurd own (by decide)

end Acceptance

end Xinu.Rds.Comm
