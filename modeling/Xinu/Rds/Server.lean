import Mathlib.Algebra.Group.Nat.Defs
import Mathlib.Data.Fintype.Basic
import Mathlib.Order.Lattice
import Xinu.Rds.Comm
import Xinu.Lib.Interleaving
import Xinu.Sched.Queues

/-!
# Old requests at the remote disk server

The server keeps one sequence number for all its clients, and a request with the number 1 starts it
anew. The network may lose a datagram, and hand it over late and as often as it likes; so the
copies that `rdscomm` sends again are duplicates of the first one.
-/

namespace Xinu.Rds.Server

open Xinu.Rds.Comm Xinu.Lib.Interleaving
open Xinu.Sched.Queues (int32)

set_option autoImplicit false

section Definitions

def rdIdlen : Nat := 64

def rdMsgRreq : Nat := 0x0010

def rdMsgWreq : Nat := 0x0020

def rdMsgOreq : Nat := 0x0030

def rdMsgCreq : Nat := 0x0040

def rdMsgDreq : Nat := 0x0050

def rdMinReq : Nat := rdMsgRreq

def rdMaxReq : Nat := rdMsgDreq

/-- The size of `struct rd_msg_hdr` -/
def hdrSize : Nat := 2 + 2 + 4 + rdIdlen

/-- A datagram for the server, its header in host byte order. -/
structure Request where
  size : Nat
  rdType : Nat
  rdSeq : Nat
  rdId : Fin rdIdlen → Nat
  deriving DecidableEq

inductive Routine where
  | rdopen
  | rdclose
  | rdread
  | rdwrite
  | rddelete
  deriving DecidableEq

/-- What the server does with a datagram. -/
inductive Verdict where
  | ignored
  | discarded
  | snderr
  | executed (routine : Routine)
  | unhandled
  deriving DecidableEq

/-- The characters of an ID in front of its null character -/
def name (rdId : Fin rdIdlen → Nat) : List Nat := (List.ofFn rdId).takeWhile (· ≠ 0)

def slash : Nat := 47

/-- The `switch` over the type of a message -/
def dispatch (msgtyp : Nat) : Verdict :=
  if msgtyp = rdMsgOreq then .executed .rdopen
  else if msgtyp = rdMsgCreq then .executed .rdclose
  else if msgtyp = rdMsgRreq then .executed .rdread
  else if msgtyp = rdMsgWreq then .executed .rdwrite
  else if msgtyp = rdMsgDreq then .executed .rddelete
  else .unhandled

/-- One turn of the loop in `main`: the sequence number behind it, and what has been done. -/
def serve (seq : Int) (m : Request) : Int × Verdict :=
  if m.size < hdrSize then (seq, .ignored)
  else if m.rdType < rdMinReq ∨ rdMaxReq < m.rdType then (seq, .ignored)
  else
    let thisseq := int32 m.rdSeq
    let seq := if thisseq = 1 then 0 else seq
    if thisseq ≠ 0 ∧ thisseq < seq then (seq, .discarded)
    -- the number is recorded before the ID is looked at
    else if rdIdlen ≤ (name m.rdId).length ∨ slash ∈ name m.rdId then (thisseq, .snderr)
    else (thisseq, dispatch m.rdType)

def WellFormed (m : Request) : Prop :=
  hdrSize ≤ m.size ∧ rdMinReq ≤ m.rdType ∧ m.rdType ≤ rdMaxReq

instance (m : Request) : Decidable (WellFormed m) :=
  inferInstanceAs (Decidable (_ ∧ _ ∧ _))

/-- The clients, the datagrams that have been sent, each with its client, and the server. `reached`
are the clients and numbers of the well-formed requests that have come to it, the last one first. -/
structure World where
  clients : Nat → Client
  flight : List (Nat × Request)
  seq : Int
  reached : List (Nat × Nat)

inductive Event where
  | call (client : Nat) (e : Exchange) (size : Nat) (rdId : Fin rdIdlen → Nat)
  | arrive (client : Nat) (m : Request)

/-- The datagram that a call sends -/
def message (client : Client) (e : Exchange) (size : Nat) (rdId : Fin rdIdlen → Nat) : Request :=
  ⟨size, e.type, client.rdSeq, rdId⟩

/-- Its first transmission has succeeded. -/
def Sends (client : Client) (e : Exchange) : Prop :=
  e.Begins client ∧ (e.rounds 0).sent = true

instance (client : Client) (e : Exchange) : Decidable (Sends client e) :=
  inferInstanceAs (Decidable (_ ∧ _))

def act (w : World) : Event → Option World
  | .call client e size rdId =>
      some { w with
        clients := Function.update w.clients client (rdscomm (w.clients client) e).1
        flight := if Sends (w.clients client) e then
            (client, message (w.clients client) e size rdId) :: w.flight
          else w.flight }
  | .arrive client m =>
      if (client, m) ∈ w.flight then
        some { w with
          seq := (serve w.seq m).1
          reached := if WellFormed m then (client, m.rdSeq) :: w.reached else w.reached }
      else none

/-- The fields of a device behind `rdsinit` -/
def rdsinit : Client := ⟨1, false⟩

structure Started (w : World) : Prop where
  clients : ∀ client, w.clients client = rdsinit
  flight : w.flight = []
  seq : w.seq = 0
  reached : w.reached = []

/-- The numbers of a client increase: `rd_seq` does not overflow. -/
def Increasing (w : World) : Event → Prop
  | .call client _ _ _ => (w.clients client).rdSeq + 1 < 2 ^ 31
  | .arrive _ _ => True

instance (w : World) : (event : Event) → Decidable (Increasing w event)
  | .call _ _ _ _ => inferInstanceAs (Decidable (_ < _))
  | .arrive _ _ => .isTrue trivial

/-- The requests since the last one with the number 1, that one included -/
def sinceOne : List (Nat × Nat) → List (Nat × Nat)
  | [] => []
  | request :: rest => if request.2 = 1 then [request] else request :: sinceOne rest

/-- The request has the last number that its client has given. -/
def Latest (w : World) (client : Nat) (m : Request) : Prop :=
  m.rdSeq + 1 = (w.clients client).rdSeq

instance (w : World) (client : Nat) (m : Request) : Decidable (Latest w client m) :=
  inferInstanceAs (Decidable (_ = _))

end Definitions

section Numbers

variable {requests : List (Nat × Nat)} {n : Nat}

/-- The highest number of some requests -/
def highest (requests : List (Nat × Nat)) : Nat := (requests.map Prod.snd).foldr max 0

@[simp] theorem highest_nil : highest [] = 0 := rfl

@[simp] theorem highest_cons (request : Nat × Nat) (rest : List (Nat × Nat)) :
    highest (request :: rest) = max request.2 (highest rest) := rfl

theorem lt_highest_iff : n < highest requests ↔ ∃ request ∈ requests, n < request.2 := by
  induction requests with
  | nil => simp
  | cons request rest induction =>
      rw [highest_cons, lt_max_iff, induction]
      simp

theorem since_one_subset {request : Nat × Nat} (member : request ∈ sinceOne requests) :
    request ∈ requests := by
  induction requests with
  | nil => exact member
  | cons first rest induction =>
      unfold sinceOne at member
      split_ifs at member with one
      · exact List.mem_cons.mpr (.inl (List.mem_singleton.mp member))
      · rcases List.mem_cons.mp member with rfl | behind
        · exact List.mem_cons_self
        · exact List.mem_cons_of_mem _ (induction behind)

@[simp] theorem since_one_cons (client : Nat) : sinceOne ((client, n) :: requests) =
    if n = 1 then [(client, n)] else (client, n) :: sinceOne requests := rfl

/-- The highest number since the last 1, when one more request comes. -/
theorem highest_since (client : Nat) : highest (sinceOne ((client, n) :: requests)) =
    if n = 1 then 1 else max n (highest (sinceOne requests)) := by
  rw [since_one_cons]
  split_ifs with one
  · rw [one]
    rfl
  · rfl

end Numbers

section Check

variable {m : Request} {seen : Nat}

theorem type_accepted (formed : WellFormed m) :
    ¬m.size < hdrSize ∧ ¬(m.rdType < rdMinReq ∨ rdMaxReq < m.rdType) := by
  obtain ⟨size, least, most⟩ := formed
  omega

/-- What the server does with a well-formed request whose number is positive. -/
theorem serve_number (formed : WellFormed m) (positive : 0 < m.rdSeq) (small : m.rdSeq < 2 ^ 31) :
    serve seen m =
      if m.rdSeq ≠ 1 ∧ m.rdSeq < seen then ((seen : Int), .discarded)
      else if rdIdlen ≤ (name m.rdId).length ∨ slash ∈ name m.rdId then ((m.rdSeq : Int), .snderr)
      else ((m.rdSeq : Int), dispatch m.rdType) := by
  obtain ⟨size, type⟩ := type_accepted formed
  have number : int32 m.rdSeq = m.rdSeq := Sched.Queues.int32_small (by omega) (by omega)
  unfold serve
  rw [if_neg size, if_neg type, number]
  dsimp only
  by_cases one : m.rdSeq = 1
  · have first : (m.rdSeq : Int) = 1 := congrArg Nat.cast one
    rw [if_pos first, if_neg (show ¬((m.rdSeq : Int) ≠ 0 ∧ (m.rdSeq : Int) < 0) by omega),
      if_neg (show ¬(m.rdSeq ≠ 1 ∧ m.rdSeq < seen) by omega)]
  · have other : ¬(m.rdSeq : Int) = 1 := by omega
    have same : ((m.rdSeq : Int) ≠ 0 ∧ (m.rdSeq : Int) < seen) ↔ m.rdSeq ≠ 1 ∧ m.rdSeq < seen := by
      omega
    rw [if_neg other]
    simp only [same]

theorem dispatch_not_discarded (msgtyp : Nat) : dispatch msgtyp ≠ .discarded := by
  unfold dispatch
  split_ifs <;> decide

theorem discarded_iff (formed : WellFormed m) (positive : 0 < m.rdSeq) (small : m.rdSeq < 2 ^ 31) :
    (serve seen m).2 = .discarded ↔ m.rdSeq ≠ 1 ∧ m.rdSeq < seen := by
  rw [serve_number formed positive small]
  split_ifs with discarded refused
  · exact iff_of_true rfl discarded
  · exact iff_of_false (by decide) discarded
  · exact iff_of_false (dispatch_not_discarded _) discarded

/-- The server has the highest number since the last 1. -/
theorem serve_seq (formed : WellFormed m) (positive : 0 < m.rdSeq) (small : m.rdSeq < 2 ^ 31) :
    (serve seen m).1 = if m.rdSeq = 1 then 1 else (max m.rdSeq seen : Nat) := by
  rw [serve_number formed positive small]
  split_ifs <;> dsimp only <;> omega

theorem serve_ignored {seq : Int} (malformed : ¬WellFormed m) : serve seq m = (seq, .ignored) := by
  unfold serve
  by_cases size : m.size < hdrSize
  · rw [if_pos size]
  · rw [if_neg size, if_pos]
    by_contra accepted
    exact malformed ⟨by omega, by omega, by omega⟩

end Check

section Runs

variable {w w' : World} {event : Event}

/-- A request has one of the numbers that its client has given. -/
def Given (w : World) (client n : Nat) : Prop := 0 < n ∧ n < (w.clients client).rdSeq

structure Numbered (w : World) : Prop where
  bounded : ∀ client, 0 < (w.clients client).rdSeq ∧ (w.clients client).rdSeq < 2 ^ 31
  flight : ∀ client m, (client, m) ∈ w.flight → Given w client m.rdSeq
  reached : ∀ client n, (client, n) ∈ w.reached → Given w client n
  seq : w.seq = highest (sinceOne w.reached)

theorem rdscomm_number (client : Client) (e : Exchange) (small : client.rdSeq + 1 < 2 ^ 31) :
    (rdscomm client e).1.rdSeq =
      if e.Begins client then client.rdSeq + 1 else client.rdSeq := by
  by_cases begins : e.Begins client
  · obtain ⟨registered, located⟩ := begins
    have registers : ¬(client.rdRegistered = false ∧ e.registers = false) := by
      rintro ⟨no, fails⟩
      rw [no, fails] at registered
      simp at registered
    unfold rdscomm
    rw [if_neg registers, @if_pos (e.Begins client) _ ⟨registered, located⟩]
    dsimp only
    rw [if_neg (by rw [located]; decide)]
    exact Nat.mod_eq_of_lt (by unfold Kernel.State.word32; omega)
  · rw [if_neg begins]
    unfold rdscomm
    dsimp only
    split_ifs with unregistered nowhere
    · rfl
    · rfl
    · refine absurd ⟨?_, ?_⟩ begins
      · by_contra neither
        exact unregistered (by simpa using neither)
      · simpa using nowhere

/-- The clients behind a call -/
def called (w : World) (client : Nat) (e : Exchange) : Nat → Client :=
  Function.update w.clients client (rdscomm (w.clients client) e).1

theorem called_number {client : Nat} {e : Exchange} (small : (w.clients client).rdSeq + 1 < 2 ^ 31)
    (other : Nat) : (called w client e other).rdSeq =
      if other = client ∧ e.Begins (w.clients client) then (w.clients client).rdSeq + 1
      else (w.clients other).rdSeq := by
  unfold called
  by_cases same : other = client
  · subst same
    rw [Function.update_self, rdscomm_number _ _ small]
    simp only [true_and]
  · rw [Function.update_of_ne same, if_neg fun both => same both.1]

theorem called_grows {client : Nat} {e : Exchange} (small : (w.clients client).rdSeq + 1 < 2 ^ 31)
    (other : Nat) : (w.clients other).rdSeq ≤ (called w client e other).rdSeq := by
  rw [called_number small]
  split_ifs with same
  · rw [same.1]
    exact Nat.le_succ _
  · exact Nat.le_refl _

theorem numbered_call {client size : Nat} {e : Exchange} {rdId : Fin rdIdlen → Nat}
    (numbered : Numbered w) (small : (w.clients client).rdSeq + 1 < 2 ^ 31)
    (did : act w (.call client e size rdId) = some w') : Numbered w' := by
  obtain rfl := Option.some.inj did
  have given : ∀ other n, Given w other n → 0 < n ∧ n < (called w client e other).rdSeq :=
    fun other n given => ⟨given.1, Nat.lt_of_lt_of_le given.2 (called_grows small other)⟩
  refine ⟨fun other => ?_, fun other m member => ?_, fun other n member => ?_, numbered.seq⟩
  · change 0 < (called w client e other).rdSeq ∧ (called w client e other).rdSeq < 2 ^ 31
    have bounded := numbered.bounded other
    rw [called_number small]
    split_ifs <;> omega
  · dsimp only at member
    split_ifs at member with sends
    · rcases List.mem_cons.mp member with same | before
      · cases same
        have number := @called_number w client e small client
        rw [if_pos ⟨rfl, sends.1⟩] at number
        refine ⟨(numbered.bounded client).1, ?_⟩
        exact Nat.lt_of_lt_of_eq (Nat.lt_succ_self _) number.symm
      · exact given other _ (numbered.flight other m before)
    · exact given other _ (numbered.flight other m member)
  · exact given other n (numbered.reached other n member)

theorem numbered_arrive {client : Nat} {m : Request} (numbered : Numbered w)
    (did : act w (.arrive client m) = some w') : Numbered w' := by
  have sent : (client, m) ∈ w.flight := by
    by_contra absent
    rw [act, if_neg absent] at did
    cases did
  rw [act, if_pos sent] at did
  obtain rfl := Option.some.inj did
  have given := numbered.flight client m sent
  have small := (numbered.bounded client).2
  have below : m.rdSeq < 2 ^ 31 := Nat.lt_trans given.2 small
  by_cases formed : WellFormed m
  · refine ⟨numbered.bounded, numbered.flight, fun other n member => ?_, ?_⟩
    · dsimp only at member
      rw [if_pos formed] at member
      rcases List.mem_cons.mp member with same | before
      · cases same
        exact given
      · exact numbered.reached other n before
    · dsimp only
      rw [if_pos formed, numbered.seq, serve_seq formed given.1 below, highest_since]
  · refine ⟨numbered.bounded, numbered.flight, ?_, ?_⟩
    · dsimp only
      rw [if_neg formed]
      exact numbered.reached
    · dsimp only
      rw [if_neg formed, serve_ignored formed]
      exact numbered.seq

theorem numbered_reached (run : Reached act Started Increasing w) : Numbered w := by
  refine reached_invariant run (fun w started => ?_) fun w w' event numbered may did => ?_
  · refine ⟨fun client => ?_, fun client m member => ?_, fun client n member => ?_, ?_⟩
    · rw [started.clients]
      decide
    · rw [started.flight] at member
      cases member
    · rw [started.reached] at member
      cases member
    · rw [started.seq, started.reached]
      rfl
  · cases event with
    | call client e size rdId => exact numbered_call numbered may did
    | arrive client m => exact numbered_arrive numbered did

end Runs

section Results

variable {w : World} {client : Nat} {m : Request}

/-- In every run a well-formed request is discarded exactly when its number is not 1 and a higher
one has come since the last 1. So a client's latest request is discarded only for the number of
another client, and an older one is not executed when a later one of its client has come. -/
theorem old_requests_discarded (run : Reached act Started Increasing w)
    (sent : (client, m) ∈ w.flight) (formed : WellFormed m) :
    ((serve w.seq m).2 = .discarded ↔
      m.rdSeq ≠ 1 ∧ ∃ request ∈ sinceOne w.reached, m.rdSeq < request.2) ∧
    (Latest w client m → (serve w.seq m).2 = .discarded →
      ∃ request ∈ sinceOne w.reached, request.1 ≠ client ∧ m.rdSeq < request.2) ∧
    (m.rdSeq ≠ 1 → (∃ n, (client, n) ∈ sinceOne w.reached ∧ m.rdSeq < n) →
      ∀ routine, (serve w.seq m).2 ≠ .executed routine) := by
  have numbered := numbered_reached run
  have given := numbered.flight client m sent
  have small := (numbered.bounded client).2
  have exactly : (serve w.seq m).2 = .discarded ↔
      m.rdSeq ≠ 1 ∧ ∃ request ∈ sinceOne w.reached, m.rdSeq < request.2 := by
    rw [numbered.seq, discarded_iff formed given.1 (Nat.lt_trans given.2 small), lt_highest_iff]
  refine ⟨exactly, fun latest discarded => ?_, fun other later routine executed => ?_⟩
  · obtain ⟨_, request, member, higher⟩ := exactly.mp discarded
    refine ⟨request, member, fun same => ?_, higher⟩
    have givenToo := numbered.reached request.1 request.2 (since_one_subset member)
    rw [same] at givenToo
    have least := givenToo.2
    unfold Latest at latest
    omega
  · obtain ⟨n, member, higher⟩ := later
    rw [exactly.mpr ⟨other, _, member, higher⟩] at executed
    cases executed

/-- All devices behind `rdsinit`, and a server that has just been started -/
def booted : World := ⟨fun _ => rdsinit, [], 0, []⟩

theorem booted_started : Started booted := ⟨fun _ => rfl, rfl, rfl, rfl⟩

/-- A call to open a disk with a name of one letter, without an answer -/
def openCall (client : Nat) : Event :=
  .call client ⟨rdMsgOreq, true, true, ⟨0, 0, 0, []⟩, fun _ => ⟨true, .timeout⟩⟩ 76
    fun i => if i.val = 0 then 97 else 0

def openRequest (rdSeq : Nat) : Request :=
  ⟨76, rdMsgOreq, rdSeq, fun i => if i.val = 0 then 97 else 0⟩

theorem open_request_formed (rdSeq : Nat) : WellFormed (openRequest rdSeq) := by
  show hdrSize ≤ 76 ∧ rdMinReq ≤ rdMsgOreq ∧ rdMsgOreq ≤ rdMaxReq
  decide

theorem old_request_discarded : ∃ w, takeEvents act Increasing [openCall 0, openCall 0,
    openCall 0, .arrive 0 (openRequest 3)] booted = some w ∧
      (serve w.seq (openRequest 2)).2 = .discarded ∧
      (serve w.seq (openRequest 1)).2 ≠ .discarded := by
  obtain ⟨w, took⟩ := Option.isSome_iff_exists.mp (show (takeEvents act Increasing
    [openCall 0, openCall 0, openCall 0, .arrive 0 (openRequest 3)] booted).isSome = true by
      decide +kernel)
  have run := take_events (.start booted_started) took
  have facts : (0, openRequest 1) ∈ w.flight ∧ (0, openRequest 2) ∈ w.flight ∧
      sinceOne w.reached = [(0, 3)] := by
    cases took
    decide +kernel
  obtain ⟨first, second, reached⟩ := facts
  refine ⟨w, took, ?_, fun discarded => ?_⟩
  · refine (old_requests_discarded run second (open_request_formed 2)).1.mpr ⟨by decide, (0, 3), ?_⟩
    rw [reached]
    exact ⟨List.mem_cons_self, by decide⟩
  · exact ((old_requests_discarded run first (open_request_formed 1)).1.mp discarded).1 rfl

/-- A client's latest request is discarded for a higher number of another one, and a duplicate of
its first request is executed although a later one has come. -/
theorem latest_request_discarded :
    (∃ w, Reached act Started Increasing w ∧ (0, openRequest 2) ∈ w.flight ∧
      Latest w 0 (openRequest 2) ∧ (serve w.seq (openRequest 2)).2 = .discarded) ∧
    ∃ w, Reached act Started Increasing w ∧ w.reached = [(0, 2), (0, 1)] ∧
      (0, openRequest 1) ∈ w.flight ∧ (serve w.seq (openRequest 1)).2 = .executed .rdopen := by
  have start : Reached act Started Increasing booted := .start booted_started
  constructor
  · exact @take_events_end _ _ _ _ _ _ [openCall 0, openCall 1, openCall 1, openCall 1,
      .arrive 0 (openRequest 1), .arrive 1 (openRequest 1), .arrive 1 (openRequest 2),
      .arrive 1 (openRequest 3), openCall 0] _ (fun w => (0, openRequest 2) ∈ w.flight ∧
        Latest w 0 (openRequest 2) ∧ (serve w.seq (openRequest 2)).2 = .discarded) _ start
      (by decide +kernel)
  · exact @take_events_end _ _ _ _ _ _ [openCall 0, openCall 0, .arrive 0 (openRequest 1),
      .arrive 0 (openRequest 2)] _ (fun w => w.reached = [(0, 2), (0, 1)] ∧
        (0, openRequest 1) ∈ w.flight ∧
        (serve w.seq (openRequest 1)).2 = .executed .rdopen) _ start (by decide +kernel)

end Results

end Xinu.Rds.Server
