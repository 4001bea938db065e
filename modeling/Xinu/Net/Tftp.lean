import Xinu.Kernel.State
import Xinu.Lib.Scatter

/-!
# A file over TFTP

`tftpget_mb` asks a server for a file block by block. What is sent and received is a trace, and a
call with a trace returns nothing when it would send another message or goes on behind its end. The
server answers the request with the first block and each acknowledgement with the next one; the
network delivers answers to messages of the trace as often, as late and in what order it likes.
-/

namespace Xinu.Net.Tftp

open Xinu.Kernel.State (sysErr)
open Xinu.Lib.ByteMemory (Memory)
open Xinu.Lib.Scatter

set_option autoImplicit false

section Definitions

def timeout : Int := -3

def tftpRrq : Nat := 1

def tftpData : Nat := 3

def tftpAck : Nat := 4

def tftpError : Nat := 5

def tftpPort : Nat := 69

def tftpMaxnam : Nat := 64

def tftpMaxdata : Nat := 512

def tftpMaxretries : Nat := 3

abbrev Message := List UInt8

/-- A 16-bit value in network order -/
def htons (value : Nat) : List UInt8 := [UInt8.ofNat (value / 256), UInt8.ofNat value]

def ntohs (msg : Message) (place : Nat) : Nat :=
  256 * (msg.getD place 0).toNat + (msg.getD (place + 1) 0).toNat

/-- What `udp_recvaddr` does -/
inductive Received where
  | failed
  | late
  | datagram (port : Nat) (msg : Message)

inductive Io where
  | send (port : Nat) (msg : Message) (sent : Bool)
  | receive (received : Received)

/-- The result of `tftp_send1`, what it leaves in `inmsg` and `remport`, and the trace behind it -/
structure Response where
  n : Int
  inmsg : Message
  remport : Nat
  rest : List Io

/-- The loop that discards packets -/
def awaitBlock (expected : Nat) : Nat → List Io → Option Response
  | remport, .receive .failed :: rest => some ⟨sysErr, [], remport, rest⟩
  | remport, .receive .late :: rest => some ⟨timeout, [], remport, rest⟩
  | _, .receive (.datagram port msg) :: rest =>
      if msg.length < 4 then awaitBlock expected port rest
      else if ntohs msg 0 = tftpError then some ⟨sysErr, msg, port, rest⟩
      else if ntohs msg 0 = tftpData ∧ ntohs msg 2 = expected then
        some ⟨msg.length, msg, port, rest⟩
      else awaitBlock expected port rest
  | _, _ => none

def tftpSend1 (remport : Nat) (msg : Message) (expected : Nat) : List Io → Option Response
  | .send port out sent :: rest =>
      if port = remport ∧ out = msg then
        if sent then awaitBlock expected remport rest else some ⟨sysErr, [], remport, rest⟩
      else none
  | _ => none

/-- The loop over the retransmissions, of which `left` are left. It ends with a positive `n` or with
an error. -/
def request (msg : Message) (expected : Nat) : Nat → Nat → List Io → Option Response
  | 0, remport, events => some ⟨sysErr, [], remport, events⟩
  | left + 1, remport, events =>
      (tftpSend1 remport msg expected events).bind fun response =>
        if 0 < response.n then some response
        else if response.n = sysErr then some response
        else request msg expected left response.remport response.rest

structure Progress where
  mem : Memory
  currBuf : Nat
  currBufInd : Nat
  currUsed : Nat
  filesiz : Nat

namespace Progress

variable (p : Progress) (bufs : List (Nat × Nat))

def nextBuf : Progress :=
  { p with
    currBufInd := p.currBufInd + 1
    currBuf := (bufs.getD (p.currBufInd + 1) (0, 0)).1
    currUsed := 0 }

def put (byte : UInt8) : Progress :=
  { p with
    mem := Function.update p.mem p.currBuf byte
    currBuf := p.currBuf + 1
    currUsed := p.currUsed + 1
    filesiz := p.filesiz + 1 }

end Progress

variable (bufs : List (Nat × Nat))

/-- The loop over the bytes of a block, and whether it has run out of buffers -/
def copyBlock : List UInt8 → Progress → Progress × Bool
  | [], p => (p, false)
  | byte :: bytes, p =>
      if (bufs.getD p.currBufInd (0, 0)).2 ≤ p.currUsed then
        if bufs.length ≤ p.currBufInd + 1 then (p, true)
        else copyBlock bytes ((p.nextBuf bufs).put byte)
      else copyBlock bytes (p.put byte)

def ack (expected : Nat) : Message := htons tftpAck ++ htons expected

def rrq (filename : List UInt8) : Message :=
  htons tftpRrq ++ filename ++ [0] ++ [111, 99, 116, 101, 116] ++ [0]

theorem sys_err_not_positive : ¬(0 : Int) < sysErr := by decide

theorem timeout_not_positive : ¬(0 : Int) < timeout := by decide

theorem await_shorter {expected remport : Nat} {events : List Io} {response : Response}
    (ran : awaitBlock expected remport events = some response) :
    response.rest.length < events.length := by
  fun_induction awaitBlock expected remport events with
  | case1 | case2 =>
      cases ran
      exact Nat.lt_succ_self _
  | case3 _ _ _ _ _ induction => exact Nat.lt_succ_of_lt (induction ran)
  | case4 | case5 =>
      cases ran
      exact Nat.lt_succ_self _
  | case6 _ _ _ _ _ _ _ induction => exact Nat.lt_succ_of_lt (induction ran)
  | case7 => cases ran

theorem send_shorter {remport expected : Nat} {msg : Message} {events : List Io}
    {response : Response} (ran : tftpSend1 remport msg expected events = some response) :
    response.rest.length < events.length := by
  unfold tftpSend1 at ran
  split at ran
  · split_ifs at ran
    · exact Nat.lt_succ_of_lt (await_shorter ran)
    · cases ran
      exact Nat.lt_succ_self _
  · cases ran

theorem request_shorter {msg : Message} {expected left remport : Nat} {events : List Io}
    {response : Response} (ran : request msg expected left remport events = some response)
    (good : 0 < response.n) : response.rest.length < events.length := by
  induction left generalizing remport events with
  | zero =>
      cases ran
      exact absurd good sys_err_not_positive
  | succ left induction =>
      obtain ⟨first, sent, goesOn⟩ := Option.bind_eq_some_iff.mp ran
      have shorter := send_shorter sent
      split_ifs at goesOn
      · cases goesOn
        exact shorter
      · cases goesOn
        exact shorter
      · exact Nat.lt_trans (induction goesOn) shorter

/-- The loop over the blocks: the returned value and what has been stored -/
def transfer (msg : Message) (expected remport : Nat) (p : Progress) (events : List Io) :
    Option (Int × Progress) :=
  match _ran : request msg expected tftpMaxretries remport events with
  | none => none
  | some response =>
      if _good : 0 < response.n then
        let dlen := response.n.toNat - 4
        let (p, full) := copyBlock bufs ((response.inmsg.drop 4).take dlen) p
        if full then some (p.filesiz, p)
        else
          let msg := ack expected
          if dlen < 512 then
            match response.rest with
            | .send port out sent :: _ =>
                if port = response.remport ∧ out = msg then
                  some (if sent then (p.filesiz : Int) else sysErr, p)
                else none
            | _ => none
          else transfer msg ((expected + 1) % 65536) response.remport p response.rest
      else some (sysErr, p)
termination_by events.length
decreasing_by exact request_shorter _ran _good

/-- `clock` is what `getutime` returns, and `register` what `udp_register` does for a port. -/
def tftpgetMb (serverip : Nat) (filename : Option (List UInt8)) (clock : Option Nat)
    (register : Nat → Int) (mem : Memory) (events : List Io) : Option (Int × Memory) :=
  match filename with
  | none => some (sysErr, mem)
  | some filename =>
      if serverip = 0 ∨ bufs = [] then some (sysErr, mem)
      else if ∃ buf ∈ bufs, buf.1 = 0 ∨ buf.2 = 0 then some (sysErr, mem)
      else if filename.length = 0 ∨ tftpMaxnam < filename.length then some (sysErr, mem)
      else
        match clock with
        | none => some (sysErr, mem)
        | some now =>
            if register (50000 + now % 4096) = sysErr then some (sysErr, mem)
            else
              (transfer bufs (rrq filename) 1 tftpPort
                ⟨mem, (bufs.getD 0 (0, 0)).1, 0, 0, 0⟩ events).map fun result =>
                (result.1, result.2.mem)

end Definitions

section Server

variable (file : List UInt8)

/-- The last block is shorter than the others, and may be empty. -/
def blocks : Nat := file.length / tftpMaxdata + 1

def data (block : Nat) : Message :=
  htons tftpData ++ htons block ++ (file.drop (tftpMaxdata * (block - 1))).take tftpMaxdata

/-- What the server answers -/
inductive Answers (filename : List UInt8) : Message → Message → Prop
  | first : Answers filename (rrq filename) (data file 1)
  | next {block : Nat} (some : 1 ≤ block) (more : block < blocks file) :
      Answers filename (ack block) (data file (block + 1))

/-- Each datagram of a trace answers a message in front of it. -/
def Delivered (filename : List UInt8) (events : List Io) : Prop :=
  ∀ (front rest : List Io) (port : Nat) (msg : Message),
    events = front ++ .receive (.datagram port msg) :: rest →
    ∃ remport out sent, Io.send remport out sent ∈ front ∧ Answers file filename out msg

/-- The buffers in order hold the first bytes of the file, and nothing else has been written. -/
structure Downloaded (bufs : List (Nat × Nat)) (n : Int) (before after : Memory) : Prop where
  size : n = min file.length (cells bufs).length
  holds : ∀ k < n.toNat, ∀ place byte, (cells bufs)[k]? = some place → file[k]? = some byte →
    after place = byte
  others : ∀ place, place ∉ cells bufs → after place = before place

end Server

section Blocks

variable {file filename : List UInt8} {block expected remport : Nat} {msg : Message}
  {events : List Io} {response : Response}

theorem ntohs_htons {value place : Nat} {front back : List UInt8} (small : value < 65536)
    (here : front.length = place) : ntohs (front ++ (htons value ++ back)) place = value := by
  subst here
  unfold ntohs htons
  have first : (front ++ ([UInt8.ofNat (value / 256), UInt8.ofNat value] ++ back)).getD
      front.length 0 = UInt8.ofNat (value / 256) := by
    simp
  have second : (front ++ ([UInt8.ofNat (value / 256), UInt8.ofNat value] ++ back)).getD
      (front.length + 1) 0 = UInt8.ofNat value := by
    simp
  rw [first, second]
  simp only [UInt8.toNat_ofNat']
  omega

theorem data_block (file : List UInt8) (small : block < 65536) :
    ntohs (data file block) 2 = block := by
  rw [data, List.append_assoc]
  exact ntohs_htons small rfl

/-- A block of the file -/
def IsBlock (file : List UInt8) (msg : Message) : Prop :=
  ∃ block, 1 ≤ block ∧ block ≤ blocks file ∧ msg = data file block

/-- All datagrams are blocks of the file. -/
def Honest (file : List UInt8) (events : List Io) : Prop :=
  ∀ port msg, Io.receive (.datagram port msg) ∈ events → IsBlock file msg

theorem honest_of_delivered (delivered : Delivered file filename events) : Honest file events := by
  intro port msg member
  obtain ⟨front, rest, split⟩ := List.append_of_mem member
  obtain ⟨_, _, _, _, answers⟩ := delivered front rest port msg split
  cases answers with
  | first => exact ⟨1, Nat.le_refl 1, Nat.succ_le_succ (Nat.zero_le _), rfl⟩
  | next some more => exact ⟨_, Nat.succ_le_succ (Nat.zero_le _), more, rfl⟩

theorem honest_tail {event : Io} {rest : List Io} (honest : Honest file (event :: rest)) :
    Honest file rest := fun port msg member => honest port msg (List.mem_cons_of_mem _ member)

/-- What comes back is the expected block, or `n` is not positive. -/
structure Expected (file : List UInt8) (expected : Nat) (response : Response) : Prop where
  honest : Honest file response.rest
  block : 0 < response.n →
    response.inmsg = data file expected ∧ response.n = response.inmsg.length

theorem await_expected (small : blocks file < 65536) (honest : Honest file events)
    (ran : awaitBlock expected remport events = some response) :
    Expected file expected response := by
  fun_induction awaitBlock expected remport events with
  | case1 =>
      cases ran
      exact ⟨honest_tail honest, fun positive => absurd positive sys_err_not_positive⟩
  | case2 =>
      cases ran
      exact ⟨honest_tail honest, fun positive => absurd positive timeout_not_positive⟩
  | case3 _ _ _ _ _ induction => exact induction (honest_tail honest) ran
  | case4 =>
      cases ran
      exact ⟨honest_tail honest, fun positive => absurd positive sys_err_not_positive⟩
  | case5 _ port msg _ _ _ right =>
      cases ran
      refine ⟨honest_tail honest, fun _ => ⟨?_, rfl⟩⟩
      obtain ⟨block, _, bound, rfl⟩ := honest port msg List.mem_cons_self
      have same := right.2
      rw [data_block file (Nat.lt_of_le_of_lt bound small)] at same
      rw [same]
  | case6 _ _ _ _ _ _ _ induction => exact induction (honest_tail honest) ran
  | case7 => cases ran

theorem send_expected (small : blocks file < 65536) (honest : Honest file events)
    (ran : tftpSend1 remport msg expected events = some response) :
    Expected file expected response := by
  unfold tftpSend1 at ran
  split at ran
  · split_ifs at ran
    · exact await_expected small (honest_tail honest) ran
    · cases ran
      exact ⟨honest_tail honest, fun positive => absurd positive sys_err_not_positive⟩
  · cases ran

theorem request_expected {left : Nat} (small : blocks file < 65536) (honest : Honest file events)
    (ran : request msg expected left remport events = some response) :
    Expected file expected response := by
  induction left generalizing remport events with
  | zero =>
      cases ran
      exact ⟨honest, fun positive => absurd positive sys_err_not_positive⟩
  | succ left induction =>
      obtain ⟨first, sent, goesOn⟩ := Option.bind_eq_some_iff.mp ran
      have right := send_expected small honest sent
      split_ifs at goesOn
      · cases goesOn
        exact right
      · cases goesOn
        exact right
      · exact induction right.honest goesOn

end Blocks

section Buffers

variable {bufs : List (Nat × Nat)} {file : List UInt8} {before : Memory} {p : Progress}

/-- The next byte goes to the next place of the current buffer. -/
structure Placed (bufs : List (Nat × Nat)) (p : Progress) : Prop where
  split : ∃ front buf back, bufs = front ++ buf :: back ∧ p.currBufInd = front.length ∧
    p.currUsed ≤ buf.2 ∧ p.currBuf = buf.1 + p.currUsed ∧
    p.filesiz = (cells front).length + p.currUsed

structure Stored (bufs : List (Nat × Nat)) (file : List UInt8) (before : Memory) (p : Progress) :
    Prop where
  placed : Placed bufs p
  filled : Filled before p.mem (cells bufs) file p.filesiz

theorem stored_start (some : bufs ≠ []) (file : List UInt8) (before : Memory) :
    Stored bufs file before ⟨before, (bufs.getD 0 (0, 0)).1, 0, 0, 0⟩ := by
  cases bufs with
  | nil => exact absurd rfl some
  | cons buf back =>
      exact ⟨⟨[], buf, back, rfl, rfl, Nat.zero_le _, rfl, rfl⟩, filled_start _ _ _⟩

theorem stored_small (stored : Stored bufs file before p) : p.filesiz ≤ (cells bufs).length := by
  obtain ⟨front, buf, back, rfl, _, inside, _, size⟩ := stored.placed.split
  have whole : cells (front ++ buf :: back) = cells (front ++ [buf]) ++ cells back := by
    rw [← cells_append, List.append_assoc]
    rfl
  rw [whole, List.length_append, cells_snoc]
  omega

theorem stored_put {front back : List (Nat × Nat)} {buf : Nat × Nat} {byte : UInt8}
    (apart : (cells bufs).Nodup) (split : bufs = front ++ buf :: back)
    (index : p.currBufInd = front.length) (room : p.currUsed < buf.2)
    (current : p.currBuf = buf.1 + p.currUsed)
    (size : p.filesiz = (cells front).length + p.currUsed)
    (filled : Filled before p.mem (cells bufs) file p.filesiz)
    (next : file[p.filesiz]? = some byte) :
    Stored bufs file before (p.put byte) := by
  have here : (cells bufs)[p.filesiz]? = some p.currBuf := by
    rw [split, size, current]
    exact cell_at room
  refine ⟨⟨front, buf, back, split, index, room, ?_, ?_⟩, filled_next apart filled here next⟩
  · change p.currBuf + 1 = buf.1 + (p.currUsed + 1)
    omega
  · change p.filesiz + 1 = (cells front).length + (p.currUsed + 1)
    omega

/-- Behind a buffer that is full, the next byte is the first one of the next buffer. -/
theorem stored_put_next {front back : List (Nat × Nat)} {buf buf' : Nat × Nat} {byte : UInt8}
    (apart : (cells bufs).Nodup) (split : bufs = front ++ buf :: buf' :: back)
    (index : p.currBufInd = front.length) (full : p.currUsed = buf.2) (room : 0 < buf'.2)
    (size : p.filesiz = (cells front).length + p.currUsed)
    (filled : Filled before p.mem (cells bufs) file p.filesiz)
    (next : file[p.filesiz]? = some byte) :
    Stored bufs file before ((p.nextBuf bufs).put byte) := by
  have again : bufs = (front ++ [buf]) ++ buf' :: back := by
    rw [split, List.append_assoc]
    rfl
  have index' : (p.nextBuf bufs).currBufInd = (front ++ [buf]).length := by
    rw [List.length_append, List.length_singleton, ← index]
    rfl
  have start : (p.nextBuf bufs).currBuf = buf'.1 + (p.nextBuf bufs).currUsed := by
    change (bufs.getD (p.currBufInd + 1) (0, 0)).1 = buf'.1
    rw [split, index]
    simp
  have size' : (p.nextBuf bufs).filesiz =
      (cells (front ++ [buf])).length + (p.nextBuf bufs).currUsed := by
    rw [cells_snoc]
    change p.filesiz = (cells front).length + buf.2 + 0
    omega
  have same : Filled before (p.nextBuf bufs).mem (cells bufs) file (p.nextBuf bufs).filesiz :=
    filled
  exact stored_put apart again index' room start size' same next

/-- The bytes of a block follow on those that are stored, until the buffers are full. -/
theorem copy_block {bytes : List UInt8} (apart : (cells bufs).Nodup)
    (sized : ∀ buf ∈ bufs, buf.2 ≠ 0) (stored : Stored bufs file before p)
    (follow : bytes <+: file.drop p.filesiz) :
    Stored bufs file before (copyBlock bufs bytes p).1 ∧
      ((copyBlock bufs bytes p).2 = true →
        (copyBlock bufs bytes p).1.filesiz = (cells bufs).length ∧
          (copyBlock bufs bytes p).1.filesiz < file.length) ∧
      ((copyBlock bufs bytes p).2 = false →
        (copyBlock bufs bytes p).1.filesiz = p.filesiz + bytes.length) := by
  induction bytes generalizing p with
  | nil => exact ⟨stored, fun full => absurd full Bool.false_ne_true, fun _ => rfl⟩
  | cons byte bytes induction =>
      obtain ⟨rest, same⟩ := follow
      have next : file[p.filesiz]? = some byte := by
        have first := congrArg (fun rest => rest[0]?) same
        simpa using first.symm
      have behind : bytes <+: file.drop (p.filesiz + 1) := by
        refine ⟨rest, ?_⟩
        have tails := congrArg List.tail same
        simpa using tails
      obtain ⟨front, buf, back, split, index, inside, current, size⟩ := stored.placed.split
      have here : bufs.getD p.currBufInd (0, 0) = buf := by
        rw [split, index]
        simp
      rw [copyBlock, here]
      by_cases full : buf.2 ≤ p.currUsed
      swap
      · rw [if_neg full]
        have put :=
          stored_put apart split index (Nat.lt_of_not_le full) current size stored.filled next
        obtain ⟨kept, ends, goesOn⟩ := induction put behind
        refine ⟨kept, ends, fun more => (goesOn more).trans ?_⟩
        rw [List.length_cons]
        change p.filesiz + 1 + bytes.length = _
        omega
      rw [if_pos full]
      cases back with
      | nil =>
          have last : bufs.length ≤ p.currBufInd + 1 := by
            rw [split, index, List.length_append, List.length_singleton]
          rw [if_pos last]
          refine ⟨stored, fun _ => ⟨?_, (List.getElem?_eq_some_iff.mp next).1⟩,
            fun more => absurd more.symm Bool.false_ne_true⟩
          rw [split, cells_snoc]
          change p.filesiz = _
          omega
      | cons buf' back =>
          have more : ¬bufs.length ≤ p.currBufInd + 1 := by
            rw [split, index, List.length_append, List.length_cons, List.length_cons]
            omega
          rw [if_neg more]
          have room : 0 < buf'.2 := Nat.pos_of_ne_zero (sized buf' (by rw [split]; simp))
          have put := stored_put_next apart split index (Nat.le_antisymm inside full) room size
            stored.filled next
          obtain ⟨kept, ends, goesOn⟩ := induction put behind
          refine ⟨kept, ends, fun more => (goesOn more).trans ?_⟩
          rw [List.length_cons]
          change p.filesiz + 1 + bytes.length = _
          omega

end Buffers

section Transfers

variable {bufs : List (Nat × Nat)} {file : List UInt8} {before : Memory}

/-- The bytes of a block of the file -/
def piece (file : List UInt8) (block : Nat) : List UInt8 :=
  (file.drop (tftpMaxdata * (block - 1))).take tftpMaxdata

theorem data_length (file : List UInt8) (block : Nat) :
    (data file block).length = (piece file block).length + 4 := by
  simp [data, piece, htons]

theorem data_bytes (file : List UInt8) (block : Nat) : (data file block).drop 4 = piece file block :=
  rfl

theorem piece_length (file : List UInt8) (block : Nat) :
    (piece file block).length = min tftpMaxdata (file.length - tftpMaxdata * (block - 1)) := by
  rw [piece, List.length_take, List.length_drop]

/-- In front of a block all others are stored, so that what is returned is the file as far as the
buffers go. -/
theorem transfer_downloads (small : blocks file < 65536) (apart : (cells bufs).Nodup)
    (sized : ∀ buf ∈ bufs, buf.2 ≠ 0) {events : List Io} {msg : Message} {expected remport : Nat}
    {p p' : Progress} {n : Int} (honest : Honest file events) (some : 1 ≤ expected)
    (bound : expected ≤ blocks file) (stored : Stored bufs file before p)
    (place : p.filesiz = tftpMaxdata * (expected - 1))
    (ran : transfer bufs msg expected remport p events = .some (n, p')) (good : 0 ≤ n) :
    Stored bufs file before p' ∧ n = p'.filesiz ∧
      p'.filesiz = min file.length (cells bufs).length := by
  induction measured : events.length using Nat.strong_induction_on
    generalizing events msg expected remport p with
  | _ length induction =>
  subst measured
  have refused : ¬(0 : Int) ≤ sysErr := by decide
  rw [transfer] at ran
  split at ran
  · cases ran
  rename_i response requested
  have right := request_expected small honest requested
  split at ran
  swap
  · cases ran
    exact absurd good refused
  rename_i positive
  obtain ⟨block, size⟩ := right.block positive
  have dlen : response.n.toNat - 4 = (piece file expected).length := by
    rw [size, block, Int.toNat_natCast, data_length, Nat.add_sub_cancel]
  have bytes : (response.inmsg.drop 4).take (piece file expected).length = piece file expected := by
    rw [block, data_bytes, List.take_length]
  have follow : piece file expected <+: file.drop p.filesiz := by
    rw [place]
    exact List.take_prefix _ _
  obtain ⟨kept, ends, goesOn⟩ := copy_block apart sized stored follow
  simp only [dlen, bytes] at ran
  have length := piece_length file expected
  generalize copyBlock bufs (piece file expected) p = copied at *
  obtain ⟨p₁, full⟩ := copied
  have smaller := stored_small kept
  unfold blocks at bound
  rw [← place] at length
  have started : p.filesiz ≤ file.length := by
    have whole := Nat.div_mul_le_self file.length tftpMaxdata
    unfold tftpMaxdata at *
    omega
  cases full with
  | true =>
      obtain ⟨all, less⟩ := ends rfl
      cases ran
      exact ⟨kept, rfl, by rw [all] at less ⊢; omega⟩
  | false =>
      have more := goesOn rfl
      dsimp only at ran more kept smaller
      rw [if_neg Bool.false_ne_true] at ran
      by_cases last : (piece file expected).length < 512
      · rw [if_pos last] at ran
        have whole : p₁.filesiz = file.length := by
          unfold tftpMaxdata at length
          omega
        split at ran
        · split at ran
          · split at ran
            · cases ran
              exact ⟨kept, rfl, by omega⟩
            · cases ran
              exact absurd good refused
          · cases ran
        · cases ran
      · rw [if_neg last] at ran
        have below : expected + 1 < 65536 := by
          unfold blocks at small
          unfold tftpMaxdata at *
          omega
        rw [Nat.mod_eq_of_lt below] at ran
        refine induction _ (request_shorter requested positive) right.honest
          (Nat.le_add_left 1 _) ?_
          kept ?_ ran rfl
        · unfold blocks
          unfold tftpMaxdata at *
          omega
        · unfold tftpMaxdata at *
          omega

end Transfers

section Results

/-- A download into buffers that share no byte is the file, as far as the buffers go. -/
theorem tftp_download_is_file {file filename : List UInt8} (small : blocks file < 65536)
    {bufs : List (Nat × Nat)} (apart : (cells bufs).Nodup) {events : List Io}
    (delivered : Delivered file filename events) {serverip : Nat} {clock : Option Nat}
    {register : Nat → Int} {mem mem' : Memory} {n : Int}
    (ran : tftpgetMb bufs serverip (some filename) clock register mem events = some (n, mem'))
    (good : 0 ≤ n) : Downloaded file bufs n mem mem' := by
  have refused : ¬(0 : Int) ≤ sysErr := by decide
  unfold tftpgetMb at ran
  dsimp only at ran
  split at ran
  · cases ran
    exact absurd good refused
  rename_i given
  split at ran
  · cases ran
    exact absurd good refused
  rename_i proper
  split at ran
  · cases ran
    exact absurd good refused
  cases clock with
  | none =>
      cases ran
      exact absurd good refused
  | some now =>
      dsimp only at ran
      split at ran
      · cases ran
        exact absurd good refused
      obtain ⟨⟨n', p⟩, transferred, same⟩ := Option.map_eq_some_iff.mp ran
      cases same
      have sized : ∀ buf ∈ bufs, buf.2 ≠ 0 :=
        fun buf member none => proper ⟨buf, member, Or.inr none⟩
      have start := stored_start (fun none => given (Or.inr none)) file mem
      obtain ⟨stored, value, size⟩ := transfer_downloads small apart sized
        (honest_of_delivered delivered) (Nat.le_refl 1) (Nat.succ_le_succ (Nat.zero_le _)) start rfl
        transferred good
      refine ⟨?_, ?_, stored.filled.others⟩
      · rw [value, size]
      · intro k bound place byte at_ next
        rw [value, Int.toNat_natCast] at bound
        exact stored.filled.holds k place byte bound at_ next

/-- The only block of a file of two bytes is asked for, received and acknowledged. -/
def twoBytes : List Io :=
  [.send tftpPort (rrq [97]) true, .receive (.datagram 1024 (data [1, 2] 1)),
    .send 1024 (ack 1) true]

theorem two_bytes_delivered : Delivered [1, 2] [97] twoBytes := by
  intro front rest port msg split
  rcases front with _ | ⟨first, _ | ⟨second, _ | ⟨third, front⟩⟩⟩
  · cases split
  · cases split
    exact ⟨_, _, _, List.mem_cons_self, .first⟩
  · cases split
  · have length := congrArg List.length split
    simp [twoBytes] at length

theorem two_bytes_run (bufs : List (Nat × Nat)) (p : Progress) :
    transfer bufs (rrq [97]) 1 tftpPort p twoBytes =
      some (((copyBlock bufs [1, 2] p).1.filesiz : Int), (copyBlock bufs [1, 2] p).1) := by
  rw [transfer]
  change (if (copyBlock bufs [1, 2] p).2 = true then some (_, _) else some (_, _)) = _
  split <;> rfl

/-- Two buffers of one byte each -/
theorem tftp_download_is_file_apart : Downloaded [1, 2] [(100, 1), (200, 1)] 2 (fun _ => 0)
    (Function.update (Function.update (fun _ => 0) 100 1) 200 2) := by
  have ran : tftpgetMb [(100, 1), (200, 1)] 1 (some [97]) (some 0) (fun _ => 0) (fun _ => 0)
      twoBytes = some (2, Function.update (Function.update (fun _ => 0) 100 1) 200 2) := by
    unfold tftpgetMb
    dsimp only
    rw [two_bytes_run]
    rfl
  exact tftp_download_is_file (by decide) (by decide) two_bytes_delivered ran (by decide)

/-- The second byte goes to the place of the first one when the buffers are the same. -/
theorem tftp_download_not_file : ¬∀ (file filename : List UInt8) (bufs : List (Nat × Nat))
    (events : List Io) (serverip : Nat) (clock : Option Nat) (register : Nat → Int)
    (mem mem' : Memory) (n : Int), blocks file < 65536 → Delivered file filename events →
    tftpgetMb bufs serverip (some filename) clock register mem events = some (n, mem') → 0 ≤ n →
    Downloaded file bufs n mem mem' := by
  intro always
  have ran : tftpgetMb [(100, 1), (100, 1)] 1 (some [97]) (some 0) (fun _ => 0) (fun _ => 0)
      twoBytes = some (2, Function.update (Function.update (fun _ => 0) 100 1) 100 2) := by
    unfold tftpgetMb
    dsimp only
    rw [two_bytes_run]
    rfl
  have downloaded := always [1, 2] [97] _ twoBytes 1 (some 0) (fun _ => 0) (fun _ => 0) _ 2
    (by decide) two_bytes_delivered ran (by decide)
  have first := downloaded.holds 0 (by decide) 100 1 rfl rfl
  rw [Function.update_self] at first
  exact absurd first (by decide)

end Results

end Xinu.Net.Tftp
