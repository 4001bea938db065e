import Xinu.Rds.Comm
import Xinu.Rds.Device

/-!
# Opening the remote disk

`rdsopen` marks the device before it looks at the disk ID, asks the server, and takes the mark back
by hand where it fails. The two exits for an ID that has the wrong length leave the mark.
-/

namespace Xinu.Rds.Opening

open Xinu.Kernel.State (sysErr ok)
open Xinu.Rds.Comm
open Xinu.Rds.Device (RdState)

set_option autoImplicit false

section Definitions

def rdIdlen : Nat := 64

def rdMsgOreq : Nat := 0x0030

/-- The fields of the control block that `rdsopen` and `rdscomm` use. -/
structure Rdscblk extends Client where
  rdState : RdState
  rdId : Nat → UInt8

/-- The loop that copies the disk ID, with the room that is left in `rd_id`. There is no length when
the ID is too long. -/
def copyId (diskid : Nat → UInt8) : Nat → Nat → (Nat → UInt8) → Option Nat × (Nat → UInt8)
  | 0, _, rdId => (none, rdId)
  | room + 1, len, rdId =>
      if diskid len = 0 then (some len, Function.update rdId len (diskid len))
      else copyId diskid room (len + 1) (Function.update rdId len (diskid len))

/-- The network does what `e` says in the exchange with the server. -/
def rdsopen (r : Rdscblk) (diskid : Nat → UInt8) (dvnum : Nat) (e : Exchange) : Rdscblk × Int :=
  if r.rdState ≠ .free then (r, sysErr)
  else
    let r := { r with rdState := .pending }
    match copyId diskid rdIdlen 0 r.rdId with
    | (none, rdId) => ({ r with rdId := rdId }, sysErr)
    | (some len, rdId) =>
        let r := { r with rdId := rdId }
        if len = 0 then (r, sysErr)
        else
          let (client, retval, resp) := rdscomm r.toClient { e with type := rdMsgOreq }
          let r := { r with toClient := client }
          if retval = sysErr then ({ r with rdState := .free }, sysErr)
          else if retval = timeout then ({ r with rdState := .free }, sysErr)
          else if resp.rdStatus ≠ 0 then ({ r with rdState := .free }, sysErr)
          else ({ r with rdState := .opened }, dvnum)

/-- A disk ID that fits into `rd_id` with its null byte, and is not empty. -/
def ValidId (diskid : Nat → UInt8) : Prop :=
  ∃ len, 0 < len ∧ len < rdIdlen ∧ diskid len = 0 ∧ ∀ i < len, diskid i ≠ 0

/-- The device is free, and the server can accept every valid ID. -/
def Usable (r : Rdscblk) : Prop :=
  r.rdState = .free ∧
    ∀ diskid dvnum, ValidId diskid → ∃ e, (rdsopen r diskid dvnum e).2 = (dvnum : Int)

/-- An open that fails leaves the device usable. -/
def LeavesUsable (r : Rdscblk) (diskid : Nat → UInt8) (dvnum : Nat) (e : Exchange) : Prop :=
  (rdsopen r diskid dvnum e).2 = sysErr → Usable (rdsopen r diskid dvnum e).1

end Definitions

section Copy

variable {diskid : Nat → UInt8} {room len : Nat} {rdId : Nat → UInt8}

/-- The copy ends at the null byte. -/
theorem copy_id_ends {size : Nat} (ends : diskid size = 0) (inside : ∀ i < size, diskid i ≠ 0)
    (behind : len ≤ size) (fits : size < len + room) :
    (copyId diskid room len rdId).1 = some size := by
  induction room generalizing len rdId with
  | zero => omega
  | succ room induction =>
      unfold copyId
      by_cases last : len = size
      · rw [last, if_pos ends]
      · rw [if_neg (inside len (by omega))]
        exact induction (by omega) (by omega)

/-- Where there is a length, it is that of the ID. -/
theorem copy_id_length {size : Nat} (before : ∀ i < len, diskid i ≠ 0)
    (done : (copyId diskid room len rdId).1 = some size) :
    size < len + room ∧ diskid size = 0 ∧ ∀ i < size, diskid i ≠ 0 := by
  induction room generalizing len rdId with
  | zero => cases done
  | succ room induction =>
      unfold copyId at done
      split_ifs at done with ends
      · cases done
        exact ⟨by omega, ends, before⟩
      · have further := induction (fun i below => ?_) done
        · exact ⟨by omega, further.2⟩
        · rcases Nat.lt_succ_iff_lt_or_eq.mp below with earlier | rfl
          · exact before i earlier
          · exact ends

/-- The ID is copied with a length that is not 0 exactly when it is valid. -/
theorem valid_id_iff :
    ValidId diskid ↔ ∃ len, 0 < len ∧ (copyId diskid rdIdlen 0 rdId).1 = some len := by
  constructor
  · rintro ⟨len, positive, fits, ends, inside⟩
    exact ⟨len, positive, copy_id_ends ends inside (Nat.zero_le len) (by omega)⟩
  · rintro ⟨len, positive, done⟩
    obtain ⟨fits, ends, inside⟩ := copy_id_length (fun i below => absurd below (by omega)) done
    exact ⟨len, positive, by omega, ends, inside⟩

end Copy

section Results

variable {r : Rdscblk} {diskid : Nat → UInt8} {dvnum : Nat} {e : Exchange}

/-- With an ID of a wrong length the device stays marked. -/
theorem invalid_pends (free : r.rdState = .free) (invalid : ¬ValidId diskid) :
    (rdsopen r diskid dvnum e).2 = sysErr ∧ (rdsopen r diskid dvnum e).1.rdState = .pending := by
  rw [@valid_id_iff _ r.rdId] at invalid
  unfold rdsopen
  rw [if_neg (not_not.mpr free)]
  dsimp only
  cases copied : copyId diskid rdIdlen 0 r.rdId with
  | mk length rdId =>
      rw [copied] at invalid
      cases length with
      | none => exact ⟨rfl, rfl⟩
      | some len =>
          have empty : len = 0 := by
            by_contra positive
            exact invalid ⟨len, by omega, rfl⟩
          dsimp only
          rw [if_pos empty]
          exact ⟨rfl, rfl⟩

/-- With a valid ID the device is marked free where the exchange fails, and open where it does
not. -/
theorem valid_exchanges (free : r.rdState = .free) (valid : ValidId diskid) :
    (rdsopen r diskid dvnum e).2 = sysErr ∧ (rdsopen r diskid dvnum e).1.rdState = .free ∨
      (rdsopen r diskid dvnum e).2 = dvnum ∧ (rdsopen r diskid dvnum e).1.rdState = .opened := by
  obtain ⟨len, positive, copied⟩ := (@valid_id_iff _ r.rdId).mp valid
  unfold rdsopen
  rw [if_neg (not_not.mpr free)]
  dsimp only
  rw [← Prod.eta (copyId diskid rdIdlen 0 r.rdId), copied]
  dsimp only
  rw [if_neg (by omega)]
  split_ifs
  · exact .inl ⟨rfl, rfl⟩
  · exact .inl ⟨rfl, rfl⟩
  · exact .inl ⟨rfl, rfl⟩
  · exact .inr ⟨rfl, rfl⟩

/-- A server that accepts the first request. -/
def accepted (r : Rdscblk) : Exchange where
  type := rdMsgOreq
  registers := true
  located := true
  reply := { rdType := 0, rdStatus := 0, rdSeq := 0, body := [] }
  rounds := fun _ =>
    { sent := true
      received := .datagram
        { rdType := rdMsgOreq ||| rdMsgResponse, rdStatus := 0, rdSeq := r.rdSeq, body := [] } }

theorem rdscomm_accepted (r : Rdscblk) :
    (rdscomm r.toClient (accepted r)).2.1 = ok ∧
      (rdscomm r.toClient (accepted r)).2.2.rdStatus = 0 := by
  have turns : (accepted r).turns = (accepted r).rounds 0 :: (accepted r).turns.tail := rfl
  have fits : Matches rdMsgOreq
      { rdType := rdMsgOreq ||| rdMsgResponse, rdStatus := 0, rdSeq := r.rdSeq, body := [] } := by
    change toInt16 (rdMsgOreq ||| rdMsgResponse) = _
    decide
  unfold rdscomm
  rw [if_neg (by simp [accepted]), turns]
  dsimp only
  rw [if_neg (by simp [accepted]), retry]
  simp [accepted, fits]

theorem free_usable (free : r.rdState = .free) : Usable r := by
  refine ⟨free, fun diskid dvnum valid => ⟨accepted r, ?_⟩⟩
  obtain ⟨len, positive, copied⟩ := (@valid_id_iff _ r.rdId).mp valid
  obtain ⟨answered, status⟩ := rdscomm_accepted r
  have typed : { accepted r with type := rdMsgOreq } = accepted r := rfl
  unfold rdsopen
  rw [if_neg (not_not.mpr free)]
  dsimp only
  rw [← Prod.eta (copyId diskid rdIdlen 0 r.rdId), copied]
  dsimp only
  rw [if_neg (by omega), typed, answered, if_neg (by decide), if_neg (by decide), status,
    if_neg (not_not.mpr rfl)]

theorem usable_iff (free : r.rdState = .free) :
    LeavesUsable r diskid dvnum e ↔ ValidId diskid := by
  constructor
  · intro leaves
    by_contra invalid
    obtain ⟨failed, pending⟩ := @invalid_pends _ _ dvnum e free invalid
    have released := (leaves failed).1
    rw [pending] at released
    cases released
  · intro valid failed
    rcases @valid_exchanges _ _ dvnum e free valid with ⟨-, released⟩ | ⟨result, -⟩
    · exact free_usable released
    · rw [failed] at result
      have negative : sysErr < 0 := by decide
      omega

/-- An open that fails leaves a free device usable exactly when the ID had between 1 and 63
characters. -/
theorem failed_open_usable_iff (r : Rdscblk) (diskid : Nat → UInt8) (dvnum : Nat) (e : Exchange)
    (free : r.rdState = .free) : LeavesUsable r diskid dvnum e ↔ ValidId diskid :=
  usable_iff free

/-- The device behind `rdsinit`, on cleared memory -/
def initial : Rdscblk where
  rdSeq := 1
  rdRegistered := false
  rdState := .free
  rdId := fun _ => 0

theorem failed_open_usable_iff_initial :
    initial.rdState = .free ∧
      (LeavesUsable initial (fun i => if i < 5 then 120 else 0) 7 (accepted initial) ↔
        ValidId fun i => if i < 5 then 120 else 0) :=
  ⟨rfl, failed_open_usable_iff initial _ 7 _ rfl⟩

/-- The empty string for an ID. -/
theorem failed_open_pends :
    ¬∀ r diskid dvnum e, r.rdState = .free → LeavesUsable r diskid dvnum e := by
  intro always
  obtain ⟨len, positive, -, -, inside⟩ := (usable_iff rfl).mp
    (always initial (fun _ => 0) 7 (accepted initial) rfl)
  exact inside 0 positive rfl

end Results

end Xinu.Rds.Opening
