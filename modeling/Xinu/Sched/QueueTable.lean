import Xinu.Sched.SharedQueues

/-!
# The making of queues

`newqueue` hands out the entries of `queuetab` behind those of the processes, two at a time. Its
static variable and the links of the table are of type `qid16`. An index is written to wherever it
lies, so that `written` tells whether the calls stayed inside of the table.
-/

namespace Xinu.Sched.QueueTable

open Xinu.Kernel.State (sysErr)
open Xinu.Sched.Queues (empty minkey)
open Xinu.Sched.SharedQueues (Qentry Queuetab maxkey)

set_option autoImplicit false

section Definitions

/-- The value of a `qid16` -/
def qid16 (value : Int) : Int := (value + 32768) % 65536 - 32768

def queuehead (q : Int) : Int := q

def queuetail (q : Int) : Int := q + 1

structure Allocator where
  nextqid : Int
  queuetab : Queuetab
  written : List Int

variable (nproc nsem : Nat)

def nqent : Int := nproc + 4 + nsem + nsem

def isbadqid (q : Int) : Prop := q < 0 ∨ nqent nproc nsem - 1 ≤ q

def isempty (t : Queuetab) (q : Int) : Prop := (nproc : Int) ≤ t.qnext (queuehead q)

def newqueue (s : Allocator) : Int × Allocator :=
  let q := s.nextqid
  if nqent nproc nsem < q then (sysErr, s)
  else
    (q,
      { nextqid := qid16 (q + 2)
        queuetab := (s.queuetab.set (queuehead q)
          { qkey := maxkey, qnext := qid16 (queuetail q), qprev := empty }).set (queuetail q)
          { qkey := minkey, qnext := empty, qprev := qid16 (queuehead q) }
        written := s.written ++ [queuehead q, queuetail q] })

/-- Before the first call the table has any content. -/
def initially (t : Queuetab) : Allocator := ⟨qid16 nproc, t, []⟩

def after (t : Queuetab) : Nat → Allocator
  | 0 => initially nproc t
  | count + 1 => (newqueue nproc nsem (after t count)).2

/-- What the call behind the first `count` ones returns -/
def returned (t : Queuetab) (count : Nat) : Int := (newqueue nproc nsem (after nproc nsem t count)).1

/-- The entries of a queue are in the table behind those of the processes. -/
structure InTable (q : Int) : Prop where
  head : (nproc : Int) ≤ queuehead q ∧ queuehead q < nqent nproc nsem
  tail : (nproc : Int) ≤ queuetail q ∧ queuetail q < nqent nproc nsem

/-- No entry belongs to both queues. -/
def Apart (q other : Int) : Prop :=
  queuehead q ≠ queuehead other ∧ queuehead q ≠ queuetail other ∧
    queuetail q ≠ queuehead other ∧ queuetail q ≠ queuetail other

/-- A call makes a queue of its own or fails and changes nothing. -/
def Allocates (t : Queuetab) (count : Nat) : Prop :=
  returned nproc nsem t count = sysErr ∧ after nproc nsem t (count + 1) = after nproc nsem t count ∨
    InTable nproc nsem (returned nproc nsem t count) ∧
      ∀ earlier < count, returned nproc nsem t earlier ≠ sysErr →
        Apart (returned nproc nsem t count) (returned nproc nsem t earlier)

/-- What is known after `count` calls. -/
structure Kept (t : Queuetab) (count : Nat) : Prop where
  calls : ∀ call < count, Allocates nproc nsem t call
  inside : ∀ i ∈ (after nproc nsem t count).written, 0 ≤ i ∧ i < nqent nproc nsem
  good : ∀ call < count, returned nproc nsem t call ≠ sysErr →
    ¬isbadqid nproc nsem (returned nproc nsem t call) ∧
      isempty nproc (after nproc nsem t count).queuetab (returned nproc nsem t call)

/-- There are entries for the queues, and a `qid16` holds the index of the last of them. -/
def Fits (count : Nat) : Prop := count ≤ nsem + 2 ∧ (0 < count → nproc + 2 * count ≤ 32768)

end Definitions

section Calls

variable {nproc nsem count call : Nat} {t : Queuetab}

theorem qid16_small {value : Int} (above : -32768 ≤ value) (below : value < 32768) :
    qid16 value = value := by
  unfold qid16
  omega

theorem newqueue_accepts {s : Allocator} (room : s.nextqid ≤ nqent nproc nsem) :
    newqueue nproc nsem s = (s.nextqid,
      { nextqid := qid16 (s.nextqid + 2)
        queuetab := (s.queuetab.set (queuehead s.nextqid)
          { qkey := maxkey, qnext := qid16 (queuetail s.nextqid), qprev := empty }).set
          (queuetail s.nextqid)
          { qkey := minkey, qnext := empty, qprev := qid16 (queuehead s.nextqid) }
        written := s.written ++ [queuehead s.nextqid, queuetail s.nextqid] }) :=
  if_neg (Int.not_lt.mpr room)

/-- A call that takes an entry that is none of the table makes no queue. -/
theorem not_allocates (room : (after nproc nsem t call).nextqid ≤ nqent nproc nsem)
    (outside : ¬InTable nproc nsem (after nproc nsem t call).nextqid) :
    ¬Allocates nproc nsem t call := by
  have taken : returned nproc nsem t call = (after nproc nsem t call).nextqid := by
    rw [returned, newqueue_accepts room]
  rintro (⟨_, same⟩ | ⟨inTable, _⟩)
  · have lengths := congrArg (fun s : Allocator => s.written.length) same
    simp [after, newqueue_accepts room] at lengths
  · rw [taken] at inTable
    exact outside inTable

theorem fits_pred (fits : Fits nproc nsem (count + 1)) : Fits nproc nsem count := by
  unfold Fits at *
  omega

/-- As long as the queues fit, the next id is that of the next queue. -/
theorem next_room (fits : Fits nproc nsem (count + 1)) :
    qid16 (nproc + 2 * count) = nproc + 2 * count ∧
      (nproc : Int) + 2 * count ≤ nqent nproc nsem := by
  unfold Fits at fits
  refine ⟨?_, ?_⟩
  · apply qid16_small <;> omega
  · unfold nqent
    omega

/-- Each call takes the next two entries, and the queues that are made stay empty. -/
theorem after_fits (t : Queuetab) (fits : Fits nproc nsem count) :
    (after nproc nsem t count).nextqid = qid16 (nproc + 2 * count) ∧
      (∀ i ∈ (after nproc nsem t count).written, (nproc : Int) ≤ i ∧ i < nproc + 2 * count) ∧
      ∀ call < count, (after nproc nsem t count).queuetab.qnext (nproc + 2 * call) =
        nproc + 2 * call + 1 := by
  induction count with
  | zero => exact ⟨by simp [after, initially], by simp [after, initially], by simp⟩
  | succ count induction =>
      obtain ⟨next, written, links⟩ := induction (fits_pred fits)
      obtain ⟨small, below⟩ := next_room fits
      rw [small] at next
      have room : (after nproc nsem t count).nextqid ≤ nqent nproc nsem := by
        rw [next]
        exact below
      rw [after, newqueue_accepts room, next]
      refine ⟨congrArg qid16 (by push_cast; omega), ?_, ?_⟩
      · intro i member
        simp only [List.mem_append, List.mem_cons, List.not_mem_nil, or_false, queuehead,
          queuetail] at member
        push_cast
        rcases member with before | here | behind
        · have bounds := written i before
          omega
        · omega
        · omega
      · intro call bound
        have tail : qid16 (queuetail (nproc + 2 * count)) = nproc + 2 * count + 1 := by
          unfold Fits at fits
          unfold queuetail
          apply qid16_small <;> omega
        rw [Queuetab.qnext_set, Function.update_of_ne (by unfold queuetail; omega),
          Queuetab.qnext_set]
        by_cases last : call = count
        · subst last
          rw [show queuehead (nproc + 2 * call) = nproc + 2 * (call : Int) from rfl,
            Function.update_self, tail]
        · rw [Function.update_of_ne (by unfold queuehead; omega)]
          exact links call (by omega)

theorem returned_fits (t : Queuetab) (fits : Fits nproc nsem (call + 1)) :
    returned nproc nsem t call = nproc + 2 * call := by
  obtain ⟨next, _⟩ := after_fits t (fits_pred fits)
  obtain ⟨small, room⟩ := next_room fits
  rw [← small, ← next] at room
  rw [returned, newqueue_accepts room, next, small]

theorem fits_mono (fits : Fits nproc nsem count) (fewer : call ≤ count) : Fits nproc nsem call := by
  unfold Fits at *
  omega

theorem kept_of_fits (t : Queuetab) (fits : Fits nproc nsem count) : Kept nproc nsem t count := by
  have ids : ∀ call < count, returned nproc nsem t call = nproc + 2 * call :=
    fun call bound => returned_fits t (fits_mono fits bound)
  have places : 2 * (count : Int) ≤ 4 + nsem + nsem := by
    unfold Fits at fits
    omega
  obtain ⟨_, written, links⟩ := after_fits t fits
  refine ⟨?_, ?_, ?_⟩
  · intro call bound
    refine Or.inr ⟨?_, ?_⟩
    · rw [ids call bound]
      constructor <;> simp only [queuehead, queuetail, nqent] <;> omega
    · intro earlier before _
      rw [ids call bound, ids earlier (by omega)]
      unfold Apart queuehead queuetail
      omega
  · intro i member
    have bounds := written i member
    unfold nqent
    omega
  · intro call bound _
    rw [ids call bound]
    refine ⟨?_, ?_⟩
    · unfold isbadqid nqent
      omega
    · rw [isempty, queuehead, links call bound]
      omega

/-- The first call that does not fit is not in order. -/
theorem overrun (t : Queuetab) (fits : Fits nproc nsem count) (full : ¬Fits nproc nsem (count + 1)) :
    ¬Kept nproc nsem t (count + 1) := by
  intro kept
  obtain ⟨next, _⟩ := after_fits t fits
  have allocates := kept.calls count (Nat.lt_succ_self count)
  have room : (after nproc nsem t count).nextqid ≤ nqent nproc nsem := by
    rw [next]
    unfold qid16 nqent
    unfold Fits at fits full
    omega
  by_cases inside : InTable nproc nsem (after nproc nsem t count).nextqid
  swap
  · exact not_allocates room inside allocates
  -- The queue is in the table, and the index of its tail is too large for a link.
  obtain ⟨⟨above, _⟩, ⟨_, below⟩⟩ := inside
  unfold queuehead at above
  unfold queuetail nqent at below
  have last : (after nproc nsem t count).nextqid = 32767 := by
    unfold Fits at fits full
    rw [next] at above below ⊢
    unfold qid16 at above below ⊢
    omega
  have taken : returned nproc nsem t count = 32767 := by rw [returned, newqueue_accepts room, last]
  have empties := (kept.good count (Nat.lt_succ_self count) (by rw [taken]; decide)).2
  rw [isempty, taken, after, newqueue_accepts room, last, Queuetab.qnext_set,
    Function.update_of_ne (by decide), Queuetab.qnext_set, Function.update_self] at empties
  have wrapped : qid16 (queuetail 32767) = -32768 := by decide
  have link : (nproc : Int) ≤ -32768 := wrapped ▸ empties
  omega

end Calls

section Agreement

open Xinu.Sched.Queues (Tables)

/-- As long as the queues fit, the table is the one that the scheduler works on. -/
theorem newqueues_agree [Tables] {count : Nat} (t : Queuetab)
    (fits : Fits Tables.nproc Tables.nsem count) :
    SharedQueues.newqueues t count = (Tables.nproc + 2 * (count : Int),
      (after Tables.nproc Tables.nsem t count).queuetab) := by
  induction count with
  | zero => simp [SharedQueues.newqueues, after, initially]
  | succ count induction =>
      obtain ⟨next, _⟩ := after_fits t (fits_pred fits)
      obtain ⟨small, below⟩ := next_room fits
      rw [small] at next
      have room : (after Tables.nproc Tables.nsem t count).nextqid ≤
          nqent Tables.nproc Tables.nsem := by
        rw [next]
        exact below
      have head : qid16 (queuehead (Tables.nproc + 2 * (count : Int))) =
          Tables.nproc + 2 * (count : Int) := small
      have tail : qid16 (queuetail (Tables.nproc + 2 * (count : Int))) =
          Tables.nproc + 2 * (count : Int) + 1 := by
        unfold Fits at fits
        unfold queuetail
        apply qid16_small <;> omega
      rw [SharedQueues.newqueues, induction (fits_pred fits), SharedQueues.newqueue_good below, after,
        newqueue_accepts room, next, head, tail]
      refine Prod.ext ?_ rfl
      push_cast
      omega

end Agreement

section Results

/-- All calls of `newqueue` are in order exactly when their queues fit. -/
theorem queues_in_table_iff (nproc nsem count : Nat) (t : Queuetab) :
    (∀ calls ≤ count, Kept nproc nsem t calls) ↔ Fits nproc nsem count := by
  constructor
  · intro kept
    by_contra full
    obtain ⟨calls, fits, bound, beyond⟩ : ∃ calls, Fits nproc nsem calls ∧ calls < count ∧
        ¬Fits nproc nsem (calls + 1) := by
      induction count with
      | zero => exact absurd (by unfold Fits; omega) full
      | succ count induction =>
          by_cases before : Fits nproc nsem count
          · exact ⟨count, before, Nat.lt_succ_self count, full⟩
          · obtain ⟨calls, fits, bound, beyond⟩ :=
              induction (fun calls few => kept calls (by omega)) before
            exact ⟨calls, fits, by omega, beyond⟩
    exact overrun t fits beyond (kept (calls + 1) bound)
  · intro fits calls few
    exact kept_of_fits t (fits_mono fits few)

/-- With the configured sizes the call behind those of the kernel gets the index behind the table. -/
theorem queue_behind_table : ¬∀ (nproc nsem count : Nat) (t : Queuetab), Kept nproc nsem t count := by
  intro always
  have fits : Fits 100 100 102 := by
    unfold Fits
    omega
  have full : ¬Fits 100 100 103 := by
    unfold Fits
    omega
  exact overrun ⟨fun _ => ⟨0, 0, 0⟩⟩ fits full (always 100 100 103 _)

end Results

end Xinu.Sched.QueueTable
