import Xinu.Rds.Steps

/-!
# The request semaphore

`rd_reqsem` counts the requests that `rdsprocess` has not taken, as long as no SYNC request is
queued: `rdscontrol` resumes `rdsprocess` instead of signalling the semaphore, and `rdsprocess` is
not suspended.
-/

namespace Xinu.Rds.Counting

open Xinu.Rds.Device Xinu.Rds.Driver Xinu.Rds.Lists Xinu.Rds.Steps

set_option autoImplicit false

/-- `rdscontrol` puts a SYNC request into the queue. -/
def queuesSync (x : Machine) : Event → Bool
  | .step pid =>
      match x.calls pid with
      | some ⟨.sync, .avail, _, _⟩ => true
      | _ => false
  | _ => false

def signals (x : Machine) (event : Event) : Bool := orderly x event && !queuesSync x event

/-- What `rd_reqsem` is for. -/
structure CountsRequests (x : Machine) (queue : List Ptr) : Prop where
  counted : x.driver ≠ .blocked → x.reqsem = (ahead x.driver queue).length
  waits : x.driver = .blocked → queue = []
  serves : x.driver = .serve → queue ≠ []

variable {x x' : Machine} {queue cache free queue' cache' free' : List Ptr} {p : Ptr}

section Steps

theorem counts_congr (counts : CountsRequests x queue) (reqsem : x'.reqsem = x.reqsem)
    (driver : x'.driver = x.driver) : CountsRequests x' queue := by
  refine ⟨?_, ?_, ?_⟩
  · rw [driver, reqsem]
    exact counts.counted
  · rw [driver]
    exact counts.waits
  · rw [driver]
    exact counts.serves

theorem counts_signalled (base : Base x queue cache free) (counts : CountsRequests x queue)
    (reqsem : x'.reqsem = x.reqsem + 1)
    (driver : x'.driver = if x.reqsem < 0 then .serve else x.driver) :
    CountsRequests x' (queue ++ [p]) := by
  have filled : queue ++ [p] ≠ [] := List.append_ne_nil_of_right_ne_nil _ (List.cons_ne_nil _ _)
  by_cases blocked : x.driver = .blocked
  · have count := base.blocked blocked
    have empty := counts.waits blocked
    rw [count] at driver reqsem
    have serves : x'.driver = .serve := driver
    refine ⟨fun _ => ?_, ?_, fun _ => filled⟩
    · rw [serves, reqsem, empty]
      rfl
    · simp [serves]
  · have low := (base.counted blocked).1
    rw [if_neg (by omega)] at driver
    refine ⟨fun _ => ?_, fun isBlocked => ?_, fun _ => filled⟩
    · rw [driver, ahead_append base.serving, reqsem, counts.counted blocked]
      simp
    · exact absurd (driver ▸ isBlocked) blocked

/-- `rdsprocess` goes on, with the same requests ahead of it. -/
theorem counts_moves (counts : CountsRequests x queue) {driver : Service}
    (reqsem : x'.reqsem = x.reqsem) (moves : x'.driver = driver) (running : x.driver ≠ .blocked)
    (runs : driver ≠ .blocked) (further : driver ≠ .serve)
    (left : (ahead driver queue').length = (ahead x.driver queue).length) :
    CountsRequests x' queue' := by
  refine ⟨fun _ => ?_, ?_, ?_⟩
  · rw [moves, left, reqsem]
    exact counts.counted running
  · rw [moves]
    exact fun isBlocked => absurd isBlocked runs
  · rw [moves]
    exact fun serves => absurd serves further

theorem counts_waits (counts : CountsRequests x queue) (driver : x.driver = .wait) :
    CountsRequests { x with
      reqsem := x.reqsem - 1
      driver := if x.reqsem - 1 < 0 then .blocked else .serve } queue := by
  have counted := counts.counted (by simp [driver])
  rw [driver] at counted
  simp only [ahead] at counted
  by_cases none_left : x.reqsem - 1 < 0
  · have empty : queue = [] := List.length_eq_zero_iff.mp (by omega)
    refine ⟨fun running => ?_, fun _ => empty, fun serves => ?_⟩
    · simp [none_left] at running
    · simp [none_left] at serves
  · have filled : queue ≠ [] := List.ne_nil_of_length_pos (by omega)
    refine ⟨fun _ => ?_, fun isBlocked => ?_, fun _ => filled⟩
    · simp only [if_neg none_left, ahead, List.length_tail]
      omega
    · simp [none_left] at isBlocked

theorem counts_step {event : Event} {out : Option Return} (may : signals x event = true)
    (base : Base x queue cache free) (counts : CountsRequests x queue)
    (step : Step x queue cache free event x' out queue' cache' free') :
    CountsRequests x' queue' := by
  cases step with
  | cached => exact counts
  | queued => exact counts
  | waits => exact counts_congr counts rfl rfl
  | replaced => exact counts_congr counts rfl rfl
  | reused => exact counts_signalled base counts rfl rfl
  | allocatesRead => exact counts_signalled base counts rfl rfl
  | allocatesWrite => exact counts_signalled base counts rfl rfl
  | allocatesSync called => simp [signals, queuesSync, called] at may
  | refused => exact counts_congr counts rfl rfl
  | acknowledged => exact counts_congr counts rfl rfl
  | copied => exact counts_congr counts rfl rfl
  | returns => exact counts_congr counts rfl rfl
  | turns => exact counts
  | wait driver => exact counts_waits counts driver
  | serveRead driver split =>
      exact counts_moves counts rfl rfl (by simp [driver]) (by simp) (by simp) (by rw [driver]; rfl)
  | serveWrite driver split op after =>
      subst split
      exact counts_moves counts rfl rfl (by simp [driver]) (by simp) (by simp) (by rw [driver]; rfl)
  | serveSync driver split =>
      rw [Machine.send_eq]
      exact counts_moves counts rfl rfl (by simp [driver]) (by simp) (by simp) (by rw [driver]; rfl)
  | reading driver split =>
      subst split
      exact counts_moves counts rfl rfl (by simp [driver]) (by simp) (by simp) (by rw [driver]; rfl)
  | notify driver =>
      rw [Machine.send_eq]
      exact counts_moves counts rfl rfl (by simp [driver]) (by simp) (by simp) (by rw [driver]; rfl)
  | others driver =>
      exact counts_moves counts rfl rfl (by simp [driver]) (by simp) (by simp) (by rw [driver]; rfl)
  | writing driver =>
      exact counts_moves counts rfl rfl (by simp [driver]) (by simp) (by simp) (by rw [driver]; rfl)
  | synced driver split =>
      subst split
      exact counts_moves counts rfl rfl (by simp [driver]) (by simp) (by simp) (by rw [driver]; rfl)
  | sleep driver =>
      exact counts_moves counts rfl rfl (by simp [driver]) (by simp) (by simp) (by rw [driver]; rfl)
  | message =>
      rw [Machine.send_eq]
      exact counts_congr counts rfl rfl
  | takes => exact counts_congr counts rfl rfl

end Steps

section Runs

/-- A device that has just been opened, on cleared memory. -/
def blank : Machine :=
  started
    { rdState := .free
      rdNext := fun _ => .null
      rdPrev := fun _ => .null
      buff := fun _ => ⟨.other, 0, 0, .invalid, 0, fun _ => 0⟩
      rdFree := .null }
    (fun _ => none) fun _ _ => 0

end Runs

end Xinu.Rds.Counting
