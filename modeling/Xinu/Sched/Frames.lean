import Xinu.Sched.Calls

/-!
# What rescheduling leaves alone

`resched` and `ready` change the states of processes, the queues and the current process, and
nothing else that a call keeps.
-/

namespace Xinu.Sched.Frames

open Xinu.Kernel.State (PrState nullproc sysErr ok word32)
open Xinu.Sched.Queues Xinu.Sched.Calls

set_option autoImplicit false

variable {Q : Type} {x y z : Kernel Q} {pid : Int}

/-- The processes keep everything but their states, and their pending ends of calls. -/
structure Scheduled (x y : Kernel Q) : Prop where
  prprio : ∀ pid, (y.proctab pid).prprio = (x.proctab pid).prprio
  prsem : ∀ pid, (y.proctab pid).prsem = (x.proctab pid).prsem
  prparent : ∀ pid, (y.proctab pid).prparent = (x.proctab pid).prparent
  prhasmsg : ∀ pid, (y.proctab pid).prhasmsg = (x.proctab pid).prhasmsg
  prmsg : ∀ pid, (y.proctab pid).prmsg = (x.proctab pid).prmsg
  rest : y.rest = x.rest

theorem Scheduled.refl (x : Kernel Q) : Scheduled x x :=
  ⟨fun _ => rfl, fun _ => rfl, fun _ => rfl, fun _ => rfl, fun _ => rfl, rfl⟩

theorem Scheduled.trans (first : Scheduled x y) (second : Scheduled y z) : Scheduled x z :=
  ⟨fun pid => (second.prprio pid).trans (first.prprio pid),
    fun pid => (second.prsem pid).trans (first.prsem pid),
    fun pid => (second.prparent pid).trans (first.prparent pid),
    fun pid => (second.prhasmsg pid).trans (first.prhasmsg pid),
    fun pid => (second.prmsg pid).trans (first.prmsg pid), second.rest.trans first.rest⟩

theorem scheduled_state (state : PrState) : Scheduled x (x.setState pid state) := by
  refine ⟨?_, ?_, ?_, ?_, ?_, rfl⟩ <;> intro other <;> by_cases same : other = pid
  all_goals simp [Kernel.setState, Kernel.setProc, same]

/-- A change of the queues, the counts and the counters of the kernel. -/
theorem scheduled_of (tab : y.proctab = x.proctab) (rest : y.rest = x.rest) : Scheduled x y :=
  ⟨fun _ => by rw [tab], fun _ => by rw [tab], fun _ => by rw [tab], fun _ => by rw [tab],
    fun _ => by rw [tab], rest⟩

theorem Scheduled.behind (later : Scheduled y z) (tab : y.proctab = x.proctab)
    (rest : y.rest = x.rest) : Scheduled x z := (scheduled_of tab rest).trans later

theorem scheduled_defer_start : Scheduled x (deferStart x) := scheduled_of rfl rfl

theorem scheduled_iterate {f : Kernel Q → Kernel Q} (n : Nat) (keeps : ∀ x, Scheduled x (f x)) :
    Scheduled x (Nat.iterate f n x) := by
  induction n generalizing x with
  | zero => exact .refl x
  | succ n induction => exact (keeps x).trans induction

variable [QueueTable Q]

theorem scheduled_switch : Scheduled x (switch x) := by
  have taken : Scheduled x { x with
      currpid := (QueueTable.dequeue .readylist x.queues).1
      queues := (QueueTable.dequeue .readylist x.queues).2
      preempt := quantum } := scheduled_of rfl rfl
  exact taken.trans (scheduled_state _)

variable [Tables]

theorem scheduled_insert {q : Qid} {key : Int} : Scheduled x (Calls.insert x pid q key) := by
  unfold Calls.insert
  split_ifs
  · exact .refl x
  · exact scheduled_of rfl rfl

theorem scheduled_resched : Scheduled x (resched x) := by
  unfold resched
  split_ifs
  · exact scheduled_of rfl rfl
  · exact .refl x
  · exact (scheduled_state _).trans (scheduled_insert.trans scheduled_switch)
  · exact scheduled_switch

theorem scheduled_ready : Scheduled x (ready x pid) := by
  unfold ready
  split_ifs
  · exact .refl x
  · exact (scheduled_state _).trans (scheduled_insert.trans scheduled_resched)

theorem scheduled_unsleep : Scheduled x (unsleep x pid) := by
  unfold unsleep
  split_ifs
  · exact .refl x
  · exact .refl x
  · exact scheduled_of rfl rfl

theorem unsleep_current : (unsleep x pid).currpid = x.currpid := by
  unfold unsleep
  split_ifs <;> rfl

theorem unsleep_defer : (unsleep x pid).defer = x.defer := by
  unfold unsleep
  split_ifs <;> rfl

theorem scheduled_defer_stop : Scheduled x (deferStop x) := by
  unfold deferStop
  dsimp only
  split_ifs
  · exact .refl x
  · exact .behind scheduled_resched rfl rfl
  · exact scheduled_of rfl rfl

theorem scheduled_ready_first (sem : Int) : Scheduled x (readyFirst sem x) :=
  .behind scheduled_ready rfl rfl

theorem scheduled_release (sem : Int) : Scheduled x (release sem x) := by
  unfold release
  dsimp only
  split_ifs
  · exact .behind scheduled_ready rfl rfl
  · exact scheduled_of rfl rfl

theorem scheduled_drain (sem : Int) (fuel : Nat) : Scheduled x (drain sem fuel x) := by
  induction fuel generalizing x with
  | zero => exact .refl x
  | succ fuel induction =>
      unfold drain
      split_ifs
      · exact .refl x
      · exact (scheduled_ready_first sem).trans induction

theorem scheduled_wakeup_loop (fuel : Nat) : Scheduled x (wakeupLoop fuel x) := by
  induction fuel generalizing x with
  | zero => exact .refl x
  | succ fuel induction =>
      unfold wakeupLoop
      split_ifs
      · exact .behind (scheduled_ready.trans induction) rfl rfl
      · exact .refl x

theorem scheduled_wakeup : Scheduled x (wakeup x) :=
  scheduled_defer_start.trans ((scheduled_wakeup_loop nproc).trans scheduled_defer_stop)

theorem scheduled_time_slice : Scheduled x (timeSlice x) := by
  unfold timeSlice
  dsimp only
  split_ifs
  · exact .behind scheduled_resched rfl rfl
  · exact scheduled_of rfl rfl

/-- The clock handler, behind the mark that its end is pending. -/
theorem scheduled_clock :
    Scheduled (x.setRest x.currpid (some .clock)) (clkhandler x) := by
  unfold clkhandler
  dsimp only
  split_ifs
  · exact .behind scheduled_wakeup rfl rfl
  · exact scheduled_of rfl rfl
  · exact .refl _

end Xinu.Sched.Frames
