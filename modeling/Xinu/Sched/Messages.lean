import Xinu.Sched.Priority

/-!
# Messages

A process holds at most one message that it has not read. Over any run, the messages that
`send` put into a process are those that its receives returned, in the same order, and behind
them the one that it holds.
-/

namespace Xinu.Sched.Messages

open Xinu.Kernel.State (PrState nullproc sysErr ok word32)
open Xinu.Sched.Queues Xinu.Sched.Calls Xinu.Sched.Placement Xinu.Sched.Frames
open Xinu.Sched.CallPlacement Xinu.Sched.Priority Xinu.Lib.Interleaving

set_option autoImplicit false

section Definitions

variable {Q : Type}

/-- The kernel with the messages that each process was sent, and those that it received, since
it was created. -/
structure Mail where
  kernel : Kernel QueueLists
  sent : Int → List Nat
  got : Int → List Nat

def held (x : Kernel Q) (pid : Int) : List Nat :=
  if (x.proctab pid).prhasmsg = true then [(x.proctab pid).prmsg] else []

/-- The message that an event puts into a process: `kill` sends one to the parent. -/
def sends [Tables] [QueueTable Q] (x : Kernel Q) (event : Event) (result : Option Int) :
    Option (Int × Nat) :=
  match event with
  | .call (.send pid msg) => if result = some ok then some (pid, msg) else none
  | .call (.kill pid) =>
      if isbadpid x pid ∨ pid = nullproc then none
      else if (send x (x.proctab pid).prparent pid.toNat).2 = some ok then
        some ((x.proctab pid).prparent, pid.toNat)
      else none
  | _ => none

/-- The event ends a call that asks for a message. -/
def Receives (x : Kernel Q) : Event → Prop
  | .call .receive => True
  | .call (.recvtime maxwait) => 0 ≤ maxwait
  | .call .recvclr => True
  | .finish => x.rest x.currpid = some .receive ∨ x.rest x.currpid = some .recvtime
  | _ => False

instance (x : Kernel Q) (event : Event) : Decidable (Receives x event) := by
  unfold Receives
  split <;> infer_instance

/-- The answers of calls that found no message: `recvclr` returns `OK` then. -/
def NoMessage (x : Kernel Q) : Event → Int → Prop
  | .call .recvclr, _ => (x.proctab x.currpid).prhasmsg = false
  | _, value => value = timeout ∨ value = sysErr

instance (x : Kernel Q) (event : Event) (value : Int) : Decidable (NoMessage x event value) := by
  unfold NoMessage
  split <;> infer_instance

/-- The message that a call returns to the current process. -/
def receives (x : Kernel Q) (event : Event) (result : Option Int) : Option Nat :=
  if Receives x event then
    result.bind fun value => if NoMessage x event value then none else some value.toNat
  else none

/-- The process that is new behind an event. -/
def creates (event : Event) (result : Option Int) : Option Int :=
  match event, result with
  | .call (.create _ _), some pid => if pid = sysErr then none else some pid
  | _, _ => none

def append (log : Int → List Nat) (pid : Int) (msg : Nat) : Int → List Nat :=
  Function.update log pid (log pid ++ [msg])

/-- What an event that led to `y` and returned `result` adds to the messages. -/
def record [Tables] (m : Mail) (event : Event) (y : Kernel QueueLists) (result : Option Int) :
    Mail :=
  match creates event result with
  | some pid =>
      { kernel := y
        sent := Function.update m.sent pid []
        got := Function.update m.got pid [] }
  | none =>
      { kernel := y
        sent := (sends m.kernel event result).elim m.sent fun (pid, msg) => append m.sent pid msg
        got := (receives m.kernel event result).elim m.got (append m.got m.kernel.currpid) }

def mailStep [Tables] (m : Mail) (event : Event) : Option Mail :=
  (act m.kernel event).map fun (y, result) => record m event y result

/-- The null process holds no message, and nobody was sent one. -/
def MailStarted [Tables] (m : Mail) : Prop :=
  Started m.kernel ∧ (m.kernel.proctab nullproc).prhasmsg = false ∧ (∀ pid, m.sent pid = []) ∧
    ∀ pid, m.got pid = []

/-- A live process got what it was sent, but for the message that it holds. A receiver that is
not blocked any more holds one. -/
structure Mailbox (x : Kernel QueueLists) (sent got : Int → List Nat) : Prop where
  ledger : ∀ pid, (x.proctab pid).prstate ≠ .free → sent pid = got pid ++ held x pid
  waiting : ∀ pid, (x.proctab pid).prstate ≠ .free → x.rest pid = some .receive →
    (x.proctab pid).prstate = .recv ∨ (x.proctab pid).prhasmsg = true

/-- Nobody's message changes, and a blocked receiver without one stays blocked. -/
def Calm (x y : Kernel Q) : Prop :=
  ∀ pid, (y.proctab pid).prstate ≠ .free →
    (x.proctab pid).prstate ≠ .free ∧ held y pid = held x pid ∧
      (y.proctab pid).prhasmsg = (x.proctab pid).prhasmsg ∧
      ((x.proctab pid).prstate = .recv →
        (y.proctab pid).prstate = .recv ∨ (x.proctab pid).prhasmsg = true) ∧
      (y.rest pid = some .receive → x.rest pid = some .receive ∨
        (y.proctab pid).prstate = .recv ∨ (x.proctab pid).prhasmsg = true)

end Definitions

section Calm

variable {Q : Type} {x y z : Kernel Q} {pid : Int} {n : Int}

theorem Calm.refl (x : Kernel Q) : Calm x x :=
  fun _ live => ⟨live, rfl, rfl, Or.inl, Or.inl⟩

theorem Calm.trans (first : Calm x y) (second : Calm y z) : Calm x z := by
  intro pid live
  obtain ⟨liveY, heldZ, sameZ, recvZ, restZ⟩ := second pid live
  obtain ⟨liveX, heldY, sameY, recvY, restY⟩ := first pid liveY
  refine ⟨liveX, heldZ.trans heldY, sameZ.trans sameY, ?_, ?_⟩
  · intro waits
    rcases recvY waits with waits | message
    · rw [← sameY]
      exact recvZ waits
    · exact Or.inr message
  · intro pending
    rw [← sameY]
    rcases restZ pending with pending | waits | message
    · rcases restY pending with pending | waits | message
      · exact Or.inl pending
      · exact Or.inr (recvZ waits)
      · exact Or.inr (Or.inr (sameY.trans message))
    · exact Or.inr (Or.inl waits)
    · exact Or.inr (Or.inr message)

/-- A change of the queues, the counts and the counters of the kernel. -/
theorem calm_of (tab : y.proctab = x.proctab) (rest : y.rest = x.rest) : Calm x y := by
  intro pid live
  unfold held
  rw [tab, rest] at *
  exact ⟨live, rfl, rfl, Or.inl, Or.inl⟩

theorem Calm.behind (later : Calm y z) (tab : y.proctab = x.proctab) (rest : y.rest = x.rest) :
    Calm x z := (calm_of tab rest).trans later

theorem calm_proc {proc : Procent} (tab : y.proctab = Function.update x.proctab pid proc)
    (rest : y.rest = x.rest)
    (live : proc.prstate ≠ .free → (x.proctab pid).prstate ≠ .free)
    (message : proc.prhasmsg = (x.proctab pid).prhasmsg ∧ proc.prmsg = (x.proctab pid).prmsg)
    (waits : (x.proctab pid).prstate = .recv → proc.prstate ≠ .free →
      proc.prstate = .recv ∨ (x.proctab pid).prhasmsg = true) : Calm x y := by
  intro other liveY
  unfold held
  rw [tab, rest] at *
  by_cases same : other = pid
  · subst same
    rw [Function.update_self] at *
    refine ⟨live liveY, by rw [message.1, message.2], message.1, fun recv => waits recv liveY,
      Or.inl⟩
  · rw [Function.update_of_ne same] at *
    exact ⟨liveY, rfl, rfl, Or.inl, Or.inl⟩

theorem calm_state {state : PrState}
    (live : state ≠ .free → (x.proctab pid).prstate ≠ .free)
    (waits : (x.proctab pid).prstate = .recv → state ≠ .free →
      state = .recv ∨ (x.proctab pid).prhasmsg = true) : Calm x (x.setState pid state) :=
  calm_proc rfl rfl live ⟨rfl, rfl⟩ waits

theorem calm_rest {rest : Option Rest} (other : rest ≠ some .receive) :
    Calm x (x.setRest pid rest) := by
  intro who live
  refine ⟨live, rfl, rfl, Or.inl, ?_⟩
  intro pending
  change Function.update x.rest pid rest who = some .receive at pending
  by_cases same : who = pid
  · subst same
    rw [Function.update_self] at pending
    exact absurd pending other
  · rw [Function.update_of_ne same] at pending
    exact Or.inl pending

theorem calm_iterate {holds : Kernel Q → Prop} {f : Kernel Q → Kernel Q} (turns : Nat)
    (start : holds x) (keeps : ∀ x, holds x → holds (f x) ∧ Calm x (f x)) :
    Calm x (Nat.iterate f turns x) := by
  induction turns generalizing x with
  | zero => exact .refl x
  | succ turns induction =>
      obtain ⟨next, calm⟩ := keeps x start
      exact calm.trans (induction next)

end Calm

section Scheduling

variable [Tables] {x y : Kernel QueueLists} {pid : Int} {n : Int} {q : Qid}

theorem calm_switch (settled : Settled x) (stopped : (x.proctab x.currpid).prstate ≠ .curr) :
    Calm x (switch x) := by
  obtain ⟨entry, rest, list, shape, _⟩ := switch_running settled stopped
  have ready : (x.proctab entry.1).prstate = .ready :=
    ready_of_member settled (show entry ∈ x.queues.queue .readylist by rw [list]; simp)
  rw [shape]
  let taken : Kernel QueueLists := { x with
    currpid := entry.1
    queues := x.queues.set .readylist rest
    preempt := quantum }
  have marked : Calm taken (taken.setState entry.1 .curr) := by
    refine calm_state (fun _ => ?_) (fun waits => ?_)
    · change (x.proctab entry.1).prstate ≠ .free
      rw [ready]
      decide
    · change (x.proctab entry.1).prstate = .recv at waits
      rw [ready] at waits
      cases waits
  exact marked.behind rfl rfl

theorem calm_resched (settled : Settled x) : Calm x (resched x) := by
  unfold resched
  split_ifs with deferred runs above
  · exact calm_of rfl rfl
  · exact .refl x
  · have yielded := yielded_settled (x.proctab x.currpid).prprio settled runs
    have live : ((x.setState x.currpid .ready).proctab x.currpid).prstate ≠ .free := by simp
    rw [insert_good settled.inRange live]
    have steps : Calm x (x.setState x.currpid .ready) := by
      refine calm_state (fun _ => ?_) (fun waits => ?_)
      · rw [runs]
        decide
      · rw [runs] at waits
        cases waits
    exact steps.trans ((calm_switch yielded.1 yielded.2).behind rfl rfl)
  · exact calm_switch settled runs

/-- A blocked receiver is made ready only when it has a message. -/
theorem calm_ready (wakes : Waking pid n x)
    (waits : (x.proctab pid).prstate = .recv → (x.proctab pid).prhasmsg = true) :
    Calm x (ready x pid) := by
  rw [ready_shape wakes]
  have steps : Calm x (x.setState pid .ready) :=
    calm_state (fun _ => wakes.asleep.2.2) (fun recv _ => Or.inr (waits recv))
  exact steps.trans ((calm_resched (inserted_running wakes).settled).behind rfl rfl)

theorem calm_pop_ready (runs : Running n x) (waits : q ≠ .readylist) :
    Calm x (ready (x.setQueues (x.queues.pop q).2) (x.queues.pop q).1) := by
  cases list : x.queues.queue q with
  | nil =>
      rw [pop_nil list, ready_empty]
      exact calm_of rfl rfl
  | cons entry rest =>
      have member : entry.1 ∈ x.queues.pids q := by simp [QueueLists.pids, list]
      have belongs := ((runs.settled.placed.placed entry.1 q).mp member).2
      rw [pop_cons list]
      refine (calm_ready (waking_of_popped runs waits list) ?_).behind rfl rfl
      intro recv
      change (x.proctab entry.1).prstate = .recv at recv
      unfold home at belongs
      rw [recv] at belongs
      cases belongs

theorem calm_release (sem : Int) (runs : Running n x) : Calm x (release sem x) := by
  have counts : Running n (x.setCount sem ((x.semtab sem).scount + 1)) :=
    running_same runs (fun _ => ⟨rfl, rfl⟩) (fun _ => rfl) rfl rfl
  unfold release
  dsimp only
  split_ifs
  · exact (calm_pop_ready counts (by simp)).behind rfl rfl
  · exact calm_of rfl rfl

theorem calm_ready_first (sem : Int) (runs : Running n x) : Calm x (readyFirst sem x) :=
  calm_pop_ready runs (by simp)

theorem calm_drain (sem : Int) (fuel : Nat) (runs : Running 1 x) : Calm x (drain sem fuel x) := by
  induction fuel generalizing x with
  | zero => exact .refl x
  | succ fuel induction =>
      unfold drain
      split_ifs
      · exact .refl x
      · exact (calm_ready_first sem runs).trans (induction (ready_first_running sem runs))

theorem calm_wakeup_loop (fuel : Nat) (runs : Running 1 x) : Calm x (wakeupLoop fuel x) := by
  induction fuel generalizing x with
  | zero => exact .refl x
  | succ fuel induction =>
      unfold wakeupLoop
      split_ifs
      · exact (calm_pop_ready runs (by simp)).trans
          (induction (pop_ready_running runs (by decide) (by simp)))
      · exact .refl x

theorem calm_defer_stop (runs : Running 1 x) : Calm x (deferStop x) := by
  have settled : Settled { x with defer := { x.defer with ndefers := x.defer.ndefers - 1 } } :=
    ⟨runs.settled.placed, runs.settled.current, runs.settled.inRange, runs.settled.null⟩
  unfold deferStop
  dsimp only
  split_ifs
  · exact .refl x
  · exact (calm_resched settled).behind rfl rfl
  · exact calm_of rfl rfl

/-- Deferred work, between `DEFER_START` and `DEFER_STOP`. -/
theorem calm_deferred {work : Kernel QueueLists → Kernel QueueLists} (runs : Running 0 x)
    (keeps : ∀ x, Running 1 x → Running 1 (work x) ∧ Calm x (work x)) :
    Calm x (deferStop (work (deferStart x))) := by
  obtain ⟨worked, calm⟩ := keeps _ (defer_start_running runs)
  exact (calm.behind rfl rfl).trans (calm_defer_stop worked)

theorem calm_wakeup (runs : Running 0 x) : Calm x (wakeup x) :=
  calm_deferred runs fun _ runs => ⟨wakeup_loop_running nproc runs, calm_wakeup_loop nproc runs⟩

theorem calm_clkhandler (runs : Running 0 x) : Calm x (clkhandler x) := by
  have marked : Running 0 (x.setRest x.currpid (some .clock)) :=
    running_same runs (fun _ => ⟨rfl, rfl⟩) (fun _ => rfl) rfl rfl
  have counted : Running 0 ((x.setRest x.currpid (some .clock)).setQueues
      (QueueTable.countDown .sleepq x.queues)) :=
    running_same marked (fun _ => ⟨rfl, rfl⟩) (fun q => count_down_pids q) rfl rfl
  have marks : Calm x (x.setRest x.currpid (some .clock)) := calm_rest (by decide)
  refine marks.trans ?_
  unfold clkhandler
  dsimp only
  split_ifs
  · exact (calm_wakeup counted).behind rfl rfl
  · exact calm_of rfl rfl
  · exact .refl _

theorem calm_time_slice (runs : Running 0 x) : Calm x (timeSlice x) := by
  have counted := fun preempt : Nat => @running_same _ x { x with preempt := preempt } 0 runs
    (fun _ => ⟨rfl, rfl⟩) (fun _ => rfl) rfl rfl
  unfold timeSlice
  dsimp only
  split_ifs
  · exact (calm_resched (counted _).settled).behind rfl rfl
  · exact calm_of rfl rfl

end Scheduling

section Calls

variable [Tables] {x y : Kernel QueueLists} {pid : Int} {result : Option Int}

/-- The current process stops, with a pending end of its call. -/
theorem calm_stopped {proc : Procent} {l : QueueLists} (runs : Running 0 x)
    (notNull : x.currpid ≠ nullproc)
    (moves : home proc = none ∧ l = x.queues ∨
      ∃ q, home proc = some q ∧ Adds x.currpid q x.queues l)
    (tab : y.proctab = Function.update x.proctab x.currpid proc) (queues : y.queues = l)
    (current : y.currpid = x.currpid) (rest : y.rest = x.rest)
    (message : proc.prhasmsg = (x.proctab x.currpid).prhasmsg ∧
      proc.prmsg = (x.proctab x.currpid).prmsg) : Calm x (resched y) := by
  have live : (x.proctab x.currpid).prstate ≠ .free := by
    rw [runs.running]
    decide
  have stops : Calm x y := calm_proc tab rest (fun _ => live) message fun waits => by
    rw [runs.running] at waits
    cases waits
  exact stops.trans (calm_resched (stopped_settled runs notNull moves tab queues current))

theorem calm_sleep_as {prstate : PrState} {key : Int} (runs : Running 0 x)
    (notNull : x.currpid ≠ nullproc) (sleeps : prstate = .sleep ∨ prstate = .rectim) :
    Calm x (sleepAs x prstate key) := by
  refine calm_stopped runs notNull (Or.inr ⟨.sleepq, ?_, insertd_adds key⟩) rfl rfl rfl rfl
    ⟨rfl, rfl⟩
  rcases sleeps with rfl | rfl <;> rfl

theorem calm_sleepms (delay : Nat) (runs : Running 0 x)
    (awake : x.currpid = nullproc → delay = 0) : Calm x (sleepms x delay).1 := by
  unfold sleepms
  split_ifs with zero
  · exact calm_resched runs.settled
  · exact .refl x
  · exact calm_sleep_as runs (fun null => zero (awake null)) (Or.inl rfl)

theorem unsleep_tab (x : Kernel QueueLists) (pid : Int) :
    (unsleep x pid).proctab = x.proctab := by
  unfold unsleep
  split_ifs <;> rfl

theorem calm_resume (pid : Int) (runs : Running 0 x) : Calm x (resume x pid).1 := by
  unfold resume
  split_ifs with bad state
  · exact .refl x
  · exact .refl x
  · have suspended : (x.proctab pid).prstate = .susp := not_not.mp state
    refine calm_ready (waking_of_idle runs (in_range_of bad) (by simp [home, suspended])
      ⟨by rw [suspended]; decide, by rw [suspended]; decide⟩) fun waits => ?_
    rw [suspended] at waits
    cases waits

theorem calm_suspend (pid : Int) (runs : Running 0 x) : Calm x (suspend x pid).1 := by
  unfold suspend
  split_ifs with bad isReady isCurrent
  · exact .refl x
  · refine (calm_state (fun _ => ?_) (fun waits => ?_)).behind rfl rfl
    · change (x.proctab pid).prstate ≠ .free
      rw [isReady]
      decide
    · change (x.proctab pid).prstate = .recv at waits
      rw [isReady] at waits
      cases waits
  · have good : ¬isbadpid x pid := fun isBad => bad (Or.inl isBad)
    have same := runs.settled.current pid (in_range_of good) isCurrent
    subst same
    exact calm_stopped runs (fun null => bad (Or.inr null)) (Or.inl ⟨rfl, rfl⟩) rfl rfl rfl rfl
      ⟨rfl, rfl⟩
  · exact .refl x

theorem calm_chprio (pid newprio : Int) : Calm x (chprio x pid newprio).1 := by
  unfold chprio
  split_ifs with bad
  · exact .refl x
  · exact calm_proc rfl rfl (fun _ => live_of bad) ⟨rfl, rfl⟩ fun waits _ => Or.inl waits

theorem calm_wait (sem : Int) (runs : Running 0 x)
    (awake : x.currpid = nullproc →
      ¬(¬isFreeSem x sem ∧ int32 ((x.semtab sem).scount - 1) < 0)) : Calm x (wait x sem).1 := by
  unfold wait
  split_ifs with free
  · exact .refl x
  · have counts : Running 0 (x.setCount sem ((x.semtab sem).scount - 1)) :=
      running_same runs (fun _ => ⟨rfl, rfl⟩) (fun _ => rfl) rfl rfl
    dsimp only
    split_ifs with negative
    · have below : int32 ((x.semtab sem).scount - 1) < 0 := by
        simpa [Kernel.setCount] using negative
      refine @Calm.behind _ x (x.setCount sem ((x.semtab sem).scount - 1)) _ ?_ rfl rfl
      exact calm_stopped counts (fun null => awake null ⟨free, below⟩)
        (Or.inr ⟨.squeue sem, rfl, enqueue_adds⟩) rfl rfl rfl rfl ⟨rfl, rfl⟩
    · exact calm_of rfl rfl

theorem calm_signaln (sem count : Int) (runs : Running 0 x) : Calm x (signaln x sem count).1 := by
  unfold signaln
  split_ifs
  · exact .refl x
  · exact .refl x
  · refine calm_deferred runs fun x runs => ⟨?_, ?_⟩
    · exact iterate_running _ (fun x runs => release_running sem runs (by decide)) runs
    · exact calm_iterate _ runs fun x runs =>
        ⟨release_running sem runs (by decide), calm_release sem runs⟩

theorem calm_semreset (sem count : Int) (runs : Running 0 x) :
    Calm x (semreset x sem count).1 := by
  unfold semreset
  split_ifs
  · exact .refl x
  · refine @calm_deferred _ x (fun x => (drain sem nproc x).setCount sem count) runs
      fun x runs => ⟨?_, ?_⟩
    · exact running_same (drain_running sem nproc runs) (fun _ => ⟨rfl, rfl⟩) (fun _ => rfl) rfl rfl
    · exact (calm_drain sem nproc runs).trans (calm_of rfl rfl)

theorem calm_semdelete (sem : Int) (runs : Running 0 x) : Calm x (semdelete x sem).1 := by
  unfold semdelete
  split_ifs
  · exact .refl x
  · have unused : Running 0 { x with
        semtab := Function.update x.semtab sem { x.semtab sem with used := false } } :=
      running_same runs (fun _ => ⟨rfl, rfl⟩) (fun _ => rfl) rfl rfl
    dsimp only
    refine Calm.behind (@calm_deferred _ _ (fun y => (Nat.iterate (readyFirst sem)
      (-(x.semtab sem).scount).toNat y).setCount sem
        (if (x.semtab sem).scount < 0 then 1 else (x.semtab sem).scount + 1)) unused
      fun x runs => ⟨?_, ?_⟩) rfl rfl
    · exact running_same (iterate_running _ (fun x runs => ready_first_running sem runs) runs)
        (fun _ => ⟨rfl, rfl⟩) (fun _ => rfl) rfl rfl
    · exact (calm_iterate _ runs fun x runs =>
        ⟨ready_first_running sem runs, calm_ready_first sem runs⟩).trans (calm_of rfl rfl)

theorem calm_kill_end (pid : Int) (runs : Running 0 x) (inRange : InRange pid)
    (notNull : pid ≠ nullproc) : Calm x (killEnd x pid).1 := by
  have freed : ∀ y : Kernel QueueLists, y.proctab = x.proctab → y.rest = x.rest →
      Calm x (y.setState pid .free) := fun y tab rest =>
    (calm_state (fun isLive => absurd rfl isLive) fun _ isLive => absurd rfl isLive).behind tab rest
  unfold killEnd
  split
  · rename_i state
    have same := runs.settled.current pid inRange state
    subst same
    exact calm_stopped runs notNull (Or.inl ⟨rfl, rfl⟩) rfl rfl rfl rfl ⟨rfl, rfl⟩
  · exact freed _ (unsleep_tab x pid) scheduled_unsleep.rest
  · exact freed _ (unsleep_tab x pid) scheduled_unsleep.rest
  · exact freed _ rfl rfl
  · exact freed _ rfl rfl
  · exact freed _ rfl rfl

end Calls

section Mailboxes

variable [Tables] {x y : Kernel QueueLists} {sent got : Int → List Nat} {pid : Int}
  {result : Option Int}

omit [Tables] in
theorem mailbox_calm (mailbox : Mailbox x sent got) (calm : Calm x y) : Mailbox y sent got := by
  refine ⟨fun pid live => ?_, fun pid live pending => ?_⟩
  · obtain ⟨liveX, same, _⟩ := calm pid live
    rw [same]
    exact mailbox.ledger pid liveX
  · obtain ⟨liveX, _, message, stays, rest⟩ := calm pid live
    rw [message]
    rcases rest pending with pendingX | waits | holds
    · rcases mailbox.waiting pid liveX pendingX with waits | holds
      · exact stays waits
      · exact Or.inr holds
    · exact Or.inl waits
    · exact Or.inr holds

omit [Tables] in
theorem append_self (log : Int → List Nat) (msg : Nat) :
    append log pid msg pid = log pid ++ [msg] := Function.update_self _ _ _

omit [Tables] in
theorem append_other {other : Int} (log : Int → List Nat) (msg : Nat) (different : other ≠ pid) :
    append log pid msg other = log other := Function.update_of_ne different _ _

omit [Tables] in
theorem mailbox_stored (mailbox : Mailbox x sent got) (live : (x.proctab pid).prstate ≠ .free)
    (empty : (x.proctab pid).prhasmsg ≠ true) (msg : Nat) :
    Mailbox (x.setProc pid { x.proctab pid with prmsg := msg, prhasmsg := true })
      (append sent pid msg) got := by
  refine ⟨fun other liveThen => ?_, fun other liveThen pending => ?_⟩
  all_goals by_cases same : other = pid
  · subst same
    have before := mailbox.ledger other live
    unfold held at before
    rw [if_neg empty, List.append_nil] at before
    rw [append_self, before]
    simp [held, Kernel.setProc]
  · rw [append_other sent msg same]
    simp only [Kernel.setProc, held, Function.update_of_ne same] at liveThen ⊢
    exact mailbox.ledger other liveThen
  · subst same
    simp [Kernel.setProc]
  · simp only [Kernel.setProc, Function.update_of_ne same] at liveThen ⊢
    exact mailbox.waiting other liveThen pending

/-- `send` reports that a message is refused, or puts it into the process. -/
theorem send_mailbox (runs : Running 0 x) (mailbox : Mailbox x sent got) (pid : Int) (msg : Nat) :
    (send x pid msg).2 = some sysErr ∧ (send x pid msg).1 = x ∧
        (isbadpid x pid ∨ (x.proctab pid).prhasmsg = true) ∨
      (send x pid msg).2 = some ok ∧ ¬(isbadpid x pid ∨ (x.proctab pid).prhasmsg = true) ∧
        Mailbox (send x pid msg).1 (append sent pid msg) got := by
  unfold send
  split_ifs with bad full waits timed
  · exact Or.inl ⟨rfl, rfl, Or.inl bad⟩
  · exact Or.inl ⟨rfl, rfl, Or.inr full⟩
  all_goals
    refine Or.inr ⟨rfl, fun refused => refused.elim bad full, ?_⟩
    have stored := mailbox_stored mailbox (live_of bad) full msg
    have running := stored_running runs pid msg
  · have wakes := waking_of_idle running (in_range_of bad) (by simp [home, Kernel.setProc, waits])
      ⟨by simp [Kernel.setProc, waits], by simp [Kernel.setProc, waits]⟩
    exact mailbox_calm stored (calm_ready wakes fun _ => by simp [Kernel.setProc])
  · have state : ((x.setProc pid { x.proctab pid with prmsg := msg, prhasmsg := true }).proctab
        pid).prstate = .rectim := by simp [Kernel.setProc, timed]
    have wakes := waking_of_unsleep running (in_range_of bad) state
    refine mailbox_calm stored ((calm_ready wakes fun waits => ?_).behind
      (unsleep_tab _ pid) scheduled_unsleep.rest)
    rw [unsleep_tab, state] at waits
    cases waits
  · exact stored

omit [Tables] in
/-- The current process takes the message that it holds. -/
theorem mailbox_taken (mailbox : Mailbox x sent got) (live : (x.proctab x.currpid).prstate ≠ .free)
    (holds : (x.proctab x.currpid).prhasmsg = true) (idle : x.rest x.currpid ≠ some .receive) :
    Mailbox (takeMessage x).1 sent (append got x.currpid (x.proctab x.currpid).prmsg) := by
  refine ⟨fun other liveThen => ?_, fun other liveThen pending => ?_⟩
  all_goals
    unfold takeMessage at liveThen ⊢
    by_cases same : other = x.currpid
  · subst same
    have before := mailbox.ledger x.currpid live
    unfold held at before
    rw [if_pos holds] at before
    rw [append_self, before]
    simp [held, Kernel.setProc]
  · rw [append_other got _ same]
    simp only [Kernel.setProc, held, Function.update_of_ne same] at liveThen ⊢
    exact mailbox.ledger other liveThen
  · exact absurd (same ▸ pending) idle
  · simp only [Kernel.setProc, Function.update_of_ne same] at liveThen ⊢
    exact mailbox.waiting other liveThen pending

omit [Tables] in
theorem mailbox_created {proc : Procent} (mailbox : Mailbox x sent got)
    (empty : proc.prhasmsg = false)
    (tab : y.proctab = Function.update x.proctab pid proc)
    (rest : y.rest = Function.update x.rest pid none) :
    Mailbox y (Function.update sent pid []) (Function.update got pid []) := by
  refine ⟨fun other live => ?_, fun other live pending => ?_⟩
  all_goals by_cases same : other = pid
  · subst same
    simp [held, tab, empty]
  · rw [tab] at live
    simp only [held, tab, Function.update_of_ne same] at live ⊢
    exact mailbox.ledger other live
  · subst same
    simp [rest] at pending
  · rw [tab] at live
    rw [rest] at pending
    simp only [tab, Function.update_of_ne same] at live pending ⊢
    exact mailbox.waiting other live pending

/-- Whether `send` refuses a message is seen in the process table. -/
theorem send_result (x : Kernel QueueLists) (pid : Int) (msg : Nat) :
    (send x pid msg).2 = if isbadpid x pid then some sysErr
      else if (x.proctab pid).prhasmsg = true then some sysErr else some ok := by
  unfold send
  dsimp only
  split_ifs <;> rfl

end Mailboxes

section Events

variable [Tables] {m : Mail} {y : Kernel QueueLists} {event : Event} {call : Call}
  {result : Option Int}

/-- The mailboxes behind an event. -/
def Keeps (m : Mail) (event : Event) (y : Kernel QueueLists) (result : Option Int) : Prop :=
  Mailbox (record m event y result).kernel (record m event y result).sent
    (record m event y result).got

theorem keeps_quiet (mailbox : Mailbox y m.sent m.got) (created : creates event result = none)
    (sent : sends m.kernel event result = none) (got : receives m.kernel event result = none) :
    Keeps m event y result := by
  unfold Keeps record
  rw [created, sent, got]
  exact mailbox

theorem keeps_taken {msg : Nat} (mailbox : Mailbox y m.sent (append m.got m.kernel.currpid msg))
    (created : creates event result = none)
    (sent : sends m.kernel event result = none) (got : receives m.kernel event result = some msg) :
    Keeps m event y result := by
  unfold Keeps record
  rw [created, sent, got]
  exact mailbox

omit [Tables] in
/-- The value of a message is neither `TIMEOUT` nor `SYSERR`. -/
theorem receives_message {x : Kernel QueueLists} {msg : Nat} (asks : Receives x event)
    (holds : (x.proctab x.currpid).prhasmsg = true) :
    receives x event (some (msg : Int)) = some msg := by
  have message : ¬NoMessage x event msg := by
    unfold NoMessage
    split
    · simp [holds]
    · unfold timeout sysErr
      omega
  unfold receives
  rw [if_pos asks, Option.bind_some, if_neg message, Int.toNat_natCast]

omit [Tables] in
theorem receives_none {x : Kernel QueueLists} : receives x event none = none := by
  unfold receives
  split_ifs <;> rfl

omit [Tables] in
theorem receives_refused {x : Kernel QueueLists} {value : Int} (refused : NoMessage x event value) :
    receives x event (some value) = none := by
  unfold receives
  rw [Option.bind_some, if_pos refused, ite_self]

theorem recvtime_keeps (maxwait : Int) (runs : Running 0 m.kernel)
    (mailbox : Mailbox m.kernel m.sent m.got) (idle : m.kernel.rest m.kernel.currpid = none)
    (awake : m.kernel.currpid = nullproc →
      ¬(0 ≤ maxwait ∧ (m.kernel.proctab m.kernel.currpid).prhasmsg = false)) :
    Keeps m (.call (.recvtime maxwait)) (recvtime m.kernel maxwait).1
      (recvtime m.kernel maxwait).2 := by
  have live : (m.kernel.proctab m.kernel.currpid).prstate ≠ .free := by
    rw [runs.running]
    decide
  unfold recvtime
  split_ifs with negative empty bad
  · exact keeps_quiet mailbox rfl rfl (receives_refused (Or.inr rfl))
  · exact keeps_quiet mailbox rfl rfl (receives_refused (Or.inr rfl))
  · refine keeps_quiet (mailbox_calm mailbox ?_) rfl rfl receives_none
    have marks : Calm m.kernel (m.kernel.setRest m.kernel.currpid (some .recvtime)) :=
      calm_rest (by decide)
    have marked : Running 0 (m.kernel.setRest m.kernel.currpid (some .recvtime)) :=
      running_same runs (fun _ => ⟨rfl, rfl⟩) (fun _ => rfl) rfl rfl
    exact marks.trans (calm_sleep_as marked (fun null => awake null ⟨by omega, empty⟩)
      (Or.inr rfl))
  · have holds : (m.kernel.proctab m.kernel.currpid).prhasmsg = true := by simpa using empty
    unfold recvtimeEnd
    rw [if_pos holds]
    exact keeps_taken (mailbox_taken mailbox live holds (by rw [idle]; decide)) rfl rfl
      (receives_message (Int.not_lt.mp negative) holds)

theorem receive_keeps (runs : Running 0 m.kernel)
    (mailbox : Mailbox m.kernel m.sent m.got) (idle : m.kernel.rest m.kernel.currpid = none)
    (awake : m.kernel.currpid = nullproc →
      (m.kernel.proctab m.kernel.currpid).prhasmsg ≠ false) :
    Keeps m (.call .receive) (receive m.kernel).1 (receive m.kernel).2 := by
  have live : (m.kernel.proctab m.kernel.currpid).prstate ≠ .free := by
    rw [runs.running]
    decide
  unfold receive
  split_ifs with empty
  · refine keeps_quiet (mailbox_calm mailbox ?_) rfl rfl receives_none
    have blocks : Calm m.kernel ((m.kernel.setState m.kernel.currpid .recv).setRest
        m.kernel.currpid (some .receive)) := by
      intro pid liveThen
      by_cases same : pid = m.kernel.currpid
      · subst same
        exact ⟨live, by simp [held, Kernel.setRest, Kernel.setState, Kernel.setProc],
          by simp [Kernel.setRest, Kernel.setState, Kernel.setProc],
          fun _ => Or.inl (set_state_self _), fun _ => Or.inr (Or.inl (set_state_self _))⟩
      · change ((m.kernel.setState m.kernel.currpid .recv).proctab pid).prstate ≠ .free at liveThen
        rw [set_state_other same] at liveThen
        refine ⟨liveThen, ?_, ?_, fun recv => Or.inl ?_, fun pending => Or.inl ?_⟩
        · simp [held, Kernel.setRest, Kernel.setState, Kernel.setProc, same]
        · simp [Kernel.setRest, Kernel.setState, Kernel.setProc, same]
        · exact (congrArg Procent.prstate (set_state_other same)).trans recv
        · change Function.update m.kernel.rest m.kernel.currpid (some .receive) pid = _ at pending
          rw [Function.update_of_ne same] at pending
          exact pending
    have moves : home { m.kernel.proctab m.kernel.currpid with prstate := .recv } = none ∧
        m.kernel.queues = m.kernel.queues ∨ ∃ q,
          home { m.kernel.proctab m.kernel.currpid with prstate := .recv } = some q ∧
            Adds m.kernel.currpid q m.kernel.queues m.kernel.queues := Or.inl ⟨rfl, rfl⟩
    exact blocks.trans (calm_resched
      (stopped_settled runs (fun null => awake null empty) moves rfl rfl rfl))
  · have holds : (m.kernel.proctab m.kernel.currpid).prhasmsg = true := by simpa using empty
    exact keeps_taken (mailbox_taken mailbox live holds (by rw [idle]; decide)) rfl rfl
      (receives_message trivial holds)

theorem recvclr_keeps (runs : Running 0 m.kernel) (mailbox : Mailbox m.kernel m.sent m.got)
    (idle : m.kernel.rest m.kernel.currpid = none) :
    Keeps m (.call .recvclr) (recvclr m.kernel).1 (recvclr m.kernel).2 := by
  have live : (m.kernel.proctab m.kernel.currpid).prstate ≠ .free := by
    rw [runs.running]
    decide
  unfold recvclr
  split_ifs with holds
  · exact keeps_taken (mailbox_taken mailbox live holds (by rw [idle]; decide)) rfl rfl
      (receives_message trivial holds)
  · exact keeps_quiet mailbox rfl rfl (receives_refused (by simpa [NoMessage] using holds))

theorem send_keeps (pid : Int) (msg : Nat) (runs : Running 0 m.kernel)
    (mailbox : Mailbox m.kernel m.sent m.got) :
    Keeps m (.call (.send pid msg)) (send m.kernel pid msg).1 (send m.kernel pid msg).2 := by
  rcases send_mailbox runs mailbox pid msg with ⟨refused, same, _⟩ | ⟨accepted, _, stored⟩
  · rw [same, refused]
    exact keeps_quiet mailbox rfl rfl rfl
  · rw [accepted]
    exact stored

theorem kill_keeps (pid : Int) (runs : Running 0 m.kernel)
    (mailbox : Mailbox m.kernel m.sent m.got) (did : kill m.kernel pid = some (y, result)) :
    Keeps m (.call (.kill pid)) y result := by
  unfold kill at did
  split_ifs at did with bad last
  · cases did
    have nothing : sends m.kernel (.call (.kill pid)) (some sysErr) = none := if_pos bad
    exact keeps_quiet mailbox rfl nothing rfl
  · let marked := ({ m.kernel with prcount := m.kernel.prcount - 1 } : Kernel QueueLists).setRest
      m.kernel.currpid (some (.kill pid))
    have runsMarked : Running 0 marked :=
      running_same runs (fun _ => ⟨rfl, rfl⟩) (fun _ => rfl) rfl rfl
    have counted : Calm m.kernel { m.kernel with prcount := m.kernel.prcount - 1 } := calm_of rfl rfl
    have mailboxMarked : Mailbox marked m.sent m.got :=
      mailbox_calm mailbox (counted.trans (calm_rest (by simp)))
    have sameResult : (send marked (m.kernel.proctab pid).prparent pid.toNat).2 =
        (send m.kernel (m.kernel.proctab pid).prparent pid.toNat).2 := by
      rw [send_result, send_result]
      rfl
    cases did
    rcases send_mailbox runsMarked mailboxMarked (m.kernel.proctab pid).prparent pid.toNat with
      ⟨refused, same, _⟩ | ⟨accepted, _, stored⟩
    · have nothing : sends m.kernel (.call (.kill pid)) none = none := by
        simp only [sends]
        rw [if_neg bad, if_neg]
        rw [← sameResult, refused]
        decide
      refine keeps_quiet ?_ rfl nothing receives_none
      exact same ▸ mailboxMarked
    · have notice : sends m.kernel (.call (.kill pid)) none =
          some ((m.kernel.proctab pid).prparent, pid.toNat) := by
        simp only [sends]
        rw [if_neg bad, if_pos (by rw [← sameResult, accepted])]
      unfold Keeps record
      simp only [creates, notice, receives_none]
      exact stored

theorem create_keeps (priority : Int) (stack : Bool) (mailbox : Mailbox m.kernel m.sent m.got) :
    Keeps m (.call (.create priority stack)) (create m.kernel priority stack).1
      (create m.kernel priority stack).2 := by
  rcases @create_cases _ _ m.kernel priority stack with ⟨nextpid, failed⟩ |
    ⟨slot, nextpid, _, free, made⟩
  · rw [failed]
    exact keeps_quiet (mailbox_calm mailbox (calm_of rfl rfl)) rfl rfl rfl
  · have created : creates (.call (.create priority stack)) (some (slot : Int)) =
        some (slot : Int) := by
      have notError : (slot : Int) ≠ sysErr := by
        unfold sysErr
        omega
      simp only [creates, if_neg notError]
    rw [made]
    unfold Keeps record
    rw [created]
    exact mailbox_created mailbox rfl rfl rfl

theorem call_keeps (runs : Running 0 m.kernel) (mailbox : Mailbox m.kernel m.sent m.got)
    (idle : m.kernel.rest m.kernel.currpid = none)
    (awake : m.kernel.currpid = nullproc → ¬Blocks m.kernel call)
    (did : doCall m.kernel call = some (y, result)) : Keeps m (.call call) y result := by
  have quiet : ∀ left : Kernel QueueLists × Option Int, some left = some (y, result) →
      Calm m.kernel left.1 → creates (.call call) result = none →
      sends m.kernel (.call call) result = none → receives m.kernel (.call call) result = none →
      Keeps m (.call call) y result := by
    intro left same calm created sent got
    cases same
    exact keeps_quiet (mailbox_calm mailbox calm) created sent got
  cases call with
  | create priority stack =>
      have kept := create_keeps priority stack mailbox
      rw [Option.some.inj did] at kept
      exact kept
  | resume pid => exact quiet _ did (calm_resume pid runs) rfl rfl rfl
  | suspend pid => exact quiet _ did (calm_suspend pid runs) rfl rfl rfl
  | kill pid => exact kill_keeps pid runs mailbox did
  | chprio pid newprio => exact quiet _ did (calm_chprio pid newprio) rfl rfl rfl
  | yield => exact quiet _ did (calm_resched runs.settled) rfl rfl rfl
  | sleepms delay =>
      exact quiet _ did (calm_sleepms delay runs fun null => not_not.mp (awake null)) rfl rfl rfl
  | sleep delay =>
      refine quiet _ did ?_ rfl rfl rfl
      unfold sleep
      split_ifs with long
      · exact .refl _
      · exact calm_sleepms _ runs fun null => by
          by_contra slept
          exact awake null ⟨by omega, slept⟩
  | send pid msg =>
      have kept := send_keeps pid msg runs mailbox
      rw [Option.some.inj did] at kept
      exact kept
  | receive =>
      have kept := receive_keeps runs mailbox idle awake
      rw [Option.some.inj did] at kept
      exact kept
  | recvtime maxwait =>
      have kept := recvtime_keeps maxwait runs mailbox idle awake
      rw [Option.some.inj did] at kept
      exact kept
  | recvclr =>
      have kept := recvclr_keeps runs mailbox idle
      rw [Option.some.inj did] at kept
      exact kept
  | wait sem => exact quiet _ did (calm_wait sem runs awake) rfl rfl rfl
  | signal sem =>
      refine quiet _ did ?_ rfl rfl rfl
      unfold signal
      split_ifs
      · exact .refl _
      · exact calm_release sem runs
  | signaln sem count => exact quiet _ did (calm_signaln sem count runs) rfl rfl rfl
  | semcreate count =>
      refine quiet _ did ?_ rfl rfl rfl
      unfold semcreate
      split_ifs
      · exact .refl _
      · dsimp only
        split <;> exact calm_of rfl rfl
  | semreset sem count => exact quiet _ did (calm_semreset sem count runs) rfl rfl rfl
  | semdelete sem => exact quiet _ did (calm_semdelete sem runs) rfl rfl rfl

/-- The end of a call: a receiver that was blocked has a message now. -/
theorem rest_keeps {rest : Rest} (sound : Sound m.kernel)
    (mailbox : Mailbox m.kernel m.sent m.got)
    (pending : m.kernel.rest m.kernel.currpid = some rest) :
    Keeps m .finish (doRest (m.kernel.setRest m.kernel.currpid none) rest).1
      (doRest (m.kernel.setRest m.kernel.currpid none) rest).2 := by
  have live : (m.kernel.proctab m.kernel.currpid).prstate ≠ .free := by
    rw [sound.runs.running]
    decide
  have cleared : Running 0 (m.kernel.setRest m.kernel.currpid none) :=
    running_same sound.runs (fun _ => ⟨rfl, rfl⟩) (fun _ => rfl) rfl rfl
  have box : Mailbox (m.kernel.setRest m.kernel.currpid none) m.sent m.got :=
    mailbox_calm mailbox (calm_rest (by decide))
  have idle : (m.kernel.setRest m.kernel.currpid none).rest m.kernel.currpid ≠ some .receive := by
    simp [Kernel.setRest]
  have taken := fun holds => mailbox_taken box live holds idle
  cases rest with
  | receive =>
      have holds : (m.kernel.proctab m.kernel.currpid).prhasmsg = true := by
        refine (mailbox.waiting _ live pending).resolve_left ?_
        rw [sound.runs.running]
        decide
      exact keeps_taken (taken holds) rfl rfl (receives_message (Or.inl pending) holds)
  | recvtime =>
      simp only [doRest, recvtimeEnd]
      split_ifs with holds
      · exact keeps_taken (taken holds) rfl rfl (receives_message (Or.inr pending) holds)
      · exact keeps_quiet box rfl rfl (receives_refused (Or.inl rfl))
  | kill pid =>
      obtain ⟨inRange, notNull⟩ := sound.targets _ _ pending
      have notReceive : ¬Receives m.kernel .finish := by
        rintro (other | other) <;> rw [pending] at other <;> cases other
      exact keeps_quiet (mailbox_calm box (calm_kill_end pid cleared inRange notNull)) rfl rfl
        (if_neg notReceive)
  | clock =>
      simp only [doRest]
      exact keeps_quiet (mailbox_calm box (calm_time_slice cleared)) rfl rfl receives_none

theorem event_keeps (sound : Sound m.kernel) (mailbox : Mailbox m.kernel m.sent m.got)
    (may : NullRuns m.kernel event) (did : act m.kernel event = some (y, result)) :
    Keeps m event y result := by
  rcases act_inv did with ⟨call, rfl, idle, called⟩ | ⟨rfl, _, rfl⟩ | ⟨rest, rfl, pending, ended⟩
  · exact call_keeps sound.runs mailbox idle may called
  · exact keeps_quiet (mailbox_calm mailbox (calm_clkhandler sound.runs)) rfl rfl rfl
  · have kept := rest_keeps sound mailbox pending
    rw [← ended] at kept
    exact kept

end Events

section Results

variable [Tables] {m : Mail}

/-- The null process never blocks. -/
def MailRuns (m : Mail) (event : Event) : Prop := NullRuns m.kernel event

/-- What the next event answers: `send` refuses a message only of a process that is not live
or holds one, a call that asks for a message gets the one that its process holds, and
`recvtime` times out only when there is none. -/
structure Answers (x y : Kernel QueueLists) (event : Event) (result : Option Int) : Prop where
  send : ∀ pid msg, event = .call (.send pid msg) →
    (result = some sysErr ↔ isbadpid x pid ∨ (x.proctab pid).prhasmsg = true) ∧
      (result = some sysErr ∨ result = some ok)
  receive : Receives x event → (x.proctab x.currpid).prhasmsg = true →
    receives x event result = some (x.proctab x.currpid).prmsg
  timeout : Receives x event → result = some timeout → (x.proctab x.currpid).prhasmsg = false

theorem mail_step_inv {m' : Mail} {event : Event} (did : mailStep m event = some m') :
    ∃ y result, act m.kernel event = some (y, result) ∧ m' = record m event y result := by
  obtain ⟨⟨y, result⟩, acted, same⟩ := Option.map_eq_some_iff.mp did
  exact ⟨y, result, acted, same.symm⟩

theorem record_kernel (m : Mail) (event : Event) (y : Kernel QueueLists) (result : Option Int) :
    (record m event y result).kernel = y := by
  unfold record
  split <;> rfl

theorem mail_reached (run : Reached mailStep MailStarted MailRuns m) :
    Sound m.kernel ∧ Mailbox m.kernel m.sent m.got := by
  refine @reached_invariant _ _ _ _ _ (fun m => Sound m.kernel ∧ Mailbox m.kernel m.sent m.got)
    _ run ?_ ?_
  · rintro m ⟨started, empty, sent, got⟩
    refine ⟨sound_started started, ⟨fun pid live => ?_, fun pid _ pending => ?_⟩⟩
    · have null : pid = nullproc := by
        by_contra other
        exact live (started.1.others pid other)
      subst null
      rw [sent, got]
      simp [held, empty]
    · rw [started.1.rest] at pending
      cases pending
  · rintro m m' event ⟨sound, mailbox⟩ may did
    obtain ⟨y, result, acted, rfl⟩ := mail_step_inv did
    refine ⟨?_, event_keeps sound mailbox may acted⟩
    rw [record_kernel]
    exact sound_step sound may acted

theorem receives_held {x y : Kernel QueueLists} {event : Event} {result : Option Int}
    (did : act x event = some (y, result)) (asks : Receives x event)
    (holds : (x.proctab x.currpid).prhasmsg = true) :
    result = some ((x.proctab x.currpid).prmsg : Int) := by
  have full : (x.proctab x.currpid).prhasmsg ≠ false := by simp [holds]
  rcases act_inv did with ⟨call, rfl, _, called⟩ | ⟨rfl, _, _⟩ | ⟨rest, rfl, pending, ended⟩
  · have same := congrArg (Option.map Prod.snd) called
    cases call with
    | receive =>
        simp only [doCall, receive, if_neg full, Option.map_some, takeMessage] at same
        exact (Option.some.inj same).symm
    | recvtime maxwait =>
        have notNegative : ¬maxwait < 0 := Int.not_lt.mpr asks
        simp only [doCall, recvtime, recvtimeEnd, if_neg full, if_neg notNegative, if_pos holds,
          Option.map_some, takeMessage] at same
        exact (Option.some.inj same).symm
    | recvclr =>
        simp only [doCall, recvclr, if_pos holds, Option.map_some, takeMessage] at same
        exact (Option.some.inj same).symm
    | _ => exact asks.elim
  · exact asks.elim
  · have same := congrArg Prod.snd ended
    rcases asks with isReceive | isRecvtime
    · rw [pending] at isReceive
      cases isReceive
      exact same
    · rw [pending] at isRecvtime
      cases isRecvtime
      simp only [doRest, recvtimeEnd] at same
      rw [if_pos (show ((x.setRest x.currpid none).proctab
        (x.setRest x.currpid none).currpid).prhasmsg = true from holds)] at same
      exact same

theorem answers_event {x y : Kernel QueueLists} {event : Event} {result : Option Int}
    (did : act x event = some (y, result)) : Answers x y event result := by
  refine ⟨?_, fun asks holds => ?_, fun asks timedOut => ?_⟩
  · rintro pid msg rfl
    rcases act_inv did with ⟨call, same, _, called⟩ | ⟨same, _, _⟩ | ⟨rest, same, _, _⟩
    · cases same
      have answer : (send x pid msg).2 = result := congrArg Prod.snd (Option.some.inj called)
      rw [← answer, send_result]
      split_ifs with bad full
      · simp [bad]
      · simp [full]
      · simp [bad, full, ok, sysErr]
    · cases same
    · cases same
  · rw [receives_held did asks holds]
    exact receives_message asks holds
  · by_contra full
    have holds : (x.proctab x.currpid).prhasmsg = true := by simpa using full
    have value := receives_held did asks holds
    rw [timedOut] at value
    have negative := Option.some.inj value
    unfold timeout at negative
    omega

end Results

section Received

instance [Tables] (m : Mail) (event : Event) : Decidable (MailRuns m event) :=
  inferInstanceAs (Decidable (NullRuns m.kernel event))

/-- Process 1 waits for a message, and the null process sends it one. -/
def messageReceived : List Event :=
  [.call (.create 20 true), .call (.resume 1), .call .receive, .call (.send 1 7), .finish]

end Received

end Xinu.Sched.Messages
