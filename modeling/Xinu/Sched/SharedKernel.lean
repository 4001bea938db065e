import Xinu.Sched.Priority
import Xinu.Sched.SharedQueues

/-!
# The kernel on the shared table

Every call does to `queuetab` what it does to the lists, as long as it puts no process on a queue
that is on one already and takes none off that is on none. So the table agrees with the states of
the processes in every state that is reached.
-/

namespace Xinu.Sched.SharedKernel

open Xinu.Kernel.State (PrState nullproc sysErr ok word32)
open Xinu.Sched.Queues Xinu.Sched.Calls Xinu.Sched.Placement Xinu.Sched.CallPlacement
open Xinu.Sched.SharedQueues Xinu.Sched.Priority Xinu.Lib.LinkedQueue Xinu.Lib.Interleaving

set_option autoImplicit false

section Definitions

/-- The same kernel on lists. -/
def onLists (x : Kernel Queuetab) (l : QueueLists) : Kernel QueueLists where
  proctab := x.proctab
  currpid := x.currpid
  queues := l
  semtab := x.semtab
  nextsem := x.nextsem
  nextpid := x.nextpid
  prcount := x.prcount
  defer := x.defer
  preempt := x.preempt
  rest := x.rest

variable [Tables]

/-- The table holds the lists, and every priority is above the key of a tail. -/
inductive Sim : Kernel Queuetab → Kernel QueueLists → Prop
  | mk {x : Kernel Queuetab} {l : QueueLists} (rep : Represents x.queues l)
      (prios : ∀ pid, minkey < (x.proctab pid).prprio) : Sim x (onLists x l)

def SimResult (left : Kernel Queuetab × Option Int) (right : Kernel QueueLists × Option Int) :
    Prop := Sim left.1 right.1 ∧ left.2 = right.2

/-- A priority is a `pri16`. -/
def PriFits : Event → Prop
  | .call (.create priority _) => -32768 ≤ priority ∧ priority ≤ 32767
  | .call (.chprio _ newprio) => -32768 ≤ newprio ∧ newprio ≤ 32767
  | _ => True

/-- `sysinit` has cleared the priorities and made the queues. -/
def TableStarted (x : Kernel Queuetab) : Prop :=
  Booted x ∧ (∀ pid, (x.proctab pid).prprio = 0) ∧ ∃ t, x.queues = (newqueues t (nsem + 2)).2

/-- The states of the processes and the queues agree, and `resched` finds a process to run however
the current process stops. -/
structure Agrees (x : Kernel Queuetab) : Prop where
  inRange : InRange x.currpid
  current : ∀ pid, InRange pid → ((x.proctab pid).prstate = .curr ↔ pid = x.currpid)
  queues : ∃ pids : Qid → List Int, ∀ q, Made q →
    Queue x.queues.qnext x.queues.qprev empty (queuehead q) (queuetail q) (nodes q (pids q)) ∧
      ∀ pid, pid ∈ pids q ↔ InRange pid ∧ home (x.proctab pid) = some q
  homes : ∀ pid q, InRange pid → home (x.proctab pid) = some q → Made q
  dispatch : ∀ prstate, prstate = .curr ∨ x.currpid ≠ nullproc →
    InRange (resched (x.setState x.currpid prstate)).currpid ∧
      ((resched (x.setState x.currpid prstate)).proctab
        (resched (x.setState x.currpid prstate)).currpid).prstate = .curr

end Definitions

section Parts

variable [Tables] {x : Kernel Queuetab} {y : Kernel QueueLists} {pid sem key ndefers : Int}
  {q : Qid} {t : Queuetab} {l : QueueLists} {proc : Procent}

omit [Tables] in
@[simp] theorem on_lists_proctab : (onLists x l).proctab = x.proctab := rfl

omit [Tables] in
theorem rel_ite {α β : Type} {R : α → β → Prop} {c d : Prop} [Decidable c] [Decidable d]
    {left left' : α} {right right' : β} (same : c ↔ d) (yes : c → R left right)
    (no : ¬c → R left' right') : R (if c then left else left') (if d then right else right') := by
  by_cases here : c
  · rw [if_pos here, if_pos (same.mp here)]
    exact yes here
  · rw [if_neg here, if_neg fun there => here (same.mpr there)]
    exact no here

theorem sim_same (sim : Sim x y) : y.currpid = x.currpid ∧ y.proctab = x.proctab := by
  obtain ⟨_, _⟩ := sim
  exact ⟨rfl, rfl⟩

theorem sim_proc (sim : Sim x y) (prio : minkey < proc.prprio) :
    Sim (x.setProc pid proc) (y.setProc pid proc) := by
  obtain ⟨rep, prios⟩ := sim
  refine .mk (x := x.setProc pid proc) rep fun other => ?_
  by_cases same : other = pid
  · simpa [Kernel.setProc, same] using prio
  · simpa [Kernel.setProc, same] using prios other

theorem sim_state (sim : Sim x y) (prstate : PrState) :
    Sim (x.setState pid prstate) (y.setState pid prstate) := by
  obtain ⟨rep, prios⟩ := sim
  exact sim_proc (.mk rep prios) (prios pid)

theorem sim_rest (sim : Sim x y) (rest : Option Rest) :
    Sim (x.setRest pid rest) (y.setRest pid rest) := by
  obtain ⟨rep, prios⟩ := sim
  exact .mk (x := x.setRest pid rest) rep prios

theorem sim_count (sim : Sim x y) (count : Int) :
    Sim (x.setCount sem count) (y.setCount sem count) := by
  obtain ⟨rep, prios⟩ := sim
  exact .mk (x := x.setCount sem count) rep prios

theorem sim_queues (sim : Sim x y) (rep : Represents t l) :
    Sim (x.setQueues t) (y.setQueues l) := by
  obtain ⟨_, prios⟩ := sim
  exact .mk (x := x.setQueues t) rep prios

theorem idle_of (runs : Running ndefers y) (q : Qid) : y.currpid ∉ y.queues.pids q := by
  refine (runs.settled.placed.but ?_).out q
  unfold home
  rw [runs.running]

theorem made_of_sem (good : ¬isbadsem sem) : Made (.squeue sem) := by
  unfold isbadsem at good
  change 0 ≤ sem ∧ sem < (nsem : Int)
  omega

theorem sim_insert (sim : Sim x y) (made : Made q) (keyed : Keyed q) (above : minkey < key)
    (absent : ∀ q, pid ∉ y.queues.pids q) :
    Sim (Calls.insert x pid q key) (Calls.insert y pid q key) := by
  obtain @⟨l, rep, prios⟩ := sim
  unfold Calls.insert
  refine rel_ite Iff.rfl (fun _ => .mk rep prios) fun good => ?_
  have inRange : InRange pid := @in_range_of _ (onLists x l) pid good
  exact sim_queues (.mk rep prios) (represents_insert rep made inRange absent above keyed)

theorem sim_switch (sim : Sim x y) : Sim (switch x) (switch y) := by
  obtain @⟨l, rep, prios⟩ := sim
  obtain ⟨first, left⟩ := represents_dequeue rep (show Made .readylist from trivial)
  let taken : Kernel Queuetab := { x with
    currpid := (QueueTable.dequeue .readylist x.queues).1
    queues := (QueueTable.dequeue .readylist x.queues).2
    preempt := quantum }
  have sim : Sim taken (onLists taken (QueueTable.dequeue .readylist l).2) := .mk left prios
  have shape : switch (onLists x l) =
      (onLists taken (QueueTable.dequeue .readylist l).2).setState
        (QueueTable.dequeue .readylist x.queues).1 .curr := by
    unfold switch
    simp only [onLists, taken, first]
  rw [shape]
  exact sim_state sim .curr

theorem sim_resched (sim : Sim x y)
    (idle : (y.proctab y.currpid).prstate = .curr → ∀ q, y.currpid ∉ y.queues.pids q) :
    Sim (resched x) (resched y) := by
  obtain @⟨l, rep, prios⟩ := sim
  have sim : Sim x (onLists x l) := .mk rep prios
  unfold resched
  refine rel_ite Iff.rfl (fun _ => ?_) fun _ => rel_ite Iff.rfl (fun runs => ?_) fun _ => ?_
  · exact .mk (x := { x with defer := { x.defer with attempt := true } }) rep prios
  · refine rel_ite ?_ (fun _ => sim) fun _ => ?_
    · rw [firstkey_same rep (show Made .readylist from trivial) trivial]
      exact Iff.rfl
    · exact sim_switch (sim_insert (sim_state sim .ready) trivial trivial (prios x.currpid)
        (idle runs))
  · exact sim_switch sim

theorem sim_ready (sim : Sim x y) (wakes : Waking pid ndefers y) :
    Sim (ready x pid) (ready y pid) := by
  obtain @⟨l, rep, prios⟩ := sim
  have sim : Sim x (onLists x l) := .mk rep prios
  have inserted : Running ndefers (Calls.insert ((onLists x l).setState pid .ready) pid .readylist
      ((onLists x l).proctab pid).prprio) := by
    rw [insert_good wakes.here (by simp)]
    exact inserted_running wakes
  unfold ready
  refine rel_ite Iff.rfl (fun _ => sim) fun _ => ?_
  exact sim_resched (sim_insert (sim_state sim .ready) trivial trivial (prios pid)
    wakes.placed.out) fun _ => idle_of inserted

/-- The first process of a queue is made ready. -/
theorem sim_wake (sim : Sim x y) (runs : Running ndefers y) (waits : q ≠ .readylist)
    (first : pid = (y.queues.pop q).1) (left : Represents t (y.queues.pop q).2) :
    Sim (ready (x.setQueues t) pid)
      (ready (y.setQueues (y.queues.pop q).2) (y.queues.pop q).1) := by
  have moved := sim_queues sim left
  rw [first]
  cases list : y.queues.queue q with
  | nil =>
      rw [pop_nil list] at moved ⊢
      have bad : isbadpid (x.setQueues t) Queues.empty := Or.inl (by decide)
      rw [ready_empty]
      unfold ready
      rw [if_pos bad]
      exact moved
  | cons entry rest =>
      rw [pop_cons list] at moved ⊢
      exact sim_ready moved (waking_of_popped runs waits list)

theorem sim_dequeue_ready (sim : Sim x y) (runs : Running ndefers y) (made : Made q)
    (waits : q ≠ .readylist) :
    Sim (ready (x.setQueues (QueueTable.dequeue q x.queues).2) (QueueTable.dequeue q x.queues).1)
      (ready (y.setQueues (QueueTable.dequeue q y.queues).2)
        (QueueTable.dequeue q y.queues).1) := by
  obtain @⟨l, rep, prios⟩ := sim
  obtain ⟨first, left⟩ := represents_dequeue rep made
  exact sim_wake (.mk rep prios) runs waits first left

theorem sim_defer_start (sim : Sim x y) : Sim (deferStart x) (deferStart y) := by
  obtain ⟨rep, prios⟩ := sim
  exact .mk (x := deferStart x) rep prios

theorem sim_defer_stop (sim : Sim x y) (runs : Running 1 y) : Sim (deferStop x) (deferStop y) := by
  obtain @⟨l, rep, prios⟩ := sim
  have less : Sim { x with defer := { x.defer with ndefers := x.defer.ndefers - 1 } }
      { onLists x l with defer := { x.defer with ndefers := x.defer.ndefers - 1 } } :=
    .mk (x := { x with defer := { x.defer with ndefers := x.defer.ndefers - 1 } }) rep prios
  unfold deferStop
  refine rel_ite Iff.rfl (fun _ => .mk rep prios) fun _ => ?_
  refine rel_ite Iff.rfl (fun _ => ?_) fun _ => less
  exact sim_resched less fun _ => @idle_of _ (onLists x l) 1 runs

theorem sim_iterate {f : Kernel Queuetab → Kernel Queuetab}
    {g : Kernel QueueLists → Kernel QueueLists} (n : Nat)
    (keeps : ∀ x y, Sim x y → Running 1 y → Sim (f x) (g y) ∧ Running 1 (g y)) (sim : Sim x y)
    (runs : Running 1 y) : Sim (Nat.iterate f n x) (Nat.iterate g n y) := by
  induction n generalizing x y with
  | zero => exact sim
  | succ n induction =>
      obtain ⟨later, runs'⟩ := keeps x y sim runs
      exact induction later runs'

theorem sim_release (sim : Sim x y) (runs : Running ndefers y) (made : Made (.squeue sem)) :
    Sim (release sem x) (release sem y) := by
  obtain @⟨l, rep, prios⟩ := sim
  have counted := @sim_count _ x (onLists x l) sem (.mk rep prios) ((x.semtab sem).scount + 1)
  have runs' : Running ndefers ((onLists x l).setCount sem ((x.semtab sem).scount + 1)) :=
    running_same runs (fun _ => ⟨rfl, rfl⟩) (fun _ => rfl) rfl rfl
  unfold release
  refine rel_ite Iff.rfl (fun _ => ?_) fun _ => counted
  exact sim_dequeue_ready counted runs' made (by simp)

theorem sim_ready_first (sim : Sim x y) (runs : Running ndefers y) (made : Made (.squeue sem)) :
    Sim (readyFirst sem x) (readyFirst sem y) := by
  obtain @⟨l, rep, prios⟩ := sim
  obtain ⟨first, left⟩ := represents_getfirst rep made
  exact sim_wake (.mk rep prios) runs (by simp) first left

theorem sim_drain (made : Made (.squeue sem)) (fuel : Nat) (sim : Sim x y) (runs : Running 1 y) :
    Sim (drain sem fuel x) (drain sem fuel y) := by
  induction fuel generalizing x y with
  | zero => exact sim
  | succ fuel induction =>
      obtain @⟨l, rep, prios⟩ := sim
      have sim : Sim x (onLists x l) := .mk rep prios
      unfold drain
      refine rel_ite ?_ (fun _ => sim) fun _ => ?_
      · rw [(represents_getfirst rep made).1]
        exact Iff.rfl
      · exact induction (sim_ready_first sim runs made) (ready_first_running sem runs)

theorem sim_wakeup_loop (fuel : Nat) (sim : Sim x y) (runs : Running 1 y) :
    Sim (wakeupLoop fuel x) (wakeupLoop fuel y) := by
  induction fuel generalizing x y with
  | zero => exact sim
  | succ fuel induction =>
      obtain @⟨l, rep, prios⟩ := sim
      have sim : Sim x (onLists x l) := .mk rep prios
      have made : Made .sleepq := trivial
      unfold wakeupLoop
      refine rel_ite ?_ (fun _ => ?_) fun _ => sim
      · rw [nonempty_same rep made, firstkey_same rep made trivial]
        exact Iff.rfl
      · exact induction (sim_dequeue_ready sim runs made (by simp))
          (pop_ready_running runs (by decide) (by simp))

theorem sim_wakeup (sim : Sim x y) (runs : Running 0 y) : Sim (wakeup x) (wakeup y) := by
  have started := defer_start_running runs
  exact sim_defer_stop (sim_wakeup_loop nproc (sim_defer_start sim) started)
    (wakeup_loop_running nproc started)

theorem sim_unsleep (sim : Sim x y) (placed : Placed y.proctab y.queues) :
    Sim (unsleep x pid) (unsleep y pid) := by
  obtain @⟨l, rep, prios⟩ := sim
  unfold unsleep
  refine rel_ite Iff.rfl (fun _ => .mk rep prios) fun good =>
    rel_ite Iff.rfl (fun _ => .mk rep prios) fun sleeps => ?_
  have inRange : InRange pid := @in_range_of _ (onLists x l) pid good
  have on : pid ∈ l.pids .sleepq := by
    refine (placed.placed pid .sleepq).mpr ⟨inRange, ?_⟩
    unfold home
    cases state : (x.proctab pid).prstate <;> simp_all
  refine sim_queues (.mk rep prios) (represents_getitem (represents_pass_delay rep on)
    (show Made .sleepq from trivial) ?_)
  rw [pass_delay_pids]
  exact on

theorem sim_sleep_as {prstate : PrState} (sim : Sim x y) (runs : Running 0 y)
    (stops : prstate ≠ .curr) : Sim (sleepAs x prstate key) (sleepAs y prstate key) := by
  obtain @⟨l, rep, prios⟩ := sim
  have slept : Represents (QueueTable.insertd x.currpid .sleepq key x.queues)
      (QueueTable.insertd x.currpid .sleepq key l) :=
    represents_insertd rep trivial runs.settled.inRange (idle_of runs) trivial
  refine sim_resched (sim_state (sim_queues (.mk rep prios) slept) prstate) fun current => ?_
  exact absurd ((set_state_self prstate).symm.trans current) stops

end Parts

section Calls

variable [Tables] {x x' : Kernel Queuetab} {y : Kernel QueueLists} {pid sem count : Int}
  {result : Option Int}

theorem made_of_good (good : ¬isFreeSem x sem) : Made (.squeue sem) :=
  made_of_sem fun bad => good (Or.inl bad)

theorem create_on_lists (x : Kernel Queuetab) (l : QueueLists) (priority : Int) (stack : Bool) :
    create (onLists x l) priority stack =
      (onLists (create x priority stack).1 l, (create x priority stack).2) := by
  have searched : ∀ tries nextpid, newpid (onLists x l) tries nextpid = newpid x tries nextpid := by
    intro tries
    induction tries with
    | zero => exact fun _ => rfl
    | succ tries induction =>
        intro nextpid
        simp only [newpid, on_lists_proctab, induction]
  have found : newpid (onLists x l) nproc (onLists x l).nextpid = newpid x nproc x.nextpid :=
    searched nproc x.nextpid
  unfold create
  rw [found]
  by_cases full : stack = false
  · simp only [if_pos full]
  · simp only [if_neg full]
    cases (newpid x nproc x.nextpid).1 with
    | none => rfl
    | some slot =>
        dsimp only
        split_ifs <;> rfl

theorem sim_create (priority : Int) (stack : Bool) (fits : -32768 ≤ priority) (sim : Sim x y) :
    SimResult (create x priority stack) (create y priority stack) := by
  obtain @⟨l, rep, prios⟩ := sim
  rw [create_on_lists]
  rcases @create_cases _ _ x priority stack with ⟨nextpid, failed⟩ | ⟨slot, nextpid, _, _, made⟩
  · rw [failed]
    exact ⟨.mk (x := { x with nextpid := nextpid }) rep prios, rfl⟩
  · have above : minkey < (newProc x slot priority).prprio := by
      change minkey < priority
      unfold minkey
      omega
    have counted : Sim { x with nextpid := nextpid, prcount := x.prcount + 1 }
        { onLists x l with nextpid := nextpid, prcount := x.prcount + 1 } :=
      .mk (x := { x with nextpid := nextpid, prcount := x.prcount + 1 }) rep prios
    rw [made]
    exact ⟨sim_rest (sim_proc counted above) none, rfl⟩

theorem sim_resume (sim : Sim x y) (runs : Running 0 y) :
    SimResult (resume x pid) (resume y pid) := by
  obtain @⟨l, rep, prios⟩ := sim
  unfold resume
  refine rel_ite Iff.rfl (fun _ => ⟨.mk rep prios, rfl⟩) fun good =>
    rel_ite Iff.rfl (fun _ => ⟨.mk rep prios, rfl⟩) fun state => ⟨?_, rfl⟩
  have suspended : ((onLists x l).proctab pid).prstate = .susp := not_not.mp state
  exact sim_ready (.mk rep prios) (waking_of_idle runs (@in_range_of _ (onLists x l) pid good)
    (by simp only [home, suspended]) ⟨by rw [suspended]; decide, by rw [suspended]; decide⟩)

theorem on_queue (placed : Placed y.proctab y.queues) (inRange : InRange pid) {q : Qid}
    (belongs : home (y.proctab pid) = some q) : pid ∈ y.queues.pids q :=
  (placed.placed pid q).mpr ⟨inRange, belongs⟩

theorem sim_suspend (sim : Sim x y) (runs : Running 0 y) :
    SimResult (suspend x pid) (suspend y pid) := by
  obtain @⟨l, rep, prios⟩ := sim
  have sim : Sim x (onLists x l) := .mk rep prios
  unfold suspend
  refine rel_ite Iff.rfl (fun _ => ⟨sim, rfl⟩) fun bad =>
    rel_ite Iff.rfl (fun isReady => ⟨?_, rfl⟩) fun _ =>
      rel_ite Iff.rfl (fun _ => ⟨?_, rfl⟩) fun _ => ⟨sim, rfl⟩
  · have inRange : InRange pid := @in_range_of _ (onLists x l) pid fun isBad => bad (Or.inl isBad)
    have on : pid ∈ l.pids .readylist :=
      on_queue runs.settled.placed inRange (by simp [home, isReady])
    exact sim_state (sim_queues sim (represents_getitem rep (show Made .readylist from trivial) on))
      .susp
  · refine sim_resched (sim_state sim .susp) fun current => ?_
    rename_i isCurrent
    have same := runs.settled.current pid
      (@in_range_of _ (onLists x l) pid fun isBad => bad (Or.inl isBad)) isCurrent
    subst same
    exact absurd ((set_state_self .susp).symm.trans current) (by decide)

theorem sim_chprio {newprio : Int} (fits : -32768 ≤ newprio) (sim : Sim x y) :
    SimResult (chprio x pid newprio) (chprio y pid newprio) := by
  obtain @⟨l, rep, prios⟩ := sim
  unfold chprio
  refine rel_ite Iff.rfl (fun _ => ⟨.mk rep prios, rfl⟩) fun _ => ⟨?_, rfl⟩
  refine sim_proc (.mk rep prios) ?_
  change minkey < newprio
  unfold minkey
  omega

theorem sim_yield (sim : Sim x y) (runs : Running 0 y) : SimResult (yield x) (yield y) :=
  ⟨sim_resched sim fun _ => idle_of runs, rfl⟩

theorem sim_sleepms (delay : Nat) (sim : Sim x y) (runs : Running 0 y) :
    SimResult (sleepms x delay) (sleepms y delay) := by
  obtain @⟨l, rep, prios⟩ := sim
  unfold sleepms
  refine rel_ite Iff.rfl (fun _ => sim_yield (.mk rep prios) runs) fun _ =>
    rel_ite Iff.rfl (fun _ => ⟨.mk rep prios, rfl⟩) fun _ => ⟨?_, rfl⟩
  exact sim_sleep_as (.mk rep prios) runs (by decide)

theorem sim_sleep (delay : Nat) (sim : Sim x y) (runs : Running 0 y) :
    SimResult (sleep x delay) (sleep y delay) := by
  obtain ⟨slept, same⟩ := sim_sleepms (1000 * delay % word32) sim runs
  unfold sleep
  refine rel_ite Iff.rfl (fun _ => ⟨sim, rfl⟩) fun _ => ⟨slept, ?_⟩
  rw [same]

theorem sim_send (msg : Nat) (sim : Sim x y) (runs : Running 0 y) :
    SimResult (send x pid msg) (send y pid msg) := by
  obtain @⟨l, rep, prios⟩ := sim
  have sim : Sim x (onLists x l) := .mk rep prios
  have stored := stored_running runs pid msg
  have kept : Sim (x.setProc pid { x.proctab pid with prmsg := msg, prhasmsg := true })
      ((onLists x l).setProc pid { x.proctab pid with prmsg := msg, prhasmsg := true }) :=
    sim_proc sim (prios pid)
  have same : (((onLists x l).setProc pid
      { (onLists x l).proctab pid with prmsg := msg, prhasmsg := true }).proctab pid).prstate =
        ((onLists x l).proctab pid).prstate := by
    simp [Kernel.setProc]
  unfold send
  refine rel_ite Iff.rfl (fun _ => ⟨sim, rfl⟩) fun good =>
    rel_ite Iff.rfl (fun _ => ⟨sim, rfl⟩) fun _ => ?_
  have inRange : InRange pid := @in_range_of _ (onLists x l) pid good
  refine rel_ite Iff.rfl (fun waits => ⟨?_, rfl⟩) fun _ =>
    rel_ite Iff.rfl (fun timed => ⟨?_, rfl⟩) fun _ => ⟨kept, rfl⟩
  · have state := same.trans waits
    exact sim_ready kept (waking_of_idle stored inRange (by unfold home; rw [state])
      ⟨by rw [state]; decide, by rw [state]; decide⟩)
  · exact sim_ready (sim_unsleep kept stored.settled.placed)
      (waking_of_unsleep stored inRange (same.trans timed))

theorem sim_take_message (sim : Sim x y) : SimResult (takeMessage x) (takeMessage y) := by
  obtain @⟨l, rep, prios⟩ := sim
  exact ⟨sim_proc (.mk rep prios) (prios x.currpid), rfl⟩

theorem sim_receive (sim : Sim x y) : SimResult (receive x) (receive y) := by
  obtain @⟨l, rep, prios⟩ := sim
  have sim : Sim x (onLists x l) := .mk rep prios
  unfold receive
  refine rel_ite Iff.rfl (fun _ => ⟨?_, rfl⟩) fun _ => sim_take_message sim
  refine sim_resched (sim_rest (sim_state sim .recv) (some .receive)) fun current => ?_
  have state : (((onLists x l).setState x.currpid .recv).proctab x.currpid).prstate = .recv :=
    set_state_self .recv
  exact absurd (state.symm.trans current) (by decide)

theorem sim_recvtime_end (sim : Sim x y) : SimResult (recvtimeEnd x) (recvtimeEnd y) := by
  obtain @⟨l, rep, prios⟩ := sim
  unfold recvtimeEnd
  exact rel_ite Iff.rfl (fun _ => sim_take_message (.mk rep prios)) fun _ => ⟨.mk rep prios, rfl⟩

theorem sim_recvtime (maxwait : Int) (sim : Sim x y) (runs : Running 0 y) :
    SimResult (recvtime x maxwait) (recvtime y maxwait) := by
  obtain @⟨l, rep, prios⟩ := sim
  have sim : Sim x (onLists x l) := .mk rep prios
  unfold recvtime
  refine rel_ite Iff.rfl (fun _ => ⟨sim, rfl⟩) fun _ => rel_ite Iff.rfl (fun _ => ?_) fun _ =>
    sim_recvtime_end sim
  refine rel_ite Iff.rfl (fun _ => ⟨sim, rfl⟩) fun _ => ⟨?_, rfl⟩
  exact sim_sleep_as (sim_rest sim (some .recvtime))
    (running_same runs (fun _ => ⟨rfl, rfl⟩) (fun _ => rfl) rfl rfl) (by decide)

theorem sim_recvclr (sim : Sim x y) : SimResult (recvclr x) (recvclr y) := by
  obtain @⟨l, rep, prios⟩ := sim
  unfold recvclr
  exact rel_ite Iff.rfl (fun _ => sim_take_message (.mk rep prios)) fun _ => ⟨.mk rep prios, rfl⟩

theorem sim_wait (sim : Sim x y) (runs : Running 0 y) : SimResult (wait x sem) (wait y sem) := by
  obtain @⟨l, rep, prios⟩ := sim
  have sim : Sim x (onLists x l) := .mk rep prios
  have counted := @sim_count _ x (onLists x l) sem sim ((x.semtab sem).scount - 1)
  unfold wait
  refine rel_ite Iff.rfl (fun _ => ⟨sim, rfl⟩) fun good => ?_
  refine rel_ite Iff.rfl (fun _ => ⟨?_, rfl⟩) fun _ => ⟨counted, rfl⟩
  have queued := represents_enqueue rep (made_of_good good) runs.settled.inRange (idle_of runs)
  refine sim_resched (sim_queues (sim_proc counted (prios x.currpid)) queued) fun current => ?_
  have state : (Function.update x.proctab x.currpid
      { x.proctab x.currpid with prstate := .wait, prsem := sem } x.currpid).prstate = .wait := by
    rw [Function.update_self]
  exact absurd (state.symm.trans current) (by decide)

theorem sim_signal (sim : Sim x y) (runs : Running 0 y) :
    SimResult (signal x sem) (signal y sem) := by
  obtain @⟨l, rep, prios⟩ := sim
  have sim : Sim x (onLists x l) := .mk rep prios
  unfold signal
  exact rel_ite Iff.rfl (fun _ => ⟨sim, rfl⟩) fun good =>
    ⟨sim_release sim runs (made_of_good good), rfl⟩

theorem sim_signaln (sim : Sim x y) (runs : Running 0 y) :
    SimResult (signaln x sem count) (signaln y sem count) := by
  obtain @⟨l, rep, prios⟩ := sim
  have sim : Sim x (onLists x l) := .mk rep prios
  unfold signaln
  refine rel_ite Iff.rfl (fun _ => ⟨sim, rfl⟩) fun bad =>
    rel_ite Iff.rfl (fun _ => ⟨sim, rfl⟩) fun _ => ⟨?_, rfl⟩
  have made : Made (.squeue sem) := made_of_sem fun isBad => bad (Or.inl isBad)
  have started := defer_start_running runs
  refine sim_defer_stop ?_ (iterate_running _
    (fun x runs => release_running sem runs (by decide)) started)
  exact sim_iterate count.toNat (fun x y sim runs =>
    ⟨sim_release sim runs made, release_running sem runs (by decide)⟩) (sim_defer_start sim) started

theorem semcreate_on_lists (x : Kernel Queuetab) (l : QueueLists) (count : Int) :
    semcreate (onLists x l) count = (onLists (semcreate x count).1 l, (semcreate x count).2) ∧
      (semcreate x count).1.queues = x.queues ∧ (semcreate x count).1.proctab = x.proctab := by
  have searched : ∀ tries nextsem, newsem (onLists x l) tries nextsem = newsem x tries nextsem := by
    have table : (onLists x l).semtab = x.semtab := rfl
    intro tries
    induction tries with
    | zero => exact fun _ => rfl
    | succ tries induction =>
        intro nextsem
        simp only [newsem, table, induction]
  have found : newsem (onLists x l) nsem (onLists x l).nextsem = newsem x nsem x.nextsem :=
    searched nsem x.nextsem
  unfold semcreate
  rw [found]
  split_ifs
  · exact ⟨rfl, rfl, rfl⟩
  · dsimp only
    cases (newsem x nsem x.nextsem).1 with
    | none => exact ⟨rfl, rfl, rfl⟩
    | some found => exact ⟨rfl, rfl, rfl⟩

theorem sim_semcreate (sim : Sim x y) : SimResult (semcreate x count) (semcreate y count) := by
  obtain @⟨l, rep, prios⟩ := sim
  obtain ⟨same, queues, tab⟩ := semcreate_on_lists x l count
  rw [same]
  refine ⟨.mk ?_ ?_, rfl⟩
  · rw [queues]
    exact rep
  · rw [tab]
    exact prios

theorem sim_semreset (sim : Sim x y) (runs : Running 0 y) :
    SimResult (semreset x sem count) (semreset y sem count) := by
  obtain @⟨l, rep, prios⟩ := sim
  have sim : Sim x (onLists x l) := .mk rep prios
  unfold semreset
  refine rel_ite Iff.rfl (fun _ => ⟨sim, rfl⟩) fun bad => ⟨?_, rfl⟩
  have made := made_of_good fun free => bad (Or.inr free)
  have started := defer_start_running runs
  exact sim_defer_stop (sim_count (sim_drain made nproc (sim_defer_start sim) started) count)
    (running_same (drain_running sem nproc started) (fun _ => ⟨rfl, rfl⟩) (fun _ => rfl) rfl rfl)

theorem sim_semdelete (sim : Sim x y) (runs : Running 0 y) :
    SimResult (semdelete x sem) (semdelete y sem) := by
  obtain @⟨l, rep, prios⟩ := sim
  have sim : Sim x (onLists x l) := .mk rep prios
  unfold semdelete
  refine rel_ite Iff.rfl (fun _ => ⟨sim, rfl⟩) fun good => ⟨?_, rfl⟩
  have made := made_of_good good
  let semtab := Function.update x.semtab sem { x.semtab sem with used := false }
  have unused : Sim { x with semtab := semtab } { onLists x l with semtab := semtab } :=
    .mk (x := { x with semtab := semtab }) rep prios
  have runs' : Running 0 { onLists x l with semtab := semtab } :=
    running_same runs (fun _ => ⟨rfl, rfl⟩) (fun _ => rfl) rfl rfl
  have started := defer_start_running runs'
  have readied := sim_iterate (-(x.semtab sem).scount).toNat (fun x y sim runs =>
    ⟨sim_ready_first sim runs made, ready_first_running sem runs⟩) (sim_defer_start unused) started
  exact sim_defer_stop (sim_count readied _) (running_same (iterate_running _
    (fun x runs => ready_first_running sem runs) started) (fun _ => ⟨rfl, rfl⟩) (fun _ => rfl)
      rfl rfl)

theorem sim_kill (sim : Sim x y) (runs : Running 0 y) (did : kill x pid = some (x', result)) :
    ∃ y', kill y pid = some (y', result) ∧ Sim x' y' := by
  obtain @⟨l, rep, prios⟩ := sim
  have sim : Sim x (onLists x l) := .mk rep prios
  unfold kill at did ⊢
  by_cases bad : isbadpid x pid ∨ pid = nullproc
  · rw [if_pos bad] at did
    cases did
    exact ⟨onLists x l, if_pos bad, sim⟩
  · rw [if_neg bad] at did
    have good : ¬(isbadpid (onLists x l) pid ∨ pid = nullproc) := bad
    rw [if_neg good]
    by_cases last : x.prcount - 1 ≤ 1
    · rw [if_pos last] at did
      cases did
    · rw [if_neg last] at did
      cases did
      have later : ¬(onLists x l).prcount - 1 ≤ 1 := last
      rw [if_neg later]
      have counted : Sim { x with prcount := x.prcount - 1 }
          { onLists x l with prcount := x.prcount - 1 } :=
        .mk (x := { x with prcount := x.prcount - 1 }) rep prios
      have sent := @sim_send _ _ _ (x.proctab pid).prparent pid.toNat
        (@sim_rest _ _ _ x.currpid counted (some (.kill pid)))
        (running_same runs (fun _ => ⟨rfl, rfl⟩) (fun _ => rfl) rfl rfl)
      exact ⟨_, rfl, sent.1⟩

theorem sim_kill_end (sim : Sim x y) (runs : Running 0 y) (inRange : InRange pid) :
    SimResult (killEnd x pid) (killEnd y pid) := by
  obtain @⟨l, rep, prios⟩ := sim
  have sim : Sim x (onLists x l) := .mk rep prios
  have placed := runs.settled.placed
  have other : SimResult (x.setState pid .free, some ok)
      ((onLists x l).setState pid .free, some ok) :=
    ⟨sim_state sim .free, rfl⟩
  have unslept : SimResult ((unsleep x pid).setState pid .free, some ok)
      ((unsleep (onLists x l) pid).setState pid .free, some ok) :=
    ⟨sim_state (sim_unsleep sim placed) .free, rfl⟩
  unfold killEnd
  rw [on_lists_proctab]
  cases state : (x.proctab pid).prstate with
  | curr =>
      refine ⟨sim_resched (sim_state sim .free) fun current => ?_, rfl⟩
      have same := runs.settled.current pid inRange state
      subst same
      exact absurd ((set_state_self .free).symm.trans current) (by decide)
  | sleep => exact unslept
  | rectim => exact unslept
  | wait =>
      have belongs : home ((onLists x l).proctab pid) = some (.squeue (x.proctab pid).prsem) := by
        simp only [home, on_lists_proctab, state]
      have on : pid ∈ l.pids (.squeue (x.proctab pid).prsem) := on_queue placed inRange belongs
      have made : Made (.squeue (x.proctab pid).prsem) := by
        by_contra not
        simp [QueueLists.pids, rep.threads.unmade _ not] at on
      exact ⟨sim_state (sim_queues (sim_count sim _) (represents_getitem rep made on)) .free, rfl⟩
  | ready =>
      have belongs : home ((onLists x l).proctab pid) = some .readylist := by
        simp only [home, on_lists_proctab, state]
      have on : pid ∈ l.pids .readylist := on_queue placed inRange belongs
      exact ⟨sim_state (sim_queues sim
        (represents_getitem rep (show Made .readylist from trivial) on)) .free, rfl⟩
  | free => exact other
  | recv => exact other
  | susp => exact other

theorem sim_clkhandler (sim : Sim x y) (runs : Running 0 y) :
    Sim (clkhandler x) (clkhandler y) := by
  obtain @⟨l, rep, prios⟩ := sim
  have made : Made .sleepq := trivial
  have marked : Sim (x.setRest x.currpid (some .clock))
      ((onLists x l).setRest x.currpid (some .clock)) := sim_rest (.mk rep prios) (some .clock)
  have runs' : Running 0 ((onLists x l).setRest x.currpid (some .clock)) :=
    running_same runs (fun _ => ⟨rfl, rfl⟩) (fun _ => rfl) rfl rfl
  have same := nonempty_same rep made
  unfold clkhandler
  refine rel_ite ?_ (fun sleeping => ?_) fun _ => marked
  · change QueueTable.nonempty .sleepq x.queues = true ↔ QueueTable.nonempty .sleepq l = true
    rw [same]
  · have some : l.queue .sleepq ≠ [] := by
      change QueueTable.nonempty .sleepq x.queues = true at sleeping
      rw [same] at sleeping
      intro none
      change (!(l.queue .sleepq).isEmpty) = true at sleeping
      rw [none] at sleeping
      cases sleeping
    have counted := represents_count_down rep made trivial some
    have counts : Running 0 (((onLists x l).setRest x.currpid (Option.some .clock)).setQueues
        (QueueTable.countDown .sleepq l)) :=
      running_same runs' (fun _ => ⟨rfl, rfl⟩) count_down_pids rfl rfl
    refine rel_ite ?_ (fun _ => sim_wakeup (sim_queues marked counted) counts) fun _ =>
      sim_queues marked counted
    change QueueTable.firstkey .sleepq (QueueTable.countDown .sleepq x.queues) ≤ 0 ↔
      QueueTable.firstkey .sleepq (QueueTable.countDown .sleepq l) ≤ 0
    rw [firstkey_same counted made trivial]

theorem sim_time_slice (sim : Sim x y) (runs : Running 0 y) :
    Sim (timeSlice x) (timeSlice y) := by
  obtain @⟨l, rep, prios⟩ := sim
  unfold timeSlice
  refine rel_ite Iff.rfl (fun _ => ?_) fun _ => ?_
  · exact sim_resched (.mk (x := { x with preempt := quantum }) rep prios) fun _ =>
      @idle_of _ (onLists x l) 0 runs
  · exact .mk (x := { x with preempt := (x.preempt + word32 - 1) % word32 }) rep prios

end Calls

section Runs

variable [Tables] {x x' : Kernel Queuetab} {y : Kernel QueueLists} {result : Option Int}

theorem sim_result {x : Kernel Queuetab} (sim : Sim x y) : SimResult (x, result) (y, result) :=
  ⟨sim, rfl⟩

theorem of_result {left : Kernel Queuetab × Option Int} {right : Kernel QueueLists × Option Int}
    (sim : SimResult left right) (did : some left = some (x', result)) :
    ∃ y', some right = some (y', result) ∧ Sim x' y' := by
  cases did
  exact ⟨right.1, congrArg some (Prod.ext rfl sim.2.symm), sim.1⟩

theorem sim_call {call : Call} (sim : Sim x y) (runs : Running 0 y) (fits : PriFits (.call call))
    (did : doCall x call = some (x', result)) :
    ∃ y', doCall y call = some (y', result) ∧ Sim x' y' := by
  cases call with
  | create priority stack => exact of_result (sim_create priority stack fits.1 sim) did
  | resume pid => exact of_result (sim_resume sim runs) did
  | suspend pid => exact of_result (sim_suspend sim runs) did
  | kill pid => exact sim_kill sim runs did
  | chprio pid newprio => exact of_result (sim_chprio fits.1 sim) did
  | yield => exact of_result (sim_yield sim runs) did
  | sleepms delay => exact of_result (sim_sleepms delay sim runs) did
  | sleep delay => exact of_result (sim_sleep delay sim runs) did
  | send pid msg => exact of_result (sim_send msg sim runs) did
  | receive => exact of_result (sim_receive sim) did
  | recvtime maxwait => exact of_result (sim_recvtime maxwait sim runs) did
  | recvclr => exact of_result (sim_recvclr sim) did
  | wait sem => exact of_result (sim_wait sim runs) did
  | signal sem => exact of_result (sim_signal sim runs) did
  | signaln sem count => exact of_result (sim_signaln sim runs) did
  | semcreate count => exact of_result (sim_semcreate sim) did
  | semreset sem count => exact of_result (sim_semreset sim runs) did
  | semdelete sem => exact of_result (sim_semdelete sim runs) did

theorem sim_rest_done {rest : Rest} (sim : Sim x y) (runs : Running 0 y)
    (targets : ∀ pid, rest = .kill pid → InRange pid) :
    SimResult (doRest x rest) (doRest y rest) := by
  cases rest with
  | receive => exact sim_take_message sim
  | recvtime => exact sim_recvtime_end sim
  | kill pid => exact sim_kill_end sim runs (targets pid rfl)
  | clock =>
      simp only [doRest]
      exact sim_result (sim_time_slice sim runs)

theorem sim_act {event : Event} (sim : Sim x y) (sound : Sound y) (fits : PriFits event)
    (did : act x event = some (x', result)) :
    ∃ y', act y event = some (y', result) ∧ Sim x' y' := by
  obtain @⟨l, rep, prios⟩ := sim
  have sim : Sim x (onLists x l) := .mk rep prios
  rcases act_inv did with ⟨call, rfl, idle, called⟩ | ⟨rfl, idle, rfl⟩ |
    ⟨rest, rfl, pending, ended⟩
  · obtain ⟨y', called', after⟩ := sim_call sim sound.runs fits called
    have idle' : (onLists x l).rest (onLists x l).currpid = none := idle
    refine ⟨y', ?_, after⟩
    unfold act
    dsimp only
    rw [if_pos idle']
    exact called'
  · have idle' : (onLists x l).rest (onLists x l).currpid = none := idle
    refine ⟨clkhandler (onLists x l), ?_, sim_clkhandler sim sound.runs⟩
    unfold act at did ⊢
    dsimp only at did ⊢
    rw [if_pos idle']
    rw [if_pos idle] at did
    cases did
    rfl
  · have cleared : Running 0 ((onLists x l).setRest x.currpid none) :=
      running_same sound.runs (fun _ => ⟨rfl, rfl⟩) (fun _ => rfl) rfl rfl
    have done := @sim_rest_done _ _ _ rest (@sim_rest _ _ _ x.currpid sim none) cleared (by
      rintro pid rfl
      exact (sound.targets _ _ pending).1)
    refine ⟨(doRest ((onLists x l).setRest x.currpid none) rest).1, ?_, ?_⟩
    · have found : (onLists x l).rest (onLists x l).currpid = some rest := pending
      have value := done.2
      rw [← ended] at value
      unfold act
      rw [found, Option.map_some]
      exact congrArg some (Prod.ext rfl value.symm)
    · have state := done.1
      rw [← ended] at state
      exact state

/-- A kernel on lists goes along. -/
def Shadowed (x : Kernel Queuetab) : Prop := ∃ y, Sim x y ∧ Sound y

theorem shadowed_started (started : TableStarted x) : Shadowed x := by
  obtain ⟨booted, prios, t, made⟩ := started
  have rep : Represents x.queues { queue := fun _ => [] } := by
    rw [made]
    exact represents_made t
  refine ⟨onLists x { queue := fun _ => [] }, .mk rep fun pid => ?_,
    sound_started ⟨?_, fun _ => rfl⟩⟩
  · rw [prios pid]
    decide
  · exact ⟨booted.null, booted.others, booted.prio, booted.current, booted.sems, booted.nextsem,
      booted.nextpid, booted.prcount, booted.ndefers, booted.preempt, booted.rest⟩

theorem null_runs_on_lists {l : QueueLists} {event : Event} (may : NullRuns x event) :
    NullRuns (onLists x l) event := by
  cases event with
  | tick => trivial
  | finish => trivial
  | call call => cases call <;> exact may

theorem shadowed_step {event : Event} (shadowed : Shadowed x) (may : NullRuns x event)
    (fits : PriFits event) (did : act x event = some (x', result)) : Shadowed x' := by
  obtain ⟨y, sim, sound⟩ := shadowed
  obtain ⟨y', did', sim'⟩ := sim_act sim sound fits did
  refine ⟨y', sim', sound_step sound ?_ did'⟩
  obtain @⟨l, rep, prios⟩ := sim
  exact null_runs_on_lists may

/-- `resched` finds the null process at the latest. -/
theorem resched_finds {prstate : PrState} (runs : Running 0 y)
    (goesOn : prstate = .curr ∨ y.currpid ≠ nullproc) :
    InRange (resched (y.setState y.currpid prstate)).currpid ∧
      ((resched (y.setState y.currpid prstate)).proctab
        (resched (y.setState y.currpid prstate)).currpid).prstate = .curr := by
  by_cases stays : prstate = .curr
  · subst stays
    have same : Running 0 (y.setState y.currpid .curr) := by
      refine running_same runs (fun other => ?_) (fun _ => rfl) rfl rfl
      by_cases here : other = y.currpid
      · subst here
        simp [Kernel.setState, Kernel.setProc, runs.running]
      · simp [Kernel.setState, Kernel.setProc, here]
    have found := resched_running same.settled same.ndefers
    exact ⟨found.settled.inRange, found.running⟩
  · have notNull := goesOn.resolve_left stays
    have nullReady : (y.proctab nullproc).prstate = .ready := by
      refine runs.settled.null.resolve_left fun current => notNull ?_
      exact (runs.settled.current nullproc null_in_range current).symm
    have on := on_queue runs.settled.placed null_in_range
      (show home (y.proctab nullproc) = some .readylist by simp [home, nullReady])
    cases list : y.queues.queue .readylist with
    | nil => simp [QueueLists.pids, list] at on
    | cons entry rest =>
        have member : entry.1 ∈ y.queues.pids .readylist := by simp [QueueLists.pids, list]
        have place := (runs.settled.placed.placed entry.1 .readylist).mp member
        have popped : QueueTable.dequeue .readylist y.queues =
            (entry.1, y.queues.set .readylist rest) := pop_cons list
        have stopped : ¬((y.setState y.currpid prstate).proctab
            (y.setState y.currpid prstate).currpid).prstate = .curr := by
          change ¬((y.setState y.currpid prstate).proctab y.currpid).prstate = .curr
          rw [set_state_self]
          exact stays
        have undeferred : ¬0 < (y.setState y.currpid prstate).defer.ndefers := by
          change ¬0 < y.defer.ndefers
          rw [runs.ndefers]
          decide
        have shape : resched (y.setState y.currpid prstate) =
            switch (y.setState y.currpid prstate) := by
          unfold resched
          rw [if_neg undeferred, if_neg stopped]
        have current : (switch (y.setState y.currpid prstate)).currpid = entry.1 := by
          change (QueueTable.dequeue .readylist y.queues).1 = entry.1
          rw [popped]
        rw [shape, current]
        refine ⟨place.1, ?_⟩
        unfold switch
        change (Kernel.proctab (Kernel.setState _ (QueueTable.dequeue .readylist y.queues).1 .curr)
          entry.1).prstate = .curr
        rw [popped]
        exact set_state_self .curr

theorem shadowed_agrees (shadowed : Shadowed x) : Agrees x := by
  obtain ⟨y, sim, sound⟩ := shadowed
  have finds : ∀ prstate, prstate = .curr ∨ x.currpid ≠ nullproc →
      InRange (resched (x.setState x.currpid prstate)).currpid ∧
        ((resched (x.setState x.currpid prstate)).proctab
          (resched (x.setState x.currpid prstate)).currpid).prstate = .curr := by
    intro prstate goesOn
    obtain @⟨l, rep, prios⟩ := sim
    have found := resched_finds sound.runs goesOn
    have after := @sim_resched _ _ _ (@sim_state _ _ _ x.currpid (.mk rep prios) prstate)
      fun _ => @idle_of _ (onLists x l) 0 sound.runs
    obtain ⟨current, tab⟩ := sim_same after
    change InRange (resched ((onLists x l).setState x.currpid prstate)).currpid ∧
      ((resched ((onLists x l).setState x.currpid prstate)).proctab
        (resched ((onLists x l).setState x.currpid prstate)).currpid).prstate = .curr at found
    rw [current, tab] at found
    exact found
  obtain @⟨l, rep, prios⟩ := sim
  have settled := sound.runs.settled
  refine ⟨settled.inRange, fun pid inRange => ⟨settled.current pid inRange, ?_⟩,
    ⟨l.pids, fun q made => ⟨rep.threads.queue q made, fun pid => settled.placed.placed pid q⟩⟩,
    fun pid q inRange belongs => ?_, finds⟩
  · rintro rfl
    exact sound.runs.running
  · have on : pid ∈ l.pids q := on_queue settled.placed inRange belongs
    by_contra not
    simp [QueueLists.pids, rep.threads.unmade q not] at on

/-- In every run in which the null process never blocks, the states of the processes and the table
of the queues agree whenever a call or an interrupt has led to a state. -/
theorem queues_agree (run : Reached step TableStarted
    (fun x event => NullRuns x event ∧ PriFits event) x) : Agrees x := by
  refine shadowed_agrees (reached_invariant run (fun _ started => shadowed_started started) ?_)
  rintro x y event shadowed ⟨may, fits⟩ did
  obtain ⟨result, acted⟩ := step_some did
  exact shadowed_step shadowed may fits acted

end Runs

section Example

instance (event : Event) : Decidable (PriFits event) := by
  unfold PriFits
  split <;> infer_instance

def tableBooted : Kernel Queuetab :=
  let _ : Tables := eight
  { proctab := booted.proctab
    currpid := 0
    queues := (newqueues { entry := fun _ => { qkey := 0, qnext := 0, qprev := 0 } } (nsem + 2)).2
    semtab := booted.semtab
    nextsem := 0
    nextpid := 1
    prcount := 1
    defer := { ndefers := 0, attempt := false }
    preempt := quantum
    rest := fun _ => none }

theorem table_booted_started : @TableStarted eight tableBooted := by
  let _ : Tables := eight
  refine ⟨⟨rfl, fun pid other => if_neg other, rfl, rfl, fun _ => rfl, rfl, rfl, rfl, rfl, rfl,
    fun _ => rfl⟩, fun _ => rfl, _, rfl⟩

/-- Processes 1 and 2 wait for a semaphore, process 3 sleeps, and the null process runs. -/
theorem queues_agree_asleep :
    let _ : Tables := eight
    ∃ x, Reached step TableStarted (fun x event => NullRuns x event ∧ PriFits event) x ∧
      Agrees x ∧
        (x.currpid, firstid (.squeue 0) x.queues, firstid .sleepq x.queues) = (0, 1, 3) := by
  let _ : Tables := eight
  have results : (takeEvents step (fun x event => NullRuns x event ∧ PriFits event)
      [.call (.semcreate 0), .call (.create 20 true), .call (.create 30 true),
        .call (.create 40 true), .call (.resume 1), .call (.wait 0), .call (.resume 2),
        .call (.wait 0), .call (.resume 3), .call (.sleepms 100)] tableBooted).map (fun x =>
          (x.currpid, firstid (.squeue 0) x.queues, firstid .sleepq x.queues)) =
      some (0, 1, 3) := by
    decide +kernel
  obtain ⟨x, took, places⟩ := Option.map_eq_some_iff.mp results
  have run := take_events (.start table_booted_started) took
  exact ⟨x, run, queues_agree run, places⟩

end Example

end Xinu.Sched.SharedKernel
