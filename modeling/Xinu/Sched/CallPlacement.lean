import Xinu.Sched.Placement
import Xinu.Sched.Frames

/-!
# Calls keep the processes on their queues

One lemma for each call, and from them that every event keeps the current process running and
the processes where they belong, as long as the null process does not block.
-/

namespace Xinu.Sched.CallPlacement

open Xinu.Kernel.State (PrState nullproc sysErr ok word32)
open Xinu.Sched.Queues Xinu.Sched.Calls Xinu.Sched.Placement Xinu.Sched.Frames
open Xinu.Lib.Interleaving

set_option autoImplicit false

variable [Tables] {x y : Kernel QueueLists} {pid sem count : Int} {result : Option Int}

section Conditions

/-- The call puts its caller to sleep or on a queue. -/
def Blocks {Q : Type} (x : Kernel Q) : Call → Prop
  | .sleepms delay => delay ≠ 0
  | .sleep delay => delay ≤ maxseconds ∧ 1000 * delay % word32 ≠ 0
  | .receive => (x.proctab x.currpid).prhasmsg = false
  | .recvtime maxwait => 0 ≤ maxwait ∧ (x.proctab x.currpid).prhasmsg = false
  | .wait sem => ¬isFreeSem x sem ∧ int32 ((x.semtab sem).scount - 1) < 0
  | _ => False

/-- The null process never blocks. -/
def NullRuns {Q : Type} (x : Kernel Q) : Event → Prop
  | .call call => x.currpid = nullproc → ¬Blocks x call
  | _ => True

instance {Q : Type} (x : Kernel Q) : (call : Call) → Decidable (Blocks x call)
  | .sleepms delay => inferInstanceAs (Decidable (delay ≠ 0))
  | .sleep delay => inferInstanceAs (Decidable (delay ≤ maxseconds ∧ 1000 * delay % word32 ≠ 0))
  | .receive => inferInstanceAs (Decidable ((x.proctab x.currpid).prhasmsg = false))
  | .recvtime maxwait =>
      inferInstanceAs (Decidable (0 ≤ maxwait ∧ (x.proctab x.currpid).prhasmsg = false))
  | .wait sem =>
      inferInstanceAs (Decidable (¬isFreeSem x sem ∧ int32 ((x.semtab sem).scount - 1) < 0))
  | .create _ _ => .isFalse id
  | .resume _ => .isFalse id
  | .suspend _ => .isFalse id
  | .kill _ => .isFalse id
  | .chprio _ _ => .isFalse id
  | .yield => .isFalse id
  | .send _ _ => .isFalse id
  | .recvclr => .isFalse id
  | .signal _ => .isFalse id
  | .signaln _ _ => .isFalse id
  | .semcreate _ => .isFalse id
  | .semreset _ _ => .isFalse id
  | .semdelete _ => .isFalse id

instance {Q : Type} (x : Kernel Q) : (event : Event) → Decidable (NullRuns x event)
  | .call call => inferInstanceAs (Decidable (x.currpid = nullproc → ¬Blocks x call))
  | .tick => .isTrue trivial
  | .finish => .isTrue trivial

/-- A pending `kill` is one of a process that can be killed. -/
def Targets {Q : Type} (x : Kernel Q) : Prop :=
  ∀ pid target, x.rest pid = some (.kill target) → InRange target ∧ target ≠ nullproc

end Conditions

section Calls

section Creation

variable {Q : Type} {u : Kernel Q}

theorem newpid_found (tries nextpid : Nat) {slot : Nat}
    (found : (newpid u tries nextpid).1 = some slot) :
    InRange slot ∧ (u.proctab slot).prstate = .free := by
  induction tries generalizing nextpid with
  | zero => cases found
  | succ tries induction =>
      unfold newpid at found
      dsimp only at found
      split_ifs at found with free
      · cases found
        refine ⟨?_, free⟩
        have below := Nat.mod_lt nextpid nullFits
        unfold InRange
        omega
      · exact induction _ found

/-- The entry of a new process. -/
def newProc (u : Kernel Q) (slot priority : Int) : Procent :=
  { u.proctab slot with
    prstate := .susp
    prprio := priority
    prsem := -1
    prparent := u.currpid
    prhasmsg := false }

/-- `create` fails, or it takes a free entry. -/
theorem create_cases (priority : Int) (stack : Bool) :
    (∃ nextpid, create u priority stack = ({ u with nextpid := nextpid }, some sysErr)) ∨
      ∃ slot nextpid : Nat, InRange slot ∧ (u.proctab slot).prstate = .free ∧
        create u priority stack =
          ((({ u with nextpid := nextpid, prcount := u.prcount + 1 }).setProc slot
            (newProc u slot priority)).setRest slot none, some (slot : Int)) := by
  unfold create
  split
  · exact Or.inl ⟨u.nextpid, rfl⟩
  · dsimp only
    cases found : (newpid u nproc u.nextpid).1 with
    | none => exact Or.inl ⟨_, rfl⟩
    | some slot =>
        dsimp only
        split
        · exact Or.inl ⟨_, rfl⟩
        · obtain ⟨inRange, free⟩ := newpid_found _ _ found
          exact Or.inr ⟨slot, _, inRange, free, rfl⟩

end Creation

theorem create_running (priority : Int) (stack : Bool) (runs : Running 0 x) :
    Running 0 (create x priority stack).1 := by
  rcases @create_cases _ _ x priority stack with ⟨nextpid, failed⟩ |
    ⟨slot, nextpid, _, free, made⟩
  · rw [failed]
    exact running_same runs (fun _ => ⟨rfl, rfl⟩) (fun _ => rfl) rfl rfl
  · rw [made]
    have other : (slot : Int) ≠ x.currpid := by
      intro same
      rw [same, runs.running] at free
      cases free
    have notNull : (slot : Int) ≠ nullproc := by
      intro same
      rw [same] at free
      rcases runs.settled.null with state | state <;> rw [state] at free <;> cases free
    have idle : home (x.proctab slot) = none := by simp [home, free]
    exact removed_running runs other notNull rfl (by simp [newProc])
      (runs.settled.placed.idle_drops idle) rfl rfl rfl rfl

theorem resume_running (pid : Int) (runs : Running 0 x) : Running 0 (resume x pid).1 := by
  unfold resume
  split_ifs with bad state
  · exact runs
  · exact runs
  · have suspended : (x.proctab pid).prstate = .susp := not_not.mp state
    exact ready_running (waking_of_idle runs (in_range_of bad) (by simp [home, suspended])
      ⟨by rw [suspended]; decide, by rw [suspended]; decide⟩) (by decide)

theorem suspend_running (pid : Int) (runs : Running 0 x) : Running 0 (suspend x pid).1 := by
  unfold suspend
  split_ifs with bad isReady isCurrent
  · exact runs
  · have other : pid ≠ x.currpid := by
      rintro rfl
      rw [runs.running] at isReady
      cases isReady
    exact removed_running runs other (fun null => bad (Or.inr null)) rfl
      (by simp) getitem_drops rfl rfl rfl rfl
  · have good : ¬isbadpid x pid := fun isBad => bad (Or.inl isBad)
    have same := runs.settled.current pid (in_range_of good) isCurrent
    subst same
    exact stopped_running runs (fun null => bad (Or.inr null)) (Or.inl ⟨rfl, rfl⟩) rfl rfl
      rfl rfl
  · exact runs

theorem chprio_running (pid newprio : Int) (runs : Running 0 x) :
    Running 0 (chprio x pid newprio).1 := by
  unfold chprio
  split_ifs
  · exact runs
  · refine running_same runs (fun other => ?_) (fun _ => rfl) rfl rfl
    by_cases same : other = pid
    · subst same
      simp [Kernel.setProc]
    · simp [Kernel.setProc, same]

theorem yield_running (runs : Running 0 x) : Running 0 (yield x).1 :=
  resched_running runs.settled runs.ndefers

/-- The current process goes to sleep. -/
theorem sleep_as_running {prstate : PrState} {key : Int} (runs : Running 0 x)
    (notNull : x.currpid ≠ nullproc) (sleeps : prstate = .sleep ∨ prstate = .rectim) :
    Running 0 (sleepAs x prstate key) := by
  refine stopped_running runs notNull
    (Or.inr ⟨.sleepq, ?_, insertd_adds key⟩) rfl rfl rfl rfl
  rcases sleeps with rfl | rfl <;> rfl

theorem sleepms_running (delay : Nat) (runs : Running 0 x)
    (awake : x.currpid = nullproc → delay = 0) : Running 0 (sleepms x delay).1 := by
  unfold sleepms
  split_ifs with zero
  · exact yield_running runs
  · exact runs
  · exact sleep_as_running runs (fun null => zero (awake null)) (Or.inl rfl)

theorem recvtime_end_running (runs : Running 0 x) : Running 0 (recvtimeEnd x).1 := by
  unfold recvtimeEnd takeMessage
  split_ifs
  · refine running_same runs (fun other => ?_) (fun _ => rfl) rfl rfl
    by_cases same : other = x.currpid
    · subst same
      simp [Kernel.setProc]
    · simp [Kernel.setProc, same]
  · exact runs

theorem take_message_running (runs : Running 0 x) : Running 0 (takeMessage x).1 := by
  refine running_same runs (fun other => ?_) (fun _ => rfl) rfl rfl
  by_cases same : other = x.currpid
  · subst same
    simp [takeMessage, Kernel.setProc]
  · simp [takeMessage, Kernel.setProc, same]

theorem receive_running (runs : Running 0 x)
    (awake : x.currpid = nullproc → (x.proctab x.currpid).prhasmsg ≠ false) :
    Running 0 (receive x).1 := by
  unfold receive
  split_ifs with waits
  · exact stopped_running runs (fun null => awake null waits) (Or.inl ⟨rfl, rfl⟩) rfl rfl rfl rfl
  · exact take_message_running runs

theorem recvtime_running (maxwait : Int) (runs : Running 0 x)
    (awake : x.currpid = nullproc →
      ¬(0 ≤ maxwait ∧ (x.proctab x.currpid).prhasmsg = false)) :
    Running 0 (recvtime x maxwait).1 := by
  unfold recvtime
  split_ifs with negative waits
  · exact runs
  · exact runs
  · exact sleep_as_running (running_same runs (fun _ => ⟨rfl, rfl⟩) (fun _ => rfl) rfl rfl)
      (fun null => awake null ⟨by omega, waits⟩) (Or.inr rfl)
  · exact recvtime_end_running runs

theorem unsleep_drops (good : ¬isbadpid x pid)
    (sleeps : (x.proctab pid).prstate = .sleep ∨ (x.proctab pid).prstate = .rectim) :
    ∃ l, unsleep x pid = x.setQueues l ∧ Drops pid x.queues l := by
  refine ⟨QueueTable.getitem pid (QueueTable.passDelay pid x.queues), ?_, fun q => ?_⟩
  · unfold unsleep
    rw [if_neg good, if_neg]
    rintro ⟨notSleep, notRectim⟩
    rcases sleeps with state | state
    · exact notSleep state
    · exact notRectim state
  · have dropped := @getitem_drops pid (QueueTable.passDelay pid x.queues) q
    rw [dropped, pass_delay_pids]

theorem stored_running (runs : Running 0 x) (pid : Int) (msg : Nat) :
    Running 0 (x.setProc pid { x.proctab pid with prmsg := msg, prhasmsg := true }) := by
  refine running_same runs (fun other => ?_) (fun _ => rfl) rfl rfl
  by_cases same : other = pid
  · subst same
    simp [Kernel.setProc]
  · simp [Kernel.setProc, same]

/-- A process whose timed receive is ended. -/
theorem waking_of_unsleep (runs : Running 0 x) (inRange : InRange pid)
    (timed : (x.proctab pid).prstate = .rectim) : Waking pid 0 (unsleep x pid) := by
  obtain ⟨l, shape, drops⟩ :=
    unsleep_drops (good_of inRange (by rw [timed]; decide)) (Or.inr timed)
  rw [shape]
  exact waking_of_dropped runs inRange drops
    ⟨by rw [timed]; decide, by rw [timed]; decide, by rw [timed]; decide⟩

theorem send_running (pid : Int) (msg : Nat) (runs : Running 0 x) :
    Running 0 (send x pid msg).1 := by
  unfold send
  split_ifs with bad full waits timed
  · exact runs
  · exact runs
  all_goals
    have stored := stored_running runs pid msg
    have same : ((x.setProc pid { x.proctab pid with prmsg := msg, prhasmsg := true }).proctab
        pid).prstate = (x.proctab pid).prstate := by simp [Kernel.setProc]
  · exact ready_running (waking_of_idle stored (in_range_of bad)
      (by unfold home; rw [same, waits])
      ⟨by rw [same, waits]; decide, by rw [same, waits]; decide⟩) (by decide)
  · exact ready_running (waking_of_unsleep stored (in_range_of bad) (same.trans timed)) (by decide)
  · exact stored

theorem wait_running (sem : Int) (runs : Running 0 x)
    (awake : x.currpid = nullproc →
      ¬(¬isFreeSem x sem ∧ int32 ((x.semtab sem).scount - 1) < 0)) :
    Running 0 (wait x sem).1 := by
  unfold wait
  split_ifs with free
  · exact runs
  · have counts : Running 0 (x.setCount sem ((x.semtab sem).scount - 1)) :=
      running_same runs (fun _ => ⟨rfl, rfl⟩) (fun _ => rfl) rfl rfl
    dsimp only
    split_ifs with negative
    · have value : int32 ((x.semtab sem).scount - 1) < 0 := by
        simpa [Kernel.setCount] using negative
      exact stopped_running counts (fun null => awake null ⟨free, value⟩)
        (Or.inr ⟨.squeue sem, rfl, enqueue_adds⟩) rfl rfl rfl rfl
    · exact counts

theorem signal_running (sem : Int) (runs : Running 0 x) : Running 0 (signal x sem).1 := by
  unfold signal
  split_ifs
  · exact runs
  · exact release_running sem runs (by decide)

theorem signaln_running (sem count : Int) (runs : Running 0 x) :
    Running 0 (signaln x sem count).1 := by
  unfold signaln
  split_ifs
  · exact runs
  · exact runs
  · exact defer_stop_running (iterate_running _
      (fun x runs => release_running sem runs (by decide)) (defer_start_running runs))

theorem semcreate_running (count : Int) (runs : Running 0 x) :
    Running 0 (semcreate x count).1 := by
  unfold semcreate
  split_ifs
  · exact runs
  · dsimp only
    split
    · exact running_same runs (fun _ => ⟨rfl, rfl⟩) (fun _ => rfl) rfl rfl
    · exact running_same runs (fun _ => ⟨rfl, rfl⟩) (fun _ => rfl) rfl rfl

theorem semreset_running (sem count : Int) (runs : Running 0 x) :
    Running 0 (semreset x sem count).1 := by
  unfold semreset
  split_ifs
  · exact runs
  · exact defer_stop_running (running_same (drain_running sem nproc (defer_start_running runs))
      (fun _ => ⟨rfl, rfl⟩) (fun _ => rfl) rfl rfl)

theorem semdelete_running (sem : Int) (runs : Running 0 x) :
    Running 0 (semdelete x sem).1 := by
  unfold semdelete
  split_ifs
  · exact runs
  · have unused : Running 0 { x with
        semtab := Function.update x.semtab sem { x.semtab sem with used := false } } :=
      running_same runs (fun _ => ⟨rfl, rfl⟩) (fun _ => rfl) rfl rfl
    exact defer_stop_running (running_same (iterate_running _
      (fun x runs => ready_first_running sem runs) (defer_start_running unused))
      (fun _ => ⟨rfl, rfl⟩) (fun _ => rfl) rfl rfl)

theorem kill_running (pid : Int) (runs : Running 0 x) (did : kill x pid = some (y, result)) :
    Running 0 y := by
  unfold kill at did
  split_ifs at did
  · cases did
    exact runs
  · cases did
    exact send_running _ _ (running_same runs (fun _ => ⟨rfl, rfl⟩) (fun _ => rfl) rfl rfl)

theorem kill_end_running (runs : Running 0 x) (inRange : InRange pid) (notNull : pid ≠ nullproc) :
    Running 0 (killEnd x pid).1 := by
  have otherOf : (x.proctab pid).prstate ≠ .curr → pid ≠ x.currpid := by
    rintro stopped rfl
    exact stopped runs.running
  unfold killEnd
  split
  · rename_i state
    have same := runs.settled.current pid inRange state
    subst same
    exact stopped_running runs notNull (Or.inl ⟨rfl, rfl⟩) rfl rfl rfl rfl
  · rename_i state
    obtain ⟨l, shape, drops⟩ :=
      unsleep_drops (good_of inRange (by rw [state]; decide)) (Or.inl state)
    rw [shape]
    exact removed_running runs (otherOf (by rw [state]; decide)) notNull rfl (by simp) drops rfl
      rfl rfl rfl
  · rename_i state
    obtain ⟨l, shape, drops⟩ :=
      unsleep_drops (good_of inRange (by rw [state]; decide)) (Or.inr state)
    rw [shape]
    exact removed_running runs (otherOf (by rw [state]; decide)) notNull rfl (by simp) drops rfl
      rfl rfl rfl
  · rename_i state
    exact removed_running runs (otherOf (by rw [state]; decide)) notNull rfl (by simp)
      getitem_drops rfl rfl rfl rfl
  · rename_i state
    exact removed_running runs (otherOf (by rw [state]; decide)) notNull rfl (by simp)
      getitem_drops rfl rfl rfl rfl
  · rename_i notCurr _ _ _ _
    have idle : home (x.proctab pid) = none := by
      unfold home
      split <;> simp_all
    exact removed_running runs (otherOf notCurr) notNull rfl (by simp)
      (runs.settled.placed.idle_drops idle) rfl rfl rfl rfl

theorem clkhandler_running (runs : Running 0 x) : Running 0 (clkhandler x) := by
  have marked : Running 0 (x.setRest x.currpid (some .clock)) :=
    running_same runs (fun _ => ⟨rfl, rfl⟩) (fun _ => rfl) rfl rfl
  unfold clkhandler
  dsimp only
  split_ifs
  · refine defer_stop_running (wakeup_loop_running nproc (defer_start_running ?_))
    exact running_same marked (fun _ => ⟨rfl, rfl⟩) (fun q => count_down_pids q) rfl rfl
  · exact running_same marked (fun _ => ⟨rfl, rfl⟩) (fun q => count_down_pids q) rfl rfl
  · exact marked

theorem time_slice_running (runs : Running 0 x) : Running 0 (timeSlice x) := by
  have counted := fun preempt : Nat => @running_same _ x { x with preempt := preempt } 0 runs
    (fun _ => ⟨rfl, rfl⟩) (fun _ => rfl) rfl rfl
  unfold timeSlice
  dsimp only
  split_ifs
  · exact resched_running (counted _).settled (counted _).ndefers
  · exact counted _

end Calls

omit [Tables] in
/-- What a call leaves, when it is not `kill`. -/
theorem did_state {Q : Type} {v : Kernel Q} {left : Kernel Q × Option Int}
    (did : some left = some (v, result)) : v = left.1 :=
  (congrArg Prod.fst (Option.some.inj did)).symm

section Events

variable {call : Call} {event : Event}

theorem call_running (runs : Running 0 x) (awake : x.currpid = nullproc → ¬Blocks x call)
    (did : doCall x call = some (y, result)) : Running 0 y := by
  cases call with
  | create priority stack => rw [did_state did]; exact create_running priority stack runs
  | resume pid => rw [did_state did]; exact resume_running pid runs
  | suspend pid => rw [did_state did]; exact suspend_running pid runs
  | kill pid => exact kill_running pid runs did
  | chprio pid newprio => rw [did_state did]; exact chprio_running pid newprio runs
  | yield => rw [did_state did]; exact yield_running runs
  | sleepms delay => rw [did_state did]; exact sleepms_running delay runs fun null => not_not.mp (awake null)
  | sleep delay =>
      rw [did_state did]
      unfold sleep
      split_ifs with long
      · exact runs
      · refine sleepms_running _ runs fun null => ?_
        by_contra waits
        exact awake null ⟨by omega, waits⟩
  | send pid msg => rw [did_state did]; exact send_running pid msg runs
  | receive => rw [did_state did]; exact receive_running runs awake
  | recvtime maxwait => rw [did_state did]; exact recvtime_running maxwait runs awake
  | recvclr =>
      rw [did_state did]
      unfold recvclr
      split_ifs
      · exact take_message_running runs
      · exact runs
  | wait sem => rw [did_state did]; exact wait_running sem runs awake
  | signal sem => rw [did_state did]; exact signal_running sem runs
  | signaln sem count => rw [did_state did]; exact signaln_running sem count runs
  | semcreate count => rw [did_state did]; exact semcreate_running count runs
  | semreset sem count => rw [did_state did]; exact semreset_running sem count runs
  | semdelete sem => rw [did_state did]; exact semdelete_running sem runs

theorem rest_running {rest : Rest} (runs : Running 0 x)
    (target : ∀ pid, rest = .kill pid → InRange pid ∧ pid ≠ nullproc) :
    Running 0 (doRest x rest).1 := by
  cases rest with
  | receive => exact take_message_running runs
  | recvtime => exact recvtime_end_running runs
  | kill pid =>
      obtain ⟨inRange, notNull⟩ := target pid rfl
      exact kill_end_running runs inRange notNull
  | clock =>
      simp only [doRest]
      exact time_slice_running runs

end Events

section Pending

variable {Q : Type} [QueueTable Q] {u v : Kernel Q} {call : Call}

theorem send_rest (pid : Int) (msg : Nat) : (send u pid msg).1.rest = u.rest := by
  unfold send
  split_ifs
  · rfl
  · rfl
  · exact scheduled_ready.rest
  · exact (scheduled_unsleep.trans scheduled_ready).rest
  · rfl

theorem sleep_as_rest {prstate : PrState} {key : Int} :
    (sleepAs u prstate key).rest = u.rest := by
  unfold sleepAs
  rw [scheduled_resched.rest]
  rfl

theorem sleepms_rest (delay : Nat) : (sleepms u delay).1.rest = u.rest := by
  unfold sleepms
  split_ifs
  · exact scheduled_resched.rest
  · rfl
  · exact sleep_as_rest

/-- Only `kill` leaves a `kill` to be ended. -/
theorem call_targets (targets : Targets u) (did : doCall u call = some (v, result)) :
    Targets v := by
  have same : v.rest = u.rest → Targets v := by
    intro same pid target pending
    rw [same] at pending
    exact targets pid target pending
  cases call with
  | create priority stack =>
      rw [did_state did]
      rcases @create_cases _ _ u priority stack with ⟨nextpid, failed⟩ |
        ⟨slot, nextpid, _, _, made⟩
      · rw [failed]
        exact targets
      · rw [made]
        intro pid target pending
        by_cases here : pid = slot
        · subst here
          simp [Kernel.setRest] at pending
        · simp only [Kernel.setRest, Kernel.setProc, Function.update_of_ne here] at pending
          exact targets pid target pending
  | resume pid =>
      apply same
      rw [did_state did]
      unfold resume
      split_ifs
      · rfl
      · rfl
      · exact scheduled_ready.rest
  | suspend pid =>
      apply same
      rw [did_state did]
      unfold suspend
      split_ifs
      · rfl
      · rfl
      · exact scheduled_resched.rest
      · rfl
  | kill pid =>
      simp only [doCall, kill] at did
      split_ifs at did with bad
      · cases did
        exact targets
      · cases did
        intro pid' target pending
        rw [send_rest] at pending
        by_cases here : pid' = u.currpid
        · subst here
          simp only [Kernel.setRest, Function.update_self, Option.some.injEq, Rest.kill.injEq]
            at pending
          subst pending
          unfold isbadpid at bad
          unfold InRange
          refine ⟨by omega, fun null => bad (Or.inr null)⟩
        · simp only [Kernel.setRest, Function.update_of_ne here] at pending
          exact targets pid' target pending
  | chprio pid newprio =>
      apply same
      rw [did_state did]
      unfold chprio
      split_ifs <;> rfl
  | yield => exact same (by rw [did_state did]; exact scheduled_resched.rest)
  | sleepms delay => exact same (by rw [did_state did]; exact sleepms_rest delay)
  | sleep delay =>
      apply same
      rw [did_state did]
      unfold sleep
      split_ifs
      · rfl
      · exact sleepms_rest _
  | send pid msg => exact same (by rw [did_state did]; exact send_rest pid msg)
  | receive =>
      rw [did_state did]
      unfold receive
      split_ifs with waits
      · intro pid target pending
        rw [scheduled_resched.rest] at pending
        by_cases here : pid = u.currpid
        · subst here
          simp [Kernel.setRest] at pending
        · simp only [Kernel.setRest, Kernel.setState, Kernel.setProc,
            Function.update_of_ne here] at pending
          exact targets pid target pending
      · exact targets
  | recvtime maxwait =>
      rw [did_state did]
      unfold recvtime
      split_ifs with negative waits bad
      · exact targets
      · exact targets
      · intro pid target pending
        rw [sleep_as_rest] at pending
        by_cases here : pid = u.currpid
        · subst here
          simp [Kernel.setRest] at pending
        · simp only [Kernel.setRest, Function.update_of_ne here] at pending
          exact targets pid target pending
      · unfold recvtimeEnd takeMessage
        split_ifs <;> exact targets
  | recvclr =>
      rw [did_state did]
      unfold recvclr
      split_ifs <;> exact targets
  | wait sem =>
      apply same
      rw [did_state did]
      unfold wait
      split_ifs
      · rfl
      · dsimp only
        split_ifs
        · exact scheduled_resched.rest
        · rfl
  | signal sem =>
      apply same
      rw [did_state did]
      unfold signal
      split_ifs
      · rfl
      · exact (scheduled_release sem).rest
  | signaln sem count =>
      apply same
      rw [did_state did]
      unfold signaln
      split_ifs
      · rfl
      · rfl
      · exact ((scheduled_iterate _ fun x => scheduled_release sem).trans scheduled_defer_stop).rest
  | semcreate count =>
      apply same
      rw [did_state did]
      unfold semcreate
      split_ifs
      · rfl
      · dsimp only
        split <;> rfl
  | semreset sem count =>
      apply same
      rw [did_state did]
      unfold semreset
      split_ifs
      · rfl
      · have drained := scheduled_defer_start.trans (@scheduled_drain _ (deferStart u) _ _ sem nproc)
        exact scheduled_defer_stop.rest.trans drained.rest
  | semdelete sem =>
      apply same
      rw [did_state did]
      unfold semdelete
      split_ifs
      · rfl
      · exact scheduled_defer_stop.rest.trans
          (scheduled_iterate _ fun x => scheduled_ready_first sem).rest

end Pending

section Runs

/-- What holds between any two events. -/
structure Sound (x : Kernel QueueLists) : Prop where
  runs : Running 0 x
  targets : Targets x

/-- An event without the value that its call returns. -/
def step {Q : Type} [QueueTable Q] (x : Kernel Q) (event : Event) : Option (Kernel Q) :=
  (act x event).map Prod.fst

theorem step_some {Q : Type} [QueueTable Q] {u v : Kernel Q} {event : Event}
    (did : step u event = some v) :
    ∃ result, act u event = some (v, result) := by
  obtain ⟨⟨left, result⟩, acted, same⟩ := Option.map_eq_some_iff.mp did
  exact ⟨result, by rw [acted, ← same]⟩

/-- The three kinds of events. -/
theorem act_inv {Q : Type} [QueueTable Q] {u v : Kernel Q} {event : Event}
    (did : act u event = some (v, result)) :
    (∃ call, event = .call call ∧ u.rest u.currpid = none ∧ doCall u call = some (v, result)) ∨
    (event = .tick ∧ u.rest u.currpid = none ∧ v = clkhandler u) ∨
    ∃ rest, event = .finish ∧ u.rest u.currpid = some rest ∧
      (v, result) = doRest (u.setRest u.currpid none) rest := by
  cases event with
  | call call =>
      unfold act at did
      dsimp only at did
      split_ifs at did with idle
      exact Or.inl ⟨call, rfl, idle, did⟩
  | tick =>
      unfold act at did
      dsimp only at did
      split_ifs at did with idle
      exact Or.inr (Or.inl ⟨rfl, idle, did_state did⟩)
  | finish =>
      obtain ⟨rest, pending, ended⟩ := Option.map_eq_some_iff.mp did
      exact Or.inr (Or.inr ⟨rest, rfl, pending, ended.symm⟩)

theorem sound_step {event : Event} (sound : Sound x) (may : NullRuns x event)
    (did : act x event = some (y, result)) : Sound y := by
  obtain ⟨runs, targets⟩ := sound
  rcases act_inv did with ⟨call, rfl, _, called⟩ | ⟨rfl, _, rfl⟩ | ⟨rest, rfl, pending, ended⟩
  · exact ⟨call_running runs may called, call_targets targets called⟩
  · refine ⟨clkhandler_running runs, fun pid target pending => ?_⟩
    rw [scheduled_clock.rest] at pending
    by_cases here : pid = x.currpid
    · subst here
      simp [Kernel.setRest] at pending
    · simp only [Kernel.setRest, Function.update_of_ne here] at pending
      exact targets pid target pending
  · have cleared : Running 0 (x.setRest x.currpid none) :=
      running_same runs (fun _ => ⟨rfl, rfl⟩) (fun _ => rfl) rfl rfl
    have others : Targets (x.setRest x.currpid none) := by
      intro pid target marked
      by_cases here : pid = x.currpid
      · subst here
        simp [Kernel.setRest] at marked
      · simp only [Kernel.setRest, Function.update_of_ne here] at marked
        exact targets pid target marked
    have left : y = (doRest (x.setRest x.currpid none) rest).1 := congrArg Prod.fst ended
    rw [left]
    refine ⟨rest_running cleared ?_, ?_⟩
    · rintro pid rfl
      exact targets _ _ pending
    · have same : (doRest (x.setRest x.currpid none) rest).1.rest =
          (x.setRest x.currpid none).rest := by
        cases rest with
        | receive => rfl
        | recvtime =>
            simp only [doRest, recvtimeEnd, takeMessage]
            split_ifs <;> rfl
        | kill pid =>
            simp only [doRest, killEnd]
            split
            · exact scheduled_resched.rest
            · exact (scheduled_unsleep.trans (scheduled_state _)).rest
            · exact (scheduled_unsleep.trans (scheduled_state _)).rest
            · rfl
            · rfl
            · rfl
        | clock =>
            simp only [doRest]
            exact scheduled_time_slice.rest
      intro pid target marked
      rw [same] at marked
      exact others pid target marked

/-- The kernel after `sysinit`: nobody is on a queue. -/
def Started (x : Kernel QueueLists) : Prop := Booted x ∧ ∀ q, x.queues.queue q = []

theorem sound_started (started : Started x) : Sound x := by
  obtain ⟨booted, empty⟩ := started
  refine ⟨⟨⟨⟨fun q => ?_, fun pid q => ?_⟩, fun pid _ isCurrent => ?_, ?_, Or.inl booted.null⟩,
    ?_, booted.ndefers⟩, fun pid target pending => ?_⟩
  · simp [QueueLists.pids, empty q]
  · have idle : home (x.proctab pid) = none := by
      by_cases null : pid = nullproc
      · subst null
        simp [home, booted.null]
      · simp [home, booted.others pid null]
    simp [QueueLists.pids, empty q, idle]
  · rw [booted.current]
    by_contra other
    rw [booted.others pid other] at isCurrent
    cases isCurrent
  · rw [booted.current]
    exact null_in_range
  · rw [booted.current]
    exact booted.null
  · rw [booted.rest pid] at pending
    cases pending

theorem sound_reached {allowed : Kernel QueueLists → Event → Prop}
    (nullRuns : ∀ x event, allowed x event → NullRuns x event)
    (run : Reached step Started allowed x) : Sound x := by
  refine reached_invariant run (fun _ started => sound_started started) ?_
  intro x y event sound may did
  obtain ⟨result, acted⟩ := step_some did
  exact sound_step sound (nullRuns x event may) acted

end Runs

end Xinu.Sched.CallPlacement
