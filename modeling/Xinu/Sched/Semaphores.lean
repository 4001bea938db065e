import Xinu.Sched.Messages

/-!
# Semaphores

The count of a semaphore in use is negative by the number of processes that wait for it. Waiting
processes leave in the order in which they called `wait`, and no more calls are granted than the
initial count and the signals allow. All of it rests on counts that fit into 32 bits: `signal`
and `signaln` do not look at the largest count.
-/

namespace Xinu.Sched.Semaphores

open Xinu.Kernel.State (PrState nullproc sysErr ok word32)
open Xinu.Sched.Queues Xinu.Sched.Calls Xinu.Sched.Placement Xinu.Sched.Frames
open Xinu.Sched.CallPlacement Xinu.Sched.Priority Xinu.Lib.Interleaving

set_option autoImplicit false

section Definitions

variable {Q : Type}

/-- What a semaphore did since it was created or reset. -/
structure Account where
  initial : Int
  signals : Int
  granted : Int

/-- The kernel with the accounts of its semaphores, and the order in which processes began to
wait. -/
structure Ledger where
  kernel : Kernel QueueLists
  account : Int → Account
  ticket : Int → Nat
  next : Nat

def waiters (x : Kernel QueueLists) (sem : Int) : List Int := x.queues.pids (.squeue sem)

/-- Signals, and the processes that they let go on. -/
def Account.signal (account : Account) (count released : Int) : Account :=
  { account with signals := account.signals + count, granted := account.granted + released }

/-- The accounts behind an event that led to `y` and returned `result`. -/
def accounts (x y : Kernel QueueLists) (account : Int → Account) (event : Event)
    (result : Option Int) : Int → Account :=
  match event with
  | .call (.wait sem) =>
      if result = some ok then
        Function.update account sem ((account sem).signal 0 1)
      else account
  | .call (.signal sem) =>
      if result = some ok then
        Function.update account sem
          ((account sem).signal 1 ((waiters x sem).length - (waiters y sem).length))
      else account
  | .call (.signaln sem count) =>
      if result = some ok then
        Function.update account sem
          ((account sem).signal count ((waiters x sem).length - (waiters y sem).length))
      else account
  | .call (.semcreate count) =>
      match result with
      | some sem =>
          if sem = sysErr then account
          else Function.update account sem { initial := count, signals := 0, granted := 0 }
      | none => account
  | .call (.semreset sem count) =>
      if result = some ok then
        Function.update account sem { initial := count, signals := 0, granted := 0 }
      else account
  | _ => account

/-- A call of `wait` that does not return takes the next ticket. -/
def Queues (event : Event) (result : Option Int) : Prop :=
  match event with
  | .call (.wait _) => result = none
  | _ => False

instance (event : Event) (result : Option Int) : Decidable (Queues event result) := by
  unfold Queues
  split <;> infer_instance

def ledgerStep [Tables] (l : Ledger) (event : Event) : Option Ledger :=
  (act l.kernel event).map fun (y, result) =>
    { kernel := y
      account := accounts l.kernel y l.account event result
      ticket := if Queues event result then
          Function.update l.ticket l.kernel.currpid l.next
        else l.ticket
      next := l.next + 1 }

/-- The event leaves every count of a semaphore in use in 32 bits. -/
def CountsFit [Tables] (x : Kernel Q) : Event → Prop
  | .call (.wait sem) => isFreeSem x sem ∨ -2147483648 < (x.semtab sem).scount
  | .call (.signal sem) => isFreeSem x sem ∨ (x.semtab sem).scount < 2147483647
  | .call (.signaln sem count) => isFreeSem x sem ∨ (x.semtab sem).scount + count ≤ 2147483647
  | .call (.semcreate count) => count ≤ 2147483647
  | .call (.semreset _ count) => count ≤ 2147483647
  | _ => True

instance [Tables] (x : Kernel Q) (event : Event) : Decidable (CountsFit x event) := by
  unfold CountsFit
  split <;> infer_instance

def LedgerStarted [Tables] (l : Ledger) : Prop := Started l.kernel

/-- The null process never blocks, and the counts fit. -/
def LedgerFits [Tables] (l : Ledger) (event : Event) : Prop :=
  NullRuns l.kernel event ∧ CountsFit l.kernel event

instance [Tables] (l : Ledger) (event : Event) : Decidable (LedgerFits l event) :=
  inferInstanceAs (Decidable (_ ∧ _))

/-- As many processes wait as the count is below zero. -/
structure Counted (x : Kernel QueueLists) : Prop where
  unused : ∀ sem, (x.semtab sem).used = false → x.queues.queue (.squeue sem) = []
  waiting : ∀ sem, (x.semtab sem).used = true →
    ((x.queues.queue (.squeue sem)).length : Int) = max (-(x.semtab sem).scount) 0
  small : ∀ sem, (x.semtab sem).used = true → -2147483648 ≤ (x.semtab sem).scount ∧
    (x.semtab sem).scount ≤ 2147483647

/-- What an event does to the processes that wait for a semaphore. -/
inductive QueueChange (x : Kernel QueueLists) (event : Event) (result : Option Int)
    (before after : List Int) : Prop
  | same (pids : after = before)
  | joined (called : Queues event result) (pids : after = before ++ [x.currpid])
  | released (count : Nat) (pids : after = before.drop count)
  | killed (pid : Int) (kill : event = .finish ∧ x.rest x.currpid = some (.kill pid))
      (pids : after = before.filter (· ≠ pid))

/-- Neither the semaphores nor the processes that wait for them change. -/
structure SameSems (x y : Kernel QueueLists) : Prop where
  semtab : y.semtab = x.semtab
  queue : ∀ sem, y.queues.queue (.squeue sem) = x.queues.queue (.squeue sem)

end Definitions

section Frames

variable {x y z : Kernel QueueLists} {pid sem : Int}

theorem SameSems.refl (x : Kernel QueueLists) : SameSems x x := ⟨rfl, fun _ => rfl⟩

theorem SameSems.trans (first : SameSems x y) (second : SameSems y z) : SameSems x z :=
  ⟨second.semtab.trans first.semtab, fun sem => (second.queue sem).trans (first.queue sem)⟩

theorem same_sems_of (semtab : y.semtab = x.semtab) (queues : y.queues = x.queues) :
    SameSems x y := ⟨semtab, fun sem => by rw [queues]⟩

theorem SameSems.behind (later : SameSems y z) (semtab : y.semtab = x.semtab)
    (queues : y.queues = x.queues) : SameSems x z := (same_sems_of semtab queues).trans later

theorem same_sems_set {q : Qid} {entries : List (Int × Int)} (other : ∀ sem, q ≠ .squeue sem) :
    SameSems x (x.setQueues (x.queues.set q entries)) := by
  refine ⟨rfl, fun sem => ?_⟩
  simp [Kernel.setQueues, QueueLists.set, Ne.symm (other sem)]

variable [Tables]

omit [Tables] in
theorem same_sems_pop {q : Qid} (other : ∀ sem, q ≠ .squeue sem) :
    SameSems x (x.setQueues (x.queues.pop q).2) :=
  ⟨rfl, fun sem => queue_pop (Ne.symm (other sem))⟩

theorem semtab_resched : (resched x).semtab = x.semtab := by
  unfold resched Calls.insert
  split_ifs <;> rfl

theorem same_sems_resched : SameSems x (resched x) :=
  ⟨semtab_resched, fun _ => queue_resched (by simp)⟩

theorem semtab_ready : (ready x pid).semtab = x.semtab := by
  unfold ready
  split_ifs
  · rfl
  · rw [semtab_resched]
    unfold Calls.insert
    split_ifs <;> rfl

theorem same_sems_ready : SameSems x (ready x pid) :=
  ⟨semtab_ready, fun _ => queue_ready (by simp)⟩

theorem same_sems_defer_stop : SameSems x (deferStop x) := by
  unfold deferStop
  dsimp only
  split_ifs
  · exact .refl x
  · exact same_sems_resched.behind rfl rfl
  · exact same_sems_of rfl rfl

theorem same_sems_wakeup_loop (fuel : Nat) : SameSems x (wakeupLoop fuel x) := by
  induction fuel generalizing x with
  | zero => exact .refl x
  | succ fuel induction =>
      unfold wakeupLoop
      split_ifs
      · exact (same_sems_pop (by simp)).trans (same_sems_ready.trans induction)
      · exact .refl x

theorem same_sems_wakeup : SameSems x (wakeup x) :=
  ((same_sems_wakeup_loop nproc).trans same_sems_defer_stop).behind rfl rfl

theorem same_sems_clkhandler : SameSems x (clkhandler x) := by
  have marked : SameSems x (x.setRest x.currpid (some .clock)) := same_sems_of rfl rfl
  have counted : SameSems x ((x.setRest x.currpid (some .clock)).setQueues
      (QueueTable.countDown .sleepq x.queues)) :=
    marked.trans (same_sems_set (by simp))
  unfold clkhandler
  dsimp only
  split_ifs
  · exact counted.trans same_sems_wakeup
  · exact counted
  · exact marked

theorem same_sems_time_slice : SameSems x (timeSlice x) := by
  have counted : ∀ preempt, SameSems x { x with preempt := preempt } :=
    fun _ => same_sems_of rfl rfl
  unfold timeSlice
  dsimp only
  split_ifs
  · exact (counted _).trans same_sems_resched
  · exact counted _

/-- A process that waits for no semaphore leaves its queue. -/
theorem same_sems_getitem (settled : Settled x) (idle : (x.proctab pid).prstate ≠ .wait) :
    SameSems x (x.setQueues (QueueTable.getitem pid x.queues)) := by
  refine ⟨rfl, fun sem => List.filter_eq_self.mpr ?_⟩
  intro entry member
  simp only [ne_eq, decide_not, Bool.not_eq_eq_eq_not, Bool.not_true, decide_eq_false_iff_not]
  rintro rfl
  have belongs := ((settled.placed.placed entry.1 (.squeue sem)).mp
    (List.mem_map_of_mem member)).2
  unfold home at belongs
  split at belongs <;> simp_all

theorem same_sems_unsleep (settled : Settled x) : SameSems x (unsleep x pid) := by
  unfold unsleep
  split_ifs with bad asleep
  · exact .refl x
  · exact .refl x
  · have passed : SameSems x (x.setQueues (QueueTable.passDelay pid x.queues)) :=
      same_sems_set (by simp)
    have settledPassed : Settled (x.setQueues (QueueTable.passDelay pid x.queues)) :=
      ⟨settled.placed.same (fun _ => rfl) (fun q => pass_delay_pids q), settled.current,
        settled.inRange, settled.null⟩
    refine passed.trans (same_sems_getitem settledPassed ?_)
    intro waits
    apply asleep
    change (x.proctab pid).prstate = .wait at waits
    rw [waits]
    decide

theorem same_sems_send (runs : Running 0 x) (pid : Int) (msg : Nat) :
    SameSems x (send x pid msg).1 := by
  have stored := stored_running runs pid msg
  have stores : SameSems x (x.setProc pid { x.proctab pid with prmsg := msg, prhasmsg := true }) :=
    same_sems_of rfl rfl
  unfold send
  split_ifs
  · exact .refl x
  · exact .refl x
  · exact stores.trans same_sems_ready
  · exact stores.trans ((same_sems_unsleep stored.settled).trans same_sems_ready)
  · exact stores

theorem same_sems_sleep_as {prstate : PrState} {key : Int} :
    SameSems x (sleepAs x prstate key) := by
  have queued : SameSems x (x.setQueues (QueueTable.insertd x.currpid .sleepq key x.queues)) :=
    same_sems_set (by simp)
  exact queued.trans (same_sems_resched.behind rfl rfl)

end Frames

section Signals

variable [Tables] {x y z : Kernel QueueLists} {sem : Int} {count more : Nat}

/-- The count of a semaphore went up, and as many waiting processes left from the front. -/
structure Signalled (sem : Int) (count : Nat) (x y : Kernel QueueLists) : Prop where
  semtab : y.semtab = Function.update x.semtab sem
    { x.semtab sem with scount := (x.semtab sem).scount + count }
  queue : y.queues.queue (.squeue sem) = (x.queues.queue (.squeue sem)).drop count
  others : ∀ other, other ≠ sem → y.queues.queue (.squeue other) = x.queues.queue (.squeue other)

omit [Tables] in
theorem Signalled.trans (first : Signalled sem count x y) (second : Signalled sem more y z) :
    Signalled sem (count + more) x z := by
  refine ⟨?_, ?_, fun other different =>
    (second.others other different).trans (first.others other different)⟩
  · rw [second.semtab, first.semtab, Function.update_idem, Function.update_self]
    push_cast
    rw [Int.add_assoc]
  · rw [second.queue, first.queue, List.drop_drop]

omit [Tables] in
theorem Signalled.scount (signalled : Signalled sem count x y) :
    (y.semtab sem).scount = (x.semtab sem).scount + count := by
  rw [signalled.semtab, Function.update_self]

omit [Tables] in
theorem Signalled.length (signalled : Signalled sem count x y)
    (waiting : ((x.queues.queue (.squeue sem)).length : Int) = max (-(x.semtab sem).scount) 0) :
    ((y.queues.queue (.squeue sem)).length : Int) = max (-(y.semtab sem).scount) 0 := by
  rw [signalled.scount, signalled.queue, List.length_drop]
  omega

omit [Tables] in
theorem queue_pop_self {q : Qid} : (x.queues.pop q).2.queue q = (x.queues.queue q).tail := by
  cases list : x.queues.queue q with
  | nil =>
      rw [pop_nil list]
      exact list
  | cons entry rest =>
      rw [pop_cons list]
      simp [QueueLists.set]

/-- One turn of `signal`. -/
theorem release_signalled
    (waiting : ((x.queues.queue (.squeue sem)).length : Int) = max (-(x.semtab sem).scount) 0)
    (above : -2147483648 ≤ (x.semtab sem).scount) (small : (x.semtab sem).scount < 2147483647) :
    Signalled sem 1 x (release sem x) := by
  have value : int32 ((x.semtab sem).scount + 1) = (x.semtab sem).scount + 1 :=
    int32_small (by omega) (by omega)
  have counts : (x.setCount sem ((x.semtab sem).scount + 1)).semtab =
      Function.update x.semtab sem
        { x.semtab sem with scount := (x.semtab sem).scount + (1 : Nat) } := by
    simp only [Kernel.setCount, value]
    rfl
  unfold release
  dsimp only
  split_ifs with negative
  · refine ⟨?_, ?_, fun other different => ?_⟩
    · rw [semtab_ready]
      exact counts
    · rw [queue_ready (by simp), List.drop_one]
      exact queue_pop_self
    · rw [queue_ready (by simp)]
      exact queue_pop (by simpa using different)
  · have none : x.queues.queue (.squeue sem) = [] := by
      rw [← List.length_eq_zero_iff]
      omega
    refine ⟨counts, ?_, fun _ _ => rfl⟩
    change x.queues.queue (.squeue sem) = _
    rw [none]
    rfl

theorem iterate_signalled (count : Nat)
    (waiting : ((x.queues.queue (.squeue sem)).length : Int) = max (-(x.semtab sem).scount) 0)
    (above : -2147483648 ≤ (x.semtab sem).scount)
    (small : (x.semtab sem).scount + count ≤ 2147483647) :
    Signalled sem count x (Nat.iterate (release sem) count x) := by
  induction count generalizing x with
  | zero =>
      refine ⟨?_, rfl, fun _ _ => rfl⟩
      rw [Int.natCast_zero, Int.add_zero]
      exact (Function.update_eq_self sem x.semtab).symm
  | succ count induction =>
      push_cast at small
      have first := release_signalled waiting above (by omega)
      have rests := induction (first.length waiting) (by rw [first.scount]; omega)
        (by rw [first.scount]; push_cast; omega)
      have both := first.trans rests
      rw [Nat.add_comm] at both
      exact both

/-- Waiting processes left, and the counts stayed. -/
structure Emptied (sem : Int) (x y : Kernel QueueLists) : Prop where
  semtab : y.semtab = x.semtab
  queue : y.queues.queue (.squeue sem) = []
  others : ∀ other, other ≠ sem → y.queues.queue (.squeue other) = x.queues.queue (.squeue other)

theorem queue_ready_first_self :
    (readyFirst sem x).queues.queue (.squeue sem) = (x.queues.queue (.squeue sem)).tail := by
  unfold readyFirst
  rw [queue_ready (by simp)]
  exact queue_pop_self

theorem ready_first_others {other : Int} (different : other ≠ sem) :
    (readyFirst sem x).queues.queue (.squeue other) = x.queues.queue (.squeue other) :=
  queue_ready_first sem (by simp) (by simpa using different)

theorem iterate_ready_first (count : Nat) :
    (Nat.iterate (readyFirst sem) count x).semtab = x.semtab ∧
      (Nat.iterate (readyFirst sem) count x).queues.queue (.squeue sem) =
        (x.queues.queue (.squeue sem)).drop count ∧
      ∀ other, other ≠ sem → (Nat.iterate (readyFirst sem) count x).queues.queue (.squeue other) =
        x.queues.queue (.squeue other) := by
  induction count generalizing x with
  | zero => exact ⟨rfl, rfl, fun _ _ => rfl⟩
  | succ count induction =>
      obtain ⟨semtab, queue, others⟩ := @induction (readyFirst sem x)
      refine ⟨semtab.trans semtab_ready, ?_, fun other different =>
        (others other different).trans (ready_first_others different)⟩
      rw [Function.iterate_succ_apply, queue, queue_ready_first_self, ← List.drop_one,
        List.drop_drop, Nat.add_comm]

theorem drain_emptied (fuel : Nat) (settled : Running 1 x)
    (enough : (x.queues.queue (.squeue sem)).length ≤ fuel) : Emptied sem x (drain sem fuel x) := by
  induction fuel generalizing x with
  | zero =>
      have none : x.queues.queue (.squeue sem) = [] :=
        List.length_eq_zero_iff.mp (Nat.le_zero.mp enough)
      exact ⟨rfl, none, fun _ _ => rfl⟩
  | succ fuel induction =>
      unfold drain
      split_ifs with isEmpty
      · refine ⟨rfl, ?_, fun _ _ => rfl⟩
        cases list : x.queues.queue (.squeue sem) with
        | nil => rfl
        | cons entry rest =>
            exfalso
            have member : entry.1 ∈ x.queues.pids (.squeue sem) := by simp [QueueLists.pids, list]
            have inRange := ((settled.settled.placed.placed entry.1 (.squeue sem)).mp member).1
            change (x.queues.pop (.squeue sem)).1 = Queues.empty at isEmpty
            rw [pop_cons list] at isEmpty
            unfold InRange at inRange
            unfold Queues.empty at isEmpty
            dsimp only at isEmpty
            omega
      · have shorter : ((readyFirst sem x).queues.queue (.squeue sem)).length ≤ fuel := by
          rw [queue_ready_first_self, List.length_tail]
          omega
        have rests := induction (ready_first_running sem settled) shorter
        exact ⟨rests.semtab.trans semtab_ready, rests.queue, fun other different =>
          (rests.others other different).trans (ready_first_others different)⟩

end Signals

section Steps

variable [Tables] {x y z : Kernel QueueLists} {event : Event} {result : Option Int} {sem : Int}

/-- The count is what the account says, less the processes that still wait. -/
def Balanced (x : Kernel QueueLists) (account : Int → Account) : Prop :=
  ∀ sem, (x.semtab sem).used = true → (x.semtab sem).scount =
    (account sem).initial + (account sem).signals - (account sem).granted -
      (x.queues.queue (.squeue sem)).length

structure Stepped (x : Kernel QueueLists) (event : Event) (y : Kernel QueueLists)
    (result : Option Int) : Prop where
  counted : Counted y
  changes : ∀ sem, QueueChange x event result (waiters x sem) (waiters y sem)
  balanced : ∀ account, Balanced x account → Balanced y (accounts x y account event result)

omit [Tables] in
theorem waiters_of_queue (queue : y.queues.queue (.squeue sem) = x.queues.queue (.squeue sem)) :
    waiters y sem = waiters x sem := congrArg (List.map Prod.fst) queue

omit [Tables] in
theorem waiters_length (x : Kernel QueueLists) (sem : Int) :
    (waiters x sem).length = (x.queues.queue (.squeue sem)).length := List.length_map _

omit [Tables] in
theorem counted_same (counted : Counted x) (same : SameSems x y) : Counted y := by
  obtain ⟨unused, waiting, small⟩ := counted
  refine ⟨fun sem => ?_, fun sem => ?_, fun sem => ?_⟩
  · rw [same.semtab, same.queue]
    exact unused sem
  · rw [same.semtab, same.queue]
    exact waiting sem
  · rw [same.semtab]
    exact small sem

omit [Tables] in
theorem stepped_same (counted : Counted x) (same : SameSems x y)
    (unchanged : ∀ account, accounts x y account event result = account) :
    Stepped x event y result := by
  refine ⟨counted_same counted same, fun sem => .same (waiters_of_queue (same.queue sem)), ?_⟩
  intro account balanced sem used
  rw [unchanged]
  rw [same.semtab] at used ⊢
  rw [same.queue]
  exact balanced sem used

omit [Tables] in
/-- The count of a semaphore in use changes, and the processes that wait for it. -/
theorem stepped_count {value signals released : Int} (counted : Counted x)
    (used : (x.semtab sem).used = true)
    (semtab : y.semtab = Function.update x.semtab sem { x.semtab sem with scount := value })
    (others : ∀ other, other ≠ sem → y.queues.queue (.squeue other) = x.queues.queue (.squeue other))
    (waiting : ((y.queues.queue (.squeue sem)).length : Int) = max (-value) 0)
    (small : -2147483648 ≤ value ∧ value ≤ 2147483647)
    (change : QueueChange x event result (waiters x sem) (waiters y sem))
    (recorded : ∀ account, accounts x y account event result = Function.update account sem
      ((account sem).signal signals released))
    (balance : value + (y.queues.queue (.squeue sem)).length = (x.semtab sem).scount +
      (x.queues.queue (.squeue sem)).length + signals - released) :
    Stepped x event y result := by
  refine ⟨⟨fun other => ?_, fun other => ?_, fun other => ?_⟩, fun other => ?_, ?_⟩
  · by_cases same : other = sem
    · subst same
      simp [semtab, used]
    · rw [others other same]
      simpa [semtab, same] using counted.unused other
  · by_cases same : other = sem
    · subst same
      rw [semtab, Function.update_self]
      exact fun _ => waiting
    · rw [others other same]
      simpa [semtab, same] using counted.waiting other
  · by_cases same : other = sem
    · subst same
      rw [semtab, Function.update_self]
      exact fun _ => small
    · simpa [semtab, same] using counted.small other
  · by_cases same : other = sem
    · subst same
      exact change
    · exact .same (waiters_of_queue (others other same))
  · intro account balanced other usedOther
    rw [recorded]
    by_cases same : other = sem
    · subst same
      have before := balanced other used
      rw [semtab, Function.update_self, Function.update_self]
      unfold Account.signal
      dsimp only
      omega
    · rw [Function.update_of_ne same, others other same]
      rw [semtab, Function.update_of_ne same] at usedOther ⊢
      exact balanced other usedOther

omit [Tables] in
theorem stepped_signalled {count : Nat} (counted : Counted x) (used : (x.semtab sem).used = true)
    (small : (x.semtab sem).scount + count ≤ 2147483647) (signalled : Signalled sem count x y)
    (recorded : ∀ account, accounts x y account event result = Function.update account sem
      ((account sem).signal count ((waiters x sem).length - (waiters y sem).length))) :
    Stepped x event y result := by
  have inside := counted.small sem used
  have waiting := signalled.length (counted.waiting sem used)
  rw [signalled.scount] at waiting
  refine stepped_count counted used signalled.semtab signalled.others waiting (by omega)
    (.released count ?_) recorded ?_
  · unfold waiters QueueLists.pids
    rw [signalled.queue, List.map_drop]
  · rw [waiters_length, waiters_length]
    omega

omit [Tables] in
/-- The entry of a semaphore is replaced, and nobody waits for it. -/
theorem stepped_replaced {entry : Sentry} {fresh : Account} (counted : Counted x)
    (semtab : y.semtab = Function.update x.semtab sem entry)
    (queue : y.queues.queue (.squeue sem) = [])
    (others : ∀ other, other ≠ sem → y.queues.queue (.squeue other) = x.queues.queue (.squeue other))
    (small : entry.used = true → 0 ≤ entry.scount ∧ entry.scount ≤ 2147483647 ∧
      entry.scount = fresh.initial + fresh.signals - fresh.granted)
    (recorded : ∀ account, accounts x y account event result = Function.update account sem fresh ∨
      entry.used = false ∧ accounts x y account event result = account) :
    Stepped x event y result := by
  refine ⟨⟨fun other => ?_, fun other => ?_, fun other => ?_⟩, fun other => ?_, ?_⟩
  · by_cases same : other = sem
    · subst same
      exact fun _ => queue
    · rw [others other same]
      simpa [semtab, same] using counted.unused other
  · by_cases same : other = sem
    · subst same
      rw [queue, semtab, Function.update_self]
      intro used
      have inside := small used
      simp only [List.length_nil]
      omega
    · rw [others other same]
      simpa [semtab, same] using counted.waiting other
  · by_cases same : other = sem
    · subst same
      rw [semtab, Function.update_self]
      intro used
      have inside := small used
      omega
    · simpa [semtab, same] using counted.small other
  · by_cases same : other = sem
    · subst same
      refine .released (waiters x other).length ?_
      unfold waiters QueueLists.pids
      rw [queue, List.drop_length]
      rfl
    · exact .same (waiters_of_queue (others other same))
  · intro account balanced other used
    by_cases same : other = sem
    · subst same
      rw [semtab, Function.update_self] at used ⊢
      rcases recorded account with set | ⟨unused, _⟩
      · have inside := small used
        rw [set, Function.update_self, queue]
        simp only [List.length_nil]
        omega
      · rw [used] at unused
        cases unused
    · have kept : accounts x y account event result other = account other := by
        rcases recorded account with set | ⟨_, set⟩
        · rw [set, Function.update_of_ne same]
        · rw [set]
      rw [kept, others other same]
      rw [semtab, Function.update_of_ne same] at used ⊢
      exact balanced other used

omit [Tables] in
theorem signal_nothing (account : Int → Account) (sem : Int) :
    Function.update account sem ((account sem).signal 0 0) = account := by
  have same : (account sem).signal 0 0 = account sem := by
    unfold Account.signal
    rw [Int.add_zero, Int.add_zero]
  rw [same, Function.update_eq_self]

omit [Tables] in
/-- A call that refuses its arguments. -/
theorem stepped_refused (counted : Counted x)
    (unchanged : ∀ account, accounts x x account event result = account) :
    Stepped x event x result := stepped_same counted (.refl x) unchanged

theorem used_of (good : ¬isFreeSem x sem) : (x.semtab sem).used = true := by
  unfold isFreeSem at good
  simpa using fun unused => good (Or.inr unused)

theorem stepped_wait (sem : Int) (counted : Counted x)
    (fits : CountsFit x (.call (.wait sem))) :
    Stepped x (.call (.wait sem)) (wait x sem).1 (wait x sem).2 := by
  unfold wait
  split_ifs with free
  · exact stepped_refused counted fun _ => rfl
  · have used := used_of free
    have above := fits.resolve_left free
    have inside := counted.small sem used
    have length := counted.waiting sem used
    have value : int32 ((x.semtab sem).scount - 1) = (x.semtab sem).scount - 1 :=
      int32_small (by omega) (by omega)
    dsimp only
    simp only [Kernel.setCount, Function.update_self, value]
    split_ifs with negative
    · refine @stepped_count _ _ _ _ _ ((x.semtab sem).scount - 1) 0 0 counted used ?_ ?_ ?_
        (by omega) ?_ (fun account => ?_) ?_
      · rw [semtab_resched]
        rfl
      · intro other different
        rw [queue_resched (by simp)]
        exact Function.update_of_ne (by simpa using different) _ _
      · rw [queue_resched (by simp)]
        simp only [Kernel.setProc, Kernel.setQueues, QueueTable.enqueue, QueueLists.set,
          Function.update_self, List.length_append, List.length_singleton]
        push_cast
        omega
      · refine .joined rfl ?_
        unfold waiters QueueLists.pids
        rw [queue_resched (by simp)]
        simp [Kernel.setProc, Kernel.setQueues, QueueTable.enqueue, QueueLists.set]
      · rw [signal_nothing]
        rfl
      · rw [queue_resched (by simp)]
        simp only [Kernel.setProc, Kernel.setQueues, QueueTable.enqueue, QueueLists.set,
          Function.update_self, List.length_append, List.length_singleton]
        push_cast
        omega
    · refine @stepped_count _ _ _ _ _ ((x.semtab sem).scount - 1) 0 1 counted used rfl
        (fun _ _ => rfl) ?_ (by omega) (.same rfl) (fun _ => rfl) ?_
      · dsimp only
        omega
      · dsimp only
        omega

theorem stepped_signal (sem : Int) (counted : Counted x)
    (fits : CountsFit x (.call (.signal sem))) :
    Stepped x (.call (.signal sem)) (signal x sem).1 (signal x sem).2 := by
  unfold signal
  split_ifs with free
  · exact stepped_refused counted fun _ => rfl
  · have used := used_of free
    have small := fits.resolve_left free
    have signalled := release_signalled (counted.waiting sem used) (counted.small sem used).1 small
    exact stepped_signalled counted used (by push_cast; omega) signalled fun _ => rfl

theorem stepped_signaln (sem count : Int) (counted : Counted x)
    (fits : CountsFit x (.call (.signaln sem count))) :
    Stepped x (.call (.signaln sem count)) (signaln x sem count).1 (signaln x sem count).2 := by
  unfold signaln
  split_ifs with bad unused
  · exact stepped_refused counted fun _ => rfl
  · exact stepped_refused counted fun _ => rfl
  · have free : ¬isFreeSem x sem := by
      rintro (badSem | isUnused)
      · exact bad (Or.inl badSem)
      · exact unused isUnused
    have used := used_of free
    have small := fits.resolve_left free
    have nat : (count.toNat : Int) = count := by omega
    have signalled := @iterate_signalled _ (deferStart x) sem count.toNat (counted.waiting sem used)
      (counted.small sem used).1 (by rw [nat]; exact small)
    have stopped := @same_sems_defer_stop (Nat.iterate (release sem) count.toNat (deferStart x))
    have whole : Signalled sem count.toNat x
        (deferStop (Nat.iterate (release sem) count.toNat (deferStart x))) :=
      ⟨stopped.semtab.trans signalled.semtab, (stopped.queue sem).trans signalled.queue,
        fun other different => (stopped.queue other).trans (signalled.others other different)⟩
    refine stepped_signalled counted used (by rw [nat]; exact small) whole fun account => ?_
    rw [nat]
    rfl

theorem newsem_unused (tries nextsem : Nat) {found : Nat}
    (took : (newsem x tries nextsem).1 = some found) : (x.semtab found).used = false := by
  induction tries generalizing nextsem with
  | zero => cases took
  | succ tries induction =>
      unfold newsem at took
      dsimp only at took
      by_cases unused : (x.semtab nextsem).used = false
      · rw [if_pos unused] at took
        cases took
        exact unused
      · rw [if_neg unused] at took
        exact induction _ took

theorem stepped_semcreate (count : Int) (counted : Counted x) (small : count ≤ 2147483647) :
    Stepped x (.call (.semcreate count)) (semcreate x count).1 (semcreate x count).2 := by
  unfold semcreate
  split_ifs with negative
  · exact stepped_refused counted fun _ => rfl
  · dsimp only
    split
    · exact stepped_same counted (same_sems_of rfl rfl) fun _ => rfl
    · rename_i found took
      have unused := newsem_unused _ _ took
      refine @stepped_replaced _ _ _ _ found { used := true, scount := count }
        { initial := count, signals := 0, granted := 0 } counted rfl (counted.unused found unused)
        (fun _ _ => rfl) (fun _ => ⟨Int.not_lt.mp negative, small, by dsimp only; omega⟩) fun account => Or.inl ?_
      have notError : (found : Int) ≠ sysErr := by
        unfold sysErr
        omega
      simp only [accounts, if_neg notError]

theorem stepped_semreset (sem count : Int) (runs : Running 0 x) (counted : Counted x)
    (small : count ≤ 2147483647) :
    Stepped x (.call (.semreset sem count)) (semreset x sem count).1
      (semreset x sem count).2 := by
  unfold semreset
  split_ifs with bad
  · exact stepped_refused counted fun _ => rfl
  · have used := used_of fun free => bad (Or.inr free)
    have started := defer_start_running runs
    have enough := queue_length runs.settled (.squeue sem)
    have emptied := @drain_emptied _ (deferStart x) sem nproc started enough
    have stopped := @same_sems_defer_stop ((drain sem nproc (deferStart x)).setCount sem count)
    have value : int32 count = count := int32_small (by omega) (by omega)
    have semtab : (deferStop ((drain sem nproc (deferStart x)).setCount sem count)).semtab =
        Function.update x.semtab sem { used := true, scount := count } := by
      rw [stopped.semtab, ← used]
      simp only [Kernel.setCount, emptied.semtab, value]
      rfl
    refine @stepped_replaced _ _ _ _ sem { used := true, scount := count }
      { initial := count, signals := 0, granted := 0 } counted semtab
      ((stopped.queue sem).trans emptied.queue)
      (fun other different => (stopped.queue other).trans (emptied.others other different))
      (fun _ => ⟨Int.not_lt.mp fun negative => bad (Or.inl negative), small, by dsimp only; omega⟩)
      fun account => Or.inl rfl

theorem stepped_semdelete (sem : Int) (counted : Counted x) :
    Stepped x (.call (.semdelete sem)) (semdelete x sem).1 (semdelete x sem).2 := by
  unfold semdelete
  split_ifs with free
  · exact stepped_refused counted fun _ => rfl
  · have used := used_of free
    have waiting := counted.waiting sem used
    dsimp only
    let y : Kernel QueueLists := { x with
      semtab := Function.update x.semtab sem { x.semtab sem with used := false } }
    obtain ⟨semtab, queue, others⟩ :=
      @iterate_ready_first _ (deferStart y) sem (-(x.semtab sem).scount).toNat
    let count := if (x.semtab sem).scount < 0 then 1 else (x.semtab sem).scount + 1
    have stopped := @same_sems_defer_stop ((Nat.iterate (readyFirst sem)
      (-(x.semtab sem).scount).toNat (deferStart y)).setCount sem count)
    have none : (x.queues.queue (.squeue sem)).drop (-(x.semtab sem).scount).toNat = [] :=
      List.drop_eq_nil_of_le (by omega)
    have entries : (deferStop ((Nat.iterate (readyFirst sem) (-(x.semtab sem).scount).toNat
        (deferStart y)).setCount sem count)).semtab =
          Function.update x.semtab sem { used := false, scount := int32 count } := by
      rw [stopped.semtab]
      have before : (deferStart y).semtab =
        Function.update x.semtab sem { x.semtab sem with used := false } := rfl
      simp only [Kernel.setCount, semtab, before, Function.update_idem, Function.update_self]
    exact @stepped_replaced _ _ _ _ sem { used := false, scount := int32 count }
      { initial := 0, signals := 0, granted := 0 } counted entries
      ((stopped.queue sem).trans (queue.trans none))
      (fun other different => (stopped.queue other).trans (others other different))
      (fun isUsed => by cases isUsed) fun account => Or.inr ⟨rfl, rfl⟩

end Steps

section Kills

variable [Tables] {x y : Kernel QueueLists} {result : Option Int} {pid : Int}

/-- `killEnd` on a kernel `x` whose pending end of `kill` was taken off `v`. -/
theorem stepped_kill_end {v : Kernel QueueLists} (runs : Running 0 x) (counted : Counted x)
    (inRange : InRange pid)
    (pending : v.rest v.currpid = some (.kill pid)) (semtab : x.semtab = v.semtab)
    (queues : x.queues = v.queues) : Stepped v .finish (killEnd x pid).1 (killEnd x pid).2 := by
  have countedV : Counted v := counted_same counted (same_sems_of semtab.symm queues.symm)
  have start : SameSems v x := same_sems_of semtab queues
  have quiet : ∀ y : Kernel QueueLists, SameSems x y → Stepped v .finish (y.setState pid .free)
      (some ok) := fun y same =>
    stepped_same countedV (start.trans (same.trans (same_sems_of rfl rfl))) fun _ => rfl
  unfold killEnd
  split
  · exact stepped_same countedV (start.trans (same_sems_resched.behind rfl rfl)) fun _ => rfl
  · exact quiet _ (same_sems_unsleep runs.settled)
  · exact quiet _ (same_sems_unsleep runs.settled)
  · rename_i state
    let sem := (x.proctab pid).prsem
    have member : pid ∈ x.queues.pids (.squeue sem) := by
      refine (runs.settled.placed.placed pid _).mpr ⟨inRange, ?_⟩
      unfold home
      rw [state]
    have used : (v.semtab sem).used = true := by
      by_contra unused
      have none := counted.unused sem (by rw [semtab]; simpa using unused)
      rw [QueueLists.pids, none] at member
      cases member
    have length := countedV.waiting sem used
    have inside := countedV.small sem used
    let y := x.setCount sem ((x.semtab sem).scount + 1)
    have drops : Drops pid x.queues (QueueTable.getitem pid y.queues) := getitem_drops
    have fewer : ((QueueTable.getitem pid y.queues : QueueLists).queue (.squeue sem)).length + 1 =
        (v.queues.queue (.squeue sem)).length := by
      have erased : (x.queues.pids (.squeue sem)).filter (· ≠ pid) =
          (x.queues.pids (.squeue sem)).erase pid := by
        rw [(runs.settled.placed.nodup (.squeue sem)).erase_eq_filter]
        exact List.filter_congr fun other _ => by simp [bne, beq_eq_decide]
      have pids := congrArg List.length (drops (.squeue sem))
      rw [erased, List.length_erase_of_mem member] at pids
      have some := List.length_pos_of_mem member
      simp only [QueueLists.pids, List.length_map] at pids some
      rw [← queues]
      omega
    have value : int32 ((v.semtab sem).scount + 1) = (v.semtab sem).scount + 1 :=
      int32_small (by omega) (by omega)
    refine @stepped_count _ _ _ _ sem ((v.semtab sem).scount + 1) 0 0 countedV used ?_ ?_ ?_
      (by omega) (.killed pid ⟨rfl, pending⟩ ?_) (fun account => (signal_nothing account sem).symm) ?_
    · change (x.setCount sem ((x.semtab sem).scount + 1)).semtab = _
      simp only [Kernel.setCount, semtab, value]
    · intro other different
      change (x.queues.queue (.squeue other)).filter _ = _
      rw [← queues]
      refine List.filter_eq_self.mpr ?_
      intro entry inOther
      simp only [ne_eq, decide_not, Bool.not_eq_eq_eq_not, Bool.not_true, decide_eq_false_iff_not]
      rintro rfl
      have here := ((runs.settled.placed.placed entry.1 _).mp member).2
      have there := ((runs.settled.placed.placed entry.1 (.squeue other)).mp
        (List.mem_map_of_mem inOther)).2
      rw [here] at there
      exact different (Qid.squeue.inj (Option.some.inj there)).symm
    · change (((QueueTable.getitem pid y.queues : QueueLists).queue (.squeue sem)).length : Int) = _
      omega
    · have left := drops (.squeue sem)
      rw [queues] at left
      exact left
    · change (v.semtab sem).scount + 1 +
        (((QueueTable.getitem pid y.queues : QueueLists).queue (.squeue sem)).length : Int) = _
      omega
  · rename_i state
    refine quiet _ (same_sems_getitem runs.settled ?_)
    rw [state]
    decide
  · exact quiet _ (.refl x)

end Kills

section Events

variable [Tables] {x y : Kernel QueueLists} {event : Event} {call : Call} {result : Option Int}

theorem same_sems_resume (pid : Int) : SameSems x (resume x pid).1 := by
  unfold resume
  split_ifs
  · exact .refl x
  · exact .refl x
  · exact same_sems_ready

theorem same_sems_suspend (pid : Int) (runs : Running 0 x) : SameSems x (suspend x pid).1 := by
  unfold suspend
  split_ifs with bad isReady
  · exact .refl x
  · have removed := @same_sems_getitem x pid _ runs.settled (by rw [isReady]; decide)
    exact removed.trans (same_sems_of rfl rfl)
  · exact same_sems_resched.behind rfl rfl
  · exact .refl x

theorem same_sems_sleepms (delay : Nat) : SameSems x (sleepms x delay).1 := by
  unfold sleepms
  split_ifs
  · exact same_sems_resched
  · exact .refl x
  · exact same_sems_sleep_as

omit [Tables] in
theorem same_sems_recvtime_end : SameSems x (recvtimeEnd x).1 := by
  unfold recvtimeEnd
  split_ifs <;> exact same_sems_of rfl rfl

theorem same_sems_recvtime (maxwait : Int) : SameSems x (recvtime x maxwait).1 := by
  unfold recvtime
  split_ifs
  · exact .refl x
  · exact .refl x
  · exact same_sems_sleep_as.behind rfl rfl
  · exact same_sems_recvtime_end

theorem same_sems_receive : SameSems x (receive x).1 := by
  unfold receive
  split_ifs
  · exact same_sems_resched.behind rfl rfl
  · exact same_sems_of rfl rfl

theorem same_sems_kill (pid : Int) (runs : Running 0 x) (did : kill x pid = some (y, result)) :
    SameSems x y := by
  unfold kill at did
  split_ifs at did
  · cases did
    exact .refl x
  · cases did
    have marked : Running 0 ((({ x with prcount := x.prcount - 1 } : Kernel QueueLists).setRest
        x.currpid (some (.kill pid)))) :=
      running_same runs (fun _ => ⟨rfl, rfl⟩) (fun _ => rfl) rfl rfl
    exact (same_sems_send marked _ _).behind rfl rfl

theorem same_sems_create (priority : Int) (stack : Bool) :
    SameSems x (create x priority stack).1 := by
  rcases @create_cases _ _ x priority stack with ⟨nextpid, failed⟩ | ⟨slot, nextpid, _, _, made⟩
  · rw [failed]
    exact same_sems_of rfl rfl
  · rw [made]
    exact same_sems_of rfl rfl

theorem stepped_call (runs : Running 0 x) (counted : Counted x)
    (fits : CountsFit x (.call call)) (did : doCall x call = some (y, result)) :
    Stepped x (.call call) y result := by
  have quiet : ∀ left : Kernel QueueLists × Option Int, some left = some (y, result) →
      SameSems x left.1 → (∀ account, accounts x y account (.call call) result = account) →
      Stepped x (.call call) y result := by
    intro left same sems unchanged
    cases same
    exact stepped_same counted sems unchanged
  have steps : ∀ left : Kernel QueueLists × Option Int, some left = some (y, result) →
      Stepped x (.call call) left.1 left.2 → Stepped x (.call call) y result := by
    intro left same stepped
    cases same
    exact stepped
  cases call with
  | create priority stack => exact quiet _ did (same_sems_create priority stack) fun _ => rfl
  | resume pid => exact quiet _ did (same_sems_resume pid) fun _ => rfl
  | suspend pid => exact quiet _ did (same_sems_suspend pid runs) fun _ => rfl
  | kill pid => exact stepped_same counted (same_sems_kill pid runs did) fun _ => rfl
  | chprio pid newprio =>
      refine quiet _ did ?_ fun _ => rfl
      unfold chprio
      split_ifs <;> exact same_sems_of rfl rfl
  | yield => exact quiet _ did same_sems_resched fun _ => rfl
  | sleepms delay => exact quiet _ did (same_sems_sleepms delay) fun _ => rfl
  | sleep delay =>
      refine quiet _ did ?_ fun _ => rfl
      unfold sleep
      split_ifs
      · exact .refl x
      · exact same_sems_sleepms _
  | send pid msg => exact quiet _ did (same_sems_send runs pid msg) fun _ => rfl
  | receive => exact quiet _ did same_sems_receive fun _ => rfl
  | recvtime maxwait => exact quiet _ did (same_sems_recvtime maxwait) fun _ => rfl
  | recvclr =>
      refine quiet _ did ?_ fun _ => rfl
      unfold recvclr
      split_ifs <;> exact same_sems_of rfl rfl
  | wait sem => exact steps _ did (stepped_wait sem counted fits)
  | signal sem => exact steps _ did (stepped_signal sem counted fits)
  | signaln sem count => exact steps _ did (stepped_signaln sem count counted fits)
  | semcreate count => exact steps _ did (stepped_semcreate count counted fits)
  | semreset sem count => exact steps _ did (stepped_semreset sem count runs counted fits)
  | semdelete sem => exact steps _ did (stepped_semdelete sem counted)

theorem stepped_event (sound : Sound x) (counted : Counted x) (fits : CountsFit x event)
    (did : act x event = some (y, result)) : Stepped x event y result := by
  rcases act_inv did with ⟨call, rfl, _, called⟩ | ⟨rfl, _, rfl⟩ | ⟨rest, rfl, pending, ended⟩
  · exact stepped_call sound.runs counted fits called
  · exact stepped_same counted same_sems_clkhandler fun _ => rfl
  · have cleared : Running 0 (x.setRest x.currpid none) :=
      running_same sound.runs (fun _ => ⟨rfl, rfl⟩) (fun _ => rfl) rfl rfl
    have clears : SameSems x (x.setRest x.currpid none) := same_sems_of rfl rfl
    have quiet : SameSems (x.setRest x.currpid none) (doRest (x.setRest x.currpid none) rest).1 →
        Stepped x .finish y result := by
      intro same
      have left : y = (doRest (x.setRest x.currpid none) rest).1 := congrArg Prod.fst ended
      rw [left]
      exact stepped_same counted (clears.trans same) fun _ => rfl
    cases rest with
    | receive => exact quiet (same_sems_of rfl rfl)
    | recvtime => exact quiet same_sems_recvtime_end
    | clock =>
        refine quiet ?_
        simp only [doRest]
        exact same_sems_time_slice
    | kill pid =>
        obtain ⟨inRange, _⟩ := sound.targets _ _ pending
        have stepped := stepped_kill_end cleared (counted_same counted clears) inRange pending
          rfl rfl
        simp only [doRest] at ended
        rw [← ended] at stepped
        exact stepped

end Events

section Results

variable [Tables] {l : Ledger}

structure Kept (l : Ledger) : Prop where
  sound : Sound l.kernel
  counted : Counted l.kernel
  balanced : Balanced l.kernel l.account
  sorted : ∀ sem, (waiters l.kernel sem).Pairwise fun pid other => l.ticket pid < l.ticket other
  before : ∀ sem, ∀ pid ∈ waiters l.kernel sem, l.ticket pid < l.next

theorem kept_started (started : LedgerStarted l) : Kept l := by
  have empty : ∀ sem, waiters l.kernel sem = [] := by
    intro sem
    unfold waiters QueueLists.pids
    rw [started.2]
    rfl
  have unused : ∀ sem, (l.kernel.semtab sem).used = true → False := by
    intro sem used
    rw [started.1.sems] at used
    cases used
  refine ⟨sound_started started, ⟨fun sem _ => started.2 _, ?_, ?_⟩, ?_, ?_, ?_⟩
  · exact fun sem used => (unused sem used).elim
  · exact fun sem used => (unused sem used).elim
  · exact fun sem used => (unused sem used).elim
  · intro sem
    rw [empty]
    exact List.Pairwise.nil
  · intro sem pid member
    rw [empty] at member
    cases member

/-- The tickets stay in order when somebody joins at the end, and when others leave. -/
theorem kept_step {l' : Ledger} {event : Event} (kept : Kept l) (may : LedgerFits l event)
    (did : ledgerStep l event = some l') : Kept l' := by
  obtain ⟨⟨y, result⟩, acted, rfl⟩ := Option.map_eq_some_iff.mp did
  have stepped := stepped_event kept.sound kept.counted may.2 acted
  have sound := sound_step kept.sound may.1 acted
  let ticket := if Queues event result then Function.update l.ticket l.kernel.currpid l.next
    else l.ticket
  have sameTicket : ∀ sem, ∀ pid ∈ waiters l.kernel sem, ticket pid = l.ticket pid := by
    intro sem pid member
    have waits := ((kept.sound.runs.settled.placed.placed pid _).mp member).2
    have other : pid ≠ l.kernel.currpid := by
      rintro rfl
      unfold home at waits
      rw [kept.sound.runs.running] at waits
      cases waits
    unfold ticket
    split_ifs
    · exact Function.update_of_ne other _ _
    · rfl
  have sorted : ∀ sem, (waiters l.kernel sem).Pairwise fun pid other =>
      ticket pid < ticket other := by
    intro sem
    refine (kept.sorted sem).imp_of_mem fun here there less => ?_
    rw [sameTicket sem _ here, sameTicket sem _ there]
    exact less
  have before : ∀ sem, ∀ pid ∈ waiters l.kernel sem, ticket pid < l.next := by
    intro sem pid member
    rw [sameTicket sem pid member]
    exact kept.before sem pid member
  refine ⟨sound, stepped.counted, stepped.balanced _ kept.balanced, fun sem => ?_, ?_⟩
  · change (waiters y sem).Pairwise fun pid other => ticket pid < ticket other
    cases stepped.changes sem with
    | same pids =>
        rw [pids]
        exact sorted sem
    | joined called pids =>
        have newest : ticket l.kernel.currpid = l.next := by
          unfold ticket
          rw [if_pos called, Function.update_self]
        rw [pids, List.pairwise_append]
        refine ⟨sorted sem, List.pairwise_singleton _ _, fun pid member other last => ?_⟩
        rw [List.mem_singleton.mp last, newest]
        exact before sem pid member
    | released count pids =>
        rw [pids]
        exact (sorted sem).sublist (List.drop_sublist _ _)
    | killed pid _ pids =>
        rw [pids]
        exact (sorted sem).sublist List.filter_sublist
  · intro sem pid member
    change ticket pid < l.next + 1
    change pid ∈ waiters y sem at member
    have old : pid ∈ waiters l.kernel sem → ticket pid < l.next + 1 := fun waits =>
      Nat.lt_succ_of_lt (before sem pid waits)
    cases stepped.changes sem with
    | same pids => exact old (pids ▸ member)
    | joined called pids =>
        rw [pids] at member
        rcases List.mem_append.mp member with waits | last
        · exact old waits
        · rw [List.mem_singleton.mp last]
          unfold ticket
          rw [if_pos called, Function.update_self]
          exact Nat.lt_succ_self _
    | released count pids => exact old (List.mem_of_mem_drop (pids ▸ member))
    | killed other _ pids => exact old (List.mem_of_mem_filter (pids ▸ member))

/-- Who leaves a queue other than by being killed has everybody in front of it leave, too. -/
theorem leaves_in_order {y : Kernel QueueLists} {event : Event} {result : Option Int} {sem : Int}
    (kept : Kept l) (change : QueueChange l.kernel event result (waiters l.kernel sem)
      (waiters y sem)) {pid : Int} (waited : pid ∈ waiters l.kernel sem)
    (left : pid ∉ waiters y sem)
    (alive : ¬(event = .finish ∧ l.kernel.rest l.kernel.currpid = some (.kill pid))) :
    ∀ other ∈ waiters l.kernel sem, l.ticket other < l.ticket pid → other ∉ waiters y sem := by
  intro other waits earlier
  cases change with
  | same pids => exact absurd (pids ▸ waited) left
  | joined called pids =>
      rw [pids] at left
      exact absurd (List.mem_append_left _ waited) left
  | released count pids =>
      rw [pids] at left ⊢
      intro stays
      have front : pid ∈ (waiters l.kernel sem).take count := by
        rw [← List.take_append_drop count (waiters l.kernel sem)] at waited
        exact (List.mem_append.mp waited).resolve_right left
      have sorted := kept.sorted sem
      rw [← List.take_append_drop count (waiters l.kernel sem), List.pairwise_append] at sorted
      have later := sorted.2.2 pid front other stays
      omega
  | killed who kill pids =>
      have isKilled : pid = who := by
        by_contra different
        rw [pids] at left
        exact left (List.mem_filter.mpr ⟨waited, by simpa using different⟩)
      exact absurd (isKilled ▸ kill) alive

/-- In a run whose counts fit, a semaphore's count and queue agree, no more calls of `wait` were
granted than the initial count and the signals since then, and the next event lets processes go in
the order in which they began to wait. -/
theorem semaphores_agree (run : Reached ledgerStep LedgerStarted LedgerFits l) :
    (∀ sem, (l.kernel.semtab sem).used = true →
      ((l.kernel.semtab sem).scount < 0 →
        ((waiters l.kernel sem).length : Int) = -(l.kernel.semtab sem).scount) ∧
      (0 ≤ (l.kernel.semtab sem).scount → waiters l.kernel sem = []) ∧
      (l.account sem).granted ≤ (l.account sem).initial + (l.account sem).signals) ∧
    ∀ event y result, LedgerFits l event → act l.kernel event = some (y, result) →
      ∀ sem, ∀ pid ∈ waiters l.kernel sem, pid ∉ waiters y sem →
        ¬(event = .finish ∧ l.kernel.rest l.kernel.currpid = some (.kill pid)) →
        ∀ other ∈ waiters l.kernel sem, l.ticket other < l.ticket pid →
          other ∉ waiters y sem := by
  have kept : Kept l :=
    reached_invariant run (fun _ started => kept_started started) fun _ _ _ kept may did =>
      kept_step kept may did
  refine ⟨fun sem used => ⟨fun negative => ?_, fun positive => ?_, ?_⟩, ?_⟩
  · have length := kept.counted.waiting sem used
    rw [waiters_length]
    omega
  · have length := kept.counted.waiting sem used
    rw [← List.length_eq_zero_iff, waiters_length]
    omega
  · have length := kept.counted.waiting sem used
    have balance := kept.balanced sem used
    omega
  · intro event y result may did sem pid waited left alive
    exact leaves_in_order kept ((stepped_event kept.sound kept.counted may.2 did).changes sem)
      waited left alive

end Results

section Overflow

/-- Process 1 waits for a semaphore, and the null process signals it. -/
def waitAndSignal : List Event :=
  [.call (.create 20 true), .call (.resume 1), .call (.semcreate 0), .call (.wait 0),
    .call (.signal 0)]

theorem semaphores_agree_granted :
    let _ : Tables := eight
    ∃ l : Ledger, (l.account 0).granted = 1 ∧
      (l.account 0).granted ≤ (l.account 0).initial + (l.account 0).signals := by
  let _ : Tables := eight
  let start : Ledger := {
    kernel := booted
    account := fun _ => { initial := 0, signals := 0, granted := 0 }
    ticket := fun _ => 0
    next := 0 }
  have results : (takeEvents ledgerStep LedgerFits waitAndSignal start).map (fun l =>
      ((l.kernel.semtab 0).used, (l.account 0).granted)) = some (true, 1) := by
    decide +kernel
  obtain ⟨l, took, values⟩ := Option.map_eq_some_iff.mp results
  obtain ⟨used, granted⟩ := Prod.mk.inj values
  have started : LedgerStarted start := booted_started
  exact ⟨l, granted, ((semaphores_agree (take_events (.start started) took)).1 0 used).2.2⟩

/-- A signal to a semaphore with the largest count makes the count negative, and nobody waits. -/
theorem signal_overflows :
    let _ : Tables := eight
    ∃ x : Kernel QueueLists, Reached step Started NullRuns x ∧ (x.semtab 0).used = true ∧
      (x.semtab 0).scount < 0 ∧
      ((waiters x 0).length : Int) ≠ -(x.semtab 0).scount := by
  let _ : Tables := eight
  have results : (takeEvents step NullRuns [.call (.semcreate 2147483647), .call (.signal 0)]
      booted).map (fun x => ((x.semtab 0).used, (x.semtab 0).scount, waiters x 0)) =
        some (true, -2147483648, []) := by
    decide +kernel
  obtain ⟨x, took, values⟩ := Option.map_eq_some_iff.mp results
  simp only [Prod.mk.injEq] at values
  obtain ⟨used, count, nobody⟩ := values
  refine ⟨x, take_events (.start booted_started) took, used, ?_, ?_⟩
  · rw [count]
    decide
  · rw [count, nobody]
    decide

end Overflow

end Xinu.Sched.Semaphores
