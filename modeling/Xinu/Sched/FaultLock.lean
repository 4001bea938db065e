import Xinu.Sched.Semaphores

/-!
# The lock of the page-fault handler

`pf_handler` and `init_pd` do their work between `wait(pf_sem)` and `signal(pf_sem)`, and may block
there for the disk. `kill` gives back the count of a semaphore that its victim waits for, but not a
semaphore that it has got.
-/

namespace Xinu.Sched.FaultLock

open Xinu.Kernel.State (PrState nullproc sysErr ok word32)
open Xinu.Sched.Queues Xinu.Sched.Calls Xinu.Sched.Placement Xinu.Sched.Frames
open Xinu.Sched.CallPlacement Xinu.Sched.Priority Xinu.Sched.Semaphores Xinu.Lib.Interleaving

set_option autoImplicit false

section Definitions

/-- The kernel and the processes that have got `pf_sem` and not given it back. -/
structure Machine where
  kernel : Kernel QueueLists
  inside : Int → Bool

inductive Step where
  /-- The current process enters the critical section of `pf_handler` or `init_pd`. -/
  | wait
  | signal
  /-- Anything else, inside of a critical section or outside -/
  | other (event : Event)

/-- The event is a call on the semaphore. -/
def OnSemaphore (sem : Int) : Event → Prop
  | .call (.wait other) => other = sem
  | .call (.signal other) => other = sem
  | .call (.signaln other _) => other = sem
  | .call (.semreset other _) => other = sem
  | .call (.semdelete other) => other = sem
  | _ => False

instance (sem : Int) : (event : Event) → Decidable (OnSemaphore sem event)
  | .call (.wait other) => inferInstanceAs (Decidable (other = sem))
  | .call (.signal other) => inferInstanceAs (Decidable (other = sem))
  | .call (.signaln other _) => inferInstanceAs (Decidable (other = sem))
  | .call (.semreset other _) => inferInstanceAs (Decidable (other = sem))
  | .call (.semdelete other) => inferInstanceAs (Decidable (other = sem))
  | .call (.create _ _) | .call (.resume _) | .call (.suspend _) | .call (.kill _)
  | .call (.chprio _ _) | .call .yield | .call (.sleepms _) | .call (.sleep _) | .call (.send _ _)
  | .call .receive | .call (.recvtime _) | .call .recvclr | .call (.semcreate _) | .tick
  | .finish => .isFalse id

def Step.event (sem : Int) : Step → Event
  | .wait => .call (.wait sem)
  | .signal => .call (.signal sem)
  | .other event => event

/-- `pf_sem` is used by the two sections only. -/
def Can (sem : Int) (m : Machine) : Step → Prop
  | .wait => m.inside m.kernel.currpid = false
  | .signal => m.inside m.kernel.currpid = true
  | .other event => ¬OnSemaphore sem event

instance (sem : Int) (m : Machine) (step : Step) : Decidable (Can sem m step) := by
  unfold Can
  split <;> infer_instance

/-- The processes inside behind a step that has led to `y`. A process that waits is inside as soon
as a `signal` lets it go on. -/
def insideAfter (sem : Int) (m : Machine) (y : Kernel QueueLists) (result : Option Int) :
    Step → Int → Bool
  | .wait =>
      if result = some ok then Function.update m.inside m.kernel.currpid true else m.inside
  | .signal =>
      if result = some ok then
        fun pid => decide (pid ∈ waiters m.kernel sem ∧ pid ∉ waiters y sem) ||
          decide (pid ≠ m.kernel.currpid) && m.inside pid
      else m.inside
  | .other .finish =>
      match m.kernel.rest m.kernel.currpid with
      | some (.kill pid) => Function.update m.inside pid false
      | _ => m.inside
  | .other _ => m.inside

variable [Tables]

def lockStep (sem : Int) (m : Machine) (step : Step) : Option Machine :=
  if Can sem m step then
    (act m.kernel (step.event sem)).map fun (y, result) =>
      { kernel := y, inside := insideAfter sem m y result step }
  else none

/-- `initialize_paging` has created the semaphore with a count of 1. -/
def LockStarted (sem : Int) (m : Machine) : Prop :=
  (∃ l : Ledger, Reached ledgerStep LedgerStarted LedgerFits l ∧ sem ≠ sysErr ∧
    act l.kernel (.call (.semcreate 1)) = some (m.kernel, some sem)) ∧
  m.inside = fun _ => false

/-- No process is killed that is inside. -/
def SparesInside (m : Machine) : Step → Prop
  | .other .finish => ∀ pid, m.kernel.rest m.kernel.currpid = some (.kill pid) →
      m.inside pid = false
  | _ => True

def LockFits (sem : Int) (m : Machine) (step : Step) : Prop :=
  NullRuns m.kernel (step.event sem) ∧ CountsFit m.kernel (step.event sem)

/-- A process holds the lock, as far as the count says so. -/
def LockHeld (sem : Int) (m : Machine) : Prop :=
  (m.kernel.semtab sem).scount ≤ 0 → ∃ pid, InRange pid ∧
    (m.kernel.proctab pid).prstate ≠ .free ∧ m.inside pid = true

end Definitions

section Frames

variable [Tables] {sem holder : Int} {x y z : Kernel QueueLists}

/-- The process stays alive, and the semaphore in use. -/
structure Stays (sem holder : Int) (x y : Kernel QueueLists) : Prop where
  lives : (x.proctab holder).prstate ≠ .free → (y.proctab holder).prstate ≠ .free
  used : (x.semtab sem).used = true → (y.semtab sem).used = true

omit [Tables] in
theorem Stays.refl (x : Kernel QueueLists) : Stays sem holder x x := ⟨id, id⟩

omit [Tables] in
theorem Stays.trans (first : Stays sem holder x y) (second : Stays sem holder y z) :
    Stays sem holder x z := ⟨second.lives ∘ first.lives, second.used ∘ first.used⟩

omit [Tables] in
theorem stays_of (tab : y.proctab = x.proctab) (semtab : y.semtab = x.semtab) :
    Stays sem holder x y := by
  constructor
  · rw [tab]
    exact id
  · rw [semtab]
    exact id

omit [Tables] in
theorem stays_proc {pid : Int} {proc : Procent} (alive : proc.prstate ≠ .free) :
    Stays sem holder x (x.setProc pid proc) := by
  refine ⟨fun live => ?_, id⟩
  by_cases same : holder = pid
  · simpa [Kernel.setProc, same] using alive
  · simpa [Kernel.setProc, same] using live

omit [Tables] in
theorem stays_state {pid : Int} {state : PrState} (alive : state ≠ .free) :
    Stays sem holder x (x.setState pid state) := stays_proc alive

omit [Tables] in
theorem stays_count {other count : Int} : Stays sem holder x (x.setCount other count) := by
  refine ⟨id, fun used => ?_⟩
  by_cases same : sem = other
  · subst same
    simpa [Kernel.setCount] using used
  · simpa [Kernel.setCount, same] using used

omit [Tables] in
theorem stays_switch : Stays sem holder x (switch x) :=
  .trans (y := { x with
      currpid := (QueueTable.dequeue .readylist x.queues).1
      queues := (QueueTable.dequeue .readylist x.queues).2
      preempt := quantum }) (stays_of rfl rfl) (stays_state (by decide))

theorem stays_insert {pid key : Int} {q : Qid} : Stays sem holder x (Calls.insert x pid q key) := by
  unfold Calls.insert
  split_ifs
  · exact .refl x
  · exact stays_of rfl rfl

theorem stays_resched : Stays sem holder x (resched x) := by
  unfold resched
  split_ifs
  · exact stays_of rfl rfl
  · exact .refl x
  · exact (stays_state (by decide)).trans (stays_insert.trans stays_switch)
  · exact stays_switch

theorem stays_ready {pid : Int} : Stays sem holder x (ready x pid) := by
  unfold ready
  split_ifs
  · exact .refl x
  · exact (stays_state (by decide)).trans (stays_insert.trans stays_resched)

omit [Tables] in
theorem Stays.behind (later : Stays sem holder y z) (tab : y.proctab = x.proctab)
    (semtab : y.semtab = x.semtab) : Stays sem holder x z := (stays_of tab semtab).trans later

theorem stays_defer_stop : Stays sem holder x (deferStop x) := by
  unfold deferStop
  dsimp only
  split_ifs
  · exact .refl x
  · exact stays_resched.behind rfl rfl
  · exact stays_of rfl rfl

omit [Tables] in
theorem stays_iterate {f : Kernel QueueLists → Kernel QueueLists} (n : Nat)
    (keeps : ∀ x, Stays sem holder x (f x)) : Stays sem holder x (Nat.iterate f n x) := by
  induction n generalizing x with
  | zero => exact .refl x
  | succ n induction => exact (keeps x).trans induction

theorem stays_ready_first (other : Int) : Stays sem holder x (readyFirst other x) :=
  stays_ready.behind rfl rfl

theorem stays_drain (other : Int) (fuel : Nat) : Stays sem holder x (drain other fuel x) := by
  induction fuel generalizing x with
  | zero => exact .refl x
  | succ fuel induction =>
      unfold drain
      split_ifs
      · exact .refl x
      · exact (stays_ready_first other).trans induction

theorem stays_release (other : Int) : Stays sem holder x (release other x) := by
  unfold release
  dsimp only
  split_ifs
  · exact stays_count.trans (stays_ready.behind rfl rfl)
  · exact stays_count

theorem stays_wakeup : Stays sem holder x (wakeup x) := by
  have loop : ∀ fuel (x : Kernel QueueLists), Stays sem holder x (wakeupLoop fuel x) := by
    intro fuel
    induction fuel with
    | zero => exact .refl
    | succ fuel induction =>
        intro x
        unfold wakeupLoop
        split_ifs
        · exact .behind (stays_ready.trans (induction _)) rfl rfl
        · exact .refl x
  exact .behind ((loop nproc _).trans stays_defer_stop) rfl rfl

theorem stays_clkhandler : Stays sem holder x (clkhandler x) := by
  unfold clkhandler
  dsimp only
  split_ifs
  · exact stays_wakeup.behind rfl rfl
  · exact stays_of rfl rfl
  · exact stays_of rfl rfl

theorem stays_time_slice : Stays sem holder x (timeSlice x) := by
  unfold timeSlice
  dsimp only
  split_ifs
  · exact stays_resched.behind rfl rfl
  · exact stays_of rfl rfl

theorem stays_unsleep {pid : Int} : Stays sem holder x (unsleep x pid) := by
  unfold unsleep
  split_ifs
  · exact .refl x
  · exact .refl x
  · exact stays_of rfl rfl

theorem stays_sleep_as {prstate : PrState} {key : Int} (alive : prstate ≠ .free) :
    Stays sem holder x (sleepAs x prstate key) :=
  .behind ((stays_state alive).trans stays_resched) rfl rfl

theorem stays_send (pid : Int) (msg : Nat) : Stays sem holder x (send x pid msg).1 := by
  unfold send
  dsimp only
  split_ifs with bad
  · exact .refl x
  · exact .refl x
  · have stored : Stays sem holder x
        (x.setProc pid { x.proctab pid with prmsg := msg, prhasmsg := true }) := by
      refine stays_proc fun free => bad (Or.inr (Or.inr ?_))
      exact free
    exact stored.trans stays_ready
  · have stored : Stays sem holder x
        (x.setProc pid { x.proctab pid with prmsg := msg, prhasmsg := true }) := by
      refine stays_proc fun free => bad (Or.inr (Or.inr ?_))
      exact free
    exact stored.trans (stays_unsleep.trans stays_ready)
  · refine stays_proc fun free => bad (Or.inr (Or.inr ?_))
    exact free

omit [Tables] in
/-- The current process takes its message. -/
theorem stays_take_message (running : (x.proctab x.currpid).prstate = .curr) :
    Stays sem holder x (takeMessage x).1 := by
  refine stays_proc ?_
  dsimp only
  rw [running]
  decide

end Frames

section Calls

variable [Tables] {sem holder : Int} {x y : Kernel QueueLists} {result : Option Int}

theorem stays_call {call : Call} (running : (x.proctab x.currpid).prstate = .curr)
    (not : ∀ other, call = .semdelete other → other ≠ sem)
    (did : doCall x call = some (y, result)) : Stays sem holder x y := by
  have leaves : ∀ left : Kernel QueueLists × Option Int, some left = some (y, result) →
      Stays sem holder x left.1 → Stays sem holder x y := by
    intro left same stays
    cases same
    exact stays
  cases call with
  | create priority stack =>
      refine leaves _ did ?_
      rcases @create_cases _ _ x priority stack with ⟨nextpid, failed⟩ | ⟨slot, nextpid, _, _, made⟩
      · rw [failed]
        exact stays_of rfl rfl
      · rw [made]
        have alive : (newProc x slot priority).prstate ≠ .free := by
          exact fun free => by cases free
        exact .trans (stays_proc alive) (stays_of rfl rfl)
  | resume pid =>
      refine leaves _ did ?_
      unfold resume
      split_ifs
      · exact .refl x
      · exact .refl x
      · exact stays_ready
  | suspend pid =>
      refine leaves _ did ?_
      unfold suspend
      split_ifs
      · exact .refl x
      · exact .behind (stays_state (by decide)) rfl rfl
      · exact (stays_state (by decide)).trans stays_resched
      · exact .refl x
  | kill pid =>
      change kill x pid = some (y, result) at did
      unfold kill at did
      split_ifs at did
      · cases did
        exact .refl x
      · cases did
        exact .behind (stays_send _ _) rfl rfl
  | chprio pid newprio =>
      refine leaves _ did ?_
      unfold chprio
      split_ifs with bad
      · exact .refl x
      · exact stays_proc fun free => bad (Or.inr (Or.inr free))
  | yield => exact leaves _ did stays_resched
  | sleepms delay =>
      refine leaves _ did ?_
      unfold sleepms
      split_ifs
      · exact stays_resched
      · exact .refl x
      · exact stays_sleep_as (by decide)
  | sleep delay =>
      refine leaves _ did ?_
      unfold sleep sleepms
      split_ifs
      · exact .refl x
      · exact stays_resched
      · exact .refl x
      · exact stays_sleep_as (by decide)
  | send pid msg => exact leaves _ did (stays_send pid msg)
  | receive =>
      refine leaves _ did ?_
      unfold receive
      split_ifs
      · exact (stays_state (by decide)).trans (.behind stays_resched rfl rfl)
      · exact stays_take_message running
  | recvtime maxwait =>
      refine leaves _ did ?_
      unfold recvtime recvtimeEnd
      split_ifs
      · exact .refl x
      · exact .refl x
      · exact .behind (stays_sleep_as (by decide)) rfl rfl
      · exact stays_take_message running
      · exact .refl x
  | recvclr =>
      refine leaves _ did ?_
      unfold recvclr
      split_ifs
      · exact stays_take_message running
      · exact .refl x
  | wait other =>
      refine leaves _ did ?_
      unfold wait
      dsimp only
      split_ifs
      · exact .refl x
      · refine stays_count.trans (.trans (stays_proc ?_) (.behind stays_resched rfl rfl))
        exact fun free => by cases free
      · exact stays_count
  | signal other =>
      refine leaves _ did ?_
      unfold signal
      split_ifs
      · exact .refl x
      · exact stays_release other
  | signaln other count =>
      refine leaves _ did ?_
      unfold signaln
      split_ifs
      · exact .refl x
      · exact .refl x
      · exact .behind
          ((stays_iterate _ fun _ => stays_release other).trans stays_defer_stop) rfl rfl
  | semcreate count =>
      refine leaves _ did ?_
      unfold semcreate
      split_ifs
      · exact .refl x
      · dsimp only
        split
        · exact stays_of rfl rfl
        · rename_i found _
          refine ⟨id, fun used => ?_⟩
          by_cases same : sem = found
          · simp [same]
          · simpa [same] using used
  | semreset other count =>
      refine leaves _ did ?_
      unfold semreset
      split_ifs
      · exact .refl x
      · exact .behind ((stays_drain other nproc).trans (stays_count.trans stays_defer_stop)) rfl rfl
  | semdelete other =>
      have different := not other rfl
      refine leaves _ did ?_
      unfold semdelete
      split_ifs
      · exact .refl x
      · have unused : Stays sem holder x { x with
            semtab := Function.update x.semtab other { x.semtab other with used := false } } :=
          ⟨id, fun used => by simpa [different.symm] using used⟩
        exact unused.trans (.behind ((stays_iterate _ fun _ => stays_ready_first other).trans
          (stays_count.trans stays_defer_stop)) rfl rfl)

theorem stays_kill_end {pid : Int} (other : holder ≠ pid) :
    Stays sem holder x (killEnd x pid).1 := by
  have freed : ∀ y : Kernel QueueLists, Stays sem holder y (y.setState pid .free) := by
    intro y
    refine ⟨fun live => ?_, id⟩
    simpa [Kernel.setState, Kernel.setProc, other] using live
  unfold killEnd
  split
  · exact (freed x).trans stays_resched
  · exact stays_unsleep.trans (freed _)
  · exact stays_unsleep.trans (freed _)
  · exact stays_count.trans (.behind (freed _) rfl rfl)
  · exact .behind (freed _) rfl rfl
  · exact freed x

/-- Only `semdelete` gives a semaphore up, and only the end of `kill` frees a process. -/
theorem stays_event (holder : Int) {event : Event} (runs : Running 0 x)
    (not : event ≠ .call (.semdelete sem))
    (spared : event = .finish → x.rest x.currpid ≠ some (.kill holder))
    (did : act x event = some (y, result)) : Stays sem holder x y := by
  rcases act_inv did with ⟨call, rfl, _, called⟩ | ⟨rfl, _, rfl⟩ | ⟨rest, rfl, pending, ended⟩
  · refine stays_call runs.running ?_ called
    rintro other rfl rfl
    exact not rfl
  · exact stays_clkhandler
  · have left : y = (doRest (x.setRest x.currpid none) rest).1 := congrArg Prod.fst ended
    have running : ((x.setRest x.currpid none).proctab (x.setRest x.currpid none).currpid).prstate =
        .curr := runs.running
    have cleared : Stays sem holder x (x.setRest x.currpid none) := stays_of rfl rfl
    rw [left]
    refine cleared.trans ?_
    cases rest with
    | receive => exact stays_take_message running
    | recvtime =>
        simp only [doRest, recvtimeEnd]
        split_ifs
        · exact stays_take_message running
        · exact .refl _
    | kill pid =>
        refine stays_kill_end ?_
        rintro rfl
        exact spared rfl pending
    | clock =>
        simp only [doRest]
        exact stays_time_slice

end Calls

section Invariant

variable [Tables] {sem : Int} {m m' : Machine} {x y : Kernel QueueLists} {result : Option Int}

/-- The lock is open and nobody is inside, or one process is that is alive. -/
def OneInside (sem : Int) (m : Machine) : Prop :=
  ((m.kernel.semtab sem).scount = 1 ∧ ∀ pid, m.inside pid = false) ∨
    ((m.kernel.semtab sem).scount ≤ 0 ∧ ∃ holder, InRange holder ∧
      (m.kernel.proctab holder).prstate ≠ .free ∧ ∀ pid, m.inside pid = decide (pid = holder))

structure LockKept (sem : Int) (m : Machine) : Prop where
  sound : Sound m.kernel
  counted : Counted m.kernel
  used : (m.kernel.semtab sem).used = true
  inside : OneInside sem m

/-- An event that is no call on the semaphore, and a call of `wait` that blocks -/
def Neutral (sem : Int) (event : Event) (result : Option Int) : Prop :=
  ¬OnSemaphore sem event ∨ event = .call (.wait sem) ∧ result ≠ some ok

omit [Tables] in
/-- Such an event leaves the lock open or taken. -/
theorem count_neutral {event : Event} (counted : Counted x) (used : (x.semtab sem).used = true)
    (usedThen : (y.semtab sem).used = true) (stepped : Stepped x event y result)
    (neutral : Neutral sem event result)
    (fresh : ∀ count, event = .call (.semcreate count) → result ≠ some sem) :
    ((x.semtab sem).scount = 1 → (y.semtab sem).scount = 1) ∧
      ((x.semtab sem).scount ≤ 0 → (y.semtab sem).scount ≤ 0) := by
  let account : Int → Account := fun other => {
    initial := (x.semtab other).scount + (x.queues.queue (.squeue other)).length
    signals := 0
    granted := 0 }
  have balanced : Balanced x account := by
    intro other _
    simp only [account]
    omega
  have unchanged : accounts x y account event result sem = account sem := by
    have update : ∀ {other : Int} {entry : Account}, other ≠ sem →
        Function.update account other entry sem = account sem := fun different =>
      Function.update_of_ne (Ne.symm different) _ _
    cases event with
    | tick => rfl
    | finish => rfl
    | call call =>
        cases call with
        | wait other =>
            rcases neutral with off | ⟨same, refused⟩
            · simp only [accounts]
              split_ifs
              · exact update off
              · rfl
            · simp only [accounts, if_neg refused]
        | signal other =>
            have off : other ≠ sem := neutral.resolve_right fun both => by cases both.1
            simp only [accounts]
            split_ifs
            · exact update off
            · rfl
        | signaln other count =>
            have off : other ≠ sem := neutral.resolve_right fun both => by cases both.1
            simp only [accounts]
            split_ifs
            · exact update off
            · rfl
        | semreset other count =>
            have off : other ≠ sem := neutral.resolve_right fun both => by cases both.1
            simp only [accounts]
            split_ifs
            · exact update off
            · rfl
        | semcreate count =>
            have other := fresh count rfl
            cases result with
            | none => rfl
            | some created =>
                simp only [accounts]
                split_ifs
                · rfl
                · exact update fun same => other (congrArg some same)
        | _ => rfl
  have after := stepped.balanced account balanced sem usedThen
  rw [unchanged] at after
  simp only [account] at after
  have lengths := counted.waiting sem used
  have lengthsThen := stepped.counted.waiting sem usedThen
  omega

theorem wait_granted (fits : CountsFit x (.call (.wait sem)))
    (small : (x.semtab sem).scount ≤ 2147483647) (granted : (wait x sem).2 = some ok) :
    1 ≤ (x.semtab sem).scount ∧ (wait x sem).1.proctab = x.proctab ∧
      ((wait x sem).1.semtab sem).scount = (x.semtab sem).scount - 1 := by
  unfold wait at granted ⊢
  dsimp only at granted ⊢
  split_ifs at granted ⊢ with free negative
  · cases granted
  · have above := fits.resolve_left free
    have value : int32 ((x.semtab sem).scount - 1) = (x.semtab sem).scount - 1 :=
      int32_small (by omega) (by omega)
    simp only [Kernel.setCount, Function.update_self, value] at negative ⊢
    exact ⟨by omega, trivial, trivial⟩

/-- A new semaphore was not in use. -/
theorem created_fresh (count : Int) (used : (x.semtab sem).used = true) (proper : sem ≠ sysErr) :
    (semcreate x count).2 ≠ some sem := by
  unfold semcreate
  split_ifs
  · intro same
    exact proper (Option.some.inj same).symm
  · dsimp only
    split
    · intro same
      exact proper (Option.some.inj same).symm
    · rename_i found took
      intro same
      have unused := newsem_unused _ _ took
      rw [Option.some.inj same] at unused
      have inUse : (x.semtab sem).used = false := unused
      rw [used] at inUse
      cases inUse

theorem parts_kept {event : Event} (kept : LockKept sem m) (may : NullRuns m.kernel event)
    (fits : CountsFit m.kernel event) (acted : act m.kernel event = some (y, result))
    (notDelete : event ≠ .call (.semdelete sem)) :
    Sound y ∧ Stepped m.kernel event y result ∧ (y.semtab sem).used = true := by
  refine ⟨sound_step kept.sound may acted, stepped_event kept.sound kept.counted fits acted, ?_⟩
  refine (stays_event (-1) kept.sound.runs notDelete ?_ acted).used kept.used
  intro _ pending
  have inRange := (kept.sound.targets _ _ pending).1
  unfold InRange at inRange
  omega

/-- A step that is no `wait` that is granted and no `signal` -/
theorem neutral_kept {step : Step} (kept : LockKept sem m) (proper : sem ≠ sysErr)
    (fits : LockFits sem m step) (spares : SparesInside m step)
    (acted : act m.kernel (step.event sem) = some (y, result))
    (neutral : Neutral sem (step.event sem) result)
    (notDelete : step.event sem ≠ .call (.semdelete sem))
    (same : insideAfter sem m y result step = m.inside) :
    LockKept sem { kernel := y, inside := insideAfter sem m y result step } := by
  obtain ⟨sound, stepped, usedThen⟩ := parts_kept kept fits.1 fits.2 acted notDelete
  have fresh : ∀ count, step.event sem = .call (.semcreate count) → result ≠ some sem := by
    intro count same
    rw [same] at acted
    rcases act_inv acted with ⟨call, isCall, _, called⟩ | ⟨isTick, _⟩ | ⟨_, isFinish, _⟩
    · cases isCall
      have created : semcreate m.kernel count = (y, result) := Option.some.inj called
      have none := created_fresh count kept.used proper
      rw [created] at none
      exact none
    · cases isTick
    · cases isFinish
  obtain ⟨staysOpen, staysTaken⟩ :=
    count_neutral kept.counted kept.used usedThen stepped neutral fresh
  refine ⟨sound, stepped.counted, usedThen, ?_⟩
  unfold OneInside
  rw [same]
  rcases kept.inside with ⟨isOpen, nobody⟩ | ⟨isTaken, holder, inRange, live, only⟩
  · exact Or.inl ⟨staysOpen isOpen, nobody⟩
  · refine Or.inr ⟨staysTaken isTaken, holder, inRange, ?_, only⟩
    refine (stays_event holder kept.sound.runs notDelete ?_ acted).lives live
    intro finishes pending
    have isInside : m.inside holder = true := by simp [only]
    cases step with
    | wait => cases finishes
    | signal => cases finishes
    | other event =>
        cases finishes
        have out := spares holder pending
        rw [isInside] at out
        cases out

/-- A `wait` that returns opens the section for the current process. -/
theorem wait_kept (kept : LockKept sem m) (proper : sem ≠ sysErr) (fits : LockFits sem m .wait)
    (acted : act m.kernel (.call (.wait sem)) = some (y, result)) :
    LockKept sem { kernel := y, inside := insideAfter sem m y result .wait } := by
  have notDelete : Event.call (.wait sem) ≠ .call (.semdelete sem) := fun same => by cases same
  by_cases granted : result = some ok
  · obtain ⟨sound, stepped, used⟩ := parts_kept kept fits.1 fits.2 acted notDelete
    have called : wait m.kernel sem = (y, result) := by
      rcases act_inv acted with ⟨call, isCall, _, called⟩ | ⟨isTick, _⟩ | ⟨_, isFinish, _⟩
      · cases isCall
        exact Option.some.inj called
      · cases isTick
      · cases isFinish
    have returned := wait_granted fits.2 (kept.counted.small sem kept.used).2 (by
      rw [called]
      exact granted)
    rw [called] at returned
    obtain ⟨positive, tab, count⟩ := returned
    obtain ⟨isOpen, nobody⟩ : (m.kernel.semtab sem).scount = 1 ∧ ∀ pid, m.inside pid = false :=
      kept.inside.resolve_right fun taken => by
        have isTaken := taken.1
        omega
    refine ⟨sound, stepped.counted, used, Or.inr ⟨?_, m.kernel.currpid,
      kept.sound.runs.settled.inRange, ?_, fun pid => ?_⟩⟩
    · rw [count, isOpen]
      decide
    · rw [tab, kept.sound.runs.running]
      decide
    · simp only [insideAfter, if_pos granted]
      by_cases here : pid = m.kernel.currpid
      · subst here
        simp
      · rw [Function.update_of_ne here, nobody]
        simp [here]
  · refine neutral_kept kept proper fits trivial acted (Or.inr ⟨rfl, granted⟩) notDelete ?_
    simp only [insideAfter, if_neg granted]

/-- A `signal` hands the section to the first process that waits, or opens the lock. -/
theorem signal_kept (kept : LockKept sem m) (isInside : m.inside m.kernel.currpid = true)
    (fits : LockFits sem m .signal)
    (acted : act m.kernel (.call (.signal sem)) = some (y, result)) :
    LockKept sem { kernel := y, inside := insideAfter sem m y result .signal } := by
  have notDelete : Event.call (.signal sem) ≠ .call (.semdelete sem) := fun same => by cases same
  obtain ⟨sound, stepped, used⟩ := parts_kept kept fits.1 fits.2 acted notDelete
  have called : signal m.kernel sem = (y, result) := by
    rcases act_inv acted with ⟨call, isCall, _, called⟩ | ⟨isTick, _⟩ | ⟨_, isFinish, _⟩
    · cases isCall
      exact Option.some.inj called
    · cases isTick
    · cases isFinish
  unfold signal at called
  split_ifs at called with free
  · cases called
    exact kept
  · obtain ⟨rfl, rfl⟩ := Prod.mk.inj called
    have small := fits.2.resolve_left free
    have waiting := kept.counted.waiting sem kept.used
    have signalled := release_signalled waiting (kept.counted.small sem kept.used).1 small
    obtain ⟨isTaken, holder, _, _, only⟩ := kept.inside.resolve_left fun isOpen => by
      have nobody := isOpen.2 m.kernel.currpid
      rw [isInside] at nobody
      cases nobody
    have current : ∀ pid, m.inside pid = decide (pid = m.kernel.currpid) := by
      have here := only m.kernel.currpid
      rw [isInside] at here
      intro pid
      rw [only pid, of_decide_eq_true here.symm]
    have count := signalled.scount
    have queue : waiters (release sem m.kernel) sem = (waiters m.kernel sem).drop 1 := by
      unfold waiters QueueLists.pids
      rw [signalled.queue, List.map_drop]
    have nodup := kept.sound.runs.settled.placed.nodup (.squeue sem)
    have after : ∀ pid, insideAfter sem m (release sem m.kernel) (some ok) .signal pid =
        decide (pid ∈ waiters m.kernel sem ∧ pid ∉ (waiters m.kernel sem).drop 1) := by
      intro pid
      simp only [insideAfter, if_true, queue, current]
      by_cases here : pid = m.kernel.currpid <;> simp [here]
    refine ⟨sound, stepped.counted, used, ?_⟩
    cases list : waiters m.kernel sem with
    | nil =>
        have nobody : (m.kernel.queues.queue (.squeue sem)).length = 0 := by
          rw [← waiters_length, list]
          rfl
        refine Or.inl ⟨?_, fun pid => ?_⟩
        · rw [count]
          push_cast
          omega
        · refine (after pid).trans ?_
          rw [list]
          simp
    | cons first rest =>
        have several : (m.kernel.queues.queue (.squeue sem)).length = rest.length + 1 := by
          rw [← waiters_length, list]
          rfl
        have member : first ∈ m.kernel.queues.pids (.squeue sem) := by
          change first ∈ waiters m.kernel sem
          rw [list]
          exact List.mem_cons_self
        obtain ⟨inRange, home⟩ := (kept.sound.runs.settled.placed.placed first _).mp member
        have live : (m.kernel.proctab first).prstate ≠ .free := by
          intro isFree
          unfold Placement.home at home
          rw [isFree] at home
          cases home
        have notFinish : Event.call (.signal sem) ≠ .finish := fun same => by cases same
        have stays := stays_event first kept.sound.runs notDelete
          (fun finishes => absurd finishes notFinish) acted
        refine Or.inr ⟨?_, first, inRange, stays.lives live, fun pid => ?_⟩
        · rw [count]
          push_cast
          omega
        · have apart : first ∉ rest := by
            change (waiters m.kernel sem).Nodup at nodup
            rw [list] at nodup
            exact (List.nodup_cons.mp nodup).1
          refine (after pid).trans ?_
          rw [list]
          by_cases here : pid = first
          · subst here
            simp [apart]
          · simp [here]

theorem lock_kept {step : Step} (kept : LockKept sem m) (proper : sem ≠ sysErr)
    (fits : LockFits sem m step) (spares : SparesInside m step)
    (did : lockStep sem m step = some m') : LockKept sem m' := by
  unfold lockStep at did
  split_ifs at did with can
  obtain ⟨⟨y, result⟩, acted, rfl⟩ := Option.map_eq_some_iff.mp did
  cases step with
  | wait => exact wait_kept kept proper fits acted
  | signal => exact signal_kept kept can fits acted
  | other event =>
      refine neutral_kept kept proper fits spares acted (Or.inl can) ?_ ?_
      · rintro rfl
        exact can rfl
      · cases event with
        | call call => rfl
        | tick => rfl
        | finish =>
            simp only [insideAfter]
            split
            · rename_i pid pending
              rw [← spares pid pending]
              exact Function.update_eq_self pid m.inside
            · rfl

theorem lock_held (kept : LockKept sem m) : LockHeld sem m := by
  intro isTaken
  rcases kept.inside with ⟨isOpen, _⟩ | ⟨_, holder, inRange, live, only⟩
  · omega
  · exact ⟨holder, inRange, live, by simp [only]⟩

theorem lock_started (started : LockStarted sem m) : sem ≠ sysErr ∧ LockKept sem m := by
  obtain ⟨⟨l, run, proper, acted⟩, nobody⟩ := started
  have kept : Kept l :=
    reached_invariant run (fun _ started => kept_started started) fun _ _ _ kept may did =>
      kept_step kept may did
  have fits : CountsFit l.kernel (.call (.semcreate 1)) :=
    show (1 : Int) ≤ 2147483647 by decide
  have may : NullRuns l.kernel (.call (.semcreate 1)) := fun _ => id
  have stepped := stepped_event kept.sound kept.counted fits acted
  have created : semcreate l.kernel 1 = (m.kernel, some sem) := by
    rcases act_inv acted with ⟨call, isCall, _, called⟩ | ⟨isTick, _⟩ | ⟨_, isFinish, _⟩
    · cases isCall
      exact Option.some.inj called
    · cases isTick
    · cases isFinish
  have entry : (m.kernel.semtab sem) = { used := true, scount := 1 } := by
    unfold semcreate at created
    rw [if_neg (by decide)] at created
    dsimp only at created
    split at created
    · exact absurd (Option.some.inj (Prod.mk.inj created).2).symm proper
    · obtain ⟨kernel, same⟩ := Prod.mk.inj created
      rw [← kernel, ← Option.some.inj same]
      exact Function.update_self ..
  refine ⟨proper, sound_step kept.sound may acted, stepped.counted, ?_,
    Or.inl ⟨?_, fun pid => ?_⟩⟩
  · rw [entry]
  · rw [entry]
  · rw [nobody]

/-- The count of the victim stays taken. -/
theorem lock_lost {step : Step} (kept : LockKept sem m) (fits : LockFits sem m step)
    (kills : ¬SparesInside m step) (did : lockStep sem m step = some m') : ¬LockHeld sem m' := by
  unfold lockStep at did
  split_ifs at did with can
  obtain ⟨⟨y, result⟩, acted, rfl⟩ := Option.map_eq_some_iff.mp did
  unfold SparesInside at kills
  split at kills
  · push Not at kills
    obtain ⟨pid, pending, isInside⟩ := kills
    have isKilled : m.inside pid = true := by simpa using isInside
    have notDelete : Event.finish ≠ .call (.semdelete sem) := fun same => by cases same
    obtain ⟨_, stepped, used⟩ := parts_kept kept fits.1 fits.2 acted notDelete
    have fresh : ∀ count, Event.finish = .call (.semcreate count) → result ≠ some sem :=
      fun _ same => by cases same
    obtain ⟨_, staysTaken⟩ :=
      count_neutral kept.counted kept.used used stepped (Or.inl can) fresh
    rcases kept.inside with ⟨_, nobody⟩ | ⟨isTaken, holder, _, _, only⟩
    · rw [nobody] at isKilled
      cases isKilled
    · intro held
      obtain ⟨other, _, _, still⟩ := held (staysTaken isTaken)
      simp only [insideAfter, pending] at still
      have isHolder : pid = holder := of_decide_eq_true ((only pid).symm.trans isKilled)
      by_cases same : other = pid
      · rw [same, Function.update_self] at still
        cases still
      · rw [Function.update_of_ne same, only, ← isHolder] at still
        exact same (of_decide_eq_true still)
  · exact absurd trivial kills

/-- In a run in which no process is killed inside of a section, a process that is alive is inside
whenever the count is not positive. The first kill of a process inside ends that. -/
theorem lock_is_held (run : Reached (lockStep sem) (LockStarted sem)
    (fun m step => LockFits sem m step ∧ SparesInside m step) m) :
    LockHeld sem m ∧ ∀ step m', LockFits sem m step → lockStep sem m step = some m' →
      (LockHeld sem m' ↔ SparesInside m step) := by
  have kept : sem ≠ sysErr ∧ LockKept sem m := by
    refine @reached_invariant _ _ _ _ _ (fun m => sem ≠ sysErr ∧ LockKept sem m) m run
      (fun _ started => lock_started started) ?_
    rintro x y step ⟨proper, kept⟩ ⟨fits, spares⟩ did
    exact ⟨proper, lock_kept kept proper fits spares did⟩
  refine ⟨lock_held kept.2, fun step m' fits did => ⟨fun held => ?_, fun spares => ?_⟩⟩
  · by_contra kills
    exact lock_lost kept.2 fits kills did held
  · exact lock_held (lock_kept kept.2 kept.1 fits spares did)

end Invariant

section Example

instance [Tables] (sem : Int) (m : Machine) (step : Step) : Decidable (LockFits sem m step) :=
  inferInstanceAs (Decidable (_ ∧ _))

/-- `SparesInside`, as a test -/
def Spares (m : Machine) : Step → Prop
  | .other .finish =>
      match m.kernel.rest m.kernel.currpid with
      | some (.kill pid) => m.inside pid = false
      | _ => True
  | _ => True

instance (m : Machine) (step : Step) : Decidable (Spares m step) := by
  unfold Spares
  split
  · split <;> infer_instance
  · infer_instance

theorem spares_inside {m : Machine} {step : Step} (spares : Spares m step) :
    SparesInside m step := by
  unfold Spares at spares
  unfold SparesInside
  split
  · intro pid pending
    simp only [pending] at spares
    exact spares
  · trivial

/-- The null process creates the semaphore. -/
def withLock : Machine :=
  let _ : Tables := eight
  { kernel := (semcreate booted 1).1, inside := fun _ => false }

theorem with_lock_started : @LockStarted eight 0 withLock := by
  let _ : Tables := eight
  let l : Ledger := {
    kernel := booted
    account := fun _ => { initial := 0, signals := 0, granted := 0 }
    ticket := fun _ => 0
    next := 0 }
  have started : LedgerStarted l := booted_started
  exact ⟨⟨l, .start started, by decide, rfl⟩, rfl⟩

/-- Process 1 waits for the disk inside of the section. -/
def waitInside : List Step :=
  [.other (.call (.create 20 true)), .other (.call (.create 30 true)), .other (.call (.resume 1)),
    .wait, .other (.call .receive), .other (.call (.resume 2))]

theorem lock_is_held_by_first :
    let _ : Tables := eight
    ∃ m, Reached (lockStep 0) (LockStarted 0)
      (fun m step => LockFits 0 m step ∧ SparesInside m step) m ∧ (m.kernel.semtab 0).scount ≤ 0 ∧
      LockHeld 0 m := by
  let _ : Tables := eight
  have results : (takeEvents (lockStep 0) (fun m step => LockFits 0 m step ∧ Spares m step)
      waitInside withLock).map (fun m => decide ((m.kernel.semtab 0).scount ≤ 0)) = some true := by
    decide +kernel
  obtain ⟨m, took, taken⟩ := Option.map_eq_some_iff.mp results
  have run : Reached (lockStep 0) (LockStarted 0)
      (fun m step => LockFits 0 m step ∧ SparesInside m step) m :=
    reached_weaken (fun _ _ may => ⟨may.1, spares_inside may.2⟩)
      (take_events (.start with_lock_started) took)
  exact ⟨m, run, of_decide_eq_true taken, (lock_is_held run).1⟩

/-- Process 2 kills process 1, which waits for the disk. -/
theorem lock_dies_with_holder :
    let _ : Tables := eight
    ∃ m, Reached (lockStep 0) (LockStarted 0) (LockFits 0) m ∧ ¬LockHeld 0 m := by
  let _ : Tables := eight
  have results : (takeEvents (lockStep 0) (LockFits 0)
      (waitInside ++ [.other (.call (.kill 1)), .other .finish]) withLock).map (fun m =>
        ((m.kernel.semtab 0).scount, (List.range nproc).all fun slot => !m.inside slot)) =
      some (0, true) := by
    decide +kernel
  obtain ⟨m, took, lost⟩ := Option.map_eq_some_iff.mp results
  obtain ⟨taken, nobody⟩ := Prod.mk.inj lost
  refine ⟨m, take_events (.start with_lock_started) took, fun held => ?_⟩
  obtain ⟨pid, inRange, _, isInside⟩ := held (Int.le_of_eq taken)
  unfold InRange at inRange
  have out := List.all_eq_true.mp nobody pid.toNat (List.mem_range.mpr (by omega))
  rw [show ((pid.toNat : Nat) : Int) = pid by omega, isInside] at out
  cases out

end Example

end Xinu.Sched.FaultLock
