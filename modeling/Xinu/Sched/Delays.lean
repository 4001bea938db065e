import Xinu.Sched.Priority

/-!
# Sleeping processes

The sleep queue keeps each delay as the difference to the one in front of it, in a signed 32-bit
key, and a clock tick takes one off the first key. In a run whose delays fit into a key, and
where no tick finds a delay of zero in front of a longer one, every process is made ready by
the tick that its delay asks for.
-/

namespace Xinu.Sched.Delays

open Xinu.Kernel.State (PrState nullproc sysErr ok word32)
open Xinu.Sched.Queues Xinu.Sched.Calls Xinu.Sched.Placement Xinu.Sched.Frames
open Xinu.Sched.CallPlacement Xinu.Sched.Priority Xinu.Lib.Interleaving

set_option autoImplicit false

section Definitions

def sleepKeys (x : Kernel QueueLists) : List (Int × Int) := x.queues.queue .sleepq

def Asleep {Q : Type} (x : Kernel Q) (pid : Int) : Prop :=
  (x.proctab pid).prstate = .sleep ∨ (x.proctab pid).prstate = .rectim

instance {Q : Type} (x : Kernel Q) (pid : Int) : Decidable (Asleep x pid) :=
  inferInstanceAs (Decidable (_ ∨ _))

/-- The sums of the keys from the front are the delays that are left. A delay of zero ends at
the next tick. -/
def DueFrom (due : Int → Nat) (clock : Nat) : Int → List (Int × Int) → Prop
  | _, [] => True
  | sum, entry :: rest =>
      0 ≤ entry.2 ∧ sum + entry.2 ≤ 2147483647 ∧
        (due entry.1 : Int) = clock + max (sum + entry.2) 1 ∧
        DueFrom due clock (sum + entry.2) rest

/-- The kernel with the number of ticks, and the tick at which each sleeper is due. -/
structure Timed where
  kernel : Kernel QueueLists
  clock : Nat
  due : Int → Nat

/-- The delay that a call asks for, in ticks. -/
def delayOf : Call → Nat
  | .sleepms delay => delay
  | .sleep delay => 1000 * delay
  | .recvtime maxwait => maxwait.toNat
  | _ => 0

/-- The process that a call may take off the sleep queue. -/
def targetOf {Q : Type} (x : Kernel Q) : Call → Int
  | .send pid _ => pid
  | .kill pid => (x.proctab pid).prparent
  | _ => nullproc

/-- Early removals: by a message, by the notice that a child ends, or by the end of `kill`. -/
def Removes {Q : Type} (x : Kernel Q) (pid : Int) : Event → Prop
  | .call call => pid = targetOf x call
  | .finish => x.rest x.currpid = some (.kill pid)
  | .tick => False

/-- The call of a process that goes to sleep sets the tick at which it is due. -/
def timedStep [Tables] (t : Timed) (event : Event) : Option Timed :=
  (step t.kernel event).map fun x =>
    match event with
    | .tick => { kernel := x, clock := t.clock + 1, due := t.due }
    | .finish => { kernel := x, clock := t.clock, due := t.due }
    | .call call =>
        { kernel := x
          clock := t.clock
          due := if Asleep x t.kernel.currpid then
              Function.update t.due t.kernel.currpid (t.clock + max (delayOf call) 1)
            else t.due }

/-- Delays that fit into a key, and no tick at a key of zero that is in front of a longer
delay. -/
def DelaysFit (x : Kernel QueueLists) : Event → Prop
  | .call (.sleepms delay) => delay ≤ 2147483647
  | .call (.sleep delay) => maxseconds < delay ∨ 1000 * delay ≤ 2147483647
  | .call (.recvtime maxwait) => maxwait ≤ 2147483647
  | .tick => QueueTable.firstkey .sleepq x.queues = 0 → ∀ entry ∈ sleepKeys x, entry.2 = 0
  | _ => True

end Definitions

section DeltaLists

variable {due : Int → Nat} {clock : Nat} {sum key : Int} {pid : Int}
  {entries front back : List (Int × Int)}

theorem due_congr {due' : Int → Nat} (dues : DueFrom due clock sum entries)
    (same : ∀ entry ∈ entries, due' entry.1 = due entry.1) : DueFrom due' clock sum entries := by
  induction entries generalizing sum with
  | nil => trivial
  | cons entry rest induction =>
      obtain ⟨nonneg, small, here, later⟩ := dues
      refine ⟨nonneg, small, ?_, induction later fun other member => same other (by simp [member])⟩
      rw [same entry (by simp)]
      exact here

/-- A delay is put between the others. -/
theorem insert_delay_due (dues : DueFrom due clock sum entries) (positive : 0 ≤ sum)
    (nonneg : 0 ≤ key) (small : sum + key ≤ 2147483647)
    (new : (due pid : Int) = clock + max (sum + key) 1) :
    DueFrom due clock sum (insertDelay pid key entries) := by
  induction entries generalizing sum key with
  | nil => exact ⟨nonneg, small, new, trivial⟩
  | cons entry rest induction =>
      obtain ⟨entryNonneg, entrySmall, here, later⟩ := dues
      unfold insertDelay
      split_ifs with earlier
      · have value : int32 (key - entry.2) = key - entry.2 := int32_small (by omega) (by omega)
        have total : sum + entry.2 + (key - entry.2) = sum + key := by omega
        rw [value]
        refine ⟨entryNonneg, entrySmall, here, induction later (by omega) (by omega) ?_ ?_⟩
        · rw [total]
          exact small
        · rw [total]
          exact new
      · have value : int32 (entry.2 - key) = entry.2 - key := int32_small (by omega) (by omega)
        have total : sum + key + (entry.2 - key) = sum + entry.2 := by omega
        refine ⟨nonneg, small, new, ?_⟩
        dsimp only
        rw [value]
        refine ⟨by dsimp only; omega, ?_, ?_, ?_⟩ <;> dsimp only <;> rw [total]
        · exact entrySmall
        · exact here
        · exact later

/-- A process leaves, and the one behind it gets the rest of its delay. -/
theorem pass_key_due (dues : DueFrom due clock sum entries) (positive : 0 ≤ sum)
    (distinct : (entries.map Prod.fst).Nodup) :
    DueFrom due clock sum ((passKey pid entries).filter fun entry => entry.1 ≠ pid) := by
  induction entries generalizing sum with
  | nil => trivial
  | cons entry rest induction =>
      obtain ⟨nonneg, small, here, later⟩ := dues
      rw [List.map_cons, List.nodup_cons] at distinct
      obtain ⟨notLater, distinctRest⟩ := distinct
      cases rest with
      | nil =>
          unfold passKey
          by_cases same : entry.1 = pid
          · rw [List.filter_cons_of_neg (by simp [same])]
            trivial
          · rw [List.filter_cons_of_pos (by simp [same])]
            exact ⟨nonneg, small, here, trivial⟩
      | cons next rest =>
          unfold passKey
          split_ifs with same
          · obtain ⟨nextNonneg, nextSmall, nextHere, nextLater⟩ := later
            have value : int32 (next.2 + entry.2) = next.2 + entry.2 :=
              int32_small (by omega) (by omega)
            have total : sum + (next.2 + entry.2) = sum + entry.2 + next.2 := by omega
            have others : ∀ other ∈ (next.1, int32 (next.2 + entry.2)) :: rest, other.1 ≠ pid := by
              intro other member isPid
              apply notLater
              rw [same, ← isPid]
              rcases List.mem_cons.mp member with rfl | inRest
              · simp
              · exact List.mem_map_of_mem (List.mem_cons_of_mem _ inRest)
            rw [List.filter_cons_of_neg (by simp [same]), List.filter_eq_self.mpr
              (by simpa using others)]
            refine ⟨?_, ?_, ?_, ?_⟩ <;> dsimp only <;> rw [value]
            · omega
            · rw [total]
              exact nextSmall
            · rw [total]
              exact nextHere
            · rw [total]
              exact nextLater
          · rw [List.filter_cons_of_pos (by simp [same])]
            exact ⟨nonneg, small, here, induction later (by omega) distinctRest⟩

/-- Entries that are not due at the next tick, after the tick. -/
theorem due_shift (dues : DueFrom due clock sum entries) (later : 2 ≤ sum) :
    DueFrom due (clock + 1) (sum - 1) entries := by
  induction entries generalizing sum with
  | nil => trivial
  | cons entry rest induction =>
      obtain ⟨nonneg, small, here, behind⟩ := dues
      have total : sum - 1 + entry.2 = sum + entry.2 - 1 := by omega
      refine ⟨nonneg, by omega, ?_, ?_⟩
      · push_cast
        omega
      · rw [total]
        exact induction behind (by omega)

/-- The entries behind one that is due at the next tick: those with it, and those after it. -/
theorem due_with_first (dues : DueFrom due clock 1 entries) :
    ∃ woken kept, entries = woken ++ kept ∧
      (∀ entry ∈ woken, entry.2 ≤ 0 ∧ due entry.1 = clock + 1) ∧
      (∀ entry ∈ kept.head?, 0 < entry.2) ∧ DueFrom due (clock + 1) 0 kept := by
  induction entries with
  | nil => exact ⟨[], [], rfl, by simp, by simp, trivial⟩
  | cons entry rest induction =>
      obtain ⟨nonneg, small, here, later⟩ := dues
      by_cases zero : entry.2 = 0
      · have laterHere : DueFrom due clock 1 rest := by
          rw [zero] at later
          exact later
        obtain ⟨woken, kept, split, due, first, rests⟩ := induction laterHere
        refine ⟨entry :: woken, kept, by rw [split]; rfl, ?_, first, rests⟩
        intro other member
        rcases List.mem_cons.mp member with rfl | inWoken
        · omega
        · exact due other inWoken
      · refine ⟨[], entry :: rest, rfl, by simp, ?_, ?_⟩
        · intro other member
          cases member
          omega
        · have total : 0 + entry.2 = 1 + entry.2 - 1 := by omega
          refine ⟨nonneg, by omega, ?_, ?_⟩
          · push_cast
            omega
          · rw [total]
            exact due_shift later (by omega)

theorem due_zeros (dues : DueFrom due clock 0 entries) (zeros : ∀ entry ∈ entries, entry.2 = 0) :
    ∀ entry ∈ entries, due entry.1 = clock + 1 := by
  induction entries with
  | nil => simp
  | cons first rest induction =>
      obtain ⟨_, _, here, later⟩ := dues
      have zero := zeros first (by simp)
      rw [zero] at here later
      intro entry member
      rcases List.mem_cons.mp member with rfl | inRest
      · omega
      · exact induction later (fun other inRest => zeros other (by simp [inRest])) entry inRest

/-- A tick: the entries that it wakes are those that are due, and the others stay due. -/
theorem tick_due (dues : DueFrom due clock 0 entries)
    (zeros : (entries.head?.map Prod.snd).getD minkey = 0 → ∀ entry ∈ entries, entry.2 = 0) :
    ∃ woken kept, countFirst entries = woken ++ kept ∧
      (∀ entry ∈ woken, entry.2 ≤ 0 ∧ due entry.1 = clock + 1) ∧
      (∀ entry ∈ kept.head?, 0 < entry.2) ∧ DueFrom due (clock + 1) 0 kept := by
  cases entries with
  | nil => exact ⟨[], [], rfl, by simp, by simp, trivial⟩
  | cons first rest =>
      have whole := dues
      obtain ⟨nonneg, small, here, later⟩ := dues
      have value : int32 (first.2 - 1) = first.2 - 1 := int32_small (by omega) (by omega)
      have counted : countFirst (first :: rest) = (first.1, first.2 - 1) :: rest := by
        rw [countFirst, value]
      rw [counted]
      rcases (by omega : first.2 = 0 ∨ first.2 = 1 ∨ 2 ≤ first.2) with zero | one | more
      · have all := zeros (by simpa using zero)
        have dueNow := due_zeros whole all
        refine ⟨(first.1, first.2 - 1) :: rest, [], by simp, ?_, by simp, trivial⟩
        intro entry member
        rcases List.mem_cons.mp member with rfl | inRest
        · exact ⟨by dsimp only; omega, dueNow first (by simp)⟩
        · exact ⟨Int.le_of_eq (all entry (by simp [inRest])), dueNow entry (by simp [inRest])⟩
      · rw [one] at later
        obtain ⟨woken, kept, split, dueNow, next, rests⟩ := due_with_first later
        refine ⟨(first.1, first.2 - 1) :: woken, kept, by rw [split]; rfl, ?_, next, rests⟩
        intro entry member
        rcases List.mem_cons.mp member with rfl | inWoken
        · exact ⟨by dsimp only; omega, by dsimp only; omega⟩
        · exact dueNow entry inWoken
      · refine ⟨[], (first.1, first.2 - 1) :: rest, rfl, by simp, ?_, ?_⟩
        · intro entry member
          cases member
          dsimp only
          omega
        · have total : (0 : Int) + (first.2 - 1) = 0 + first.2 - 1 := by omega
          refine ⟨by dsimp only; omega, by dsimp only; omega, ?_, ?_⟩
          · push_cast
            omega
          · dsimp only
            rw [total]
            exact due_shift later (by omega)

theorem due_positive (dues : DueFrom due clock sum entries) :
    ∀ entry ∈ entries, clock < due entry.1 := by
  induction entries generalizing sum with
  | nil => simp
  | cons first rest induction =>
      obtain ⟨_, _, here, later⟩ := dues
      intro entry member
      rcases List.mem_cons.mp member with rfl | inRest
      · omega
      · exact induction later entry inRest

end DeltaLists

section Kernels

variable [Tables] {x y : Kernel QueueLists} {pid : Int} {result : Option Int}

theorem asleep_iff (settled : Settled x) :
    pid ∈ x.queues.pids .sleepq ↔ InRange pid ∧ Asleep x pid := by
  rw [settled.placed.placed pid .sleepq]
  refine and_congr Iff.rfl ?_
  unfold home Asleep
  split <;> simp_all

/-- Nobody joins the sleep queue. -/
inductive SleepLess (pid : Int) (entries entries' : List (Int × Int)) : Prop
  | same (keys : entries' = entries)
  | removed (keys : entries' = (passKey pid entries).filter fun entry => entry.1 ≠ pid)

/-- What a call of `caller` does to the sleep queue. -/
inductive SleepChange (caller target : Int) (delay : Nat) (entries entries' : List (Int × Int)) :
    Prop
  | less (less : SleepLess target entries entries')
  | queued (keys : entries' = insertDelay caller delay entries)

theorem sleep_unsleep (x : Kernel QueueLists) (pid : Int) :
    SleepLess pid (sleepKeys x) (sleepKeys (unsleep x pid)) := by
  unfold unsleep
  split_ifs
  · exact .same rfl
  · exact .same rfl
  · refine .removed ?_
    change ((x.queues.set .sleepq (passKey pid (sleepKeys x))).queue .sleepq).filter _ = _
    simp [QueueLists.set]

/-- A process that is not asleep is on the queue of no sleeper. -/
theorem getitem_sleep (settled : Settled x) (awake : ¬Asleep x pid) :
    (QueueTable.getitem pid x.queues : QueueLists).queue .sleepq = x.queues.queue .sleepq := by
  refine List.filter_eq_self.mpr ?_
  intro entry member
  simp only [ne_eq, decide_not, Bool.not_eq_eq_eq_not, Bool.not_true, decide_eq_false_iff_not]
  rintro rfl
  exact awake ((asleep_iff settled).mp (List.mem_map_of_mem member)).2

theorem sleep_as_change {target : Int} {prstate : PrState} {delay : Nat} :
    SleepChange x.currpid target delay (sleepKeys x) (sleepKeys (sleepAs x prstate delay)) := by
  refine .queued ?_
  unfold sleepAs sleepKeys
  rw [queue_resched (by decide)]
  change (x.queues.set .sleepq _).queue .sleepq = _
  simp [QueueLists.set]

theorem sleep_send (x : Kernel QueueLists) (pid : Int) (msg : Nat) :
    SleepLess pid (sleepKeys x) (sleepKeys (send x pid msg).1) := by
  unfold send
  split_ifs
  · exact .same rfl
  · exact .same rfl
  · exact .same (queue_ready (by decide))
  · unfold sleepKeys
    rw [queue_ready (by decide)]
    exact sleep_unsleep (x.setProc pid { x.proctab pid with prmsg := msg, prhasmsg := true }) pid
  · exact .same rfl

theorem sleep_call {call : Call} (runs : Running 0 x) (fits : DelaysFit x (.call call))
    (did : doCall x call = some (y, result)) :
    SleepChange x.currpid (targetOf x call) (delayOf call) (sleepKeys x) (sleepKeys y) := by
  cases call with
  | create priority stack =>
      rw [did_state did]
      rcases @create_cases _ _ x priority stack with ⟨nextpid, failed⟩ |
        ⟨slot, nextpid, _, _, made⟩
      · rw [failed]
        exact .less (.same rfl)
      · rw [made]
        exact .less (.same rfl)
  | resume pid =>
      rw [did_state did]
      unfold resume
      split_ifs
      · exact .less (.same rfl)
      · exact .less (.same rfl)
      · exact .less (.same (queue_ready (by decide)))
  | suspend pid =>
      rw [did_state did]
      unfold suspend
      split_ifs with bad isReady
      · exact .less (.same rfl)
      · refine .less (.same (getitem_sleep runs.settled ?_))
        rintro (state | state) <;> rw [isReady] at state <;> cases state
      · exact .less (.same (queue_resched (by decide)))
      · exact .less (.same rfl)
  | kill pid =>
      simp only [doCall, kill] at did
      split_ifs at did
      · cases did
        exact .less (.same rfl)
      · cases did
        exact .less (sleep_send (({ x with prcount := x.prcount - 1 } : Kernel QueueLists).setRest
          x.currpid (some (.kill pid))) (x.proctab pid).prparent pid.toNat)
  | chprio pid newprio =>
      rw [did_state did]
      unfold chprio
      split_ifs <;> exact .less (.same rfl)
  | yield =>
      rw [did_state did]
      exact .less (.same (queue_resched (by decide)))
  | sleepms delay =>
      rw [did_state did]
      unfold sleepms
      split_ifs
      · exact .less (.same (queue_resched (by decide)))
      · exact .less (.same rfl)
      · have value : int32 (delay : Int) = delay := by
          have small : delay ≤ 2147483647 := fits
          exact int32_small (by omega) (by omega)
        rw [value]
        exact sleep_as_change
  | sleep delay =>
      rw [did_state did]
      unfold sleep
      split_ifs with long
      · exact .less (.same rfl)
      · have small : 1000 * delay ≤ 2147483647 := fits.resolve_left long
        have value : 1000 * delay % word32 = 1000 * delay :=
          Nat.mod_eq_of_lt (show 1000 * delay < 4294967296 by omega)
        rw [value]
        unfold sleepms
        split_ifs
        · exact .less (.same (queue_resched (by decide)))
        · exact .less (.same rfl)
        · rw [int32_small (show -2147483648 ≤ ((1000 * delay : Nat) : Int) by omega) (by omega)]
          exact sleep_as_change
  | send pid msg =>
      rw [did_state did]
      exact .less (sleep_send x pid msg)
  | receive =>
      rw [did_state did]
      unfold receive
      split_ifs
      · exact .less (.same (queue_resched (by decide)))
      · exact .less (.same rfl)
  | recvtime maxwait =>
      rw [did_state did]
      unfold recvtime
      split_ifs with negative
      · exact .less (.same rfl)
      · exact .less (.same rfl)
      · have value : maxwait = ((delayOf (.recvtime maxwait) : Nat) : Int) := by
          simp only [delayOf]
          omega
        rw [value]
        exact @sleep_as_change _ (x.setRest x.currpid (some .recvtime)) _ .rectim _
      · unfold recvtimeEnd
        split_ifs <;> exact .less (.same rfl)
  | recvclr =>
      rw [did_state did]
      unfold recvclr
      split_ifs <;> exact .less (.same rfl)
  | wait sem =>
      rw [did_state did]
      unfold wait
      split_ifs
      · exact .less (.same rfl)
      · dsimp only
        split_ifs
        · refine .less (.same ((queue_resched (by decide)).trans ?_))
          change (x.queues.set (.squeue sem) _).queue .sleepq = _
          simp [QueueLists.set, sleepKeys]
        · exact .less (.same rfl)
  | signal sem =>
      rw [did_state did]
      unfold signal
      split_ifs
      · exact .less (.same rfl)
      · exact .less (.same (queue_release sem (by decide) (by simp)))
  | signaln sem count =>
      rw [did_state did]
      unfold signaln
      split_ifs
      · exact .less (.same rfl)
      · exact .less (.same rfl)
      · exact .less (.same ((queue_defer_stop (by decide)).trans
          (queue_iterate _ fun x => queue_release sem (by decide) (by simp))))
  | semcreate count =>
      rw [did_state did]
      unfold semcreate
      split_ifs
      · exact .less (.same rfl)
      · dsimp only
        split <;> exact .less (.same rfl)
  | semreset sem count =>
      rw [did_state did]
      unfold semreset
      split_ifs
      · exact .less (.same rfl)
      · exact .less (.same ((queue_defer_stop (by decide)).trans
          (queue_drain sem nproc (by decide) (by simp))))
  | semdelete sem =>
      rw [did_state did]
      unfold semdelete
      split_ifs
      · exact .less (.same rfl)
      · exact .less (.same ((queue_defer_stop (by decide)).trans
          (queue_iterate _ fun x => queue_ready_first sem (by decide) (by simp))))

end Kernels

section Ticks

variable [Tables] {x y : Kernel QueueLists} {pid : Int} {woken kept : List (Int × Int)}

theorem ready_resched (isReady : (x.proctab pid).prstate = .ready) :
    ((resched x).proctab pid).prstate = .ready ∨ ((resched x).proctab pid).prstate = .curr := by
  have switched : ∀ z : Kernel QueueLists, (z.proctab pid).prstate = .ready →
      ((switch z).proctab pid).prstate = .ready ∨ ((switch z).proctab pid).prstate = .curr := by
    intro z ready
    unfold switch
    dsimp only
    by_cases first : pid = (QueueTable.dequeue .readylist z.queues).1
    · exact Or.inr (by rw [← first]; exact set_state_self _)
    · exact Or.inl (by rw [set_state_other first]; exact ready)
  unfold resched
  split_ifs
  · exact Or.inl isReady
  · exact Or.inl isReady
  · apply switched
    have kept : ∀ key, (Calls.insert (x.setState x.currpid .ready) x.currpid .readylist
        key).proctab = (x.setState x.currpid .ready).proctab := by
      intro key
      unfold Calls.insert
      split_ifs <;> rfl
    rw [kept]
    by_cases same : pid = x.currpid
    · rw [same]
      exact set_state_self _
    · rw [set_state_other same]
      exact isReady
  · exact switched x isReady

/-- While rescheduling is deferred, `ready` changes the state of one process. -/
theorem deferred_ready (wakes : Waking pid 1 x) :
    (ready x pid).proctab = (x.setState pid .ready).proctab := by
  rw [ready_shape wakes]
  unfold resched
  rw [if_pos]
  · rfl
  · change 0 < x.defer.ndefers
    rw [wakes.ndefers]
    decide

/-- `wakeup` makes the processes in front ready whose keys are used up, and no others. -/
theorem wakeup_loop_woken {fuel : Nat} (runs : Running 1 x)
    (keys : sleepKeys x = woken ++ kept) (early : ∀ entry ∈ woken, entry.2 ≤ 0)
    (first : ∀ entry ∈ kept.head?, 0 < entry.2) (enough : woken.length ≤ fuel) :
    sleepKeys (wakeupLoop fuel x) = kept ∧
      (∀ entry ∈ woken, ((wakeupLoop fuel x).proctab entry.1).prstate = .ready) ∧
      ∀ pid, pid ∉ woken.map Prod.fst →
        ((wakeupLoop fuel x).proctab pid).prstate = (x.proctab pid).prstate := by
  induction fuel generalizing x woken with
  | zero =>
      have none : woken = [] := List.length_eq_zero_iff.mp (by omega)
      subst none
      exact ⟨keys, by simp, fun _ _ => rfl⟩
  | succ fuel induction =>
      unfold wakeupLoop
      cases woken with
      | nil =>
          have stops : ¬(QueueTable.nonempty .sleepq x.queues = true ∧
              QueueTable.firstkey .sleepq x.queues ≤ 0) := by
            rintro ⟨nonempty, used⟩
            change (!(sleepKeys x).isEmpty) = true at nonempty
            change ((sleepKeys x).head?.map Prod.snd).getD minkey ≤ 0 at used
            rw [keys] at nonempty used
            cases kept with
            | nil => simp at nonempty
            | cons entry rest =>
                have positive := first entry (by simp)
                simp at used
                omega
          rw [if_neg stops]
          exact ⟨keys, by simp, fun _ _ => rfl⟩
      | cons entry rest =>
          have goes : QueueTable.nonempty .sleepq x.queues = true ∧
              QueueTable.firstkey .sleepq x.queues ≤ 0 := by
            change (!(sleepKeys x).isEmpty) = true ∧
              ((sleepKeys x).head?.map Prod.snd).getD minkey ≤ 0
            rw [keys]
            have used := early entry (by simp)
            simpa using used
          have list : x.queues.queue .sleepq = entry :: (rest ++ kept) := keys
          have popped : QueueTable.dequeue .sleepq x.queues =
              (entry.1, x.queues.set .sleepq (rest ++ kept)) := pop_cons list
          have wakes := waking_of_popped runs (by decide) list
          have left : sleepKeys (ready (x.setQueues (x.queues.set .sleepq (rest ++ kept)))
              entry.1) = rest ++ kept := by
            unfold sleepKeys
            rw [queue_ready (by decide)]
            simp [Kernel.setQueues, QueueLists.set]
          have distinct := runs.settled.placed.nodup .sleepq
          have pids : x.queues.pids .sleepq = entry.1 :: (rest ++ kept).map Prod.fst := by
            rw [QueueLists.pids, list]
            rfl
          rw [pids, List.nodup_cons] at distinct
          rw [if_pos goes]
          dsimp only
          rw [popped]
          obtain ⟨keysLeft, woke, others⟩ := induction (ready_running wakes (by decide)) left
            (fun other member => early other (by simp [member]))
            (by simp only [List.length_cons] at enough; omega)
          have now : ((ready (x.setQueues (x.queues.set .sleepq (rest ++ kept)))
              entry.1).proctab entry.1).prstate = .ready := by
            rw [deferred_ready wakes]
            exact set_state_self _
          refine ⟨keysLeft, ?_, ?_⟩
          · intro other member
            rcases List.mem_cons.mp member with rfl | inRest
            · rw [others other.1 fun later => distinct.1 (by simp [later])]
              exact now
            · exact woke other inRest
          · intro pid out
            simp only [List.map_cons, List.mem_cons, not_or] at out
            rw [others pid out.2, deferred_ready wakes, set_state_other out.1]
            rfl

omit [Tables] in
theorem due_of_keys {due : Int → Nat} {clock : Nat} (keys : sleepKeys x = kept)
    (later : DueFrom due clock 0 kept) : DueFrom due clock 0 (sleepKeys x) := by
  rw [keys]
  exact later

/-- A tick makes ready whoever is due, and nobody else that sleeps. -/
theorem clkhandler_woken {due : Int → Nat} {clock : Nat} (runs : Running 0 x)
    (dues : DueFrom due clock 0 (sleepKeys x)) (fits : DelaysFit x .tick) :
    DueFrom due (clock + 1) 0 (sleepKeys (clkhandler x)) ∧
      ∀ pid ∈ x.queues.pids .sleepq,
        (pid ∈ (clkhandler x).queues.pids .sleepq ∧ due pid ≠ clock + 1) ∨
          due pid = clock + 1 ∧ (((clkhandler x).proctab pid).prstate = .ready ∨
            ((clkhandler x).proctab pid).prstate = .curr) := by
  obtain ⟨woken, kept, counted, early, first, later⟩ := tick_due dues fits
  have pids : x.queues.pids .sleepq = woken.map Prod.fst ++ kept.map Prod.fst := by
    rw [← List.map_append, ← counted, count_first_pids]
    rfl
  have afterwards := due_positive later
  have counts : Running 0 ((x.setRest x.currpid (some .clock)).setQueues
      (QueueTable.countDown .sleepq x.queues)) :=
    running_same runs (fun _ => ⟨rfl, rfl⟩) (fun q => count_down_pids q) rfl rfl
  have keys : sleepKeys ((x.setRest x.currpid (some .clock)).setQueues
      (QueueTable.countDown .sleepq x.queues)) = woken ++ kept := by
    change (x.queues.set .sleepq (countFirst (sleepKeys x))).queue .sleepq = _
    simp [QueueLists.set, counted]
  have stays : ∀ z : Kernel QueueLists, sleepKeys z = kept → ∀ pid ∈ kept.map Prod.fst,
      pid ∈ z.queues.pids .sleepq ∧ due pid ≠ clock + 1 := by
    intro z same pid member
    obtain ⟨entry, inKept, rfl⟩ := List.mem_map.mp member
    have notYet := afterwards entry inKept
    refine ⟨?_, by omega⟩
    change entry.1 ∈ (sleepKeys z).map Prod.fst
    rw [same]
    exact member
  have empty : QueueTable.nonempty .sleepq (x.setRest x.currpid (some .clock)).queues = true ∨
      sleepKeys x = [] := by
    change (!(sleepKeys x).isEmpty) = true ∨ sleepKeys x = []
    cases sleepKeys x <;> simp
  unfold clkhandler
  dsimp only
  by_cases nonempty : QueueTable.nonempty .sleepq (x.setRest x.currpid (some .clock)).queues = true
  · rw [if_pos nonempty]
    by_cases used : QueueTable.firstkey .sleepq ((x.setRest x.currpid (some .clock)).setQueues
        (QueueTable.countDown .sleepq (x.setRest x.currpid (some .clock)).queues)).queues ≤ 0
    · rw [if_pos used]
      have started := defer_start_running counts
      have enough : woken.length ≤ nproc := by
        have length := queue_length counts.settled .sleepq
        change (sleepKeys _).length ≤ nproc at length
        rw [keys, List.length_append] at length
        omega
      obtain ⟨left, ready, _⟩ := wakeup_loop_woken started keys
        (fun entry member => (early entry member).1) first enough
      have same : sleepKeys (wakeup ((x.setRest x.currpid (some .clock)).setQueues
          (QueueTable.countDown .sleepq x.queues))) = kept := by
        unfold wakeup sleepKeys
        rw [queue_defer_stop (by decide)]
        exact left
      refine ⟨due_of_keys same later, fun pid member => ?_⟩
      rw [pids] at member
      rcases List.mem_append.mp member with isWoken | isKept
      · obtain ⟨entry, inWoken, rfl⟩ := List.mem_map.mp isWoken
        refine Or.inr ⟨(early entry inWoken).2, ?_⟩
        unfold wakeup deferStop
        dsimp only
        split_ifs
        · exact Or.inl (ready entry inWoken)
        · exact ready_resched (ready entry inWoken)
        · exact Or.inl (ready entry inWoken)
      · exact Or.inl (stays _ same pid isKept)
    · rw [if_neg used]
      have none : woken = [] := by
        cases woken with
        | nil => rfl
        | cons entry rest =>
            exfalso
            apply used
            change ((sleepKeys ((x.setRest x.currpid (some .clock)).setQueues
              (QueueTable.countDown .sleepq x.queues))).head?.map Prod.snd).getD minkey ≤ 0
            rw [keys]
            exact (early entry (by simp)).1
      rw [none, List.nil_append] at keys
      rw [none, List.map_nil, List.nil_append] at pids
      refine ⟨due_of_keys keys later, fun pid member => ?_⟩
      rw [pids] at member
      exact Or.inl (stays _ keys pid member)
  · rw [if_neg nonempty]
    have nobody := empty.resolve_left nonempty
    refine ⟨?_, fun pid member => ?_⟩
    · change DueFrom due (clock + 1) 0 (sleepKeys x)
      rw [nobody]
      trivial
    · change pid ∈ (sleepKeys x).map Prod.fst at member
      rw [nobody] at member
      cases member

end Ticks

section Runs

variable [Tables] {t t' : Timed} {pid : Int} {event : Event}

structure Punctual (t : Timed) : Prop where
  sound : Sound t.kernel
  dues : DueFrom t.due t.clock 0 (sleepKeys t.kernel)

/-- The null process never blocks, and the delays fit. -/
def Fits (x : Kernel QueueLists) (event : Event) : Prop := NullRuns x event ∧ DelaysFit x event

theorem timed_step_inv (did : timedStep t event = some t') :
    ∃ result, act t.kernel event = some (t'.kernel, result) := by
  obtain ⟨x, stepped, same⟩ := Option.map_eq_some_iff.mp did
  obtain ⟨result, acted⟩ := step_some stepped
  refine ⟨result, ?_⟩
  rw [acted]
  cases event <;> rw [← same]

theorem sleep_time_slice {x : Kernel QueueLists} :
    sleepKeys (timeSlice x) = sleepKeys x := by
  have rescheduled : ∀ preempt, sleepKeys (resched { x with preempt := preempt }) =
      sleepKeys x := fun _ => queue_resched (by decide)
  have counted : ∀ preempt, sleepKeys { x with preempt := preempt } = sleepKeys x := fun _ => rfl
  unfold timeSlice
  dsimp only
  split_ifs
  · exact rescheduled _
  · exact counted _

theorem kill_end_sleep {x : Kernel QueueLists} (runs : Running 0 x) :
    SleepLess pid (sleepKeys x) (sleepKeys (killEnd x pid).1) := by
  unfold killEnd
  split
  · exact .same (queue_resched (by decide))
  · exact sleep_unsleep x pid
  · exact sleep_unsleep x pid
  · rename_i state
    have awake : ¬Asleep x pid := by
      rintro (asleep | asleep) <;> rw [state] at asleep <;> cases asleep
    exact .same (@getitem_sleep _ x pid runs.settled awake)
  · rename_i state
    have awake : ¬Asleep x pid := by
      rintro (asleep | asleep) <;> rw [state] at asleep <;> cases asleep
    exact .same (getitem_sleep runs.settled awake)
  · exact .same rfl

theorem sleep_rest {x : Kernel QueueLists} (rest : Rest) (runs : Running 0 x) :
    ∃ target, (rest = .kill target ∨ sleepKeys (doRest x rest).1 = sleepKeys x) ∧
      SleepLess target (sleepKeys x) (sleepKeys (doRest x rest).1) := by
  cases rest with
  | receive => exact ⟨nullproc, Or.inr rfl, .same rfl⟩
  | recvtime =>
      have same : sleepKeys (doRest x .recvtime).1 = sleepKeys x := by
        simp only [doRest, recvtimeEnd]
        split_ifs <;> rfl
      exact ⟨nullproc, Or.inr same, .same same⟩
  | kill pid => exact ⟨pid, Or.inl rfl, kill_end_sleep runs⟩
  | clock =>
      have same : sleepKeys (doRest x .clock).1 = sleepKeys x := by
        simp only [doRest]
        exact sleep_time_slice
      exact ⟨nullproc, Or.inr same, .same same⟩

omit [Tables] in
theorem due_less {entries entries' : List (Int × Int)} {due : Int → Nat} {clock : Nat}
    (dues : DueFrom due clock 0 entries) (less : SleepLess pid entries entries')
    (distinct : (entries.map Prod.fst).Nodup) : DueFrom due clock 0 entries' := by
  cases less with
  | same keys =>
      rw [keys]
      exact dues
  | removed keys =>
      rw [keys]
      exact pass_key_due dues (by decide) distinct

theorem awake_current {x : Kernel QueueLists} (runs : Running 0 x) :
    x.currpid ∉ x.queues.pids .sleepq := by
  intro member
  rcases ((asleep_iff runs.settled).mp member).2 with state | state <;>
    rw [runs.running] at state <;> cases state

/-- A change of the sleep queue by the current process, which was not on it. -/
theorem due_change {x y : Kernel QueueLists} {due due' : Int → Nat} {clock delay : Nat}
    {target : Int}
    (runs : Running 0 x) (runs' : Running 0 y) (dues : DueFrom due clock 0 (sleepKeys x))
    (change : SleepChange x.currpid target delay (sleepKeys x) (sleepKeys y))
    (small : delay ≤ 2147483647)
    (dueNew : Asleep y x.currpid → due' x.currpid = clock + max delay 1)
    (others : ∀ pid, pid ≠ x.currpid → due' pid = due pid) :
    DueFrom due' clock 0 (sleepKeys y) := by
  have kept : DueFrom due' clock 0 (sleepKeys x) := by
    refine due_congr dues fun entry member => others entry.1 ?_
    intro same
    apply awake_current runs
    rw [← same]
    exact List.mem_map_of_mem member
  cases change with
  | less less => exact due_less kept less (runs.settled.placed.nodup .sleepq)
  | queued keys =>
      have onQueue : x.currpid ∈ y.queues.pids .sleepq := by
        change x.currpid ∈ (sleepKeys y).map Prod.fst
        rw [keys]
        obtain ⟨front, back, _, inserted⟩ := insert_delay_pids x.currpid delay (sleepKeys x)
        rw [inserted]
        simp
      have asleep := ((asleep_iff runs'.settled).mp onQueue).2
      rw [keys]
      refine insert_delay_due kept (by decide) (by omega) (by omega) ?_
      rw [dueNew asleep]
      push_cast
      omega

theorem delay_small {x y : Kernel QueueLists} {call : Call} {result : Option Int} {target : Int}
    (fits : DelaysFit x (.call call)) (did : doCall x call = some (y, result))
    (change : SleepChange x.currpid target (delayOf call) (sleepKeys x) (sleepKeys y)) :
    ∃ delay, SleepChange x.currpid target delay (sleepKeys x) (sleepKeys y) ∧
      delay ≤ 2147483647 ∧
      (delay = delayOf call ∨ sleepKeys y = sleepKeys x) := by
  by_cases small : delayOf call ≤ 2147483647
  · exact ⟨_, change, small, Or.inl rfl⟩
  · have same : sleepKeys y = sleepKeys x := by
      cases call with
      | sleepms delay => exact absurd fits small
      | sleep delay =>
          rcases fits with long | fits
          · rw [did_state did]
            unfold sleep
            rw [if_pos long]
          · exact absurd fits small
      | recvtime maxwait =>
          have fitsHere : maxwait ≤ 2147483647 := fits
          exact absurd (show maxwait.toNat ≤ 2147483647 by omega) small
      | _ => exact absurd (Nat.zero_le _) small
    exact ⟨0, .less (.same same), by decide, Or.inr same⟩

theorem punctual_step (punctual : Punctual t) (may : Fits t.kernel event)
    (did : timedStep t event = some t') : Punctual t' := by
  obtain ⟨sound, dues⟩ := punctual
  obtain ⟨result, acted⟩ := timed_step_inv did
  have sound' := sound_step sound may.1 acted
  refine ⟨sound', ?_⟩
  obtain ⟨x, stepped, same⟩ := Option.map_eq_some_iff.mp did
  rcases act_inv acted with ⟨call, rfl, _, called⟩ | ⟨rfl, _, here⟩ | ⟨rest, rfl, pending, ended⟩
  · have change := sleep_call sound.runs may.2 called
    obtain ⟨delay, changed, small, value⟩ := delay_small may.2 called change
    have kernel : t'.kernel = x := by rw [← same]
    have clock : t'.clock = t.clock := by rw [← same]
    have due : t'.due = if Asleep t'.kernel t.kernel.currpid then
        Function.update t.due t.kernel.currpid (t.clock + max (delayOf call) 1) else t.due := by
      rw [← same]
    rw [clock]
    refine due_change sound.runs sound'.runs dues changed small ?_ ?_
    · intro asleep
      rw [due, if_pos asleep, Function.update_self]
      rcases value with rfl | unchanged
      · rfl
      · exfalso
        have onQueue := (asleep_iff sound'.runs.settled).mpr ⟨sound.runs.settled.inRange, asleep⟩
        change t.kernel.currpid ∈ (sleepKeys t'.kernel).map Prod.fst at onQueue
        rw [unchanged] at onQueue
        exact awake_current sound.runs onQueue
    · intro pid other
      rw [due]
      split_ifs
      · rw [Function.update_of_ne other]
      · rfl
  · have woken := clkhandler_woken sound.runs dues may.2
    rw [← here] at woken
    have clock : t'.clock = t.clock + 1 := by rw [← same]
    have due : t'.due = t.due := by rw [← same]
    rw [clock, due]
    exact woken.1
  · have clock : t'.clock = t.clock := by rw [← same]
    have due : t'.due = t.due := by rw [← same]
    have cleared : Running 0 (t.kernel.setRest t.kernel.currpid none) :=
      running_same sound.runs (fun _ => ⟨rfl, rfl⟩) (fun _ => rfl) rfl rfl
    have left : t'.kernel = (doRest (t.kernel.setRest t.kernel.currpid none) rest).1 :=
      congrArg Prod.fst ended
    obtain ⟨target, _, less⟩ := sleep_rest rest cleared
    change SleepLess target (sleepKeys t.kernel) _ at less
    rw [← left] at less
    rw [clock, due]
    exact due_less dues less (sound.runs.settled.placed.nodup .sleepq)

omit [Tables] in
theorem sleep_less_member {entries entries' : List (Int × Int)} {target : Int}
    (less : SleepLess target entries entries') (member : pid ∈ entries.map Prod.fst)
    (other : entries' = entries ∨ pid ≠ target) : pid ∈ entries'.map Prod.fst := by
  cases less with
  | same keys =>
      rw [keys]
      exact member
  | removed keys =>
      rcases other with unchanged | other
      · rw [unchanged]
        exact member
      · rw [← pass_key_pids target entries] at member
        obtain ⟨entry, inKeys, rfl⟩ := List.mem_map.mp member
        rw [keys]
        exact List.mem_map_of_mem (List.mem_filter.mpr ⟨inKeys, by simpa using other⟩)

omit [Tables] in
theorem sleep_change_member {entries entries' : List (Int × Int)} {caller target : Int}
    {delay : Nat} (change : SleepChange caller target delay entries entries')
    (member : pid ∈ entries.map Prod.fst) (other : pid ≠ target) :
    pid ∈ entries'.map Prod.fst := by
  cases change with
  | less less => exact sleep_less_member less member (Or.inr other)
  | queued keys =>
      obtain ⟨front, back, split, inserted⟩ := insert_delay_pids caller delay entries
      rw [keys, inserted]
      rw [split] at member
      simp only [List.mem_append, List.mem_cons] at member ⊢
      tauto

/-- A sleeper stays asleep through an event that does not remove it, up to its own tick. -/
theorem sleeper_step (punctual : Punctual t) (may : Fits t.kernel event)
    (did : timedStep t event = some t') (sleeper : pid ∈ t.kernel.queues.pids .sleepq)
    (undisturbed : ¬Removes t.kernel pid event) :
    t'.due pid = t.due pid ∧ ((event = .tick ∧ t.due pid = t.clock + 1 ∧
        ((t'.kernel.proctab pid).prstate = .ready ∨ (t'.kernel.proctab pid).prstate = .curr)) ∨
      pid ∈ t'.kernel.queues.pids .sleepq ∧ (event = .tick → t.due pid ≠ t.clock + 1)) := by
  obtain ⟨sound, dues⟩ := punctual
  obtain ⟨result, acted⟩ := timed_step_inv did
  obtain ⟨x, stepped, same⟩ := Option.map_eq_some_iff.mp did
  have notCurrent : pid ≠ t.kernel.currpid := by
    rintro rfl
    exact awake_current sound.runs sleeper
  rcases act_inv acted with ⟨call, rfl, _, called⟩ | ⟨rfl, _, here⟩ | ⟨rest, rfl, pending, ended⟩
  · have due : t'.due = if Asleep t'.kernel t.kernel.currpid then
        Function.update t.due t.kernel.currpid (t.clock + max (delayOf call) 1) else t.due := by
      rw [← same]
    refine ⟨?_, Or.inr ⟨?_, fun isTick => by cases isTick⟩⟩
    · rw [due]
      split_ifs
      · exact Function.update_of_ne notCurrent _ _
      · rfl
    · exact sleep_change_member (sleep_call sound.runs may.2 called) sleeper undisturbed
  · have woken := (clkhandler_woken sound.runs dues may.2).2 pid sleeper
    rw [← here] at woken
    refine ⟨by rw [← same], ?_⟩
    rcases woken with ⟨stays, later⟩ | ⟨now, awake⟩
    · exact Or.inr ⟨stays, fun _ => later⟩
    · exact Or.inl ⟨rfl, now, awake⟩
  · have cleared : Running 0 (t.kernel.setRest t.kernel.currpid none) :=
      running_same sound.runs (fun _ => ⟨rfl, rfl⟩) (fun _ => rfl) rfl rfl
    have left : t'.kernel = (doRest (t.kernel.setRest t.kernel.currpid none) rest).1 :=
      congrArg Prod.fst ended
    obtain ⟨target, isKill, less⟩ := sleep_rest rest cleared
    refine ⟨by rw [← same], Or.inr ⟨?_, fun isTick => by cases isTick⟩⟩
    change pid ∈ (sleepKeys t'.kernel).map Prod.fst
    rw [left]
    refine sleep_less_member less sleeper (isKill.symm.imp id ?_)
    rintro isKill rfl
    apply undisturbed
    change t.kernel.rest t.kernel.currpid = some (.kill pid)
    rw [pending, isKill]

end Runs

section Results

variable [Tables] {x y z : Kernel QueueLists} {n : Nat}

def ticks : Event → Nat
  | .tick => 1
  | _ => 0

/-- Allowed events, and so many ticks among them, that do not remove a sleeper early. -/
inductive Undisturbed (may : Kernel QueueLists → Event → Prop) (pid : Int)
    (x : Kernel QueueLists) : Nat → Kernel QueueLists → Prop
  | start : Undisturbed may pid x 0 x
  | step {n : Nat} {y z : Kernel QueueLists} {event : Event} (quiet : Undisturbed may pid x n y)
      (allowed : may y event) (leaves : ¬Removes y pid event) (did : step y event = some z) :
      Undisturbed may pid x (n + ticks event) z

theorem punctual_started (started : Started x) : Punctual ⟨x, 0, fun _ => 0⟩ := by
  refine ⟨sound_started started, ?_⟩
  have none : sleepKeys x = [] := started.2 .sleepq
  change DueFrom _ 0 0 (sleepKeys x)
  rw [none]
  trivial

/-- Every step of the kernel is one with ticks and due times. -/
theorem timed_step_exists {event : Event} (t : Timed) (did : step t.kernel event = some y) :
    ∃ t', timedStep t event = some t' ∧ t'.kernel = y ∧ t'.clock = t.clock + ticks event := by
  unfold timedStep
  rw [did]
  refine ⟨_, rfl, ?_, ?_⟩ <;> cases event <;> rfl

theorem punctual_run (run : Reached step Started Fits x) : ∃ t, Punctual t ∧ t.kernel = x := by
  refine @reached_invariant _ _ _ _ _ (fun x => ∃ t, Punctual t ∧ t.kernel = x) _ run
    (fun x started => ⟨_, punctual_started started, rfl⟩) ?_
  rintro x y event ⟨t, punctual, rfl⟩ may did
  obtain ⟨t', timed, kernel, _⟩ := timed_step_exists t did
  exact ⟨t', punctual_step punctual may timed, kernel⟩

theorem undisturbed_asleep {t : Timed} {pid : Int} {delay : Nat} (punctual : Punctual t)
    (sleeper : pid ∈ t.kernel.queues.pids .sleepq) (due : t.due pid = t.clock + delay)
    (quiet : Undisturbed Fits pid t.kernel n z) (before : n < delay) :
    ∃ t', Punctual t' ∧ t'.kernel = z ∧ t'.clock = t.clock + n ∧ t'.due pid = t.due pid ∧
      pid ∈ z.queues.pids .sleepq := by
  induction quiet with
  | start => exact ⟨t, punctual, rfl, rfl, rfl, sleeper⟩
  | step _ allowed leaves did induction =>
      rename_i n y z event
      obtain ⟨t', punctual', rfl, clock, sameDue, asleep⟩ := induction (by omega)
      obtain ⟨t'', timed, rfl, clock'⟩ := timed_step_exists t' did
      obtain ⟨kept, outcome⟩ := sleeper_step punctual' allowed timed asleep leaves
      refine ⟨t'', punctual_step punctual' allowed timed, rfl, by omega, by rw [kept, sameDue], ?_⟩
      rcases outcome with ⟨rfl, now, _⟩ | ⟨stays, _⟩
      · have counted : ticks .tick = 1 := rfl
        omega
      · exact stays

end Results

section Wakes

end Wakes

section Overtaken

end Overtaken

end Xinu.Sched.Delays
