import Xinu.Sched.CallPlacement

/-!
# The running process has the highest priority

The ready list is in the order of the keys that `insert` copied from the priorities. `chprio`
changes a priority and neither the key nor the current process. In a run in which that makes no
difference, no ready process has a higher priority than the current one.
-/

namespace Xinu.Sched.Priority

open Xinu.Kernel.State (PrState nullproc sysErr ok word32)
open Xinu.Sched.Queues Xinu.Sched.Calls Xinu.Sched.Placement Xinu.Sched.Frames
open Xinu.Sched.CallPlacement Xinu.Lib.Interleaving

set_option autoImplicit false

section Definitions

/-- The ready list with its keys. -/
def readyKeys (x : Kernel QueueLists) : List (Int × Int) := x.queues.queue .readylist

/-- The keys fall along the ready list, and each is the priority of its process. -/
structure Ordered (x : Kernel QueueLists) : Prop where
  falls : (readyKeys x).Pairwise fun entry later => later.2 ≤ entry.2
  keys : ∀ entry ∈ readyKeys x, entry.2 = (x.proctab entry.1).prprio

/-- No ready process has a key above the priority of the current process. -/
def Top (x : Kernel QueueLists) : Prop :=
  ∀ entry ∈ readyKeys x, entry.2 ≤ (x.proctab x.currpid).prprio

/-- A priority changes only where that moves nobody: not on the ready list, and not below the
first key of it for the current process. -/
def ChprioKeeps [Tables] (x : Kernel QueueLists) : Event → Prop
  | .call (.chprio pid newprio) =>
      isbadpid x pid ∨ newprio = (x.proctab pid).prprio ∨
        (x.proctab pid).prstate ≠ .ready ∧
          (pid = x.currpid → QueueTable.firstkey .readylist x.queues ≤ newprio)
  | _ => True

end Definitions

variable {x y : Kernel QueueLists} {pid key : Int} {l : QueueLists}

section Lists

theorem insert_key_falls {entries : List (Int × Int)}
    (falls : entries.Pairwise fun entry later => later.2 ≤ entry.2) :
    (insertKey pid key entries).Pairwise fun entry later => later.2 ≤ entry.2 := by
  obtain ⟨front, back, rfl, inserted, above, below⟩ := insert_key_split pid key entries
  rw [inserted]
  obtain ⟨fallsFront, fallsBack, across⟩ := List.pairwise_append.mp falls
  refine List.pairwise_append.mpr ⟨fallsFront, List.pairwise_cons.mpr ⟨?_, fallsBack⟩, ?_⟩
  · intro later member
    cases back with
    | nil => cases member
    | cons first rest =>
        have less := below first (by simp)
        rcases List.mem_cons.mp member with rfl | inRest
        · exact Int.le_of_lt less
        · exact Int.le_trans ((List.pairwise_cons.mp fallsBack).1 later inRest) (Int.le_of_lt less)
  · intro entry member later inLater
    rcases List.mem_cons.mp inLater with rfl | inBack
    · exact above entry member
    · exact across entry member later inBack

theorem insert_key_mem {entries : List (Int × Int)} {entry : Int × Int} :
    entry ∈ insertKey pid key entries ↔ entry = (pid, key) ∨ entry ∈ entries := by
  obtain ⟨front, back, rfl, inserted, _⟩ := insert_key_split pid key entries
  rw [inserted]
  simp only [List.mem_append, List.mem_cons]
  tauto

/-- What keeps the order: entries leave the list, and those that stay keep their priority. -/
theorem ordered_sublist (ordered : Ordered x) (fewer : (readyKeys y).Sublist (readyKeys x))
    (same : ∀ entry ∈ readyKeys y, (y.proctab entry.1).prprio = (x.proctab entry.1).prprio) :
    Ordered y := by
  refine ⟨ordered.falls.sublist fewer, fun entry member => ?_⟩
  rw [same entry member]
  exact ordered.keys entry (fewer.subset member)

theorem top_sublist (top : Top x) (fewer : (readyKeys y).Sublist (readyKeys x))
    (notLess : (x.proctab x.currpid).prprio ≤ (y.proctab y.currpid).prprio) : Top y :=
  fun entry member => Int.le_trans (top entry (fewer.subset member)) notLess

theorem set_ready_keys {q : Qid} {entries : List (Int × Int)} (other : q ≠ .readylist) :
    (x.queues.set q entries).queue .readylist = x.queues.queue .readylist := by
  simp [QueueLists.set, Ne.symm other]

end Lists

section Rescheduling

variable [Tables]

/-- The process that runs next has the highest key. -/
theorem switch_ordered (settled : Settled x) (stopped : (x.proctab x.currpid).prstate ≠ .curr)
    (ordered : Ordered x) : Ordered (switch x) ∧ Top (switch x) := by
  obtain ⟨entry, rest, list, shape, _⟩ := switch_running settled stopped
  have keys : readyKeys (switch x) = rest := by
    rw [shape]
    simp [readyKeys, Kernel.setState, Kernel.setProc, QueueLists.set]
  have prio : ∀ pid, ((switch x).proctab pid).prprio = (x.proctab pid).prprio :=
    scheduled_switch.prprio
  have falls := ordered.falls
  unfold readyKeys at falls
  rw [list] at falls
  refine ⟨ordered_sublist ordered ?_ fun other _ => prio other.1, fun other member => ?_⟩
  · rw [keys, readyKeys, list]
    exact List.sublist_cons_self _ _
  · rw [keys] at member
    have current : (switch x).currpid = entry.1 := by rw [shape]; rfl
    have first := ordered.keys entry (by rw [readyKeys, list]; simp)
    rw [current, prio, ← first]
    exact (List.pairwise_cons.mp falls).1 other member

omit [Tables] in
theorem inserted_ordered (ordered : Ordered x) (state : PrState)
    (prio : key = (x.proctab pid).prprio) :
    Ordered ((x.setState pid state).setQueues (QueueTable.insert pid .readylist key x.queues)) := by
  have keys : readyKeys ((x.setState pid state).setQueues
      (QueueTable.insert pid .readylist key x.queues)) = insertKey pid key (readyKeys x) := by
    change (x.queues.set .readylist _).queue .readylist = _
    simp [QueueLists.set, readyKeys]
  refine ⟨by rw [keys]; exact insert_key_falls ordered.falls, fun entry member => ?_⟩
  rw [keys] at member
  have same := (@scheduled_state _ x pid state).prprio entry.1
  rw [show (((x.setState pid state).setQueues (QueueTable.insert pid .readylist key
    x.queues)).proctab entry.1).prprio = ((x.setState pid state).proctab entry.1).prprio from rfl,
    same]
  rcases insert_key_mem.mp member with rfl | earlier
  · exact prio
  · exact ordered.keys entry earlier

omit [Tables] in
theorem top_of_first (ordered : Ordered x)
    (first : QueueTable.firstkey .readylist x.queues ≤ (x.proctab x.currpid).prprio) : Top x := by
  intro entry member
  have falls := ordered.falls
  cases list : readyKeys x with
  | nil =>
      rw [list] at member
      cases member
  | cons head rest =>
      have headKey : QueueTable.firstkey .readylist x.queues = head.2 := by
        change ((readyKeys x).head?.map Prod.snd).getD minkey = head.2
        rw [list]
        rfl
      rw [headKey] at first
      rw [list] at falls member
      rcases List.mem_cons.mp member with rfl | later
      · exact first
      · exact Int.le_trans ((List.pairwise_cons.mp falls).1 entry later) first

theorem resched_ordered (settled : Settled x) (undeferred : x.defer.ndefers = 0)
    (ordered : Ordered x) : Ordered (resched x) ∧ Top (resched x) := by
  unfold resched
  rw [if_neg (by omega)]
  by_cases runs : (x.proctab x.currpid).prstate = .curr
  · rw [if_pos runs]
    split_ifs with above
    · exact ⟨ordered, top_of_first ordered (Int.le_of_lt above)⟩
    · rw [insert_good settled.inRange (by simp)]
      obtain ⟨settled', stopped⟩ := yielded_settled _ settled runs
      exact switch_ordered settled' stopped (inserted_ordered ordered .ready rfl)
  · rw [if_neg runs]
    exact switch_ordered settled runs ordered

end Rescheduling

section Steps

variable [Tables] {n : Int} {q : Qid}

/-- While rescheduling is deferred, a process that was made ready may be above the current one. -/
structure Leads (n : Int) (x : Kernel QueueLists) : Prop where
  runs : Running n x
  ordered : Ordered x
  top : 0 < n ∧ x.defer.attempt = true ∨ Top x

theorem leads_resched (settled : Settled x) (undeferred : x.defer.ndefers = 0)
    (ordered : Ordered x) : Leads 0 (resched x) := by
  obtain ⟨ordered', top⟩ := resched_ordered settled undeferred ordered
  exact ⟨resched_running settled undeferred, ordered', Or.inr top⟩

/-- A change of neither the ready list nor of a priority on it. -/
theorem leads_same (leads : Leads n x) (runs : Running n y)
    (fewer : (readyKeys y).Sublist (readyKeys x))
    (prio : ∀ pid, (y.proctab pid).prprio = (x.proctab pid).prprio)
    (current : y.currpid = x.currpid) (attempt : y.defer.attempt = x.defer.attempt) :
    Leads n y := by
  refine ⟨runs, ordered_sublist leads.ordered fewer fun entry _ => prio entry.1, ?_⟩
  rcases leads.top with deferred | top
  · exact Or.inl ⟨deferred.1, attempt.trans deferred.2⟩
  · refine Or.inr (top_sublist top fewer (Int.le_of_eq ?_))
    rw [current, prio]

theorem leads_ready (wakes : Waking pid n x) (counted : 0 ≤ n) (ordered : Ordered x) :
    Leads n (ready x pid) := by
  have runs := inserted_running wakes
  have readied := ready_running wakes counted
  have inserted := inserted_ordered ordered .ready (@rfl _ (x.proctab pid).prprio)
  rw [ready_shape wakes] at readied ⊢
  by_cases deferred : 0 < n
  · unfold resched at readied ⊢
    rw [if_pos (by rw [runs.ndefers]; exact deferred)] at readied ⊢
    exact ⟨readied, ⟨inserted.falls, inserted.keys⟩, Or.inl ⟨deferred, rfl⟩⟩
  · have none : n = 0 := by omega
    subst none
    exact leads_resched runs.settled runs.ndefers inserted

theorem leads_pop_ready (leads : Leads n x) (counted : 0 ≤ n) (waits : q ≠ .readylist) :
    Leads n (ready (x.setQueues (x.queues.pop q).2) (x.queues.pop q).1) := by
  cases list : x.queues.queue q with
  | nil =>
      rw [pop_nil list, ready_empty]
      exact leads
  | cons entry rest =>
      rw [pop_cons list]
      refine leads_ready (waking_of_popped leads.runs waits list) counted ?_
      refine ordered_sublist leads.ordered ?_ fun _ _ => rfl
      change ((x.queues.set q rest).queue .readylist).Sublist _
      rw [set_ready_keys waits]
      exact List.Sublist.refl _

theorem leads_release (sem : Int) (leads : Leads n x) (counted : 0 ≤ n) :
    Leads n (release sem x) := by
  have counts : Leads n (x.setCount sem ((x.semtab sem).scount + 1)) :=
    leads_same leads (running_same leads.runs (fun _ => ⟨rfl, rfl⟩) (fun _ => rfl) rfl rfl)
      (List.Sublist.refl _) (fun _ => rfl) rfl rfl
  unfold release
  dsimp only
  split_ifs
  · exact leads_pop_ready counts counted (by simp)
  · exact counts

theorem leads_defer_start (leads : Leads 0 x) : Leads 1 (deferStart x) := by
  refine ⟨defer_start_running leads.runs, ⟨leads.ordered.falls, leads.ordered.keys⟩, Or.inr ?_⟩
  rcases leads.top with deferred | top
  · exact absurd deferred.1 (by decide)
  · exact top

theorem leads_defer_stop (leads : Leads 1 x) : Leads 0 (deferStop x) := by
  have runs := defer_stop_running leads.runs
  unfold deferStop at runs ⊢
  have counted : ¬x.defer.ndefers ≤ 0 := by
    rw [leads.runs.ndefers]
    decide
  have none : x.defer.ndefers - 1 = 0 := by
    rw [leads.runs.ndefers]
    rfl
  have ordered : Ordered { x with defer := { x.defer with ndefers := x.defer.ndefers - 1 } } :=
    ⟨leads.ordered.falls, leads.ordered.keys⟩
  rw [if_neg counted] at runs ⊢
  dsimp only at runs ⊢
  by_cases attempted : x.defer.attempt = true
  · rw [if_pos ⟨none, attempted⟩]
    exact leads_resched ⟨leads.runs.settled.placed, leads.runs.settled.current,
      leads.runs.settled.inRange, leads.runs.settled.null⟩ none ordered
  · rw [if_neg fun both => attempted both.2] at runs ⊢
    refine ⟨runs, ordered, Or.inr ?_⟩
    rcases leads.top with deferred | top
    · exact absurd deferred.2 attempted
    · exact top

theorem leads_iterate {f : Kernel QueueLists → Kernel QueueLists} (turns : Nat)
    (keeps : ∀ x, Leads 1 x → Leads 1 (f x)) (leads : Leads 1 x) :
    Leads 1 (Nat.iterate f turns x) := by
  induction turns generalizing x with
  | zero => exact leads
  | succ turns induction => exact induction (keeps x leads)

theorem leads_ready_first (sem : Int) (leads : Leads 1 x) : Leads 1 (readyFirst sem x) :=
  leads_pop_ready leads (by decide) (by simp)

theorem leads_drain (sem : Int) (fuel : Nat) (leads : Leads 1 x) : Leads 1 (drain sem fuel x) := by
  induction fuel generalizing x with
  | zero => exact leads
  | succ fuel induction =>
      unfold drain
      split_ifs
      · exact leads
      · exact induction (leads_ready_first sem leads)

theorem leads_wakeup_loop (fuel : Nat) (leads : Leads 1 x) : Leads 1 (wakeupLoop fuel x) := by
  induction fuel generalizing x with
  | zero => exact leads
  | succ fuel induction =>
      unfold wakeupLoop
      split_ifs
      · exact induction (leads_pop_ready leads (by decide) (by simp))
      · exact leads

end Steps

section Calls

variable [Tables] {result : Option Int}

/-- The current process stops, and the ready list stays. -/
theorem leads_stopped {proc : Procent} (leads : Leads 0 x) (notNull : x.currpid ≠ nullproc)
    (moves : home proc = none ∧ l = x.queues ∨
      ∃ q, home proc = some q ∧ Adds x.currpid q x.queues l)
    (keys : l.queue .readylist = x.queues.queue .readylist)
    (tab : y.proctab = Function.update x.proctab x.currpid proc) (queues : y.queues = l)
    (current : y.currpid = x.currpid) (deferred : y.defer = x.defer)
    (prio : proc.prprio = (x.proctab x.currpid).prprio) : Leads 0 (resched y) := by
  refine leads_resched (stopped_settled leads.runs notNull moves tab queues current) ?_
    (ordered_sublist leads.ordered ?_ fun entry _ => ?_)
  · rw [deferred]
    exact leads.runs.ndefers
  · unfold readyKeys
    rw [queues, keys]
  · rw [tab]
    by_cases same : entry.1 = x.currpid
    · rw [same, Function.update_self, prio]
    · rw [Function.update_of_ne same]

omit [Tables] in
theorem getitem_sublist : (readyKeys (x.setQueues (QueueTable.getitem pid x.queues))).Sublist
    (readyKeys x) := List.filter_sublist

theorem leads_removed (leads : Leads 0 x) (runs : Running 0 y)
    (queues : (readyKeys y).Sublist (readyKeys x))
    (prio : ∀ pid, (y.proctab pid).prprio = (x.proctab pid).prprio)
    (current : y.currpid = x.currpid) (deferred : y.defer = x.defer) : Leads 0 y :=
  leads_same leads runs queues prio current (by rw [deferred])

/-- A process on the ready list is ready. -/
theorem ready_of_member {entry : Int × Int} (settled : Settled x) (member : entry ∈ readyKeys x) :
    (x.proctab entry.1).prstate = .ready := by
  have onList : entry.1 ∈ x.queues.pids .readylist := List.mem_map_of_mem member
  have belongs := ((settled.placed.placed entry.1 .readylist).mp onList).2
  unfold home at belongs
  split at belongs <;> simp_all

theorem leads_create (priority : Int) (stack : Bool) (leads : Leads 0 x) :
    Leads 0 (create x priority stack).1 := by
  have runs := create_running priority stack leads.runs
  rcases @create_cases _ _ x priority stack with ⟨nextpid, failed⟩ |
    ⟨slot, nextpid, _, free, made⟩
  · rw [failed] at runs ⊢
    exact leads_removed leads runs (List.Sublist.refl _) (fun _ => rfl) rfl rfl
  · rw [made] at runs ⊢
    have notCurrent : x.currpid ≠ slot := by
      intro same
      rw [← same, leads.runs.running] at free
      cases free
    refine ⟨runs, ordered_sublist leads.ordered (List.Sublist.refl _) ?_, Or.inr ?_⟩
    · intro entry member
      have ready := ready_of_member leads.runs.settled member
      have other : entry.1 ≠ slot := by
        intro same
        rw [same, free] at ready
        cases ready
      simp [Kernel.setRest, Kernel.setProc, other]
    · have top := leads.top.resolve_left fun both => absurd both.1 (by decide)
      refine top_sublist top (List.Sublist.refl _) (Int.le_of_eq ?_)
      simp [Kernel.setRest, Kernel.setProc, notCurrent]

theorem leads_resume (pid : Int) (leads : Leads 0 x) : Leads 0 (resume x pid).1 := by
  unfold resume
  split_ifs with bad state
  · exact leads
  · exact leads
  · have suspended : (x.proctab pid).prstate = .susp := not_not.mp state
    exact leads_ready (waking_of_idle leads.runs (in_range_of bad) (by simp [home, suspended])
      ⟨by rw [suspended]; decide, by rw [suspended]; decide⟩) (by decide) leads.ordered

theorem leads_suspend (pid : Int) (leads : Leads 0 x) : Leads 0 (suspend x pid).1 := by
  have runs := suspend_running pid leads.runs
  unfold suspend at runs ⊢
  split_ifs at runs ⊢ with bad isReady isCurrent
  · exact leads
  · exact leads_removed leads runs getitem_sublist (scheduled_state _).prprio rfl rfl
  · have good : ¬isbadpid x pid := fun isBad => bad (Or.inl isBad)
    have same := leads.runs.settled.current pid (in_range_of good) isCurrent
    subst same
    exact leads_stopped leads (fun null => bad (Or.inr null)) (Or.inl ⟨rfl, rfl⟩) rfl rfl rfl rfl
      rfl rfl
  · exact leads

theorem leads_chprio (pid newprio : Int) (leads : Leads 0 x)
    (keeps : ChprioKeeps x (.call (.chprio pid newprio))) :
    Leads 0 (chprio x pid newprio).1 := by
  have runs := chprio_running pid newprio leads.runs
  have top := leads.top.resolve_left fun both => absurd both.1 (by decide)
  unfold chprio at runs ⊢
  split_ifs at runs ⊢ with bad
  · exact leads
  · have prio : ∀ other, ((x.setProc pid { x.proctab pid with prprio := newprio }).proctab
        other).prprio = if other = pid then newprio else (x.proctab other).prprio := by
      intro other
      by_cases same : other = pid
      · subst same
        simp [Kernel.setProc]
      · simp [Kernel.setProc, same]
    rcases keeps with isBad | same | ⟨notReady, above⟩
    · exact absurd isBad bad
    · refine leads_removed leads runs (List.Sublist.refl _) (fun other => ?_) rfl rfl
      rw [prio]
      split_ifs with here
      · rw [here, same]
      · rfl
    · have ordered : Ordered (x.setProc pid { x.proctab pid with prprio := newprio }) := by
        refine ordered_sublist leads.ordered (List.Sublist.refl _) fun entry member => ?_
        have other : entry.1 ≠ pid := by
          rintro rfl
          exact notReady (ready_of_member leads.runs.settled member)
        rw [prio, if_neg other]
      refine ⟨runs, ordered, Or.inr ?_⟩
      by_cases here : pid = x.currpid
      · apply top_of_first ordered
        rw [prio]
        exact (if_pos here.symm).symm ▸ above here
      · refine top_sublist top (List.Sublist.refl _) (Int.le_of_eq ?_)
        rw [prio]
        exact (if_neg (Ne.symm here)).symm

theorem leads_yield (leads : Leads 0 x) : Leads 0 (yield x).1 :=
  leads_resched leads.runs.settled leads.runs.ndefers leads.ordered

theorem leads_sleep_as {prstate : PrState} (leads : Leads 0 x) (notNull : x.currpid ≠ nullproc)
    (sleeps : prstate = .sleep ∨ prstate = .rectim) : Leads 0 (sleepAs x prstate key) := by
  refine leads_stopped leads notNull (Or.inr ⟨.sleepq, ?_, insertd_adds key⟩) ?_ rfl rfl rfl rfl
    rfl
  · rcases sleeps with rfl | rfl <;> rfl
  · exact set_ready_keys (by decide)

theorem leads_sleepms (delay : Nat) (leads : Leads 0 x)
    (awake : x.currpid = nullproc → delay = 0) : Leads 0 (sleepms x delay).1 := by
  unfold sleepms
  split_ifs with zero
  · exact leads_yield leads
  · exact leads
  · exact leads_sleep_as leads (fun null => zero (awake null)) (Or.inl rfl)

/-- A change of the message of a process. -/
theorem leads_message (leads : Leads 0 x) (runs : Running 0 y)
    (prio : ∀ pid, (y.proctab pid).prprio = (x.proctab pid).prprio) (queues : y.queues = x.queues)
    (current : y.currpid = x.currpid) (deferred : y.defer = x.defer) : Leads 0 y := by
  refine leads_removed leads runs ?_ prio current deferred
  unfold readyKeys
  rw [queues]

omit [Tables] in
theorem set_proc_prprio {proc : Procent} (same : proc.prprio = (x.proctab pid).prprio)
    (other : Int) : ((x.setProc pid proc).proctab other).prprio = (x.proctab other).prprio := by
  by_cases here : other = pid
  · subst here
    simp [Kernel.setProc, same]
  · simp [Kernel.setProc, here]

theorem leads_take_message (leads : Leads 0 x) : Leads 0 (takeMessage x).1 :=
  leads_message leads (take_message_running leads.runs) (set_proc_prprio rfl) rfl rfl rfl

theorem leads_recvtime_end (leads : Leads 0 x) : Leads 0 (recvtimeEnd x).1 := by
  unfold recvtimeEnd
  split_ifs
  · exact leads_take_message leads
  · exact leads

theorem leads_receive (leads : Leads 0 x)
    (awake : x.currpid = nullproc → (x.proctab x.currpid).prhasmsg ≠ false) :
    Leads 0 (receive x).1 := by
  unfold receive
  split_ifs with waits
  · exact leads_stopped leads (fun null => awake null waits) (Or.inl ⟨rfl, rfl⟩) rfl rfl rfl rfl
      rfl rfl
  · exact leads_take_message leads

theorem leads_recvtime (maxwait : Int) (leads : Leads 0 x)
    (awake : x.currpid = nullproc →
      ¬(0 ≤ maxwait ∧ (x.proctab x.currpid).prhasmsg = false)) :
    Leads 0 (recvtime x maxwait).1 := by
  unfold recvtime
  split_ifs with negative waits
  · exact leads
  · exact leads
  · refine leads_sleep_as ?_ (fun null => awake null ⟨by omega, waits⟩) (Or.inr rfl)
    exact leads_message leads
      (running_same leads.runs (fun _ => ⟨rfl, rfl⟩) (fun _ => rfl) rfl rfl) (fun _ => rfl) rfl rfl
      rfl
  · exact leads_recvtime_end leads

theorem unsleep_ready_keys : readyKeys (unsleep x pid) = readyKeys x ∨
    (readyKeys (unsleep x pid)).Sublist (readyKeys x) := by
  unfold unsleep
  split_ifs
  · exact Or.inl rfl
  · exact Or.inl rfl
  · right
    have kept : (QueueLists.queue (QueueTable.passDelay pid x.queues)) .readylist =
        x.queues.queue .readylist := set_ready_keys (by decide)
    unfold readyKeys
    rw [← kept]
    exact List.filter_sublist

theorem unsleep_sublist : (readyKeys (unsleep x pid)).Sublist (readyKeys x) := by
  rcases @unsleep_ready_keys x pid _ with same | fewer
  · rw [same]
  · exact fewer

theorem leads_send (pid : Int) (msg : Nat) (leads : Leads 0 x) : Leads 0 (send x pid msg).1 := by
  have runs := send_running pid msg leads.runs
  unfold send at runs ⊢
  split_ifs at runs ⊢ with bad full waits timed
  · exact leads
  · exact leads
  all_goals
    have stored := stored_running leads.runs pid msg
    have same : ((x.setProc pid { x.proctab pid with prmsg := msg, prhasmsg := true }).proctab
        pid).prstate = (x.proctab pid).prstate := by simp [Kernel.setProc]
    have kept : Leads 0 (x.setProc pid { x.proctab pid with prmsg := msg, prhasmsg := true }) :=
      leads_message leads stored (set_proc_prprio rfl) rfl rfl rfl
  · exact leads_ready (waking_of_idle stored (in_range_of bad) (by unfold home; rw [same, waits])
      ⟨by rw [same, waits]; decide, by rw [same, waits]; decide⟩) (by decide) kept.ordered
  · refine leads_ready (waking_of_unsleep stored (in_range_of bad) (same.trans timed)) (by decide)
      (ordered_sublist kept.ordered unsleep_sublist fun entry _ => scheduled_unsleep.prprio _)
  · exact kept

theorem leads_wait (sem : Int) (leads : Leads 0 x)
    (awake : x.currpid = nullproc →
      ¬(¬isFreeSem x sem ∧ int32 ((x.semtab sem).scount - 1) < 0)) :
    Leads 0 (wait x sem).1 := by
  unfold wait
  split_ifs with free
  · exact leads
  · have counts : Leads 0 (x.setCount sem ((x.semtab sem).scount - 1)) :=
      leads_message leads (running_same leads.runs (fun _ => ⟨rfl, rfl⟩) (fun _ => rfl) rfl rfl)
        (fun _ => rfl) rfl rfl rfl
    dsimp only
    split_ifs with negative
    · have value : int32 ((x.semtab sem).scount - 1) < 0 := by
        simpa [Kernel.setCount] using negative
      exact leads_stopped counts (fun null => awake null ⟨free, value⟩)
        (Or.inr ⟨.squeue sem, rfl, enqueue_adds⟩) (set_ready_keys (by simp)) rfl rfl rfl rfl rfl
    · exact counts

theorem call_leads {call : Call} (leads : Leads 0 x) (awake : NullRuns x (.call call))
    (keeps : ChprioKeeps x (.call call)) (did : doCall x call = some (y, result)) :
    Leads 0 y := by
  cases call with
  | create priority stack => rw [did_state did]; exact leads_create priority stack leads
  | resume pid => rw [did_state did]; exact leads_resume pid leads
  | suspend pid => rw [did_state did]; exact leads_suspend pid leads
  | kill pid =>
      simp only [doCall, kill] at did
      split_ifs at did
      · cases did
        exact leads
      · cases did
        exact leads_send _ _ (leads_message leads
          (running_same leads.runs (fun _ => ⟨rfl, rfl⟩) (fun _ => rfl) rfl rfl) (fun _ => rfl) rfl
          rfl rfl)
  | chprio pid newprio => rw [did_state did]; exact leads_chprio pid newprio leads keeps
  | yield => rw [did_state did]; exact leads_yield leads
  | sleepms delay =>
      rw [did_state did]
      exact leads_sleepms delay leads fun null => not_not.mp (awake null)
  | sleep delay =>
      rw [did_state did]
      unfold sleep
      split_ifs with long
      · exact leads
      · refine leads_sleepms _ leads fun null => ?_
        by_contra waits
        exact awake null ⟨by omega, waits⟩
  | send pid msg => rw [did_state did]; exact leads_send pid msg leads
  | receive => rw [did_state did]; exact leads_receive leads awake
  | recvtime maxwait => rw [did_state did]; exact leads_recvtime maxwait leads awake
  | recvclr =>
      rw [did_state did]
      unfold recvclr
      split_ifs
      · exact leads_take_message leads
      · exact leads
  | wait sem => rw [did_state did]; exact leads_wait sem leads awake
  | signal sem =>
      rw [did_state did]
      unfold signal
      split_ifs
      · exact leads
      · exact leads_release sem leads (by decide)
  | signaln sem count =>
      rw [did_state did]
      unfold signaln
      split_ifs
      · exact leads
      · exact leads
      · exact leads_defer_stop (leads_iterate _
          (fun x leads => leads_release sem leads (by decide)) (leads_defer_start leads))
  | semcreate count =>
      have runs := semcreate_running count leads.runs
      rw [did_state did]
      unfold semcreate at runs ⊢
      split_ifs at runs ⊢
      · exact leads
      · dsimp only at runs ⊢
        split at runs
        · exact leads_message leads runs (fun _ => rfl) rfl rfl rfl
        · exact leads_message leads runs (fun _ => rfl) rfl rfl rfl
  | semreset sem count =>
      rw [did_state did]
      unfold semreset
      split_ifs
      · exact leads
      · refine leads_defer_stop ?_
        have drained := leads_drain sem nproc (leads_defer_start leads)
        exact leads_same drained
          (running_same drained.runs (fun _ => ⟨rfl, rfl⟩) (fun _ => rfl) rfl rfl)
          (List.Sublist.refl _) (fun _ => rfl) rfl rfl
  | semdelete sem =>
      rw [did_state did]
      unfold semdelete
      split_ifs
      · exact leads
      · refine leads_defer_stop ?_
        have unused : Leads 0 { x with
            semtab := Function.update x.semtab sem { x.semtab sem with used := false } } :=
          leads_message leads (running_same leads.runs (fun _ => ⟨rfl, rfl⟩) (fun _ => rfl) rfl rfl)
            (fun _ => rfl) rfl rfl rfl
        have drained := leads_iterate (-(x.semtab sem).scount).toNat
          (fun x leads => leads_ready_first sem leads) (leads_defer_start unused)
        exact leads_same drained
          (running_same drained.runs (fun _ => ⟨rfl, rfl⟩) (fun _ => rfl) rfl rfl)
          (List.Sublist.refl _) (fun _ => rfl) rfl rfl

theorem kill_end_leads (leads : Leads 0 x) (inRange : InRange pid) (notNull : pid ≠ nullproc) :
    Leads 0 (killEnd x pid).1 := by
  have runs := kill_end_running leads.runs inRange notNull
  unfold killEnd at runs ⊢
  split at runs
  · rename_i state
    have same := leads.runs.settled.current pid inRange state
    subst same
    exact leads_stopped leads notNull (Or.inl ⟨rfl, rfl⟩) rfl rfl rfl rfl rfl rfl
  · exact leads_removed leads runs unsleep_sublist
      (scheduled_unsleep.trans (scheduled_state _)).prprio (unsleep_current) unsleep_defer
  · exact leads_removed leads runs unsleep_sublist
      (scheduled_unsleep.trans (scheduled_state _)).prprio (unsleep_current) unsleep_defer
  · exact leads_removed leads runs getitem_sublist (scheduled_state _).prprio rfl rfl
  · exact leads_removed leads runs getitem_sublist (scheduled_state _).prprio rfl rfl
  · exact leads_removed leads runs (List.Sublist.refl _) (scheduled_state _).prprio rfl rfl

theorem clkhandler_leads (leads : Leads 0 x) : Leads 0 (clkhandler x) := by
  have runs := fun queues : QueueLists => fun same : ∀ q, queues.pids q = x.queues.pids q =>
    @running_same _ x ((x.setRest x.currpid (some .clock)).setQueues queues) 0 leads.runs
      (fun _ => ⟨rfl, rfl⟩) same rfl rfl
  have marked : Leads 0 (x.setRest x.currpid (some .clock)) :=
    leads_message leads (runs x.queues fun _ => rfl) (fun _ => rfl) rfl rfl rfl
  have counted : Leads 0 ((x.setRest x.currpid (some .clock)).setQueues
      (QueueTable.countDown .sleepq x.queues)) := by
    refine leads_removed leads (runs _ fun q => count_down_pids q) ?_ (fun _ => rfl) rfl rfl
    change ((x.queues.set .sleepq _).queue .readylist).Sublist _
    rw [set_ready_keys (by decide)]
    exact List.Sublist.refl _
  unfold clkhandler
  dsimp only
  split_ifs
  · exact leads_defer_stop (leads_wakeup_loop nproc (leads_defer_start counted))
  · exact counted
  · exact marked

theorem time_slice_leads (leads : Leads 0 x) : Leads 0 (timeSlice x) := by
  have counted := fun preempt : Nat => @leads_message x { x with preempt := preempt } _ leads
    (running_same leads.runs (fun _ => ⟨rfl, rfl⟩) (fun _ => rfl) rfl rfl) (fun _ => rfl) rfl rfl
    rfl
  unfold timeSlice
  dsimp only
  split_ifs
  · exact leads_resched (counted _).runs.settled (counted _).runs.ndefers (counted _).ordered
  · exact counted _

end Calls

section Results

variable [Tables]

structure Keeping (x : Kernel QueueLists) : Prop where
  leads : Leads 0 x
  targets : Targets x

/-- The null process never blocks, and a change of a priority moves nobody. -/
def Moves (x : Kernel QueueLists) (event : Event) : Prop := NullRuns x event ∧ ChprioKeeps x event

theorem keeping_step {event : Event} {result : Option Int} (keeping : Keeping x)
    (may : Moves x event) (did : act x event = some (y, result)) : Keeping y := by
  obtain ⟨leads, targets⟩ := keeping
  have sound := sound_step ⟨leads.runs, targets⟩ may.1 did
  refine ⟨?_, sound.targets⟩
  rcases act_inv did with ⟨call, rfl, _, called⟩ | ⟨rfl, _, rfl⟩ | ⟨rest, rfl, pending, ended⟩
  · exact call_leads leads may.1 may.2 called
  · exact clkhandler_leads leads
  · have cleared : Leads 0 (x.setRest x.currpid none) :=
      leads_message leads (running_same leads.runs (fun _ => ⟨rfl, rfl⟩) (fun _ => rfl) rfl rfl)
        (fun _ => rfl) rfl rfl rfl
    have left : y = (doRest (x.setRest x.currpid none) rest).1 := congrArg Prod.fst ended
    rw [left]
    cases rest with
    | receive => exact leads_take_message cleared
    | recvtime => exact leads_recvtime_end cleared
    | kill pid =>
        obtain ⟨inRange, notNull⟩ := targets _ _ pending
        exact kill_end_leads cleared inRange notNull
    | clock =>
        simp only [doRest]
        exact time_slice_leads cleared

theorem keeping_started (started : Started x) : Keeping x := by
  have sound := sound_started started
  have none : readyKeys x = [] := started.2 .readylist
  refine ⟨⟨sound.runs, ⟨?_, ?_⟩, Or.inr ?_⟩, sound.targets⟩
  · rw [none]
    exact List.Pairwise.nil
  · rw [none]
    intro entry member
    cases member
  · unfold Top
    rw [none]
    intro entry member
    cases member

/-- In a run in which priorities change only where that moves nobody, no ready process has a
higher priority than the current one. -/
theorem current_has_priority (run : Reached step Started Moves x) :
    ∀ pid ∈ x.queues.pids .readylist, (x.proctab pid).prprio ≤ (x.proctab x.currpid).prprio := by
  have keeping : Keeping x := by
    refine reached_invariant run (fun _ started => keeping_started started) ?_
    intro x y event keeping may did
    obtain ⟨result, acted⟩ := step_some did
    exact keeping_step keeping may acted
  intro pid member
  obtain ⟨entry, onList, rfl⟩ := List.mem_map.mp member
  have top := keeping.leads.top.resolve_left fun both => absurd both.1 (by decide)
  rw [← keeping.leads.ordered.keys entry onList]
  exact top entry onList

end Results

section Lowered

/-- A kernel with eight processes and as many semaphores. -/
@[reducible] def eight : Tables where
  nproc := 8
  nsem := 8
  nullFits := by decide

/-- `sysinit` leaves the null process running. -/
def booted : Kernel QueueLists where
  proctab pid :=
    { prstate := if pid = 0 then .curr else .free
      prprio := 0
      prsem := -1
      prparent := 0
      prhasmsg := false
      prmsg := 0 }
  currpid := 0
  queues := { queue := fun _ => [] }
  semtab _ := { used := false, scount := 0 }
  nextsem := 0
  nextpid := 1
  prcount := 1
  defer := { ndefers := 0, attempt := false }
  preempt := quantum
  rest _ := none

theorem booted_started : Started booted := by
  refine ⟨⟨rfl, fun pid other => ?_, rfl, rfl, fun _ => rfl, rfl, rfl, rfl, rfl, rfl, fun _ => rfl⟩,
    fun _ => rfl⟩
  exact if_neg other

/-- Process 1 runs with priority 20 and process 2 is ready with priority 10. -/
def twoProcesses : List Event :=
  [.call (.create 20 true), .call (.resume 1), .call (.create 10 true), .call (.resume 2)]

theorem current_has_priority_two :
    let _ : Tables := eight
    ∃ x : Kernel QueueLists, x.queues.pids .readylist = [0] ∧
      ∀ pid ∈ x.queues.pids .readylist,
        (x.proctab pid).prprio ≤ (x.proctab x.currpid).prprio := by
  let _ : Tables := eight
  have results : ((step booted (.call (.create 20 true))).bind fun x =>
      step x (.call (.resume 1))).map (fun x => x.queues.pids .readylist) = some [0] := by
    decide +kernel
  obtain ⟨x, took, ready⟩ := Option.map_eq_some_iff.mp results
  obtain ⟨middle, created, resumed⟩ := Option.bind_eq_some_iff.mp took
  have first : Moves booted (.call (.create 20 true)) := ⟨fun _ => id, trivial⟩
  have second : Moves middle (.call (.resume 1)) := ⟨fun _ => id, trivial⟩
  exact ⟨x, ready, current_has_priority
    (.step (.step (.start booted_started) first created) second resumed)⟩

/-- Process 1 lowers itself below process 2 and goes on. -/
theorem lowered_stays_current :
    let _ : Tables := eight
    ∃ x : Kernel QueueLists, Reached step Started NullRuns x ∧
      ∃ pid ∈ x.queues.pids .readylist,
        (x.proctab x.currpid).prprio < (x.proctab pid).prprio := by
  let _ : Tables := eight
  have results : (takeEvents step NullRuns (twoProcesses ++ [.call (.chprio 1 5)])
      booted).map (fun x => (x.queues.pids .readylist, x.currpid, (x.proctab 1).prprio,
        (x.proctab 2).prprio)) = some ([2, 0], 1, 5, 10) := by
    decide +kernel
  obtain ⟨x, took, values⟩ := Option.map_eq_some_iff.mp results
  simp only [Prod.mk.injEq] at values
  obtain ⟨ready, current, low, high⟩ := values
  refine ⟨x, take_events (.start booted_started) took, 2, by rw [ready]; simp, ?_⟩
  rw [current, low, high]
  decide

end Lowered

end Xinu.Sched.Priority
