import Xinu.Sched.Calls
import Xinu.Lib.Interleaving

/-!
# Where the processes are

The state of a process says which queue it is on. Every call keeps the queues in agreement
with the states, and whenever a call reschedules there is a process to run.
-/

namespace Xinu.Sched.Placement

open Xinu.Kernel.State (PrState nullproc sysErr ok word32)
open Xinu.Sched.Queues Xinu.Sched.Calls Xinu.Lib.Interleaving

set_option autoImplicit false

section Definitions

variable [Tables]

def InRange (pid : Int) : Prop := 0 ≤ pid ∧ pid < (nproc : Int)

/-- The queue that a process belongs on. -/
def home (proc : Procent) : Option Qid :=
  match proc.prstate with
  | .ready => some .readylist
  | .sleep => some .sleepq
  | .rectim => some .sleepq
  | .wait => some (.squeue proc.prsem)
  | _ => none

/-- Every process but `out` is on the queue it belongs on, and `out` is on none. -/
structure PlacedBut (out : Int) (tab : Int → Procent) (l : QueueLists) : Prop where
  nodup : ∀ q, (l.pids q).Nodup
  placed : ∀ pid q, pid ≠ out → (pid ∈ l.pids q ↔ InRange pid ∧ home (tab pid) = some q)
  out : ∀ q, out ∉ l.pids q

structure Placed (tab : Int → Procent) (l : QueueLists) : Prop where
  nodup : ∀ q, (l.pids q).Nodup
  placed : ∀ pid q, pid ∈ l.pids q ↔ InRange pid ∧ home (tab pid) = some q

/-- `pid` is put on a queue. -/
def Adds (pid : Int) (q : Qid) (l l' : QueueLists) : Prop :=
  (∃ front back, l.pids q = front ++ back ∧ l'.pids q = front ++ pid :: back) ∧
    ∀ other, other ≠ q → l'.pids other = l.pids other

/-- `pid` is taken off its queue. -/
def Drops (pid : Int) (l l' : QueueLists) : Prop :=
  ∀ q, l'.pids q = (l.pids q).filter (· ≠ pid)

/-- No queue is longer than the process table. -/
theorem in_range_length {pids : List Int} (nodup : pids.Nodup)
    (inRange : ∀ pid ∈ pids, InRange pid) : pids.length ≤ nproc := by
  have inTable : pids ⊆ (List.range nproc).map fun slot : Nat => (slot : Int) := by
    intro pid member
    have place := inRange pid member
    unfold InRange at place
    refine List.mem_map.mpr ⟨pid.toNat, List.mem_range.mpr (by omega), by omega⟩
  have shorter := (List.subperm_of_subset nodup inTable).length_le
  simpa using shorter

end Definitions

section Lists

variable {pid : Int} {q : Qid} {l l' : QueueLists} {tab : Int → Procent} {proc : Procent}

theorem set_pids (entries : List (Int × Int)) : (l.set q entries).pids q = entries.map Prod.fst := by
  simp [QueueLists.set, QueueLists.pids]

theorem set_pids_other {other : Qid} (entries : List (Int × Int)) (different : other ≠ q) :
    (l.set q entries).pids other = l.pids other := by
  simp [QueueLists.set, QueueLists.pids, different]

theorem insert_adds (key : Int) : Adds pid q l (QueueTable.insert pid q key l) := by
  obtain ⟨front, back, split, inserted, _⟩ := insert_key_split pid key (l.queue q)
  refine ⟨⟨front.map Prod.fst, back.map Prod.fst, ?_, ?_⟩, fun other different =>
    set_pids_other _ different⟩
  · rw [QueueLists.pids, split, List.map_append]
  · change (l.set q _).pids q = _
    rw [set_pids, inserted, List.map_append]
    rfl

theorem insertd_adds (key : Int) : Adds pid q l (QueueTable.insertd pid q key l) := by
  obtain ⟨front, back, split, inserted⟩ := insert_delay_pids pid key (l.queue q)
  refine ⟨⟨front, back, split, ?_⟩, fun other different => set_pids_other _ different⟩
  change (l.set q _).pids q = _
  rw [set_pids, inserted]

theorem enqueue_adds : Adds pid q l (QueueTable.enqueue pid q l) := by
  refine ⟨⟨l.pids q, [], by simp, ?_⟩, fun other different => set_pids_other _ different⟩
  change (l.set q _).pids q = _
  rw [set_pids, List.map_append]
  rfl

theorem getitem_drops : Drops pid l (QueueTable.getitem pid l) := by
  intro q
  change ((l.queue q).filter _).map Prod.fst = _
  rw [QueueLists.pids, List.filter_map]
  rfl

theorem pass_delay_pids (q : Qid) :
    QueueLists.pids (QueueTable.passDelay pid l) q = l.pids q := by
  change (l.set .sleepq _).pids q = _
  by_cases same : q = .sleepq
  · subst same
    rw [set_pids, pass_key_pids]
    rfl
  · rw [set_pids_other _ same]

theorem count_down_pids (other : Qid) :
    QueueLists.pids (QueueTable.countDown q l) other = l.pids other := by
  change (l.set q _).pids other = _
  by_cases same : other = q
  · subst same
    rw [set_pids, count_first_pids]
    rfl
  · rw [set_pids_other _ same]

theorem pop_nil (none : l.queue q = []) : l.pop q = (Queues.empty, l) := by
  simp [QueueLists.pop, none]

theorem pop_cons {entry : Int × Int} {rest : List (Int × Int)} (some : l.queue q = entry :: rest) :
    l.pop q = (entry.1, l.set q rest) := by
  simp [QueueLists.pop, some]

end Lists

section Places

variable [Tables] {pid out : Int} {q : Qid} {l l' : QueueLists} {tab tab' : Int → Procent} {proc : Procent}

theorem Placed.but (placed : Placed tab l) (idle : home (tab pid) = none) :
    PlacedBut pid tab l := by
  refine ⟨placed.nodup, fun other q _ => placed.placed other q, fun q member => ?_⟩
  have belongs := ((placed.placed pid q).mp member).2
  rw [idle] at belongs
  cases belongs

theorem Placed.dropped (placed : Placed tab l) (drops : Drops pid l l') : PlacedBut pid tab l' := by
  refine ⟨fun q => ?_, fun other q different => ?_, fun q => ?_⟩
  · rw [drops q]
    exact (placed.nodup q).filter _
  · rw [drops q, List.mem_filter, ← placed.placed other q]
    simp [different]
  · rw [drops q]
    simp

/-- A process that belongs on no queue is on none. -/
theorem Placed.idle_drops (placed : Placed tab l) (idle : home (tab pid) = none) :
    Drops pid l l := by
  intro q
  refine (List.filter_eq_self.mpr ?_).symm
  intro other member
  simp only [ne_eq, decide_not, Bool.not_eq_eq_eq_not, Bool.not_true, decide_eq_false_iff_not]
  rintro rfl
  exact (placed.but idle).out q member

/-- The first process of a queue is on no other one. -/
theorem Placed.popped (placed : Placed tab l) {entry : Int × Int} {rest : List (Int × Int)}
    (first : l.queue q = entry :: rest) : Drops entry.1 l (l.set q rest) := by
  have here : l.pids q = entry.1 :: rest.map Prod.fst := by rw [QueueLists.pids, first]; rfl
  have distinct := placed.nodup q
  rw [here] at distinct
  obtain ⟨notLater, _⟩ := List.nodup_cons.mp distinct
  intro other
  by_cases same : other = q
  · subst same
    rw [set_pids, here, List.filter_cons_of_neg (by simp)]
    refine (List.filter_eq_self.mpr ?_).symm
    intro pid member
    simp only [ne_eq, decide_not, Bool.not_eq_eq_eq_not, Bool.not_true, decide_eq_false_iff_not]
    rintro rfl
    exact notLater member
  · rw [set_pids_other _ same]
    refine (List.filter_eq_self.mpr ?_).symm
    intro pid member
    simp only [ne_eq, decide_not, Bool.not_eq_eq_eq_not, Bool.not_true, decide_eq_false_iff_not]
    rintro rfl
    have there := ((placed.placed _ other).mp member).2
    have belongs := ((placed.placed entry.1 q).mp (by rw [here]; simp)).2
    rw [belongs] at there
    exact same (Option.some.inj there).symm

theorem PlacedBut.update (but : PlacedBut pid tab l) (proc : Procent) :
    PlacedBut pid (Function.update tab pid proc) l := by
  refine ⟨but.nodup, fun other q different => ?_, but.out⟩
  rw [Function.update_of_ne different]
  exact but.placed other q different

theorem PlacedBut.idle (but : PlacedBut pid tab l) (idle : home (tab pid) = none) :
    Placed tab l := by
  refine ⟨but.nodup, fun other q => ?_⟩
  by_cases same : other = pid
  · subst same
    simp [but.out q, idle]
  · exact but.placed other q same

theorem PlacedBut.added (but : PlacedBut pid tab l) (inRange : InRange pid)
    (adds : Adds pid q l l') (belongs : home (tab pid) = some q) : Placed tab l' := by
  obtain ⟨⟨front, back, split, added⟩, others⟩ := adds
  refine ⟨fun other => ?_, fun other q' => ?_⟩
  · by_cases same : other = q
    · subst same
      have distinct := but.nodup other
      have out := but.out other
      rw [split] at distinct out
      rw [added]
      exact List.perm_middle.nodup_iff.mpr (List.nodup_cons.mpr ⟨out, distinct⟩)
    · rw [others other same]
      exact but.nodup other
  · by_cases same : other = pid
    · subst same
      by_cases here : q' = q
      · subst here
        simp [added, inRange, belongs]
      · rw [others q' here, belongs]
        simp [but.out q', Ne.symm here]
    · rw [← but.placed other q' same]
      by_cases here : q' = q
      · subst here
        rw [added, split]
        simp [same]
      · rw [others q' here]

/-- A change that moves nobody. -/
theorem Placed.same (placed : Placed tab l) (homes : ∀ pid, home (tab' pid) = home (tab pid))
    (pids : ∀ q, l'.pids q = l.pids q) : Placed tab' l' := by
  refine ⟨fun q => ?_, fun pid q => ?_⟩
  · rw [pids q]
    exact placed.nodup q
  · rw [pids q, homes pid]
    exact placed.placed pid q

end Places

section Kernels

section States

variable {x : Kernel QueueLists} {pid : Int}

@[simp] theorem set_state_self (state : PrState) :
    ((x.setState pid state).proctab pid).prstate = state := by
  simp [Kernel.setState, Kernel.setProc]

@[simp] theorem set_state_other {other : Int} {state : PrState} (different : other ≠ pid) :
    (x.setState pid state).proctab other = x.proctab other := by
  simp [Kernel.setState, Kernel.setProc, different]

end States

variable [Tables] {x y : Kernel QueueLists} {pid : Int} {ndefers : Int}

/-- What holds inside of a call, too: the processes are where they belong, only the current
process can be `PR_CURR`, and the null process never blocks. -/
structure Settled (x : Kernel QueueLists) : Prop where
  placed : Placed x.proctab x.queues
  current : ∀ pid, InRange pid → (x.proctab pid).prstate = .curr → pid = x.currpid
  inRange : InRange x.currpid
  null : (x.proctab nullproc).prstate = .curr ∨ (x.proctab nullproc).prstate = .ready

/-- The current process runs. -/
structure Running (ndefers : Int) (x : Kernel QueueLists) : Prop where
  settled : Settled x
  running : (x.proctab x.currpid).prstate = .curr
  ndefers : x.defer.ndefers = ndefers

/-- The same while a process that is to be made ready is on no queue. -/
structure Waking (pid : Int) (ndefers : Int) (x : Kernel QueueLists) : Prop where
  placed : PlacedBut pid x.proctab x.queues
  current : ∀ pid, InRange pid → (x.proctab pid).prstate = .curr → pid = x.currpid
  inRange : InRange x.currpid
  null : (x.proctab nullproc).prstate = .curr ∨ (x.proctab nullproc).prstate = .ready
  running : (x.proctab x.currpid).prstate = .curr
  ndefers : x.defer.ndefers = ndefers
  here : InRange pid
  asleep : (x.proctab pid).prstate ≠ .curr ∧ (x.proctab pid).prstate ≠ .ready ∧
    (x.proctab pid).prstate ≠ .free

theorem null_in_range : InRange nullproc := by
  have fits := nullFits
  unfold InRange nullproc
  omega

theorem queue_length (settled : Settled x) (q : Qid) : (x.queues.queue q).length ≤ nproc := by
  have short := in_range_length (settled.placed.nodup q) fun pid member =>
    ((settled.placed.placed pid q).mp member).1
  simpa [QueueLists.pids] using short

theorem in_range_of (good : ¬isbadpid x pid) : InRange pid := by
  unfold isbadpid at good
  unfold InRange
  omega

theorem live_of (good : ¬isbadpid x pid) : (x.proctab pid).prstate ≠ .free :=
  fun free => good (Or.inr (Or.inr free))

theorem good_of (inRange : InRange pid) (live : (x.proctab pid).prstate ≠ .free) :
    ¬isbadpid x pid := by
  unfold InRange at inRange
  rintro (below | above | free)
  · omega
  · omega
  · exact live free

theorem insert_good {q : Qid} {key : Int} (inRange : InRange pid)
    (live : (x.proctab pid).prstate ≠ .free) :
    Calls.insert x pid q key = x.setQueues (QueueTable.insert pid q key x.queues) :=
  if_neg (good_of inRange live)

/-- The null process is current or ready, so that there is always a process to run. -/
theorem switch_running (settled : Settled x) (stopped : (x.proctab x.currpid).prstate ≠ .curr) :
    ∃ entry rest, x.queues.queue .readylist = entry :: rest ∧
      switch x = ({ x with
        currpid := entry.1
        queues := x.queues.set .readylist rest
        preempt := quantum }).setState entry.1 .curr ∧
      Running x.defer.ndefers (switch x) := by
  have noCurrent : ∀ pid, InRange pid → (x.proctab pid).prstate ≠ .curr := by
    intro pid inRange isCurrent
    have same := settled.current pid inRange isCurrent
    subst same
    exact stopped isCurrent
  have nullReady : (x.proctab nullproc).prstate = .ready :=
    settled.null.resolve_left (noCurrent nullproc null_in_range)
  have onList : nullproc ∈ x.queues.pids .readylist :=
    (settled.placed.placed nullproc .readylist).mpr ⟨null_in_range, by simp [home, nullReady]⟩
  cases list : x.queues.queue .readylist with
  | nil => simp [QueueLists.pids, list] at onList
  | cons entry rest =>
      have popped : QueueTable.dequeue .readylist x.queues =
          (entry.1, x.queues.set .readylist rest) := pop_cons list
      have shape : switch x = ({ x with
          currpid := entry.1
          queues := x.queues.set .readylist rest
          preempt := quantum }).setState entry.1 .curr := by
        unfold switch
        rw [popped]
      refine ⟨entry, rest, rfl, shape, ?_⟩
      have member : entry.1 ∈ x.queues.pids .readylist := by simp [QueueLists.pids, list]
      have place := (settled.placed.placed entry.1 .readylist).mp member
      have but := settled.placed.dropped (settled.placed.popped list)
      rw [shape]
      refine ⟨⟨?_, ?_, place.1, ?_⟩, ?_, rfl⟩
      · refine (but.update _).idle ?_
        simp [home]
      · intro pid inRange isCurrent
        by_contra different
        have other : pid ≠ entry.1 := different
        rw [set_state_other other] at isCurrent
        exact noCurrent pid inRange isCurrent
      · by_cases isNull : nullproc = entry.1
        · exact Or.inl (by rw [← isNull]; exact set_state_self _)
        · exact Or.inr (by rw [set_state_other isNull]; exact nullReady)
      · exact set_state_self _

/-- The current process goes to the ready list. -/
theorem yielded_settled (key : Int) (settled : Settled x)
    (runs : (x.proctab x.currpid).prstate = .curr) :
    Settled ((x.setState x.currpid .ready).setQueues
        (QueueTable.insert x.currpid .readylist key x.queues)) ∧
      (((x.setState x.currpid .ready).setQueues (QueueTable.insert x.currpid .readylist key
        x.queues)).proctab x.currpid).prstate ≠ .curr := by
  have but : PlacedBut x.currpid x.proctab x.queues := settled.placed.but (by simp [home, runs])
  refine ⟨⟨(but.update _).added settled.inRange (insert_adds _) (by simp [home]), ?_,
    settled.inRange, ?_⟩, ?_⟩
  · intro pid inRange isCurrent
    by_contra different
    have other : pid ≠ x.currpid := different
    change ((x.setState x.currpid .ready).proctab pid).prstate = .curr at isCurrent
    rw [set_state_other other] at isCurrent
    exact different (settled.current pid inRange isCurrent)
  · change ((x.setState x.currpid .ready).proctab nullproc).prstate = .curr ∨
      ((x.setState x.currpid .ready).proctab nullproc).prstate = .ready
    by_cases isNull : nullproc = x.currpid
    · exact Or.inr (by rw [isNull]; exact set_state_self _)
    · rw [set_state_other isNull]
      exact settled.null
  · change ((x.setState x.currpid .ready).proctab x.currpid).prstate ≠ .curr
    rw [set_state_self]
    decide

theorem resched_running (settled : Settled x) (undeferred : x.defer.ndefers = 0) :
    Running 0 (resched x) := by
  unfold resched
  rw [if_neg (by omega)]
  by_cases runs : (x.proctab x.currpid).prstate = .curr
  · rw [if_pos runs]
    split_ifs
    · exact ⟨settled, runs, undeferred⟩
    · rw [insert_good settled.inRange (by simp)]
      obtain ⟨settled', stopped⟩ := yielded_settled (x.proctab x.currpid).prprio settled runs
      obtain ⟨_, _, _, _, running⟩ := switch_running settled' stopped
      have same : ((x.setState x.currpid .ready).setQueues (QueueTable.insert x.currpid .readylist
          (x.proctab x.currpid).prprio (x.setState x.currpid .ready).queues)).defer.ndefers = 0 :=
        undeferred
      rw [← same]
      exact running
  · rw [if_neg runs]
    obtain ⟨_, _, _, _, running⟩ := switch_running settled runs
    rw [undeferred] at running
    exact running

end Kernels

section Steps

variable [Tables] {x y : Kernel QueueLists} {pid ndefers : Int} {proc : Procent} {q : Qid}
  {l : QueueLists}

/-- Only the states, the queues and the current process count. -/
theorem running_same (runs : Running ndefers x)
    (states : ∀ pid, (y.proctab pid).prstate = (x.proctab pid).prstate ∧
      (y.proctab pid).prsem = (x.proctab pid).prsem)
    (pids : ∀ q, y.queues.pids q = x.queues.pids q) (current : y.currpid = x.currpid)
    (deferred : y.defer.ndefers = x.defer.ndefers) : Running ndefers y := by
  obtain ⟨settled, running, undeferred⟩ := runs
  refine ⟨⟨settled.placed.same ?_ pids, ?_, ?_, ?_⟩, ?_, deferred.trans undeferred⟩
  · intro pid
    unfold home
    rw [(states pid).1, (states pid).2]
  · intro pid inRange isCurrent
    rw [current]
    exact settled.current pid inRange ((states pid).1 ▸ isCurrent)
  · rw [current]
    exact settled.inRange
  · rw [(states nullproc).1]
    exact settled.null
  · rw [current, (states _).1]
    exact running

/-- The current process stops. -/
theorem stopped_settled (runs : Running 0 x) (notNull : x.currpid ≠ nullproc)
    (moves : home proc = none ∧ l = x.queues ∨
      ∃ q, home proc = some q ∧ Adds x.currpid q x.queues l)
    (tab : y.proctab = Function.update x.proctab x.currpid proc) (queues : y.queues = l)
    (current : y.currpid = x.currpid) : Settled y := by
  obtain ⟨settled, running, _⟩ := runs
  have idle : home (x.proctab x.currpid) = none := by simp [home, running]
  have but := (settled.placed.but idle).update proc
  refine ⟨?_, ?_, ?_, ?_⟩
  · rw [tab, queues]
    rcases moves with ⟨idle, rfl⟩ | ⟨q, belongs, adds⟩
    · exact but.idle (by rw [Function.update_self]; exact idle)
    · exact but.added settled.inRange adds (by rw [Function.update_self]; exact belongs)
  · intro pid inRange isCurrent
    rw [tab] at isCurrent
    rw [current]
    by_cases same : pid = x.currpid
    · exact same
    · rw [Function.update_of_ne same] at isCurrent
      exact settled.current pid inRange isCurrent
  · rw [current]
    exact settled.inRange
  · rw [tab, Function.update_of_ne (Ne.symm notNull)]
    exact settled.null

theorem stopped_running (runs : Running 0 x) (notNull : x.currpid ≠ nullproc)
    (moves : home proc = none ∧ l = x.queues ∨
      ∃ q, home proc = some q ∧ Adds x.currpid q x.queues l)
    (tab : y.proctab = Function.update x.proctab x.currpid proc) (queues : y.queues = l)
    (current : y.currpid = x.currpid) (deferred : y.defer = x.defer) :
    Running 0 (resched y) := by
  refine resched_running (stopped_settled runs notNull moves tab queues current) ?_
  rw [deferred]
  exact runs.ndefers

/-- A process that is not the current one is taken off its queue. -/
theorem removed_running (runs : Running 0 x) (other : pid ≠ x.currpid) (notNull : pid ≠ nullproc)
    (idle : home proc = none) (stops : proc.prstate ≠ .curr) (drops : Drops pid x.queues l)
    (tab : y.proctab = Function.update x.proctab pid proc) (queues : y.queues = l)
    (current : y.currpid = x.currpid) (deferred : y.defer = x.defer) : Running 0 y := by
  obtain ⟨settled, running, undeferred⟩ := runs
  have but := (settled.placed.dropped drops).update proc
  refine ⟨⟨?_, ?_, ?_, ?_⟩, ?_, ?_⟩
  · rw [tab, queues]
    exact but.idle (by rw [Function.update_self]; exact idle)
  · intro pid' inRange isCurrent
    rw [tab] at isCurrent
    rw [current]
    by_cases same : pid' = pid
    · subst same
      rw [Function.update_self] at isCurrent
      exact absurd isCurrent stops
    · rw [Function.update_of_ne same] at isCurrent
      exact settled.current pid' inRange isCurrent
  · rw [current]
    exact settled.inRange
  · rw [tab, Function.update_of_ne (Ne.symm notNull)]
    exact settled.null
  · rw [tab, current, Function.update_of_ne (Ne.symm other)]
    exact running
  · rw [deferred]
    exact undeferred

theorem waking_of_idle (runs : Running ndefers x) (inRange : InRange pid)
    (idle : home (x.proctab pid) = none)
    (asleep : (x.proctab pid).prstate ≠ .curr ∧ (x.proctab pid).prstate ≠ .free) :
    Waking pid ndefers x := by
  obtain ⟨settled, running, deferred⟩ := runs
  refine ⟨settled.placed.but idle, settled.current, settled.inRange, settled.null, running,
    deferred, inRange, asleep.1, ?_, asleep.2⟩
  intro isReady
  simp [home, isReady] at idle

theorem waking_of_dropped (runs : Running ndefers x) (inRange : InRange pid)
    (drops : Drops pid x.queues l)
    (asleep : (x.proctab pid).prstate ≠ .curr ∧ (x.proctab pid).prstate ≠ .ready ∧
      (x.proctab pid).prstate ≠ .free) : Waking pid ndefers (x.setQueues l) := by
  obtain ⟨settled, running, deferred⟩ := runs
  exact ⟨settled.placed.dropped drops, settled.current, settled.inRange, settled.null, running,
    deferred, inRange, asleep⟩

/-- The state before `resched` in `ready`. -/
theorem inserted_running (wakes : Waking pid ndefers x) :
    Running ndefers ((x.setState pid .ready).setQueues
      (QueueTable.insert pid .readylist (x.proctab pid).prprio x.queues)) := by
  have other : x.currpid ≠ pid := by
    intro same
    exact wakes.asleep.1 (same ▸ wakes.running)
  refine ⟨⟨?_, ?_, wakes.inRange, ?_⟩, ?_, wakes.ndefers⟩
  · exact (wakes.placed.update _).added wakes.here (insert_adds _) (by simp [home])
  · intro pid' inRange isCurrent
    change ((x.setState pid .ready).proctab pid').prstate = .curr at isCurrent
    by_cases same : pid' = pid
    · subst same
      rw [set_state_self] at isCurrent
      cases isCurrent
    · rw [set_state_other same] at isCurrent
      exact wakes.current pid' inRange isCurrent
  · change ((x.setState pid .ready).proctab nullproc).prstate = .curr ∨
      ((x.setState pid .ready).proctab nullproc).prstate = .ready
    by_cases same : nullproc = pid
    · exact Or.inr (by rw [same]; exact set_state_self _)
    · rw [set_state_other same]
      exact wakes.null
  · change ((x.setState pid .ready).proctab x.currpid).prstate = .curr
    rw [set_state_other other]
    exact wakes.running

theorem ready_shape (wakes : Waking pid ndefers x) :
    ready x pid = resched ((x.setState pid .ready).setQueues
      (QueueTable.insert pid .readylist (x.proctab pid).prprio x.queues)) := by
  unfold ready
  rw [if_neg (good_of wakes.here wakes.asleep.2.2), insert_good wakes.here (by simp)]
  rfl

theorem ready_running (wakes : Waking pid ndefers x) (counted : 0 ≤ ndefers) :
    Running ndefers (ready x pid) := by
  rw [ready_shape wakes]
  have inserted := inserted_running wakes
  by_cases deferred : 0 < ndefers
  · unfold resched
    rw [if_pos (by rw [inserted.ndefers]; exact deferred)]
    exact running_same inserted (fun _ => ⟨rfl, rfl⟩) (fun _ => rfl) rfl rfl
  · have none : ndefers = 0 := by omega
    subst none
    exact resched_running inserted.settled inserted.ndefers

/-- `ready(EMPTY)` does nothing. -/
theorem ready_empty : ready x Queues.empty = x := if_pos (Or.inl (by decide))

theorem waking_of_popped {entry : Int × Int} {rest : List (Int × Int)} (runs : Running ndefers x)
    (waits : q ≠ .readylist) (list : x.queues.queue q = entry :: rest) :
    Waking entry.1 ndefers (x.setQueues (x.queues.set q rest)) := by
  have member : entry.1 ∈ x.queues.pids q := by simp [QueueLists.pids, list]
  obtain ⟨inRange, belongs⟩ := (runs.settled.placed.placed entry.1 q).mp member
  refine waking_of_dropped runs inRange (runs.settled.placed.popped list) ⟨?_, ?_, ?_⟩
  · intro state
    simp [home, state] at belongs
  · intro state
    simp only [home, state, Option.some.injEq] at belongs
    exact waits belongs.symm
  · intro state
    simp [home, state] at belongs

/-- The first process of a queue of sleeping or waiting processes is made ready. -/
theorem pop_ready_running (runs : Running ndefers x) (counted : 0 ≤ ndefers)
    (waits : q ≠ .readylist) :
    Running ndefers (ready (x.setQueues (x.queues.pop q).2) (x.queues.pop q).1) := by
  cases list : x.queues.queue q with
  | nil =>
      rw [pop_nil list, ready_empty]
      exact runs
  | cons entry rest =>
      rw [pop_cons list]
      exact ready_running (waking_of_popped runs waits list) counted

theorem defer_start_running (runs : Running 0 x) : Running 1 (deferStart x) :=
  ⟨⟨runs.settled.placed, runs.settled.current, runs.settled.inRange, runs.settled.null⟩,
    runs.running, by
      change x.defer.ndefers + 1 = 1
      rw [runs.ndefers]
      rfl⟩

theorem defer_stop_running (runs : Running 1 x) : Running 0 (deferStop x) := by
  unfold deferStop
  rw [if_neg (by rw [runs.ndefers]; decide)]
  have stopped : Running 0 { x with defer := { x.defer with ndefers := x.defer.ndefers - 1 } } :=
    ⟨⟨runs.settled.placed, runs.settled.current, runs.settled.inRange, runs.settled.null⟩,
      runs.running, by
        change x.defer.ndefers - 1 = 0
        rw [runs.ndefers]
        rfl⟩
  dsimp only
  split_ifs
  · exact resched_running stopped.settled stopped.ndefers
  · exact stopped

theorem release_running (sem : Int) (runs : Running ndefers x) (counted : 0 ≤ ndefers) :
    Running ndefers (release sem x) := by
  have counts : Running ndefers (x.setCount sem ((x.semtab sem).scount + 1)) :=
    running_same runs (fun _ => ⟨rfl, rfl⟩) (fun _ => rfl) rfl rfl
  unfold release
  dsimp only
  split_ifs
  · exact pop_ready_running counts counted (by simp)
  · exact counts

theorem iterate_running {f : Kernel QueueLists → Kernel QueueLists} (n : Nat)
    (keeps : ∀ x, Running 1 x → Running 1 (f x)) (runs : Running 1 x) :
    Running 1 (Nat.iterate f n x) := by
  induction n generalizing x with
  | zero => exact runs
  | succ n induction => exact induction (keeps x runs)

theorem ready_first_running (sem : Int) (runs : Running 1 x) : Running 1 (readyFirst sem x) :=
  pop_ready_running runs (by decide) (by simp)

theorem drain_running (sem : Int) (fuel : Nat) (runs : Running 1 x) :
    Running 1 (drain sem fuel x) := by
  induction fuel generalizing x with
  | zero => exact runs
  | succ fuel induction =>
      unfold drain
      split_ifs
      · exact runs
      · exact induction (ready_first_running sem runs)

theorem wakeup_loop_running (fuel : Nat) (runs : Running 1 x) : Running 1 (wakeupLoop fuel x) := by
  induction fuel generalizing x with
  | zero => exact runs
  | succ fuel induction =>
      unfold wakeupLoop
      split_ifs
      · exact induction (pop_ready_running runs (by decide) (by simp))
      · exact runs

end Steps

section Queues

variable [Tables] {x : Kernel QueueLists} {pid key : Int} {q : Qid}

omit [Tables] in
/-- Rescheduling changes the ready list only. -/
theorem queue_switch (other : q ≠ .readylist) :
    (switch x).queues.queue q = x.queues.queue q := by
  change (QueueLists.pop x.queues .readylist).2.queue q = _
  unfold QueueLists.pop
  split
  · rfl
  · simp [QueueLists.set, other]

theorem queue_insert (other : q ≠ .readylist) :
    (Calls.insert x pid .readylist key).queues.queue q = x.queues.queue q := by
  unfold Calls.insert
  split_ifs
  · rfl
  · change (x.queues.set .readylist _).queue q = _
    simp [QueueLists.set, other]

theorem queue_resched (other : q ≠ .readylist) :
    (resched x).queues.queue q = x.queues.queue q := by
  unfold resched
  split_ifs
  · rfl
  · rfl
  · rw [queue_switch other, queue_insert other]
    rfl
  · exact queue_switch other

theorem queue_ready (other : q ≠ .readylist) :
    (ready x pid).queues.queue q = x.queues.queue q := by
  unfold ready
  split_ifs
  · rfl
  · rw [queue_resched other, queue_insert other]
    rfl

theorem queue_defer_stop (other : q ≠ .readylist) :
    (deferStop x).queues.queue q = x.queues.queue q := by
  unfold deferStop
  dsimp only
  split_ifs
  · rfl
  · exact queue_resched other
  · rfl

omit [Tables] in
theorem queue_pop {from' : Qid} (other : q ≠ from') :
    (x.queues.pop from').2.queue q = x.queues.queue q := by
  unfold QueueLists.pop
  split
  · rfl
  · simp [QueueLists.set, other]

theorem queue_ready_first (sem : Int) (other : q ≠ .readylist) (notSem : q ≠ .squeue sem) :
    (readyFirst sem x).queues.queue q = x.queues.queue q := by
  unfold readyFirst
  rw [queue_ready other]
  exact queue_pop notSem

theorem queue_release (sem : Int) (other : q ≠ .readylist) (notSem : q ≠ .squeue sem) :
    (release sem x).queues.queue q = x.queues.queue q := by
  unfold release
  dsimp only
  split_ifs
  · rw [queue_ready other]
    exact queue_pop notSem
  · rfl

omit [Tables] in
theorem queue_iterate {f : Kernel QueueLists → Kernel QueueLists} (n : Nat)
    (keeps : ∀ x, (f x).queues.queue q = x.queues.queue q) :
    (Nat.iterate f n x).queues.queue q = x.queues.queue q := by
  induction n generalizing x with
  | zero => rfl
  | succ n induction => exact induction.trans (keeps x)

theorem queue_drain (sem : Int) (fuel : Nat) (other : q ≠ .readylist) (notSem : q ≠ .squeue sem) :
    (drain sem fuel x).queues.queue q = x.queues.queue q := by
  induction fuel generalizing x with
  | zero => rfl
  | succ fuel induction =>
      unfold drain
      split_ifs
      · rfl
      · exact induction.trans (queue_ready_first sem other notSem)

end Queues

end Xinu.Sched.Placement
