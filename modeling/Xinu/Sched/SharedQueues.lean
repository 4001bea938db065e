import Xinu.Sched.Placement
import Xinu.Lib.LinkedQueue

/-!
# The shared queue table

`queuetab` has an entry for each process, and for each queue one as its head and one as its tail.
The functions of `queue.c`, `getitem.c`, `insert.c`, `insertd.c` and `newqueue.c` do to these
entries what the lists say. Their tests of the process id are made by the calls.
-/

namespace Xinu.Sched.SharedQueues

open Xinu.Kernel.State (sysErr)
open Xinu.Sched.Queues Xinu.Sched.Placement Xinu.Lib.LinkedQueue

set_option autoImplicit false

section Table

structure Qentry where
  qkey : Int
  qnext : Int
  qprev : Int

/-- An index is a `qid16`, which holds every index of the table. -/
structure Queuetab where
  entry : Int → Qentry

namespace Queuetab

variable (t : Queuetab) (i value : Int)

def qkey : Int := (t.entry i).qkey

def qnext : Int := (t.entry i).qnext

def qprev : Int := (t.entry i).qprev

def set (entry : Qentry) : Queuetab := { entry := Function.update t.entry i entry }

def setQkey : Queuetab := t.set i { t.entry i with qkey := value }

def setQnext : Queuetab := t.set i { t.entry i with qnext := value }

def setQprev : Queuetab := t.set i { t.entry i with qprev := value }

theorem qkey_set (entry : Qentry) :
    (t.set i entry).qkey = Function.update t.qkey i entry.qkey := by
  funext j
  by_cases same : j = i <;> simp [qkey, set, same]

theorem qnext_set (entry : Qentry) :
    (t.set i entry).qnext = Function.update t.qnext i entry.qnext := by
  funext j
  by_cases same : j = i <;> simp [qnext, set, same]

theorem qprev_set (entry : Qentry) :
    (t.set i entry).qprev = Function.update t.qprev i entry.qprev := by
  funext j
  by_cases same : j = i <;> simp [qprev, set, same]

@[simp] theorem qkey_set_qkey : (t.setQkey i value).qkey = Function.update t.qkey i value :=
  qkey_set t i _

@[simp] theorem qnext_set_qkey : (t.setQkey i value).qnext = t.qnext :=
  (qnext_set t i _).trans (Function.update_eq_self i t.qnext)

@[simp] theorem qprev_set_qkey : (t.setQkey i value).qprev = t.qprev :=
  (qprev_set t i _).trans (Function.update_eq_self i t.qprev)

@[simp] theorem qkey_set_qnext : (t.setQnext i value).qkey = t.qkey :=
  (qkey_set t i _).trans (Function.update_eq_self i t.qkey)

@[simp] theorem qnext_set_qnext : (t.setQnext i value).qnext = Function.update t.qnext i value :=
  qnext_set t i _

@[simp] theorem qprev_set_qnext : (t.setQnext i value).qprev = t.qprev :=
  (qprev_set t i _).trans (Function.update_eq_self i t.qprev)

@[simp] theorem qkey_set_qprev : (t.setQprev i value).qkey = t.qkey :=
  (qkey_set t i _).trans (Function.update_eq_self i t.qkey)

@[simp] theorem qnext_set_qprev : (t.setQprev i value).qnext = t.qnext :=
  (qnext_set t i _).trans (Function.update_eq_self i t.qnext)

@[simp] theorem qprev_set_qprev : (t.setQprev i value).qprev = Function.update t.qprev i value :=
  qprev_set t i _

end Queuetab

end Table

section Functions

variable [Tables]

def nqent : Int := nproc + 4 + nsem + nsem

def maxkey : Int := 2147483647

def isbadqid (q : Int) : Prop := q < 0 ∨ nqent - 1 ≤ q

instance (q : Int) : Decidable (isbadqid q) := inferInstanceAs (Decidable (_ ∨ _))

/-- How many queues are made before this one: `sysinit` makes the queues of the semaphores first,
then the ready list, and `clkinit` the sleep queue. -/
def madeBefore : Qid → Int
  | .squeue sem => sem
  | .readylist => nsem
  | .sleepq => nsem + 1

/-- The id of a queue is the index of its head. -/
def queuehead (q : Qid) : Int := nproc + 2 * madeBefore q

def queuetail (q : Qid) : Int := queuehead q + 1

def firstid (q : Qid) (t : Queuetab) : Int := t.qnext (queuehead q)

def isempty (q : Qid) (t : Queuetab) : Prop := (nproc : Int) ≤ firstid q t

instance (q : Qid) (t : Queuetab) : Decidable (isempty q t) := inferInstanceAs (Decidable (_ ≤ _))

def enqueue (pid : Int) (q : Qid) (t : Queuetab) : Queuetab :=
  if isbadqid (queuehead q) then t
  else
    let tail := queuetail q
    let prev := t.qprev tail
    (((t.setQnext pid tail).setQprev pid prev).setQnext prev pid).setQprev tail pid

def getitem (pid : Int) (t : Queuetab) : Queuetab :=
  let next := t.qnext pid
  let prev := t.qprev pid
  (t.setQnext prev next).setQprev next prev

def getfirst (q : Qid) (t : Queuetab) : Int × Queuetab :=
  if isempty q t then (empty, t) else (firstid q t, getitem (firstid q t) t)

def dequeue (q : Qid) (t : Queuetab) : Int × Queuetab :=
  if isbadqid (queuehead q) then (sysErr, t)
  else if isempty q t then (empty, t)
  else
    let first := getfirst q t
    (first.1, (first.2.setQprev first.1 empty).setQnext first.1 empty)

/-- The loop of `insert`: the first entry from `curr` on with a smaller key. -/
def insertLoop (t : Queuetab) (key : Int) : Nat → Int → Int
  | 0, curr => curr
  | fuel + 1, curr =>
      if key ≤ t.qkey curr then insertLoop t key fuel (t.qnext curr) else curr

/-- No queue is longer than the process table. -/
def insert (pid : Int) (q : Qid) (key : Int) (t : Queuetab) : Queuetab :=
  if isbadqid (queuehead q) then t
  else
    let curr := insertLoop t key nproc (firstid q t)
    let prev := t.qprev curr
    ((((t.setQnext pid curr).setQprev pid prev).setQkey pid key).setQnext prev pid).setQprev
      curr pid

/-- The loop of `insertd`, with the key, the previous entry and the next one. -/
def insertdLoop (t : Queuetab) (tail : Int) : Nat → Int → Int → Int → Int × Int × Int
  | 0, key, prev, next => (key, prev, next)
  | fuel + 1, key, prev, next =>
      if next ≠ tail ∧ t.qkey next ≤ key then
        insertdLoop t tail fuel (int32 (key - t.qkey next)) next (t.qnext next)
      else (key, prev, next)

def insertd (pid : Int) (q : Qid) (key : Int) (t : Queuetab) : Queuetab :=
  if isbadqid (queuehead q) then t
  else
    let found := insertdLoop t (queuetail q) nproc key (queuehead q) (firstid q t)
    let key := found.1
    let prev := found.2.1
    let next := found.2.2
    let y := ((((t.setQnext pid next).setQprev pid prev).setQkey pid key).setQnext prev
      pid).setQprev next pid
    if next ≠ queuetail q then y.setQkey next (int32 (y.qkey next - key)) else y

instance : QueueTable Queuetab where
  enqueue := enqueue
  dequeue := dequeue
  getfirst := getfirst
  getitem := getitem
  insert := insert
  insertd := insertd
  nonempty q t := decide (firstid q t < nproc)
  firstkey q t := t.qkey (firstid q t)
  countDown q t := t.setQkey (firstid q t) (int32 (t.qkey (firstid q t) - 1))
  passDelay pid t :=
    let pidnext := t.qnext pid
    if pidnext < nproc then t.setQkey pidnext (int32 (t.qkey pidnext + t.qkey pid)) else t

/-- The queue that is made and the next free index, with the table. -/
def newqueue (nextqid : Int) (t : Queuetab) : Int × Int × Queuetab :=
  if nqent < nextqid then (sysErr, nextqid, t)
  else
    (nextqid, nextqid + 2,
      (t.set nextqid { qkey := maxkey, qnext := nextqid + 1, qprev := empty }).set (nextqid + 1)
        { qkey := minkey, qnext := empty, qprev := nextqid })

/-- The table behind the first `count` calls of `newqueue`. -/
def newqueues (t : Queuetab) : Nat → Int × Queuetab
  | 0 => (nproc, t)
  | count + 1 => (newqueue (newqueues t count).1 (newqueues t count).2).2

end Functions

section Threads

variable [Tables]

/-- `sysinit` makes the queue. -/
def Made : Qid → Prop
  | .squeue sem => 0 ≤ sem ∧ sem < (nsem : Int)
  | _ => True

/-- The keys of the processes on the queue are used. -/
def Keyed : Qid → Prop
  | .squeue _ => False
  | _ => True

/-- The entries of a queue, from its head to its tail. -/
def nodes (q : Qid) (pids : List Int) : List Int := (queuehead q :: pids) ++ [queuetail q]

/-- Every queue is a doubly linked list from its head to its tail, through its processes. -/
structure Threads (t : Queuetab) (l : QueueLists) : Prop where
  queue : ∀ q, Made q →
    Queue t.qnext t.qprev empty (queuehead q) (queuetail q) (nodes q (l.pids q))
  unmade : ∀ q, ¬Made q → l.queue q = []
  inRange : ∀ q, ∀ pid ∈ l.pids q, InRange pid
  apart : ∀ q q', ∀ pid ∈ l.pids q, pid ∈ l.pids q' → q = q'

structure Keys (t : Queuetab) (l : QueueLists) : Prop where
  keys : ∀ q, Keyed q → ∀ entry ∈ l.queue q, t.qkey entry.1 = entry.2
  tails : ∀ q, Made q → t.qkey (queuetail q) = minkey

structure Represents (t : Queuetab) (l : QueueLists) : Prop where
  threads : Threads t l
  keys : Keys t l

end Threads

section Places

variable [Tables] {t t' : Queuetab} {l l' : QueueLists} {q q' : Qid} {pid node : Int}
  {front back : List Int}

theorem made_before (made : Made q) : 0 ≤ madeBefore q ∧ madeBefore q ≤ (nsem : Int) + 1 := by
  cases q <;> simp only [madeBefore, Made] at * <;> omega

theorem good_queue (made : Made q) : ¬isbadqid (queuehead q) := by
  have order := made_before made
  unfold isbadqid queuehead nqent
  omega

theorem head_above (made : Made q) : (nproc : Int) ≤ queuehead q := by
  have order := made_before made
  unfold queuehead
  omega

theorem made_order (made : Made q) (made' : Made q') (same : madeBefore q = madeBefore q') :
    q = q' := by
  cases q <;> cases q' <;> simp only [madeBefore, Made] at * <;> grind

theorem node_iff (pids : List Int) :
    node ∈ nodes q pids ↔ node = queuehead q ∨ node ∈ pids ∨ node = queuetail q := by
  simp [nodes]

/-- No entry is on two queues. -/
theorem Threads.nodes_apart (threads : Threads t l) (made : Made q) (made' : Made q')
    (different : q ≠ q') (member : node ∈ nodes q (l.pids q)) : node ∉ nodes q' (l.pids q') := by
  intro member'
  have above := head_above made
  have above' := head_above made'
  have order : madeBefore q ≠ madeBefore q' := fun same => different (made_order made made' same)
  have below : ∀ q, ∀ pid ∈ l.pids q, pid < (nproc : Int) := fun q pid on =>
    (threads.inRange q pid on).2
  rw [node_iff] at member member'
  unfold queuetail queuehead at *
  rcases member with first | on | last <;> rcases member' with first' | on' | last'
  · omega
  · have := below q' node on'
    omega
  · omega
  · have := below q node on
    omega
  · exact different (threads.apart q q' node on on')
  · have := below q node on
    omega
  · omega
  · have := below q' node on'
    omega
  · omega

/-- A process that is not on the queue is no entry of it. -/
theorem not_node {pids : List Int} (made : Made q) (inRange : InRange pid) (absent : pid ∉ pids) :
    pid ∉ nodes q pids := by
  have above := head_above made
  have below := inRange.2
  rw [node_iff]
  unfold queuetail
  rintro (first | on | last)
  · omega
  · exact absent on
  · omega

/-- What is on no queue may change freely. -/
theorem Threads.congr (threads : Threads t l)
    (nexts : ∀ q, Made q → ∀ node ∈ nodes q (l.pids q), t'.qnext node = t.qnext node)
    (prevs : ∀ q, Made q → ∀ node ∈ nodes q (l.pids q), t'.qprev node = t.qprev node) :
    Threads t' l :=
  ⟨fun q made => queue_congr (threads.queue q made) (nexts q made) (prevs q made),
    threads.unmade, threads.inRange, threads.apart⟩

/-- The same queues with other keys. -/
theorem Threads.rekeyed (threads : Threads t l) (next : t'.qnext = t.qnext)
    (prev : t'.qprev = t.qprev) (pids : ∀ q, l'.pids q = l.pids q) : Threads t' l' := by
  refine ⟨fun q made => ?_, fun q not => ?_, fun q => ?_, fun q q' => ?_⟩
  · rw [next, prev, pids q]
    exact threads.queue q made
  · have none := threads.unmade q not
    have same := pids q
    simpa [QueueLists.pids, none] using same
  · rw [pids q]
    exact threads.inRange q
  · rw [pids q, pids q']
    exact threads.apart q q'

theorem Threads.links (threads : Threads t l) (made : Made q) :
    LinksTo t.qnext t.qprev (queuehead q) (l.pids q ++ [queuetail q]) empty :=
  (threads.queue q made).links.2.2

theorem Threads.first (threads : Threads t l) (made : Made q) :
    firstid q t = (l.pids q).headD (queuetail q) := by
  have next := (threads.queue q made).links.2.1
  refine next.trans ?_
  cases l.pids q <;> rfl

/-- The entry in front of a place of the queue. -/
theorem Threads.before (threads : Threads t l) (made : Made q) (split : l.pids q = front ++ back) :
    t.qprev (back.headD (queuetail q)) = front.getLastD (queuehead q) := by
  have queue := threads.queue q made
  rw [nodes, split] at queue
  cases back with
  | nil =>
      rw [List.append_nil] at queue
      exact (unlinked_prev queue).trans List.getLastD_cons
  | cons node rest =>
      have shape : queuehead q :: (front ++ node :: rest) ++ [queuetail q] =
          (queuehead q :: front) ++ node :: (rest ++ [queuetail q]) := by simp
      rw [shape] at queue
      exact (unlinked_prev queue).trans List.getLastD_cons

theorem Threads.added (threads : Threads t l) (made : Made q) (inRange : InRange pid)
    (absent : ∀ q, pid ∉ l.pids q) (split : l.pids q = front ++ back)
    (added : l'.pids q = front ++ pid :: back)
    (others : ∀ other, other ≠ q → l'.queue other = l.queue other)
    (next : t'.qnext = Function.update (Function.update t.qnext pid (back.headD (queuetail q)))
      (front.getLastD (queuehead q)) pid)
    (prev : t'.qprev = Function.update (Function.update t.qprev pid (front.getLastD (queuehead q)))
      (back.headD (queuetail q)) pid) : Threads t' l' := by
  have othersPids : ∀ other, other ≠ q → l'.pids other = l.pids other := fun other different =>
    congrArg (List.map Prod.fst) (others other different)
  have out := not_node made inRange (absent q)
  have shape : nodes q (l.pids q) = (queuehead q :: front) ++ (back ++ [queuetail q]) := by
    simp [nodes, split]
  have lastEq : (queuehead q :: front).getLastD empty = front.getLastD (queuehead q) :=
    List.getLastD_cons
  have firstEq : (back ++ [queuetail q]).headD empty = back.headD (queuetail q) := by
    cases back <;> rfl
  have lastNode : front.getLastD (queuehead q) ∈ nodes q (l.pids q) := by
    rw [shape, ← lastEq, List.getLastD_eq_getLast?, List.getLast?_eq_some_getLast (by simp)]
    exact List.mem_append_left _ (List.getLast_mem _)
  have firstNode : back.headD (queuetail q) ∈ nodes q (l.pids q) := by
    rw [shape, ← firstEq, List.headD_eq_head?_getD, List.head?_eq_some_head (by simp)]
    exact List.mem_append_right _ (List.head_mem _)
  have notEmpty : pid ≠ empty := by
    have above := inRange.1
    unfold empty
    omega
  refine ⟨fun other made' => ?_, fun other not => ?_, fun other node member => ?_,
    fun other other' node member member' => ?_⟩
  · by_cases same : other = q
    · subst same
      have queue := threads.queue other made
      rw [shape] at queue out
      have inserted := insert_inner queue (by simp) (by simp) out notEmpty
      rw [lastEq, firstEq, ← next, ← prev] at inserted
      have shape' : nodes other (l'.pids other) =
          (queuehead other :: front) ++ pid :: (back ++ [queuetail other]) := by
        simp [nodes, added]
      rw [shape']
      exact inserted
    · have apart : ∀ node ∈ nodes other (l.pids other), node ≠ pid ∧
          node ≠ front.getLastD (queuehead q) ∧ node ≠ back.headD (queuetail q) := by
        intro node member
        have off := threads.nodes_apart made' made same member
        refine ⟨?_, ?_, ?_⟩
        · rintro rfl
          exact not_node made' inRange (absent other) member
        · rintro rfl
          exact off lastNode
        · rintro rfl
          exact off firstNode
      rw [othersPids other same, next, prev]
      refine queue_congr (threads.queue other made') ?_ ?_
      · intro node member
        obtain ⟨notPid, notLast, _⟩ := apart node member
        rw [Function.update_of_ne notLast, Function.update_of_ne notPid]
      · intro node member
        obtain ⟨notPid, _, notFirst⟩ := apart node member
        rw [Function.update_of_ne notFirst, Function.update_of_ne notPid]
  · have different : other ≠ q := fun same => not (same ▸ made)
    rw [others other different]
    exact threads.unmade other not
  · by_cases same : other = q
    · subst same
      rw [added] at member
      by_cases here : node = pid
      · exact here ▸ inRange
      · refine threads.inRange other node ?_
        rw [split]
        simpa [here] using member
    · rw [othersPids other same] at member
      exact threads.inRange other node member
  · by_cases here : node = pid
    · have only : ∀ other, pid ∈ l'.pids other → other = q := by
        intro other on
        by_contra different
        rw [othersPids other different] at on
        exact absent other on
      subst here
      rw [only other member, only other' member']
    · have old : ∀ other, node ∈ l'.pids other → node ∈ l.pids other := by
        intro other on
        by_cases same : other = q
        · subst same
          rw [added] at on
          rw [split]
          simpa [here] using on
        · rwa [othersPids other same] at on
      exact threads.apart other other' node (old other member) (old other' member')

theorem Threads.dropped (threads : Threads t l) (made : Made q) (member : pid ∈ l.pids q) :
    Threads (getitem pid t) (QueueTable.getitem pid l) := by
  have drops : Drops pid l (QueueTable.getitem pid l) := getitem_drops
  obtain ⟨front, back, split⟩ := List.append_of_mem member
  have queue := threads.queue q made
  have nodup : (l.pids q).Nodup := by
    have whole := queue.nodup
    exact (List.nodup_cons.mp (List.nodup_append.mp whole).1).2
  have shape : nodes q (l.pids q) = (queuehead q :: front) ++ pid :: (back ++ [queuetail q]) := by
    simp [nodes, split]
  rw [shape] at queue
  have prevNode : t.qprev pid ∈ nodes q (l.pids q) := by
    rw [shape]
    exact List.mem_append_left _ (unlinked_prev_mem queue (by simp))
  have nextNode : t.qnext pid ∈ nodes q (l.pids q) := by
    rw [shape]
    exact List.mem_append_right _ (List.mem_cons_of_mem _ (unlinked_next_mem queue (by simp)))
  have next : (getitem pid t).qnext = Function.update t.qnext (t.qprev pid) (t.qnext pid) := by
    simp [getitem]
  have prev : (getitem pid t).qprev = Function.update t.qprev (t.qnext pid) (t.qprev pid) := by
    simp [getitem]
  have away : ∀ other, other ≠ q → pid ∉ l.pids other := fun other different on =>
    different (threads.apart other q pid on member)
  refine ⟨fun other made' => ?_, fun other not => ?_, fun other node on => ?_,
    fun other other' node on on' => ?_⟩
  · rw [drops other, next, prev]
    by_cases same : other = q
    · subst same
      have left : (l.pids other).filter (· ≠ pid) = front ++ back := by
        rw [split] at nodup ⊢
        have apart := List.nodup_middle.mp nodup
        have notIn := (List.nodup_cons.mp apart).1
        rw [List.filter_append, List.filter_cons_of_neg (by simp), ← List.filter_append]
        refine List.filter_eq_self.mpr fun node on => ?_
        simp only [ne_eq, decide_not, Bool.not_eq_eq_eq_not, Bool.not_true, decide_eq_false_iff_not]
        rintro rfl
        exact notIn on
      have shape' : nodes other ((l.pids other).filter (· ≠ pid)) =
          (queuehead other :: front) ++ (back ++ [queuetail other]) := by
        rw [left]
        simp [nodes]
      rw [shape']
      exact unlink_inner queue (by simp) (by simp)
    · have same' : (l.pids other).filter (· ≠ pid) = l.pids other := by
        refine List.filter_eq_self.mpr fun node on => ?_
        simp only [ne_eq, decide_not, Bool.not_eq_eq_eq_not, Bool.not_true, decide_eq_false_iff_not]
        rintro rfl
        exact away other same on
      rw [same']
      refine queue_congr (threads.queue other made') ?_ ?_
      · intro node on
        refine Function.update_of_ne ?_ _ _
        rintro rfl
        exact threads.nodes_apart made' made same on prevNode
      · intro node on
        refine Function.update_of_ne ?_ _ _
        rintro rfl
        exact threads.nodes_apart made' made same on nextNode
  · change (l.queue other).filter _ = []
    rw [threads.unmade other not]
    rfl
  · rw [drops other] at on
    exact threads.inRange other node (List.mem_of_mem_filter on)
  · rw [drops other] at on
    rw [drops other'] at on'
    exact threads.apart other other' node (List.mem_of_mem_filter on) (List.mem_of_mem_filter on')

end Places

section Loops

variable {t : Queuetab} {key before after tail : Int}

/-- `insert` stops at the first entry with a smaller key, at the latest at the tail. -/
theorem insert_loop {entries : List (Int × Int)} {fuel : Nat} (pid : Int)
    (links : LinksTo t.qnext t.qprev before (entries.map Prod.fst ++ [tail]) after)
    (keys : ∀ entry ∈ entries, t.qkey entry.1 = entry.2) (last : t.qkey tail < key)
    (enough : entries.length ≤ fuel) :
    ∃ front back, entries = front ++ back ∧
      insertLoop t key fuel ((entries.map Prod.fst).headD tail) =
        (back.map Prod.fst).headD tail ∧
      insertKey pid key entries = front ++ (pid, key) :: back := by
  induction entries generalizing before fuel with
  | nil =>
      refine ⟨[], [], rfl, ?_, rfl⟩
      cases fuel with
      | zero => rfl
      | succ fuel => exact if_neg (Int.not_le.mpr last)
  | cons entry rest induction =>
      obtain ⟨fuel, rfl⟩ : ∃ smaller, fuel = smaller + 1 :=
        ⟨fuel - 1, by simp only [List.length_cons] at enough; omega⟩
      have here : t.qkey entry.1 = entry.2 := keys entry List.mem_cons_self
      by_cases larger : key ≤ entry.2
      · obtain ⟨_, next, later⟩ := links
        obtain ⟨front, back, split, found, inserted⟩ :=
          induction later (fun other member => keys other (List.mem_cons_of_mem _ member))
            (Nat.le_of_succ_le_succ enough)
        refine ⟨entry :: front, back, by rw [split]; rfl, ?_, ?_⟩
        · rw [List.map_cons, List.headD_cons, insertLoop, if_pos (by rwa [here]), next, ← found]
          congr 1
          cases rest <;> rfl
        · rw [insertKey, if_pos larger, inserted]
          rfl
      · refine ⟨[], entry :: rest, rfl, ?_, ?_⟩
        · rw [List.map_cons, List.headD_cons, insertLoop, if_neg (by rwa [here])]
        · rw [insertKey, if_neg larger]
          rfl

/-- The keys behind a new entry of a delta list. -/
def lessKey (key : Int) : List (Int × Int) → List (Int × Int)
  | [] => []
  | entry :: rest => (entry.1, int32 (entry.2 - key)) :: rest

/-- `insertd` stops in front of the first entry with a longer delay, or at the tail. -/
theorem insertd_loop {entries : List (Int × Int)} {fuel : Nat} (pid : Int)
    (links : LinksTo t.qnext t.qprev before (entries.map Prod.fst ++ [tail]) after)
    (keys : ∀ entry ∈ entries, t.qkey entry.1 = entry.2) (proper : tail ∉ entries.map Prod.fst)
    (enough : entries.length ≤ fuel) :
    ∃ front back left, entries = front ++ back ∧
      insertdLoop t tail fuel key before ((entries.map Prod.fst).headD tail) =
        (left, (front.map Prod.fst).getLastD before, (back.map Prod.fst).headD tail) ∧
      insertDelay pid key entries = front ++ (pid, left) :: lessKey left back := by
  induction entries generalizing before fuel key with
  | nil =>
      refine ⟨[], [], key, rfl, ?_, rfl⟩
      cases fuel with
      | zero => rfl
      | succ fuel => exact if_neg fun further => further.1 rfl
  | cons entry rest induction =>
      obtain ⟨fuel, rfl⟩ : ∃ smaller, fuel = smaller + 1 :=
        ⟨fuel - 1, by simp only [List.length_cons] at enough; omega⟩
      have here : t.qkey entry.1 = entry.2 := keys entry List.mem_cons_self
      simp only [List.map_cons, List.mem_cons, not_or] at proper
      by_cases earlier : entry.2 ≤ key
      · obtain ⟨_, next, later⟩ := links
        obtain ⟨front, back, left, split, found, inserted⟩ :=
          @induction (int32 (key - entry.2)) entry.1 fuel later
            (fun other member => keys other (List.mem_cons_of_mem _ member)) proper.2
            (Nat.le_of_succ_le_succ enough)
        refine ⟨entry :: front, back, left, by rw [split]; rfl, ?_, ?_⟩
        · have moves : entry.1 ≠ tail ∧ t.qkey entry.1 ≤ key :=
            ⟨Ne.symm proper.1, by rwa [here]⟩
          have second : t.qnext entry.1 = (rest.map Prod.fst).headD tail := by
            rw [next]
            cases rest <;> rfl
          rw [List.map_cons, List.headD_cons, insertdLoop, if_pos moves, here, second, found,
            List.map_cons, List.getLastD_cons]
        · rw [insertDelay, if_pos earlier, inserted]
          rfl
      · refine ⟨[], entry :: rest, key, rfl, ?_, ?_⟩
        · rw [List.map_cons, List.headD_cons, insertdLoop, if_neg fun moves => earlier ?_]
          · rfl
          · rw [← here]
            exact moves.2
        · rw [insertDelay, if_neg earlier]
          rfl

end Loops

section Operations

variable [Tables] {t t' : Queuetab} {l l' : QueueLists} {q : Qid} {pid node key old sem : Int}
  {front back : List (Int × Int)}

theorem Threads.nodup (threads : Threads t l) (q : Qid) : (l.pids q).Nodup := by
  by_cases made : Made q
  · have whole := (threads.queue q made).nodup
    exact (List.nodup_cons.mp (List.nodup_append.mp whole).1).2
  · rw [QueueLists.pids, threads.unmade q made]
    exact List.nodup_nil

theorem Threads.short (threads : Threads t l) (q : Qid) : (l.queue q).length ≤ nproc := by
  have short := in_range_length (threads.nodup q) (threads.inRange q)
  simpa [QueueLists.pids] using short

theorem Threads.tail_off (threads : Threads t l) (made : Made q) (q' : Qid) :
    queuetail q ∉ l.pids q' := by
  intro on
  have above := head_above made
  have below := (threads.inRange q' _ on).2
  unfold queuetail at below
  omega

theorem Keys.added (keys : Keys t l) (inRange : InRange pid) (absent : ∀ q, pid ∉ l.pids q)
    (split : l.queue q = front ++ back) (added : l'.queue q = front ++ (pid, key) :: back)
    (others : ∀ other, other ≠ q → l'.queue other = l.queue other)
    (now : t'.qkey = Function.update t.qkey pid key) : Keys t' l' := by
  have old : ∀ other, Keyed other → ∀ entry ∈ l.queue other, t'.qkey entry.1 = entry.2 := by
    intro other keyed entry member
    have different : entry.1 ≠ pid := by
      rintro rfl
      exact absent other (List.mem_map_of_mem member)
    rw [now, Function.update_of_ne different]
    exact keys.keys other keyed entry member
  refine ⟨fun other keyed entry member => ?_, fun other made => ?_⟩
  · by_cases same : other = q
    · subst same
      rw [added] at member
      rcases List.mem_append.mp member with inFront | inBack
      · exact old other keyed entry (by rw [split]; exact List.mem_append_left _ inFront)
      · rcases List.mem_cons.mp inBack with rfl | inBack
        · rw [now, Function.update_self]
        · exact old other keyed entry (by rw [split]; exact List.mem_append_right _ inBack)
    · rw [others other same] at member
      exact old other keyed entry member
  · have different : queuetail other ≠ pid := by
      have above := head_above made
      have below := inRange.2
      unfold queuetail
      omega
    rw [now, Function.update_of_ne different]
    exact keys.tails other made

/-- A process on a queue gets another key. -/
theorem Represents.rekeyed (rep : Represents t l)
    (split : l.queue q = front ++ (node, old) :: back) :
    Represents (t.setQkey node key) (l.set q (front ++ (node, key) :: back)) := by
  have pids : ∀ other, (l.set q (front ++ (node, key) :: back)).pids other = l.pids other := by
    intro other
    by_cases same : other = q
    · subst same
      rw [set_pids, QueueLists.pids, split]
      simp
    · exact set_pids_other _ same
  have here : l.pids q = front.map Prod.fst ++ node :: back.map Prod.fst := by
    rw [QueueLists.pids, split]
    simp
  have on : node ∈ l.pids q := by
    rw [here]
    exact List.mem_append_right _ List.mem_cons_self
  have away := (List.nodup_cons.mp (List.nodup_middle.mp (here ▸ rep.threads.nodup q))).1
  refine ⟨rep.threads.rekeyed (by simp) (by simp) pids, fun other keyed entry member => ?_,
    fun other made => ?_⟩
  · rw [Queuetab.qkey_set_qkey]
    by_cases same : other = q
    · subst same
      have kept : ∀ entry ∈ front ++ back,
          Function.update t.qkey node key entry.1 = entry.2 := by
        intro left inside
        have different : left.1 ≠ node := by
          rintro rfl
          exact away (by rw [← List.map_append]; exact List.mem_map_of_mem inside)
        rw [Function.update_of_ne different]
        refine rep.keys.keys other keyed left ?_
        rw [split]
        rcases List.mem_append.mp inside with inFront | inBack
        · exact List.mem_append_left _ inFront
        · exact List.mem_append_right _ (List.mem_cons_of_mem _ inBack)
      have listed : (l.set other (front ++ (node, key) :: back)).queue other =
          front ++ (node, key) :: back := by simp [QueueLists.set]
      rw [listed] at member
      rcases List.mem_append.mp member with inFront | inBack
      · exact kept entry (List.mem_append_left _ inFront)
      · rcases List.mem_cons.mp inBack with rfl | inBack
        · exact Function.update_self ..
        · exact kept entry (List.mem_append_right _ inBack)
    · have listed : (l.set q (front ++ (node, key) :: back)).queue other = l.queue other := by
        simp [QueueLists.set, same]
      rw [listed] at member
      have different : entry.1 ≠ node := by
        rintro rfl
        exact same (rep.threads.apart other q _ (List.mem_map_of_mem member) on)
      rw [Function.update_of_ne different]
      exact rep.keys.keys other keyed entry member
  · have different : queuetail other ≠ node := by
      rintro rfl
      exact rep.threads.tail_off made q on
    rw [Queuetab.qkey_set_qkey, Function.update_of_ne different]
    exact rep.keys.tails other made

theorem represents_enqueue (rep : Represents t l) (made : Made (.squeue sem))
    (inRange : InRange pid) (absent : ∀ q, pid ∉ l.pids q) :
    Represents (QueueTable.enqueue pid (.squeue sem) t)
      (QueueTable.enqueue pid (.squeue sem) l) := by
  have shape : QueueTable.enqueue pid (.squeue sem) t =
      (((t.setQnext pid (queuetail (.squeue sem))).setQprev pid
        (t.qprev (queuetail (.squeue sem)))).setQnext (t.qprev (queuetail (.squeue sem)))
          pid).setQprev (queuetail (.squeue sem)) pid := if_neg (good_queue made)
  have last : t.qprev (queuetail (.squeue sem)) =
      (l.pids (.squeue sem)).getLastD (queuehead (.squeue sem)) :=
    rep.threads.before made (List.append_nil _).symm
  have others : ∀ other, other ≠ .squeue sem →
      QueueLists.queue (QueueTable.enqueue pid (.squeue sem) l) other = l.queue other :=
    fun other different => Function.update_of_ne different _ _
  refine ⟨rep.threads.added made inRange absent (List.append_nil _).symm ?_ others ?_ ?_,
    fun other keyed entry member => ?_, fun other made' => ?_⟩
  · change (l.set _ _).pids _ = _
    rw [set_pids, List.map_append]
    rfl
  · rw [shape, last]
    simp
  · rw [shape, last]
    simp
  · have different : other ≠ .squeue sem := by
      rintro rfl
      exact keyed
    rw [others other different] at member
    rw [shape]
    simpa using rep.keys.keys other keyed entry member
  · rw [shape]
    simpa using rep.keys.tails other made'

theorem represents_insert (rep : Represents t l) (made : Made q) (inRange : InRange pid)
    (absent : ∀ q, pid ∉ l.pids q) (above : minkey < key) (keyed : Keyed q) :
    Represents (QueueTable.insert pid q key t) (QueueTable.insert pid q key l) := by
  obtain ⟨front, back, split, found, inserted⟩ :=
    insert_loop pid (rep.threads.links made) (rep.keys.keys q keyed)
      (by rw [rep.keys.tails q made]; exact above) (rep.threads.short q)
  have curr : insertLoop t key nproc (firstid q t) = (back.map Prod.fst).headD (queuetail q) := by
    rw [rep.threads.first made]
    exact found
  have pids : l.pids q = front.map Prod.fst ++ back.map Prod.fst := by
    rw [QueueLists.pids, split, List.map_append]
  have prev := rep.threads.before made pids
  have shape : QueueTable.insert pid q key t =
      ((((t.setQnext pid ((back.map Prod.fst).headD (queuetail q))).setQprev pid
        ((front.map Prod.fst).getLastD (queuehead q))).setQkey pid key).setQnext
          ((front.map Prod.fst).getLastD (queuehead q)) pid).setQprev
            ((back.map Prod.fst).headD (queuetail q)) pid := by
    rw [← prev, ← curr]
    exact if_neg (good_queue made)
  have listed : QueueLists.queue (QueueTable.insert pid q key l) q =
      front ++ (pid, key) :: back := by
    rw [← inserted]
    exact Function.update_self ..
  have others : ∀ other, other ≠ q →
      QueueLists.queue (QueueTable.insert pid q key l) other = l.queue other :=
    fun other different => Function.update_of_ne different _ _
  refine ⟨rep.threads.added made inRange absent pids ?_ others ?_ ?_,
    rep.keys.added inRange absent split listed others ?_⟩
  · rw [QueueLists.pids, listed, List.map_append]
    rfl
  · rw [shape]
    simp
  · rw [shape]
    simp
  · rw [shape]
    simp

theorem represents_insertd (rep : Represents t l) (made : Made q) (inRange : InRange pid)
    (absent : ∀ q, pid ∉ l.pids q) (keyed : Keyed q) :
    Represents (QueueTable.insertd pid q key t) (QueueTable.insertd pid q key l) := by
  obtain ⟨front, back, left, split, found, inserted⟩ :=
    @insertd_loop t key _ _ _ _ nproc pid (rep.threads.links made) (rep.keys.keys q keyed)
      (rep.threads.tail_off made q) (rep.threads.short q)
  have pids : l.pids q = front.map Prod.fst ++ back.map Prod.fst := by
    rw [QueueLists.pids, split, List.map_append]
  have first := rep.threads.first made
  let linked := ((((t.setQnext pid ((back.map Prod.fst).headD (queuetail q))).setQprev pid
    ((front.map Prod.fst).getLastD (queuehead q))).setQkey pid left).setQnext
      ((front.map Prod.fst).getLastD (queuehead q)) pid).setQprev
        ((back.map Prod.fst).headD (queuetail q)) pid
  have shape : QueueTable.insertd pid q key t =
      if (back.map Prod.fst).headD (queuetail q) ≠ queuetail q then
        linked.setQkey ((back.map Prod.fst).headD (queuetail q))
          (int32 (linked.qkey ((back.map Prod.fst).headD (queuetail q)) - left))
      else linked := by
    change insertd pid q key t = _
    unfold insertd
    rw [if_neg (good_queue made), first]
    change (insertdLoop t (queuetail q) nproc key (queuehead q)
      ((l.pids q).headD (queuetail q))) = _ at found
    simp only [found]
    rfl
  have others : ∀ other, other ≠ q →
      (l.set q (front ++ (pid, left) :: back)).queue other = l.queue other :=
    fun other different => Function.update_of_ne different _ _
  have listed : (l.set q (front ++ (pid, left) :: back)).queue q =
      front ++ (pid, left) :: back := Function.update_self ..
  have rep' : Represents linked (l.set q (front ++ (pid, left) :: back)) := by
    refine ⟨rep.threads.added made inRange absent pids ?_ others ?_ ?_,
      rep.keys.added inRange absent split listed others ?_⟩
    · rw [QueueLists.pids, listed, List.map_append]
      rfl
    · simp [linked]
    · simp [linked]
    · simp [linked]
  have final : QueueTable.insertd pid q key l =
      l.set q (front ++ (pid, left) :: lessKey left back) := by
    change l.set q _ = _
    rw [inserted]
  rw [shape, final]
  cases back with
  | nil =>
      rw [if_neg (by simp)]
      exact rep'
  | cons entry rest =>
      have on : entry.1 ∈ l.pids q := by simp [pids]
      have further : entry.1 ≠ queuetail q := by
        intro same
        exact rep.threads.tail_off made q (same ▸ on)
      have below : linked.qkey entry.1 = entry.2 :=
        rep'.keys.keys q keyed entry (by rw [listed]; simp)
      rw [List.map_cons, List.headD_cons, if_pos further, below]
      have place : (l.set q (front ++ (pid, left) :: entry :: rest)).queue q =
          (front ++ [(pid, left)]) ++ (entry.1, entry.2) :: rest := by
        rw [listed]
        simp
      have done : Represents (linked.setQkey entry.1 (int32 (entry.2 - left))) _ :=
        rep'.rekeyed place
      have same : (l.set q (front ++ (pid, left) :: entry :: rest)).set q
          ((front ++ [(pid, left)]) ++ (entry.1, int32 (entry.2 - left)) :: rest) =
            l.set q (front ++ (pid, left) :: lessKey left (entry :: rest)) := by
        simp [QueueLists.set, lessKey]
      rwa [same] at done

/-- Off the table goes what goes off the lists. -/
theorem represents_getitem (rep : Represents t l) (made : Made q) (member : pid ∈ l.pids q) :
    Represents (QueueTable.getitem pid t) (QueueTable.getitem pid l) := by
  have same : Queuetab.qkey (QueueTable.getitem pid t) = t.qkey := by
    change (getitem pid t).qkey = _
    simp [getitem]
  refine ⟨rep.threads.dropped made member, fun other keyed entry on => ?_, fun other made' => ?_⟩
  · rw [same]
    exact rep.keys.keys other keyed entry (List.mem_of_mem_filter on)
  · rw [same]
    exact rep.keys.tails other made'

/-- The first process of a queue is taken off it. -/
theorem Threads.rest_left (threads : Threads t l) {entry : Int × Int} {rest : List (Int × Int)}
    (first : l.queue q = entry :: rest) : QueueTable.getitem entry.1 l = l.set q rest := by
  have here : l.pids q = entry.1 :: rest.map Prod.fst := by rw [QueueLists.pids, first]; rfl
  have notLater := (List.nodup_cons.mp (here ▸ threads.nodup q)).1
  have kept : ∀ entries : List (Int × Int), entry.1 ∉ entries.map Prod.fst →
      entries.filter (fun other => other.1 ≠ entry.1) = entries := by
    intro entries off
    refine List.filter_eq_self.mpr fun other on => ?_
    have different : other.1 ≠ entry.1 := fun same => off (same ▸ List.mem_map_of_mem on)
    simpa using different
  change QueueLists.mk (fun q => (l.queue q).filter fun other => other.1 ≠ entry.1) = _
  refine congrArg QueueLists.mk (funext fun other => ?_)
  by_cases same : other = q
  · subst same
    rw [Function.update_self, first, List.filter_cons_of_neg (by simp)]
    exact kept rest notLater
  · rw [Function.update_of_ne same]
    refine kept _ fun on => same ?_
    exact threads.apart other q _ on (by rw [here]; exact List.mem_cons_self)

theorem Threads.is_empty (threads : Threads t l) (made : Made q) :
    isempty q t ↔ l.queue q = [] := by
  have above := head_above made
  unfold isempty
  rw [threads.first made]
  cases list : l.queue q with
  | nil =>
      simp only [QueueLists.pids, list, List.map_nil, List.headD_nil, iff_true]
      unfold queuetail
      omega
  | cons entry rest =>
      have on : entry.1 ∈ l.pids q := by simp [QueueLists.pids, list]
      have below := (threads.inRange q _ on).2
      simp only [QueueLists.pids, list, List.map_cons, List.headD_cons, reduceCtorEq, iff_false]
      omega

theorem Threads.first_of (threads : Threads t l) (made : Made q) {entry : Int × Int}
    {rest : List (Int × Int)} (first : l.queue q = entry :: rest) : firstid q t = entry.1 := by
  rw [threads.first made, QueueLists.pids, first]
  rfl

theorem represents_getfirst (rep : Represents t l) (made : Made q) :
    (QueueTable.getfirst q t).1 = (QueueTable.getfirst q l).1 ∧
      Represents (QueueTable.getfirst q t).2 (QueueTable.getfirst q l).2 := by
  change (getfirst q t).1 = (l.pop q).1 ∧ Represents (getfirst q t).2 (l.pop q).2
  unfold getfirst
  cases list : l.queue q with
  | nil =>
      rw [if_pos ((rep.threads.is_empty made).mpr list), pop_nil list]
      exact ⟨rfl, rep⟩
  | cons entry rest =>
      have on : entry.1 ∈ l.pids q := by simp [QueueLists.pids, list]
      have further : ¬isempty q t := by
        rw [rep.threads.is_empty made, list]
        exact List.cons_ne_nil entry rest
      rw [if_neg further, pop_cons list, rep.threads.first_of made list,
        ← rep.threads.rest_left list]
      exact ⟨rfl, represents_getitem rep made on⟩

theorem represents_dequeue (rep : Represents t l) (made : Made q) :
    (QueueTable.dequeue q t).1 = (QueueTable.dequeue q l).1 ∧
      Represents (QueueTable.dequeue q t).2 (QueueTable.dequeue q l).2 := by
  change (dequeue q t).1 = (l.pop q).1 ∧ Represents (dequeue q t).2 (l.pop q).2
  unfold dequeue
  rw [if_neg (good_queue made)]
  cases list : l.queue q with
  | nil =>
      rw [if_pos ((rep.threads.is_empty made).mpr list), pop_nil list]
      exact ⟨rfl, rep⟩
  | cons entry rest =>
      have on : entry.1 ∈ l.pids q := by simp [QueueLists.pids, list]
      have inRange := rep.threads.inRange q entry.1 on
      have further : ¬isempty q t := by
        rw [rep.threads.is_empty made, list]
        exact List.cons_ne_nil entry rest
      have took : getfirst q t = (entry.1, getitem entry.1 t) := by
        unfold getfirst
        rw [if_neg further, rep.threads.first_of made list]
      have left := represents_getitem rep made on
      rw [if_neg further, took, pop_cons list, ← rep.threads.rest_left list]
      have off : ∀ other, entry.1 ∉ QueueLists.pids (QueueTable.getitem entry.1 l) other := by
        intro other
        rw [getitem_drops other]
        simp
      have away : ∀ other, Made other → ∀ node ∈ nodes other
          (QueueLists.pids (QueueTable.getitem entry.1 l) other), node ≠ entry.1 := by
        rintro other made' node member rfl
        exact not_node made' inRange (off other) member
      refine ⟨rfl, left.threads.congr ?_ ?_, fun other keyed => ?_, fun other made' => ?_⟩
      · intro other made' node member
        simp only [Queuetab.qnext_set_qnext, Queuetab.qnext_set_qprev]
        exact Function.update_of_ne (away other made' node member) _ _
      · intro other made' node member
        simp only [Queuetab.qprev_set_qnext, Queuetab.qprev_set_qprev]
        exact Function.update_of_ne (away other made' node member) _ _
      · simp only [Queuetab.qkey_set_qnext, Queuetab.qkey_set_qprev]
        exact left.keys.keys other keyed
      · simp only [Queuetab.qkey_set_qnext, Queuetab.qkey_set_qprev]
        exact left.keys.tails other made'

theorem nonempty_same (rep : Represents t l) (made : Made q) :
    QueueTable.nonempty q t = QueueTable.nonempty q l := by
  change decide (firstid q t < nproc) = !(l.queue q).isEmpty
  have same := rep.threads.is_empty made
  unfold isempty at same
  cases list : l.queue q with
  | nil =>
      have out : ¬firstid q t < nproc := Int.not_lt.mpr (same.mpr list)
      simpa using out
  | cons entry rest =>
      have inside : firstid q t < nproc := by
        rw [list] at same
        by_contra out
        exact List.cons_ne_nil entry rest (same.mp (Int.not_lt.mp out))
      simpa using inside

theorem firstkey_same (rep : Represents t l) (made : Made q) (keyed : Keyed q) :
    QueueTable.firstkey q t = QueueTable.firstkey q l := by
  change t.qkey (firstid q t) = ((l.queue q).head?.map Prod.snd).getD minkey
  cases list : l.queue q with
  | nil =>
      rw [rep.threads.first made, QueueLists.pids, list]
      exact rep.keys.tails q made
  | cons entry rest =>
      rw [rep.threads.first_of made list]
      exact rep.keys.keys q keyed entry (by rw [list]; exact List.mem_cons_self)

theorem represents_count_down (rep : Represents t l) (made : Made q) (keyed : Keyed q)
    (some : l.queue q ≠ []) :
    Represents (QueueTable.countDown q t) (QueueTable.countDown q l) := by
  change Represents (t.setQkey (firstid q t) (int32 (t.qkey (firstid q t) - 1)))
    (l.set q (countFirst (l.queue q)))
  cases list : l.queue q with
  | nil => exact absurd list some
  | cons entry rest =>
      have here : t.qkey entry.1 = entry.2 :=
        rep.keys.keys q keyed entry (by rw [list]; exact List.mem_cons_self)
      rw [rep.threads.first_of made list, here]
      exact @Represents.rekeyed _ _ _ _ _ _ _ [] rest rep list

omit [Tables] in
/-- Only the process behind `pid` gets another key. -/
theorem pass_key_split {entry : Int × Int} (front back : List (Int × Int))
    (away : entry.1 ∉ front.map Prod.fst) :
    passKey entry.1 (front ++ entry :: back) = front ++ entry ::
      match back with
      | [] => []
      | next :: rest => (next.1, int32 (next.2 + entry.2)) :: rest := by
  induction front with
  | nil =>
      cases back with
      | nil => rfl
      | cons next rest => exact if_pos rfl
  | cons other front induction =>
      simp only [List.map_cons, List.mem_cons, not_or] at away
      have later := induction away.2
      have different : ¬other.1 = entry.1 := fun same => away.1 same.symm
      cases front with
      | nil =>
          rw [List.cons_append, List.nil_append, passKey, if_neg different]
          exact congrArg (other :: ·) later
      | cons second front =>
          rw [List.cons_append, List.cons_append, passKey, if_neg different]
          exact congrArg (other :: ·) later

theorem represents_pass_delay (rep : Represents t l) (member : pid ∈ l.pids .sleepq) :
    Represents (QueueTable.passDelay pid t) (QueueTable.passDelay pid l) := by
  have made : Made .sleepq := trivial
  have keyed : Keyed .sleepq := trivial
  obtain ⟨entry, on, rfl⟩ := List.mem_map.mp member
  obtain ⟨front, back, split⟩ := List.append_of_mem on
  have pids : l.pids .sleepq = front.map Prod.fst ++ entry.1 :: back.map Prod.fst := by
    rw [QueueLists.pids, split]
    simp
  have away : entry.1 ∉ front.map Prod.fst := by
    have apart := (List.nodup_cons.mp (List.nodup_middle.mp (pids ▸ rep.threads.nodup .sleepq))).1
    exact fun inside => apart (List.mem_append_left _ inside)
  have next : t.qnext entry.1 = (back.map Prod.fst).headD (queuetail .sleepq) := by
    have links := rep.threads.links made
    rw [pids, List.append_assoc, links_append] at links
    refine links.2.2.1.trans ?_
    cases back <;> rfl
  have listed : QueueTable.passDelay entry.1 l =
      l.set .sleepq (passKey entry.1 (l.queue .sleepq)) := rfl
  rw [listed, split, pass_key_split front back away]
  change Represents (if t.qnext entry.1 < nproc then t.setQkey (t.qnext entry.1)
    (int32 (t.qkey (t.qnext entry.1) + t.qkey entry.1)) else t) _
  rw [next]
  cases back with
  | nil =>
      have above := head_above made
      have out : ¬queuetail .sleepq < nproc := by
        unfold queuetail
        omega
      have same : l.set .sleepq (front ++ [entry]) = l := by
        rw [← split]
        exact congrArg QueueLists.mk (Function.update_eq_self _ _)
      rw [List.map_nil, List.headD_nil, if_neg out]
      dsimp only
      rw [same]
      exact rep
  | cons later rest =>
      have onLater : later ∈ l.queue .sleepq := by simp [split]
      have below := (rep.threads.inRange .sleepq later.1 (List.mem_map_of_mem onLater)).2
      have place : l.queue .sleepq = (front ++ [entry]) ++ (later.1, later.2) :: rest := by
        simp [split]
      rw [List.map_cons, List.headD_cons, if_pos below, rep.keys.keys _ keyed later onLater,
        rep.keys.keys _ keyed entry on]
      have done : Represents (t.setQkey later.1 (int32 (later.2 + entry.2))) _ :=
        rep.rekeyed place
      rw [List.append_assoc] at done
      exact done

end Operations

section Making

variable [Tables] {t : Queuetab} {count k : Nat}

theorem newqueue_good {nextqid : Int} (fits : nextqid ≤ nqent) :
    newqueue nextqid t = (nextqid, nextqid + 2,
      (t.set nextqid { qkey := maxkey, qnext := nextqid + 1, qprev := empty }).set (nextqid + 1)
        { qkey := minkey, qnext := empty, qprev := nextqid }) :=
  if_neg (Int.not_lt.mpr fits)

/-- Each call takes the next two entries. -/
theorem newqueues_made (t : Queuetab) (fits : count ≤ nsem + 2) :
    (newqueues t count).1 = nproc + 2 * count ∧ ∀ k : Nat, k < count →
      (newqueues t count).2.entry (nproc + 2 * k) =
        { qkey := maxkey, qnext := nproc + 2 * k + 1, qprev := empty } ∧
      (newqueues t count).2.entry (nproc + 2 * k + 1) =
        { qkey := minkey, qnext := empty, qprev := nproc + 2 * k } := by
  induction count with
  | zero => exact ⟨by simp [newqueues], fun k below => absurd below (Nat.not_lt_zero k)⟩
  | succ count induction =>
      obtain ⟨next, entries⟩ := induction (by omega)
      have room : (newqueues t count).1 ≤ nqent := by
        rw [next]
        unfold nqent
        omega
      rw [newqueues, newqueue_good room, next]
      refine ⟨by push_cast; omega, fun k below => ?_⟩
      by_cases last : k = count
      · subst last
        simp only [Queuetab.set]
        refine ⟨?_, Function.update_self ..⟩
        rw [Function.update_of_ne (by omega), Function.update_self]
      · obtain ⟨head, tail⟩ := entries k (by omega)
        simp only [Queuetab.set]
        refine ⟨?_, ?_⟩
        · rw [← head, Function.update_of_ne (by omega), Function.update_of_ne (by omega)]
        · rw [← tail, Function.update_of_ne (by omega), Function.update_of_ne (by omega)]

/-- Queue number `k` gets the index of its head as its id. -/
theorem newqueue_id (t : Queuetab) (before : k < nsem + 2) :
    (newqueue (newqueues t k).1 (newqueues t k).2).1 = nproc + 2 * k := by
  have next := (newqueues_made t (Nat.le_of_lt before)).1
  have room : (newqueues t k).1 ≤ nqent := by
    rw [next]
    unfold nqent
    omega
  rw [newqueue_good room]
  exact next

/-- After `sysinit` every queue is empty. -/
theorem represents_made (t : Queuetab) :
    Represents (newqueues t (nsem + 2)).2 { queue := fun _ => [] } := by
  have entries := (newqueues_made t (Nat.le_refl (nsem + 2))).2
  have ends : ∀ q, Made q →
      (newqueues t (nsem + 2)).2.entry (queuehead q) =
        { qkey := maxkey, qnext := queuetail q, qprev := empty } ∧
      (newqueues t (nsem + 2)).2.entry (queuetail q) =
        { qkey := minkey, qnext := empty, qprev := queuehead q } := by
    intro q made
    have order := made_before made
    have place := entries (madeBefore q).toNat (by omega)
    have same : ((madeBefore q).toNat : Int) = madeBefore q := Int.toNat_of_nonneg order.1
    rw [same] at place
    exact place
  refine ⟨⟨fun q made => ?_, fun q _ => rfl, fun q pid on => ?_, fun q q' pid on => ?_⟩,
    fun q keyed entry on => ?_, fun q made => ?_⟩
  · obtain ⟨head, tail⟩ := ends q made
    have above := head_above made
    have proper : queuehead q ≠ empty ∧ queuetail q ≠ empty := by
      unfold queuetail empty
      omega
    refine ⟨rfl, rfl, ⟨?_, ?_, ?_, ?_, trivial⟩, ?_, ?_⟩
    · simp [Queuetab.qprev, head]
    · simp only [Queuetab.qnext, head]
      rfl
    · simp [Queuetab.qprev, tail]
    · simp only [Queuetab.qnext, tail]
      rfl
    · have different : queuehead q ≠ queuetail q := by
        unfold queuetail
        omega
      simpa [nodes, QueueLists.pids] using different
    · simp [nodes, QueueLists.pids, Ne.symm proper.1, Ne.symm proper.2]
  · cases on
  · cases on
  · cases on
  · simp [Queuetab.qkey, (ends q made).2]

end Making

end Xinu.Sched.SharedQueues
