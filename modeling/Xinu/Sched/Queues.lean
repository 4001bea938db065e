import Mathlib.Logic.Function.Basic
import Mathlib.Data.List.Basic
import Mathlib.Data.List.Perm.Subperm

/-!
# Process queues

Every process is on at most one queue, and all queues share `queuetab`. The calls of the
kernel use a queue table through the functions of `queue.c`, `getitem.c`, `insert.c` and
`insertd.c`. Here the table is a list of processes with their keys for each queue.
-/

namespace Xinu.Sched.Queues

set_option autoImplicit false

/-- `NPROC` and `NSEM` are settings of the build. -/
class Tables where
  nproc : Nat
  nsem : Nat
  nullFits : 0 < nproc

export Tables (nproc nsem nullFits)

/-- The queues that `sysinit` and `clkinit` make. -/
inductive Qid where
  | readylist
  | sleepq
  | squeue (sem : Int)
  deriving DecidableEq

def empty : Int := -1

def minkey : Int := -2147483648

/-- The value of an `int32`. -/
def int32 (value : Int) : Int := (value + 2147483648) % 4294967296 - 2147483648

theorem int32_small {value : Int} (above : -2147483648 ≤ value) (below : value < 2147483648) :
    int32 value = value := by
  unfold int32
  omega

/-- What the kernel does with `queuetab`. -/
class QueueTable (Q : Type) where
  enqueue : Int → Qid → Q → Q
  dequeue : Qid → Q → Int × Q
  getfirst : Qid → Q → Int × Q
  getitem : Int → Q → Q
  insert : Int → Qid → Int → Q → Q
  insertd : Int → Qid → Int → Q → Q
  nonempty : Qid → Q → Bool
  firstkey : Qid → Q → Int
  /-- `--queuetab[firstid(q)].qkey` -/
  countDown : Qid → Q → Q
  /-- The process behind `pid` gets the key of `pid` on top of its own. -/
  passDelay : Int → Q → Q

section Lists

variable {pid other key delay : Int} {entries front back : List (Int × Int)} {entry : Int × Int}

/-- In front of the first entry with a smaller key. -/
def insertKey (pid key : Int) : List (Int × Int) → List (Int × Int)
  | [] => [(pid, key)]
  | entry :: rest =>
      if key ≤ entry.2 then entry :: insertKey pid key rest else (pid, key) :: entry :: rest

/-- The keys of a delta list are the differences between the delays. -/
def insertDelay (pid key : Int) : List (Int × Int) → List (Int × Int)
  | [] => [(pid, key)]
  | entry :: rest =>
      if entry.2 ≤ key then entry :: insertDelay pid (int32 (key - entry.2)) rest
      else (pid, key) :: (entry.1, int32 (entry.2 - key)) :: rest

def passKey (pid : Int) : List (Int × Int) → List (Int × Int)
  | [] => []
  | entry :: [] => [entry]
  | entry :: next :: rest =>
      if entry.1 = pid then entry :: (next.1, int32 (next.2 + entry.2)) :: rest
      else entry :: passKey pid (next :: rest)

def countFirst : List (Int × Int) → List (Int × Int)
  | [] => []
  | entry :: rest => (entry.1, int32 (entry.2 - 1)) :: rest

theorem insert_key_split (pid key : Int) (entries : List (Int × Int)) :
    ∃ front back, entries = front ++ back ∧
      insertKey pid key entries = front ++ (pid, key) :: back ∧
      (∀ entry ∈ front, key ≤ entry.2) ∧ ∀ entry ∈ back.head?, entry.2 < key := by
  induction entries with
  | nil => exact ⟨[], [], rfl, rfl, by simp, by simp⟩
  | cons entry rest induction =>
      by_cases larger : key ≤ entry.2
      · obtain ⟨front, back, split, inserted, above, below⟩ := induction
        refine ⟨entry :: front, back, by rw [split]; rfl, ?_, ?_, below⟩
        · rw [insertKey, if_pos larger, inserted]
          rfl
        · intro other member
          rcases List.mem_cons.mp member with rfl | later
          · exact larger
          · exact above other later
      · refine ⟨[], entry :: rest, rfl, by rw [insertKey, if_neg larger]; rfl, by simp, ?_⟩
        intro other member
        cases member
        omega

/-- The processes of a delta list after an insertion. -/
theorem insert_delay_pids (pid key : Int) (entries : List (Int × Int)) :
    ∃ front back, entries.map Prod.fst = front ++ back ∧
      (insertDelay pid key entries).map Prod.fst = front ++ pid :: back := by
  induction entries generalizing key with
  | nil => exact ⟨[], [], rfl, rfl⟩
  | cons entry rest induction =>
      by_cases earlier : entry.2 ≤ key
      · obtain ⟨front, back, split, inserted⟩ := induction (int32 (key - entry.2))
        refine ⟨entry.1 :: front, back, by rw [List.map_cons, split]; rfl, ?_⟩
        rw [insertDelay, if_pos earlier, List.map_cons, inserted]
        rfl
      · exact ⟨[], entry.1 :: rest.map Prod.fst, rfl, by rw [insertDelay, if_neg earlier]; rfl⟩

theorem pass_key_pids (pid : Int) (entries : List (Int × Int)) :
    (passKey pid entries).map Prod.fst = entries.map Prod.fst := by
  induction entries with
  | nil => rfl
  | cons entry rest induction =>
      cases rest with
      | nil => rfl
      | cons next rest =>
          unfold passKey
          split
          · rfl
          · rw [List.map_cons, induction]
            rfl

theorem count_first_pids (entries : List (Int × Int)) :
    (countFirst entries).map Prod.fst = entries.map Prod.fst := by
  cases entries <;> rfl

end Lists

/-- The processes of each queue with their keys, first one first. -/
structure QueueLists where
  queue : Qid → List (Int × Int)

namespace QueueLists

variable (l : QueueLists)

def set (q : Qid) (entries : List (Int × Int)) : QueueLists :=
  { queue := Function.update l.queue q entries }

/-- The first process of a queue, or `EMPTY`. -/
def pop (q : Qid) : Int × QueueLists :=
  match l.queue q with
  | [] => (empty, l)
  | entry :: rest => (entry.1, l.set q rest)

def remove (pid : Int) : QueueLists :=
  { queue := fun q => (l.queue q).filter fun entry => entry.1 ≠ pid }

def pids (q : Qid) : List Int := (l.queue q).map Prod.fst

end QueueLists

instance : QueueTable QueueLists where
  -- the key of a process on a semaphore's queue is never read
  enqueue pid q l := l.set q (l.queue q ++ [(pid, 0)])
  dequeue q l := l.pop q
  getfirst q l := l.pop q
  getitem pid l := l.remove pid
  insert pid q key l := l.set q (insertKey pid key (l.queue q))
  insertd pid q key l := l.set q (insertDelay pid key (l.queue q))
  nonempty q l := !(l.queue q).isEmpty
  firstkey q l := ((l.queue q).head?.map Prod.snd).getD minkey
  countDown q l := l.set q (countFirst (l.queue q))
  passDelay pid l := l.set .sleepq (passKey pid (l.queue .sleepq))

end Xinu.Sched.Queues
