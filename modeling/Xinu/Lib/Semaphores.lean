import Mathlib.Data.List.Basic

/-!
# Counting semaphores

A semaphore with the processes that are blocked on it, and those that are behind their `wait` and
have not run since. What a semaphore counts is the sum of its count and of the processes that have
not used what they were granted.
-/

namespace Xinu.Lib.Semaphores

set_option autoImplicit false

universe u

structure Semaphore (Process : Type u) where
  count : Int
  queue : List Process
  passed : List Process

namespace Semaphore

variable {Process : Type u} (sem : Semaphore Process) (pid : Process)

def wait : Semaphore Process :=
  if sem.count - 1 < 0 then { sem with count := sem.count - 1, queue := sem.queue ++ [pid] }
  else { sem with count := sem.count - 1, passed := sem.passed ++ [pid] }

def signal : Semaphore Process :=
  if sem.count < 0 then
    { count := sem.count + 1
      queue := sem.queue.tail
      passed := sem.passed ++ sem.queue.head?.toList }
  else { sem with count := sem.count + 1 }

def signaln : Nat → Semaphore Process
  | 0 => sem
  | times + 1 => (signaln times).signal

def semreset (count : Int) : Semaphore Process :=
  if count < 0 then sem
  else { count := count, queue := [], passed := sem.passed ++ sem.queue }

/-- A process that is behind its `wait` runs. -/
def run [DecidableEq Process] : Semaphore Process := { sem with passed := sem.passed.erase pid }

/-- Processes are blocked while the count is negative, one for each unit. -/
def Sound : Prop := sem.queue.length = (-sem.count).toNat

/-- What has been granted and not been used. -/
def level : Int := sem.count + sem.queue.length + sem.passed.length

variable {sem}

theorem wait_sound (sound : sem.Sound) : (sem.wait pid).Sound := by
  unfold Sound at sound ⊢
  unfold wait
  split_ifs
  · simp only [List.length_append, List.length_singleton]
    omega
  · dsimp only
    omega

theorem wait_level : (sem.wait pid).level = sem.level := by
  unfold level wait
  split_ifs
  · simp only [List.length_append, List.length_singleton]
    omega
  · simp only [List.length_append, List.length_singleton]
    omega

theorem signal_sound (sound : sem.Sound) : sem.signal.Sound := by
  unfold Sound at sound ⊢
  unfold signal
  split_ifs
  · simp only [List.length_tail]
    omega
  · dsimp only
    omega

theorem signal_level (sound : sem.Sound) : sem.signal.level = sem.level + 1 := by
  unfold Sound at sound
  unfold level signal
  split_ifs with negative
  · cases blocked : sem.queue with
    | nil =>
        rw [blocked, List.length_nil] at sound
        omega
    | cons first rest =>
        simp only [List.tail_cons, List.head?_cons, Option.toList_some, List.length_append,
          List.length_cons, List.length_nil]
        omega
  · dsimp only
    omega

/-- A process that is released stays with the semaphore until it runs. -/
theorem signal_members :
    (sem.signal.queue ++ sem.signal.passed).Perm (sem.queue ++ sem.passed) := by
  unfold signal
  split_ifs
  · cases blocked : sem.queue with
    | nil => simp
    | cons first rest =>
        rw [List.tail_cons, List.head?_cons, Option.toList_some, ← List.append_assoc]
        exact List.perm_append_singleton first (rest ++ sem.passed)
  · exact .refl _

theorem signaln_members (times : Nat) :
    ((sem.signaln times).queue ++ (sem.signaln times).passed).Perm (sem.queue ++ sem.passed) := by
  induction times with
  | zero => exact .refl _
  | succ times induction => exact signal_members.trans induction

theorem signaln_sound (sound : sem.Sound) (times : Nat) : (sem.signaln times).Sound := by
  induction times with
  | zero => exact sound
  | succ times induction => exact signal_sound induction

theorem signaln_level (sound : sem.Sound) (times : Nat) :
    (sem.signaln times).level = sem.level + times := by
  induction times with
  | zero => simp [signaln]
  | succ times induction =>
      rw [signaln, signal_level (signaln_sound sound times), induction]
      omega

theorem run_level [DecidableEq Process] (member : pid ∈ sem.passed) :
    (sem.run pid).level = sem.level - 1 := by
  have length := List.length_erase_of_mem member
  have positive := List.length_pos_of_mem member
  unfold level run
  dsimp only
  omega

theorem level_nonneg (sound : sem.Sound) : 0 ≤ sem.level := by
  unfold Sound at sound
  unfold level
  omega

/-- A count that is not negative leaves the processes behind their `wait` what they were granted. -/
theorem count_le_level (sound : sem.Sound) (nonneg : 0 ≤ sem.count) :
    sem.count + sem.passed.length = sem.level := by
  unfold Sound at sound
  unfold level
  omega

end Semaphore

end Xinu.Lib.Semaphores
