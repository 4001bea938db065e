import Xinu.Paging.VirtualHeap
import Xinu.Space.Transparency

/-!
# How private a new heap is

What a new process observes in its heap depends on the data in its backing stores, which
nothing clears, and on nothing else that earlier processes have left behind.
-/

namespace Xinu.Space.PrivateHeap

open Xinu.Kernel.State Xinu.Kernel.Entry Xinu.Lib.MemoryProgram Xinu.Lib.StateError
open Xinu.Paging.Address Xinu.Paging.Cpu Xinu.Paging.System Xinu.Paging.VirtualHeap
open Xinu.Processes.Steps Xinu.Replacement.Fifo Xinu.Replacement.FifoResults
open Xinu.Space.Agreement Xinu.Space.Members Xinu.Space.Runs Xinu.Space.Heaps
open Xinu.Space.Contents Xinu.Space.Transparency Xinu.Swap.Conservation

set_option autoImplicit false

variable [Config]

/-- The steps of the system as the process sees them: its own loads and stores, and everything
else that happens while it lives. -/
def asSeenBy (allowed : St → Event → Prop) (pid : Int) : System St Nat Byte where
  idle := fun s final => ∃ event reply, allowed s event ∧ exec event s = .ok reply final ∧
    Live final pid ∧ ∀ a value, event = .store a value → s.ker.currpid ≠ pid
  load := fun s a value final => s.ker.currpid = pid ∧ allowed s (.load a) ∧
    exec (.load a) s = .ok (.byte value) final
  store := fun s a value final => s.ker.currpid = pid ∧ allowed s (.store a value) ∧
    exec (.store a value) s = .ok .done final

/-- `vcreate` has made the process, with no memory allocated in its heap. The other fields of
`vmemlist` are those of the last process in the slot. -/
structure MadeBy (allowed : St → Event → Prop) (policy : Int) (hsize : Nat) (pid : Int) (s t : St)
    (vmemlist : Vmemlist) : Prop where
  run : Run (Started policy) allowed s
  may : ∃ ssize priority, allowed s (.vcreate ssize hsize priority) ∧
    exec (.vcreate ssize hsize priority) s = .ok (.status pid) t
  slot : ¬Live s pid ∧ Live t pid
  cleared : vmemlist.vmeminit = false

/-- The process makes the calls and observes their results. -/
def Observes (allowed : St → Event → Prop) (pid : Int) (t : St) (vmemlist : Vmemlist) (fuel : Nat)
    (calls : List HeapCall) (seen : Option (List Observation)) : Prop :=
  ∃ final, Runs (asSeenBy allowed pid) (heapCalls fuel (t.ker.proctab pid).vh
    (t.ker.proctab pid).hsize calls vmemlist) t seen final

/-- The same process slots, frames and backing stores are free. -/
structure SameFree (left right : St) : Prop where
  slots : ∀ i < nproc, Live left i ↔ Live right i
  frames : ∀ fr < nframes, (left.ipt fr).status = .notUsed ↔ (right.ipt fr).status = .notUsed
  stores : ∀ store < maxBsEntries,
    (left.ker.bstab store).isallocated = (right.ker.bstab store).isallocated

/-- Nothing that a new process observes depends on the history before it. -/
def HeapPrivate (policy : Int) : Prop :=
  ∀ hsize pid left left' right right' leftList rightList,
    MadeBy Serves policy hsize pid left left' leftList →
    MadeBy Serves policy hsize pid right right' rightList → SameFree left right →
    ∀ fuel calls leftSeen rightSeen, Observes Serves pid left' leftList fuel calls leftSeen →
      Observes Serves pid right' rightList fuel calls rightSeen → leftSeen = rightSeen

variable {s t final : St} {pid : Int} {hsize : Nat}

section Views

/-- What is known about the process while it runs. -/
structure Lives (pid : Int) (hsize : Nat) (s : St) : Prop where
  sound : Sound s
  synced : Contents.Synced s empty
  live : HeapLive s pid
  size : (s.ker.proctab pid).hsize = hsize

def InHeapOf (hsize a : Nat) : Prop := vheapStart ≤ a ∧ a < vheapStart + nbpg * hsize

theorem exec_lives {event : Event} {reply : Reply} (lives : Lives pid hsize s)
    (serves : Serves s event) (ran : exec event s = .ok reply final) (alive : Live final pid) :
    Lives pid hsize final ∧ ∀ a, InHeapOf hsize a →
      heapByte final pid a = writtenByte s event pid a (heapByte s pid a) := by
  obtain ⟨sound, synced, live, size⟩ := lives
  obtain ⟨finalSound, stays, _⟩ := exec_sound sound serves ran
  have same := stays.procs pid live.1 alive
  simp only [space, Prod.mk.injEq] at same
  refine ⟨⟨finalSound, (exec_holds sound synced serves ran).1, ⟨alive, same.2.1.trans live.2⟩,
    same.2.2.2.trans size⟩, fun a inside => ?_⟩
  refine exec_byte sound synced serves ran live ?_ alive
  rw [InHeap, size]
  exact inside

theorem shows_heap (pid : Int) (hsize : Nat) :
    Shows (asSeenBy Serves pid) (Lives pid hsize) (InHeapOf hsize) (fun s => heapByte s pid) where
  idle := by
    rintro s final lives ⟨event, reply, serves, ran, alive, notStore⟩
    obtain ⟨kept, bytes⟩ := exec_lives lives serves ran alive
    refine ⟨kept, fun a inside => (bytes a inside).trans ?_⟩
    cases event with
    | store b value =>
        have other := notStore b value rfl
        exact if_neg fun both => other both.1.symm
    | _ => rfl
  load := by
    rintro s a value final lives ⟨current, serves, ran⟩
    obtain ⟨live, inside, read⟩ := load_byte lives.sound lives.synced ran
    have alive : Live final pid := by
      obtain ⟨_, middle, loaded, done⟩ := bind_ok_inv (exec_performed ran)
      cases done
      rw [Live, Xinu.Processes.KernelVariables.load_ker _ _ _ _ loaded]
      exact lives.live.1
    obtain ⟨kept, bytes⟩ := exec_lives lives serves ran alive
    rw [current] at inside read
    refine ⟨kept, ?_, read, bytes⟩
    rw [InHeap, lives.size] at inside
    exact inside
  store := by
    rintro s a value final lives ⟨current, serves, ran⟩
    have alive : Live final pid := by
      obtain ⟨_, middle, stored, done⟩ := bind_ok_inv (exec_performed ran)
      cases done
      rw [Live, Xinu.Processes.KernelVariables.store_ker _ _ _ _ _ stored]
      exact lives.live.1
    obtain ⟨kept, bytes⟩ := exec_lives lives serves ran alive
    refine ⟨kept, fun b inside => (bytes b inside).trans ?_⟩
    refine if_congr ?_ rfl rfl
    rw [current]
    exact ⟨fun both => both.2, fun here => ⟨rfl, here⟩⟩

end Views

/-- A new process finds the data of its stores in its heap. -/
theorem made_lives {policy : Int} {list : Vmemlist} (made : MadeBy Serves policy hsize pid s t list) :
    Lives pid hsize t ∧ ∀ a, InHeapOf hsize a → heapByte t pid a = storeByte t pid a := by
  obtain ⟨run, ⟨ssize, priority, serves, ran⟩, ⟨dead, alive⟩, _⟩ := made
  have sound := run_sound run
  have synced := run_synced run
  obtain ⟨finalSound, _⟩ := exec_sound sound serves ran
  have finalSynced := (exec_holds sound synced serves ran).1
  have joined : HeapLive t pid ∧ (t.ker.proctab pid).hsize = hsize := by
    cases exec_did ran with
    | refused _ _ memlist createNext vcreateNext hand => exact absurd alive dead
    | vcreated _ _ _ _ final made =>
        have joined := (vcreated_kept sound.stores made).2.1
        exact ⟨⟨alive, joined.heap⟩, joined.size⟩
  refine ⟨⟨finalSound, finalSynced, joined.1, joined.2⟩, fun a inside => ?_⟩
  refine born_byte finalSound joined.1 ?_ (exec_born sound synced serves.1 ran joined.1 dead)
  rw [InHeap, joined.2]
  exact inside

/-- What a new process observes depends on the data in its stores only, as long as page faults
keep their page tables and memory is allocated before any is given back. -/
theorem observations_from_stores {policy policy' : Int} {pid' : Int} {left left' right right' : St}
    {leftList rightList : Vmemlist} {fuel : Nat} {calls : List HeapCall}
    {leftSeen rightSeen : Option (List Observation)}
    (leftMade : MadeBy Serves policy hsize pid left left' leftList)
    (rightMade : MadeBy Serves policy' hsize pid' right right' rightList)
    (same : ∀ a, vheapStart ≤ a → a < vheapStart + nbpg * hsize →
      storeByte left' pid a = storeByte right' pid' a) (gets : GetsFirst calls)
    (leftSees : Observes Serves pid left' leftList fuel calls leftSeen)
    (rightSees : Observes Serves pid' right' rightList fuel calls rightSeen) :
    leftSeen = rightSeen := by
  obtain ⟨leftLives, leftBytes⟩ := made_lives leftMade
  obtain ⟨rightLives, rightBytes⟩ := made_lives rightMade
  obtain ⟨_, leftRuns⟩ := leftSees
  obtain ⟨_, rightRuns⟩ := rightSees
  rw [leftLives.live.2, leftLives.size] at leftRuns
  rw [rightLives.live.2, rightLives.size,
    heap_calls_forget gets rightMade.cleared leftMade.cleared] at rightRuns
  have leftResult : leftSeen = (heapCalls fuel true hsize calls leftList).eval
      fun a => heapByte left' pid a :=
    runs_eval (shows_heap pid hsize) leftRuns leftLives fun _ _ => rfl
  have rightResult : rightSeen = (heapCalls fuel true hsize calls leftList).eval
      fun a => heapByte left' pid a := by
    refine runs_eval (shows_heap pid' hsize) rightRuns rightLives fun a inside => ?_
    rw [rightBytes a inside, leftBytes a inside, same a inside.1 inside.2]
  rw [leftResult, rightResult]

section Example

omit [Config] in
/-- A program within pages that are there. -/
def runProgram {α : Type} (pid : Int) : HeapProgram α → St → Option (α × St)
  | .done result, s => some (result, s)
  | .load a next, s =>
      match @exec thirteen (.load a) s with
      | .ok (.byte value) middle =>
          if s.ker.currpid = pid then runProgram pid (next value) middle else none
      | _ => none
  | .store a value next, s =>
      match @exec thirteen (.store a value) s with
      | .ok .done middle => if s.ker.currpid = pid then runProgram pid next middle else none
      | _ => none

omit [Config] in
theorem run_program {α : Type} {program : HeapProgram α} {after : α × St}
    (ran : runProgram pid program s = some after) :
    Runs (@asSeenBy thirteen (@Serves thirteen) pid) program s after.1 after.2 := by
  induction program generalizing s with
  | done result =>
      cases ran
      exact .done result s
  | load a next induction =>
      unfold runProgram at ran
      split at ran
      · rename_i value middle loaded
        split at ran
        · rename_i current
          exact .load ⟨current, ⟨trivial, trivial, trivial⟩, loaded⟩ (induction value ran)
        · cases ran
      · cases ran
  | store a value next induction =>
      unfold runProgram at ran
      split at ran
      · rename_i middle stored
        split at ran
        · rename_i current
          exact .store ⟨current, ⟨trivial, trivial, trivial⟩, stored⟩ (induction ran)
        · cases ran
      · cases ran

def notStore : Event → Bool
  | .store _ _ => false
  | _ => true

/-- Events before the process goes on. -/
def waitFor (pid : Int) : List Event → St → Option St
  | [], s => some s
  | event :: rest, s =>
      if @ServesFifo thirteen s event ∧ notStore event = true then
        match @exec thirteen event s with
        | .ok _ middle => if Live middle pid then waitFor pid rest middle else none
        | .error _ _ => none
      else none

omit [Config] in
theorem wait_for {α : Type} {program : HeapProgram α} {events : List Event} {middle : St}
    {result : α} (waited : waitFor pid events s = some middle)
    (rest : Runs (@asSeenBy thirteen (@Serves thirteen) pid) program middle result final) :
    Runs (@asSeenBy thirteen (@Serves thirteen) pid) program s result final := by
  induction events generalizing s with
  | nil =>
      cases waited
      exact rest
  | cons event more induction =>
      unfold waitFor at waited
      split at waited
      · rename_i may
        split at waited
        · rename_i ran
          split at waited
          · rename_i alive
            refine .idle ⟨event, _, @serves_of_fifo thirteen _ _ may.1, ran, alive, ?_⟩
              (induction waited)
            rintro a value rfl
            cases may.2
          · cases waited
        · cases waited
      · cases waited

/-- What a new process with one page observes after other events. -/
def observed (pid : Int) (vmemlist : Vmemlist) (fuel : Nat) (calls : List HeapCall) (s : St) :
    Option (Option (List Observation) × St) :=
  (waitFor pid [.resume pid, .resched pid, .fault 0x1000000] s).bind
    (runProgram pid
      (heapCalls fuel (s.ker.proctab pid).vh (s.ker.proctab pid).hsize calls vmemlist))

omit [Config] in
theorem observes_observed {vmemlist : Vmemlist} {fuel : Nat} {calls : List HeapCall}
    {seen : Option (List Observation)}
    (made : (observed pid vmemlist fuel calls s).map Prod.fst = some seen) :
    @Observes thirteen (@Serves thirteen) pid s vmemlist fuel calls seen := by
  obtain ⟨after, found, rfl⟩ := Option.map_eq_some_iff.mp made
  obtain ⟨middle, waited, ran⟩ := Option.bind_eq_some_iff.mp found
  exact ⟨after.2, wait_for waited (run_program ran)⟩

/-- A process stores a byte, its page is evicted, and it is killed. -/
def storedAndKilled (value : Byte) : List Event :=
  [.vcreate 1024 1 20, .vcreate 1024 3 20, .resume 1, .resume 2, .resched 1, .fault 0x1000000,
    .store 0x1000000 value, .resched 2, .fault 0x1000000, .fault 0x1001000, .fault 0x1002000,
    .kill 1]

/-- The state in which `vcreate` returns after a history. -/
def newHeap (history : List Event) : St :=
  finalState (@exec thirteen (.vcreate 1024 1 20)
    (@afterEvents (@ServesFifo thirteen) (@decideServes thirteen) history))

omit [Config] in
theorem new_heap_made {history : List Event} {pid : Int} {list : Vmemlist}
    (ran : returned (@bootAndRun thirteen fifo (@ServesFifo thirteen) (@decideServes thirteen)
      history blankMachine) = true)
    (made : returnedWith (.status pid) (@exec thirteen (.vcreate 1024 1 20)
      (@afterEvents (@ServesFifo thirteen) (@decideServes thirteen) history)) = true)
    (slot : ¬Live (@afterEvents (@ServesFifo thirteen) (@decideServes thirteen) history) pid ∧
      Live (newHeap history) pid)
    (cleared : list.vmeminit = false) :
    @MadeBy thirteen (@Serves thirteen) fifo 1 pid
      (@afterEvents (@ServesFifo thirteen) (@decideServes thirteen) history) (newHeap history) list :=
  @MadeBy.mk thirteen _ _ _ _ _ _ _
    (@run_mono thirteen _ _ _ _ (fun _ _ => @serves_of_fifo thirteen _ _)
      (@after_events _ (@decideServes thirteen) _ ran))
    ⟨1024, 20, ⟨trivial, trivial, trivial⟩, returned_with made⟩ slot cleared

omit [Config] in
/-- The process that is made in the store of the one that was killed -/
theorem heap_behind_kill {list : Vmemlist} (cleared : list.vmeminit = false) :
    @MadeBy thirteen (@Serves thirteen) fifo 1 3
      (@afterEvents (@ServesFifo thirteen) (@decideServes thirteen) (storedAndKilled 0))
      (newHeap (storedAndKilled 0)) list :=
  new_heap_made (by decide +kernel) (by decide +kernel) (by decide +kernel) cleared

def zeroList : Vmemlist := { mnext := 0, mlength := 0, vmeminit := false }

/-- The head of a list that the last process in the slot has left. -/
def oldList : Vmemlist := { mnext := 0x1000010, mlength := 4080, vmeminit := false }

/-- Memory is allocated, used and given back. -/
def heapUse : List HeapCall :=
  [.vgetmem 8, .vgetmem 16, .store 0x1000008 5, .load 0x1000008, .vfreemem 0x1000000 8, .vgetmem 4]

omit [Config] in
theorem same_stores_same_observations : ∃ left right,
    @Observes thirteen (@Serves thirteen) 1 (newHeap []) zeroList 3 heapUse left ∧
      @Observes thirteen (@Serves thirteen) 3 (newHeap (storedAndKilled 0)) oldList 3 heapUse right ∧
      left = right := by
  have left : @Observes thirteen (@Serves thirteen) 1 (newHeap []) zeroList 3 heapUse
      (some [.address 0x1000000, .address 0x1000008, .byte 5, .status ok, .address 0x1000000]) :=
    observes_observed (by decide +kernel)
  have right : @Observes thirteen (@Serves thirteen) 3 (newHeap (storedAndKilled 0)) oldList 3
      heapUse
      (some [.address 0x1000000, .address 0x1000008, .byte 5, .status ok, .address 0x1000000]) :=
    observes_observed (by decide +kernel)
  have same : ∀ i < 32, ∀ j < 32, storeWord (newHeap []) 1 4096 (32 * i + j) =
      storeWord (newHeap (storedAndKilled 0)) 3 4096 (32 * i + j) := by
    decide +kernel
  refine ⟨_, _, left, right, @observations_from_stores thirteen 1 1 fifo fifo 3 _ _ _ _ zeroList
    oldList 3 heapUse _ _
    (new_heap_made (by decide +kernel) (by decide +kernel) (by decide +kernel) rfl)
    (heap_behind_kill rfl)
    ?_ (Or.inl (by decide)) left right⟩
  intro a low high
  rw [vheapStart] at low high
  rw [nbpg] at high
  have page : vaddr2vpn a = 4096 := by
    rw [page_number]
    omega
  have inside := same (vaddr2offset a / 4 / 32) (by rw [page_offset]; omega)
    (vaddr2offset a / 4 % 32) (Nat.mod_lt _ (by decide))
  rw [Nat.div_add_mod] at inside
  rw [Transparency.storeByte, Transparency.storeByte, page, inside]

omit [Config] in
/-- The new process reads what the last user of its store has written. -/
theorem stale_page_read : ¬@HeapPrivate thirteen fifo := by
  intro isPrivate
  let left := @afterEvents (@ServesFifo thirteen) (@decideServes thirteen) (storedAndKilled 7)
  let right := @afterEvents (@ServesFifo thirteen) (@decideServes thirteen) (storedAndKilled 0)
  have free : @SameFree thirteen left right :=
    @SameFree.mk thirteen _ _ (by decide +kernel) (by decide +kernel) (by decide +kernel)
  have seen := isPrivate 1 3 left (newHeap (storedAndKilled 7)) right
    (newHeap (storedAndKilled 0)) zeroList zeroList
    (new_heap_made (by decide +kernel) (by decide +kernel) (by decide +kernel) rfl)
    (heap_behind_kill rfl)
    free 1 [.load 0x1000000] (some [.byte 7]) (some [.byte 0])
    (observes_observed (by decide +kernel)) (observes_observed (by decide +kernel))
  cases seen

end Example

end Xinu.Space.PrivateHeap
