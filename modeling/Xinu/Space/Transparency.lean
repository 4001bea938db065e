import Xinu.Space.Heaps

/-!
# Demand paging is transparent

A run is taken together with the bytes its processes expect in their heaps: what the
backing store of a new process holds, and then what the process has stored itself.
-/

namespace Xinu.Space.Transparency

open Xinu.Kernel.State Xinu.Kernel.Entry Xinu.Lib.StateError Xinu.Paging.Address Xinu.Paging.Cpu
open Xinu.Paging.System Xinu.Replacement.Fifo Xinu.Replacement.FifoResults Xinu.Space.Agreement Xinu.Space.Contents
open Xinu.Space.Boot Xinu.Space.Heaps Xinu.Space.Runs Xinu.Swap.Places Xinu.Swap.Conservation

set_option autoImplicit false

/-- The byte in the backing store for an address of a heap. -/
def storeByte (s : St) (pid : Int) (a : Nat) : Byte :=
  byteOf (storeWord s pid (vaddr2vpn a) (vaddr2offset a / 4)) (vaddr2offset a % 4)

instance (s : St) (pid : Int) : Decidable (Live s pid) := inferInstanceAs (Decidable (_ ≠ _))

/-- What is expected after a step. -/
def remember (expected : Int → Nat → Byte) (s : St) (event : Event) (final : St) :
    Int → Nat → Byte := fun pid a =>
  if Live s pid then writtenByte s event pid a (expected pid a) else storeByte final pid a

variable [Config]

/-- A run together with the bytes that are expected in its last state. -/
inductive Remembered (start : St → Prop) (allowed : St → Event → Prop) :
    St → (Int → Nat → Byte) → Prop
  | start {s : St} (expected : Int → Nat → Byte) (started : start s) :
      Remembered start allowed s expected
  | step {s final : St} {expected : Int → Nat → Byte} {event : Event} {reply : Reply}
      (run : Remembered start allowed s expected) (may : allowed s event)
      (ran : exec event s = .ok reply final) :
      Remembered start allowed final (remember expected s event final)

/-- A load that completes returns what is expected. -/
def Transparent (s : St) (expected : Int → Nat → Byte) : Prop :=
  ∀ a value final, exec (.load a) s = .ok (.byte value) final → value = expected s.ker.currpid a

variable {s final : St} {expected : Int → Nat → Byte} {policy : Int}

theorem run_of_remembered {start : St → Prop} {allowed : St → Event → Prop}
    (run : Remembered start allowed s expected) : Run start allowed s := by
  induction run with
  | start _ started => exact .start started
  | step _ may ran induction => exact .step induction may ran

/-- The heaps hold what is expected. -/
def Expected (s : St) (expected : Int → Nat → Byte) : Prop :=
  ∀ pid a, HeapLive s pid → InHeap s.ker pid a → heapByte s pid a = expected pid a

/-- A new process has its heap in its stores. -/
theorem born_byte {pid : Int} {a : Nat} (sound : Sound s) (live : HeapLive s pid)
    (inside : InHeap s.ker pid a) (absent : ∀ fr vpn, ¬IsPage s fr pid vpn) :
    heapByte s pid a = storeByte s pid a := by
  obtain ⟨heapPage, _⟩ := heap_page_of_address sound.stores live inside
  rw [heapByte, (holds_heap_word sound.tables heapPage).mp
    (.store (fun fr page => absurd page (absent fr _)) rfl)]
  rfl

theorem exec_expected {event : Event} {reply : Reply} (sound : Sound s) (synced : Synced s empty)
    (serves : Serves s event) (ran : exec event s = .ok reply final) (known : Expected s expected) :
    Expected final (remember expected s event final) := by
  obtain ⟨finalSound, stays, _⟩ := exec_sound sound serves ran
  intro pid a live inside
  rw [remember]
  split
  · rename_i before
    have same := stays.procs pid before live.1
    simp only [space, Prod.mk.injEq] at same
    have liveBefore : HeapLive s pid := ⟨before, same.2.1.symm.trans live.2⟩
    have insideBefore : InHeap s.ker pid a := by
      rw [InHeap, ← same.2.2.2]
      exact inside
    rw [exec_byte sound synced serves ran liveBefore insideBefore live.1,
      known pid a liveBefore insideBefore]
  · rename_i dead
    exact born_byte finalSound live inside (exec_born sound synced serves.1 ran live dead)

theorem remembered_expected (run : Remembered (Started policy) Serves s expected) :
    Expected s expected := by
  induction run with
  | start expected started =>
      intro pid a live
      have ready := booted_ready started.1
      have heap := live.2
      rw [(ready.noHeap pid).1] at heap
      cases heap
  | step before serves ran induction =>
      have run := run_of_remembered before
      exact exec_expected (run_sound run) (run_synced run) serves ran induction

/-- Loads return the last stores in every run whose page faults keep their page tables. -/
theorem transparent_when_tables_kept (run : Remembered (Started policy) Serves s expected) :
    Transparent s expected := by
  intro a value final ran
  have whole := run_of_remembered run
  obtain ⟨live, inside, same⟩ := load_byte (run_sound whole) (run_synced whole) ran
  rw [same]
  exact remembered_expected run _ a live inside

/-- Events one after the other, together with what is expected. -/
def runRemembered (allowed : St → Event → Prop) [∀ s event, Decidable (allowed s event)] :
    List Event → St → (Int → Nat → Byte) → Option (St × (Int → Nat → Byte))
  | [], s, expected => some (s, expected)
  | event :: rest, s, expected =>
      if allowed s event then
        match exec event s with
        | .ok _ final => runRemembered allowed rest final (remember expected s event final)
        | .error _ _ => none
      else none

theorem run_remembered {start : St → Prop} {allowed : St → Event → Prop}
    [∀ s event, Decidable (allowed s event)] {events : List Event}
    {after : St × (Int → Nat → Byte)} (run : Remembered start allowed s expected)
    (ran : runRemembered allowed events s expected = some after) :
    Remembered start allowed after.1 after.2 := by
  induction events generalizing s expected with
  | nil =>
      cases ran
      exact run
  | cons event rest induction =>
      unfold runRemembered at ran
      split at ran
      · rename_i may
        split at ran
        · rename_i execRan
          exact induction (.step run may execRan) ran
        · cases ran
      · cases ran

omit [Config] in
theorem remembered_mono [Config] {start : St → Prop} {allowed wider : St → Event → Prop}
    (allows : ∀ s event, allowed s event → wider s event)
    (run : Remembered start allowed s expected) : Remembered start wider s expected := by
  induction run with
  | start expected started => exact .start expected started
  | step _ may ran induction => exact .step induction (allows _ _ may) ran

section Example

/-- The state and the expectations after events that can be taken. -/
def afterRemembered (allowed : St → Event → Prop) [∀ s event, Decidable (allowed s event)]
    (events : List Event) : St × (Int → Nat → Byte) :=
  (@runRemembered twelve allowed _ events bootedState fun _ _ => 0).getD
    (bootedState, fun _ _ => 0)

omit [Config] in
theorem after_remembered {allowed : St → Event → Prop} [∀ s event, Decidable (allowed s event)]
    {events : List Event}
    (ran : (@runRemembered twelve allowed _ events bootedState fun _ _ => 0).isSome = true) :
    @Remembered twelve (@Started twelve fifo) allowed (afterRemembered allowed events).1
      (afterRemembered allowed events).2 := by
  obtain ⟨after, same⟩ := Option.isSome_iff_exists.mp ran
  rw [afterRemembered, same]
  exact @run_remembered twelve _ _ _ _ _ _ _ (@Remembered.start twelve _ _ _ _ booted_started)
    same

/-- The page of process 1 is evicted and comes back. -/
def storedBefore : List Event :=
  [.vcreate 1024 1 20, .vcreate 1024 2 20, .resume 1, .resume 2, .resched 1, .fault 0x1000000,
    .store 0x1000000 7, .resched 2, .fault 0x1000000, .fault 0x1001000, .resched 1,
    .fault 0x1000000]

omit [Config] in
theorem store_survives :
    returnedWith (.byte 7) (@exec twelve (.load 0x1000000) (@afterRemembered (@ServesFifo twelve)
      (@decideServes twelve) storedBefore).1) = true ∧
      @Transparent twelve (@afterRemembered (@ServesFifo twelve) (@decideServes twelve)
        storedBefore).1 (@afterRemembered (@ServesFifo twelve) (@decideServes twelve)
          storedBefore).2 :=
  ⟨by decide +kernel, @transparent_when_tables_kept twelve _ _ _
    (@remembered_mono _ _ twelve _ _ _ (fun _ _ => @serves_of_fifo twelve _ _)
      (@after_remembered _ (@decideServes twelve) _ (by decide +kernel)))⟩

/-- Process 1 stores into a page that is mapped by a page table which its fault has freed. -/
def storedInFreed : List Event :=
  [.vcreate 1024 2 20, .vcreate 1024 1 20, .resume 1, .resched 1, .fault 0x1000000, .resume 2,
    .resched 2, .fault 0x1000000, .resched 1, .fault 0x1001000, .fault 0x1001000,
    .store 0x1001000 7, .resched 2, .fault 0x1000000, .resched 1, .fault 0x1001000]

omit [Config] in
theorem store_lost : ∃ s expected, @Remembered twelve (@Started twelve fifo)
    (@SuppliedFifo twelve) s expected ∧ ¬@Transparent twelve s expected := by
  let after := @afterRemembered (@SuppliedFifo twelve) (@decideSupplied twelve) storedInFreed
  have facts : after.1.ker.currpid = 1 ∧ after.2 1 0x1001000 = 7 ∧
      returnedWith (.byte 0) (@exec twelve (.load 0x1001000) after.1) = true := by
    decide +kernel
  obtain ⟨current, expected, loaded⟩ := facts
  refine ⟨after.1, after.2, @after_remembered _ (@decideSupplied twelve) _ (by decide +kernel), ?_⟩
  intro transparent
  have same := transparent _ _ _ (returned_with loaded)
  rw [current, expected] at same
  cases same

end Example

end Xinu.Space.Transparency
