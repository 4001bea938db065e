import Xinu.Space.Runs

/-!
# No frame leaks

In a run that keeps its page tables, every frame in use has an owner that is still there,
and no step takes a frame from the wrong one.
-/

namespace Xinu.Space.Owners

open Xinu.Kernel.State Xinu.Lib.StateError Xinu.Paging.Address Xinu.Paging.Ipt Xinu.Paging.Process
open Xinu.Paging.System Xinu.Processes.Steps Xinu.Replacement.Fifo Xinu.Space.Agreement
open Xinu.Space.Allocate Xinu.Space.Fault Xinu.Space.Ownership Xinu.Space.Members Xinu.Space.Runs
open Xinu.Swap.Conservation

set_option autoImplicit false

section Definitions

variable [Config]

/-- `fr` is a page directory of the process. -/
def IsDirectory (s : St) (fr : Nat) (pid : Int) : Prop :=
  fr < nframes ∧ (s.ipt fr).status = .pdir ∧ (s.ipt fr).pid = pid

structure FramesOwned (s : St) : Prop where
  owners : ∀ fr < nframes, (s.ipt fr).status ≠ .notUsed →
    (s.ipt fr).pid = global ∨ (s.ipt fr).pid = nullproc ∨ HeapLive s (s.ipt fr).pid
  directory : ∀ pid, HeapLive s pid → ∃ d, IsDirectory s d pid ∧
    (s.ker.proctab pid).pd = frameNum2ptr d ∧ ∀ other, IsDirectory s other pid → other = d

/-- What a step does to the frames of others: `kill` clears the frames of its victim and no
others, and the shared tables and the directories of live processes stay where they are. -/
structure FramesStay (s final : St) (event : Event) (reply : Reply) : Prop where
  shared : ∀ fr < nframes, (s.ipt fr).status ≠ .notUsed → (s.ipt fr).pid = global →
    core (final.ipt fr) = core (s.ipt fr)
  directories : ∀ pid, Live s pid → Live final pid → ∀ fr < nframes,
    (s.ker.proctab pid).pd = frameNum2ptr fr → core (final.ipt fr) = core (s.ipt fr)
  killed : ∀ pid, event = .kill pid ∧ reply = .status ok ∨ Live s pid ∧ ¬Live final pid →
    ∀ fr < nframes, ((s.ipt fr).pid = pid → (final.ipt fr).status = .notUsed) ∧
      ((s.ipt fr).pid ≠ pid → core (final.ipt fr) = core (s.ipt fr))

def FramesSafe (s : St) : Prop :=
  FramesOwned s ∧ ∀ event reply final, Serves s event → exec event s = .ok reply final →
    FramesStay s final event reply

end Definitions

variable [Config] {s final : St} {pid : Int}

theorem frames_owned (sound : Sound s) : FramesOwned s := by
  have tables := sound.tables
  refine ⟨?_, ?_⟩
  · intro fr bound used
    cases status : (s.ipt fr).status with
    | notUsed => exact absurd status used
    | page =>
        obtain ⟨pid, _, page, heapPage, _⟩ :=
          tables.mapped fr bound status (proper_of_bound bound)
        rw [page.2.2.1]
        exact Or.inr (Or.inr heapPage.1)
    | pdir =>
        obtain ⟨pid, live, owner, directory⟩ :=
          sound.owned.dirs fr bound status (proper_of_bound bound)
        obtain ⟨d, inside, isDir, _, own⟩ := tables.dirs pid live
        have same := frame_ptr_injective d fr inside bound (isDir.symm.trans directory)
        rw [same] at own
        split at own
        · rename_i heap
          rw [own]
          exact Or.inr (Or.inr ⟨live, heap⟩)
        · exact Or.inr (Or.inl own)
    | ptab =>
        by_cases shared : (s.ipt fr).pid = global
        · exact Or.inl shared
        · obtain ⟨pid, pdi, live, own, present, address⟩ :=
            sound.owned.tabs fr bound status (proper_of_bound bound) shared
          obtain ⟨t, isTable, tableAddress⟩ := tables.tables pid pdi live own present
          have same : t = fr := by omega
          rw [← same, isTable.2.2]
          exact Or.inr (Or.inr live)
  · intro pid live
    obtain ⟨d, bound, directory, status, own⟩ := tables.dirs pid live.1
    rw [if_pos live.2] at own
    refine ⟨d, ⟨bound, status, own⟩, directory, ?_⟩
    rintro other ⟨inside, isDir, owner⟩
    obtain ⟨q, _, isOwner, otherDirectory⟩ :=
      sound.owned.dirs other inside isDir (proper_of_bound inside)
    have same : q = pid := isOwner.symm.trans owner
    rw [same] at otherDirectory
    exact frame_ptr_injective other d inside bound (otherDirectory.symm.trans directory)

/-- `kill` clears the frames of its victim, and changes nothing but links of the others. -/
theorem parted_frames (sound : Sound s) (live : Live s pid) (user : pid ≠ nullproc)
    (parted : Parted pid s final) (fr : Nat) (bound : fr < nframes) :
    ((s.ipt fr).pid = pid → (final.ipt fr).status = .notUsed) ∧
      ((s.ipt fr).pid ≠ pid → core (final.ipt fr) = core (s.ipt fr)) := by
  refine ⟨?_, parted_frame parted bound⟩
  intro owner
  by_cases heap : (s.ker.proctab pid).vh = true
  · have cleared := (parted.frames fr bound).trans (if_pos ⟨heap, owner⟩)
    exact core_status cleared
  · have same := (parted.frames fr bound).trans (if_neg fun both => heap both.1)
    rw [core_status same]
    by_contra used
    rcases (frames_owned sound).owners fr bound used with shared | null | alive
    · have nonneg := sound.tables.pids pid live
      rw [← owner, shared, global] at nonneg
      omega
    · exact user (owner.symm.trans null)
    · rw [owner] at alive
      exact heap alive.2

theorem frames_stay {event : Event} {reply : Reply} (sound : Sound s) (serves : Serves s event)
    (ran : exec event s = .ok reply final) : FramesStay s final event reply := by
  obtain ⟨_, stays, leaves⟩ := exec_sound sound serves ran
  -- a completed call of `kill` has taken its victim down
  have gone : ∀ pid, event = .kill pid → reply = .status ok → Live s pid ∧ ¬Live final pid := by
    rintro pid rfl rfl
    obtain ⟨status, middle, killRan, performed⟩ := bind_ok_inv (exec_performed ran)
    cases performed
    rcases kill_inv killRan with ⟨impossible, _⟩ | ⟨_, down⟩
    · cases impossible
    · obtain ⟨_, _, parted⟩ := killed_sound sound down
      refine ⟨(not_bad down.valid).2.2, ?_⟩
      rw [Live, not_not]
      exact parted.left.dead
  refine ⟨?_, fun pid before after fr bound directory =>
    stays.dirs pid before after fr bound directory, ?_⟩
  · intro fr bound used shared
    refine (stays.shared fr ⟨bound, ?_, shared⟩).1
    cases status : (s.ipt fr).status with
    | notUsed => exact absurd status used
    | ptab => rfl
    | page =>
        obtain ⟨pid, _, page, heapPage, _⟩ :=
          sound.tables.mapped fr bound status (proper_of_bound bound)
        have nonneg := sound.tables.pids pid heapPage.1.1
        rw [← page.2.2.1, shared, global] at nonneg
        omega
    | pdir =>
        obtain ⟨pid, live, owner, _⟩ :=
          sound.owned.dirs fr bound status (proper_of_bound bound)
        have nonneg := sound.tables.pids pid live
        rw [← owner, shared, global] at nonneg
        omega
  · intro pid ended
    have died : Live s pid ∧ ¬Live final pid := by
      rcases ended with ⟨isKill, done⟩ | died
      · exact gone pid isKill done
      · exact died
    rcases leaves with all | ⟨victim, live, user, parted⟩
    · exact absurd (all pid died.1) died.2
    · have same : pid = victim := by
        by_contra other
        exact died.2 ((parted_live parted pid).1.mpr ⟨died.1, other⟩)
      subst same
      exact parted_frames sound live user parted

/-- Frames are owned in every run whose page faults keep their page tables. -/
theorem frames_safe_when_tables_kept {policy : Int} (run : Run (Started policy) Serves s) :
    FramesSafe s := by
  have sound := run_sound run
  exact ⟨frames_owned sound, fun event reply final serves ran => frames_stay sound serves ran⟩

section Example

omit [Config] in
theorem frames_safe_of_three_heaps :
    let s := @afterEvents (@ServesFifo thirteen) (@decideServes thirteen) threeHeaps
    (s.ipt 9).pid = 2 ∧ (s.ipt 9).status = .page ∧ @FramesSafe thirteen s :=
  ⟨by decide +kernel, by decide +kernel, @frames_safe_when_tables_kept thirteen _ _ three_heaps_run⟩

/-- Process 1 evicts its own last page and goes on with the page table that this has freed.
The frame becomes a table of process 2 and is freed once more, and once more when it is the
directory of process 4. -/
def tableLost : List Event :=
  [.vcreate 1024 2 20, .vcreate 1024 8 20, .vcreate 1024 1 20, .resume 1, .resume 2, .resume 3,
    .resched 1, .fault 0x1000000, .resched 3, .fault 0x1000000, .resched 1, .fault 0x1001000,
    .resched 2, .fault 0x1000000, .resched 3, .fault 0x1000000, .vcreate 1024 1 20, .resched 2,
    .fault 0x1005000, .fault 0x1006000, .resched 3, .fault 0x1000000]

omit [Config] in
theorem directory_freed : ∃ s,
    @Run thirteen (@Started thirteen fifo) (@SuppliedFifo thirteen) s ∧ ¬@FramesSafe thirteen s := by
  let s := @afterEvents (@SuppliedFifo thirteen) (@decideSupplied thirteen) tableLost
  have facts : ¬(s.ker.proctab 4).prstate = .free ∧ (s.ker.proctab 4).vh = true ∧
      (s.ker.proctab 4).pd = frameNum2ptr 9 ∧ (s.ipt 9).status = .notUsed := by
    decide +kernel
  obtain ⟨live, heap, directory, free⟩ := facts
  refine ⟨s, @after_events _ (@decideSupplied thirteen) _ (by decide +kernel), ?_⟩
  intro safe
  obtain ⟨d, isDirectory, pointer, _⟩ := @FramesOwned.directory thirteen _ safe.1 4 ⟨live, heap⟩
  have here : d = 9 :=
    @frame_ptr_injective thirteen d 9 isDirectory.1 (by decide) (pointer.symm.trans directory)
  subst here
  rw [isDirectory.2.1] at free
  cases free

end Example

end Xinu.Space.Owners
