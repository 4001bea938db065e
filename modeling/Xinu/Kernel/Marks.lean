import Xinu.Lib.Interleaving
import Xinu.Lib.Semaphores
import Mathlib.Logic.Function.Basic

/-!
# Memory marks

A marked location and the entry of `marks` with its index point to each other. `mark` looks at both
in front of `wait`, in which it may be switched, and makes the entry behind it. A location is
none of the table itself, and an entry behind the table shows in `written`.
-/

namespace Xinu.Kernel.Marks

open Xinu.Lib.Interleaving Xinu.Lib.Semaphores

set_option autoImplicit false

section Definitions

variable {Loc Process : Type} [DecidableEq Loc] [DecidableEq Process]

def maxmark : Nat := 20

/-- `inside` has the argument of each process that is in `mark`, `returned` those of the calls that
have returned `OK`. -/
structure State (Loc Process : Type) where
  word : Loc → Int
  marks : Nat → Loc
  nmarks : Nat
  mkmutex : Semaphore Process
  inside : Process → Option Loc
  returned : List Loc
  written : List Nat

def notmarked (s : State Loc Process) (loc : Loc) : Prop :=
  s.word loc < 0 ∨ (s.nmarks : Int) ≤ s.word loc ∨ s.marks (s.word loc).toNat ≠ loc

instance (s : State Loc Process) (loc : Loc) : Decidable (notmarked s loc) :=
  inferInstanceAs (Decidable (_ ∨ _ ∨ _))

/-- `markinit`, with anything in the memory and in the table -/
def Initially (s : State Loc Process) : Prop :=
  s.nmarks = 0 ∧ s.mkmutex = ⟨1, [], []⟩ ∧ (∀ pid, s.inside pid = none) ∧ s.returned = [] ∧
    s.written = []

/-- `mark` to its `wait` -/
def enter (s : State Loc Process) (pid : Process) (loc : Loc) : State Loc Process :=
  if 0 ≤ s.word loc ∧ s.word loc < s.nmarks ∧ s.marks (s.word loc).toNat = loc then
    { s with returned := loc :: s.returned }
  else if maxmark ≤ s.nmarks then s
  else
    { s with
      mkmutex := s.mkmutex.wait pid
      inside := Function.update s.inside pid (some loc) }

/-- `mark` behind its `wait` -/
def leave (s : State Loc Process) (pid : Process) (loc : Loc) : State Loc Process :=
  { word := Function.update s.word loc s.nmarks
    marks := Function.update s.marks s.nmarks loc
    nmarks := s.nmarks + 1
    mkmutex := (s.mkmutex.run pid).signal
    inside := Function.update s.inside pid none
    returned := loc :: s.returned
    written := s.nmarks :: s.written }

inductive Event (Loc Process : Type) where
  | mark (pid : Process) (loc : Loc)
  | goOn (pid : Process)
  | store (loc : Loc) (value : Int)

def act (s : State Loc Process) : Event Loc Process → Option (State Loc Process)
  | .mark pid loc => if s.inside pid = none then some (enter s pid loc) else none
  | .goOn pid => if pid ∈ s.mkmutex.passed then (s.inside pid).map (leave s pid) else none
  | .store loc value => some { s with word := Function.update s.word loc value }

/-- Nobody else writes to a marked location. -/
def Proper (s : State Loc Process) : Event Loc Process → Prop
  | .mark _ _ => True
  | .goOn _ => True
  | .store loc _ => loc ∉ s.returned

/-- What `mark` has seen in front of its `wait` is still so behind it. -/
def StillSo (s : State Loc Process) : Event Loc Process → Prop
  | .mark _ _ => True
  | .goOn pid => ∀ loc ∈ s.inside pid, notmarked s loc ∧ s.nmarks < maxmark
  | .store _ _ => True

instance (s : State Loc Process) : (event : Event Loc Process) → Decidable (Proper s event)
  | .mark _ _ => inferInstanceAs (Decidable True)
  | .goOn _ => inferInstanceAs (Decidable True)
  | .store _ _ => inferInstanceAs (Decidable (_ ∉ _))

instance (s : State Loc Process) : (event : Event Loc Process) → Decidable (StillSo s event)
  | .mark _ _ => inferInstanceAs (Decidable True)
  | .goOn pid => inferInstanceAs (Decidable (∀ loc ∈ s.inside pid, _))
  | .store _ _ => inferInstanceAs (Decidable True)

/-- A location is marked when a call for it has returned `OK`, it has one entry, and all entries are
in the table. -/
structure Sound (s : State Loc Process) : Prop where
  marked : ∀ loc, ¬notmarked s loc ↔ loc ∈ s.returned
  once : ∀ i < s.nmarks, ∀ j < s.nmarks, s.marks i = s.marks j → i = j
  room : s.nmarks ≤ maxmark
  inside : ∀ i ∈ s.written, i < maxmark

end Definitions

section Entries

variable {Loc Process : Type} [DecidableEq Loc] [DecidableEq Process]
  {s s' : State Loc Process} {event : Event Loc Process} {pid : Process} {loc : Loc}

omit [DecidableEq Loc] [DecidableEq Process] in
theorem marked_iff : ¬notmarked s loc ↔
    0 ≤ s.word loc ∧ s.word loc < s.nmarks ∧ s.marks (s.word loc).toNat = loc := by
  unfold notmarked
  simp only [not_or, Int.not_lt, Int.not_le, not_not]

/-- The entries and the marked locations point to each other. -/
structure Entries (s : State Loc Process) : Prop where
  back : ∀ i < s.nmarks, s.word (s.marks i) = i
  known : ∀ i < s.nmarks, s.marks i ∈ s.returned
  listed : ∀ loc ∈ s.returned, ∃ i < s.nmarks, s.marks i = loc
  room : s.nmarks ≤ maxmark
  inside : ∀ i ∈ s.written, i < maxmark

omit [DecidableEq Process] in
theorem entries_initially (initially : Initially s) : Entries s := by
  obtain ⟨none, _, _, nothing, unwritten⟩ := initially
  constructor
  · intro i bound
    omega
  · intro i bound
    omega
  · intro loc member
    rw [nothing] at member
    cases member
  · rw [none]
    exact Nat.zero_le maxmark
  · intro i member
    rw [unwritten] at member
    cases member

omit [DecidableEq Loc] [DecidableEq Process] in
theorem marked_of_returned (entries : Entries s) (member : loc ∈ s.returned) : ¬notmarked s loc := by
  obtain ⟨i, bound, rfl⟩ := entries.listed loc member
  have index := entries.back i bound
  rw [marked_iff, index, Int.toNat_natCast]
  exact ⟨Int.natCast_nonneg i, Int.ofNat_lt.mpr bound, rfl⟩

omit [DecidableEq Loc] [DecidableEq Process] in
theorem entry_of_marked (marked : ¬notmarked s loc) : ∃ i < s.nmarks, s.marks i = loc := by
  obtain ⟨positive, bound, same⟩ := marked_iff.mp marked
  exact ⟨_, by omega, same⟩

omit [DecidableEq Loc] [DecidableEq Process] in
theorem sound_of_entries (entries : Entries s) : Sound s := by
  refine ⟨?_, ?_, entries.room, entries.inside⟩
  · intro loc
    constructor
    · intro marked
      obtain ⟨i, bound, rfl⟩ := entry_of_marked marked
      exact entries.known i bound
    · exact marked_of_returned entries
  · intro i first j second same
    have index := entries.back i first
    rw [same, entries.back j second] at index
    exact (Int.ofNat.inj index).symm

theorem entries_enter (entries : Entries s) : Entries (enter s pid loc) := by
  unfold enter
  split_ifs with already full
  · have marked := marked_iff.mpr already
    refine ⟨entries.back, fun i bound => List.mem_cons_of_mem _ (entries.known i bound), ?_,
      entries.room, entries.inside⟩
    intro other member
    rcases List.mem_cons.mp member with rfl | before
    · exact entry_of_marked marked
    · exact entries.listed other before
  · exact entries
  · exact ⟨entries.back, entries.known, entries.listed, entries.room, entries.inside⟩

/-- A new entry for a location that has none -/
theorem entries_leave (entries : Entries s) (unmarked : notmarked s loc) (more : s.nmarks < maxmark) :
    Entries (leave s pid loc) := by
  have others : ∀ i < s.nmarks, s.marks i ≠ loc := by
    rintro i bound rfl
    exact marked_of_returned entries (entries.known i bound) unmarked
  have old : ∀ i < s.nmarks, (leave s pid loc).marks i = s.marks i :=
    fun i bound => Function.update_of_ne (Nat.ne_of_lt bound) _ _
  have new : (leave s pid loc).marks s.nmarks = loc := Function.update_self _ _ _
  refine ⟨?_, ?_, ?_, more, ?_⟩
  · intro i bound
    rcases Nat.lt_succ_iff_lt_or_eq.mp bound with before | rfl
    · rw [old i before]
      exact (Function.update_of_ne (others i before) _ _).trans (entries.back i before)
    · rw [new]
      exact Function.update_self _ _ _
  · intro i bound
    rcases Nat.lt_succ_iff_lt_or_eq.mp bound with before | rfl
    · rw [old i before]
      exact List.mem_cons_of_mem _ (entries.known i before)
    · rw [new]
      exact List.mem_cons_self
  · intro other member
    rcases List.mem_cons.mp member with rfl | before
    · exact ⟨s.nmarks, Nat.lt_succ_self _, new⟩
    · obtain ⟨i, bound, same⟩ := entries.listed other before
      exact ⟨i, Nat.lt_succ_of_lt bound, (old i bound).trans same⟩
  · intro i member
    rcases List.mem_cons.mp member with rfl | before
    · exact more
    · exact entries.inside i before

omit [DecidableEq Process] in
theorem entries_store {value : Int} (entries : Entries s) (unmarked : loc ∉ s.returned) :
    Entries { s with word := Function.update s.word loc value } := by
  refine ⟨?_, entries.known, entries.listed, entries.room, entries.inside⟩
  intro i bound
  have other : s.marks i ≠ loc := by
    rintro rfl
    exact unmarked (entries.known i bound)
  exact (Function.update_of_ne other _ _).trans (entries.back i bound)

/-- A location that has been marked gets a second entry, or an entry is behind the table. -/
theorem leave_not_sound (late : ¬(notmarked s loc ∧ s.nmarks < maxmark)) :
    ¬Sound (leave s pid loc) := by
  intro sound
  refine late ⟨?_, sound.inside s.nmarks List.mem_cons_self⟩
  by_contra marked
  obtain ⟨i, bound, same⟩ := entry_of_marked marked
  have old : (leave s pid loc).marks i = loc :=
    (Function.update_of_ne (Nat.ne_of_lt bound) _ _).trans same
  have new : (leave s pid loc).marks s.nmarks = loc := Function.update_self _ _ _
  have equal := sound.once i (Nat.lt_succ_of_lt bound) s.nmarks (Nat.lt_succ_self _)
    (old.trans new.symm)
  omega

theorem act_go_on (did : act s (.goOn pid) = some s') :
    ∃ loc, s.inside pid = some loc ∧ s' = leave s pid loc := by
  change (if pid ∈ s.mkmutex.passed then _ else none) = some s' at did
  split at did
  · obtain ⟨loc, inside, same⟩ := Option.map_eq_some_iff.mp did
    exact ⟨loc, inside, same.symm⟩
  · cases did

theorem entries_act (entries : Entries s) (proper : Proper s event) (still : StillSo s event)
    (did : act s event = some s') : Entries s' := by
  cases event with
  | mark pid loc =>
      change (if s.inside pid = none then _ else none) = some s' at did
      split at did
      · cases did
        exact entries_enter entries
      · cases did
  | goOn pid =>
      obtain ⟨loc, inside, rfl⟩ := act_go_on did
      obtain ⟨unmarked, more⟩ := still loc inside
      exact entries_leave entries unmarked more
  | store loc value =>
      cases did
      exact entries_store entries proper

theorem still_so_of_sound (sound : Sound s') (did : act s event = some s') : StillSo s event := by
  cases event with
  | mark pid loc => exact trivial
  | goOn pid =>
      obtain ⟨loc, inside, rfl⟩ := act_go_on did
      intro other member
      cases inside.symm.trans member
      by_contra late
      exact leave_not_sound late sound
  | store loc value => exact trivial

end Entries

section Mutex

variable {Loc Process : Type} [DecidableEq Loc] [DecidableEq Process]
  {s s' : State Loc Process} {event : Event Loc Process}

/-- What `mkmutex` counts is one. -/
def Exclusive (s : State Loc Process) : Prop := s.mkmutex.Sound ∧ s.mkmutex.level = 1

theorem exclusive_act (exclusive : Exclusive s) (did : act s event = some s') : Exclusive s' := by
  obtain ⟨sound, level⟩ := exclusive
  cases event with
  | mark pid loc =>
      change (if s.inside pid = none then _ else none) = some s' at did
      split at did
      · cases did
        unfold enter
        split_ifs
        · exact ⟨sound, level⟩
        · exact ⟨sound, level⟩
        · exact ⟨Semaphore.wait_sound pid sound, (Semaphore.wait_level pid).trans level⟩
      · cases did
  | goOn pid =>
      have behind : pid ∈ s.mkmutex.passed := by
        by_contra absent
        change (if pid ∈ s.mkmutex.passed then _ else none) = some s' at did
        rw [if_neg absent] at did
        cases did
      obtain ⟨loc, _, rfl⟩ := act_go_on did
      have ran : (s.mkmutex.run pid).Sound := sound
      refine ⟨Semaphore.signal_sound ran, ?_⟩
      change (s.mkmutex.run pid).signal.level = 1
      rw [Semaphore.signal_level ran, Semaphore.run_level pid behind, level]
      rfl
  | store loc value =>
      cases did
      exact ⟨sound, level⟩

/-- At most one process is between `wait` and `signal`. -/
theorem one_behind_wait {allowed : State Loc Process → Event Loc Process → Prop}
    (run : Reached act Initially allowed s) : s.mkmutex.passed.length ≤ 1 := by
  have exclusive : Exclusive s := by
    refine reached_invariant run ?_ fun x y event holds _ did => exclusive_act holds did
    rintro x ⟨_, free, _⟩
    unfold Exclusive
    rw [free]
    exact ⟨rfl, rfl⟩
  obtain ⟨sound, level⟩ := exclusive
  unfold Semaphore.Sound at sound
  unfold Semaphore.level at level
  omega

end Mutex

section Results

/-- The marks are sound in a run in which what the calls have seen is still so, and no longer behind
the first step at which it is not. -/
theorem marks_sound {Loc Process : Type} [DecidableEq Loc] [DecidableEq Process]
    {s : State Loc Process}
    (run : Reached act Initially (fun s event => Proper s event ∧ StillSo s event) s) :
    Sound s ∧ ∀ event s', Proper s event → act s event = some s' → (Sound s' ↔ StillSo s event) := by
  have entries : Entries s := by
    refine reached_invariant run (fun _ => entries_initially) ?_
    intro x y event holds may did
    exact entries_act holds may.1 may.2 did
  refine ⟨sound_of_entries entries, ?_⟩
  intro event s' proper did
  constructor
  · intro sound
    exact still_so_of_sound sound did
  · intro still
    exact sound_of_entries (entries_act entries proper still did)

/-- A table and a memory with no mark in them -/
def booted : State Nat Nat where
  word := fun _ => 0
  marks := fun _ => 7
  nmarks := 0
  mkmutex := ⟨1, [], []⟩
  inside := fun _ => none
  returned := []
  written := []

theorem booted_initially : Initially booted := ⟨rfl, rfl, fun _ => rfl, rfl, rfl⟩

/-- Two processes mark two locations, and a third call for one of these takes no entry. -/
def twoMarks : List (Event Nat Nat) :=
  [.mark 0 100, .mark 1 200, .goOn 0, .store 300 1, .goOn 1, .mark 0 200]

theorem marks_sound_two :
    ∃ s : State Nat Nat, s.nmarks = 2 ∧ s.returned = [200, 200, 100] ∧ Sound s := by
  obtain ⟨s, run, ends⟩ := @take_events_end (State Nat Nat) (Event Nat Nat) act Initially
    (fun s event => Proper s event ∧ StillSo s event) _ twoMarks booted
    (fun s => s.nmarks = 2 ∧ s.returned = [200, 200, 100]) _ (.start booted_initially) (by decide)
  exact ⟨s, ends.1, ends.2, (marks_sound run).1⟩

theorem one_behind_wait_two :
    ∃ s : State Nat Nat, s.mkmutex.queue = [1] ∧ s.mkmutex.passed.length ≤ 1 := by
  obtain ⟨s, run, ends⟩ := @take_events_end (State Nat Nat) (Event Nat Nat) act Initially Proper _
    [.mark 0 100, .mark 1 200] booted (fun s => s.mkmutex.queue = [1]) _ (.start booted_initially)
    (by decide)
  exact ⟨s, ends, one_behind_wait run⟩

/-- Two processes that mark one location at the same time -/
def sameLocation : List (Event Nat Nat) := [.mark 0 100, .mark 1 100, .goOn 0, .goOn 1]

theorem marks_not_sound : ¬∀ s : State Nat Nat, Reached act Initially Proper s → Sound s := by
  intro always
  obtain ⟨s, run, bound, first, second⟩ := @take_events_end (State Nat Nat) (Event Nat Nat)
    act Initially Proper _ sameLocation booted
    (fun s => 1 < s.nmarks ∧ s.marks 0 = 100 ∧ s.marks 1 = 100) _ (.start booted_initially)
    (by decide)
  have same := (always s run).once 0 (by omega) 1 bound (first.trans second.symm)
  exact absurd same (by decide)

end Results

end Xinu.Kernel.Marks
