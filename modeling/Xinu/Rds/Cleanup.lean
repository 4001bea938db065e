import Xinu.Rds.Counting

/-!
# The loop behind the copy

When `rdsread` has copied its block, and nobody else reads it, it walks the cache for an older copy
until it comes to its own buffer. The pointer that walks the cache is never moved, so that the loop
ends at once or never, and unlinks the buffer of the call in each turn or in none.
-/

namespace Xinu.Rds.Cleanup

open Xinu.Rds.Device Xinu.Rds.Driver Xinu.Rds.Lists Xinu.Rds.Steps
open Xinu.Rds.Counting (blank)

set_option autoImplicit false

section Definitions

def anything (_ : Machine) (_ : Event) : Bool := true

def stepOf (pid : Int) : Event → Bool
  | .step other => other == pid
  | _ => false

def returnOf (pid : Int) (out : Option Return) : Bool := out.any fun ret => ret.pid == pid

/-- The call of a process in a run: whether it returns, and how often it moves its buffer to the free
list before. -/
def callIn (pid : Int) : List Event → Machine → Bool × Nat
  | [], _ => (false, 0)
  | event :: rest, x =>
      match act x event with
      | none => (false, 0)
      | some (x', out) =>
          if returnOf pid out then (true, 0)
          else
            ((callIn pid rest x').1,
              (callIn pid rest x').2 + if stepOf pid event && unlinks x event then 1 else 0)

/-- `rdsread` takes the notice of `p`, which is one of the buffers in the cache. -/
structure Resumes (x : Machine) (pid : Int) (blk : Nat) (p : Ptr) (cache : List Ptr) : Prop where
  called : ∃ b since earlier, x.calls pid = some ⟨.read blk, .receive b, since, earlier⟩
  mail : x.mail pid = some p
  lists : ∃ queue free, Linked x.rds queue cache free
  member : p ∈ cache

/-- Whatever the others do, the call returns when its process has been given enough steps, and it
moves its buffer at most once. -/
structure Finishes (x : Machine) (pid : Int) : Prop where
  ends : ∃ turns, ∀ events, (runs anything (.step pid :: events) x).isSome = true →
    turns ≤ events.countP (stepOf pid) → (callIn pid (.step pid :: events) x).1 = true
  once : ∀ events, (callIn pid (.step pid :: events) x).2 ≤ 1

end Definitions

section Steps

variable {x x' : Machine} {pid : Int} {event : Event} {out : Option Return} {calling : Calling}

theorem begins_frame {other : Int} {request : Request} (differ : pid ≠ other)
    (did : begins x other request = some (x', out)) :
    x'.calls pid = x.calls pid ∧ returnOf pid out = false := by
  have away : ¬other = pid := fun same => differ same.symm
  unfold begins at did
  cases request with
  | read blk =>
      dsimp only at did
      split_ifs at did
      · cases did
        simp [returnOf, away]
      · simp only [Option.bind_eq_bind, Option.bind_eq_some_iff] at did
        obtain ⟨found, -, did⟩ := did
        cases found <;> cases did <;> simp [returnOf, away, waitAvail, differ]
  | write blk data =>
      dsimp only at did
      split_ifs at did
      · cases did
        simp [returnOf, away]
      · simp only [Option.bind_eq_bind, Option.bind_eq_some_iff] at did
        obtain ⟨found, -, did⟩ := did
        split_ifs at did
        · cases did
          simp [returnOf, away, Machine.accept]
        · obtain ⟨cached, -, did⟩ := Option.bind_eq_some_iff.mp did
          split_ifs at did <;> cases did <;>
            simp [returnOf, away, queueWrite, Machine.signalReq, Machine.accept, waitAvail, differ]
  | sync =>
      dsimp only at did
      split_ifs at did <;> cases did <;> simp [returnOf, away, waitAvail, differ]

theorem proceeds_frame {other : Int} (differ : pid ≠ other)
    (did : proceeds x other = some (x', out)) :
    x'.calls pid = x.calls pid ∧ returnOf pid out = false := by
  have away : ¬other = pid := fun same => differ same.symm
  simp only [proceeds, Option.bind_eq_bind, Option.bind_eq_some_iff] at did
  obtain ⟨calling, called, did⟩ := did
  cases place : calling.place with
  | avail =>
      simp only [place] at did
      split_ifs at did
      simp only [allocates, Option.bind_eq_bind, Option.bind_eq_some_iff] at did
      obtain ⟨⟨bptr, r⟩, -, did⟩ := did
      cases request : calling.request <;> simp only [request] at did <;> cases did <;>
        simp [returnOf, away, queueWrite, Machine.signalReq, Machine.accept, Machine.setCall,
          Machine.recvclr, differ]
  | receive b =>
      simp only [place] at did
      obtain ⟨msg, -, result⟩ := Option.map_eq_some_iff.mp did
      unfold receives at result
      cases request : calling.request <;> simp only [request] at result
      · split_ifs at result <;> cases result <;>
          simp [returnOf, away, Machine.setCall, Machine.recvclr, differ]
      · cases result
        simp [returnOf, away, Machine.setCall, Machine.recvclr, differ]
      · cases result
        simp [returnOf, away, Machine.setCall, Machine.recvclr, differ]
  | cleanup c b data =>
      simp only [place, Option.some.injEq] at did
      unfold cleanupTurn at did
      split_ifs at did
      · cases did
        simp [returnOf, away, Machine.setCall, differ]
      · cases request : calling.request <;> simp only [request] at did
        · split_ifs at did <;> cases did <;> simp [returnOf]
        · cases did
          simp [returnOf]
        · cases did
          simp [returnOf]

theorem driver_frame (did : driverStep x = some x') : x'.calls = x.calls := by
  unfold driverStep at did
  cases driver : x.driver with
  | serve =>
      simp only [driver] at did
      split at did <;> cases did <;> simp [Machine.signalAvail, Machine.send_eq]
  | others bptr =>
      simp only [driver, Option.bind_eq_bind, Option.bind_eq_some_iff] at did
      obtain ⟨qptr, -, did⟩ := did
      split_ifs at did <;> cases did <;> simp [Machine.send_eq]
  | _ =>
      simp only [driver] at did
      cases did <;> simp [Machine.signalAvail, Machine.send_eq]

/-- A process that is in a call stays where it is while the others go on. -/
theorem stays (called : x.calls pid = some calling) (other : stepOf pid event = false)
    (did : act x event = some (x', out)) :
    x'.calls pid = some calling ∧ returnOf pid out = false := by
  cases event with
  | call who request =>
      simp only [act] at did
      split_ifs at did with busy
      have differ : pid ≠ who := by
        rintro rfl
        exact busy (by rw [called]; rfl)
      obtain ⟨same, quiet⟩ := begins_frame differ did
      exact ⟨same.trans called, quiet⟩
  | step who =>
      have differ : pid ≠ who := by
        rintro rfl
        simp [stepOf] at other
      obtain ⟨same, quiet⟩ := proceeds_frame differ did
      exact ⟨same.trans called, quiet⟩
  | driver =>
      obtain ⟨y, step, result⟩ := Option.map_eq_some_iff.mp did
      cases result
      exact ⟨(congrFun (driver_frame step) pid).trans called, rfl⟩
  | send who msg =>
      cases did
      rw [Machine.send_eq]
      exact ⟨called, rfl⟩
  | receive who =>
      simp only [act] at did
      split_ifs at did
      cases did
      exact ⟨called, rfl⟩

end Steps

section Loop

variable {x x' : Machine} {pid : Int} {blk since earlier : Nat} {c p : Ptr} {data : Block}

theorem runs_eq (event : Event) (events : List Event) (x : Machine) :
    runs anything (event :: events) x =
      (act x event).bind fun after => runs anything events after.1 :=
  if_pos rfl

theorem runs_cons {event : Event} {events : List Event}
    (run : (runs anything (event :: events) x).isSome = true) :
    ∃ y out, act x event = some (y, out) ∧ (runs anything events y).isSome = true := by
  obtain ⟨last, done⟩ := Option.isSome_iff_exists.mp run
  rw [runs_eq, Option.bind_eq_some_iff] at done
  obtain ⟨⟨y, out⟩, did, rest⟩ := done
  exact ⟨y, out, did, Option.isSome_iff_exists.mpr ⟨last, rest⟩⟩

theorem call_in_cons {event : Event} {events : List Event} {out : Option Return}
    (did : act x event = some (x', out)) (quiet : returnOf pid out = false) :
    callIn pid (event :: events) x = ((callIn pid events x').1, (callIn pid events x').2 +
      if stepOf pid event && unlinks x event then 1 else 0) := by
  rw [callIn]
  simp [did, quiet]

theorem call_in_returns {event : Event} {events : List Event} {out : Option Return}
    (did : act x event = some (x', out)) (returns : returnOf pid out = true) :
    callIn pid (event :: events) x = (true, 0) := by
  rw [callIn]
  simp [did, returns]

theorem call_in_none {event : Event} {events : List Event} (none_ : act x event = none) :
    callIn pid (event :: events) x = (false, 0) := by
  rw [callIn]
  simp [none_]

/-- The walk begins at the buffer of the call. -/
theorem turn_ends (called : x.calls pid = some ⟨.read blk, .cleanup p p data, since, earlier⟩) :
    ∃ x' out, act x (.step pid) = some (x', out) ∧ returnOf pid out = true := by
  refine ⟨x.setCall pid none, some ⟨pid, ⟨.read blk, .cleanup p p data, since, earlier⟩,
    .read data⟩, ?_, ?_⟩
  · simp [act, proceeds, called, cleanupTurn]
  · simp [returnOf]

/-- The walk begins at another buffer. -/
theorem turn_repeats (differ : c ≠ p)
    (called : x.calls pid = some ⟨.read blk, .cleanup c p data, since, earlier⟩) :
    ∃ x', act x (.step pid) = some (x', none) ∧
      x'.calls pid = some ⟨.read blk, .cleanup c p data, since, earlier⟩ := by
  by_cases older : (x.rds.buff c).rdBlknum = blk
  · refine ⟨{ x with rds := pushFree (unlinkNode x.rds p) p }, ?_, called⟩
    simp [act, proceeds, called, cleanupTurn, differ, older]
  · refine ⟨x, ?_, called⟩
    simp [act, proceeds, called, cleanupTurn, differ, older]

theorem loop_ends (called : x.calls pid = some ⟨.read blk, .cleanup p p data, since, earlier⟩)
    (events : List Event) :
    (callIn pid events x).2 = 0 ∧ ((runs anything events x).isSome = true →
      1 ≤ events.countP (stepOf pid) → (callIn pid events x).1 = true) := by
  induction events generalizing x with
  | nil => exact ⟨rfl, fun _ few => absurd few (by simp)⟩
  | cons event rest induction =>
      cases own : stepOf pid event with
      | true =>
          obtain rfl : event = .step pid := by
            cases event <;> simp_all [stepOf]
          obtain ⟨y, out, did, returns⟩ := turn_ends called
          rw [call_in_returns did returns]
          exact ⟨rfl, fun _ _ => rfl⟩
      | false =>
          cases did : act x event with
          | none =>
              rw [call_in_none did]
              refine ⟨rfl, fun run => ?_⟩
              obtain ⟨y, out, did', -⟩ := runs_cons run
              rw [did] at did'
              cases did'
          | some after =>
              obtain ⟨kept, quiet⟩ := stays called own did
              obtain ⟨once, ends⟩ := induction kept
              rw [call_in_cons did quiet, once, own]
              refine ⟨rfl, fun run enough => ?_⟩
              obtain ⟨y, out, did', further⟩ := runs_cons run
              rw [did] at did'
              cases did'
              rw [List.countP_cons_of_neg (by simp [own])] at enough
              exact ends further enough

theorem loop_stays (differ : c ≠ p)
    (called : x.calls pid = some ⟨.read blk, .cleanup c p data, since, earlier⟩)
    (events : List Event) : (callIn pid events x).1 = false := by
  induction events generalizing x with
  | nil => rfl
  | cons event rest induction =>
      cases own : stepOf pid event with
      | true =>
          obtain rfl : event = .step pid := by
            cases event <;> simp_all [stepOf]
          obtain ⟨y, did, kept⟩ := turn_repeats differ called
          rw [call_in_cons did rfl]
          exact induction kept
      | false =>
          cases did : act x event with
          | none => rw [call_in_none did]
          | some after =>
              obtain ⟨kept, quiet⟩ := stays called own did
              rw [call_in_cons did quiet]
              exact induction kept

/-- The process can go on with its loop for as long as it likes. -/
theorem loop_runs (differ : c ≠ p)
    (called : x.calls pid = some ⟨.read blk, .cleanup c p data, since, earlier⟩) (turns : Nat) :
    (runs anything (List.replicate turns (.step pid)) x).isSome = true := by
  induction turns generalizing x with
  | zero => rfl
  | succ turns induction =>
      obtain ⟨y, did, kept⟩ := turn_repeats differ called
      rw [List.replicate_succ, runs_eq, did]
      exact induction kept

end Loop

section Results

variable {x : Machine} {pid : Int} {blk : Nat} {p : Ptr} {cache : List Ptr}

theorem first_cached (resumes : Resumes x pid blk p cache) :
    cache.head? = some (x.rds.rdNext .chnext) := by
  obtain ⟨queue, free, linked⟩ := resumes.lists
  have first := (links_between linked.cached).2.1
  have member := resumes.member
  cases cache with
  | nil => cases member
  | cons q rest => exact congrArg some first.symm

/-- `rdsread` copies the block, and begins the loop where nobody else reads the buffer. -/
theorem resume_step (resumes : Resumes x pid blk p cache) :
    (1 < (x.rds.buff p).rdRefcnt ∧
      ∃ x' out, act x (.step pid) = some (x', out) ∧ returnOf pid out = true) ∨
    ((x.rds.buff p).rdRefcnt ≤ 1 ∧
      ∃ x' since earlier, act x (.step pid) = some (x', none) ∧ unlinks x (.step pid) = false ∧
        x'.calls pid = some ⟨.read blk, .cleanup (x.rds.rdNext .chnext) p (x.rds.buff p).rdBlock,
          since, earlier⟩) := by
  obtain ⟨b, since, earlier, called⟩ := resumes.called
  obtain ⟨queue, free, linked⟩ := resumes.lists
  obtain ⟨i, rfl⟩ := linked.buffers p (by simp [resumes.member])
  have did : act x (.step pid) =
      some (receives x pid ⟨.read blk, .receive b, since, earlier⟩ (.buffer i)) := by
    simp [act, proceeds, called, resumes.mail]
  unfold receives at did
  dsimp only at did
  rw [if_neg (by simp)] at did
  by_cases shared : 1 < (x.rds.buff (.buffer i)).rdRefcnt
  · rw [if_neg (by simp [Machine.recvclr, Rdscblk.set]; omega)] at did
    exact .inl ⟨shared, _, _, did, by simp [returnOf]⟩
  · rw [if_pos (by simp [Machine.recvclr, Rdscblk.set]; omega)] at did
    refine .inr ⟨by omega, _, since, earlier, did, by simp [unlinks, called], ?_⟩
    simp [Machine.setCall, Machine.recvclr, Rdscblk.set]

theorem finishes_iff (resumes : Resumes x pid blk p cache) :
    Finishes x pid ↔ cache.head? = some p ∨ 1 < (x.rds.buff p).rdRefcnt := by
  rw [first_cached resumes]
  rcases resume_step resumes with ⟨shared, y, out, did, returns⟩ |
    ⟨alone, y, since, earlier, did, keeps, kept⟩
  · refine iff_of_true ⟨⟨0, fun events _ _ => ?_⟩, fun events => ?_⟩ (.inr shared)
    · rw [call_in_returns did returns]
    · rw [call_in_returns did returns]
      exact Nat.zero_le 1
  · have resumed : ∀ events, callIn pid (.step pid :: events) x = callIn pid events y := by
      intro events
      rw [call_in_cons did rfl, keeps, Bool.and_false]
      rfl
    constructor
    · intro finishes
      by_contra never
      rw [not_or] at never
      have differ : x.rds.rdNext .chnext ≠ p := fun same => never.1 (congrArg some same)
      obtain ⟨turns, ends⟩ := finishes.ends
      have returned := ends (List.replicate turns (.step pid))
        (by
          rw [runs_eq, did]
          exact loop_runs differ kept turns)
        (by simp [List.countP_replicate, stepOf])
      rw [resumed, loop_stays differ kept] at returned
      cases returned
    · rintro (first | shared)
      · rw [Option.some.inj first] at kept
        refine ⟨⟨1, fun events run enough => ?_⟩, fun events => ?_⟩
        · rw [resumed]
          obtain ⟨z, out, did', further⟩ := runs_cons run
          rw [did] at did'
          cases did'
          exact (loop_ends kept events).2 further enough
        · rw [resumed, (loop_ends kept events).1]
          exact Nat.zero_le 1
      · omega

/-- The call ends, and has moved its buffer at most once, exactly when the buffer is the first in the
cache as the process resumes, or is read by others too. -/
theorem rdsread_ends_iff (x : Machine) (pid : Int) (blk : Nat) (p : Ptr) (cache : List Ptr)
    (resumes : Resumes x pid blk p cache) :
    Finishes x pid ↔ cache.head? = some p ∨ 1 < (x.rds.buff p).rdRefcnt :=
  finishes_iff resumes

/-- The block that a process reads, and the notice that it has. -/
def noticed (x : Machine) (pid : Int) : Option (Nat × Ptr) :=
  match x.calls pid, x.mail pid with
  | some ⟨.read blk, .receive _, _, _⟩, some p => some (blk, p)
  | _, _ => none

/-- Steps of the driver's own calls that keep the lists. -/
def tidy (x : Machine) (event : Event) : Bool := orderly x event && ofDriver x event

theorem tidy_reaches (reached : Reaches tidy x) : Reaches ofDriver x := by
  induction reached with
  | start memory mail server => exact .start memory mail server
  | step before may done induction => exact .step induction (Bool.and_eq_true_iff.mp may).2 done

theorem resumes_of_run {events : List Event} (done : runs tidy events blank = some x)
    (has : noticed x pid = some (blk, p)) (cached : cacheOf x.rds = cache) (member : p ∈ cache) :
    Resumes x pid blk p cache := by
  obtain ⟨queue, cache', free, base, -⟩ := @kept tidy (fun _ _ _ _ => True)
    (fun _ _ _ _ _ may _ => (Bool.and_eq_true_iff.mp may).1) (fun _ _ _ => trivial)
    (fun _ _ _ _ _ _ _ _ _ _ _ _ _ _ => trivial) x (reaches_runs (.start _ _ _) done)
  have same : cache' = cache := by
    rw [← cached]
    exact (walks base.toConserved).2.1.symm
  subst same
  unfold noticed at has
  split at has
  · rename_i called mail
    cases has
    exact ⟨⟨_, _, _, called⟩, mail, ⟨queue, free, base.toLinked⟩, member⟩
  · cases has

/-- Process 1 reads block 5, and `rdsprocess` has sent it the notice. -/
def oneRead : List Event := [.call 1 (.read 5), .step 1, .driver, .driver, .driver, .driver]

theorem rdsread_ends_iff_read :
    ∃ x, Resumes x 1 5 (.buffer 0) [.buffer 0] ∧
      (Finishes x 1 ↔
        [Ptr.buffer 0].head? = some (.buffer 0) ∨ 1 < (x.rds.buff (.buffer 0)).rdRefcnt) := by
  have run : (runs tidy oneRead blank).map (fun x => (noticed x 1, cacheOf x.rds)) =
      some (some (5, .buffer 0), [.buffer 0]) := by
    decide +kernel
  obtain ⟨x, done, found⟩ := Option.map_eq_some_iff.mp run
  obtain ⟨has, cached⟩ := Prod.mk.inj found
  have resumes := resumes_of_run done has cached (List.mem_singleton.mpr rfl)
  exact ⟨x, resumes, rdsread_ends_iff x 1 5 _ _ resumes⟩

/-- Process 2 reads block 6, which is served before process 1 runs again. -/
def twoReads : List Event :=
  oneRead ++ [.driver, .driver, .call 2 (.read 6), .step 2, .driver, .driver, .driver]

theorem rdsread_does_not_end :
    ¬∀ x pid blk p cache, Reaches ofDriver x → Resumes x pid blk p cache → Finishes x pid := by
  intro always
  have run : (runs tidy twoReads blank).map (fun x =>
      (noticed x 1, cacheOf x.rds, (x.rds.buff (.buffer 0)).rdRefcnt)) =
        some (some (5, .buffer 0), [.buffer 1, .buffer 0], 1) := by
    decide +kernel
  obtain ⟨x, done, found⟩ := Option.map_eq_some_iff.mp run
  obtain ⟨has, found⟩ := Prod.mk.inj found
  obtain ⟨cached, count⟩ := Prod.mk.inj found
  have resumes := resumes_of_run done has cached
    (List.mem_cons_of_mem _ (List.mem_singleton.mpr rfl))
  have reached := tidy_reaches (reaches_runs (.start _ _ _) done)
  rcases (finishes_iff resumes).mp (always x 1 5 _ _ reached resumes) with first | shared
  · cases first
  · rw [count] at shared
    omega

end Results

end Xinu.Rds.Cleanup
