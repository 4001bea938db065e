import Xinu.Processes.Teardown
import Xinu.Replacement.FifoResults
import Xinu.Swap.Conservation

/-!
# Which kills do not disturb each other

While a `kill` is switched out, its victim keeps its slot, and the killer has still to
release the resources. As long as no other `kill` is aimed at that victim or at that killer,
every process is torn down once, and the process count is right as soon as no `kill` is in
progress.
-/

namespace Xinu.Processes.TeardownSafety

open Xinu.Kernel.State Xinu.Kernel.Semaphore Xinu.Kernel.Memory Xinu.Lib.Counting
open Xinu.Lib.StateError Xinu.Paging.BackingStore Xinu.Paging.Ipt Xinu.Paging.Process
open Xinu.Paging.System Xinu.Processes.KernelVariables Xinu.Processes.Steps
open Xinu.Processes.Teardown Xinu.Replacement.FifoResults Xinu.Swap.Ledger
open Xinu.Swap.Allocation Xinu.Swap.Conservation

set_option autoImplicit false

/-- The process in a slot. -/
def alive (ker : Ker) (i : Nat) : Bool := decide ((ker.proctab i).prstate ≠ .free)

/-- The slot has held this incarnation, and it is gone. -/
def GoneBy (x : Killers) (pid : Int) (n : Nat) : Prop :=
  1 ≤ n ∧ (n < x.born pid ∨ n = x.born pid ∧ (x.st.ker.proctab pid).prstate = .free)

instance (x : Killers) (pid : Int) (n : Nat) : Decidable (GoneBy x pid n) :=
  inferInstanceAs (Decidable (_ ∧ _))

/-- How often a resource has to have been released. -/
def due (x : Killers) (pid : Int) (n : Nat) : Nat := if GoneBy x pid n then 1 else 0

variable [Config]

/-- What holds of the processes in every state. A `kill` that is switched out is about the
process that was in the slot when it began. -/
structure TornDownOnce (x : Killers) : Prop where
  once : ∀ pid n resource, x.released.count (pid, n, resource) = due x pid n
  own : ∀ killing ∈ x.kills, killing.incarnation = x.born killing.victim ∧
    (x.st.ker.proctab killing.victim).prstate ≠ .free
  processes : x.kills = [] → x.st.ker.prcount = count nproc (alive x.st.ker)
  stores : x.kills = [] → x.st.ker.freeBsCount = count maxBsEntries (unallocated x.st.ker)

/-- A `kill` is not aimed at the victim or the caller of one that is in progress, and its
caller is not the victim of one. -/
def OneKiller (x : Killers) : Action → Prop
  | .kill pid => ∀ killing ∈ x.kills,
      pid ≠ killing.victim ∧ pid ≠ killing.killer ∧ x.st.ker.currpid ≠ killing.victim
  | _ => True

instance decideOneKiller (x : Killers) (action : Action) : Decidable (OneKiller x action) :=
  match action with
  | .kill _ => inferInstanceAs (Decidable (∀ killing ∈ x.kills, _))
  | .create _ _ | .vcreate _ _ _ | .receive | .resume _ | .resched _ | .proceed => isTrue trivial

/-- The machine has started and nothing has been killed. -/
structure Fresh (policy : Int) (x : Killers) : Prop where
  started : Started policy x.st
  processes : x.st.ker.prcount = count nproc (alive x.st.ker)
  kills : x.kills = []
  born : ∀ pid, x.born pid = 0
  released : x.released = []

structure Orderly (x : Killers) : Prop where
  stores : StoresKept x.st
  processes : x.st.ker.prcount + x.kills.length = count nproc (alive x.st.ker)
  own : ∀ killing ∈ x.kills, killing.incarnation = x.born killing.victim ∧
    (0 ≤ killing.victim ∧ killing.victim < nproc) ∧ killing.victim ≠ nullproc ∧
    (x.st.ker.proctab killing.victim).prstate ≠ .free
  distinct : (x.kills.map Killing.victim).Nodup
  callers : ∀ killing ∈ x.kills, ∀ other ∈ x.kills, killing ≠ other →
    killing.killer ≠ other.victim
  born : ∀ pid, pid ≠ nullproc → (x.st.ker.proctab pid).prstate ≠ .free → 1 ≤ x.born pid
  once : ∀ pid n resource, x.released.count (pid, n, resource) = due x pid n

variable {x y : Killers}

theorem orderly_safe (orderly : Orderly x) : TornDownOnce x := by
  refine ⟨orderly.once, ?_, ?_, fun _ => orderly.stores.counted⟩
  · intro killing member
    obtain ⟨same, _, _, living⟩ := orderly.own killing member
    exact ⟨same, living⟩
  · intro none
    have processes := orderly.processes
    rw [none, List.length_nil] at processes
    rw [← processes]
    exact (Int.add_zero _).symm

section Frame

/-- Only scheduling states of live processes have changed. -/
structure Steady (x y : Killers) : Prop where
  views : ∀ q, heapView (y.st.ker.proctab q) = heapView (x.st.ker.proctab q)
  table : y.st.ker.bstab = x.st.ker.bstab
  free : y.st.ker.freeBsCount = x.st.ker.freeBsCount
  server : y.st.ker.pageServerActive = x.st.ker.pageServerActive
  prcount : y.st.ker.prcount = x.st.ker.prcount
  kills : y.kills = x.kills
  born : y.born = x.born
  released : y.released = x.released

omit [Config] in
theorem free_of_view {ker after : Ker} {q : Int}
    (same : heapView (after.proctab q) = heapView (ker.proctab q)) :
    (after.proctab q).prstate = .free ↔ (ker.proctab q).prstate = .free := by
  have first := congrArg Prod.fst same
  simpa only [heapView, decide_eq_decide] using first

theorem orderly_steady (orderly : Orderly x) (steady : Steady x y) : Orderly y := by
  have free : ∀ q, (y.st.ker.proctab q).prstate = .free ↔ (x.st.ker.proctab q).prstate = .free :=
    fun q => free_of_view (steady.views q)
  refine ⟨kept_of_views orderly.stores steady.views steady.table steady.free steady.server,
    ?_, ?_, ?_, ?_, ?_, ?_⟩
  · have same : count nproc (alive y.st.ker) = count nproc (alive x.st.ker) :=
      count_congr fun i _ => by simp only [alive, ne_eq, free]
    rw [steady.prcount, steady.kills, orderly.processes, same]
  · rw [steady.kills, steady.born]
    intro killing member
    obtain ⟨same, range, user, living⟩ := orderly.own killing member
    exact ⟨same, range, user, fun dead => living ((free _).mp dead)⟩
  · rw [steady.kills]
    exact orderly.distinct
  · rw [steady.kills]
    exact orderly.callers
  · rw [steady.born]
    intro pid user living
    exact orderly.born pid user fun dead => living ((free pid).mpr dead)
  · intro pid n resource
    rw [steady.released, orderly.once]
    unfold due
    apply if_congr _ rfl rfl
    unfold GoneBy
    rw [steady.born, free]

end Frame

section Entering

/-- A process has been put into a slot that was free. -/
structure Entered (pid : Int) (x : Killers) (st : St) : Prop where
  slot : IsFree x.st pid
  stores : StoresKept st
  living : (st.ker.proctab pid).prstate ≠ .free
  others : ∀ q, q ≠ pid → st.ker.proctab q = x.st.ker.proctab q
  prcount : st.ker.prcount = x.st.ker.prcount + 1

theorem orderly_enter {pid : Int} {st : St} (orderly : Orderly x) (entered : Entered pid x st) :
    Orderly (x.enter pid st) := by
  obtain ⟨lower, upper, free⟩ := entered.slot
  have other : ∀ killing ∈ x.kills, killing.victim ≠ pid := by
    intro killing member same
    exact (orderly.own killing member).2.2.2 (same ▸ free)
  have slots : count nproc (alive st.ker) = count nproc (alive x.st.ker) + 1 := by
    have inside : pid.toNat < nproc := by omega
    apply count_set inside
    · simp [alive, Int.toNat_of_nonneg lower, free]
    · simp [alive, Int.toNat_of_nonneg lower, entered.living]
    · intro i _ different
      have notPid : (i : Int) ≠ pid := by omega
      simp only [alive, entered.others i notPid]
  refine ⟨entered.stores, ?_, ?_, orderly.distinct, orderly.callers, ?_, ?_⟩
  · change st.ker.prcount + x.kills.length = count nproc (alive st.ker)
    have before := orderly.processes
    rw [entered.prcount, slots]
    push_cast
    omega
  · intro killing member
    obtain ⟨same, range, user, living⟩ := orderly.own killing member
    have different := other killing member
    refine ⟨?_, range, user, ?_⟩
    · simpa [Killers.enter, Function.update_of_ne different] using same
    · change (st.ker.proctab killing.victim).prstate ≠ .free
      rw [entered.others _ different]
      exact living
  · intro q user living
    by_cases here : q = pid
    · subst here
      simp [Killers.enter]
    · change (st.ker.proctab q).prstate ≠ .free at living
      rw [entered.others q here] at living
      simpa [Killers.enter, Function.update_of_ne here] using orderly.born q user living
  · intro q n resource
    change x.released.count (q, n, resource) = due (x.enter pid st) q n
    rw [orderly.once]
    unfold due
    apply if_congr _ rfl rfl
    unfold GoneBy
    by_cases here : q = pid
    · subst here
      have living := entered.living
      simp only [Killers.enter, Function.update_self, free, and_true]
      simp only [living, and_false, or_false]
      omega
    · simp only [Killers.enter, Function.update_of_ne here, entered.others q here]

end Entering

section Leaving

theorem take_down_inv {pid : Int} {s final : St} (ran : takeDown pid s = .ok () final) :
    TakenDown pid s final := by
  unfold takeDown at ran
  rw [get_bind] at ran
  obtain ⟨code, memlist, stack⟩ := freestk_returned s (s.ker.proctab pid).prstkbase
    (s.ker.proctab pid).prstklen
  rw [bind_ok stack] at ran
  obtain ⟨_, freed, framesRan, ran⟩ := bind_ok_inv ran
  obtain ⟨code, stored, storesRan, ran⟩ := bind_ok_inv ran
  cases ran
  have returned := free_proc_bs_status storesRan
  subst returned
  exact ⟨memlist, freed, stored, framesRan, storesRan, rfl⟩

omit [Config] in
/-- Each resource of the process is released. -/
theorem count_released (pid q : Int) (m n : Nat) (resource : Resource)
    (released : List (Int × Nat × Resource)) :
    List.count (q, n, resource) ((pid, m, .stores) :: (pid, m, .frames) :: (pid, m, .stack) ::
      released) = released.count (q, n, resource) + if q = pid ∧ n = m then 1 else 0 := by
  by_cases here : q = pid ∧ n = m
  · obtain ⟨rfl, rfl⟩ := here
    cases resource <;> simp
  · have different : ∀ other, ¬((pid, m, other) == (q, n, resource)) = true := by
      intro other same
      obtain ⟨rfl, rfl, rfl⟩ := Prod.mk.injEq .. ▸ Prod.mk.injEq .. ▸ (beq_iff_eq.mp same)
      exact here ⟨rfl, rfl⟩
    simp only [List.count_cons, different, here, if_false, Bool.false_eq_true, Nat.add_zero]

/-- The second piece of a `kill` tears its victim down. -/
theorem proceed_kept {killing : Killing} (orderly : Orderly x) (member : killing ∈ x.kills)
    (did : Killers.release { x with kills := x.kills.erase killing } killing.victim = some y) :
    Orderly y := by
  obtain ⟨_, range, user, living⟩ := orderly.own killing member
  have victims := (List.perm_cons_erase member).map Killing.victim
  have once : (x.kills.erase killing).Nodup :=
    (orderly.distinct.of_map _).erase killing
  have distinct : ∀ other ∈ x.kills.erase killing, other ∈ x.kills ∧
      other.victim ≠ killing.victim ∧ other.killer ≠ killing.victim := by
    intro other inRest
    have before := List.mem_of_mem_erase inRest
    have different : other ≠ killing := by
      rintro rfl
      exact (orderly.distinct.of_map _).not_mem_erase inRest
    have nodup := victims.nodup_iff.mp orderly.distinct
    rw [List.map_cons, List.nodup_cons] at nodup
    refine ⟨before, ?_, orderly.callers other before killing member different⟩
    intro same
    exact nodup.1 (same ▸ List.mem_map_of_mem inRest)
  have length : (x.kills.erase killing).length + 1 = x.kills.length :=
    List.length_erase_add_one member
  unfold Killers.release at did
  split at did
  · rename_i down ran
    cases did
    obtain ⟨finalKept, left, ker, procs, _, prcount, _, same⟩ :=
      taken_down_kept orderly.stores living (take_down_inv ran)
    have stays : (x.kills.erase killing).filter (fun other => other.killer != killing.victim) =
        x.kills.erase killing := by
      rw [List.filter_eq_self]
      intro other inRest
      simpa using (distinct other inRest).2.2
    have gone : count nproc (alive down.ker) + 1 = count nproc (alive x.st.ker) := by
      have inside : killing.victim.toNat < nproc := by omega
      apply count_clear inside
      · simp [alive, Int.toNat_of_nonneg range.1, living]
      · simp [alive, Int.toNat_of_nonneg range.1, left.dead]
      · intro i _ different
        have notVictim : (i : Int) ≠ killing.victim := by omega
        simp only [alive, left.others i notVictim]
    have samePrcount : down.ker.prcount = x.st.ker.prcount := by
      rw [same, retire_ker]
      exact prcount
    refine ⟨finalKept, ?_, ?_, ?_, ?_, ?_, ?_⟩
    · dsimp only
      have before := orderly.processes
      rw [stays, samePrcount]
      omega
    · dsimp only
      rw [stays]
      intro other inRest
      obtain ⟨before, notVictim, _⟩ := distinct other inRest
      obtain ⟨equal, bounds, isUser, stillThere⟩ := orderly.own other before
      refine ⟨equal, bounds, isUser, ?_⟩
      rw [left.others _ notVictim]
      exact stillThere
    · dsimp only
      rw [stays]
      exact orderly.distinct.sublist (List.erase_sublist.map _)
    · dsimp only
      rw [stays]
      intro left inLeft right inRight
      exact orderly.callers left (List.mem_of_mem_erase inLeft) right
        (List.mem_of_mem_erase inRight)
    · intro q isUser stillThere
      dsimp only at stillThere ⊢
      by_cases here : q = killing.victim
      · rw [here, left.dead] at stillThere
        exact absurd rfl stillThere
      · rw [left.others q here] at stillThere
        exact orderly.born q isUser stillThere
    · intro q n resource
      have more := count_released killing.victim q (x.born killing.victim) n resource x.released
      dsimp only
      rw [more, orderly.once]
      have first := orderly.born killing.victim user living
      unfold due GoneBy
      dsimp only
      by_cases here : q = killing.victim
      · subst here
        simp only [left.dead, living, and_true, and_false, or_false, true_and]
        by_cases current : n = x.born killing.victim
        · simp [current, first]
        · simp [current]
      · rw [if_neg fun same => here same.1, Nat.add_zero]
        exact if_congr (by rw [left.others q here]) rfl rfl
  · cases did

/-- `send` reaches live processes only. -/
theorem steady_send (x : Killers) (pid msg : Int) : Steady x (x.send pid msg).1 := by
  unfold Killers.send
  split
  · exact ⟨fun _ => rfl, rfl, rfl, rfl, rfl, rfl, rfl, rfl⟩
  · split
    · rename_i waiting
      refine ⟨fun q => ?_, rfl, rfl, rfl, rfl, rfl, rfl, rfl⟩
      by_cases here : q = pid
      · subst here
        rcases waiting with state | state <;> simp [heapView, ready, Ker.setProc, state]
      · simp [ready, Ker.setProc, Function.update_of_ne here]
    · exact ⟨fun _ => rfl, rfl, rfl, rfl, rfl, rfl, rfl, rfl⟩

theorem kill_kept {pid : Int} (orderly : Orderly x) (one : OneKiller x (.kill pid))
    (did : x.kill pid = some y) : Orderly y := by
  unfold Killers.kill at did
  split at did
  · cases did
    exact orderly
  rename_i accepted
  have good := not_bad fun bad => accepted (Or.inl bad)
  have user : pid ≠ nullproc := fun null => accepted (Or.inr null)
  dsimp only at did
  split at did
  · cases did
  let killing : Killing :=
    { killer := x.st.ker.currpid, victim := pid, incarnation := x.born pid }
  have opened : Orderly { x with
      st := { x.st with ker := { x.st.ker with prcount := x.st.ker.prcount - 1 } }
      kills := killing :: x.kills } := by
    refine ⟨kept_of_ker orderly.stores rfl rfl rfl rfl, ?_, ?_, ?_, ?_, orderly.born, orderly.once⟩
    · change x.st.ker.prcount - 1 + ((x.kills.length + 1 : Nat) : Int) =
        count nproc (alive x.st.ker)
      have before := orderly.processes
      omega
    · intro other member
      rcases List.mem_cons.mp member with rfl | before
      · exact ⟨rfl, ⟨good.1, good.2.1⟩, user, good.2.2⟩
      · exact orderly.own other before
    · refine List.nodup_cons.mpr ⟨?_, orderly.distinct⟩
      intro member
      obtain ⟨other, before, same⟩ := List.mem_map.mp member
      exact (one other before).1 same.symm
    · intro left inLeft right inRight different
      rcases List.mem_cons.mp inLeft with rfl | leftBefore
      · rcases List.mem_cons.mp inRight with rfl | rightBefore
        · exact absurd rfl different
        · exact (one right rightBefore).2.2
      · rcases List.mem_cons.mp inRight with rfl | rightBefore
        · exact fun same => (one left leftBefore).2.1 same.symm
        · exact orderly.callers left leftBefore right rightBefore different
  have sent := steady_send { x with
      st := { x.st with ker := { x.st.ker with prcount := x.st.ker.prcount - 1 } } }
    (x.mail pid).prparent pid
  generalize Killers.send { x with
      st := { x.st with ker := { x.st.ker with prcount := x.st.ker.prcount - 1 } } }
    (x.mail pid).prparent pid = result at did sent
  obtain ⟨told, woken⟩ := result
  have pending : Orderly { told with kills := killing :: told.kills } := by
    refine orderly_steady opened ⟨sent.views, sent.table, sent.free, sent.server, sent.prcount, ?_,
      sent.born, sent.released⟩
    exact congrArg (killing :: ·) sent.kills
  dsimp only at did
  split at did
  · cases did
    exact pending
  · refine proceed_kept pending List.mem_cons_self ?_
    dsimp only
    rw [List.erase_cons_head]
    exact did

end Leaving

section Steps

omit [Config] in
theorem steady_scheduled {st : St}
    (procs : ∀ q, ∃ state, st.ker.proctab q = { x.st.ker.proctab q with prstate := state } ∧
      Reschedules (x.st.ker.proctab q).prstate state)
    (rest : st.ker = { x.st.ker with
      proctab := st.ker.proctab, currpid := st.ker.currpid }) : Steady x { x with st := st } := by
  refine ⟨?_, ?_, ?_, ?_, ?_, rfl, rfl, rfl⟩
  · intro q
    obtain ⟨state, same, alive⟩ := procs q
    exact view_rescheduled same alive
  all_goals
    dsimp only
    rw [rest]

theorem entered_created {pid : Int} {memlist : MemList} {nextpid : Int} {saddr size : Nat}
    (orderly : Orderly x) (slot : IsFree x.st pid) :
    Entered pid x { x.st with
      ker := createdKer (entered x.st.ker memlist nextpid x.st.ker.vcreateNextpid) pid saddr
        size } := by
  refine ⟨slot, created_kept orderly.stores slot, ?_, ?_, rfl⟩
  · simp [createdKer, Ker.setProc]
  · intro q other
    simp [createdKer, entered, reserved, Ker.setProc, Function.update_of_ne other]

theorem entered_vcreated {pid : Int} {hsize : Nat} {made : St} (orderly : Orderly x)
    (vcreated : Vcreated pid hsize x.st made) : Entered pid x made := by
  obtain ⟨kept, joined, prcount, _⟩ := vcreated_kept orderly.stores vcreated
  refine ⟨vcreated.slot, kept, ?_, joined.others, prcount⟩
  rw [joined.alive]
  decide

/-- The ID of a new process is not `SYSERR`. -/
theorem status_of_slot {pid : Int} (slot : IsFree x.st pid) : pid ≠ sysErr := by
  have lower := slot.1
  rw [sysErr]
  omega

theorem act_kept {action : Action} (orderly : Orderly x) (one : OneKiller x action)
    (did : act x action = some y) : Orderly y := by
  cases action with
  | create ssize priority =>
      simp only [act] at did
      split at did
      · cases did
      split at did
      · rename_i pid made ran
        cases did
        obtain ⟨status, middle, createRan, performed⟩ := bind_ok_inv (exec_performed ran)
        cases performed
        rcases create_returned createRan with ⟨rfl, memlist, nextpid, rfl⟩ | ⟨_, slot, memlist,
          nextpid, saddr, size, rfl⟩
        · rw [if_pos rfl]
          exact orderly_steady orderly ⟨fun _ => rfl, rfl, rfl, rfl, rfl, rfl, rfl, rfl⟩
        · rw [if_neg (status_of_slot slot)]
          exact orderly_enter orderly (entered_created orderly slot)
      · cases did
  | vcreate ssize hsize priority =>
      simp only [act] at did
      split at did
      · cases did
      split at did
      · rename_i pid made ran
        cases did
        obtain ⟨status, middle, createRan, performed⟩ := bind_ok_inv (exec_performed ran)
        cases performed
        rcases vcreate_returned createRan with ⟨rfl, memlist, nextpid, hand, rfl⟩ | vcreated
        · rw [if_pos rfl]
          exact orderly_steady orderly ⟨fun _ => rfl, rfl, rfl, rfl, rfl, rfl, rfl, rfl⟩
        · rw [if_neg (status_of_slot vcreated.slot)]
          exact orderly_enter orderly (entered_vcreated orderly vcreated)
      · cases did
  | kill pid =>
      simp only [act] at did
      split at did
      · cases did
      · exact kill_kept orderly one did
  | receive =>
      simp only [act] at did
      split at did
      · cases did
      rename_i idle
      have running : Running x.st := by
        by_contra stopped
        exact idle (Or.inr stopped)
      rw [Running] at running
      split at did
      · cases did
        exact orderly_steady orderly ⟨fun _ => rfl, rfl, rfl, rfl, rfl, rfl, rfl, rfl⟩
      · cases did
        refine orderly_steady orderly ⟨fun q => ?_, rfl, rfl, rfl, rfl, rfl, rfl, rfl⟩
        by_cases here : q = x.st.ker.currpid
        · simp [heapView, Ker.setProc, here, running]
        · simp [heapView, Ker.setProc, Function.update_of_ne here]
  | resume pid =>
      simp only [act] at did
      split at did
      · cases did
      split at did
      · rename_i reply resumed ran
        cases did
        cases exec_did ran with
        | resumed pid suspended =>
            exact orderly_steady orderly (steady_scheduled (resumed_proc suspended) rfl)
        | refused _ _ memlist createNext vcreateNext hand =>
            exact orderly_steady orderly ⟨fun _ => rfl, rfl, rfl, rfl, rfl, rfl, rfl, rfl⟩
      · cases did
  | resched pid =>
      simp only [act] at did
      split at did
      · rename_i reply switched ran
        cases did
        cases exec_did ran with
        | switched pid target =>
            exact orderly_steady orderly
              (steady_scheduled (switched_proc target.2.2) (switched_ker _ _))
        | refused _ _ memlist createNext vcreateNext hand =>
            exact orderly_steady orderly ⟨fun _ => rfl, rfl, rfl, rfl, rfl, rfl, rfl, rfl⟩
      · cases did
  | proceed =>
      simp only [act] at did
      split at did
      · obtain ⟨killing, found, did⟩ := Option.bind_eq_some_iff.mp did
        exact proceed_kept orderly (List.mem_of_find?_eq_some found) did
      · cases did

end Steps

section Results

variable {policy : Int}

theorem started_free {s : St} (started : Started policy s) {pid : Int} (user : pid ≠ nullproc) :
    (s.ker.proctab pid).prstate = .free := by
  obtain ⟨⟨before, on, status, ran⟩, _⟩ := started
  obtain ⟨_, paged, initRan, ran⟩ := bind_ok_inv ran
  obtain ⟨gpt, dpt, gpd, pd, ker⟩ := initialize_paging_ker initRan
  rw [srpolicy_returned ran]
  dsimp only
  rw [ker]
  simpa [Ker.setSem, Ker.setProc, Function.update_of_ne user] using on.others pid user

theorem fresh_orderly (fresh : Fresh policy x) : Orderly x := by
  have free : ∀ pid, pid ≠ nullproc → (x.st.ker.proctab pid).prstate = .free :=
    fun pid user => started_free fresh.started user
  refine ⟨started_kept fresh.started, ?_, ?_, ?_, ?_, ?_, ?_⟩
  · rw [fresh.kills, List.length_nil, fresh.processes]
    exact Int.add_zero _
  · intro killing member
    rw [fresh.kills] at member
    cases member
  · rw [fresh.kills]
    exact List.nodup_nil
  · intro killing member
    rw [fresh.kills] at member
    cases member
  · intro pid user living
    exact absurd (free pid user) living
  · intro pid n resource
    have never : ¬GoneBy x pid n := by
      rintro ⟨some, before⟩
      rw [fresh.born pid] at before
      omega
    rw [fresh.released, due, if_neg never]
    rfl

theorem interleaved_orderly (run : Interleaved (Fresh policy) OneKiller x) : Orderly x := by
  induction run with
  | start fresh => exact fresh_orderly fresh
  | step _ one did induction => exact act_kept induction one did

/-- Every process is torn down once as long as kills keep clear of each other. -/
theorem torn_down_once_when_one_killer (run : Interleaved (Fresh policy) OneKiller x) :
    TornDownOnce x := orderly_safe (interleaved_orderly run)

end Results

section Example

def freshState : Killers :=
  { st := bootedState
    mail := fun _ => { prparent := 0, prhasmsg := false, prmsg := 0 }
    kills := []
    born := fun _ => 0
    released := [] }

omit [Config] in
theorem fresh_state : @Fresh twelve fifo freshState := by
  refine @Fresh.mk twelve fifo freshState ?_ ?_ rfl (fun _ => rfl) rfl
  · dsimp only [freshState]
    exact booted_started
  · decide +kernel

/-- The state after actions that can be taken. -/
def afterKills (allowed : Killers → Action → Prop) [∀ x action, Decidable (allowed x action)]
    (actions : List Action) : Killers :=
  (@runActions twelve allowed _ actions freshState).getD freshState

omit [Config] in
theorem after_kills {allowed : Killers → Action → Prop}
    [∀ x action, Decidable (allowed x action)] {actions : List Action}
    (ran : (@runActions twelve allowed _ actions freshState).isSome = true) :
    @Interleaved twelve (@Fresh twelve fifo) allowed (afterKills allowed actions) := by
  obtain ⟨y, same⟩ := Option.isSome_iff_exists.mp ran
  rw [afterKills, same]
  exact @run_actions twelve _ _ _ _ _ _ (@Interleaved.start twelve _ _ _ fresh_state) same

/-- Process 1 has made process 2, and waits for a message while process 3 runs. -/
def parentWaits : List Action :=
  [.create 1024 20, .resume 1, .resched 1, .vcreate 1024 201 20, .vcreate 1024 1 20, .resume 2,
    .resume 3, .receive, .resched 3]

/-- Process 3 is switched out in the middle of its `kill` of process 2, and process 1 makes
two more processes before it goes on. -/
def oneKill : List Action :=
  parentWaits ++ [.kill 2, .resched 1, .receive, .create 1024 20, .vcreate 1024 1 20, .resched 3,
    .proceed]

omit [Config] in
theorem torn_down_once_after_one_kill :
    (afterKills OneKiller oneKill).released.length = 3 ∧
      @TornDownOnce twelve (afterKills OneKiller oneKill) :=
  ⟨by decide +kernel, @torn_down_once_when_one_killer twelve _ _
    (@after_kills _ decideOneKiller _ (by decide +kernel))⟩

/-- In the meantime process 1 kills process 2 as well. -/
def twoKills : List Action :=
  parentWaits ++ [.kill 2, .resched 1, .receive, .kill 2, .resched 3, .proceed]

omit [Config] in
theorem torn_down_twice : ∃ x, @Interleaved twelve (@Fresh twelve fifo) (fun _ _ => True) x ∧
    ¬@TornDownOnce twelve x := by
  refine ⟨afterKills (fun _ _ => True) twoKills, after_kills (by decide +kernel), ?_⟩
  intro safe
  have twice : (afterKills (fun _ _ => True) twoKills).released.count (2, 1, .stack) = 2 := by
    decide +kernel
  rw [@TornDownOnce.once twelve _ safe, due] at twice
  split at twice <;> cases twice

end Example

end Xinu.Processes.TeardownSafety
