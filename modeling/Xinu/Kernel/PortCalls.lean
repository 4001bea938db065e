import Xinu.Kernel.PortMessages

/-!
# The calls that wait at a port

A call that begins, blocks in its `wait` or goes on behind it.
-/

namespace Xinu.Kernel.Ports

open Xinu.Kernel.State (word32)
open Xinu.Lib.Interleaving Xinu.Lib.Semaphores Xinu.Lib.SingleList

set_option autoImplicit false

section Waits

variable {x x' : Machine} {free : List Nat} {nodes rest : Fin nports → List Nat} {p : Fin nports}
  {side : Side} {sem : Semaphore Int} {entry : Ptentry} {pid : Int}

@[simp] theorem setSem_ptstate : (setSem side sem entry).ptstate = entry.ptstate := by
  cases side <;> rfl

@[simp] theorem setSem_ptmaxcnt : (setSem side sem entry).ptmaxcnt = entry.ptmaxcnt := by
  cases side <;> rfl

@[simp] theorem setSem_ptseq : (setSem side sem entry).ptseq = entry.ptseq := by
  cases side <;> rfl

@[simp] theorem setSem_pthead : (setSem side sem entry).pthead = entry.pthead := by
  cases side <;> rfl

@[simp] theorem setSem_pttail : (setSem side sem entry).pttail = entry.pttail := by
  cases side <;> rfl

@[simp] theorem setSem_epoch : (setSem side sem entry).epoch = entry.epoch := by
  cases side <;> rfl

@[simp] theorem setSem_size : (setSem side sem entry).size = entry.size := by
  cases side <;> rfl

theorem semOf_setSem (side' : Side) :
    semOf side' (setSem side sem entry) = if side' = side then sem else semOf side' entry := by
  cases side <;> cases side' <;> rfl

theorem setSem_same : setSem side (semOf side entry) entry = entry := by
  cases side <;> rfl

theorem setSem_alike : Alike entry (setSem side sem entry) := by
  cases side <;> exact ⟨rfl, rfl, rfl⟩

theorem wait_waiting : (waiting (sem.wait pid)).Perm (pid :: waiting sem) := by
  unfold waiting Semaphore.wait
  split_ifs
  · rw [List.append_assoc, List.singleton_append]
    exact List.perm_middle
  · rw [← List.append_assoc]
    exact List.perm_append_singleton pid _

theorem run_waiting (b : Int) : (waiting (sem.run pid)).count b =
    sem.queue.count b + (sem.passed.erase pid).count b :=
  List.count_append

theorem run_absent (absent : pid ∉ sem.passed) : sem.run pid = sem := by
  unfold Semaphore.run
  rw [List.erase_of_not_mem absent]

/-- A `wait` that does not block -/
theorem wait_run_waiting (granted : ¬sem.count - 1 < 0) :
    (waiting ((sem.wait pid).run pid)).Perm (waiting sem) := by
  rw [Semaphore.wait, if_neg granted]
  refine List.Perm.append_left _ (List.perm_iff_count.mpr fun b => ?_)
  change ((sem.passed ++ [pid]).erase pid).count b = sem.passed.count b
  by_cases same : b = pid
  · subst same
    simp
  · rw [List.count_erase_of_ne same, List.count_append, List.count_singleton]
    simp [Ne.symm same]

/-- What the port owes when a process is behind its `wait`. -/
def owes (side' : Side) (side : Side) (count : Nat) : Nat := if side = side' then count else 0

theorem owes_zero (side' : Side) (side : Side) : owes side' side 0 = 0 := ite_self 0

/-- A semaphore of a port is used. -/
theorem port_sem {list rest : List Nat} {count : Nat} (port : PortSound x p list rest 0 0)
    (changed : x'.porttab p = setSem side sem (x.porttab p)) (node : x'.node = x.node)
    (sent : x'.sent = x.sent) (gone : x'.gone = x.gone) (clearing : x'.clearing = x.clearing)
    (kept : (x.porttab p).ptstate ≠ .alloc → waiting (semOf side (x.porttab p)) = [] →
      sem = semOf side (x.porttab p))
    (level : (x.porttab p).ptstate = .alloc → (semOf side (x.porttab p)).Sound →
      sem.Sound ∧ sem.level + count = (semOf side (x.porttab p)).level) :
    PortSound x' p list rest (owes .senders side count) (owes .receivers side count) := by
  have next : x'.next = x.next := by
    funext a
    rw [Machine.next, node, Machine.next]
  obtain ⟨ends, order, inside, whole, bounded, senders, receivers, small, idle, limbo, clears⟩ :=
    port
  refine ⟨?_, ?_, inside, ?_, ?_, fun alloc => ?_, fun alloc => ?_, ?_, fun isFree => ?_, ?_,
    fun clearing' cleared => ?_⟩
  · simp only [changed, setSem_ptstate, setSem_pthead, setSem_pttail, next]
    exact ends
  · rw [sent, gone, node]
    exact order
  · simp only [changed, setSem_ptstate]
    exact whole
  · simp only [changed, setSem_size]
    exact bounded
  · rw [changed, setSem_ptstate] at alloc
    have before := senders alloc
    have after := level alloc
    rw [changed]
    cases side with
    | senders =>
        obtain ⟨still, less⟩ := after before.1
        refine ⟨still, ?_⟩
        have same : (semOf .senders (x.porttab p)).level = (x.porttab p).ptssem.level := rfl
        simp only [setSem, owes, if_true]
        omega
    | receivers => exact before
  · rw [changed, setSem_ptstate] at alloc
    have before := receivers alloc
    have after := level alloc
    rw [changed]
    cases side with
    | senders => exact before
    | receivers =>
        obtain ⟨still, less⟩ := after before.1
        refine ⟨still, ?_⟩
        have same : (semOf .receivers (x.porttab p)).level = (x.porttab p).ptrsem.level := rfl
        simp only [setSem, owes, if_true]
        omega
  · simp only [changed, setSem_ptstate, setSem_ptmaxcnt, setSem_size]
    exact small
  · rw [changed, setSem_ptstate] at isFree
    obtain ⟨none, nobody⟩ := idle isFree
    have same := kept (by rw [isFree]; decide) (nobody side)
    rw [changed, same, setSem_same]
    exact ⟨none, nobody⟩
  · rw [changed, setSem_ptstate, clearing]
    exact limbo
  · rw [clearing] at cleared
    obtain ⟨state, newstate, walks, emptied, done⟩ := clears clearing' cleared
    have out : (x.porttab p).ptstate ≠ .alloc := by rw [state]; decide
    refine ⟨?_, newstate, walks, fun behind => ?_, fun last => ?_⟩
    · rw [changed, setSem_ptstate]
      exact state
    · obtain ⟨none, gone, nobody, reset⟩ := emptied behind
      rw [changed]
      cases side with
      | senders =>
          rw [kept out nobody, setSem_same]
          exact ⟨none, gone, nobody, reset⟩
      | receivers => exact ⟨none, gone, nobody, reset⟩
    · rw [changed]
      cases side with
      | senders => exact done last
      | receivers =>
          rw [kept out (by rw [semOf, done last]; rfl), setSem_same]
          exact done last

end Waits

section Callers

variable {x : Machine} {p : Fin nports} {side : Side} {sem : Semaphore Int} {pid : Int}
  {calling : Calling}

theorem update_waiting (q : Fin nports) (side' : Side) :
    waiting (semOf side' (Function.update x.porttab p (setSem side sem (x.porttab p)) q)) =
      if q = p ∧ side' = side then waiting sem else waiting (semOf side' (x.porttab q)) := by
  by_cases same : q = p
  · subst same
    rw [Function.update_self, semOf_setSem]
    split_ifs with first second
    · rfl
    · simp_all
    · simp_all
    · rfl
  · rw [Function.update_of_ne same, if_neg (by simp [same])]

theorem waits_same {q : Fin nports} {side' : Side} (sound : CallsSound x)
    (called : x.calls pid = some calling) (member : pid ∈ waiting (semOf side' (x.porttab q))) :
    q = calling.portid ∧ side' = calling.request.side := by
  obtain ⟨other, called', call⟩ := sound.waits q side' pid member
  obtain rfl := Option.some.inj (called.symm.trans called')
  exact ⟨call.port.symm, call.side.symm⟩

/-- A process blocks in its `wait`. -/
theorem calls_blocks (sound : CallsSound x) (idle : x.calls pid = none)
    (alloc : (x.porttab p).ptstate = .alloc) (request : Request) :
    CallsSound ((x.setEntry p (setSem request.side ((semOf request.side (x.porttab p)).wait pid)
      (x.porttab p))).setCall pid
        (some ⟨p, request, (x.porttab p).ptseq, (x.porttab p).epoch⟩)) := by
  have alike : ∀ q, Alike (x.porttab q) (Function.update x.porttab p (setSem request.side
      ((semOf request.side (x.porttab p)).wait pid) (x.porttab p)) q) := update_alike setSem_alike
  have nowhere : ∀ q side, pid ∉ waiting (semOf side (x.porttab q)) := fun q side member => by
    obtain ⟨calling, called, -⟩ := sound.waits q side pid member
    rw [idle] at called
    cases called
  refine ⟨fun q side b member => ?_, fun b member => ?_, fun b calling called => ?_⟩
  · simp only [Machine.setCall, Machine.setEntry, update_waiting] at member ⊢
    by_cases same : b = pid
    · subst same
      rw [Function.update_self]
      split_ifs at member with here
      · obtain ⟨rfl, rfl⟩ := here
        refine ⟨_, rfl, rfl, rfl, fun _ => ?_, fun out => ?_⟩
        · simp only [Function.update_self, setSem_ptseq, setSem_epoch, and_self]
        · simp only [Function.update_self, setSem_ptstate] at out
          exact absurd alloc out
      · exact absurd member (nowhere q side)
    · rw [Function.update_of_ne same]
      have before : b ∈ waiting (semOf side (x.porttab q)) := by
        split_ifs at member with here
        · obtain ⟨rfl, rfl⟩ := here
          exact (List.mem_cons.mp (wait_waiting.mem_iff.mp member)).resolve_left same
        · exact member
      obtain ⟨calling, called, call⟩ := sound.waits q side b before
      exact ⟨calling, called, callSound_alike call (alike q)⟩
  · obtain ⟨calling, called, older⟩ := sound.stale b member
    have differ : b ≠ pid := by
      rintro rfl
      rw [idle] at called
      cases called
    refine ⟨calling, ?_, ?_⟩
    · simp only [Machine.setCall, Machine.setEntry, Function.update_of_ne differ, called]
    · simp only [Machine.setCall, Machine.setEntry, (alike _).2.2]
      exact older
  · simp only [Machine.setCall, Machine.setEntry, update_waiting] at called ⊢
    by_cases same : b = pid
    · subst same
      rw [Function.update_self] at called
      cases called
      have unreleased : b ∉ x.released := fun member => by
        obtain ⟨calling, called, -⟩ := sound.stale b member
        rw [idle] at called
        cases called
      rw [if_pos ⟨rfl, rfl⟩, wait_waiting.count_eq, List.count_cons_self,
        List.count_eq_zero_of_not_mem unreleased, List.count_eq_zero_of_not_mem (nowhere _ _)]
    · rw [Function.update_of_ne same] at called
      have place := sound.places b calling called
      split_ifs with here
      · rw [wait_waiting.count_eq, List.count_cons_of_ne (Ne.symm same)]
        rw [here.1, here.2] at place
        exact place
      · exact place

theorem calls_leaves (sound : CallsSound x) (called : x.calls pid = some calling)
    (ready : pid ∈ x.released ∨
      pid ∈ (semOf calling.request.side (x.porttab calling.portid)).passed) :
    CallsSound (leaves x pid calling) := by
  have alike : ∀ q, Alike (x.porttab q) (Function.update x.porttab calling.portid
      (setSem calling.request.side ((semOf calling.request.side
        (x.porttab calling.portid)).run pid) (x.porttab calling.portid)) q) :=
    update_alike setSem_alike
  have place := sound.places pid calling called
  rw [waiting, List.count_append] at place
  have left : (x.released.erase pid).count pid = 0 ∧ (waiting ((semOf calling.request.side
      (x.porttab calling.portid)).run pid)).count pid = 0 := by
    rw [run_waiting, List.count_erase_self, List.count_erase_self]
    rcases ready with member | member
    · have one := List.count_pos_iff.mpr member
      omega
    · have one := List.count_pos_iff.mpr member
      omega
  have others : ∀ b ≠ pid, ∀ q side, (waiting (semOf side (Function.update x.porttab calling.portid
      (setSem calling.request.side ((semOf calling.request.side (x.porttab calling.portid)).run pid)
        (x.porttab calling.portid)) q))).count b =
        (waiting (semOf side (x.porttab q))).count b := by
    intro b differ q side
    rw [update_waiting]
    split_ifs with here
    · rw [run_waiting, List.count_erase_of_ne differ, here.1, here.2, waiting, List.count_append]
    · rfl
  have nowhere : ∀ q side, pid ∉ waiting (semOf side (Function.update x.porttab calling.portid
      (setSem calling.request.side ((semOf calling.request.side (x.porttab calling.portid)).run pid)
        (x.porttab calling.portid)) q)) := by
    intro q side member
    rw [update_waiting] at member
    split_ifs at member with here
    · exact List.count_eq_zero.mp left.2 member
    · exact here (waits_same sound called member)
  refine ⟨fun q side b member => ?_, fun b member => ?_, fun b other called' => ?_⟩
  · have differ : b ≠ pid := by
      rintro rfl
      exact nowhere q side member
    have before : b ∈ waiting (semOf side (x.porttab q)) := by
      rw [← List.count_pos_iff, ← others b differ q side, List.count_pos_iff]
      exact member
    obtain ⟨other, called', call⟩ := sound.waits q side b before
    refine ⟨other, ?_, callSound_alike call (alike q)⟩
    exact (Function.update_of_ne differ _ _).trans called'
  · have differ : b ≠ pid := by
      rintro rfl
      exact List.count_eq_zero.mp left.1 member
    obtain ⟨other, called', older⟩ := sound.stale b (List.mem_of_mem_erase member)
    refine ⟨other, (Function.update_of_ne differ _ _).trans called', ?_⟩
    simp only [leaves, Machine.setCall, Machine.setEntry, (alike _).2.2]
    exact older
  · have differ : b ≠ pid := by
      rintro rfl
      simp [leaves, Machine.setCall] at called'
    have before : x.calls b = some other := (Function.update_of_ne differ _ _).symm.trans called'
    have same := others b differ other.portid other.request.side
    simp only [leaves, Machine.setCall, Machine.setEntry, same, List.count_erase_of_ne differ]
    exact sound.places b other before

end Callers

section Calls

variable {x x' : Machine} {pid : Int} {request : Request} {p : Fin nports} {maxmsgs : Nat}

/-- A call that the port owes what it needs goes on. -/
theorem goesOn_sound {free : List Nat} {nodes rest : Fin nports → List Nat}
    {result : Machine × Reply} (sound : NodesSound x maxmsgs free nodes) (callers : CallsSound x)
    (others : ∀ q ≠ p, PortSound x q (nodes q) (rest q) 0 0)
    (port : PortSound x p (nodes p) (rest p) (owes .senders request.side 1)
      (owes .receivers request.side 1))
    (alloc : (x.porttab p).ptstate = .alloc) (did : goesOn x p request = some result) :
    Sound maxmsgs result.1 := by
  cases request with
  | send msg =>
      obtain ⟨y, sent, rfl⟩ := Option.map_eq_some_iff.mp did
      exact sends_sound sound callers others port alloc sent
  | recv =>
      obtain ⟨received, took, rfl⟩ := Option.map_eq_some_iff.mp did
      exact receives_sound sound callers others port alloc took

theorem begins_sound {reply : Option Reply} (sound : Sound maxmsgs x) (idle : x.calls pid = none)
    (did : beginsAt x p pid request = some (x', reply)) : Sound maxmsgs x' := by
  unfold beginsAt at did
  dsimp only at did
  split_ifs at did with closed blocks
  · cases did
    exact sound
  · obtain ⟨free, nodes, rest, listed, callers, ports⟩ := sound
    cases did
    have alloc := not_not.mp closed
    refine ⟨free, nodes, rest, ⟨listed.1, listed.2⟩, calls_blocks callers idle alloc request,
      fun q => ?_⟩
    by_cases same : q = p
    · subst same
      have owed : PortSound ((x.setEntry q (setSem request.side
        ((semOf request.side (x.porttab q)).wait pid) (x.porttab q))).setCall pid
          (some ⟨q, request, (x.porttab q).ptseq, (x.porttab q).epoch⟩)) q (nodes q) (rest q)
            (owes .senders request.side 0) (owes .receivers request.side 0) := port_sem (ports q) (Function.update_self _ _ _) rfl rfl rfl rfl
        (fun out => absurd alloc out)
        fun _ still => ⟨Semaphore.wait_sound pid still, by rw [Semaphore.wait_level]; simp⟩
      rw [owes_zero, owes_zero] at owed
      exact owed
    · exact port_frame (ports q) (Function.update_of_ne same _ _) (fun _ _ => rfl) rfl rfl rfl
  · obtain ⟨free, nodes, rest, listed, callers, ports⟩ := sound
    obtain ⟨result, went, same⟩ := Option.map_eq_some_iff.mp did
    cases same
    have alloc := not_not.mp closed
    have granted : (semOf request.side (x.porttab p)).count - 1 ≥ 0 := by omega
    refine goesOn_sound (x := x.setEntry p (setSem request.side
      (((semOf request.side (x.porttab p)).wait pid).run pid) (x.porttab p)))
      ⟨listed.1, listed.2⟩ (calls_frame callers rfl rfl (update_alike setSem_alike)
        (update_sems fun side => ?_)) (fun q differ => port_frame (ports q)
          (Function.update_of_ne differ _ _) (fun _ _ => rfl) rfl rfl rfl) (port_sem (ports p)
            (Function.update_self _ _ _) rfl rfl rfl rfl (fun out => absurd alloc out)
            fun _ still => ⟨?_, ?_⟩) ?_ went
    · rw [semOf_setSem]
      split_ifs with same
      · subst same
        exact wait_run_waiting blocks
      · exact .refl _
    · exact Semaphore.wait_sound pid still
    · have behind : pid ∈ ((semOf request.side (x.porttab p)).wait pid).passed := by
        rw [Semaphore.wait, if_neg blocks]
        exact List.mem_append_right _ List.mem_cons_self
      rw [Semaphore.run_level pid behind, Semaphore.wait_level]
      simp
    · simp [Machine.setEntry, alloc]

theorem proceeds_sound {reply : Option Reply} (sound : Sound maxmsgs x) (fresh : Fresh x pid)
    (did : proceeds x pid = some (x', reply)) : Sound maxmsgs x' := by
  obtain ⟨free, nodes, rest, listed, callers, ports⟩ := sound
  unfold proceeds at did
  obtain ⟨calling, called, did⟩ := Option.bind_eq_some_iff.mp did
  dsimp only at did
  have fresh := fresh calling called
  split_ifs at did with ready stale
  · cases did
    have unpassed : (x.porttab calling.portid).ptstate = .alloc →
        pid ∉ (semOf calling.request.side (x.porttab calling.portid)).passed := by
      intro alloc member
      obtain ⟨other, called', call⟩ := callers.waits calling.portid calling.request.side pid
        (List.mem_append_right _ member)
      obtain rfl := Option.some.inj (called.symm.trans called')
      exact (stale.resolve_left (not_not.mpr alloc)) (call.current alloc).1.symm
    refine ⟨free, nodes, rest, ⟨listed.1, listed.2⟩, calls_leaves callers called ready, fun q => ?_⟩
    by_cases same : q = calling.portid
    · subst same
      have owed : PortSound (leaves x pid calling) calling.portid (nodes calling.portid)
        (rest calling.portid) (owes .senders calling.request.side 0)
          (owes .receivers calling.request.side 0) := port_sem (ports calling.portid)
        (Function.update_self _ _ _) rfl rfl rfl rfl (fun _ nobody => run_absent fun member => ?_)
        fun alloc still => ?_
      · rw [owes_zero, owes_zero] at owed
        exact owed
      · have inside : pid ∈ waiting (semOf calling.request.side (x.porttab calling.portid)) :=
          List.mem_append_right _ member
        rw [nobody] at inside
        cases inside
      · rw [run_absent (unpassed alloc)]
        exact ⟨still, by simp⟩
    · exact port_frame (ports q) (Function.update_of_ne same _ _) (fun _ _ => rfl) rfl rfl rfl
  · obtain ⟨result, went, same⟩ := Option.map_eq_some_iff.mp did
    cases same
    obtain ⟨alloc, current⟩ := not_or.mp stale
    have alloc := not_not.mp alloc
    have behind : pid ∈ (semOf calling.request.side (x.porttab calling.portid)).passed := by
      refine ready.resolve_left fun released => ?_
      obtain ⟨other, called', older⟩ := callers.stale pid released
      obtain rfl := Option.some.inj (called.symm.trans called')
      have same := fresh alloc (not_not.mp current)
      omega
    refine goesOn_sound (x := leaves x pid calling)
      ⟨listed.1, listed.2⟩ (calls_leaves callers called ready)
      (fun q differ => port_frame (ports q) (Function.update_of_ne differ _ _) (fun _ _ => rfl) rfl
        rfl rfl) (port_sem (ports calling.portid) (Function.update_self _ _ _) rfl rfl rfl rfl
          (fun out => absurd alloc out) fun _ still => ⟨still, ?_⟩) ?_ went
    · rw [Semaphore.run_level pid behind]
      simp
    · simp [leaves, Machine.setCall, Machine.setEntry, alloc]

end Calls

end Xinu.Kernel.Ports
