import Xinu.Kernel.State
import Xinu.Lib.Interleaving
import Xinu.Lib.Ring
import Xinu.Lib.Semaphores

/-!
# The IP output queue

`ip_enqueue` puts packets into a ring that `ipout` empties, and takes the count of the semaphore for
the number of packets in it. While `ipout` has been released and has not run, there is one more.
-/

namespace Xinu.Net.Output

open Xinu.Kernel.State (sysErr ok)
open Xinu.Lib.Interleaving Xinu.Lib.Ring Xinu.Lib.Semaphores

set_option autoImplicit false

section Definitions

def ipOqsiz : Nat := 8

/-- The queue, with the packets that `ip_enqueue` has accepted and those that `ipout` has taken. A
packet is the address of its buffer, and `ipout` is the only process that waits. -/
structure Iqentry where
  iqhead : Nat
  iqtail : Nat
  iqsem : Semaphore Unit
  iqbuf : Nat → Nat
  accepted : List Nat
  taken : List Nat

def ipEnqueue (q : Iqentry) (pktptr : Nat) : Iqentry × Int :=
  if (ipOqsiz : Int) ≤ q.iqsem.count then (q, sysErr)
  else
    ({ iqhead := q.iqhead
       iqtail := advance ipOqsiz q.iqtail
       iqsem := q.iqsem.signal
       iqbuf := Function.update q.iqbuf q.iqtail pktptr
       accepted := q.accepted ++ [pktptr]
       taken := q.taken }, ok)

/-- `ipout` takes a packet behind its `wait`. -/
def ipoutTakes (q : Iqentry) : Iqentry :=
  { q with
    iqsem := q.iqsem.run ()
    iqhead := advance ipOqsiz q.iqhead
    taken := q.taken ++ [q.iqbuf q.iqhead] }

/-- `waits` is where `ipout` comes to its `wait`, with its last packet behind it. -/
inductive Event where
  | enqueue (pktptr : Nat)
  | waits
  | takes

def act (q : Iqentry) : Event → Option Iqentry
  | .enqueue pktptr => some (ipEnqueue q pktptr).1
  | .waits =>
      if q.iqsem.queue = [] ∧ q.iqsem.passed = [] then some { q with iqsem := q.iqsem.wait () }
      else none
  | .takes => if q.iqsem.passed = [] then none else some (ipoutTakes q)

/-- `net_init` -/
def started (iqbuf : Nat → Nat) : Iqentry where
  iqhead := 0
  iqtail := 0
  iqsem := { count := 0, queue := [], passed := [] }
  iqbuf := iqbuf
  accepted := []
  taken := []

def Started (q : Iqentry) : Prop := ∃ iqbuf, q = started iqbuf

/-- The count does not leave out the packet of an `ipout` that has not run. -/
def CountsAll (q : Iqentry) : Event → Prop
  | .enqueue _ => q.iqsem.count = ipOqsiz - 1 → q.iqsem.passed = []
  | _ => True

instance (q : Iqentry) : DecidablePred (CountsAll q) := fun event => by
  cases event <;> unfold CountsAll <;> infer_instance

/-- Every accepted packet has been taken, or is in the queue behind those. When `ipout` is blocked,
the queue is empty. -/
structure Delivers (q : Iqentry) : Prop where
  fifo : Fifo ipOqsiz q.iqbuf q.iqhead q.iqtail (q.accepted.length - q.taken.length) q.accepted
    q.taken
  blocked : q.iqsem.queue ≠ [] → q.accepted = q.taken

end Definitions

section Steps

variable {q q' : Iqentry}

structure Inv (q : Iqentry) (pending : Nat) : Prop where
  fifo : Fifo ipOqsiz q.iqbuf q.iqhead q.iqtail pending q.accepted q.taken
  sound : q.iqsem.Sound
  level : q.iqsem.level = pending
  lone : q.iqsem.passed = [] ∨ q.iqsem.passed = [()] ∧ q.iqsem.queue = []
  single : q.iqsem.queue.length ≤ 1

theorem inv_delivers {pending : Nat} (inv : Inv q pending) : Delivers q := by
  have lengths := inv.fifo.lengths
  have pendings : q.accepted.length - q.taken.length = pending := by omega
  refine ⟨?_, fun filled => ?_⟩
  · rw [pendings]
    exact inv.fifo
  · have none_passed : q.iqsem.passed = [] := inv.lone.resolve_right fun both => filled both.2
    have sound := inv.sound
    have level := inv.level
    have positive := List.length_pos_iff.mpr filled
    unfold Semaphore.Sound at sound
    unfold Semaphore.level at level
    rw [none_passed, List.length_nil] at level
    have empty : pending = 0 := by omega
    have order := inv.fifo.order
    rw [empty, elements_zero, List.append_nil] at order
    exact order

theorem enqueue_inv {pending pktptr : Nat} (inv : Inv q pending)
    (counts : CountsAll q (.enqueue pktptr)) :
    ∃ pending', Inv (ipEnqueue q pktptr).1 pending' := by
  unfold ipEnqueue
  split_ifs with full
  · exact ⟨pending, inv⟩
  · have room : pending < ipOqsiz := by
      have sound := inv.sound
      have level := inv.level
      have single := inv.single
      unfold Semaphore.Sound at sound
      unfold Semaphore.level at level
      simp only [CountsAll, ipOqsiz] at counts full ⊢
      rcases inv.lone with none_passed | ⟨passed, none_blocked⟩
      · rw [none_passed, List.length_nil] at level
        omega
      · rw [passed] at level counts
        rw [none_blocked] at level sound
        simp only [List.length_cons, List.length_nil, List.cons_ne_nil, imp_false] at level counts
        simp only [List.length_nil] at sound
        omega
    refine ⟨pending + 1, inv.fifo.push room pktptr, Semaphore.signal_sound inv.sound, ?_, ?_, ?_⟩
    · rw [Semaphore.signal_level inv.sound, inv.level]
      omega
    · have single := inv.single
      rcases inv.lone with none_passed | ⟨passed, none_blocked⟩
      · cases blocked : q.iqsem.queue with
        | nil => simp [Semaphore.signal, blocked, none_passed]
        | cons first rest =>
            rw [blocked, List.length_cons] at single
            have alone : rest = [] := List.length_eq_zero_iff.mp (by omega)
            unfold Semaphore.signal
            split_ifs <;> simp [blocked, none_passed, alone]
      · have sound := inv.sound
        unfold Semaphore.Sound at sound
        rw [none_blocked, List.length_nil] at sound
        have nonneg : ¬q.iqsem.count < 0 := by omega
        refine .inr ?_
        simp [Semaphore.signal, nonneg, passed, none_blocked]
    · have single := inv.single
      unfold Semaphore.signal
      split_ifs
      · simp only [List.length_tail]
        omega
      · exact single

theorem step_inv {pending : Nat} {event : Event} (inv : Inv q pending)
    (counts : CountsAll q event) (did : act q event = some q') : ∃ pending', Inv q' pending' := by
  cases event with
  | enqueue pktptr =>
      obtain rfl := Option.some.inj did
      exact enqueue_inv inv counts
  | waits =>
      simp only [act] at did
      split_ifs at did with outside
      obtain rfl := Option.some.inj did
      refine ⟨pending, inv.fifo, Semaphore.wait_sound _ inv.sound, ?_, ?_, ?_⟩
      · rw [Semaphore.wait_level, inv.level]
      · unfold Semaphore.wait
        split_ifs <;> simp [outside]
      · unfold Semaphore.wait
        split_ifs <;> simp [outside]
  | takes =>
      simp only [act] at did
      split_ifs at did with outside
      obtain rfl := Option.some.inj did
      obtain ⟨passed, none_blocked⟩ := inv.lone.resolve_left outside
      have level := @Semaphore.run_level _ q.iqsem () _ (by simp [passed])
      have sound := inv.sound
      have before := inv.level
      unfold Semaphore.Sound at sound
      unfold Semaphore.level at before
      rw [passed] at before
      rw [none_blocked] at before sound
      simp only [List.length_cons, List.length_nil] at before sound
      obtain ⟨rest, rfl⟩ : ∃ rest, pending = rest + 1 := ⟨pending - 1, by omega⟩
      refine ⟨rest, inv.fifo.pop, inv.sound, ?_, .inl ?_, inv.single⟩
      · rw [ipoutTakes, level, inv.level]
        omega
      · simp [ipoutTakes, Semaphore.run, passed]

theorem started_inv (iqbuf : Nat → Nat) : Inv (started iqbuf) 0 :=
  ⟨fifo_start (by decide), rfl, rfl, .inl rfl, Nat.zero_le _⟩

end Steps

section Results

/-- In a run in which the count of the semaphore never leaves out a packet when the queue is full,
the packets that are accepted are taken once and in order. -/
theorem packets_are_delivered {q : Iqentry} (run : Reached act Started CountsAll q) :
    Delivers q := by
  obtain ⟨pending, inv⟩ := @reached_invariant _ _ _ _ _ (fun q => ∃ pending, Inv q pending) q run
    (fun _ started => by
      obtain ⟨iqbuf, rfl⟩ := started
      exact ⟨0, started_inv iqbuf⟩)
    fun _ _ _ before counts did => by
      obtain ⟨pending, inv⟩ := before
      exact step_inv inv counts did
  exact inv_delivers inv

theorem packets_are_delivered_two :
    ∃ q, takeEvents act CountsAll [.waits, .enqueue 5, .enqueue 6, .takes] (started fun _ => 0) =
      some q ∧ Delivers q := by
  obtain ⟨q, took⟩ := Option.isSome_iff_exists.mp (show (takeEvents act CountsAll
    [.waits, .enqueue 5, .enqueue 6, .takes] (started fun _ => 0)).isSome = true by decide)
  exact ⟨q, took, packets_are_delivered (take_events (.start ⟨_, rfl⟩) took)⟩

/-- `ipout` is released by the first of nine packets and runs behind the last one. -/
theorem packet_is_overwritten :
    ¬∀ q, Reached act Started (fun _ _ => True) q → Delivers q := by
  intro always
  have taken : (takeEvents act (fun _ _ => True) [.waits, .enqueue 1, .enqueue 2, .enqueue 3,
      .enqueue 4, .enqueue 5, .enqueue 6, .enqueue 7, .enqueue 8, .enqueue 9, .takes]
      (started fun _ => 0)).map (fun q => (q.accepted, q.taken)) =
    some ([1, 2, 3, 4, 5, 6, 7, 8, 9], [9]) := by
    decide
  obtain ⟨q, took, lists⟩ := Option.map_eq_some_iff.mp taken
  have delivers := always q (take_events (.start ⟨_, rfl⟩) took)
  obtain ⟨accepted, first⟩ := Prod.mk.inj lists
  have order := delivers.fifo.order
  rw [accepted, first] at order
  cases order

end Results

end Xinu.Net.Output
