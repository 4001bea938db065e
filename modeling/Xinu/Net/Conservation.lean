import Xinu.Net.Buffers
import Mathlib.Algebra.BigOperators.Fin
import Mathlib.Algebra.Order.Group.Multiset
import Mathlib.Tactic.Abel

/-!
# Conservation of network buffers

Every buffer of the pool is in it or in the hands of one owner. What a call does is followed with the
buffers that it has in its hands, which it has to put into a queue or give back.
-/

namespace Xinu.Net.Conservation

open Xinu.Lib.Interleaving Xinu.Lib.Ring
open Xinu.Net.Buffers

set_option autoImplicit false

section Definitions

def udpHeld (u : Udp.Udpentry) : List Nat :=
  (elements Udp.udpQsiz u.udqueue u.udhead u.udcount.toNat).map (·.buffer)

def icmpHeld (e : Icmp.Icmpentry) : List Nat :=
  (elements Icmp.icmpQsiz e.icqueue (e.ichead % Icmp.icmpQsiz) e.iccount.toNat).map (·.buffer)

def outHeld (q : Output.Iqentry) : List Nat :=
  elements Output.ipOqsiz q.iqbuf q.iqhead (q.accepted.length - q.taken.length)

/-- The buffers in the pool and those of all owners, a buffer as often as it is in one of the
places -/
def holders (m : Machine) : Multiset Nat :=
  m.free + m.reading.toList + (∑ slot, (udpHeld (m.udptab slot) : Multiset Nat)) +
    (∑ slot, (icmpHeld (m.icmptab slot) : Multiset Nat)) + outHeld m.ipoqueue +
      (m.resolving.map Prod.snd : List Nat)

/-- Every buffer of the pool is in exactly one place, and no queue has more than its size. -/
structure Conserved (m : Machine) : Prop where
  once : holders m = Multiset.range nbufs
  udp : ∀ slot, (m.udptab slot).udcount ≤ Udp.udpQsiz
  icmp : ∀ slot, (m.icmptab slot).iccount ≤ Icmp.icmpQsiz
  out : m.ipoqueue.accepted.length - m.ipoqueue.taken.length ≤ Output.ipOqsiz

def UdpKept (u : Udp.Udpentry) : Prop :=
  (∃ arrived left, Udp.IsQueue u arrived left) ∧ (u.udstate = .free → u.udcount = 0)

def IcmpKept (e : Icmp.Icmpentry) : Prop :=
  (∃ arrived left, Icmp.IsQueue e arrived left) ∧ (e.icstate = .free → e.iccount = 0)

/-- All buffers are accounted for when a call has some of them in its hands. -/
structure Owns (m : Machine) (hand : Multiset Nat) : Prop where
  all : holders m + hand = Multiset.range nbufs
  udp : ∀ slot, UdpKept (m.udptab slot)
  icmp : ∀ slot, IcmpKept (m.icmptab slot)
  out : ∃ pending, Output.Inv m.ipoqueue pending

end Definitions

section Queues

variable {u : Udp.Udpentry} {e : Icmp.Icmpentry} {q q' : Output.Iqentry} {pending : Nat}

theorem udp_enqueue (kept : UdpKept u) (room : u.udcount < Udp.udpQsiz) (used : u.udstate ≠ .free)
    (pkt : Udp.Netpacket) :
    UdpKept (Udp.enqueue u pkt) ∧ udpHeld (Udp.enqueue u pkt) = udpHeld u ++ [pkt.buffer] := by
  obtain ⟨⟨arrived, left, queue⟩, _⟩ := kept
  have next := Udp.enqueue_queue queue room pkt
  have order := next.order
  rw [queue.order, List.append_assoc] at order
  have same := List.append_cancel_left order
  refine ⟨⟨⟨_, _, next⟩, fun free => ?_⟩, ?_⟩
  · unfold Udp.enqueue at free
    dsimp only at free
    split_ifs at free
    exact (used free).elim
  · unfold udpHeld
    rw [← same, List.map_append]
    rfl

theorem udp_dequeue (kept : UdpKept u) (some_left : 0 < u.udcount) (used : u.udstate ≠ .free) :
    UdpKept (Udp.dequeue u).2 ∧
      udpHeld u = (Udp.dequeue u).1.buffer :: udpHeld (Udp.dequeue u).2 := by
  obtain ⟨⟨arrived, left, queue⟩, _⟩ := kept
  have next := @Udp.dequeue_queue u arrived left queue some_left (.released (Udp.dequeue u).1) rfl
  have order := next.order
  rw [queue.order, List.map_append, List.append_assoc] at order
  have same := List.append_cancel_left order
  refine ⟨⟨⟨_, _, next⟩, fun free => (used free).elim⟩, ?_⟩
  unfold udpHeld
  rw [same]
  rfl

theorem udp_drain (kept : UdpKept u) :
    UdpKept { (Udp.drainQueue u.udcount.toNat u).2 with udstate := .free } ∧
      udpHeld { (Udp.drainQueue u.udcount.toNat u).2 with udstate := .free } = [] ∧
        udpHeld u = (Udp.drainQueue u.udcount.toNat u).1.map (·.buffer) := by
  obtain ⟨⟨arrived, left, queue⟩, _⟩ := kept
  obtain ⟨next, none⟩ := Udp.drain_queue u.udcount.toNat queue (Nat.le_refl _)
  have order := next.order
  rw [none, Int.toNat_zero, elements_zero, List.append_nil, queue.order, List.map_append,
    List.map_map] at order
  have same := List.append_cancel_left order
  refine ⟨⟨⟨_, _, next.same rfl rfl rfl rfl⟩, fun _ => none⟩, ?_, ?_⟩
  · unfold udpHeld
    dsimp only
    rw [none]
    rfl
  · unfold udpHeld
    rw [same, List.map_map]
    rfl

theorem icmp_enqueue (kept : IcmpKept e) (room : e.iccount < Icmp.icmpQsiz)
    (used : e.icstate ≠ .free) (pkt : Icmp.Netpacket) :
    IcmpKept (Icmp.enqueue e pkt) ∧ icmpHeld (Icmp.enqueue e pkt) = icmpHeld e ++ [pkt.buffer] := by
  obtain ⟨⟨arrived, left, queue⟩, _⟩ := kept
  have next := Icmp.enqueue_queue queue room pkt
  have order := next.fifo.order
  rw [queue.fifo.order, List.append_assoc] at order
  have same := List.append_cancel_left order
  refine ⟨⟨⟨_, _, next⟩, fun free => ?_⟩, ?_⟩
  · unfold Icmp.enqueue at free
    dsimp only at free
    split_ifs at free
    exact (used free).elim
  · unfold icmpHeld
    rw [← same, List.map_append]
    rfl

theorem icmp_dequeue (kept : IcmpKept e) (some_left : 0 < e.iccount)
    (here : e.ichead < Icmp.icmpQsiz) (used : e.icstate ≠ .free) :
    IcmpKept (Icmp.dequeue e).2 ∧
      icmpHeld e = (Icmp.dequeue e).1.buffer :: icmpHeld (Icmp.dequeue e).2 := by
  obtain ⟨⟨arrived, left, queue⟩, _⟩ := kept
  have next := @Icmp.dequeue_queue e arrived left queue some_left here
    (.released (Icmp.dequeue e).1) rfl
  have order := next.fifo.order
  rw [queue.fifo.order, List.map_append, List.append_assoc] at order
  have same := List.append_cancel_left order
  refine ⟨⟨⟨_, _, next⟩, fun free => (used free).elim⟩, ?_⟩
  unfold icmpHeld
  rw [same]
  rfl

theorem icmp_drain (kept : IcmpKept e) (here : e.ichead + e.iccount ≤ Icmp.icmpQsiz) :
    IcmpKept { (Icmp.drainQueue e.iccount.toNat e).2 with icstate := .free } ∧
      icmpHeld { (Icmp.drainQueue e.iccount.toNat e).2 with icstate := .free } = [] ∧
        icmpHeld e = (Icmp.drainQueue e.iccount.toNat e).1.map (·.buffer) := by
  obtain ⟨⟨arrived, left, queue⟩, _⟩ := kept
  obtain ⟨next, none⟩ := Icmp.drain_queue e.iccount.toNat queue (Nat.le_refl _) here
  have order := next.fifo.order
  rw [none, Int.toNat_zero, elements_zero, List.append_nil, queue.fifo.order, List.map_append,
    List.map_map] at order
  have same := List.append_cancel_left order
  refine ⟨⟨⟨_, _, next.same rfl rfl rfl rfl⟩, fun _ => none⟩, ?_, ?_⟩
  · unfold icmpHeld
    dsimp only
    rw [none]
    rfl
  · unfold icmpHeld
    rw [same, List.map_map]
    rfl

theorem out_order (inv : Output.Inv q pending) : q.accepted = q.taken ++ outHeld q := by
  have lengths := inv.fifo.lengths
  have count : q.accepted.length - q.taken.length = pending := by omega
  unfold outHeld
  rw [count]
  exact inv.fifo.order

end Queues

section Hands

variable {m m' : Machine} {hand hand' : Multiset Nat} {b : Nat}

theorem sum_update {ι α : Type} [Fintype ι] [DecidableEq ι] (held : α → Multiset Nat) (tab : ι → α)
    (slot : ι) (u : α) :
    (∑ i, held (Function.update tab slot u i)) + held (tab slot) = (∑ i, held (tab i)) + held u := by
  have others : ∑ i ∈ Finset.univ.erase slot, held (Function.update tab slot u i) =
      ∑ i ∈ Finset.univ.erase slot, held (tab i) :=
    Finset.sum_congr rfl fun i member => by
      rw [Function.update_of_ne (Finset.ne_of_mem_erase member)]
  rw [← Finset.add_sum_erase _ _ (Finset.mem_univ slot),
    ← Finset.add_sum_erase _ (fun i => held (tab i)) (Finset.mem_univ slot), others,
    Function.update_self]
  abel

/-- Nothing changes that has a buffer. -/
theorem Owns.same (owns : Owns m hand) (free : m'.free = m.free) (reading : m'.reading = m.reading)
    (udptab : m'.udptab = m.udptab) (icmptab : m'.icmptab = m.icmptab)
    (ipoqueue : m'.ipoqueue = m.ipoqueue) (resolving : m'.resolving = m.resolving) :
    Owns m' hand := by
  have same : holders m' = holders m := by
    unfold holders
    rw [free, reading, udptab, icmptab, ipoqueue, resolving]
  refine ⟨same ▸ owns.all, ?_, ?_, ?_⟩
  · rw [udptab]
    exact owns.udp
  · rw [icmptab]
    exact owns.icmp
  · rw [ipoqueue]
    exact owns.out

theorem freebuf_owns (owns : Owns m ({b} + hand)) : Owns (freebuf m b) hand := by
  refine ⟨?_, owns.udp, owns.icmp, owns.out⟩
  have more : holders (freebuf m b) = {b} + holders m := by
    unfold holders freebuf
    dsimp only
    rw [← Multiset.cons_coe, ← Multiset.singleton_add]
    abel
  rw [more, ← owns.all]
  abel

theorem getbuf_owns (owns : Owns m hand) (got : getbuf m = some (b, m')) :
    Owns m' ({b} + hand) ∧ m' = { m with free := m'.free } := by
  unfold getbuf at got
  split at got
  · cases got
  · rename_i first rest pool
    obtain ⟨rfl, rfl⟩ := Prod.mk.inj (Option.some.inj got)
    refine ⟨⟨?_, owns.udp, owns.icmp, owns.out⟩, rfl⟩
    have fewer : holders m = {first} + holders { m with free := rest } := by
      unfold holders
      rw [pool, ← Multiset.cons_coe, ← Multiset.singleton_add]
      abel
    rw [← owns.all, fewer]
    abel

/-- What an owner takes from the hands of a call stays accounted for, whatever the others have. -/
theorem exchange {others before after old new : Multiset Nat} (sums : after + old = before + new)
    (moved : new + hand' = old + hand) :
    others + after + hand' = others + before + hand := by
  refine add_right_cancel (b := old) ?_
  calc
    others + after + hand' + old = others + (after + old) + hand' := by abel
    _ = others + before + (new + hand') := by
      rw [sums]
      abel
    _ = others + before + hand + old := by
      rw [moved]
      abel

/-- An endpoint takes a buffer, or gives one into the hands of the call. -/
theorem set_udp_owns {slot : Fin Udp.udpSlots} {u : Udp.Udpentry} (owns : Owns m hand)
    (kept : UdpKept u)
    (moved : (udpHeld u : Multiset Nat) + hand' = (udpHeld (m.udptab slot) : Multiset Nat) + hand) :
    Owns (setUdp m slot u) hand' := by
  refine ⟨?_, fun i => ?_, owns.icmp, owns.out⟩
  · have sums := sum_update (fun u => (udpHeld u : Multiset Nat)) m.udptab slot u
    have same := @exchange hand hand' (m.free + m.reading.toList +
      (∑ slot, (icmpHeld (m.icmptab slot) : Multiset Nat)) + outHeld m.ipoqueue +
        (m.resolving.map Prod.snd : List Nat)) _ _ _ _ sums moved
    rw [← owns.all]
    unfold holders setUdp
    dsimp only
    calc
      _ = _ := by abel
      _ = _ := same
      _ = _ := by abel
  · change UdpKept (Function.update m.udptab slot u i)
    by_cases here : i = slot
    · rw [here, Function.update_self]
      exact kept
    · rw [Function.update_of_ne here]
      exact owns.udp i

theorem set_icmp_owns {slot : Fin Icmp.icmpSlots} {e : Icmp.Icmpentry} (owns : Owns m hand)
    (kept : IcmpKept e)
    (moved : (icmpHeld e : Multiset Nat) + hand' =
      (icmpHeld (m.icmptab slot) : Multiset Nat) + hand) :
    Owns (setIcmp m slot e) hand' := by
  refine ⟨?_, owns.udp, fun i => ?_, owns.out⟩
  · have sums := sum_update (fun e => (icmpHeld e : Multiset Nat)) m.icmptab slot e
    have same := @exchange hand hand' (m.free + m.reading.toList +
      (∑ slot, (udpHeld (m.udptab slot) : Multiset Nat)) + outHeld m.ipoqueue +
        (m.resolving.map Prod.snd : List Nat)) _ _ _ _ sums moved
    rw [← owns.all]
    unfold holders setIcmp
    dsimp only
    calc
      _ = _ := by abel
      _ = _ := same
      _ = _ := by abel
  · change IcmpKept (Function.update m.icmptab slot e i)
    by_cases here : i = slot
    · rw [here, Function.update_self]
      exact kept
    · rw [Function.update_of_ne here]
      exact owns.icmp i

theorem set_out_owns {q : Output.Iqentry} (owns : Owns m hand)
    (inv : ∃ pending, Output.Inv q pending)
    (moved : (outHeld q : Multiset Nat) + hand' = (outHeld m.ipoqueue : Multiset Nat) + hand) :
    Owns { m with ipoqueue := q } hand' := by
  refine ⟨?_, owns.udp, owns.icmp, inv⟩
  rw [← owns.all]
  unfold holders
  dsimp only
  calc
    _ = m.free + m.reading.toList + (∑ slot, (udpHeld (m.udptab slot) : Multiset Nat)) +
        (∑ slot, (icmpHeld (m.icmptab slot) : Multiset Nat)) +
          (m.resolving.map Prod.snd : List Nat) + (outHeld q + hand') := by abel
    _ = _ := by
      rw [moved]
      abel

/-- A process waits with its packet. -/
theorem held_owns {pid : Int} (owns : Owns m ({b} + hand)) :
    Owns { m with resolving := m.resolving ++ [(pid, b)] } hand := by
  refine ⟨?_, owns.udp, owns.icmp, owns.out⟩
  rw [← owns.all]
  unfold holders
  dsimp only
  rw [List.map_append, ← Multiset.coe_add, List.map_singleton, Multiset.coe_singleton]
  abel

/-- A process goes on with its packet. -/
theorem unheld_owns {pid : Int} (owns : Owns m hand) (member : (pid, b) ∈ m.resolving) :
    Owns { m with resolving := m.resolving.erase (pid, b) } ({b} + hand) := by
  refine ⟨?_, owns.udp, owns.icmp, owns.out⟩
  have perm := (List.perm_cons_erase member).map Prod.snd
  have same : (m.resolving.map Prod.snd : Multiset Nat) =
      {b} + ((m.resolving.erase (pid, b)).map Prod.snd : List Nat) := by
    rw [Multiset.coe_eq_coe.mpr perm, List.map_cons, ← Multiset.cons_coe,
      ← Multiset.singleton_add]
  rw [← owns.all]
  unfold holders
  dsimp only
  rw [same]
  abel

theorem send_owns (owns : Owns m hand) (pid : Int) (msg : Nat) : Owns (send m pid msg) hand := by
  unfold send
  split_ifs
  · exact owns
  · exact owns.same rfl rfl rfl rfl rfl rfl

theorem free_all_owns {buffers : List Nat} (owns : Owns m (buffers + hand)) :
    Owns (freeAll m buffers) hand := by
  induction buffers generalizing m with
  | nil =>
      rw [Multiset.coe_nil, zero_add] at owns
      exact owns
  | cons first rest induction =>
      rw [← Multiset.cons_coe, ← Multiset.singleton_add, add_assoc] at owns
      exact induction (freebuf_owns owns)

end Hands

section Delivery

variable {m m' : Machine} {hand : Multiset Nat} {b : Nat}

/-- A buffer goes behind those of a queue. -/
theorem moved_in (held : List Nat) (b : Nat) (hand : Multiset Nat) :
    ((held ++ [b] : List Nat) : Multiset Nat) + hand = held + ({b} + hand) := by
  rw [← Multiset.coe_add, Multiset.coe_singleton, add_assoc]

/-- The first buffer of a queue is taken. -/
theorem moved_out (held : List Nat) (b : Nat) (hand : Multiset Nat) :
    (held : Multiset Nat) + ({b} + hand) = ((b :: held : List Nat) : Multiset Nat) + hand := by
  rw [← Multiset.cons_coe, ← Multiset.singleton_add]
  abel

theorem udp_in_owns (owns : Owns m ({b} + hand)) : Owns (udpIn m b) hand := by
  unfold udpIn
  dsimp only
  split
  · exact freebuf_owns owns
  · rename_i slot found
    have hit : Udp.matchesPacket (m.udptab slot) ((m.packet b).toUdp b) ∧
        (m.udptab slot).udcount < Udp.udpQsiz := by
      simpa using List.find?_some found
    obtain ⟨kept, held⟩ := udp_enqueue (owns.udp slot) hit.2 hit.1.1 ((m.packet b).toUdp b)
    have queued := @set_udp_owns m _ hand slot _ owns kept (by
      rw [held]
      exact moved_in _ b hand)
    split_ifs
    · exact send_owns queued _ _
    · exact queued

theorem ip_enqueue_owns (owns : Owns m ({b} + hand))
    (counts : Output.CountsAll m.ipoqueue (.enqueue b)) : Owns (ipEnqueue m b) hand := by
  obtain ⟨pending, inv⟩ := owns.out
  have after := Output.enqueue_inv inv counts
  unfold ipEnqueue
  dsimp only
  split_ifs with full
  · exact freebuf_owns owns
  · have stored : ¬(Output.ipOqsiz : Int) ≤ m.ipoqueue.iqsem.count := fun large =>
      full (by rw [Output.ipEnqueue, if_pos large])
    obtain ⟨pending', inv'⟩ := after
    have order := out_order inv'
    have accepted : (Output.ipEnqueue m.ipoqueue b).1.accepted = m.ipoqueue.accepted ++ [b] := by
      rw [Output.ipEnqueue, if_neg stored]
    have taken : (Output.ipEnqueue m.ipoqueue b).1.taken = m.ipoqueue.taken := by
      rw [Output.ipEnqueue, if_neg stored]
    rw [accepted, taken, out_order inv, List.append_assoc] at order
    refine @set_out_owns m _ hand _ owns ⟨pending', inv'⟩ ?_
    rw [← List.append_cancel_left order]
    exact moved_in _ b hand

theorem icmp_accepts_used {pkt : Packet} {slot : Fin Icmp.icmpSlots}
    (accepted : icmpAccepts m pkt = some slot) : (m.icmptab slot).icstate ≠ .free := by
  unfold icmpAccepts at accepted
  dsimp only at accepted
  split_ifs at accepted with inside other
  obtain rfl := Option.some.inj accepted
  exact fun free => other (.inl free)

theorem icmp_in_owns (owns : Owns m ({b} + hand))
    (room : FindsRoom m (m.packet b)) (icmp : (m.packet b).netIpproto = Frames.ipIcmp)
    (did : icmpIn m b = some m') : Owns m' hand := by
  obtain ⟨request, reply⟩ := room icmp
  unfold icmpIn at did
  dsimp only at did
  split_ifs at did with other echo
  · obtain rfl := Option.some.inj did
    exact freebuf_owns owns
  · obtain ⟨⟨replypkt, made⟩, making, rfl⟩ := Option.map_eq_some_iff.mp did
    obtain ⟨⟨first, got⟩, getting, same⟩ := Option.map_eq_some_iff.mp making
    obtain ⟨rfl, rfl⟩ := Prod.mk.inj same
    obtain ⟨holds, frame⟩ := getbuf_owns owns getting
    have queue : got.ipoqueue = m.ipoqueue := by rw [frame]
    refine freebuf_owns (ip_enqueue_owns (holds.same rfl rfl rfl rfl rfl rfl) ?_)
    change Output.CountsAll got.ipoqueue (.enqueue first)
    rw [queue]
    exact request echo
  · split at did
    · obtain rfl := Option.some.inj did
      exact freebuf_owns owns
    · rename_i slot accepted
      obtain rfl := Option.some.inj did
      have type : (m.packet b).netIctype = Icmp.icmpEchoreply := by
        by_contra differs
        exact other ⟨differs, echo⟩
      obtain ⟨kept, held⟩ := icmp_enqueue (owns.icmp slot) (reply type slot accepted)
        (icmp_accepts_used accepted) ((m.packet b).toIcmp b)
      have queued := @set_icmp_owns m _ hand slot _ owns kept (by
        rw [held]
        exact moved_in _ b hand)
      split_ifs
      · exact send_owns queued _ _
      · exact queued

theorem ip_local_owns (owns : Owns m ({b} + hand)) (room : FindsRoom m (m.packet b))
    (did : ipLocal m b = some m') : Owns m' hand := by
  unfold ipLocal at did
  split_ifs at did with udp icmp
  · obtain rfl := Option.some.inj did
    exact udp_in_owns owns
  · exact icmp_in_owns owns room icmp did
  · obtain rfl := Option.some.inj did
    exact freebuf_owns owns

theorem netin_owns {f : Frames.Frame} (owns : Owns m hand) (reading : m.reading = some b)
    (room : f.netEthtype = Frames.ethIp → ipDelivers m.net f → FindsRoom m (ofFrame f))
    (did : netin m b f = some m') : Owns m' hand := by
  have read : Owns { m with
      reading := none, packet := Function.update m.packet b (ofFrame f) } ({b} + hand) := by
    refine ⟨?_, owns.udp, owns.icmp, owns.out⟩
    rw [← owns.all]
    unfold holders
    dsimp only
    rw [reading, Option.toList_none, Option.toList_some, Multiset.coe_nil, Multiset.coe_singleton]
    abel
  unfold netin ipIn at did
  dsimp only at did
  split_ifs at did with arp ip delivers
  · obtain rfl := Option.some.inj did
    exact freebuf_owns (read.same rfl rfl rfl rfl rfl rfl)
  · refine ip_local_owns read ?_ did
    change FindsRoom m (Function.update m.packet b (ofFrame f) b)
    rw [Function.update_self]
    exact room ip delivers
  · obtain rfl := Option.some.inj did
    exact freebuf_owns read
  · obtain rfl := Option.some.inj did
    exact freebuf_owns read

theorem ip_out_owns (owns : Owns m ({b} + hand)) : Owns (ipOut m b) hand :=
  freebuf_owns (owns.same rfl rfl rfl rfl rfl rfl)

theorem resolved_owns (owns : Owns m ({b} + hand)) (answer : Arp.Answer) :
    Owns (resolved m b answer) hand := by
  unfold resolved
  split_ifs
  · exact ip_out_owns owns
  · exact freebuf_owns owns

theorem resolve_owns (owns : Owns m ({b} + hand)) (pid : Int) (nxthop : Nat) :
    Owns (resolve m b pid nxthop) hand := by
  have asked : Owns { m with arp := (Arp.arpResolve m.arp m.net.toArp pid nxthop).1 }
      ({b} + hand) := owns.same rfl rfl rfl rfl rfl rfl
  unfold resolve
  dsimp only
  split
  · exact resolved_owns asked _
  · exact held_owns asked

theorem ip_send_owns {pid : Int} (owns : Owns m ({b} + hand))
    (room : Loops m.net (m.packet b).netIpdst → FindsRoom m (m.packet b))
    (did : ipSend m b pid = some m') : Owns m' hand := by
  unfold ipSend at did
  dsimp only at did
  split_ifs at did with loops
  · exact ip_local_owns owns (room loops) did
  · obtain rfl := Option.some.inj did
    exact ip_out_owns owns
  · obtain rfl := Option.some.inj did
    exact freebuf_owns owns
  · obtain rfl := Option.some.inj did
    exact resolve_owns owns _ _

theorem send_packet_owns {pid : Int} {pkt : Packet} (owns : Owns m hand)
    (room : Loops m.net pkt.netIpdst → FindsRoom m pkt)
    (did : sendPacket m pid pkt = some m') : Owns m' hand := by
  obtain ⟨⟨first, got⟩, getting, sent⟩ := Option.bind_eq_some_iff.mp did
  obtain ⟨holds, frame⟩ := getbuf_owns owns getting
  have given : Owns { got with packet := Function.update got.packet first pkt } ({first} + hand) :=
    holds.same rfl rfl rfl rfl rfl rfl
  refine ip_send_owns given ?_ sent
  change Loops got.net (Function.update got.packet first pkt first).netIpdst →
    FindsRoom _ (Function.update got.packet first pkt first)
  rw [Function.update_self, frame]
  exact room

end Delivery

section Receives

variable {m m' : Machine} {hand : Multiset Nat}

theorem set_udp_self (slot : Fin Udp.udpSlots) (u : Udp.Udpentry) :
    (setUdp m slot u).udptab slot = u := Function.update_self _ _ _

theorem set_icmp_self (slot : Fin Icmp.icmpSlots) (e : Icmp.Icmpentry) :
    (setIcmp m slot e).icmptab slot = e := Function.update_self _ _ _

/-- Only the state of an endpoint, its addresses or its process changes. -/
theorem udp_same {slot : Fin Udp.udpSlots} {u : Udp.Udpentry} (owns : Owns m hand)
    (head : u.udhead = (m.udptab slot).udhead) (tail : u.udtail = (m.udptab slot).udtail)
    (count : u.udcount = (m.udptab slot).udcount) (queue : u.udqueue = (m.udptab slot).udqueue)
    (used : u.udstate ≠ .free) : Owns (setUdp m slot u) hand := by
  obtain ⟨⟨arrived, left, kept⟩, _⟩ := owns.udp slot
  refine set_udp_owns owns
    ⟨⟨arrived, left, kept.same head tail count queue⟩, fun free => (used free).elim⟩ ?_
  unfold udpHeld
  rw [head, count, queue]

theorem icmp_same {slot : Fin Icmp.icmpSlots} {e : Icmp.Icmpentry} (owns : Owns m hand)
    (head : e.ichead = (m.icmptab slot).ichead) (tail : e.ictail = (m.icmptab slot).ictail)
    (count : e.iccount = (m.icmptab slot).iccount) (queue : e.icqueue = (m.icmptab slot).icqueue)
    (used : e.icstate ≠ .free) : Owns (setIcmp m slot e) hand := by
  obtain ⟨⟨arrived, left, kept⟩, _⟩ := owns.icmp slot
  refine set_icmp_owns owns
    ⟨⟨arrived, left, kept.same head tail count queue⟩, fun free => (used free).elim⟩ ?_
  unfold icmpHeld
  rw [head, count, queue]

theorem take_udp_owns {slot : Fin Udp.udpSlots} (owns : Owns m hand)
    (some_left : 0 < (m.udptab slot).udcount) (used : (m.udptab slot).udstate ≠ .free) :
    Owns (takeUdp m slot) hand := by
  obtain ⟨kept, held⟩ := udp_dequeue (owns.udp slot) some_left used
  refine freebuf_owns (set_udp_owns owns kept ?_)
  rw [held]
  exact moved_out _ _ _

theorem take_icmp_owns {slot : Fin Icmp.icmpSlots} (owns : Owns m hand)
    (some_left : 0 < (m.icmptab slot).iccount)
    (here : (m.icmptab slot).ichead < Icmp.icmpQsiz) (used : (m.icmptab slot).icstate ≠ .free) :
    Owns (takeIcmp m slot) hand := by
  obtain ⟨kept, held⟩ := icmp_dequeue (owns.icmp slot) some_left here used
  refine freebuf_owns (set_icmp_owns owns kept ?_)
  rw [held]
  exact moved_out _ _ _

theorem udp_recv_owns (owns : Owns m hand) (pid slot : Int) (time : Nat) :
    Owns (udpRecv m pid slot time) hand := by
  unfold udpRecv
  split
  · exact owns
  · rename_i slot _
    have nonneg : 0 ≤ (m.udptab slot).udcount := by
      obtain ⟨⟨_, _, queue⟩, _⟩ := owns.udp slot
      exact queue.nonneg
    dsimp only
    split_ifs with used empty negative
    · exact owns
    · exact (@udp_same m hand slot { m.udptab slot with udpid := pid } owns rfl rfl rfl rfl
        (by rw [not_not.mp used]; nofun)).same rfl rfl rfl rfl rfl rfl
    · exact (@udp_same m hand slot { m.udptab slot with udstate := .recv, udpid := pid } owns rfl rfl
        rfl rfl nofun).same rfl rfl rfl rfl rfl rfl
    · exact take_udp_owns owns (by omega) (by rw [not_not.mp used]; nofun)

theorem icmp_recv_owns (owns : Owns m hand) (pid icmpid : Int) (time : Nat)
    (fits : Fits m (.icmpRecv pid icmpid time)) : Owns (icmpRecv m pid icmpid time) hand := by
  unfold icmpRecv
  split
  · exact owns
  · rename_i slot valid
    have nonneg : 0 ≤ (m.icmptab slot).iccount := by
      obtain ⟨⟨_, _, queue⟩, _⟩ := owns.icmp slot
      exact queue.nonneg
    have here := fits slot valid
    dsimp only
    split_ifs with used empty negative
    · exact owns
    · exact (@icmp_same m hand slot { m.icmptab slot with icpid := pid } owns rfl rfl rfl rfl
        (by rw [not_not.mp used]; nofun)).same rfl rfl rfl rfl rfl rfl
    · exact (@icmp_same m hand slot { m.icmptab slot with icstate := .recv, icpid := pid } owns rfl
        rfl rfl rfl nofun).same rfl rfl rfl rfl rfl rfl
    · exact take_icmp_owns owns (by omega) (here empty) (by rw [not_not.mp used]; nofun)

theorem wakes_owns {pid : Int} {place : Waiting} (owns : Owns m hand)
    (finds : FindsPacket m pid place) : Owns (wakes m pid place) hand := by
  have woken : Owns (setProc m pid { m.proc pid with prhasmsg := false, waits := none }) hand :=
    owns.same rfl rfl rfl rfl rfl rfl
  unfold wakes
  cases place with
  | udp slot =>
      have used := @udp_same _ _ slot { m.udptab slot with udstate := .used } woken rfl rfl rfl rfl
        nofun
      dsimp only
      split_ifs with told
      · refine take_udp_owns used ?_ ?_
        · rw [set_udp_self]
          exact finds told
        · rw [set_udp_self]
          nofun
      · exact used
  | icmp slot =>
      have used := @icmp_same _ _ slot { m.icmptab slot with icstate := .used } woken rfl rfl rfl
        rfl nofun
      dsimp only
      split_ifs with told
      · refine take_icmp_owns used ?_ ?_ ?_
        · rw [set_icmp_self]
          exact (finds told).1
        · rw [set_icmp_self]
          exact (finds told).2
        · rw [set_icmp_self]
          nofun
      · exact used

theorem udp_release_owns (owns : Owns m hand) (slot : Int) : Owns (udpRelease m slot) hand := by
  unfold udpRelease
  split
  · exact owns
  · rename_i slot _
    dsimp only
    split_ifs
    · exact owns
    · obtain ⟨kept, empty, held⟩ := udp_drain (owns.udp slot)
      refine free_all_owns (set_udp_owns owns kept ?_)
      rw [empty, held, Multiset.coe_nil, zero_add]

theorem icmp_release_owns (owns : Owns m hand) (icmpid : Int)
    (fits : Fits m (.icmpRelease icmpid)) : Owns (icmpRelease m icmpid) hand := by
  unfold icmpRelease
  split
  · exact owns
  · rename_i slot valid
    dsimp only
    split_ifs
    · exact owns
    · obtain ⟨kept, empty, held⟩ := icmp_drain (owns.icmp slot) (fits slot valid)
      refine free_all_owns (set_icmp_owns owns kept ?_)
      rw [empty, held, Multiset.coe_nil, zero_add]

theorem udp_register_owns (owns : Owns m hand) (remip remport locport : Nat) :
    Owns (udpRegister m remip remport locport) hand := by
  unfold udpRegister
  split_ifs
  · exact owns
  · split
    · exact owns
    · rename_i slot found
      have free : (m.udptab slot).udstate = .free := by simpa using List.find?_some found
      obtain ⟨⟨arrived, left, queue⟩, empty⟩ := owns.udp slot
      refine set_udp_owns owns ⟨⟨arrived, left, Udp.registered_queue queue (empty free) _ _ _⟩,
        nofun⟩ ?_
      unfold udpHeld
      rw [empty free]
      rfl

theorem icmp_register_owns (owns : Owns m hand) (remip : Nat) :
    Owns (icmpRegister m remip) hand := by
  unfold icmpRegister
  split_ifs
  · exact owns
  · split
    · exact owns
    · rename_i slot found
      have free : (m.icmptab slot).icstate = .free := by simpa using List.find?_some found
      obtain ⟨⟨arrived, left, queue⟩, empty⟩ := owns.icmp slot
      refine set_icmp_owns owns ⟨⟨arrived, left, Icmp.registered_queue queue (empty free) _⟩,
        nofun⟩ ?_
      unfold icmpHeld
      rw [empty free]
      rfl

end Receives

section Steps

variable {m m' : Machine}

theorem sends_owns {pid : Int} {pkt : Option Packet} (owns : Owns m 0)
    (room : ∀ pkt' ∈ pkt, Loops m.net pkt'.netIpdst → FindsRoom m pkt')
    (did : sends m pid pkt = some m') : Owns m' 0 := by
  unfold sends at did
  split at did
  · obtain rfl := Option.some.inj did
    exact owns
  · exact send_packet_owns owns (room _ rfl) did

/-- The room of the queues does not matter for a UDP packet. -/
theorem udp_finds_room {pkt : Packet} (udp : pkt.netIpproto = Frames.ipUdp) : FindsRoom m pkt := by
  intro icmp
  rw [udp] at icmp
  exact absurd icmp (by decide)

theorem udp_send_udp {slot : Int} {buff : Nat → Nat} {len : Int} {pkt : Packet}
    (made : udpSendPacket m slot buff len = some pkt) : pkt.netIpproto = Frames.ipUdp := by
  obtain ⟨slot, _, made⟩ := Option.bind_eq_some_iff.mp made
  dsimp only at made
  split_ifs at made
  rw [← Option.some.inj made]
  rfl

theorem udp_sendto_udp {slot : Int} {remip remport : Nat} {buff : Nat → Nat} {len : Int}
    {pkt : Packet} (made : udpSendtoPacket m slot remip remport buff len = some pkt) :
    pkt.netIpproto = Frames.ipUdp := by
  obtain ⟨slot, _, made⟩ := Option.bind_eq_some_iff.mp made
  dsimp only at made
  split_ifs at made
  rw [← Option.some.inj made]
  rfl

theorem resolves_owns {pid : Int} {b : Nat} {w : Arp.Resolving} (owns : Owns m 0)
    (member : (pid, b) ∈ m.resolving) : Owns (resolves m pid b w) 0 := by
  have woken : Owns { m with arp := (Arp.wake m.arp pid w).1 } 0 := owns.same rfl rfl rfl rfl rfl rfl
  unfold resolves
  dsimp only
  split
  · exact resolved_owns (unheld_owns woken member) _
  · exact woken

theorem ipout_waits_owns (owns : Owns m 0)
    (waiting : m.ipoqueue.iqsem.queue = [] ∧ m.ipoqueue.iqsem.passed = []) :
    Owns { m with ipoqueue := { m.ipoqueue with iqsem := m.ipoqueue.iqsem.wait () } } 0 := by
  obtain ⟨pending, inv⟩ := owns.out
  have after := @Output.step_inv m.ipoqueue _ pending .waits inv trivial (if_pos waiting)
  exact set_out_owns owns after rfl

/-- `ipout` has the first packet of its queue in its hands. -/
theorem taken_owns (owns : Owns m 0) (passed : m.ipoqueue.iqsem.passed ≠ []) :
    Owns (taken m) ({m.ipoqueue.iqbuf m.ipoqueue.iqhead} + 0) := by
  obtain ⟨pending, inv⟩ := owns.out
  obtain ⟨pending', inv'⟩ := @Output.step_inv m.ipoqueue _ pending .takes inv trivial
    (if_neg passed)
  have order := out_order inv'
  change m.ipoqueue.accepted = m.ipoqueue.taken ++ [m.ipoqueue.iqbuf m.ipoqueue.iqhead] ++
    outHeld (Output.ipoutTakes m.ipoqueue) at order
  rw [out_order inv, List.append_assoc] at order
  refine set_out_owns owns ⟨pending', inv'⟩ ?_
  rw [List.append_cancel_left order]
  exact moved_out _ _ _

theorem ipout_sends_owns {b : Nat} (owns : Owns m ({b} + 0))
    (room : ¬Broadcast m.net (m.packet b).netIpdst → (m.packet b).netIpdst = m.net.ipucast →
      FindsRoom m (m.packet b)) (did : ipoutSends m b = some m') : Owns m' 0 := by
  unfold ipoutSends at did
  dsimp only at did
  split_ifs at did with broadcast here
  · obtain rfl := Option.some.inj did
    exact freebuf_owns owns
  · exact ip_local_owns owns (room broadcast here) did
  · obtain rfl := Option.some.inj did
    exact freebuf_owns owns
  · obtain rfl := Option.some.inj did
    exact resolve_owns owns _ _

theorem gets_buffer_owns (owns : Owns m 0) (did : act m .getsBuffer = some m') : Owns m' 0 := by
  simp only [act] at did
  split at did
  · rename_i idle
    obtain ⟨⟨b, got⟩, getting, rfl⟩ := Option.map_eq_some_iff.mp did
    obtain ⟨holds, frame⟩ := getbuf_owns owns getting
    refine ⟨?_, holds.udp, holds.icmp, holds.out⟩
    have none : got.reading = none := by rw [frame, idle]
    have all := holds.all
    unfold holders at all ⊢
    rw [none, Option.toList_none, Multiset.coe_nil] at all
    dsimp only
    rw [← all, Option.toList_some, Multiset.coe_singleton]
    abel
  · cases did

/-- What one step keeps -/
theorem act_owns {event : Event} (owns : Owns m 0) (fits : Fits m event)
    (did : act m event = some m') : Owns m' 0 := by
  cases event with
  | configure net =>
      obtain rfl := Option.some.inj did
      exact owns.same rfl rfl rfl rfl rfl rfl
  | getsBuffer => exact gets_buffer_owns owns did
  | frame f =>
      obtain ⟨b, reading, did⟩ := Option.bind_eq_some_iff.mp did
      exact netin_owns owns reading fits did
  | udpRegister remip remport locport =>
      obtain rfl := Option.some.inj did
      exact udp_register_owns owns remip remport locport
  | udpSend pid slot buff len =>
      simp only [act] at did
      split_ifs at did
      exact sends_owns owns (fun _ made _ => udp_finds_room (udp_send_udp made)) did
  | udpSendto pid slot remip remport buff len =>
      simp only [act] at did
      split_ifs at did
      exact sends_owns owns (fun _ made _ => udp_finds_room (udp_sendto_udp made)) did
  | udpRecv pid slot time =>
      simp only [act] at did
      split_ifs at did
      obtain rfl := Option.some.inj did
      exact udp_recv_owns owns pid slot time
  | udpRelease slot =>
      obtain rfl := Option.some.inj did
      exact udp_release_owns owns slot
  | icmpRegister remip =>
      obtain rfl := Option.some.inj did
      exact icmp_register_owns owns remip
  | icmpSend pid remip type ident buff len =>
      simp only [act] at did
      split_ifs at did
      refine sends_owns owns (fun pkt made loops => ?_) did
      obtain rfl := Option.some.inj made
      exact fits loops
  | icmpRecv pid icmpid time =>
      simp only [act] at did
      split_ifs at did
      obtain rfl := Option.some.inj did
      exact icmp_recv_owns owns pid icmpid time fits
  | icmpRelease icmpid =>
      obtain rfl := Option.some.inj did
      exact icmp_release_owns owns icmpid fits
  | runs pid =>
      obtain ⟨place, waiting, rfl⟩ := Option.map_eq_some_iff.mp did
      exact wakes_owns owns (fits place waiting)
  | resolves pid =>
      obtain ⟨held, found, did⟩ := Option.bind_eq_some_iff.mp did
      obtain ⟨w, _, rfl⟩ := Option.map_eq_some_iff.mp did
      have same : held.1 = pid := by simpa using List.find?_some found
      have member := List.mem_of_find?_eq_some found
      rw [← same]
      exact resolves_owns owns member
  | ipoutWaits =>
      simp only [act] at did
      split_ifs at did with waiting
      obtain rfl := Option.some.inj did
      exact ipout_waits_owns owns ⟨waiting.1, waiting.2.1⟩
  | ipoutTakes =>
      simp only [act] at did
      split_ifs at did with passed
      exact ipout_sends_owns (taken_owns owns passed) fits did

theorem started_owns (started : Started m) : Owns m 0 := by
  obtain ⟨iqbuf, queue⟩ := started.ipoqueue
  have udp : ∀ slot, udpHeld (m.udptab slot) = [] := fun slot => by
    unfold udpHeld
    rw [(started.udptab slot).2.2.2]
    rfl
  have icmp : ∀ slot, icmpHeld (m.icmptab slot) = [] := fun slot => by
    unfold icmpHeld
    rw [(started.icmptab slot).2.2.2]
    rfl
  refine ⟨?_, fun slot => ?_, fun slot => ?_, ?_⟩
  · have out : outHeld m.ipoqueue = [] := by rw [queue]; rfl
    unfold holders
    simp only [udp, icmp, out, started.free, started.reading, started.resolving,
      Option.toList_none, List.map_nil, Multiset.coe_nil, Finset.sum_const_zero, add_zero]
    rfl
  · obtain ⟨_, head, tail, count⟩ := started.udptab slot
    refine ⟨⟨[], [], ?_⟩, fun _ => count⟩
    refine ⟨by rw [count], by rw [count]; decide, by rw [head]; decide, ?_, ?_⟩
    · rw [head, tail, count]
      rfl
    · rw [count]
      rfl
  · obtain ⟨_, head, tail, count⟩ := started.icmptab slot
    refine ⟨⟨[], [], ?_⟩, fun _ => count⟩
    refine ⟨by rw [count], by rw [count]; decide, by rw [head]; decide, ?_⟩
    rw [head, tail, count]
    exact fifo_start (by decide)
  · rw [queue]
    exact ⟨0, Output.started_inv iqbuf⟩

theorem owns_conserved (owns : Owns m 0) : Conserved m := by
  refine ⟨(add_zero _).symm.trans owns.all, fun slot => ?_, fun slot => ?_, ?_⟩
  · obtain ⟨⟨_, _, queue⟩, _⟩ := owns.udp slot
    exact queue.bounded
  · obtain ⟨⟨_, _, queue⟩, _⟩ := owns.icmp slot
    exact queue.bounded
  · obtain ⟨pending, inv⟩ := owns.out
    have lengths := inv.fifo.lengths
    have bounded := inv.fifo.bounded
    omega

end Steps

section Results

/-- In a run in which every queue has room for what is put into it, and every receiver that was sent
`OK` finds a packet in its queue, no buffer is lost and none is given back twice. -/
theorem buffers_are_conserved {m : Machine} (run : Reached act Started Fits m) : Conserved m :=
  owns_conserved (@reached_invariant _ _ _ _ _ (fun m => Owns m 0) m run (fun _ => started_owns)
    fun _ _ _ => act_owns)

def quiet : Packet where
  netIpproto := 0
  netIpsrc := 0
  netIpdst := 0
  netIplen := 0
  netIctype := 0
  netIcident := 0
  netUdpsport := 0
  netUdpdport := 0
  netUdplen := 0
  data := fun _ => 0

def someUdp : Udp.Udpentry where
  udstate := .free
  udremip := 0
  udremport := 0
  udlocport := 0
  udhead := 0
  udtail := 0
  udcount := 0
  udpid := 0
  udqueue := fun _ => quiet.toUdp 0

def someIcmp : Icmp.Icmpentry where
  icstate := .free
  icremip := 0
  ichead := 0
  ictail := 0
  iccount := 0
  icpid := 0
  icqueue := fun _ => quiet.toIcmp 0

/-- A machine with the address 9 that has just been started -/
def fresh : Machine where
  net :=
    { ipvalid := true, ipucast := 9, ipbcast := 15, ipmask := 0, ipprefix := 0, iprouter := 1,
      ethbcast := 0 }
  free := List.range nbufs
  packet := fun _ => quiet
  udptab := fun _ => someUdp
  icmptab := fun _ => someIcmp
  ipoqueue := Output.started fun _ => 0
  arp :=
    { arpcache := fun _ => Arp.cleared, proc := fun _ => ⟨true, none, none⟩, received := [] }
  proc := fun _ => ⟨false, 0, none⟩
  reading := none
  resolving := []
  ipoutPid := 3
  sent := []

theorem fresh_started : Started fresh :=
  ⟨rfl, fun _ => ⟨rfl, rfl, rfl, rfl⟩, fun _ => ⟨rfl, rfl, rfl, rfl⟩, ⟨_, rfl⟩,
    ⟨fun _ => rfl, fun _ => rfl⟩, fun _ => rfl, rfl, rfl⟩

/-- While `netin` reads, a process waits for a packet that another one sends to this machine, an echo
request to it is answered through `ipout`, and a packet for another machine waits for its address. -/
theorem buffers_are_conserved_calls :
    ∃ m, takeEvents act Fits [.getsBuffer, .udpRegister 9 7 7, .udpRecv 5 0 100,
      .udpSend 6 0 (fun _ => 0) 3, .runs 5, .ipoutWaits, .icmpSend 6 9 8 0 (fun _ => 0) 4,
      .ipoutTakes, .udpSendto 6 0 20 7 (fun _ => 0) 1, .udpRelease 0] fresh = some m ∧
        Conserved m := by
  obtain ⟨m, took⟩ := Option.isSome_iff_exists.mp (show (takeEvents act Fits
    [.getsBuffer, .udpRegister 9 7 7, .udpRecv 5 0 100, .udpSend 6 0 (fun _ => 0) 3, .runs 5,
      .ipoutWaits, .icmpSend 6 9 8 0 (fun _ => 0) 4, .ipoutTakes,
      .udpSendto 6 0 20 7 (fun _ => 0) 1, .udpRelease 0] fresh).isSome = true by decide +kernel)
  exact ⟨m, took, buffers_are_conserved (take_events (.start fresh_started) took)⟩

/-- Nine replies come to a slot that nobody reads, and the last of them takes the place of the
first. -/
theorem reply_is_lost :
    ¬∀ m, Reached act Started (fun _ _ => True) m → Conserved m := by
  intro always
  have taken : (takeEvents act (fun _ _ => True)
      (.icmpRegister 9 :: List.replicate 9 (.icmpSend 6 9 0 0 (fun _ => 0) 4)) fresh).map
        (fun m => decide (0 ∈ holders m)) = some false := by
    decide +kernel
  obtain ⟨m, took, lost⟩ := Option.map_eq_some_iff.mp taken
  have conserved := always m (take_events (.start fresh_started) took)
  rw [conserved.once] at lost
  exact absurd lost (by decide)

end Results

end Xinu.Net.Conservation
