import Xinu.Kernel.Ports

/-!
# The messages of the ports

What holds of the ports whenever a process has been switched out, and that a message that is sent or
received keeps it.
-/

namespace Xinu.Kernel.Ports

open Xinu.Kernel.State (word32)
open Xinu.Lib.Interleaving Xinu.Lib.Semaphores Xinu.Lib.SingleList

set_option autoImplicit false

section Invariant

variable (x : Machine)

/-- What `_ptclear` has done with a port so far. It has yet to dispose of `rest`. -/
structure ClearSound (p : Fin nports) (nodes rest : List Nat) (clearing : Clearing) : Prop where
  state : (x.porttab p).ptstate = .limbo
  newstate : clearing.newstate ≠ .limbo
  walks : ∀ a, clearing.stage = .disposing a → ∃ front, nodes = front ++ a :: rest
  emptied : (∀ a, clearing.stage ≠ .disposing a) → nodes = [] ∧ rest = [] ∧
    waiting (x.porttab p).ptssem = [] ∧ (clearing.newstate = .alloc → (x.porttab p).pthead = none ∧
      (x.porttab p).pttail = none ∧ (x.porttab p).ptssem = ⟨(x.porttab p).ptmaxcnt, [], []⟩)
  receivers : clearing.stage = .receivers → (x.porttab p).ptrsem = ⟨0, [], []⟩

/-- What holds of a port that has its messages in `nodes`, those of `rest` not disposed of, and that
owes a place to `space` calls and a message to `calls` behind their `wait`. -/
structure PortSound (p : Fin nports) (nodes rest : List Nat) (space calls : Nat) : Prop where
  ends : (x.porttab p).ptstate = .alloc ∨ nodes ≠ [] → (x.porttab p).pthead = nodes.head? ∧
    (x.porttab p).pttail = nodes.getLast? ∧ Follows x.next nodes none
  order : x.sent p = (x.gone p).map Prod.fst ++ rest.map fun a => (x.node a).ptmsg
  inside : rest <:+ nodes
  whole : (x.porttab p).ptstate = .alloc → rest = nodes
  bounded : nodes.length ≤ (x.porttab p).size
  senders : (x.porttab p).ptstate = .alloc → (x.porttab p).ptssem.Sound ∧
    (x.porttab p).ptssem.level + nodes.length + space ≤ (x.porttab p).size
  receivers : (x.porttab p).ptstate = .alloc → (x.porttab p).ptrsem.Sound ∧
    (x.porttab p).ptrsem.level + calls = nodes.length
  small : (x.porttab p).ptstate ≠ .free → (x.porttab p).ptmaxcnt ≤ (x.porttab p).size
  idle : (x.porttab p).ptstate = .free → nodes = [] ∧
    ∀ side, waiting (semOf side (x.porttab p)) = []
  limbo : (x.porttab p).ptstate = .limbo → (x.clearing p).isSome
  clears : ∀ clearing, x.clearing p = some clearing → ClearSound x p nodes rest clearing

/-- The call of a process that is at a semaphore of a port -/
structure CallSound (p : Fin nports) (side : Side) (calling : Calling) : Prop where
  port : calling.portid = p
  side : calling.request.side = side
  current : (x.porttab p).ptstate = .alloc → calling.seq = (x.porttab p).ptseq ∧
    calling.epoch = (x.porttab p).epoch
  older : (x.porttab p).ptstate ≠ .alloc → calling.epoch < (x.porttab p).epoch

/-- The processes that wait -/
structure CallsSound : Prop where
  waits : ∀ p side, ∀ pid ∈ waiting (semOf side (x.porttab p)),
    ∃ calling, x.calls pid = some calling ∧ CallSound x p side calling
  stale : ∀ pid ∈ x.released, ∃ calling, x.calls pid = some calling ∧
    calling.epoch < (x.porttab calling.portid).epoch
  places : ∀ pid calling, x.calls pid = some calling → x.released.count pid +
    (waiting (semOf calling.request.side (x.porttab calling.portid))).count pid = 1

/-- The nodes of the ports and of the free list -/
structure NodesSound (maxmsgs : Nat) (free : List Nat) (nodes : Fin nports → List Nat) : Prop where
  freed : x.ptfree = free.head? ∧ Follows x.next free none
  total : (free : Multiset Nat) + ∑ p, (nodes p : Multiset Nat) = Multiset.range maxmsgs

end Invariant

section Nodes

variable {maxmsgs : Nat} {free : List Nat} {nodes : Fin nports → List Nat} {p : Fin nports}
  {a : Nat}

/-- The nodes are in one list. -/
theorem nodes_apart (total : (free : Multiset Nat) + ∑ p, (nodes p : Multiset Nat) =
    Multiset.range maxmsgs) (p : Fin nports) :
    (free ++ nodes p).Nodup ∧ ∀ q ≠ p, ∀ a ∈ nodes p, a ∉ nodes q := by
  have whole := Multiset.nodup_range maxmsgs
  rw [← total] at whole
  have split := Finset.add_sum_erase Finset.univ (fun p => (nodes p : Multiset Nat))
    (Finset.mem_univ p)
  refine ⟨?_, fun q differ a inP inQ => ?_⟩
  · have part : ((free ++ nodes p : List Nat) : Multiset Nat) ≤
        (free : Multiset Nat) + ∑ p, (nodes p : Multiset Nat) := by
      rw [← split, ← Multiset.coe_add, ← add_assoc]
      exact Multiset.le_add_right _ _
    exact Multiset.coe_nodup.mp (Multiset.nodup_of_le part whole)
  · have one : (nodes q : Multiset Nat) ≤
        ∑ p ∈ Finset.univ.erase p, (nodes p : Multiset Nat) :=
      Finset.single_le_sum (f := fun p => (nodes p : Multiset Nat)) (fun _ _ => Multiset.zero_le _)
        (Finset.mem_erase.mpr ⟨differ, Finset.mem_univ q⟩)
    have both : (nodes p : Multiset Nat) + (nodes q : Multiset Nat) ≤
        (free : Multiset Nat) + ∑ p, (nodes p : Multiset Nat) := by
      rw [← split]
      exact (add_le_add le_rfl one).trans (Multiset.le_add_left _ _)
    have apart := Multiset.disjoint_of_nodup_add (Multiset.nodup_of_le both whole)
    exact Multiset.disjoint_left.mp apart inP inQ

theorem free_apart (total : (free : Multiset Nat) + ∑ p, (nodes p : Multiset Nat) =
    Multiset.range maxmsgs) (member : a ∈ free) (p : Fin nports) : a ∉ nodes p := by
  intro inP
  have nodup := (nodes_apart total p).1
  exact (List.nodup_append.mp nodup).2.2 a member a inP rfl

end Nodes

section Frames

variable {x x' : Machine} {free : List Nat} {nodes : Fin nports → List Nat} {rest list : List Nat}
  {p q : Fin nports} {side : Side} {calling : Calling} {space calls : Nat}

theorem clearSound_frame {clearing : Clearing} (clear : ClearSound x q list rest clearing)
    (entry : x'.porttab q = x.porttab q) : ClearSound x' q list rest clearing := by
  obtain ⟨state, newstate, walks, emptied, receivers⟩ := clear
  refine ⟨?_, newstate, walks, ?_, ?_⟩
  · rw [entry]
    exact state
  · rw [entry]
    exact emptied
  · rw [entry]
    exact receivers

/-- A step that leaves a port and its nodes alone. -/
theorem port_frame (port : PortSound x q list rest space calls)
    (entry : x'.porttab q = x.porttab q) (node : ∀ a ∈ list, x'.node a = x.node a)
    (sent : x'.sent q = x.sent q) (gone : x'.gone q = x.gone q)
    (clearing : x'.clearing q = x.clearing q) : PortSound x' q list rest space calls := by
  obtain ⟨ends, order, inside, whole, bounded, senders, receivers, small, idle, limbo, clears⟩ :=
    port
  refine ⟨?_, ?_, inside, ?_, ?_, ?_, ?_, ?_, ?_, ?_, fun clearing' at_ => ?_⟩
  · rw [entry]
    intro keeps
    obtain ⟨head, tail, follows⟩ := ends keeps
    refine ⟨head, tail, follows_congr follows fun a member => ?_⟩
    rw [Machine.next, node a member, Machine.next]
  · rw [sent, gone, order]
    congr 1
    exact List.map_congr_left fun a member => by rw [node a (inside.subset member)]
  · rw [entry]
    exact whole
  · rw [entry]
    exact bounded
  · rw [entry]
    exact senders
  · rw [entry]
    exact receivers
  · rw [entry]
    exact small
  · rw [entry]
    exact idle
  · rw [entry, clearing]
    exact limbo
  · rw [clearing] at at_
    exact clearSound_frame (clears clearing' at_) entry

/-- The entry as the calls that wait see it -/
def Alike (entry entry' : Ptentry) : Prop :=
  entry'.ptstate = entry.ptstate ∧ entry'.ptseq = entry.ptseq ∧ entry'.epoch = entry.epoch

theorem callSound_alike (call : CallSound x p side calling)
    (alike : Alike (x.porttab p) (x'.porttab p)) : CallSound x' p side calling := by
  obtain ⟨state, seq, epoch⟩ := alike
  refine ⟨call.port, call.side, ?_, ?_⟩
  · rw [state, seq, epoch]
    exact call.current
  · rw [state, epoch]
    exact call.older

theorem update_alike {entry : Ptentry} (alike : Alike (x.porttab p) entry) (q : Fin nports) :
    Alike (x.porttab q) (Function.update x.porttab p entry q) := by
  by_cases same : q = p
  · subst same
    rw [Function.update_self]
    exact alike
  · rw [Function.update_of_ne same]
    exact ⟨rfl, rfl, rfl⟩

theorem update_sems {entry : Ptentry} (sems : ∀ side, (waiting (semOf side entry)).Perm
    (waiting (semOf side (x.porttab p)))) (q : Fin nports) (side : Side) :
    (waiting (semOf side (Function.update x.porttab p entry q))).Perm
      (waiting (semOf side (x.porttab q))) := by
  by_cases same : q = p
  · subst same
    rw [Function.update_self]
    exact sems side
  · rw [Function.update_of_ne same]

/-- The semaphores keep their processes. -/
theorem calls_frame (sound : CallsSound x) (calls : x'.calls = x.calls)
    (released : x'.released = x.released) (alike : ∀ q, Alike (x.porttab q) (x'.porttab q))
    (sems : ∀ q side, (waiting (semOf side (x'.porttab q))).Perm
      (waiting (semOf side (x.porttab q)))) : CallsSound x' := by
  refine ⟨fun q side pid member => ?_, fun pid member => ?_, fun pid calling called => ?_⟩
  · obtain ⟨calling, called, call⟩ := sound.waits q side pid ((sems q side).mem_iff.mp member)
    exact ⟨calling, by rw [calls, called], callSound_alike call (alike q)⟩
  · rw [released] at member
    obtain ⟨calling, called, older⟩ := sound.stale pid member
    exact ⟨calling, by rw [calls, called], by rw [(alike _).2.2]; exact older⟩
  · rw [calls] at called
    rw [released, (sems _ _).count_eq]
    exact sound.places pid calling called

/-- The list of one port changes. -/
theorem total_update {free' : List Nat}
    (same : ((free' ++ list : List Nat) : Multiset Nat) =
      ((free ++ nodes p : List Nat) : Multiset Nat)) :
    (free' : Multiset Nat) + ∑ q, ((Function.update nodes p list q : List Nat) : Multiset Nat) =
      free + ∑ q, (nodes q : Multiset Nat) := by
  have others : ∑ q ∈ Finset.univ.erase p,
      ((Function.update nodes p list q : List Nat) : Multiset Nat) =
        ∑ q ∈ Finset.univ.erase p, (nodes q : Multiset Nat) :=
    Finset.sum_congr rfl fun q member => by
      rw [Function.update_of_ne (Finset.ne_of_mem_erase member)]
  rw [← Finset.add_sum_erase _ _ (Finset.mem_univ p),
    ← Finset.add_sum_erase _ (fun q => (nodes q : Multiset Nat)) (Finset.mem_univ p), others,
    Function.update_self, ← add_assoc, ← add_assoc, Multiset.coe_add, Multiset.coe_add, same]

end Frames

section Messages

variable {x x' : Machine} {free : List Nat} {nodes rest : Fin nports → List Nat} {p : Fin nports}
  {msg maxmsgs : Nat}

/-- The nodes when `msgnode` has been put behind the last one. -/
def enqueued (node : Nat → Ptnode) (tail : Option Nat) (msgnode msg : Nat) : Nat → Ptnode :=
  match tail with
  | none => Function.update node msgnode ⟨msg, none⟩
  | some t => Function.update (Function.update node msgnode ⟨msg, none⟩) t
      { Function.update node msgnode ⟨msg, none⟩ t with ptnext := some msgnode }

theorem enqueued_other {node : Nat → Ptnode} {tail : Option Nat} {a b : Nat} (differ : b ≠ a)
    (inner : tail ≠ some b) : enqueued node tail a msg b = node b := by
  cases tail with
  | none => exact Function.update_of_ne differ _ _
  | some t =>
      have notTail : b ≠ t := fun same => inner (by rw [same])
      rw [enqueued, Function.update_of_ne notTail, Function.update_of_ne differ]

theorem enqueued_msg {node : Nat → Ptnode} {tail : Option Nat} {a b : Nat} (differ : b ≠ a) :
    (enqueued node tail a msg b).ptmsg = (node b).ptmsg := by
  cases tail with
  | none => rw [enqueued, Function.update_of_ne differ]
  | some t =>
      by_cases isTail : b = t
      · rw [enqueued, isTail, Function.update_self, Function.update_of_ne (isTail ▸ differ)]
      · rw [enqueued, Function.update_of_ne isTail, Function.update_of_ne differ]

theorem enqueued_new {node : Nat → Ptnode} {tail : Option Nat} {a : Nat} (apart : tail ≠ some a) :
    enqueued node tail a msg a = ⟨msg, none⟩ := by
  cases tail with
  | none => exact Function.update_self _ _ _
  | some t =>
      have notTail : a ≠ t := fun same => apart (by rw [same])
      rw [enqueued, Function.update_of_ne notTail, Function.update_self]

/-- The new node is behind the last one. -/
theorem enqueued_follows {a : Nat} {list : List Nat} (follows : Follows x.next list none)
    (once : list.Nodup) (new : a ∉ list) :
    Follows (fun b => (enqueued x.node list.getLast? a msg b).ptnext) (list ++ [a]) none := by
  have notTail : list.getLast? ≠ some a := fun last => new (List.mem_of_getLast? last)
  rcases List.eq_nil_or_concat list with rfl | ⟨front, t, rfl⟩
  · refine ⟨?_, trivial⟩
    dsimp only
    rw [enqueued_new notTail]
    rfl
  · rw [List.concat_eq_append] at follows once new notTail ⊢
    have last : (front ++ [t]).getLast? = some t := List.getLast?_concat
    refine follows_snoc follows ?_ ?_ fun b member => ?_
    · rw [last, enqueued, Function.update_self]
    · rw [enqueued_new notTail]
    · have differ : b ≠ a := by
        rintro rfl
        exact new (List.mem_append_left _ member)
      have inner : b ≠ t := by
        rintro rfl
        exact List.disjoint_of_nodup_append once member (List.mem_singleton_self b)
      rw [last, enqueued_other differ (by simpa using inner.symm)]
      rfl

theorem sends_eq {a : Nat} {list : List Nat} (freed : x.ptfree = some a)
    (head : (x.porttab p).pthead = list.head?) (tail : (x.porttab p).pttail = list.getLast?) :
    sends x p msg = some { x with
      node := enqueued x.node list.getLast? a msg
      ptfree := x.next a
      porttab := Function.update x.porttab p { x.porttab p with
        pthead := (list ++ [a]).head?
        pttail := some a
        ptrsem := (x.porttab p).ptrsem.signal }
      sent := Function.update x.sent p (x.sent p ++ [msg]) } := by
  unfold sends
  simp only [freed, Option.bind_eq_bind, Option.bind_some, Option.some.injEq]
  rcases List.eq_nil_or_concat list with rfl | ⟨front, t, rfl⟩
  · simp only [tail, List.getLast?_nil, enqueued, Machine.setEntry, Function.update_self,
      Function.update_idem]
    rfl
  · have last : (front ++ [t]).getLast? = some t := List.getLast?_concat
    have first : (front ++ [t] ++ [a]).head? = (front ++ [t]).head? := by
      cases front <;> rfl
    simp only [List.concat_eq_append] at head tail ⊢
    rw [last] at tail
    simp only [tail, last, enqueued, Machine.setEntry, Machine.setNext, Function.update_self,
      Function.update_idem, first, ← head]

/-- What holds whenever a process has been switched out -/
def Sound (maxmsgs : Nat) (x : Machine) : Prop :=
  ∃ (free : List Nat) (nodes rest : Fin nports → List Nat),
    NodesSound x maxmsgs free nodes ∧ CallsSound x ∧ ∀ p, PortSound x p (nodes p) (rest p) 0 0

theorem clearing_none {list rest : List Nat} {space calls : Nat}
    (port : PortSound x p list rest space calls) (out : (x.porttab p).ptstate ≠ .limbo) :
    x.clearing p = none := by
  cases cleared : x.clearing p with
  | none => rfl
  | some clearing => exact absurd (port.clears clearing cleared).state out

/-- A message is put at the end of a port that has a place for it. -/
theorem sends_sound (sound : NodesSound x maxmsgs free nodes) (callers : CallsSound x)
    (others : ∀ q ≠ p, PortSound x q (nodes q) (rest q) 0 0)
    (port : PortSound x p (nodes p) (rest p) 1 0)
    (alloc : (x.porttab p).ptstate = .alloc) (did : sends x p msg = some x') :
    Sound maxmsgs x' := by
  obtain ⟨head, tail, follows⟩ := port.ends (.inl alloc)
  cases free with
  | nil =>
      have none_left : x.ptfree = none := sound.freed.1
      simp [sends, none_left] at did
  | cons a free =>
      have freed : x.ptfree = some a := sound.freed.1
      obtain rfl := Option.some.inj ((sends_eq freed head tail).symm.trans did)
      have own := (nodes_apart sound.total p).1
      have free_nodes : ∀ b ∈ a :: free, ∀ q, b ∉ nodes q := fun b member q =>
        free_apart sound.total member q
      have lastIn : ∀ b, (nodes p).getLast? = some b → b ∈ nodes p := fun b last =>
        List.mem_of_getLast? last
      have absent : a ∉ free := by grind
      have other : ∀ b, b ≠ a → b ∉ nodes p →
          enqueued x.node (nodes p).getLast? a msg b = x.node b := fun b differ out =>
        enqueued_other differ fun last => out (lastIn b last)
      have notTail : (nodes p).getLast? ≠ some a := fun last =>
        free_nodes a List.mem_cons_self p (lastIn a last)
      have keeps : ∀ q, q ≠ p → ∀ b ∈ nodes q,
          enqueued x.node (nodes p).getLast? a msg b = x.node b := fun q differ b member => by
        refine other b ?_ fun inP => (nodes_apart sound.total p).2 q differ b inP member
        rintro rfl
        exact free_nodes b List.mem_cons_self q member
      refine ⟨free, Function.update nodes p (nodes p ++ [a]),
        Function.update rest p (nodes p ++ [a]), ⟨?_, ?_⟩,
        calls_frame callers rfl rfl (update_alike ⟨rfl, rfl, rfl⟩) (update_sems fun side => ?_),
        fun q => ?_⟩
      · have leads := sound.freed.2
        refine ⟨leads.1.trans Option.or_none, follows_congr leads.2 fun b member => ?_⟩
        have inFree := List.mem_cons_of_mem a member
        have differ : b ≠ a := by
          rintro rfl
          exact absent member
        exact congrArg Ptnode.ptnext (other b differ (free_nodes b inFree p))
      · rw [← sound.total]
        refine total_update (Multiset.coe_eq_coe.mpr ?_)
        rw [← List.append_assoc, List.cons_append]
        exact List.perm_append_singleton a (free ++ nodes p)
      · cases side with
        | senders => exact .refl _
        | receivers => exact Semaphore.signal_members
      · by_cases same : q = p
        · subst same
          rw [Function.update_self, Function.update_self]
          have idle := clearing_none port (by rw [alloc]; decide)
          obtain ⟨-, order, -, whole, -, senders, receivers, small, -, -, -⟩ := port
          have space := senders alloc
          have level : 0 ≤ (x.porttab q).ptssem.level := Semaphore.level_nonneg space.1
          refine ⟨fun _ => ?_, ?_, List.suffix_refl _, fun _ => rfl, ?_, fun _ => ?_, fun _ => ?_,
            fun _ => ?_, fun isFree => ?_, fun inLimbo => ?_, fun clearing cleared => ?_⟩
          · simp only [Function.update_self, List.getLast?_concat, true_and]
            exact enqueued_follows follows (List.nodup_append.mp own).2.1
              (free_nodes a List.mem_cons_self q)
          · simp only [Function.update_self, order, whole alloc, List.map_append, List.append_assoc]
            congr 1
            rw [List.map_singleton, enqueued_new notTail]
            congr 1
            exact List.map_congr_left fun b member => (enqueued_msg (by
              rintro rfl
              exact free_nodes b List.mem_cons_self q member)).symm
          · simp only [Function.update_self, List.length_append, List.length_singleton]
            omega
          · simp only [Function.update_self, List.length_append, List.length_singleton]
            exact ⟨space.1, by omega⟩
          · obtain ⟨still, level⟩ := receivers alloc
            have raised := Semaphore.signal_level still
            simp only [Function.update_self, List.length_append, List.length_singleton]
            refine ⟨Semaphore.signal_sound still, ?_⟩
            push_cast
            omega
          · simp only [Function.update_self]
            exact small (by rw [alloc]; decide)
          · simp only [Function.update_self, alloc] at isFree
            cases isFree
          · simp only [Function.update_self, alloc] at inLimbo
            cases inLimbo
          · rw [idle] at cleared
            cases cleared
        · rw [Function.update_of_ne same, Function.update_of_ne same]
          exact port_frame (others q same) (Function.update_of_ne same _ _) (keeps q same)
            (Function.update_of_ne same _ _) rfl rfl

theorem receives_eq {a : Nat} {list : List Nat} (head : (x.porttab p).pthead = some a)
    (tail : (x.porttab p).pttail = (a :: list).getLast?) (leads : x.next a = list.head?)
    (once : a ∉ list) : receives x p = some ({ x with
      node := Function.update x.node a { x.node a with ptnext := x.ptfree }
      ptfree := some a
      porttab := Function.update x.porttab p { x.porttab p with
        pthead := list.head?
        pttail := list.getLast?
        ptssem := (x.porttab p).ptssem.signal }
      gone := Function.update x.gone p (x.gone p ++ [((x.node a).ptmsg, .received)]) },
      (x.node a).ptmsg) := by
  unfold receives
  simp only [head, Option.bind_eq_bind, Option.bind_some, Option.some.injEq]
  cases list with
  | nil =>
      rw [List.getLast?_singleton] at tail
      simp only [tail, if_true, Machine.setEntry, Machine.setNext, List.head?_nil,
        List.getLast?_nil]
  | cons b rest =>
      rw [List.getLast?_cons_cons] at tail
      have apart : some a ≠ (b :: rest).getLast? := fun same =>
        once (List.mem_of_getLast? same.symm)
      simp only [tail, if_neg apart, Machine.setEntry, Machine.setNext, leads]

/-- The first message of a port is received. -/
theorem receives_sound {result : Machine × Nat} (sound : NodesSound x maxmsgs free nodes)
    (callers : CallsSound x) (others : ∀ q ≠ p, PortSound x q (nodes q) (rest q) 0 0)
    (port : PortSound x p (nodes p) (rest p) 0 1) (alloc : (x.porttab p).ptstate = .alloc)
    (did : receives x p = some result) : Sound maxmsgs result.1 := by
  obtain ⟨head, tail, follows⟩ := port.ends (.inl alloc)
  cases has : nodes p with
  | nil =>
      rw [has] at head
      simp [receives, head] at did
  | cons a list =>
      obtain ⟨free_apart', apart⟩ := nodes_apart sound.total p
      rw [has] at head tail follows free_apart' apart
      have once : a ∉ list := by grind
      have leads : x.next a = list.head? := by simpa using follows.1
      obtain rfl := Option.some.inj ((receives_eq head tail leads once).symm.trans did)
      have other : ∀ b, b ≠ a → Function.update x.node a { x.node a with ptnext := x.ptfree } b =
          x.node b := fun b differ => Function.update_of_ne differ _ _
      have keeps : ∀ q, q ≠ p → ∀ b ∈ nodes q,
          Function.update x.node a { x.node a with ptnext := x.ptfree } b = x.node b :=
        fun q differ b member => other b fun same =>
          apart q differ a List.mem_cons_self (same ▸ member)
      refine ⟨a :: free, Function.update nodes p list, Function.update rest p list,
        ⟨⟨rfl, ?_, ?_⟩, ?_⟩, calls_frame callers rfl rfl (update_alike ⟨rfl, rfl, rfl⟩)
        (update_sems fun side => ?_), fun q => ?_⟩
      · change (Function.update x.node a { x.node a with ptnext := x.ptfree } a).ptnext = _
        rw [Function.update_self, Option.or_none]
        exact sound.freed.1
      · refine follows_congr sound.freed.2 fun b member => congrArg Ptnode.ptnext (other b ?_)
        rintro rfl
        exact (List.nodup_append.mp free_apart').2.2 b member b List.mem_cons_self rfl
      · rw [← sound.total]
        refine total_update (Multiset.coe_eq_coe.mpr ?_)
        rw [has, List.cons_append]
        exact List.perm_middle.symm
      · cases side with
        | senders => exact Semaphore.signal_members
        | receivers => exact .refl _
      · by_cases same : q = p
        · subst same
          rw [Function.update_self, Function.update_self]
          have idle := clearing_none port (by rw [alloc]; decide)
          obtain ⟨-, order, -, whole, bounded, senders, receivers, small, -, -, -⟩ := port
          rw [has, List.length_cons] at bounded
          refine ⟨fun _ => ?_, ?_, List.suffix_refl _, fun _ => rfl, ?_, fun _ => ?_, fun _ => ?_,
            fun _ => ?_, fun isFree => ?_, fun inLimbo => ?_, fun clearing cleared => ?_⟩
          · simp only [Function.update_self, true_and]
            exact follows_congr follows.2 fun b member => congrArg Ptnode.ptnext (other b (by
              rintro rfl
              exact once member))
          · rw [whole alloc, has] at order
            simp only [Function.update_self, order, List.map_cons, List.map_append, List.map_nil,
              List.append_assoc, List.singleton_append]
            congr 2
            refine List.map_congr_left fun b member => ?_
            rw [other b (by
              rintro rfl
              exact once member)]
          · simp only [Function.update_self]
            omega
          · obtain ⟨still, level⟩ := senders alloc
            have raised := Semaphore.signal_level still
            rw [has, List.length_cons] at level
            simp only [Function.update_self]
            refine ⟨Semaphore.signal_sound still, ?_⟩
            push_cast at level ⊢
            omega
          · obtain ⟨still, level⟩ := receivers alloc
            rw [has, List.length_cons] at level
            simp only [Function.update_self]
            refine ⟨still, ?_⟩
            push_cast at level ⊢
            omega
          · simp only [Function.update_self]
            exact small (by rw [alloc]; decide)
          · simp only [Function.update_self, alloc] at isFree
            cases isFree
          · simp only [Function.update_self, alloc] at inLimbo
            cases inLimbo
          · rw [idle] at cleared
            cases cleared
        · rw [Function.update_of_ne same, Function.update_of_ne same]
          exact port_frame (others q same) (Function.update_of_ne same _ _) (keeps q same) rfl
            (Function.update_of_ne same _ _) rfl

end Messages

end Xinu.Kernel.Ports
