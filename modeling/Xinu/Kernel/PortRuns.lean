import Xinu.Kernel.PortCalls

/-!
# Runs of the ports

Ports are created and cleared, and over whole runs each of them is a bounded queue.
-/

namespace Xinu.Kernel.Ports

open Xinu.Kernel.State (word32)
open Xinu.Lib.Interleaving Xinu.Lib.Semaphores Xinu.Lib.SingleList

set_option autoImplicit false

section Entries

variable {x x' : Machine} {p : Fin nports} {side : Side} {entry : Ptentry}

/-- The entry of a port changes while its semaphores keep their processes. -/
theorem calls_entry (sound : CallsSound x) (calls : x'.calls = x.calls)
    (released : x'.released = x.released)
    (changed : x'.porttab = Function.update x.porttab p entry)
    (sems : ∀ side, waiting (semOf side entry) = waiting (semOf side (x.porttab p)))
    (later : (x.porttab p).epoch ≤ entry.epoch)
    (keeps : ∀ side, ∀ pid ∈ waiting (semOf side (x.porttab p)), ∀ calling,
      CallSound x p side calling → CallSound x' p side calling) : CallsSound x' := by
  have same : ∀ q side, waiting (semOf side (x'.porttab q)) =
      waiting (semOf side (x.porttab q)) := by
    intro q side
    rw [changed]
    by_cases here : q = p
    · subst here
      rw [Function.update_self, sems side]
    · rw [Function.update_of_ne here]
  refine ⟨fun q side b member => ?_, fun b member => ?_, fun b calling called => ?_⟩
  · rw [same] at member
    obtain ⟨calling, called, call⟩ := sound.waits q side b member
    refine ⟨calling, by rw [calls, called], ?_⟩
    by_cases here : q = p
    · subst here
      exact keeps side b member calling call
    · refine callSound_alike call ?_
      rw [changed, Function.update_of_ne here]
      exact ⟨rfl, rfl, rfl⟩
  · rw [released] at member
    obtain ⟨calling, called, older⟩ := sound.stale b member
    refine ⟨calling, by rw [calls, called], ?_⟩
    rw [changed]
    by_cases here : calling.portid = p
    · rw [here, Function.update_self]
      rw [here] at older
      exact Nat.lt_of_lt_of_le older later
    · rw [Function.update_of_ne here]
      exact older
  · rw [calls] at called
    rw [released, same]
    exact sound.places b calling called

/-- A semaphore of a port that is not allocated releases its processes. -/
theorem calls_cleared (sound : CallsSound x) (out : (x.porttab p).ptstate ≠ .alloc)
    (calls : x'.calls = x.calls)
    (released : x'.released = x.released ++ waiting (semOf side (x.porttab p)))
    (changed : x'.porttab = Function.update x.porttab p entry) (alike : Alike (x.porttab p) entry)
    (cleared : waiting (semOf side entry) = [])
    (other : ∀ side' ≠ side, semOf side' entry = semOf side' (x.porttab p)) : CallsSound x' := by
  have alikes : ∀ q, Alike (x.porttab q) (x'.porttab q) := by
    rw [changed]
    exact update_alike alike
  have now : ∀ q side', waiting (semOf side' (x'.porttab q)) =
      if q = p ∧ side' = side then [] else waiting (semOf side' (x.porttab q)) := by
    intro q side'
    rw [changed]
    by_cases here : q = p
    · subst here
      rw [Function.update_self]
      by_cases same : side' = side
      · subst same
        rw [if_pos ⟨rfl, rfl⟩, cleared]
      · rw [if_neg (by simp [same]), other side' same]
    · rw [Function.update_of_ne here, if_neg (by simp [here])]
  refine ⟨fun q side' b member => ?_, fun b member => ?_, fun b calling called => ?_⟩
  · rw [now] at member
    split_ifs at member
    · cases member
    · obtain ⟨calling, called, call⟩ := sound.waits q side' b member
      exact ⟨calling, by rw [calls, called], callSound_alike call (alikes q)⟩
  · rw [released, List.mem_append] at member
    rcases member with before | left
    · obtain ⟨calling, called, older⟩ := sound.stale b before
      exact ⟨calling, by rw [calls, called], by rw [(alikes _).2.2]; exact older⟩
    · obtain ⟨calling, called, call⟩ := sound.waits p side b left
      refine ⟨calling, by rw [calls, called], ?_⟩
      rw [(alikes _).2.2, call.port]
      exact call.older out
  · rw [calls] at called
    have place := sound.places b calling called
    rw [released, List.count_append, now]
    split_ifs with here
    · rw [here.1, here.2] at place
      simpa using place
    · have absent : b ∉ waiting (semOf side (x.porttab p)) := fun member => by
        obtain ⟨here', same⟩ := waits_same sound called member
        exact here ⟨here'.symm, same.symm⟩
      rw [List.count_eq_zero_of_not_mem absent]
      exact place

end Entries

section Creating

variable {x : Machine} {p : Fin nports} {maxmsgs : Nat}

theorem created_sound (sound : Sound maxmsgs x) (isFree : (x.porttab p).ptstate = .free)
    (count : Nat) :
    Sound maxmsgs (x.setEntry p (created count (x.porttab p))) := by
  obtain ⟨free, nodes, rest, listed, callers, ports⟩ := sound
  obtain ⟨none, nobody⟩ := (ports p).idle isFree
  refine ⟨free, nodes, rest, ⟨listed.1, listed.2⟩, calls_entry callers rfl rfl rfl (fun side => ?_)
    (Nat.le_succ _) (fun side pid member => ?_), fun q => ?_⟩
  · rw [nobody side]
    cases side <;> rfl
  · rw [nobody side] at member
    cases member
  · by_cases same : q = p
    · subst same
      have idle := clearing_none (ports q) (by rw [isFree]; decide)
      obtain ⟨-, order, inside, -, -, -, -, -, -, -, -⟩ := ports q
      rw [none] at inside ⊢
      have nothing := List.suffix_nil.mp inside
      rw [nothing] at order ⊢
      refine ⟨fun _ => ?_, order, List.suffix_refl _, fun _ => rfl, ?_, fun _ => ?_, fun _ => ?_,
        fun _ => ?_, fun isFree => ?_, fun inLimbo => ?_, fun clearing cleared => ?_⟩
      · simp [Machine.setEntry, created, Follows]
      · simp [Machine.setEntry, created]
      · simp [Machine.setEntry, created, Semaphore.Sound, Semaphore.level]
      · simp [Machine.setEntry, created, Semaphore.Sound, Semaphore.level]
      · simp only [Machine.setEntry, Function.update_self, created]
        exact Nat.mod_le _ _
      · simp [Machine.setEntry, created] at isFree
      · simp [Machine.setEntry, created] at inLimbo
      · exact absurd (idle.symm.trans cleared) (by simp)
    · exact port_frame (ports q) (Function.update_of_ne same _ _) (fun _ _ => rfl) rfl rfl rfl

theorem search_sound (count : Nat) (more : Nat) (sound : Sound maxmsgs x) :
    Sound maxmsgs (searchPorts count more x).1 := by
  induction more generalizing x with
  | zero => exact sound
  | succ more induction =>
      have moved : ∀ ptnextid, Sound maxmsgs { x with ptnextid := ptnextid } := by
        intro ptnextid
        obtain ⟨free, nodes, rest, listed, callers, ports⟩ := sound
        exact ⟨free, nodes, rest, ⟨listed.1, listed.2⟩, calls_frame callers rfl rfl
          (fun _ => ⟨rfl, rfl, rfl⟩) (fun _ _ => .refl _), fun q => port_frame (ports q) rfl
            (fun _ _ => rfl) rfl rfl rfl⟩
      unfold searchPorts
      dsimp only
      by_cases isFree : (x.porttab (Fin.ofNat nports x.ptnextid)).ptstate = .free
      · rw [if_pos isFree]
        exact created_sound (x := { x with
          ptnextid := if x.ptnextid + 1 ≥ nports then 0 else x.ptnextid + 1 }) (moved _) isFree
            count
      · rw [if_neg isFree]
        exact induction (moved _)

theorem ptcreate_sound (count : Int) (sound : Sound maxmsgs x) :
    Sound maxmsgs (ptcreate x count).1 := by
  unfold ptcreate
  split_ifs
  · exact sound
  · exact search_sound count.toNat nports sound

end Creating

section Clearing

variable {x x' : Machine} {free : List Nat} {nodes rest : Fin nports → List Nat} {p : Fin nports}
  {newstate : PtState} {maxmsgs : Nat}

/-- A port in the loop of `_ptclear`, that has yet to dispose of `rest` -/
structure LimboSound (x : Machine) (p : Fin nports) (nodes rest : List Nat) : Prop where
  state : (x.porttab p).ptstate = .limbo
  ends : (x.porttab p).pthead = nodes.head? ∧ (x.porttab p).pttail = nodes.getLast? ∧
    Follows x.next nodes none
  order : x.sent p = (x.gone p).map Prod.fst ++ rest.map fun a => (x.node a).ptmsg
  inside : rest <:+ nodes
  bounded : nodes.length ≤ (x.porttab p).size
  small : (x.porttab p).ptmaxcnt ≤ (x.porttab p).size

theorem sendersCleared_alike {entry : Ptentry} : Alike entry (sendersCleared newstate entry) := by
  unfold sendersCleared
  split_ifs <;> exact ⟨rfl, rfl, rfl⟩

theorem sendersCleared_waiting {entry : Ptentry} :
    waiting (semOf .senders (sendersCleared newstate entry)) = [] := by
  unfold sendersCleared
  split_ifs <;> rfl

theorem sendersCleared_ptrsem {entry : Ptentry} :
    (sendersCleared newstate entry).ptrsem = entry.ptrsem := by
  unfold sendersCleared
  split_ifs <;> rfl

theorem sendersCleared_sizes {entry : Ptentry} :
    (sendersCleared newstate entry).size = entry.size ∧
      (sendersCleared newstate entry).ptmaxcnt = entry.ptmaxcnt := by
  unfold sendersCleared
  split_ifs <;> exact ⟨rfl, rfl⟩

theorem sendersCleared_reset {entry : Ptentry} (reset : newstate = .alloc) :
    (sendersCleared newstate entry).pthead = none ∧ (sendersCleared newstate entry).pttail = none ∧
      (sendersCleared newstate entry).ptssem =
        ⟨(sendersCleared newstate entry).ptmaxcnt, [], []⟩ := by
  rw [sendersCleared, if_pos reset]
  exact ⟨rfl, rfl, rfl⟩

/-- The messages of a port are put in front of the free list. -/
theorem freeMessages_sound (sound : NodesSound x maxmsgs free nodes)
    (head : (x.porttab p).pthead = (nodes p).head?)
    (tail : (x.porttab p).pttail = (nodes p).getLast?) (follows : Follows x.next (nodes p) none) :
    ∃ node ptfree, freeMessages x p = some { x with node := node, ptfree := ptfree } ∧
      NodesSound { x with node := node, ptfree := ptfree } maxmsgs (nodes p ++ free)
        (Function.update nodes p []) ∧ ∀ q ≠ p, ∀ a ∈ nodes q, node a = x.node a := by
  have total : ((nodes p ++ free : List Nat) : Multiset Nat) +
      ∑ q, ((Function.update nodes p [] q : List Nat) : Multiset Nat) =
        free + ∑ q, (nodes q : Multiset Nat) := by
    refine total_update (Multiset.coe_eq_coe.mpr ?_)
    rw [List.append_nil]
    exact List.perm_append_comm
  rcases List.eq_nil_or_concat (nodes p) with empty | ⟨front, t, split⟩
  · rw [empty, List.head?_nil] at head
    refine ⟨x.node, x.ptfree, ?_, ⟨?_, total.trans sound.total⟩, fun _ _ _ _ => rfl⟩
    · simp only [freeMessages, head]
    · rw [empty, List.nil_append]
      exact sound.freed
  · rw [List.concat_eq_append] at split
    obtain ⟨first, at_⟩ : ∃ first, (front ++ [t]).head? = some first := by
      cases front <;> simp
    have last : (front ++ [t]).getLast? = some t := List.getLast?_concat
    obtain ⟨once, apart⟩ := nodes_apart sound.total p
    rw [split] at head tail follows once apart total ⊢
    rw [last] at tail
    rw [at_] at head
    have other : ∀ b, b ≠ t → Function.update x.node t { x.node t with ptnext := x.ptfree } b =
        x.node b := fun b differ => Function.update_of_ne differ _ _
    refine ⟨Function.update x.node t { x.node t with ptnext := x.ptfree }, some first, ?_,
      ⟨⟨?_, ?_⟩, total.trans sound.total⟩, fun q differ a member => other a ?_⟩
    · simp only [freeMessages, head, tail, Option.bind_eq_bind, Option.bind_some, Machine.setNext]
    · rw [List.head?_append, at_]
      rfl
    · have before : Follows x.next front (some t) := by simpa using (follows_append.mp follows).1
      rw [List.append_assoc]
      refine follows_append.mpr ⟨?_, ?_, ?_⟩
      · refine follows_congr before fun b member => congrArg Ptnode.ptnext (other b ?_)
        grind
      · change (Function.update x.node t { x.node t with ptnext := x.ptfree } t).ptnext = _
        rw [Function.update_self, Option.or_none]
        exact sound.freed.1
      · refine follows_congr sound.freed.2 fun b member => congrArg Ptnode.ptnext (other b ?_)
        have inFree : b ∈ free := member
        rintro rfl
        exact (List.nodup_append.mp once).2.2 b inFree b (by simp) rfl
    · rintro rfl
      exact apart q differ a (List.mem_append_right _ List.mem_cons_self) member

theorem disposes_sound (sound : NodesSound x maxmsgs free nodes) (callers : CallsSound x)
    (others : ∀ q ≠ p, PortSound x q (nodes q) (rest q) 0 0)
    (limbo : LimboSound x p (nodes p) (rest p)) (target : newstate ≠ .limbo)
    (did : disposes x p newstate (rest p).head? = some x') : Sound maxmsgs x' := by
  obtain ⟨state, ends, order, inside, bounded, small⟩ := limbo
  have out : (x.porttab p).ptstate ≠ .alloc := by rw [state]; decide
  have used : (x.porttab p).ptstate ≠ .free := by rw [state]; decide
  cases left : rest p with
  | cons a others' =>
      rw [left] at did order inside
      obtain rfl := Option.some.inj did
      refine ⟨free, nodes, Function.update rest p others', ⟨sound.1, sound.2⟩,
        calls_frame callers rfl rfl (fun _ => ⟨rfl, rfl, rfl⟩) (fun _ _ => .refl _), fun q => ?_⟩
      by_cases same : q = p
      · subst same
        rw [Function.update_self]
        refine ⟨fun _ => ends, ?_, (List.suffix_cons a others').trans inside,
          fun alloc => absurd alloc out, bounded, fun alloc => absurd alloc out,
          fun alloc => absurd alloc out, fun _ => small,
          fun isFree => absurd isFree used, fun _ => by simp, fun clearing cleared => ?_⟩
        · simp only [Function.update_self, order, List.map_append, List.map_cons, List.map_nil,
            List.append_assoc, List.singleton_append]
        · simp only [Function.update_self, Option.some.injEq] at cleared
          subst cleared
          obtain ⟨front, split⟩ := inside
          exact ⟨state, target, fun b at_ => ⟨front, by cases at_; exact split.symm⟩,
            fun behind => absurd rfl (behind a), fun last => Stage.noConfusion last⟩
      · rw [Function.update_of_ne same]
        exact port_frame (others q same) rfl (fun _ _ => rfl) rfl (Function.update_of_ne same _ _)
          (Function.update_of_ne same _ _)
  | nil =>
      rw [left] at did order
      obtain ⟨head, tail, follows⟩ := ends
      obtain ⟨node, ptfree, freed, listed, keeps⟩ := freeMessages_sound sound head tail follows
      simp only [disposes, List.head?_nil, clearsSenders, freed, Option.bind_eq_bind,
        Option.bind_some, Option.some.injEq] at did
      subst did
      refine ⟨nodes p ++ free, Function.update nodes p [], rest, ⟨listed.1, listed.2⟩,
        @calls_cleared _ _ _ .senders _ callers out rfl rfl rfl ?_ ?_ ?_, fun q => ?_⟩
      · exact sendersCleared_alike
      · exact sendersCleared_waiting
      · intro side' differ
        cases side' with
        | senders => exact absurd rfl differ
        | receivers => exact sendersCleared_ptrsem
      · by_cases same : q = p
        · subst same
          rw [Function.update_self, left]
          have now : ∀ z ≠ PtState.limbo, (Function.update x.porttab q (sendersCleared newstate
              (x.porttab q)) q).ptstate ≠ z := by
            intro z differ
            rw [Function.update_self, sendersCleared_alike.1, state]
            exact differ.symm
          refine ⟨fun keeps => ?_, ?_, List.suffix_refl _, fun alloc => ?_, ?_, fun alloc => ?_,
            fun alloc => ?_, fun _ => ?_, fun isFree => ?_, fun _ => ?_, fun clearing cleared => ?_⟩
          · exact (keeps.elim (now _ (by decide)) fun some => some rfl).elim
          · exact order
          · exact absurd alloc (now _ (by decide))
          · exact Nat.zero_le _
          · exact absurd alloc (now _ (by decide))
          · exact absurd alloc (now _ (by decide))
          · simp only [Machine.setEntry, Function.update_self, sendersCleared_sizes]
            exact small
          · exact absurd isFree (now _ (by decide))
          · simp
          · simp only [Function.update_self, Option.some.injEq] at cleared
            subst cleared
            refine ⟨?_, target, fun a at_ => Stage.noConfusion at_, fun _ => ⟨rfl, rfl, ?_, ?_⟩,
              fun last => Stage.noConfusion last⟩
            · simp only [Machine.setEntry, Function.update_self, sendersCleared_alike.1, state]
            · simp only [Machine.setEntry, Function.update_self]
              exact sendersCleared_waiting
            · simp only [Machine.setEntry, Function.update_self]
              exact sendersCleared_reset
        · rw [Function.update_of_ne same]
          exact port_frame (others q same) (Function.update_of_ne same _ _) (keeps q same) rfl rfl
            (Function.update_of_ne same _ _)

end Clearing

section Stages

variable {x x' : Machine} {p : Fin nports} {newstate : PtState} {reply : Option Reply}
  {maxmsgs : Nat}

theorem ptclear_sound (sound : Sound maxmsgs x) (target : newstate ≠ .limbo)
    (did : ptclear x p newstate = some (x', reply)) : Sound maxmsgs x' := by
  unfold ptclear at did
  dsimp only at did
  split_ifs at did with closed
  · cases did
    exact sound
  · obtain ⟨free, nodes, rest, listed, callers, ports⟩ := sound
    have alloc := not_not.mp closed
    obtain ⟨ends, order, -, whole, bounded, -, -, small, -, -, -⟩ := ports p
    obtain ⟨head, tail, follows⟩ := ends (.inl alloc)
    have same := whole alloc
    rw [head, ← same] at did
    obtain ⟨y, disposed, cleared⟩ := Option.map_eq_some_iff.mp did
    cases cleared
    refine disposes_sound (x := x.setEntry p (inLimbo (x.porttab p)))
      ⟨listed.1, listed.2⟩ (calls_entry callers rfl rfl rfl (fun _ => ?_)
        (Nat.le_succ _) fun side pid _ calling call => ?_) (fun q differ => port_frame (ports q)
          (Function.update_of_ne differ _ _) (fun _ _ => rfl) rfl rfl rfl) ?_ target disposed
    · cases ‹Side› <;> rfl
    · refine ⟨call.port, call.side, fun alloc' => ?_, fun _ => ?_⟩
      · simp [Machine.setEntry, inLimbo] at alloc'
      · simp only [Machine.setEntry, Function.update_self, inLimbo, (call.current alloc).2]
        exact Nat.lt_succ_self _
    · refine ⟨?_, ?_, order, ?_, ?_, ?_⟩
      · simp only [Machine.setEntry, Function.update_self, inLimbo]
      · simp only [Machine.setEntry, Function.update_self, inLimbo]
        exact ⟨head, tail, follows⟩
      · rw [same]
      · simp only [Machine.setEntry, Function.update_self, inLimbo]
        exact bounded
      · simp only [Machine.setEntry, Function.update_self, inLimbo]
        exact small (by rw [alloc]; decide)

/-- The semaphore of the receivers is reset. -/
theorem receivers_reset_sound {newstate : PtState} (sound : Sound maxmsgs x)
    (cleared : x.clearing p = some ⟨newstate, .senders⟩) :
    Sound maxmsgs { x.setEntry p { x.porttab p with ptrsem := ⟨0, [], []⟩ } with
      released := x.released ++ waiting (x.porttab p).ptrsem
      clearing := Function.update x.clearing p (some ⟨newstate, .receivers⟩) } := by
  obtain ⟨free, nodes, rest, listed, callers, ports⟩ := sound
  obtain ⟨-, order, inside, -, -, -, -, small, -, -, clears⟩ := ports p
  obtain ⟨state, target, -, emptied, -⟩ := clears _ cleared
  have out : (x.porttab p).ptstate ≠ .alloc := by rw [state]; decide
  have used : (x.porttab p).ptstate ≠ .free := by rw [state]; decide
  obtain ⟨none, nothing, nobody, reset⟩ := emptied fun a at_ => Stage.noConfusion at_
  refine ⟨free, nodes, rest, ⟨listed.1, listed.2⟩, @calls_cleared _ _ _ .receivers _ callers
    out rfl rfl rfl ⟨rfl, rfl, rfl⟩ rfl (fun side differ => ?_), fun q => ?_⟩
  · cases side with
    | senders => rfl
    | receivers => exact absurd rfl differ
  · by_cases same : q = p
    · subst same
      have now : ∀ z ≠ PtState.limbo, (Function.update x.porttab q { x.porttab q with
          ptrsem := ⟨0, [], []⟩ } q).ptstate ≠ z := by
        intro z differ
        rw [Function.update_self, state]
        exact differ.symm
      rw [none, nothing] at inside ⊢
      refine ⟨fun keeps => ?_, ?_, inside, fun alloc => ?_, Nat.zero_le _, fun alloc => ?_,
        fun alloc => ?_, fun _ => ?_, fun isFree => ?_, fun _ => ?_, fun clearing at_ => ?_⟩
      · exact (keeps.elim (now _ (by decide)) fun some => some rfl).elim
      · rw [nothing] at order
        exact order
      · exact absurd alloc (now _ (by decide))
      · exact absurd alloc (now _ (by decide))
      · exact absurd alloc (now _ (by decide))
      · simp only [Machine.setEntry, Function.update_self]
        exact small used
      · exact absurd isFree (now _ (by decide))
      · simp
      · simp only [Function.update_self, Option.some.injEq] at at_
        subst at_
        refine ⟨?_, target, fun a at_ => Stage.noConfusion at_, fun _ => ⟨rfl, rfl, ?_, ?_⟩,
          fun _ => ?_⟩
        · simp only [Machine.setEntry, Function.update_self, state]
        · simp only [Machine.setEntry, Function.update_self, nobody]
        · simp only [Machine.setEntry, Function.update_self]
          exact reset
        · simp only [Machine.setEntry, Function.update_self]
    · exact port_frame (ports q) (Function.update_of_ne same _ _) (fun _ _ => rfl) rfl rfl
        (Function.update_of_ne same _ _)

/-- The port gets its new state. -/
theorem port_decided_sound {newstate : PtState} (sound : Sound maxmsgs x)
    (cleared : x.clearing p = some ⟨newstate, .receivers⟩) :
    Sound maxmsgs { x.setEntry p { x.porttab p with ptstate := newstate } with
      ptnextid := if newstate = .free then p else x.ptnextid
      clearing := Function.update x.clearing p none } := by
  obtain ⟨free, nodes, rest, listed, callers, ports⟩ := sound
  obtain ⟨-, order, inside, -, -, -, -, small, -, -, clears⟩ := ports p
  obtain ⟨state, target, -, emptied, done⟩ := clears _ cleared
  have used : (x.porttab p).ptstate ≠ .free := by rw [state]; decide
  obtain ⟨none, nothing, nobody, reset⟩ := emptied fun a at_ => Stage.noConfusion at_
  have left := done rfl
  have nobodyLeft : ∀ side, waiting (semOf side (x.porttab p)) = [] := by
    intro side
    cases side with
    | senders => exact nobody
    | receivers => rw [semOf, left]; rfl
  refine ⟨free, nodes, rest, ⟨listed.1, listed.2⟩, calls_entry callers rfl rfl rfl
    (fun side => ?_) (Nat.le_refl _) (fun side pid member => ?_), fun q => ?_⟩
  · cases side <;> rfl
  · rw [nobodyLeft side] at member
    cases member
  · by_cases same : q = p
    · subst same
      rw [none, nothing] at inside ⊢
      rw [nothing] at order
      refine ⟨fun keeps => ?_, order, inside, fun _ => rfl, Nat.zero_le _, fun alloc => ?_,
        fun alloc => ?_, fun _ => ?_, fun _ => ⟨rfl, fun side => ?_⟩, fun inLimbo => ?_,
        fun clearing at_ => ?_⟩
      · simp only [Machine.setEntry, Function.update_self] at keeps ⊢
        obtain ⟨head, tail, -⟩ := reset (keeps.resolve_right fun some => some rfl)
        exact ⟨head, tail, trivial⟩
      · simp only [Machine.setEntry, Function.update_self] at alloc ⊢
        have fits := small used
        rw [(reset alloc).2.2]
        simp only [Semaphore.Sound, Semaphore.level, List.length_nil]
        omega
      · simp only [Machine.setEntry, Function.update_self, left]
        simp [Semaphore.Sound, Semaphore.level]
      · simp only [Machine.setEntry, Function.update_self]
        exact small used
      · simp only [Machine.setEntry, Function.update_self]
        exact nobodyLeft side
      · simp only [Machine.setEntry, Function.update_self] at inLimbo
        exact absurd inLimbo target
      · simp at at_
    · exact port_frame (ports q) (Function.update_of_ne same _ _) (fun _ _ => rfl) rfl rfl
        (Function.update_of_ne same _ _)

theorem clearsOn_sound (sound : Sound maxmsgs x) (did : clearsOn x p = some (x', reply)) :
    Sound maxmsgs x' := by
  unfold clearsOn at did
  obtain ⟨⟨newstate, stage⟩, cleared, did⟩ := Option.bind_eq_some_iff.mp did
  cases stage with
  | disposing a =>
      obtain ⟨free, nodes, rest, listed, callers, ports⟩ := sound
      obtain ⟨ends, order, inside, -, bounded, -, -, small, -, -, clears⟩ := ports p
      obtain ⟨state, target, walks, -, -⟩ := clears _ cleared
      have used : (x.porttab p).ptstate ≠ .free := by rw [state]; decide
      obtain ⟨front, split⟩ := walks a rfl
      obtain ⟨head, tail, follows⟩ := ends (.inr (by rw [split]; simp))
      have leads : x.next a = (rest p).head? := by
        rw [split] at follows
        simpa using (follows_append.mp follows).2.1
      obtain ⟨y, disposed, same⟩ := Option.map_eq_some_iff.mp did
      cases same
      rw [leads] at disposed
      exact disposes_sound listed callers (fun q _ => ports q)
        ⟨state, ⟨head, tail, follows⟩, order, inside, bounded, small used⟩ target disposed
  | senders =>
      cases did
      exact receivers_reset_sound sound cleared
  | receivers =>
      cases did
      exact port_decided_sound sound cleared

end Stages

section Runs

variable {x x' : Machine} {maxmsgs : Nat} {event : Event}

theorem atPort_sound {portid : Int} {call : Fin nports → Option (Machine × Option Reply)}
    {reply : Option Reply} (sound : Sound maxmsgs x)
    (keeps : ∀ p y reply, call p = some (y, reply) → Sound maxmsgs y)
    (did : atPort x portid call = some (x', reply)) : Sound maxmsgs x' := by
  unfold atPort at did
  split_ifs at did with bad
  · cases did
    exact sound
  · exact keeps _ _ _ did

/-- Every step keeps the ports. -/
theorem ports_step (sound : Sound maxmsgs x) (may : Proper x event) (did : act x event = some x') :
    Sound maxmsgs x' := by
  obtain ⟨⟨y, reply⟩, answered, rfl⟩ := Option.map_eq_some_iff.mp did
  cases event with
  | ptcreate count =>
      cases answered
      exact ptcreate_sound count sound
  | ptsend pid portid msg =>
      simp only [answer] at answered
      split_ifs at answered with waits
      exact atPort_sound sound (fun p y reply => begins_sound sound (by simpa using waits)) answered
  | ptrecv pid portid =>
      simp only [answer] at answered
      split_ifs at answered with waits
      exact atPort_sound sound (fun p y reply => begins_sound sound (by simpa using waits)) answered
  | proceeds pid => exact proceeds_sound sound may answered
  | ptreset portid =>
      have did : atPort x portid (fun p => ptclear x p .alloc) = some (y, reply) := answered
      exact atPort_sound sound (fun p y reply => ptclear_sound sound (by decide)) did
  | ptdelete portid =>
      have did : atPort x portid (fun p => ptclear x p .free) = some (y, reply) := answered
      exact atPort_sound sound (fun p y reply => ptclear_sound sound (by decide)) did
  | clearsOn p => exact clearsOn_sound sound answered

theorem linkNodes_next (node : Nat → Ptnode) (curr more i : Nat) :
    (linkNodes node curr more i).ptnext = if i < curr ∨ curr + more < i then (node i).ptnext
      else if i = curr + more then none else some (i + 1) := by
  induction more generalizing node curr with
  | zero =>
      rw [linkNodes, Function.update_apply]
      split_ifs <;> first | rfl | omega
  | succ more induction =>
      rw [linkNodes, induction, Function.update_apply]
      split_ifs <;> first | rfl | omega | (subst_vars; rfl)

theorem started_sound (started : Started maxmsgs x) : Sound maxmsgs x := by
  obtain ⟨positive, node, porttab, rfl⟩ := started
  refine ⟨List.range maxmsgs, fun _ => [], fun _ => [], ⟨⟨?_, ?_⟩, ?_⟩, ⟨?_, ?_, ?_⟩, fun p => ?_⟩
  · obtain ⟨more, rfl⟩ := Nat.exists_eq_add_of_lt positive
    simp [ptinit, List.range_eq_range', List.range'_succ]
  · rw [List.range_eq_range']
    refine follows_range' 0 maxmsgs (fun i _ less => ?_) fun i last => ?_
    · change (linkNodes node 0 (maxmsgs - 1) i).ptnext = some (i + 1)
      rw [linkNodes_next, if_neg (by omega), if_neg (by omega)]
    · change (linkNodes node 0 (maxmsgs - 1) i).ptnext = none
      rw [linkNodes_next, if_neg (by omega), if_pos (by omega)]
  · simp only [Multiset.coe_nil, Finset.sum_const_zero, add_zero]
    rfl
  · intro p side pid member
    cases side <;> cases member
  · intro pid member
    cases member
  · intro pid calling called
    cases called
  · refine ⟨fun keeps => ?_, rfl, List.suffix_refl _, fun _ => rfl, Nat.zero_le _, fun alloc => ?_,
      fun alloc => ?_, fun used => absurd rfl used, fun _ => ⟨rfl, fun side => ?_⟩, fun limbo => ?_,
      fun clearing cleared => ?_⟩
    · exact keeps.elim (fun alloc => by cases alloc) fun some => absurd rfl some
    · cases alloc
    · cases alloc
    · cases side <;> rfl
    · cases limbo
    · cases cleared

end Runs

section Results

variable {x : Machine} {maxmsgs : Nat} {p : Fin nports}

theorem walk_eq {list : List Nat} {fuel : Nat} (follows : Follows x.next list none)
    (enough : list.length ≤ fuel) : walk x.node fuel list.head? = list := by
  induction list generalizing fuel with
  | nil => cases fuel <;> rfl
  | cons a rest induction =>
      cases fuel with
      | zero => simp at enough
      | succ fuel =>
          have next : (x.node a).ptnext = rest.head? := follows.1.trans Option.or_none
          rw [List.head?_cons, walk, next, induction follows.2 (by simpa using enough)]

theorem length_total {free : List Nat} {nodes : Fin nports → List Nat}
    (sound : NodesSound x maxmsgs free nodes) :
    free.length + ∑ p, (nodes p).length = maxmsgs := by
  have card := congrArg Multiset.card sound.total
  simpa using card

theorem nodes_eq {list rest : List Nat} (port : PortSound x p list rest 0 0)
    (enough : list.length ≤ maxmsgs) : x.nodes maxmsgs p = list := by
  cases state : (x.porttab p).ptstate with
  | alloc =>
      obtain ⟨head, -, follows⟩ := port.ends (.inl state)
      simp only [Machine.nodes, state, head]
      exact walk_eq follows enough
  | free =>
      simp only [Machine.nodes, state, clearing_none port (by rw [state]; decide)]
      exact (port.idle state).1.symm
  | limbo =>
      obtain ⟨⟨newstate, stage⟩, cleared⟩ := Option.isSome_iff_exists.mp (port.limbo state)
      have clear := port.clears _ cleared
      simp only [Machine.nodes, state, cleared]
      cases stage with
      | disposing a =>
          obtain ⟨front, split⟩ := clear.walks a rfl
          obtain ⟨head, -, follows⟩ := port.ends (.inr (by rw [split]; simp))
          rw [head]
          exact walk_eq follows enough
      | senders => exact (clear.emptied fun a at_ => Stage.noConfusion at_).1.symm
      | receivers => exact (clear.emptied fun a at_ => Stage.noConfusion at_).1.symm

theorem queued_eq {list rest : List Nat} (port : PortSound x p list rest 0 0)
    (enough : list.length ≤ maxmsgs) : x.queued maxmsgs p = rest.map fun a => (x.node a).ptmsg := by
  cases state : (x.porttab p).ptstate with
  | alloc => simp only [Machine.queued, state, nodes_eq port enough, port.whole state]
  | free =>
      have inside := port.inside
      rw [(port.idle state).1, List.suffix_nil] at inside
      simp only [Machine.queued, state, clearing_none port (by rw [state]; decide), inside,
        List.map_nil]
  | limbo =>
      obtain ⟨⟨newstate, stage⟩, cleared⟩ := Option.isSome_iff_exists.mp (port.limbo state)
      have clear := port.clears _ cleared
      simp only [Machine.queued, state, cleared]
      cases stage with
      | disposing a =>
          obtain ⟨front, split⟩ := clear.walks a rfl
          obtain ⟨-, -, follows⟩ := port.ends (.inr (by rw [split]; simp))
          rw [split] at follows enough
          have leads := (follows_append.mp follows).2
          have next : x.next a = rest.head? := leads.1.trans Option.or_none
          rw [List.length_append, List.length_cons] at enough
          change (walk x.node maxmsgs (x.next a)).map _ = _
          rw [next, walk_eq leads.2 (by omega)]
      | senders =>
          rw [(clear.emptied fun a at_ => Stage.noConfusion at_).2.1]
          rfl
      | receivers =>
          rw [(clear.emptied fun a at_ => Stage.noConfusion at_).2.1]
          rfl

/-- A process that was blocked when its port was cleared has been released. -/
theorem cleared_ready {pid : Int} {calling : Calling} (callers : CallsSound x)
    {list rest : List Nat} (port : PortSound x calling.portid list rest 0 0)
    (called : x.calls pid = some calling)
    (cleared : calling.epoch ≠ (x.porttab calling.portid).epoch)
    (done : x.clearing calling.portid = none) : pid ∈ x.released := by
  have place := callers.places pid calling called
  by_contra unreleased
  rw [List.count_eq_zero_of_not_mem unreleased] at place
  have member : pid ∈ waiting (semOf calling.request.side (x.porttab calling.portid)) :=
    List.count_pos_iff.mp (by omega)
  obtain ⟨other, called', call⟩ := callers.waits calling.portid calling.request.side pid member
  obtain rfl := Option.some.inj (called.symm.trans called')
  cases state : (x.porttab calling.portid).ptstate with
  | alloc => exact cleared (call.current state).2
  | free =>
      rw [(port.idle state).2] at member
      cases member
  | limbo =>
      have clearing := port.limbo state
      rw [done] at clearing
      cases clearing

theorem channels (sound : Sound maxmsgs x) : Channels maxmsgs x := by
  obtain ⟨free, nodes, rest, listed, callers, ports⟩ := sound
  have total := length_total listed
  have enough : ∀ p, (nodes p).length ≤ maxmsgs := fun p => by
    have one := Finset.single_le_sum (f := fun p => (nodes p).length) (fun _ _ => Nat.zero_le _)
      (Finset.mem_univ p)
    omega
  have freeNodes : x.freeNodes maxmsgs = free := by
    rw [Machine.freeNodes, listed.freed.1]
    exact walk_eq listed.freed.2 (by omega)
  have own : ∀ p, x.nodes maxmsgs p = nodes p := fun p => nodes_eq (ports p) (enough p)
  refine ⟨fun p => ?_, fun p => ?_, ?_, ?_, fun pid calling called cleared fresh =>
    ⟨fun y reply did => ?_, fun done => ?_⟩⟩
  · rw [queued_eq (ports p) (enough p)]
    exact (ports p).order
  · rw [own p]
    exact (ports p).bounded
  · simp only [freeNodes, own]
    exact listed.total
  · simp only [freeNodes, own]
    exact total
  · simp only [proceeds, called, Option.bind_eq_bind, Option.bind_some] at did
    split_ifs at did with ready stale
    · cases did
      exact ⟨rfl, rfl, rfl⟩
    · obtain ⟨alloc, current⟩ := not_or.mp stale
      exact absurd (fresh calling called (not_not.mp alloc) (not_not.mp current)).symm cleared
  · have ready := cleared_ready callers (ports _) called cleared done
    simp only [proceeds, called, Option.bind_eq_bind, Option.bind_some]
    split_ifs with member stale
    · rfl
    · obtain ⟨alloc, current⟩ := not_or.mp stale
      exact absurd (fresh calling called (not_not.mp alloc) (not_not.mp current)).symm cleared
    · exact absurd (.inl ready) member

/-- In every run each port is a bounded queue, as long as no port is cleared or created 2 ^ 32 times
while a call waits. -/
theorem ports_are_channels (run : Reached act (Started maxmsgs) Proper x) : Channels maxmsgs x :=
  channels (reached_invariant run (fun _ => started_sound) fun _ _ _ => ports_step)

end Results

section Witnesses

/-- A machine that has just been started, on cleared memory -/
def blank : Machine :=
  ptinit (fun _ => ⟨0, none⟩) (fun _ => ⟨⟨0, [], []⟩, ⟨0, [], []⟩, .free, 0, 0, none, none, 0, 0⟩) 2

theorem blank_started : Started 2 blank := ⟨by decide, _, _, rfl⟩

/-- Process 2 waits for a place when the port is reset, and is refused. -/
theorem ports_are_channels_refused : ∃ x, takeEvents act Proper [.ptcreate 1, .ptsend 1 0 5,
    .ptsend 2 0 6, .ptreset 0, .clearsOn 0, .clearsOn 0, .clearsOn 0, .proceeds 2, .ptsend 3 0 7]
      blank = some x ∧ Channels 2 x := by
  obtain ⟨x, took⟩ := Option.isSome_iff_exists.mp (show (takeEvents act Proper [.ptcreate 1,
    .ptsend 1 0 5, .ptsend 2 0 6, .ptreset 0, .clearsOn 0, .clearsOn 0, .clearsOn 0, .proceeds 2,
    .ptsend 3 0 7] blank).isSome = true by decide +kernel)
  exact ⟨x, took, ports_are_channels (take_events (.start blank_started) took)⟩

/-- Process 2 has waited for a place since the port was created, and the port has been reset `times`
times. -/
structure Waited (times : Nat) (x : Machine) : Prop where
  entry : x.porttab 0 = ⟨⟨1, [], []⟩, ⟨0, [], []⟩, .alloc, 1, (1 + times) % word32, none, none,
    1 + times, 1⟩
  freed : x.ptfree = some 0
  next : x.next 0 = some 1
  clearing : x.clearing 0 = none
  released : x.released = [2]
  waits : x.calls 2 = some ⟨0, .send 6, 1, 1⟩
  idle : x.calls 3 = none

theorem waited_first : ∃ x, takeEvents act (fun _ _ => True) [.ptcreate 1, .ptsend 1 0 5,
    .ptsend 2 0 6, .ptreset 0, .clearsOn 0, .clearsOn 0, .clearsOn 0] blank = some x ∧
      Waited 1 x := by
  obtain ⟨x, took⟩ := Option.isSome_iff_exists.mp (show (takeEvents act (fun _ _ => True)
    [.ptcreate 1, .ptsend 1 0 5, .ptsend 2 0 6, .ptreset 0, .clearsOn 0, .clearsOn 0, .clearsOn 0]
      blank).isSome = true by decide +kernel)
  refine ⟨x, took, ?_⟩
  cases took
  exact ⟨rfl, rfl, rfl, rfl, rfl, rfl, rfl⟩

/-- The machine while the port is being reset for the last of the `times`. -/
def resetting (x : Machine) (times : Nat) (state : PtState) (clearing : Option Clearing) :
    Machine :=
  { x with
    porttab := Function.update x.porttab 0 ⟨⟨1, [], []⟩, ⟨0, [], []⟩, state, 1,
      (1 + times) % word32, none, none, 1 + times, 1⟩
    clearing := Function.update x.clearing 0 clearing }

theorem waited_again {times : Nat} {x : Machine} (waited : Waited times x) :
    ∃ y, takeEvents act (fun _ _ => True) [.ptreset 0, .clearsOn 0, .clearsOn 0] x = some y ∧
      Waited (times + 1) y := by
  obtain ⟨entry, freed, next, clearing, released, waits, idle⟩ := waited
  have seq : ((1 + times) % word32 + 1) % word32 = (1 + (times + 1)) % word32 := by
    rw [Nat.mod_add_mod, Nat.add_assoc]
  have reset : act x (.ptreset 0) =
      some (resetting x (times + 1) .limbo (some ⟨.alloc, .senders⟩)) := by
    change (ptclear x 0 .alloc).map Prod.fst = _
    simp only [ptclear, entry, disposes, clearsSenders, freeMessages, inLimbo, Machine.setEntry,
      sendersCleared, waiting, Function.update_self, Function.update_idem, ne_eq, not_true_eq_false,
      if_true, if_false, Option.bind_eq_bind, Option.bind_some, Option.map_some, List.append_nil,
      seq, Nat.add_assoc]
    rfl
  have senders : act (resetting x (times + 1) .limbo (some ⟨.alloc, .senders⟩)) (.clearsOn 0) =
      some (resetting x (times + 1) .limbo (some ⟨.alloc, .receivers⟩)) := by
    simp only [act, answer, clearsOn, resetting, Machine.setEntry, waiting, Function.update_self,
      Function.update_idem, Option.bind_eq_bind, Option.bind_some, Option.map_some, List.append_nil]
  have receivers : act (resetting x (times + 1) .limbo (some ⟨.alloc, .receivers⟩)) (.clearsOn 0) =
      some (resetting x (times + 1) .alloc none) := by
    simp only [act, answer, clearsOn, resetting, Machine.setEntry, Function.update_self,
      Function.update_idem, Option.bind_eq_bind, Option.bind_some, Option.map_some, reduceCtorEq,
      if_false]
  have took : takeEvents act (fun _ _ => True) [.ptreset 0, .clearsOn 0, .clearsOn 0] x =
      some (resetting x (times + 1) .alloc none) := by
    simp only [takeEvents, if_true, reset, senders, receivers, Option.bind_some]
  refine ⟨_, took, ⟨?_, freed, next, ?_, released, waits, idle⟩⟩
  · simp only [resetting, Function.update_self]
  · simp only [resetting, Function.update_self]

/-- The sequence number of the port is again the one that process 2 knows. -/
theorem waited_wraps : ∃ x, Reached act (Started 2) (fun _ _ => True) x ∧ Waited word32 x := by
  have every : ∀ times, ∃ x, Reached act (Started 2) (fun _ _ => True) x ∧
      Waited (times + 1) x := by
    intro times
    induction times with
    | zero =>
        obtain ⟨x, took, waited⟩ := waited_first
        exact ⟨x, take_events (.start blank_started) took, waited⟩
    | succ times induction =>
        obtain ⟨x, run, waited⟩ := induction
        obtain ⟨y, took, again⟩ := waited_again waited
        exact ⟨y, take_events run took, again⟩
  exact every (word32 - 1)

/-- Process 3 puts a message into the port, which is then full. -/
theorem waited_sends {x : Machine} (waited : Waited word32 x) :
    ∃ y, act x (.ptsend 3 0 7) = some y ∧ y.ptfree = some 1 ∧ y.released = [2] ∧
      y.calls 2 = some ⟨0, .send 6, 1, 1⟩ ∧
      y.porttab 0 = ⟨⟨0, [], []⟩, ⟨1, [], []⟩, .alloc, 1, 1, some 0, some 0, 1 + word32, 1⟩ := by
  obtain ⟨entry, freed, next, clearing, released, waits, idle⟩ := waited
  change ∃ y, (if (x.calls 3).isSome then none else beginsAt x 0 3 (.send 7)).map Prod.fst =
    some y ∧ _
  simp only [idle, beginsAt, entry, Option.isSome_none, Request.side, semOf, setSem, goesOn, sends,
    Machine.setEntry, freed, Semaphore.wait, Semaphore.run, Semaphore.signal, Function.update_self,
    Function.update_idem, Option.bind_eq_bind, Option.bind_some, Option.map_some, ne_eq,
    not_true_eq_false, if_false, Bool.false_eq_true]
  exact ⟨_, rfl, next, released, waits, by simp [word32]⟩

/-- A process that waited for a place goes on 2 ^ 32 resets later, and puts a second message into a
port for one. -/
theorem sequence_wraps : ¬∀ maxmsgs x, Reached act (Started maxmsgs) (fun _ _ => True) x →
    Channels maxmsgs x := by
  intro always
  obtain ⟨x, run, waited⟩ := waited_wraps
  obtain ⟨y, sent, freed, released, waits, entry⟩ := waited_sends waited
  have second : ∃ z, act y (.proceeds 2) = some z ∧ (z.porttab 0).ptstate = .alloc ∧
      (z.porttab 0).pthead = some 0 ∧ (z.porttab 0).size = 1 ∧ z.next 0 = some 1 := by
    change ∃ z, (proceeds y 2).map Prod.fst = some z ∧ _
    simp only [proceeds, waits, entry, released, leaves, Machine.setCall, Machine.setEntry,
      Machine.setNext, Request.side, semOf, setSem, goesOn, sends, freed, Semaphore.run,
      Semaphore.signal, Function.update_self, Function.update_idem, Option.bind_eq_bind,
      Option.bind_some, Option.map_some, List.mem_singleton, true_or, if_true, ne_eq,
      not_true_eq_false, or_self, if_false]
    refine ⟨_, rfl, ?_, ?_, ?_, ?_⟩
    · simp only [Function.update_self]
    · simp only [Function.update_self]
    · simp only [Function.update_self]
    · simp only [Machine.next, Function.update_self]
  obtain ⟨z, proceeded, alloc, head, size, next⟩ := second
  have bounded := (always 2 z (.step (.step run trivial sent) trivial proceeded)).bounded 0
  have leads : (z.node 0).ptnext = some 1 := next
  simp only [Machine.nodes, alloc, head, size, walk, leads] at bounded
  exact absurd bounded (by decide)

end Witnesses

end Xinu.Kernel.Ports
