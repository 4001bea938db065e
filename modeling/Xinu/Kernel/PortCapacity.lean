import Xinu.Kernel.PortRuns

/-!
# How much a port takes

A port that was just created takes as many messages as it was created with before a send blocks, and
one that was just reset as many as `ptmaxcnt` says, which has 16 bits of that count.
-/

namespace Xinu.Kernel.Ports

open Xinu.Kernel.State (word32)
open Xinu.Lib.Interleaving Xinu.Lib.Semaphores Xinu.Lib.SingleList

set_option autoImplicit false

section Statements

/-- Any events but receives from the port and clears of it, as long as no send to it blocks. -/
def Filling (p : Fin nports) (z : Machine) : Event → Prop
  | .ptsend pid portid msg =>
      portid = p → ∃ z', answer z (.ptsend pid portid msg) = some (z', some .ok)
  | .ptrecv _ portid => portid ≠ p
  | .proceeds pid => Fresh z pid
  | .ptreset portid => portid ≠ p
  | .ptdelete portid => portid ≠ p
  | _ => True

/-- The port takes exactly `n` more messages before a send blocks. A send needs a node. -/
structure Capacity (maxmsgs : Nat) (y : Machine) (p : Fin nports) (n : Nat) : Prop where
  takes : ∀ z, Reached act (fun z => z = y) (Filling p) z →
    ∃ k ≤ n, (z.sent p).length = (y.sent p).length + k ∧ ∀ pid msg z' reply,
      answer z (.ptsend pid p msg) = some (z', reply) → reply = if k < n then some .ok else none
  fills : ∀ pid, y.calls pid = none → n ≤ (y.freeNodes maxmsgs).length →
    ∃ z, Reached act (fun z => z = y) (Filling p) z ∧ z.calls pid = none ∧
      (z.sent p).length = (y.sent p).length + n

end Statements

section Entries

variable {x x' x'' : Machine} {p q : Fin nports} {entry : Ptentry} {maxmsgs : Nat}

/-- The entry of a port keeps the count that it was created with. -/
def KeepsSize (entry entry' : Ptentry) : Prop :=
  entry'.ptmaxcnt = entry.ptmaxcnt ∧ entry'.size = entry.size ∧
    (entry.ptstate = .free → entry'.ptstate = .free)

/-- A step that changes one port -/
structure Touches (q : Fin nports) (x x' : Machine) : Prop where
  keeps : KeepsSize (x.porttab q) (x'.porttab q)
  others : ∀ r ≠ q, x'.porttab r = x.porttab r ∧ x'.sent r = x.sent r ∧
    x'.clearing r = x.clearing r

theorem keeps_refl : KeepsSize entry entry := ⟨rfl, rfl, id⟩

theorem touches_same (porttab : x'.porttab = x.porttab)
    (others : ∀ r ≠ q, x'.sent r = x.sent r ∧ x'.clearing r = x.clearing r) : Touches q x x' := by
  refine ⟨?_, fun r differ => ⟨by rw [porttab], others r differ⟩⟩
  rw [porttab]
  exact keeps_refl

theorem touches_entry (keeps : KeepsSize (x.porttab q) entry)
    (porttab : x'.porttab = Function.update x.porttab q entry)
    (others : ∀ r ≠ q, x'.sent r = x.sent r ∧ x'.clearing r = x.clearing r) :
    Touches q x x' := by
  refine ⟨?_, fun r differ => ⟨?_, others r differ⟩⟩
  · rw [porttab, Function.update_self]
    exact keeps
  · rw [porttab, Function.update_of_ne differ]

theorem touches_setEntry (keeps : KeepsSize (x.porttab q) entry) :
    Touches q x (x.setEntry q entry) := touches_entry keeps rfl fun _ _ => ⟨rfl, rfl⟩

theorem touches_trans (first : Touches q x x') (second : Touches q x' x'') : Touches q x x'' := by
  obtain ⟨⟨maxcnt, size, state⟩, others⟩ := first
  obtain ⟨⟨maxcnt', size', state'⟩, others'⟩ := second
  refine ⟨⟨maxcnt'.trans maxcnt, size'.trans size, fun isFree => state' (state isFree)⟩,
    fun r differ => ?_⟩
  obtain ⟨entry, sent, clearing⟩ := others r differ
  obtain ⟨entry', sent', clearing'⟩ := others' r differ
  exact ⟨entry'.trans entry, sent'.trans sent, clearing'.trans clearing⟩

theorem touches_keeps (touches : Touches q x x') (p : Fin nports) :
    KeepsSize (x.porttab p) (x'.porttab p) := by
  by_cases same : p = q
  · rw [same]
    exact touches.keeps
  · rw [(touches.others p same).1]
    exact keeps_refl

theorem setSem_keeps {side : Side} {sem : Semaphore Int} :
    KeepsSize entry (setSem side sem entry) := by
  cases side <;> exact ⟨rfl, rfl, id⟩

end Entries

section Steps

variable {x x' : Machine} {p q : Fin nports} {msg : Nat} {pid : Int} {request : Request}
  {reply : Option Reply} {newstate : PtState}

theorem sends_touches (did : sends x q msg = some x') : Touches q x x' := by
  unfold sends at did
  obtain ⟨msgnode, _, did⟩ := Option.bind_eq_some_iff.mp did
  dsimp only at did
  have updated : ∀ r ≠ q, Function.update x.sent q (x.sent q ++ [msg]) r = x.sent r :=
    fun r differ => Function.update_of_ne differ _ _
  cases tail : (x.porttab q).pttail with
  | none =>
      rw [tail] at did
      obtain rfl := Option.some.inj did
      refine ⟨?_, fun r differ => ⟨?_, updated r differ, rfl⟩⟩
      · simp only [Machine.setEntry, Function.update_self]
        exact ⟨rfl, rfl, id⟩
      · simp only [Machine.setEntry, Function.update_of_ne differ]
  | some tailnode =>
      rw [tail] at did
      obtain rfl := Option.some.inj did
      refine ⟨?_, fun r differ => ⟨?_, updated r differ, rfl⟩⟩
      · simp only [Machine.setEntry, Machine.setNext, Function.update_self]
        exact ⟨rfl, rfl, id⟩
      · simp only [Machine.setEntry, Machine.setNext, Function.update_of_ne differ]

theorem receives_touches {result : Machine × Nat} (did : receives x q = some result) :
    Touches q x result.1 := by
  unfold receives at did
  obtain ⟨msgnode, _, did⟩ := Option.bind_eq_some_iff.mp did
  obtain rfl := Option.some.inj did
  refine touches_entry ?_ rfl fun r differ => ⟨rfl, rfl⟩
  split_ifs <;> exact ⟨rfl, rfl, id⟩

theorem goesOn_touches {result : Machine × Reply} (did : goesOn x q request = some result) :
    Touches q x result.1 := by
  cases request with
  | send msg =>
      obtain ⟨y, sent, rfl⟩ := Option.map_eq_some_iff.mp did
      exact sends_touches sent
  | recv =>
      obtain ⟨received, took, rfl⟩ := Option.map_eq_some_iff.mp did
      exact receives_touches took

theorem begins_touches (did : beginsAt x q pid request = some (x', reply)) : Touches q x x' := by
  unfold beginsAt at did
  dsimp only at did
  split_ifs at did
  · cases did
    exact touches_same rfl fun r _ => ⟨rfl, rfl⟩
  · cases did
    exact touches_entry setSem_keeps rfl fun r _ => ⟨rfl, rfl⟩
  · obtain ⟨result, went, same⟩ := Option.map_eq_some_iff.mp did
    cases same
    have second := goesOn_touches went
    exact touches_trans (touches_setEntry setSem_keeps) second

theorem leaves_touches (calling : Calling) : Touches calling.portid x (leaves x pid calling) :=
  touches_entry setSem_keeps rfl fun _ _ => ⟨rfl, rfl⟩

theorem proceeds_touches {calling : Calling} (called : x.calls pid = some calling)
    (did : proceeds x pid = some (x', reply)) : Touches calling.portid x x' := by
  unfold proceeds at did
  simp only [called, Option.bind_eq_bind, Option.bind_some] at did
  split_ifs at did
  · cases did
    exact leaves_touches calling
  · obtain ⟨result, went, same⟩ := Option.map_eq_some_iff.mp did
    cases same
    exact touches_trans (leaves_touches calling) (goesOn_touches went)

theorem sendersCleared_keeps {entry : Ptentry} :
    KeepsSize entry (sendersCleared newstate entry) := by
  unfold sendersCleared
  split_ifs <;> exact ⟨rfl, rfl, id⟩

theorem freeMessages_touches (did : freeMessages x q = some x') : Touches q x x' := by
  unfold freeMessages at did
  dsimp only at did
  cases head : (x.porttab q).pthead with
  | none =>
      rw [head] at did
      cases did
      exact touches_same rfl fun r _ => ⟨rfl, rfl⟩
  | some first =>
      rw [head] at did
      obtain ⟨tail, _, did⟩ := Option.bind_eq_some_iff.mp did
      obtain rfl := Option.some.inj did
      exact touches_same rfl fun r _ => ⟨rfl, rfl⟩

theorem disposes_touches {walk : Option Nat} (did : disposes x q newstate walk = some x') :
    Touches q x x' := by
  cases walk with
  | some a =>
      cases did
      exact touches_same rfl fun r differ => ⟨rfl, Function.update_of_ne differ _ _⟩
  | none =>
      obtain ⟨y, freed, did⟩ := Option.bind_eq_some_iff.mp did
      obtain rfl := Option.some.inj did
      exact touches_trans (freeMessages_touches freed) (touches_entry sendersCleared_keeps rfl
        fun r differ => ⟨rfl, Function.update_of_ne differ _ _⟩)

theorem ptclear_touches (did : ptclear x q newstate = some (x', reply)) : Touches q x x' := by
  unfold ptclear at did
  dsimp only at did
  split_ifs at did with closed
  · cases did
    exact touches_same rfl fun r _ => ⟨rfl, rfl⟩
  · obtain ⟨y, disposed, same⟩ := Option.map_eq_some_iff.mp did
    cases same
    have second := disposes_touches disposed
    refine touches_trans (touches_setEntry ?_) second
    refine ⟨rfl, rfl, fun isFree => ?_⟩
    rw [not_not.mp closed] at isFree
    cases isFree

theorem clearsOn_touches (used : (x.clearing q).isSome → (x.porttab q).ptstate ≠ .free)
    (did : clearsOn x q = some (x', reply)) : Touches q x x' := by
  obtain ⟨⟨newstate, stage⟩, cleared, did⟩ := Option.bind_eq_some_iff.mp did
  cases stage with
  | disposing walk =>
      obtain ⟨y, disposed, same⟩ := Option.map_eq_some_iff.mp did
      cases same
      exact disposes_touches disposed
  | senders =>
      cases did
      refine touches_entry ?_ rfl fun r differ => ⟨rfl, Function.update_of_ne differ _ _⟩
      exact ⟨rfl, rfl, id⟩
  | receivers =>
      cases did
      refine touches_entry ?_ rfl fun r differ => ⟨rfl, Function.update_of_ne differ _ _⟩
      exact ⟨rfl, rfl, fun isFree => absurd isFree (used (by rw [cleared]; rfl))⟩

/-- What the search of `ptcreate` does to a port -/
inductive Searched (count : Nat) (x x' : Machine) (reply : Reply) (p : Fin nports) : Prop
  | same (entry : x'.porttab p = x.porttab p) (reply : reply ≠ .port p)
  | created (isFree : (x.porttab p).ptstate = .free)
      (entry : x'.porttab p = created count (x.porttab p)) (reply : reply = .port p)

theorem search_searched (count more : Nat) (p : Fin nports) :
    Searched count x (searchPorts count more x).1 (searchPorts count more x).2 p ∧
      (searchPorts count more x).1.sent = x.sent ∧
      (searchPorts count more x).1.clearing = x.clearing := by
  induction more generalizing x with
  | zero => exact ⟨.same rfl (by simp [searchPorts]), rfl, rfl⟩
  | succ more induction =>
      unfold searchPorts
      dsimp only
      by_cases isFree : (x.porttab (Fin.ofNat nports x.ptnextid)).ptstate = .free
      · rw [if_pos isFree]
        refine ⟨?_, rfl, rfl⟩
        by_cases here : p = Fin.ofNat nports x.ptnextid
        · rw [← here] at isFree ⊢
          exact .created isFree (Function.update_self _ _ _) rfl
        · refine .same (Function.update_of_ne here _ _) fun same => here ?_
          rw [Reply.port.injEq] at same
          exact Fin.ext same.symm
      · rw [if_neg isFree]
        obtain ⟨searched, sent, clearing⟩ := @induction { x with
          ptnextid := if x.ptnextid + 1 ≥ nports then 0 else x.ptnextid + 1 }
        refine ⟨?_, sent, clearing⟩
        cases searched with
        | same entry reply => exact .same entry reply
        | created isFree entry reply => exact .created isFree entry reply

theorem ptcreate_searched (count : Int) (p : Fin nports) :
    Searched count.toNat x (ptcreate x count).1 (ptcreate x count).2 p ∧
      (ptcreate x count).1.sent = x.sent ∧ (ptcreate x count).1.clearing = x.clearing := by
  unfold ptcreate
  split_ifs
  · exact ⟨.same rfl (by simp), rfl, rfl⟩
  · exact search_searched count.toNat nports p

end Steps

section Sizes

variable {x x' : Machine} {maxmsgs : Nat} {event : Event} {reply : Option Reply}

/-- The port that a call is about -/
theorem atPort_touches {portid : Int} {call : Fin nports → Option (Machine × Option Reply)}
    (touches : ∀ q y reply, call q = some (y, reply) → Touches q x y)
    (did : atPort x portid call = some (x', reply)) :
    x' = x ∨ ∃ q : Fin nports, (q : Int) = portid ∧ Touches q x x' := by
  unfold atPort at did
  split_ifs at did with bad
  · cases did
    exact Or.inl rfl
  · refine Or.inr ⟨_, ?_, touches _ _ _ did⟩
    rw [not_or] at bad
    exact Int.toNat_of_nonneg (by omega)

/-- The port that an event is about, where a call that waits names the port. -/
def About (x : Machine) (q : Fin nports) : Event → Prop
  | .ptcreate _ => False
  | .ptsend _ portid _ => portid = q
  | .ptrecv _ portid => portid = q
  | .proceeds pid => ∃ calling, x.calls pid = some calling ∧ calling.portid = q
  | .ptreset portid => portid = q
  | .ptdelete portid => portid = q
  | .clearsOn p => p = q

theorem answer_touches (sound : Sound maxmsgs x) (did : answer x event = some (x', reply)) :
    (∃ count, event = .ptcreate count) ∨ x' = x ∨ ∃ q, About x q event ∧ Touches q x x' := by
  cases event with
  | ptcreate count => exact Or.inl ⟨count, rfl⟩
  | ptsend pid portid msg =>
      simp only [answer] at did
      split_ifs at did
      rcases atPort_touches (fun q y reply => begins_touches) did with same | ⟨q, about, touches⟩
      · exact Or.inr (Or.inl same)
      · exact Or.inr (Or.inr ⟨q, about.symm, touches⟩)
  | ptrecv pid portid =>
      simp only [answer] at did
      split_ifs at did
      rcases atPort_touches (fun q y reply => begins_touches) did with same | ⟨q, about, touches⟩
      · exact Or.inr (Or.inl same)
      · exact Or.inr (Or.inr ⟨q, about.symm, touches⟩)
  | proceeds pid =>
      have went : proceeds x pid = some (x', reply) := did
      obtain ⟨calling, called, _⟩ := Option.bind_eq_some_iff.mp did
      exact Or.inr (Or.inr ⟨calling.portid, ⟨calling, called, rfl⟩, proceeds_touches called went⟩)
  | ptreset portid =>
      simp only [answer] at did
      rcases atPort_touches (fun q y reply => ptclear_touches) did with same | ⟨q, about, touches⟩
      · exact Or.inr (Or.inl same)
      · exact Or.inr (Or.inr ⟨q, about.symm, touches⟩)
  | ptdelete portid =>
      simp only [answer] at did
      rcases atPort_touches (fun q y reply => ptclear_touches) did with same | ⟨q, about, touches⟩
      · exact Or.inr (Or.inl same)
      · exact Or.inr (Or.inr ⟨q, about.symm, touches⟩)
  | clearsOn p =>
      refine Or.inr (Or.inr ⟨p, rfl, clearsOn_touches (fun clears isFree => ?_) did⟩)
      obtain ⟨free, nodes, rest, _, _, ports⟩ := sound
      have idle := clearing_none (ports p) (by rw [isFree]; decide)
      rw [idle] at clears
      cases clears

theorem answered_sound (sound : Sound maxmsgs x) (did : answer x event = some (x', reply))
    (may : Proper x event) : Sound maxmsgs x' :=
  ports_step sound may (congrArg (Option.map Prod.fst) did)

/-- `ptmaxcnt` has 16 bits of the count. -/
def Sized (x : Machine) : Prop :=
  ∀ p, (x.porttab p).ptstate ≠ .free → (x.porttab p).ptmaxcnt = (x.porttab p).size % 65536

theorem sized_step (sound : Sound maxmsgs x) (sized : Sized x) (did : act x event = some x') :
    Sized x' := by
  obtain ⟨⟨y, reply⟩, answered, rfl⟩ := Option.map_eq_some_iff.mp did
  intro p used
  dsimp only at used ⊢
  rcases answer_touches sound answered with ⟨count, rfl⟩ | rfl | ⟨q, _, touches⟩
  · cases answered
    rcases (ptcreate_searched count p).1 with ⟨same, _⟩ | ⟨_, created, _⟩
    · rw [same] at used ⊢
      exact sized p used
    · rw [created]
      rfl
  · exact sized p used
  · obtain ⟨maxcnt, size, isFree⟩ := touches_keeps touches p
    rw [maxcnt, size]
    exact sized p fun before => used (isFree before)

theorem sized_reached (run : Reached act (Started maxmsgs) Proper x) :
    Sound maxmsgs x ∧ Sized x := by
  refine @reached_invariant _ _ _ _ _ (fun x => Sound maxmsgs x ∧ Sized x) x run ?_ ?_
  · intro x started
    refine ⟨started_sound started, ?_⟩
    obtain ⟨_, node, porttab, rfl⟩ := started
    intro p used
    exact absurd rfl used
  · rintro x y event ⟨sound, sized⟩ may did
    exact ⟨ports_step sound may did, sized_step sound sized did⟩

end Sizes

section Filling

variable {y z z' : Machine} {p : Fin nports} {maxmsgs n k : Nat} {pid : Int} {msg : Nat}
  {event : Event} {reply : Option Reply}

/-- A port that has taken `k` messages since it could take `n`, and given none -/
structure Filled (maxmsgs : Nat) (y : Machine) (p : Fin nports) (n k : Nat) (z : Machine) :
    Prop where
  sound : Sound maxmsgs z
  count : (z.sent p).length = (y.sent p).length + k
  fits : k ≤ n
  alloc : (z.porttab p).ptstate = .alloc
  ptssem : (z.porttab p).ptssem = ⟨(n : Int) - k, [], []⟩
  ptrsem : (z.porttab p).ptrsem = ⟨k, [], []⟩

/-- A port with a place taken from its semaphore -/
def taken (z : Machine) (p : Fin nports) (count : Int) : Machine :=
  z.setEntry p { z.porttab p with ptssem := ⟨count, [], []⟩ }

theorem answer_send (idle : z.calls pid = none) :
    answer z (.ptsend pid p msg) = beginsAt z p pid (.send msg) := by
  simp only [answer, idle, Option.isSome_none, Bool.false_eq_true, if_false, atPort]
  have inside := p.isLt
  rw [dif_neg (by omega)]
  congr 1

/-- A send finds a place, or it blocks. -/
theorem send_begins (filled : Filled maxmsgs y p n k z) (idle : z.calls pid = none) :
    answer z (.ptsend pid p msg) = if k < n
      then (sends (taken z p ((n : Int) - k - 1)) p msg).map fun z => (z, some .ok)
      else some ((z.setEntry p (setSem .senders ((z.porttab p).ptssem.wait pid)
        (z.porttab p))).setCall pid (some ⟨p, .send msg, (z.porttab p).ptseq, (z.porttab p).epoch⟩),
          none) := by
  rw [answer_send idle, beginsAt]
  simp only [Request.side, semOf, filled.alloc, ne_eq, not_true_eq_false, if_false, filled.ptssem]
  have fits := filled.fits
  by_cases room : k < n
  · have granted : ¬((n : Int) - k - 1 < 0) := by omega
    rw [if_neg granted, if_pos room]
    simp only [Semaphore.wait, if_neg granted, Semaphore.run, List.nil_append,
      List.erase_cons_head, goesOn, setSem, taken, Option.map_map]
    rfl
  · have blocked : (n : Int) - k - 1 < 0 := by omega
    rw [if_pos blocked, if_neg room]

theorem send_answered (filled : Filled maxmsgs y p n k z)
    (did : answer z (.ptsend pid p msg) = some (z', reply)) :
    reply = (if k < n then some .ok else none) ∧
      (reply = some .ok → k < n ∧ sends (taken z p ((n : Int) - k - 1)) p msg = some z') := by
  have idle : z.calls pid = none := by
    cases calling : z.calls pid with
    | none => rfl
    | some calling =>
        simp only [answer, calling, Option.isSome_some, if_true] at did
        cases did
  rw [send_begins filled idle] at did
  split_ifs at did with room
  · obtain ⟨after, sent, same⟩ := Option.map_eq_some_iff.mp did
    cases same
    exact ⟨(if_pos room).symm, fun _ => ⟨room, sent⟩⟩
  · cases did
    exact ⟨(if_neg room).symm, fun replied => by cases replied⟩

/-- What a send does to its port -/
theorem sends_port (did : sends z p msg = some z') :
    z'.sent p = z.sent p ++ [msg] ∧ (z'.porttab p).ptstate = (z.porttab p).ptstate ∧
      (z'.porttab p).ptssem = (z.porttab p).ptssem ∧
      (z'.porttab p).ptrsem = (z.porttab p).ptrsem.signal := by
  unfold sends at did
  obtain ⟨msgnode, _, did⟩ := Option.bind_eq_some_iff.mp did
  dsimp only at did
  cases tail : (z.porttab p).pttail <;> rw [tail] at did <;> obtain rfl := Option.some.inj did <;>
    simp only [Machine.setEntry, Machine.setNext, Function.update_self, and_self]

theorem send_filled (filled : Filled maxmsgs y p n k z) (sound : Sound maxmsgs z')
    (did : answer z (.ptsend pid p msg) = some (z', some .ok)) :
    Filled maxmsgs y p n (k + 1) z' := by
  obtain ⟨room, sent⟩ := (send_answered filled did).2 rfl
  obtain ⟨sentEq, state, ptssem, ptrsem⟩ := sends_port sent
  simp only [taken, Machine.setEntry, Function.update_self] at sentEq state ptssem ptrsem
  refine ⟨sound, ?_, room, state.trans filled.alloc, ?_, ?_⟩
  · rw [sentEq, List.length_append, List.length_singleton, filled.count, Nat.add_assoc]
  · rw [ptssem]
    congr 1
    omega
  · rw [ptrsem, filled.ptrsem, Semaphore.signal, if_neg (by simp)]
    simp

/-- What is done elsewhere -/
theorem same_filled (filled : Filled maxmsgs y p n k z) (sound : Sound maxmsgs z')
    (sent : z'.sent p = z.sent p) (entry : z'.porttab p = z.porttab p) :
    Filled maxmsgs y p n k z' :=
  ⟨sound, by rw [sent, filled.count], filled.fits, by rw [entry, filled.alloc],
    by rw [entry, filled.ptssem], by rw [entry, filled.ptrsem]⟩

/-- A process that runs at the port has been released before, and is refused. -/
theorem refused_filled (filled : Filled maxmsgs y p n k z) (sound : Sound maxmsgs z')
    (fresh : Fresh z pid) {calling : Calling} (called : z.calls pid = some calling)
    (here : calling.portid = p) (did : proceeds z pid = some (z', reply)) :
    Filled maxmsgs y p n k z' := by
  subst here
  have callers : CallsSound z := by
    obtain ⟨_, _, _, _, callers, _⟩ := filled.sound
    exact callers
  have nobody : (semOf calling.request.side (z.porttab calling.portid)).passed = [] := by
    cases calling.request.side with
    | senders => rw [semOf, filled.ptssem]
    | receivers => rw [semOf, filled.ptrsem]
  simp only [proceeds, called, Option.bind_eq_bind, Option.bind_some] at did
  split_ifs at did with ready stale
  · cases did
    refine same_filled filled sound rfl ?_
    simp only [leaves, Machine.setEntry, Machine.setCall, Function.update_self]
    rw [run_absent (by rw [nobody]; simp), setSem_same]
  · exfalso
    obtain ⟨alloc, current⟩ := not_or.mp stale
    rw [nobody] at ready
    obtain ⟨other, called', older⟩ := callers.stale pid (ready.resolve_right (by simp))
    obtain rfl := Option.some.inj (called.symm.trans called')
    have same := fresh calling called (not_not.mp alloc) (not_not.mp current)
    omega

theorem filled_step (filled : Filled maxmsgs y p n k z) (may : Filling p z event)
    (did : act z event = some z') : ∃ k, Filled maxmsgs y p n k z' := by
  obtain ⟨⟨after, reply⟩, answered, rfl⟩ := Option.map_eq_some_iff.mp did
  have proper : Proper z event := by
    cases event <;> first | exact trivial | exact may
  have sound : Sound maxmsgs after := ports_step filled.sound proper did
  rcases answer_touches filled.sound answered with ⟨count, rfl⟩ | rfl | ⟨q, about, touches⟩
  · cases answered
    obtain ⟨searched, sent, _⟩ := @ptcreate_searched z count p
    rcases searched with ⟨entry, _⟩ | ⟨isFree, _, _⟩
    · exact ⟨k, same_filled filled sound (congrFun sent p) entry⟩
    · rw [filled.alloc] at isFree
      cases isFree
  · exact ⟨k, filled⟩
  · by_cases here : p = q
    · subst here
      cases event with
      | ptcreate count => exact about.elim
      | ptsend pid portid msg =>
          obtain rfl : portid = (p : Int) := about
          obtain ⟨z', done⟩ := may rfl
          rw [done] at answered
          cases answered
          exact ⟨k + 1, send_filled filled sound done⟩
      | ptrecv pid portid => exact absurd about may
      | proceeds pid =>
          obtain ⟨calling, called, here⟩ := about
          exact ⟨k, refused_filled filled sound may called here answered⟩
      | ptreset portid => exact absurd about may
      | ptdelete portid => exact absurd about may
      | clearsOn q =>
          obtain rfl : q = p := about
          obtain ⟨_, _, _, _, _, ports⟩ := filled.sound
          have idle := clearing_none (ports q) (by rw [filled.alloc]; decide)
          simp only [answer, clearsOn, idle, Option.bind_eq_bind, Option.bind_none] at answered
          cases answered
    · obtain ⟨entry, sent, _⟩ := touches.others p here
      exact ⟨k, same_filled filled sound sent entry⟩

theorem filled_reached (filled : Filled maxmsgs y p n 0 y)
    (run : Reached act (fun z => z = y) (Filling p) z) : ∃ k, Filled maxmsgs y p n k z := by
  refine @reached_invariant _ _ _ _ _ (fun z => ∃ k, Filled maxmsgs y p n k z) z run ?_ ?_
  · rintro z rfl
    exact ⟨0, filled⟩
  · rintro z z' event ⟨k, filled⟩ may did
    exact filled_step filled may did

theorem freeNodes_eq {free : List Nat} (sound : Sound maxmsgs z) (head : z.ptfree = free.head?)
    (follows : Follows z.next free none) : z.freeNodes maxmsgs = free := by
  obtain ⟨free', nodes, rest, listed, _, _⟩ := sound
  have total := length_total listed
  rw [follows_unique follows listed.freed.2 (head.symm.trans listed.freed.1), Machine.freeNodes,
    listed.freed.1]
  exact walk_eq listed.freed.2 (by omega)

/-- While there is a node and a place, a send completes and takes one of each. -/
theorem send_completes (filled : Filled maxmsgs y p n k z) (idle : z.calls pid = none)
    (room : k < n) (nodes_left : 0 < (z.freeNodes maxmsgs).length) (msg : Nat) :
    ∃ z', answer z (.ptsend pid p msg) = some (z', some .ok) ∧ z'.calls pid = none ∧
      Filled maxmsgs y p n (k + 1) z' ∧
        (z.freeNodes maxmsgs).length = (z'.freeNodes maxmsgs).length + 1 := by
  have begins := @send_begins y z p maxmsgs n k pid msg filled idle
  rw [if_pos room] at begins
  obtain ⟨free, nodes, rest, listed, callers, ports⟩ := filled.sound
  have whole := freeNodes_eq filled.sound listed.freed.1 listed.freed.2
  rw [whole] at nodes_left ⊢
  obtain ⟨head, tail, -⟩ := (ports p).ends (.inl filled.alloc)
  cases free with
  | nil => exact absurd nodes_left (Nat.lt_irrefl 0)
  | cons a free =>
      have freed : (taken z p ((n : Int) - k - 1)).ptfree = some a := listed.freed.1
      have sent := @sends_eq (taken z p ((n : Int) - k - 1)) p msg a (nodes p) freed
        (by simpa only [taken, Machine.setEntry, Function.update_self] using head)
        (by simpa only [taken, Machine.setEntry, Function.update_self] using tail)
      rw [sent] at begins
      refine ⟨_, begins, idle, ?_, ?_⟩
      all_goals
        have sound := answered_sound filled.sound begins trivial
      · exact send_filled filled sound begins
      · have own := (nodes_apart listed.total p).1
        have once : a ∉ free := by grind
        have leads := listed.freed.2
        rw [freeNodes_eq sound (leads.1.trans Option.or_none)
          (follows_congr leads.2 fun b member => ?_)]
        · rfl
        · refine congrArg Ptnode.ptnext (enqueued_other ?_ fun last => ?_)
          · rintro rfl
            exact once member
          · exact free_apart listed.total (List.mem_cons_of_mem a member) p
              (List.mem_of_getLast? last)

/-- The sends of one process fill the port. -/
theorem sends_fill (filled : Filled maxmsgs y p n 0 y) (idle : y.calls pid = none)
    (enough : n ≤ (y.freeNodes maxmsgs).length) (k : Nat) (fits : k ≤ n) :
    ∃ z, Reached act (fun z => z = y) (Filling p) z ∧ z.calls pid = none ∧
      Filled maxmsgs y p n k z ∧
        (y.freeNodes maxmsgs).length = (z.freeNodes maxmsgs).length + k := by
  induction k with
  | zero => exact ⟨y, .start rfl, idle, filled, rfl⟩
  | succ k induction =>
      obtain ⟨z, run, idle', before, left⟩ := induction (by omega)
      obtain ⟨z', done, idle'', after, less⟩ :=
        send_completes before idle' (by omega) (by omega) 0
      have may : Filling p z (.ptsend pid p 0) := fun _ => ⟨z', done⟩
      exact ⟨z', .step run may (congrArg (Option.map Prod.fst) done), idle'', after, by omega⟩

theorem filled_capacity (filled : Filled maxmsgs y p n 0 y) : Capacity maxmsgs y p n := by
  refine ⟨fun z run => ?_, fun pid idle enough => ?_⟩
  · obtain ⟨k, after⟩ := filled_reached filled run
    exact ⟨k, after.fits, after.count, fun pid msg z' reply did => (send_answered after did).1⟩
  · obtain ⟨z, run, idle', after, _⟩ := sends_fill filled idle enough n (Nat.le_refl n)
    exact ⟨z, run, idle', after.count⟩

/-- A port that takes `n` messages takes no other number of them. -/
theorem filled_exact {other : Nat} (filled : Filled maxmsgs y p n 0 y) (idle : y.calls pid = none)
    (enough : n ≤ (y.freeNodes maxmsgs).length) (capacity : Capacity maxmsgs y p other) :
    other ≤ n := by
  obtain ⟨z, run, idle', after, _⟩ := sends_fill filled idle enough n (Nat.le_refl n)
  obtain ⟨k, _, count, answers⟩ := capacity.takes z run
  have same : k = n := by
    have counted := after.count
    omega
  subst same
  have blocks := @send_begins y z p maxmsgs k k pid 0 after idle'
  rw [if_neg (Nat.lt_irrefl k)] at blocks
  have replied := answers pid 0 _ _ blocks
  by_contra more
  rw [if_pos (by omega)] at replied
  cases replied

end Filling

section CapacityResults

variable {x y : Machine} {p : Fin nports} {maxmsgs : Nat}

theorem created_filled (sound : Sound maxmsgs y) (count : Nat) (entry : Ptentry)
    (made : y.porttab p = created count entry) : Filled maxmsgs y p count 0 y := by
  refine ⟨sound, rfl, Nat.zero_le _, ?_, ?_, ?_⟩ <;> rw [made] <;> simp [created]

/-- The last step of `ptreset` -/
theorem reset_filled (run : Reached act (Started maxmsgs) Proper x)
    (resets : (x.clearing p).map Clearing.newstate = some .alloc)
    (did : answer x (.clearsOn p) = some (y, some .ok)) :
    Filled maxmsgs y p ((y.porttab p).size % 65536) 0 y ∧
      (y.porttab p).size = (x.porttab p).size := by
  obtain ⟨sound, sized⟩ := sized_reached run
  have sound' : Sound maxmsgs y := answered_sound sound did trivial
  obtain ⟨free, nodes, rest, listed, callers, ports⟩ := sound
  obtain ⟨⟨newstate, stage⟩, cleared, renewed⟩ := Option.map_eq_some_iff.mp resets
  obtain rfl : newstate = .alloc := renewed
  have clear := (ports p).clears _ cleared
  have maxcnt := sized p (by rw [clear.state]; decide)
  simp only [answer, clearsOn, cleared, Option.bind_eq_bind, Option.bind_some] at did
  cases stage with
  | disposing walk =>
      obtain ⟨z, _, same⟩ := Option.map_eq_some_iff.mp did
      cases same
  | senders => cases did
  | receivers =>
      cases did
      obtain ⟨_, _, _, reset⟩ := clear.emptied fun a at_ => Stage.noConfusion at_
      have sems := (reset rfl).2.2
      have receivers := clear.receivers rfl
      refine ⟨⟨sound', rfl, Nat.zero_le _, ?_, ?_, ?_⟩, ?_⟩
      · simp only [Machine.setEntry, Function.update_self]
      · simp only [Machine.setEntry, Function.update_self, sems, maxcnt]
        simp
      · simp only [Machine.setEntry, Function.update_self, receivers]
        simp
      · simp only [Machine.setEntry, Function.update_self]

/-- In any run a port takes as many messages when it was reset as when it was created if it was
created with less than 2 ^ 16. Otherwise it takes the remainder, and so less. -/
theorem reset_restores_capacity (run : Reached act (Started maxmsgs) Proper x) :
    (∀ count y (p : Fin nports), answer x (.ptcreate count) = some (y, some (.port p)) →
      (y.porttab p).size = count.toNat ∧ Capacity maxmsgs y p count.toNat) ∧
    ∀ y p, (x.clearing p).map Clearing.newstate = some .alloc →
      answer x (.clearsOn p) = some (y, some .ok) →
        (y.porttab p).size = (x.porttab p).size ∧
        Capacity maxmsgs y p ((y.porttab p).size % 65536) ∧
        ((y.porttab p).size < 65536 → Capacity maxmsgs y p (y.porttab p).size) ∧
        ∀ pid, y.calls pid = none →
          (y.porttab p).size % 65536 ≤ (y.freeNodes maxmsgs).length →
            Capacity maxmsgs y p (y.porttab p).size → (y.porttab p).size < 65536 := by
  refine ⟨fun count y p did => ?_, fun y p resets did => ?_⟩
  · have sound' : Sound maxmsgs y := answered_sound (sized_reached run).1 did trivial
    have replied := Prod.mk.inj (Option.some.inj did)
    have searched := (@ptcreate_searched x count p).1
    rw [replied.1, Option.some.inj replied.2] at searched
    rcases searched with ⟨_, other⟩ | ⟨_, made, _⟩
    · exact absurd rfl other
    · exact ⟨by rw [made]; rfl, filled_capacity (created_filled sound' _ _ made)⟩
  · obtain ⟨filled, size⟩ := reset_filled run resets did
    refine ⟨size, filled_capacity filled, fun small => ?_, fun pid idle enough capacity => ?_⟩
    · rw [Nat.mod_eq_of_lt small] at filled
      exact filled_capacity filled
    · have least := filled_exact filled idle enough capacity
      omega

/-- A port for one message has been filled and is reset. -/
theorem reset_restores_one : ∃ x y, takeEvents act Proper [.ptcreate 1, .ptsend 1 0 5, .ptreset 0,
    .clearsOn 0, .clearsOn 0] blank = some x ∧ answer x (.clearsOn 0) = some (y, some .ok) ∧
      Capacity 2 y 0 1 := by
  obtain ⟨x, took⟩ := Option.isSome_iff_exists.mp (show (takeEvents act Proper [.ptcreate 1,
    .ptsend 1 0 5, .ptreset 0, .clearsOn 0, .clearsOn 0] blank).isSome = true by decide +kernel)
  have facts : (x.clearing 0).map Clearing.newstate = some .alloc ∧ (x.porttab 0).size = 1 ∧
      ((answer x (.clearsOn 0)).bind Prod.snd).isSome := by
    cases took
    exact ⟨rfl, rfl, rfl⟩
  obtain ⟨resets, size, answered⟩ := facts
  obtain ⟨reply, did⟩ := Option.isSome_iff_exists.mp answered
  obtain ⟨⟨y, replied⟩, did, rfl⟩ := Option.bind_eq_some_iff.mp did
  have done : reply = .ok := by
    simp only [answer, clearsOn] at did
    obtain ⟨clearing, cleared, did⟩ := Option.bind_eq_some_iff.mp did
    split at did
    · obtain ⟨_, _, same⟩ := Option.map_eq_some_iff.mp did
      cases same
    · cases did
    · cases did
      rfl
  subst done
  have results := (reset_restores_capacity (take_events (.start blank_started) took)).2 y 0 resets
    did
  have small := results.2.2.1
  rw [results.1, size] at small
  exact ⟨x, y, took, did, small (by decide)⟩

/-- A port for 65536 messages takes none when it has been reset. -/
theorem large_port_shrinks : ∃ x y, takeEvents act Proper [.ptcreate 65536, .ptreset 0,
    .clearsOn 0] blank = some x ∧ answer x (.clearsOn 0) = some (y, some .ok) ∧
      (y.porttab 0).size = 65536 ∧ ¬Capacity 2 y 0 65536 := by
  obtain ⟨⟨y, replied⟩, facts⟩ := Option.isSome_iff_exists.mp (show ((takeEvents act Proper
    [.ptcreate 65536, .ptreset 0, .clearsOn 0] blank).bind fun x =>
      answer x (.clearsOn 0)).isSome = true by decide +kernel)
  obtain ⟨x, took, did⟩ := Option.bind_eq_some_iff.mp facts
  have blocks : (answer y (.ptsend 1 0 5)).map Prod.snd = some none := by
    cases took
    cases did
    rfl
  have reply : replied = some .ok ∧ (y.porttab 0).size = 65536 := by
    cases took
    cases did
    exact ⟨rfl, rfl⟩
  obtain ⟨rfl, size⟩ := reply
  refine ⟨x, y, took, did, size, fun capacity => ?_⟩
  obtain ⟨k, _, count, answers⟩ := capacity.takes y (.start rfl)
  obtain ⟨⟨z, replied⟩, sent, none⟩ := Option.map_eq_some_iff.mp blocks
  have replies := answers 1 5 z replied sent
  rw [if_pos (by omega)] at replies
  dsimp only at none
  rw [none] at replies
  cases replies

end CapacityResults

end Xinu.Kernel.Ports
