import Xinu.Net.ArpCache

/-!
# ARP answers

The hardware address that `arp_resolve` returns is that of a packet, as long as the only messages
that let it return are those of `arp_in` for its own entry, and the entry is not given to another
address before it runs again.
-/

namespace Xinu.Net.ArpAnswers

open Xinu.Kernel.State (sysErr ok)
open Xinu.Lib.Interleaving
open Xinu.Net.Arp

set_option autoImplicit false

section Definitions

/-- The step calls `arp_alloc`. -/
def Allocates (m : Machine) : Event → Prop
  | .resolve net _ nxthop => ¬(nxthop = ipBcast ∨ nxthop = net.ipbcast) ∧ lookup m nxthop = none
  | .packet net pkt =>
      ¬(pkt.arpHtype ≠ arpHtype ∨ pkt.arpPtype ≠ arpPtype) ∧ lookup m pkt.arpSndpa = none ∧
        ¬(pkt.arpOp = arpOpRply ∨ net.ipvalid = false ∨ pkt.arpTarpa ≠ net.ipucast)
  | _ => False

/-- `arp_alloc` takes no entry from a process that waits for it. -/
def Leaves (m : Machine) (event : Event) : Prop :=
  Allocates m event → ∀ slot ∈ arpAlloc m, (m.arpcache slot).arstate = .resolved →
    ∀ pid w, (m.proc pid).waits = some w → w.slot ≠ slot

/-- No message but the answer lets a process return `OK` from `arp_resolve`: neither a message of
another process, nor one of `arp_in` for another entry that bears its number. -/
def Answers (m : Machine) : Event → Prop
  | .message pid msg => (m.proc pid).waits.isSome = true → (m.proc pid).prmsg = none →
      msg = timeout ∨ msg = sysErr
  | .exit pid parent => parent ≠ pid → (m.proc parent).waits.isSome = true →
      (m.proc parent).prmsg ≠ none
  | .packet _ pkt => ∀ slot ∈ lookup m pkt.arpSndpa, (m.arpcache slot).arstate = .pending →
      ∀ w ∈ (m.proc (m.arpcache slot).arpid).waits,
        (m.proc (m.arpcache slot).arpid).prmsg = none → w.slot = slot
  | _ => True

def Undisturbed (m : Machine) (event : Event) : Prop := Leaves m event ∧ Answers m event

/-- The address is not one that `arp_resolve` answers with the broadcast address. -/
def Unicast : Event → Prop
  | .resolve net _ nxthop => nxthop ≠ ipBcast ∧ nxthop ≠ net.ipbcast
  | _ => True

/-- Some packet has come from the protocol address with the hardware address. -/
def Heard (m : Machine) (addr mac : Nat) : Prop :=
  ∃ pkt ∈ m.received, pkt.arpSndpa = addr ∧ pkt.arpSndha = mac

/-- Where a process waits, the entry is for its address, and is resolved when it holds the
answer. -/
structure Waits (m : Machine) (pid : Int) (w : Resolving) : Prop where
  addr : (m.arpcache w.slot).arpaddr = w.nxthop
  used : (m.arpcache w.slot).arstate ≠ .free
  answered : ∀ msg ∈ (m.proc pid).prmsg, msg ≠ timeout → msg ≠ sysErr →
    (m.arpcache w.slot).arstate = .resolved

structure Known (m : Machine) : Prop where
  heard : ∀ slot, (m.arpcache slot).arstate = .resolved →
    Heard m (m.arpcache slot).arpaddr (m.arpcache slot).arhaddr
  waits : ∀ pid w, (m.proc pid).waits = some w → Waits m pid w
  apart : ∀ p q v w, (m.proc p).waits = some v → (m.proc q).waits = some w → v.slot = w.slot → p = q

end Definitions

section Frames

variable {m n : Machine} {slot : Nat} {pid : Int}

/-- A process changes that does not wait, before or after. -/
theorem known_proc (known : Known m) (p : Proc) (idle : p.waits = none) :
    Known (setProc m pid p) := by
  have before : ∀ q w, ((setProc m pid p).proc q).waits = some w →
      q ≠ pid ∧ (m.proc q).waits = some w := by
    intro q w waits
    by_cases is_pid : q = pid
    · subst is_pid
      rw [setProc_self, idle] at waits
      cases waits
    · rw [setProc_ne is_pid] at waits
      exact ⟨is_pid, waits⟩
  refine ⟨known.heard, fun q w waits => ?_, fun q r v w first second => ?_⟩
  · obtain ⟨other, was⟩ := before q w waits
    obtain ⟨addr, used, answered⟩ := known.waits q w was
    refine ⟨addr, used, ?_⟩
    rw [setProc_ne other]
    exact answered
  · exact known.apart q r v w (before q v first).2 (before r w second).2

/-- A message that is none for `arp_resolve`, or that is the answer. -/
theorem known_send (known : Known m) {msg : Int}
    (harmless : ∀ w, (m.proc pid).waits = some w → (m.proc pid).prmsg = none → msg ≠ timeout →
      msg ≠ sysErr → (m.arpcache w.slot).arstate = .resolved) : Known (send m pid msg) := by
  have before : ∀ q, ((send m pid msg).proc q).waits = (m.proc q).waits := by
    intro q
    rcases @send_proc m pid msg q with same | ⟨is_pid, -, -, told⟩
    · rw [same]
    · rw [told, is_pid]
  refine ⟨?_, fun q w waits => ?_, fun q r v w first second => ?_⟩
  · unfold Heard
    rw [send_arpcache, send_received]
    exact known.heard
  · rw [before] at waits
    obtain ⟨addr, used, answered⟩ := known.waits q w waits
    refine ⟨by rw [send_arpcache]; exact addr, by rw [send_arpcache]; exact used, ?_⟩
    rw [send_arpcache]
    rcases @send_proc m pid msg q with same | ⟨is_pid, empty, -, told⟩
    · rw [same]
      exact answered
    · rw [told]
      intro held isHeld
      obtain rfl := Option.some.inj isHeld
      exact harmless w (is_pid ▸ waits) empty
  · rw [before] at first second
    exact known.apart q r v w first second

/-- An entry is written at which nobody waits. -/
theorem known_setEntry (known : Known m) {e : Arpentry}
    (heard : e.arstate = .resolved → Heard m e.arpaddr e.arhaddr)
    (nobody : ∀ q w, (m.proc q).waits = some w → w.slot ≠ slot) : Known (setEntry m slot e) := by
  refine ⟨fun other resolved => ?_, fun q w waits => ?_, known.apart⟩
  · by_cases is_slot : other = slot
    · subst is_slot
      rw [setEntry_self] at resolved ⊢
      exact heard resolved
    · rw [setEntry_ne is_slot] at resolved ⊢
      exact known.heard other resolved
  · obtain ⟨addr, used, answered⟩ := known.waits q w waits
    have elsewhere := setEntry_ne (m := m) (nobody q w waits) e
    refine ⟨?_, ?_, ?_⟩
    · rw [elsewhere]
      exact addr
    · rw [elsewhere]
      exact used
    · rw [elsewhere]
      exact answered

/-- The entry of a sender gets its hardware address. -/
theorem known_noted (known : Known m) {e : Arpentry}
    (addr : e.arpaddr = (m.arpcache slot).arpaddr) (resolved : e.arstate = .resolved)
    (heard : Heard m e.arpaddr e.arhaddr) : Known (setEntry m slot e) := by
  refine ⟨fun other isResolved => ?_, fun q w waits => ?_, known.apart⟩
  · by_cases is_slot : other = slot
    · subst is_slot
      rw [setEntry_self]
      exact heard
    · rw [setEntry_ne is_slot] at isResolved ⊢
      exact known.heard other isResolved
  · obtain ⟨at_addr, used, answered⟩ := known.waits q w waits
    by_cases is_slot : w.slot = slot
    · refine ⟨?_, ?_, fun _ _ _ _ => ?_⟩
      · rw [is_slot] at at_addr ⊢
        rw [setEntry_self, addr]
        exact at_addr
      · rw [is_slot, setEntry_self, resolved]
        decide
      · rw [is_slot, setEntry_self]
        exact resolved
    · have elsewhere := setEntry_ne (m := m) is_slot e
      refine ⟨?_, ?_, ?_⟩
      · rw [elsewhere]
        exact at_addr
      · rw [elsewhere]
        exact used
      · rw [elsewhere]
        exact answered

theorem known_received (known : Known m) (pkt : Arppacket) :
    Known { m with received := m.received ++ [pkt] } := by
  refine ⟨fun slot resolved => ?_, fun q w waits => ?_, known.apart⟩
  · obtain ⟨earlier, member, from_⟩ := known.heard slot resolved
    exact ⟨earlier, List.mem_append_left _ member, from_⟩
  · obtain ⟨addr, used, answered⟩ := known.waits q w waits
    exact ⟨addr, used, answered⟩

/-- Nobody waits at the slot that `arp_alloc` takes. -/
theorem nobody_at (known : Known m) {event : Event} (leaves : Leaves m event)
    (allocates : Allocates m event) (found : arpAlloc m = some slot) (q : Int) (w : Resolving)
    (waits : (m.proc q).waits = some w) : w.slot ≠ slot := by
  have used := (known.waits q w waits).used
  cases state : (m.arpcache slot).arstate with
  | free =>
      intro is_slot
      rw [is_slot] at used
      exact used state
  | pending => exact absurd state (arp_alloc_some found).2
  | resolved => exact leaves allocates slot found state q w waits

end Frames

section Steps

variable {m n : Machine} {pid : Int}

theorem resolve_known (known : Known m) {net : NetData} {nxthop : Nat}
    (leaves : Leaves m (.resolve net pid nxthop)) (idle : (m.proc pid).waits = none) :
    Known (arpResolve m net pid nxthop).1 ∧
      ∀ answer, (arpResolve m net pid nxthop).2 = some answer → answer.status = ok →
        Unicast (.resolve net pid nxthop) → Heard m answer.nxthop answer.mac := by
  unfold arpResolve
  split_ifs with broadcast
  · refine ⟨known, fun answer result _ unicast => ?_⟩
    rcases broadcast with limited | network
    · exact absurd limited unicast.1
    · exact absurd network unicast.2
  split
  · rename_i slot found
    obtain ⟨-, -, addr⟩ := lookup_some found
    split_ifs with resolved
    · refine ⟨known, fun answer result _ _ => ?_⟩
      obtain rfl := Option.some.inj result
      rw [← addr]
      exact known.heard slot resolved
    · refine ⟨known, fun answer result isOk _ => ?_⟩
      obtain rfl := Option.some.inj result
      exact absurd isOk (show ¬sysErr = ok by decide)
  · rename_i missing
    split
    · refine ⟨known, fun answer result isOk _ => ?_⟩
      obtain rfl := Option.some.inj result
      exact absurd isOk (show ¬sysErr = ok by decide)
    rename_i slot found
    have nobody := nobody_at known leaves ⟨broadcast, missing⟩ found
    have written : Known (setEntry m slot { cleared with
        arstate := .pending, arpaddr := nxthop, arpid := pid }) :=
      known_setEntry known nofun nobody
    refine ⟨⟨written.heard, fun q w waits => ?_, fun q r v w first second same => ?_⟩, nofun⟩
    · by_cases is_pid : q = pid
      · subst is_pid
        rw [setProc_self] at waits
        obtain rfl := Option.some.inj waits
        refine ⟨?_, ?_, ?_⟩
        · simp
        · simp
        · rw [setProc_self]
          exact nofun
      · rw [setProc_ne is_pid] at waits
        obtain ⟨addr, used, answered⟩ := written.waits q w waits
        refine ⟨addr, used, ?_⟩
        rw [setProc_ne is_pid]
        exact answered
    · by_cases isQ : q = pid
      · by_cases isR : r = pid
        · exact isQ.trans isR.symm
        · subst isQ
          rw [setProc_self] at first
          rw [setProc_ne isR] at second
          obtain rfl := Option.some.inj first
          exact absurd same.symm (nobody r w second)
      · rw [setProc_ne isQ] at first
        by_cases isR : r = pid
        · subst isR
          rw [setProc_self] at second
          obtain rfl := Option.some.inj second
          exact absurd same (nobody q v first)
        · rw [setProc_ne isR] at second
          exact known.apart q r v w first second same

theorem wake_known (known : Known m) {w : Resolving} (waits : (m.proc pid).waits = some w) :
    Known (wake m pid w).1 ∧ ∀ answer, (wake m pid w).2 = some answer → answer.status = ok →
      Heard m answer.nxthop answer.mac := by
  have waiting := known.waits pid w waits
  unfold wake
  dsimp only
  split_ifs with timedOut last refusal
  · refine ⟨?_, fun answer result isOk => ?_⟩
    · have returned : Known (setProc m pid { m.proc pid with prmsg := none, waits := none }) :=
        known_proc known _ rfl
      refine known_setEntry returned nofun fun q v waits' => ?_
      by_cases is_pid : q = pid
      · subst is_pid
        rw [setProc_self] at waits'
        cases waits'
      · rw [setProc_ne is_pid] at waits'
        exact fun same => is_pid (known.apart q pid v w waits' waits same)
    · obtain rfl := Option.some.inj result
      exact absurd isOk (show ¬timeout = ok by decide)
  · refine ⟨⟨known.heard, fun q v waits' => ?_, fun q r u v first second same => ?_⟩, nofun⟩
    · by_cases is_pid : q = pid
      · subst is_pid
        rw [setProc_self] at waits'
        obtain rfl := Option.some.inj waits'
        refine ⟨waiting.addr, waiting.used, ?_⟩
        rw [setProc_self]
        exact nofun
      · rw [setProc_ne is_pid] at waits'
        obtain ⟨addr, used, answered⟩ := known.waits q v waits'
        refine ⟨addr, used, ?_⟩
        rw [setProc_ne is_pid]
        exact answered
    · have before : ∀ s x, ((setProc m pid { m.proc pid with
          prmsg := none, waits := some { w with left := w.left - 1 } }).proc s).waits = some x →
          ∃ y, (m.proc s).waits = some y ∧ y.slot = x.slot := by
        intro s x waits'
        by_cases is_pid : s = pid
        · subst is_pid
          rw [setProc_self] at waits'
          obtain rfl := Option.some.inj waits'
          exact ⟨w, waits, rfl⟩
        · rw [setProc_ne is_pid] at waits'
          exact ⟨x, waits', rfl⟩
      obtain ⟨u', firstWas, atU⟩ := before q u first
      obtain ⟨v', secondWas, atV⟩ := before r v second
      exact known.apart q r u' v' firstWas secondWas ((atU.trans same).trans atV.symm)
  · refine ⟨known_proc known _ rfl, fun answer result isOk => ?_⟩
    obtain rfl := Option.some.inj result
    exact absurd isOk (show ¬sysErr = ok by decide)
  · refine ⟨known_proc known _ rfl, fun answer result _ => ?_⟩
    obtain rfl := Option.some.inj result
    cases held : (m.proc pid).prmsg with
    | none => exact absurd (by rw [held]; rfl) timedOut
    | some msg =>
        rw [held] at timedOut refusal
        have resolved := waiting.answered msg held timedOut refusal
        have heard := known.heard w.slot resolved
        rw [waiting.addr] at heard
        exact heard

theorem arp_in_known (known : Known m) {net : NetData} {pkt : Arppacket}
    (leaves : Leaves m (.packet net pkt)) (answers : Answers m (.packet net pkt)) :
    Known (arpIn m net pkt) := by
  unfold arpIn
  split_ifs with other
  · exact known
  have received := known_received known pkt
  have heard : Heard { m with received := m.received ++ [pkt] } pkt.arpSndpa pkt.arpSndha :=
    ⟨pkt, List.mem_append_right _ (List.mem_singleton.mpr rfl), rfl, rfl⟩
  dsimp only
  split
  · rename_i slot found
    obtain ⟨-, used, addr⟩ := lookup_some found
    unfold noted
    dsimp only
    split_ifs with pending
    · have from_addr : Heard { m with received := m.received ++ [pkt] }
          (m.arpcache slot).arpaddr pkt.arpSndha := by
        rw [show (m.arpcache slot).arpaddr = pkt.arpSndpa from addr]
        exact heard
      have written := @known_noted _ slot received { m.arpcache slot with
        arhaddr := pkt.arpSndha, arstate := .resolved } rfl rfl from_addr
      refine known_send written fun w waits empty _ _ => ?_
      rw [answers slot found pending w waits empty, setEntry_self]
    · have resolved : (m.arpcache slot).arstate = .resolved := by
        cases state : (m.arpcache slot).arstate with
        | free => exact absurd state used
        | pending => exact absurd state pending
        | resolved => rfl
      refine known_noted received rfl resolved ?_
      change Heard _ (m.arpcache slot).arpaddr pkt.arpSndha
      rw [show (m.arpcache slot).arpaddr = pkt.arpSndpa from addr]
      exact heard
  · rename_i missing
    unfold added
    split_ifs with done
    · exact received
    split
    · exact received
    · rename_i slot found
      exact known_setEntry received (fun _ => heard)
        (@nobody_at m slot known (.packet net pkt) leaves ⟨other, missing, done⟩ found)

theorem step_known {event : Event} {answer : Option Answer} (known : Known m)
    (undisturbed : Undisturbed m event) (did : act m event = some (n, answer)) :
    Known n ∧ ∀ a, answer = some a → a.status = ok → Unicast event → Heard m a.nxthop a.mac := by
  obtain ⟨leaves, answers⟩ := undisturbed
  have silent : ∀ a : Answer, none = some a → a.status = ok → Unicast event →
      Heard m a.nxthop a.mac := by
    rintro _ ⟨⟩
  cases event with
  | resolve net pid nxthop =>
      simp only [act] at did
      split_ifs at did with may
      have result := resolve_known known leaves (by simpa using may.2)
      rw [Option.some.inj did] at result
      exact result
  | wake pid =>
      obtain ⟨w, waits, result⟩ := Option.map_eq_some_iff.mp did
      obtain ⟨after, heard⟩ := wake_known known waits
      rw [result] at after heard
      exact ⟨after, fun a isA isOk _ => heard a isA isOk⟩
  | packet net pkt =>
      obtain ⟨rfl, rfl⟩ := Prod.mk.inj (Option.some.inj did)
      exact ⟨arp_in_known known leaves answers, silent⟩
  | message pid msg =>
      obtain ⟨rfl, rfl⟩ := Prod.mk.inj (Option.some.inj did)
      refine ⟨known_send known fun w waits empty other refusal => ?_, silent⟩
      rcases answers (by rw [waits]; rfl) empty with isTimeout | isSysErr
      · exact absurd isTimeout other
      · exact absurd isSysErr refusal
  | take pid =>
      simp only [act] at did
      split_ifs at did with may
      obtain ⟨rfl, rfl⟩ := Prod.mk.inj (Option.some.inj did)
      exact ⟨known_proc known _ (by simpa using may), silent⟩
  | exit pid parent =>
      simp only [act] at did
      split_ifs at did
      obtain ⟨rfl, rfl⟩ := Prod.mk.inj (Option.some.inj did)
      refine ⟨?_, silent⟩
      by_cases is_pid : parent = pid
      · subst is_pid
        have gone := @known_proc m parent known
          { alive := false, prmsg := none, waits := none } rfl
        have same : setProc (send m parent parent) parent
            { alive := false, prmsg := none, waits := none } =
          setProc m parent { alive := false, prmsg := none, waits := none } := by
          unfold send
          split_ifs
          · rfl
          · simp [setProc]
        rw [same]
        exact gone
      · refine known_proc (known_send known fun w waits empty _ _ => ?_) _ rfl
        exact absurd empty (answers is_pid (by rw [waits]; rfl))
  | create pid =>
      simp only [act] at did
      split_ifs at did
      obtain ⟨rfl, rfl⟩ := Prod.mk.inj (Option.some.inj did)
      exact ⟨known_proc known _ rfl, silent⟩

theorem started_known (started : Started m) : Known m := by
  refine ⟨fun slot resolved => ?_, fun pid w waits => ?_, fun p q v w first => ?_⟩
  · rw [started.free slot] at resolved
    cases resolved
  · rw [started.waits pid] at waits
    cases waits
  · rw [started.waits p] at first
    cases first

end Steps

section Results

open Xinu.Net.ArpCache (booted booted_started net)

/-- In a run in which nothing but its answer lets a process return from `arp_resolve`, and its entry
stays its own until then, what it returns has come in a packet. -/
theorem answers_come_from_packets {m n : Machine} {event : Event} {answer : Answer}
    (run : Reached step Started Undisturbed m) (undisturbed : Undisturbed m event)
    (did : act m event = some (n, some answer)) (isOk : answer.status = ok)
    (unicast : Unicast event) : Heard m answer.nxthop answer.mac := by
  have known : Known m := by
    refine reached_invariant run (fun _ started => started_known started)
      fun x y event known undisturbed did => ?_
    obtain ⟨⟨after, answer⟩, acted, rfl⟩ := Option.map_eq_some_iff.mp did
    exact (step_known known undisturbed acted).1
  exact (step_known known undisturbed did).2 answer rfl isOk unicast

/-- A request of 9 for this machine. -/
def request : Arppacket where
  arpHtype := 1
  arpPtype := 0x0800
  arpOp := 1
  arpSndha := 0xaabb
  arpSndpa := 9
  arpTarpa := 1

theorem answers_come_from_packets_one :
    ∃ m, step booted (.packet net request) = some m ∧ Heard m 9 0xaabb := by
  refine ⟨_, rfl, ?_⟩
  have free : ∀ slot ∈ arpAlloc booted, (booted.arpcache slot).arstate = .resolved →
      ∀ pid w, (booted.proc pid).waits = some w → w.slot ≠ slot := nofun
  have first : Undisturbed booted (.packet net request) := ⟨fun _ => free, nofun⟩
  refine @answers_come_from_packets _ _ (.resolve net 5 9) ⟨9, ok, 0xaabb⟩
    (.step (.start booted_started) first rfl) ⟨?_, trivial⟩ rfl rfl ⟨by decide, by decide⟩
  rintro ⟨-, missing⟩
  exact absurd missing (by decide)

/-- Process 5 waits for the address of 9 when another process sends it the message 7. -/
theorem message_taken_for_answer :
    ¬∀ m n event answer, Reached step Started (fun _ _ => True) m →
      act m event = some (n, some answer) → answer.status = ok → Unicast event →
      Heard m answer.nxthop answer.mac := by
  intro always
  have results : (takeEvents step (fun _ _ => True) [.resolve net 5 9, .message 5 7] booted).map
      (fun m => (m.received.length, ((act m (.wake 5)).bind Prod.snd).map Answer.status)) =
    some (0, some ok) := by
    decide
  obtain ⟨m, took, facts⟩ := Option.map_eq_some_iff.mp results
  obtain ⟨empty, status⟩ := Prod.mk.inj facts
  obtain ⟨answer, result, isOk⟩ := Option.map_eq_some_iff.mp status
  obtain ⟨⟨n, out⟩, did, rfl⟩ := Option.bind_eq_some_iff.mp result
  obtain ⟨pkt, member, -⟩ :=
    always m n (.wake 5) answer (take_events (.start booted_started) took) did isOk trivial
  rw [List.length_eq_zero_iff.mp empty] at member
  cases member

end Results

end Xinu.Net.ArpAnswers
