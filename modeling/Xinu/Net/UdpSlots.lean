import Xinu.Net.Udp

/-!
# Released UDP slots

A receiver that waits keeps a pointer to its entry and marks the entry used when it runs again. As
long as no slot is released while somebody waits at it, a slot that is free stays free until it is
registered, and a receiver finds the registration that it began with.
-/

namespace Xinu.Net.UdpSlots

open Xinu.Kernel.State (sysErr ok)
open Xinu.Lib.Interleaving
open Xinu.Net.Udp

set_option autoImplicit false

section Definitions

/-- The endpoints, with the number of registrations of each slot so far, and what it was when each
process began to wait at its slot. -/
structure Tracked where
  machine : Machine
  epoch : Nat → Nat
  began : Int → Nat

def nextEpoch (t : Tracked) : Event → Nat → Nat
  | .register remip remport locport =>
      let slot := (udpRegister t.machine remip remport locport).2
      if slot = sysErr then t.epoch
      else Function.update t.epoch slot.toNat (t.epoch slot.toNat + 1)
  | _ => t.epoch

def nextBegan (t : Tracked) : Event → Int → Nat
  | .recv pid slot _ _ _ => Function.update t.began pid (t.epoch slot.toNat)
  | _ => t.began

def track (t : Tracked) (event : Event) : Option Tracked :=
  (step t.machine event).map fun m =>
    { machine := m, epoch := nextEpoch t event, began := nextBegan t event }

def TrackStarted (t : Tracked) : Prop := Started t.machine

/-- No slot is released while a process waits at it. -/
def NobodyWaits (t : Tracked) : Event → Prop
  | .release slot => ∀ pid w, (t.machine.proc pid).waits = some w → (w.slot : Int) ≠ slot
  | _ => True

/-- Two endpoints in use differ in an address or a port. -/
def Distinct (m : Machine) : Prop :=
  ∀ i j, i < udpSlots → j < udpSlots → i ≠ j → (m.udptab i).udstate ≠ .free →
    (m.udptab j).udstate ≠ .free →
    ((m.udptab i).udremip, (m.udptab i).udremport, (m.udptab i).udlocport) ≠
      ((m.udptab j).udremip, (m.udptab j).udremport, (m.udptab j).udlocport)

/-- What a step may do to the slots. -/
structure Keeps (t : Tracked) (event : Event) (t' : Tracked) : Prop where
  released : ∀ slot : Nat, event = .release slot → (udpRelease t.machine slot).2 = ok →
    (t'.machine.udptab slot).udstate = .free
  free : ∀ slot, (t.machine.udptab slot).udstate = .free →
    (t'.machine.udptab slot).udstate ≠ .free → ∃ remip remport locport,
      event = .register remip remport locport ∧
        (udpRegister t.machine remip remport locport).2 = slot
  receiver : ∀ pid w, event = .wake pid → (t.machine.proc pid).waits = some w →
    (t.machine.udptab w.slot).udstate ≠ .free ∧ t.epoch w.slot = t.began pid
  distinct : Distinct t'.machine

/-- Whoever waits at a slot has it as it was registered. -/
structure Owned (t : Tracked) : Prop where
  waits : ∀ pid w, (t.machine.proc pid).waits = some w →
    (t.machine.udptab w.slot).udstate ≠ .free ∧ t.epoch w.slot = t.began pid
  distinct : Distinct t.machine

end Definitions

section Entries

/-- An entry that is as free as before, with the same addresses. -/
structure Same (u v : Udpentry) : Prop where
  free : v.udstate = .free ↔ u.udstate = .free
  remip : v.udremip = u.udremip
  remport : v.udremport = u.udremport
  locport : v.udlocport = u.udlocport

def SameAll (m n : Machine) : Prop := ∀ slot, Same (m.udptab slot) (n.udptab slot)

variable {m n : Machine} {slot : Nat} {u : Udpentry}

theorem same_refl (u : Udpentry) : Same u u := ⟨Iff.rfl, rfl, rfl, rfl⟩

theorem same_all (tab : n.udptab = m.udptab) : SameAll m n := fun slot => by
  rw [tab]
  exact same_refl _

theorem same_entry (same : Same (m.udptab slot) u)
    (tab : n.udptab = Function.update m.udptab slot u) : SameAll m n := fun other => by
  rw [tab]
  by_cases is_slot : other = slot
  · subst is_slot
    simpa using same
  · rw [Function.update_of_ne is_slot]
    exact same_refl _

theorem distinct_same (distinct : Distinct m) (same : SameAll m n) : Distinct n := by
  intro i j iIn jIn differ usedI usedJ
  rw [(same i).remip, (same i).remport, (same i).locport, (same j).remip, (same j).remport,
    (same j).locport]
  exact distinct i j iIn jIn differ (fun free => usedI ((same i).free.mpr free))
    fun free => usedJ ((same j).free.mpr free)

theorem send_udptab (pid : Int) (msg : Nat) : (send m pid msg).udptab = m.udptab := by
  unfold send
  split_ifs <;> rfl

theorem send_waits (pid other : Int) (msg : Nat) :
    ((send m pid msg).proc other).waits = (m.proc other).waits := by
  unfold send setProc
  split_ifs
  · rfl
  · by_cases is_pid : other = pid
    · subst is_pid
      simp
    · simp [is_pid]

end Entries

section Calls

variable {m : Machine} {pid other : Int}

theorem udp_in_same (pkt : Netpacket) :
    SameAll m (udpIn m pkt) ∧ ∀ other, ((udpIn m pkt).proc other).waits = (m.proc other).waits := by
  unfold udpIn
  split
  · exact ⟨same_all rfl, fun _ => rfl⟩
  · rename_i slot found
    obtain ⟨accepts, -⟩ : matchesPacket (m.udptab slot) pkt ∧
        (m.udptab slot).udcount < udpQsiz := by
      simpa using List.find?_some found
    have kept : Same (m.udptab slot) (enqueue (m.udptab slot) pkt) := by
      refine ⟨?_, rfl, rfl, rfl⟩
      simp only [enqueue]
      split_ifs <;> simp_all
    dsimp only
    split_ifs
    · refine ⟨same_entry kept ?_, fun other => send_waits _ _ _⟩
      rw [send_udptab]
      rfl
    · exact ⟨same_entry kept rfl, fun _ => rfl⟩

theorem take_packet_same (w : Waiting) : SameAll m (takePacket m pid w).1 :=
  same_entry (⟨Iff.rfl, rfl, rfl, rfl⟩ : Same (m.udptab w.slot) (dequeue (m.udptab w.slot)).2) rfl

theorem same_trans {n o : Machine} (first : SameAll m n) (second : SameAll n o) : SameAll m o :=
  fun slot => ⟨(second slot).free.trans (first slot).free,
    (second slot).remip.trans (first slot).remip, (second slot).remport.trans (first slot).remport,
    (second slot).locport.trans (first slot).locport⟩

/-- A receive changes no slot's use. A process that goes to wait has a slot that is in use. -/
theorem udp_recv_same (slot len : Int) (time : Nat) (addr : Bool) :
    SameAll m (udpRecv m pid slot len time addr).1 ∧
      ∀ other w, ((udpRecv m pid slot len time addr).1.proc other).waits = some w →
        (other ≠ pid ∧ (m.proc other).waits = some w) ∨ (m.proc pid).waits = some w ∨
          other = pid ∧ w.slot = slot.toNat ∧ (m.udptab slot.toNat).udstate ≠ .free := by
  have kept : ∀ n : Machine, n.udptab = m.udptab → ∀ state, state ≠ .free →
      (m.udptab slot.toNat).udstate ≠ .free → SameAll m (setEntry n slot.toNat
        { m.udptab slot.toNat with udstate := state, udpid := pid }) := by
    intro n tab state used inUse
    refine @same_entry _ _ slot.toNat _ (⟨?_, rfl, rfl, rfl⟩ : Same (m.udptab slot.toNat)
      { m.udptab slot.toNat with udstate := state, udpid := pid }) ?_
    · simp [used, inUse]
    · simp [setEntry, tab]
  have old : ∀ other w, (m.proc other).waits = some w →
      (other ≠ pid ∧ (m.proc other).waits = some w) ∨ (m.proc pid).waits = some w ∨
        other = pid ∧ w.slot = slot.toNat ∧ (m.udptab slot.toNat).udstate ≠ .free := by
    intro other w waits
    by_cases is_pid : other = pid
    · subst is_pid
      exact .inr (.inl waits)
    · exact .inl ⟨is_pid, waits⟩
  unfold udpRecv
  dsimp only
  split_ifs with bad unused empty long
  · exact ⟨same_all rfl, old⟩
  · exact ⟨same_all rfl, old⟩
  · have used : (m.udptab slot.toNat).udstate = .used := not_not.mp unused
    refine ⟨kept _ rfl .used (by decide) (by rw [used]; decide), fun other w waits => ?_⟩
    refine old other w ?_
    by_cases is_pid : other = pid
    · subst is_pid
      simpa [setEntry, setProc] using waits
    · simpa [setEntry, setProc, is_pid] using waits
  · have used : (m.udptab slot.toNat).udstate = .used := not_not.mp unused
    refine ⟨kept _ rfl .recv (by decide) (by rw [used]; decide), fun other w waits => ?_⟩
    by_cases is_pid : other = pid
    · subst is_pid
      have is_w : ⟨slot.toNat, len, addr⟩ = w := by simpa [setEntry, setProc] using waits
      exact .inr (.inr ⟨rfl, is_w ▸ rfl, by rw [used]; decide⟩)
    · exact .inl ⟨is_pid, by simpa [setEntry, setProc, is_pid] using waits⟩
  · exact ⟨take_packet_same _, old⟩

/-- A receiver that runs again at a slot in use changes no slot's use, and waits no longer. -/
theorem wake_same (w : Waiting) (used : (m.udptab w.slot).udstate ≠ .free) :
    SameAll m (wake m pid w).1 ∧ ∀ other v, ((wake m pid w).1.proc other).waits = some v →
      (m.proc other).waits = some v := by
  let woken := setEntry (setProc m pid { m.proc pid with prhasmsg := false, waits := none })
    w.slot { m.udptab w.slot with udstate := .used }
  have same : SameAll m woken := by
    refine @same_entry _ _ w.slot _ (⟨?_, rfl, rfl, rfl⟩ : Same (m.udptab w.slot)
      { m.udptab w.slot with udstate := .used }) rfl
    simp [used]
  have fewer : ∀ other v, (woken.proc other).waits = some v → (m.proc other).waits = some v := by
    intro other v waits
    by_cases is_pid : other = pid
    · subst is_pid
      simp [woken, setEntry, setProc] at waits
    · simpa [woken, setEntry, setProc, is_pid] using waits
  unfold wake
  dsimp only
  split_ifs
  · exact ⟨same, fewer⟩
  · exact ⟨same, fewer⟩
  · exact ⟨same_trans same (take_packet_same w), fewer⟩
  · exact ⟨same, fewer⟩
  · exact ⟨same, fewer⟩
  · exact ⟨same_trans same (take_packet_same w), fewer⟩

/-- A registration takes a slot that is free, and no other slot in use has its addresses. -/
theorem udp_register_takes (remip remport locport : Nat) :
    udpRegister m remip remport locport = (m, sysErr) ∨
    ∃ slot < udpSlots, udpRegister m remip remport locport =
        (setEntry m slot (registered (m.udptab slot) remip remport locport), (slot : Int)) ∧
      (m.udptab slot).udstate = .free ∧
      ∀ i < udpSlots, (m.udptab i).udstate ≠ .free →
        ((m.udptab i).udremip, (m.udptab i).udremport, (m.udptab i).udlocport) ≠
          (remip, remport, locport) := by
  unfold udpRegister
  split_ifs with taken
  · exact .inl rfl
  · have new : ∀ i < udpSlots, (m.udptab i).udstate ≠ .free →
        ((m.udptab i).udremip, (m.udptab i).udremport, (m.udptab i).udlocport) ≠
          (remip, remport, locport) := by
      intro i inside used same
      obtain ⟨ip, ports⟩ := Prod.mk.inj same
      obtain ⟨port, local_⟩ := Prod.mk.inj ports
      exact taken ⟨i, inside, used, port.symm, local_.symm, ip.symm⟩
    split
    · exact .inl rfl
    · rename_i slot found
      have isFree : (m.udptab slot).udstate = .free := by simpa using List.find?_some found
      have inside : slot < udpSlots := List.mem_range.mp (List.mem_of_find?_eq_some found)
      exact .inr ⟨slot, inside, rfl, isFree, new⟩

theorem distinct_register {slot remip remport locport : Nat} (distinct : Distinct m)
    (new : ∀ i < udpSlots, (m.udptab i).udstate ≠ .free →
      ((m.udptab i).udremip, (m.udptab i).udremport, (m.udptab i).udlocport) ≠
        (remip, remport, locport)) :
    Distinct (setEntry m slot (registered (m.udptab slot) remip remport locport)) := by
  intro i j iIn jIn differ usedI usedJ
  simp only [setEntry] at usedI usedJ ⊢
  by_cases isI : i = slot
  · subst isI
    have other : j ≠ i := differ.symm
    rw [Function.update_of_ne other] at usedJ ⊢
    simpa [registered] using (new j jIn usedJ).symm
  · rw [Function.update_of_ne isI] at usedI ⊢
    by_cases isJ : j = slot
    · subst isJ
      simpa [registered] using new i iIn usedI
    · rw [Function.update_of_ne isJ] at usedJ ⊢
      exact distinct i j iIn jIn differ usedI usedJ

/-- A release frees one slot, and leaves the others and everybody who waits as they are. -/
theorem udp_release_frees (slot : Int) :
    (udpRelease m slot = (m, sysErr)) ∨ 0 ≤ slot ∧ (udpRelease m slot).2 = ok ∧
      ((udpRelease m slot).1.udptab slot.toNat).udstate = .free ∧
      (∀ i, i ≠ slot.toNat → (udpRelease m slot).1.udptab i = m.udptab i) ∧
      (udpRelease m slot).1.proc = m.proc := by
  unfold udpRelease
  dsimp only
  split_ifs with bad isFree
  · exact .inl rfl
  · exact .inl rfl
  · refine .inr ⟨by omega, rfl, ?_, fun i other => ?_, rfl⟩
    · simp [setEntry]
    · simp [setEntry, other]

theorem distinct_release {n : Machine} {slot : Nat} (distinct : Distinct m)
    (freed : (n.udptab slot).udstate = .free)
    (others : ∀ i, i ≠ slot → n.udptab i = m.udptab i) : Distinct n := by
  intro i j iIn jIn differ usedI usedJ
  have isI : i ≠ slot := fun same => usedI (same ▸ freed)
  have isJ : j ≠ slot := fun same => usedJ (same ▸ freed)
  rw [others i isI] at usedI ⊢
  rw [others j isJ] at usedJ ⊢
  exact distinct i j iIn jIn differ usedI usedJ

end Calls

section Steps

variable {t t' : Tracked} {event : Event}

/-- A step that changes no slot's use, and lets nobody begin to wait. -/
theorem owned_same (owned : Owned t) (same : SameAll t.machine t'.machine)
    (fewer : ∀ pid w, (t'.machine.proc pid).waits = some w → (t.machine.proc pid).waits = some w)
    (epoch : t'.epoch = t.epoch) (began : t'.began = t.began) : Owned t' := by
  refine ⟨fun pid w waits => ?_, distinct_same owned.distinct same⟩
  obtain ⟨used, epochs⟩ := owned.waits pid w (fewer pid w waits)
  refine ⟨fun free => used ((same w.slot).free.mp free), ?_⟩
  rw [epoch, began]
  exact epochs

theorem keeps_same (owned : Owned t) (same : SameAll t.machine t'.machine)
    (kind : ∀ slot, event ≠ .release slot) : Keeps t event t' := by
  refine ⟨fun slot released _ => absurd released (kind slot), fun slot free used => ?_,
    fun pid w _ waits => owned.waits pid w waits, distinct_same owned.distinct same⟩
  exact absurd ((same slot).free.mpr free) used

theorem register_keeps {remip remport locport : Nat} (owned : Owned t)
    (did : track t (.register remip remport locport) = some t') :
    Owned t' ∧ Keeps t (.register remip remport locport) t' := by
  obtain ⟨m, acted, rfl⟩ := Option.map_eq_some_iff.mp did
  obtain rfl := Option.some.inj acted
  rcases udp_register_takes (m := t.machine) remip remport locport with
    refusal | ⟨slot, inside, result, isFree, new⟩
  · have same : SameAll t.machine (udpRegister t.machine remip remport locport).1 := by
      rw [refusal]
      exact same_all rfl
    refine ⟨owned_same owned same (fun pid w waits => ?_) ?_ rfl, keeps_same owned same nofun⟩
    · rw [refusal] at waits
      exact waits
    · simp [nextEpoch, refusal]
  · have tab : (udpRegister t.machine remip remport locport).1 =
        setEntry t.machine slot (registered (t.machine.udptab slot) remip remport locport) := by
      rw [result]
    have number : (udpRegister t.machine remip remport locport).2 = (slot : Int) := by rw [result]
    have fresh : Distinct (udpRegister t.machine remip remport locport).1 := by
      rw [tab]
      exact distinct_register owned.distinct new
    refine ⟨⟨fun pid w waits => ?_, fresh⟩, nofun, fun other free used => ?_, nofun, fresh⟩
    · rw [tab] at waits
      obtain ⟨used, epochs⟩ := owned.waits pid w waits
      have other : w.slot ≠ slot := fun same => used (same ▸ isFree)
      have positive : ¬(slot : Int) = sysErr := by
        unfold sysErr
        omega
      refine ⟨?_, ?_⟩
      · rw [tab]
        simpa [setEntry, other] using used
      · simpa [nextEpoch, nextBegan, number, positive, other] using epochs
    · refine ⟨remip, remport, locport, rfl, ?_⟩
      rw [number]
      by_cases is_slot : other = slot
      · rw [is_slot]
      · rw [tab] at used
        simp [setEntry, is_slot, free] at used

theorem release_keeps {slot : Int} (owned : Owned t) (nobody : NobodyWaits t (.release slot))
    (did : track t (.release slot) = some t') : Owned t' ∧ Keeps t (.release slot) t' := by
  obtain ⟨m, acted, rfl⟩ := Option.map_eq_some_iff.mp did
  obtain rfl := Option.some.inj acted
  rcases udp_release_frees (m := t.machine) slot with refusal | ⟨inside, value, freed, others, procs⟩
  · have same : SameAll t.machine (udpRelease t.machine slot).1 := by
      rw [refusal]
      exact same_all rfl
    refine ⟨owned_same owned same (fun pid w waits => ?_) rfl rfl, ?_, fun other free used => ?_,
      nofun, distinct_same owned.distinct same⟩
    · rw [refusal] at waits
      exact waits
    · intro number is_slot result
      obtain rfl := Event.release.inj is_slot
      rw [refusal] at result
      cases result
    · exact absurd ((same other).free.mpr free) used
  · have distinct := distinct_release owned.distinct freed others
    refine ⟨⟨fun pid w waits => ?_, distinct⟩, fun number is_slot _ => ?_,
      fun other free used => ?_, nofun, distinct⟩
    · rw [procs] at waits
      obtain ⟨used, epochs⟩ := owned.waits pid w waits
      have other : w.slot ≠ slot.toNat := by
        have elsewhere := nobody pid w waits
        omega
      refine ⟨?_, epochs⟩
      rw [others w.slot other]
      exact used
    · obtain rfl := Event.release.inj is_slot
      simpa using freed
    · by_cases is_slot : other = slot.toNat
      · exact absurd (is_slot ▸ freed) used
      · rw [others other is_slot] at used
        exact absurd free used

theorem recv_keeps {pid slot len : Int} {time : Nat} {addr : Bool} (owned : Owned t)
    (did : track t (.recv pid slot len time addr) = some t') :
    Owned t' ∧ Keeps t (.recv pid slot len time addr) t' := by
  obtain ⟨m, acted, rfl⟩ := Option.map_eq_some_iff.mp did
  obtain ⟨⟨result, answer⟩, called, rfl⟩ := Option.map_eq_some_iff.mp acted
  simp only [act] at called
  split_ifs at called with may
  obtain rfl := congrArg Prod.fst (Option.some.inj called)
  obtain ⟨same, more⟩ := @udp_recv_same t.machine pid slot len time addr
  refine ⟨⟨fun other w waits => ?_, distinct_same owned.distinct same⟩, keeps_same owned same (by rintro _ ⟨⟩)⟩
  rcases more other w waits with ⟨elsewhere, before⟩ | before | ⟨is_pid, at_slot, used⟩
  · obtain ⟨used, epochs⟩ := owned.waits other w before
    exact ⟨fun free => used ((same w.slot).free.mp free), by simpa [nextEpoch, nextBegan, elsewhere]
      using epochs⟩
  · simp [before] at may
  · refine ⟨fun free => used ?_, ?_⟩
    · rw [← at_slot]
      exact (same w.slot).free.mp free
    · simp [nextEpoch, nextBegan, is_pid, at_slot]

theorem track_keeps (owned : Owned t) (nobody : NobodyWaits t event)
    (did : track t event = some t') : Owned t' ∧ Keeps t event t' := by
  cases event with
  | register remip remport locport => exact register_keeps owned did
  | release slot => exact release_keeps owned nobody did
  | recv pid slot len time addr => exact recv_keeps owned did
  | packet pkt =>
      obtain ⟨m, acted, rfl⟩ := Option.map_eq_some_iff.mp did
      obtain rfl := Option.some.inj acted
      obtain ⟨same, waits⟩ := @udp_in_same t.machine pkt
      exact ⟨owned_same owned same (fun pid w has => by rwa [waits] at has) rfl rfl,
        keeps_same owned same (by rintro _ ⟨⟩)⟩
  | wake pid =>
      obtain ⟨m, acted, rfl⟩ := Option.map_eq_some_iff.mp did
      obtain ⟨result, woken, rfl⟩ := Option.map_eq_some_iff.mp acted
      obtain ⟨w, waits, rfl⟩ := Option.map_eq_some_iff.mp woken
      obtain ⟨same, fewer⟩ := @wake_same t.machine pid w (owned.waits pid w waits).1
      exact ⟨owned_same owned same fewer rfl rfl, keeps_same owned same (by rintro _ ⟨⟩)⟩
  | message pid msg =>
      obtain ⟨m, acted, rfl⟩ := Option.map_eq_some_iff.mp did
      obtain rfl := Option.some.inj acted
      have same : SameAll t.machine (send t.machine pid msg) := same_all (send_udptab pid msg)
      exact ⟨owned_same owned same (fun other w has => by rwa [send_waits] at has) rfl rfl,
        keeps_same owned same (by rintro _ ⟨⟩)⟩
  | take pid =>
      obtain ⟨m, acted, rfl⟩ := Option.map_eq_some_iff.mp did
      obtain ⟨result, called, rfl⟩ := Option.map_eq_some_iff.mp acted
      simp only [act] at called
      split_ifs at called
      obtain rfl := Option.some.inj called
      refine ⟨owned_same owned (same_all rfl) (fun other w has => ?_) rfl rfl,
        keeps_same owned (same_all rfl) (by rintro _ ⟨⟩)⟩
      by_cases is_pid : other = pid
      · subst is_pid
        simpa [setProc] using has
      · simpa [setProc, is_pid] using has
  | exit pid parent =>
      obtain ⟨m, acted, rfl⟩ := Option.map_eq_some_iff.mp did
      obtain ⟨result, called, rfl⟩ := Option.map_eq_some_iff.mp acted
      simp only [act] at called
      split_ifs at called
      obtain rfl := Option.some.inj called
      have same : SameAll t.machine (setProc (send t.machine parent pid.toNat) pid
          { alive := false, prhasmsg := false, prmsg := 0, waits := none }) :=
        same_all (send_udptab parent pid.toNat)
      refine ⟨owned_same owned same (fun other w has => ?_) rfl rfl, keeps_same owned same (by rintro _ ⟨⟩)⟩
      by_cases is_pid : other = pid
      · subst is_pid
        simp [setProc] at has
      · have told : ((send t.machine parent pid.toNat).proc other).waits = some w := by
          simpa [setProc, is_pid] using has
        rwa [send_waits] at told
  | create pid =>
      obtain ⟨m, acted, rfl⟩ := Option.map_eq_some_iff.mp did
      obtain ⟨result, called, rfl⟩ := Option.map_eq_some_iff.mp acted
      simp only [act] at called
      split_ifs at called
      obtain rfl := Option.some.inj called
      refine ⟨owned_same owned (same_all rfl) (fun other w has => ?_) rfl rfl,
        keeps_same owned (same_all rfl) (by rintro _ ⟨⟩)⟩
      by_cases is_pid : other = pid
      · subst is_pid
        simp [setProc] at has
      · simpa [setProc, is_pid] using has

theorem started_owned (started : TrackStarted t) : Owned t := by
  refine ⟨fun pid w waits => ?_, fun i j _ _ _ used => absurd (started.udstate i) used⟩
  rw [started.waits pid] at waits
  cases waits

end Steps

section Results

def tracked (m : Machine) : Tracked := { machine := m, epoch := fun _ => 0, began := fun _ => 0 }

theorem tracked_started : TrackStarted (tracked booted) := booted_started

end Results

end Xinu.Net.UdpSlots
