import Xinu.Net.Arp

/-!
# Pending ARP entries

An entry is pending while its process is inside `arp_resolve`, as long as that process gets no other
message than the answer and does not end: only the exit behind the last timeout frees the entry.
-/

namespace Xinu.Net.ArpCache

open Xinu.Kernel.State (sysErr ok)
open Xinu.Lib.Interleaving
open Xinu.Net.Arp

set_option autoImplicit false

section Definitions

/-- A process inside `arp_resolve` is not sent a message by another one, other than `TIMEOUT`, and
does not end while its entry is pending. -/
def Spares (m : Machine) : Event → Prop
  | .message pid msg => (m.proc pid).waits.isSome = true → (m.proc pid).prmsg = none → msg = timeout
  | .exit pid parent =>
      (parent ≠ pid → (m.proc parent).waits.isSome = true → (m.proc parent).prmsg ≠ none) ∧
        ∀ w ∈ (m.proc pid).waits, (m.arpcache w.slot).arstate = .pending →
          (m.arpcache w.slot).arpid ≠ pid
  | _ => True

/-- The process is alive and inside `arp_resolve` for the address of the entry. -/
def IsWaiter (m : Machine) (slot : Nat) : Prop :=
  ∃ w, (m.proc (m.arpcache slot).arpid).waits = some w ∧ w.slot = slot ∧
    w.nxthop = (m.arpcache slot).arpaddr ∧ (m.proc (m.arpcache slot).arpid).alive = true

/-- No two entries in use have the same address. -/
def Unique (m : Machine) : Prop :=
  ∀ i j, i < arpSiz → j < arpSiz → (m.arpcache i).arstate ≠ .free →
    (m.arpcache j).arstate ≠ .free → (m.arpcache i).arpaddr = (m.arpcache j).arpaddr → i = j

/-- A pending entry comes to an end when its process waits out its time. -/
structure CacheSound (m : Machine) : Prop where
  unique : Unique m
  waiters : ∀ slot, (m.arpcache slot).arstate = .pending → IsWaiter m slot
  full : arpAlloc m = none → ∀ slot < arpSiz,
    (m.arpcache slot).arstate = .pending ∧ IsWaiter m slot
  ends : ∀ slot, (m.arpcache slot).arstate = .pending → ∃ times n,
    takeEvents step (fun _ _ => True) (List.replicate times (.wake (m.arpcache slot).arpid)) m =
      some n ∧ (n.arpcache slot).arstate = .free

/-- The process of a pending entry, which holds no answer. -/
def Owned (m : Machine) (slot : Nat) : Prop :=
  IsWaiter m slot ∧ ∀ msg ∈ (m.proc (m.arpcache slot).arpid).prmsg, msg = timeout

structure Inv (m : Machine) : Prop where
  unique : Unique m
  owned : ∀ slot, (m.arpcache slot).arstate = .pending → Owned m slot

end Definitions

section Frames

variable {m n : Machine} {slot : Nat} {pid : Int}

/-- An entry and its process that a step leaves alone. -/
theorem owned_congr (owned : Owned m slot)
    (entry : (n.arpcache slot).arpid = (m.arpcache slot).arpid)
    (addr : (n.arpcache slot).arpaddr = (m.arpcache slot).arpaddr)
    (proc : n.proc (m.arpcache slot).arpid = m.proc (m.arpcache slot).arpid) : Owned n slot := by
  unfold Owned IsWaiter at owned ⊢
  rw [entry, addr, proc]
  exact owned

/-- A process that waits nowhere has no pending entry. -/
theorem not_owner (inv : Inv m) (idle : (m.proc pid).waits = none)
    (pending : (m.arpcache slot).arstate = .pending) : (m.arpcache slot).arpid ≠ pid := by
  rintro rfl
  obtain ⟨⟨w, waits, -⟩, -⟩ := inv.owned slot pending
  rw [idle] at waits
  cases waits

/-- A process has a pending entry only where it waits. -/
theorem owner_slot (inv : Inv m) {w : Resolving} (waits : (m.proc pid).waits = some w)
    (pending : (m.arpcache slot).arstate = .pending) (owner : (m.arpcache slot).arpid = pid) :
    w.slot = slot := by
  obtain ⟨⟨v, waits', at_slot, -⟩, -⟩ := inv.owned slot pending
  rw [owner, waits] at waits'
  obtain rfl := Option.some.inj waits'
  exact at_slot

/-- Only what processes hold changes, for a process without a pending entry. -/
theorem inv_proc (inv : Inv m) (p : Proc)
    (idle : ∀ slot, (m.arpcache slot).arstate = .pending → (m.arpcache slot).arpid ≠ pid) :
    Inv (setProc m pid p) :=
  ⟨inv.unique, fun slot pending =>
    owned_congr (inv.owned slot pending) rfl rfl (setProc_ne (idle slot pending) p)⟩

theorem inv_send (inv : Inv m) {msg : Int}
    (harmless : ∀ slot, (m.arpcache slot).arstate = .pending → (m.arpcache slot).arpid = pid →
      (m.proc pid).prmsg = none → msg = timeout) : Inv (send m pid msg) := by
  refine ⟨?_, fun slot pending => ?_⟩
  · unfold Unique
    rw [send_arpcache]
    exact inv.unique
  · rw [send_arpcache] at pending
    have owned := inv.owned slot pending
    rcases @send_proc m pid msg (m.arpcache slot).arpid with same | ⟨is_pid, empty, alive, told⟩
    · exact owned_congr owned (by rw [send_arpcache]) (by rw [send_arpcache]) same
    · obtain ⟨⟨w, waits, at_slot, addr, lives⟩, -⟩ := owned
      unfold Owned IsWaiter
      rw [send_arpcache, told]
      refine ⟨⟨w, ?_, at_slot, addr, alive⟩, fun held isHeld => ?_⟩
      · rw [is_pid] at waits
        exact waits
      · rw [← Option.some.inj isHeld]
        exact harmless slot pending is_pid empty

/-- An entry is written whose address no other entry has. -/
theorem unique_setEntry (inv : Inv m) {e : Arpentry}
    (new : ∀ i, i ≠ slot → i < arpSiz → (m.arpcache i).arstate ≠ .free →
      e.arstate ≠ .free → (m.arpcache i).arpaddr ≠ e.arpaddr) : Unique (setEntry m slot e) := by
  intro i j iIn jIn usedI usedJ same
  by_cases isI : i = slot
  · by_cases isJ : j = slot
    · exact isI.trans isJ.symm
    · subst isI
      rw [setEntry_self] at usedI same
      rw [setEntry_ne isJ] at usedJ same
      exact absurd same.symm (new j isJ jIn usedJ usedI)
  · rw [setEntry_ne isI] at usedI same
    by_cases isJ : j = slot
    · subst isJ
      rw [setEntry_self] at usedJ same
      exact absurd same (new i isI iIn usedI usedJ)
    · rw [setEntry_ne isJ] at usedJ same
      exact inv.unique i j iIn jIn usedI usedJ same

/-- An entry is written that is not pending afterwards. -/
theorem inv_setEntry (inv : Inv m) {e : Arpentry} (settled : e.arstate ≠ .pending)
    (new : ∀ i, i ≠ slot → i < arpSiz → (m.arpcache i).arstate ≠ .free →
      e.arstate ≠ .free → (m.arpcache i).arpaddr ≠ e.arpaddr) : Inv (setEntry m slot e) := by
  refine ⟨unique_setEntry inv new, fun other pending => ?_⟩
  by_cases is_slot : other = slot
  · subst is_slot
    rw [setEntry_self] at pending
    exact absurd pending settled
  · rw [setEntry_ne is_slot] at pending
    refine owned_congr (inv.owned other pending) ?_ ?_ rfl
    · rw [setEntry_ne is_slot]
    · rw [setEntry_ne is_slot]

/-- The address of an entry in use is that of no other. -/
theorem others_differ (inv : Inv m) (inside : slot < arpSiz)
    (used : (m.arpcache slot).arstate ≠ .free) (i : Nat) (other : i ≠ slot) (iIn : i < arpSiz)
    (usedI : (m.arpcache i).arstate ≠ .free) :
    (m.arpcache i).arpaddr ≠ (m.arpcache slot).arpaddr :=
  fun same => other (inv.unique i slot iIn inside usedI used same)

end Frames

section Steps

variable {m n : Machine} {pid : Int}

theorem resolve_inv (inv : Inv m) (net : NetData) (nxthop : Nat)
    (alive : (m.proc pid).alive = true) (idle : (m.proc pid).waits = none) :
    Inv (arpResolve m net pid nxthop).1 := by
  unfold arpResolve
  split_ifs
  · exact inv
  split
  · split_ifs
    · exact inv
    · exact inv
  rename_i missing
  split
  · exact inv
  rename_i slot found
  refine ⟨?_, fun other pending => ?_⟩
  · exact unique_setEntry inv fun i _ inside used _ => lookup_none missing inside used
  · rw [setProc_arpcache] at pending
    by_cases is_slot : other = slot
    · subst is_slot
      unfold Owned IsWaiter
      rw [setProc_arpcache, setEntry_self, setProc_self]
      exact ⟨⟨_, rfl, rfl, rfl, alive⟩, nofun⟩
    · rw [setEntry_ne is_slot] at pending
      refine owned_congr (inv.owned other pending) ?_ ?_ ?_
      · rw [setProc_arpcache, setEntry_ne is_slot]
      · rw [setProc_arpcache, setEntry_ne is_slot]
      · rw [setProc_ne (not_owner inv idle pending), setEntry_proc]

theorem wake_inv (inv : Inv m) {w : Resolving} (waits : (m.proc pid).waits = some w) :
    Inv (wake m pid w).1 := by
  unfold wake
  dsimp only
  split_ifs with timedOut last refusal
  · refine ⟨?_, fun other pending => ?_⟩
    · exact @unique_setEntry _ w.slot ⟨inv.unique, inv.owned⟩ _ nofun
    · by_cases is_slot : other = w.slot
      · subst is_slot
        rw [setEntry_self] at pending
        cases pending
      · rw [setEntry_ne is_slot, setProc_arpcache] at pending
        have elsewhere : (m.arpcache other).arpid ≠ pid := fun owner =>
          is_slot (owner_slot inv waits pending owner).symm
        refine owned_congr (inv.owned other pending) ?_ ?_ ?_
        · rw [setEntry_ne is_slot, setProc_arpcache]
        · rw [setEntry_ne is_slot, setProc_arpcache]
        · rw [setEntry_proc, setProc_ne elsewhere]
  · refine ⟨inv.unique, fun other pending => ?_⟩
    rw [setProc_arpcache] at pending
    by_cases owner : (m.arpcache other).arpid = pid
    · obtain ⟨⟨v, waits', at_slot, addr, alive⟩, -⟩ := inv.owned other pending
      rw [owner] at waits' alive
      rw [waits] at waits'
      obtain rfl := Option.some.inj waits'
      unfold Owned IsWaiter
      rw [setProc_arpcache, owner, setProc_self]
      exact ⟨⟨_, rfl, at_slot, addr, alive⟩, nofun⟩
    · exact owned_congr (inv.owned other pending) rfl rfl (setProc_ne owner _)
  all_goals
    refine inv_proc inv _ fun slot pending owner => timedOut ?_
    have harmless := (inv.owned slot pending).2
    rw [owner] at harmless
    cases held : (m.proc pid).prmsg with
    | none => rfl
    | some msg => exact harmless msg held

theorem noted_inv (inv : Inv m) (pkt : Arppacket) {slot : Nat}
    (found : lookup m pkt.arpSndpa = some slot) : Inv (noted m pkt slot) := by
  obtain ⟨inside, used, -⟩ := lookup_some found
  unfold noted
  dsimp only
  split_ifs with pending
  · have resolved : Inv (setEntry m slot { m.arpcache slot with
        arhaddr := pkt.arpSndha, arstate := .resolved }) :=
      inv_setEntry inv nofun fun i other iIn usedI _ => others_differ inv inside used i other iIn usedI
    refine inv_send resolved fun other isPending owner _ => ?_
    by_cases is_slot : other = slot
    · subst is_slot
      rw [setEntry_self] at isPending
      cases isPending
    · rw [setEntry_ne is_slot] at isPending owner
      obtain ⟨⟨w, waits, at_slot, -⟩, -⟩ := inv.owned slot pending
      exact absurd ((owner_slot inv waits isPending owner).symm.trans at_slot) is_slot
  · exact inv_setEntry inv pending fun i other iIn usedI _ =>
      others_differ inv inside used i other iIn usedI

theorem added_inv (inv : Inv m) (net : NetData) (pkt : Arppacket)
    (missing : lookup m pkt.arpSndpa = none) : Inv (added m net pkt) := by
  unfold added
  split_ifs
  · exact inv
  split
  · exact inv
  · exact inv_setEntry inv nofun fun i _ inside used _ => lookup_none missing inside used

theorem arp_in_inv (inv : Inv m) (net : NetData) (pkt : Arppacket) : Inv (arpIn m net pkt) := by
  unfold arpIn
  split_ifs
  · exact inv
  · have same : Inv { m with received := m.received ++ [pkt] } := ⟨inv.unique, inv.owned⟩
    dsimp only
    split
    · rename_i slot found
      exact noted_inv same pkt found
    · rename_i missing
      exact added_inv same net pkt missing

theorem step_inv {event : Event} (inv : Inv m) (spares : Spares m event)
    (did : step m event = some n) : Inv n := by
  obtain ⟨⟨after, answer⟩, acted, rfl⟩ := Option.map_eq_some_iff.mp did
  have same : ∀ result : Machine × Option Answer, some result = some (after, answer) →
      Inv result.1 → Inv after := by
    intro result taken holds
    rw [Option.some.inj taken] at holds
    exact holds
  cases event with
  | resolve net pid nxthop =>
      simp only [act] at acted
      split_ifs at acted with may
      exact same _ acted (resolve_inv inv net nxthop may.1 (by simpa using may.2))
  | wake pid =>
      obtain ⟨w, waits, taken⟩ := Option.map_eq_some_iff.mp acted
      exact same _ (congrArg some taken) (wake_inv inv waits)
  | packet net pkt => exact same _ acted (arp_in_inv inv net pkt)
  | message pid msg =>
      refine same _ acted (inv_send inv fun slot pending owner empty => ?_)
      obtain ⟨⟨w, waits, -⟩, -⟩ := inv.owned slot pending
      exact spares (by rw [← owner, waits]; rfl) empty
  | take pid =>
      simp only [act] at acted
      split_ifs at acted with may
      have idle : (m.proc pid).waits = none := by simpa using may
      exact same _ acted (inv_proc inv _ fun slot pending => not_owner inv idle pending)
  | exit pid parent =>
      simp only [act] at acted
      split_ifs at acted
      obtain ⟨quiet, settled⟩ := spares
      have not_pid : ∀ slot, (m.arpcache slot).arstate = .pending →
          (m.arpcache slot).arpid ≠ pid := by
        intro slot pending owner
        obtain ⟨⟨w, waits, at_slot, -⟩, -⟩ := inv.owned slot pending
        rw [owner] at waits
        have elsewhere := settled w waits
        rw [at_slot] at elsewhere
        exact elsewhere pending owner
      have told : Inv (send m parent pid) := by
        refine inv_send inv fun slot pending owner empty => ?_
        obtain ⟨⟨w, waits, -⟩, -⟩ := inv.owned slot pending
        have other : parent ≠ pid := fun is_pid => not_pid slot pending (owner.trans is_pid)
        rw [owner] at waits
        exact absurd empty (quiet other (by rw [waits]; rfl))
      refine same _ acted (inv_proc told _ fun slot pending => ?_)
      rw [send_arpcache] at pending ⊢
      exact not_pid slot pending
  | create pid =>
      simp only [act] at acted
      split_ifs at acted with dead
      refine same _ acted (inv_proc inv _ fun slot pending owner => ?_)
      obtain ⟨⟨w, -, -, -, alive⟩, -⟩ := inv.owned slot pending
      rw [owner, dead] at alive
      cases alive

theorem started_inv (started : Started m) : Inv m :=
  ⟨fun i _ _ _ used => absurd (started.free i) used,
    fun slot pending => by rw [started.free slot] at pending; cases pending⟩

end Steps

section Ends

variable {m : Machine} {slot : Nat} {pid : Int}

/-- The process of an entry waits out its time, as often as it still does. -/
theorem waits_out (left : Nat) {w : Resolving} (waits : (m.proc pid).waits = some w)
    (at_slot : w.slot = slot) (times : w.left ≤ left)
    (harmless : ∀ msg ∈ (m.proc pid).prmsg, msg = timeout) :
    ∃ times n, takeEvents step (fun _ _ => True) (List.replicate times (.wake pid)) m = some n ∧
      (n.arpcache slot).arstate = .free := by
  have timedOut : (m.proc pid).prmsg.getD timeout = timeout := by
    cases held : (m.proc pid).prmsg with
    | none => rfl
    | some msg => exact harmless msg held
  induction left generalizing m w with
  | zero =>
      have last : w.left ≤ 1 := by omega
      refine ⟨1, (wake m pid w).1, ?_, ?_⟩
      · simp [takeEvents, step, act, waits]
      · simp [wake, timedOut, last, at_slot]
  | succ left induction =>
      by_cases last : w.left ≤ 1
      · refine ⟨1, (wake m pid w).1, ?_, ?_⟩
        · simp [takeEvents, step, act, waits]
        · simp [wake, timedOut, last, at_slot]
      · have result : (wake m pid w).1 = setProc m pid { m.proc pid with
            prmsg := none, waits := some { w with left := w.left - 1 } } := by
          simp [wake, timedOut, last]
        have first : step m (.wake pid) = some (wake m pid w).1 := by simp [step, act, waits]
        have fewer : w.left - 1 ≤ left := by omega
        obtain ⟨more, n, took, free⟩ := @induction (wake m pid w).1
          { w with left := w.left - 1 } (by simp [result]) at_slot fewer (by simp [result])
          (by simp [result])
        refine ⟨more + 1, n, ?_, free⟩
        rw [List.replicate_succ, takeEvents, if_pos trivial, first]
        exact took

theorem inv_sound (inv : Inv m) : CacheSound m := by
  refine ⟨inv.unique, fun slot pending => (inv.owned slot pending).1, fun full slot inside => ?_,
    fun slot pending => ?_⟩
  · have pending := arp_alloc_none full inside
    exact ⟨pending, (inv.owned slot pending).1⟩
  · obtain ⟨⟨w, waits, at_slot, -⟩, harmless⟩ := inv.owned slot pending
    exact waits_out w.left waits at_slot (Nat.le_refl _) harmless

end Ends

section Results

/-- In a run in which nobody disturbs a process inside `arp_resolve`, every pending entry has its
process there. -/
theorem pending_entries_have_waiters {m : Machine} (run : Reached step Started Spares m) :
    CacheSound m :=
  inv_sound (reached_invariant run (fun _ started => started_inv started)
    fun _ _ _ inv spares did => step_inv inv spares did)

/-- The cache is empty, and nobody waits. -/
def booted : Machine where
  arpcache _ := cleared
  proc _ := { alive := true, prmsg := none, waits := none }
  received := []

theorem booted_started : Started booted := ⟨fun _ => rfl, fun _ => rfl⟩

def net : NetData where
  ipvalid := true
  ipucast := 1
  ipbcast := 255
  ethbcast := 0xffffffffffff

theorem pending_entries_have_waiters_one :
    ∃ m, step booted (.resolve net 5 9) = some m ∧ (m.arpcache 0).arstate = .pending ∧
      CacheSound m := by
  have may : Spares booted (.resolve net 5 9) := trivial
  refine ⟨_, rfl, ?_, pending_entries_have_waiters (.step (.start booted_started) may rfl)⟩
  decide

/-- Process 5 is killed inside `arp_resolve`, and its entry stays pending. -/
theorem entry_is_left_behind :
    ¬∀ m, Reached step Started (fun _ _ => True) m → CacheSound m := by
  intro always
  have results : (takeEvents step (fun _ _ => True) [.resolve net 5 9, .exit 5 1] booted).map
      (fun m => ((m.arpcache 0).arstate, (m.arpcache 0).arpid, (m.proc 5).alive)) =
    some (.pending, 5, false) := by
    decide
  obtain ⟨m, took, states⟩ := Option.map_eq_some_iff.mp results
  obtain ⟨pending, more⟩ := Prod.mk.inj states
  obtain ⟨owner, dead⟩ := Prod.mk.inj more
  obtain ⟨w, -, -, -, alive⟩ :=
    (always m (take_events (.start booted_started) took)).waiters 0 pending
  rw [owner, dead] at alive
  cases alive

end Results

end Xinu.Net.ArpCache
