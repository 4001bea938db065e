import Xinu.Lib.Interleaving
import Xinu.Paging.System
import Xinu.Sched.Queues

/-!
# The use counts of the backing stores

`open_bs` and `close_bs` count the users of an allocated store, and `deallocate_bs` refuses a store
that has users. `close_bs` does not look at the count.
-/

namespace Xinu.Stores.Use

open Xinu.Kernel.State Xinu.Kernel.Semaphore Xinu.Lib.StateError Xinu.Lib.Interleaving
open Xinu.Paging.BackingStore Xinu.Paging.System
open Xinu.Sched.Queues (int32 int32_small)

set_option autoImplicit false

section Definitions

/-- What `open_bs` and `close_bs` do with the use count of an allocated store. -/
def countBs (change : Int → Int) (store : Int) : Call Int := do
  if maxId < store ∨ store < minId then pure sysErr
  else do
    wait .bsSem
    let s ← get
    if (s.ker.bstab store.toNat).isallocated = false then do
      signal .bsSem
      pure sysErr
    else do
      modifyKer fun ker => ker.setStore store.toNat fun entry =>
        { entry with usecount := change entry.usecount }
      signal .bsSem
      pure store

def openBs (store : Int) : Call Int := countBs (fun usecount => int32 (usecount + 1)) store

def closeBs (store : Int) : Call Int := countBs (fun usecount => int32 (usecount - 1)) store

inductive UseCall where
  | allocateBs (npages : Nat)
  | openBs (store : Int)
  | closeBs (store : Int)
  | deallocateBs (store : Int)

def UseCall.run : UseCall → Call Int
  | .allocateBs npages => Paging.BackingStore.allocateBs npages
  | .openBs store => Use.openBs store
  | .closeBs store => Use.closeBs store
  | .deallocateBs store => Paging.BackingStore.deallocateBs store

/-- The stores, and for each of them how many calls of `open_bs` have been made since it was
allocated and not been matched by a call of `close_bs`. -/
structure Users where
  st : St
  outstanding : Nat → Nat

/-- The users after a call that returned `result`. A close with no open to match changes nothing. -/
def counted (outstanding : Nat → Nat) (call : UseCall) (result : Int) : Nat → Nat :=
  if result = sysErr then outstanding
  else match call with
  | .allocateBs _ => Function.update outstanding result.toNat 0
  | .openBs store => Function.update outstanding store.toNat (outstanding store.toNat + 1)
  | .closeBs store => Function.update outstanding store.toNat (outstanding store.toNat - 1)
  | .deallocateBs store => Function.update outstanding store.toNat 0

def act (u : Users) (call : UseCall) : Option Users :=
  match call.run u.st with
  | .ok result st => some ⟨st, counted u.outstanding call result⟩
  | .error _ _ => none

/-- No store has been allocated yet. -/
def Started (u : Users) : Prop :=
  ∀ store < maxBsEntries, (u.st.ker.bstab store).isallocated = false ∧
    (u.st.ker.bstab store).usecount = 0 ∧ u.outstanding store = 0

/-- A close matches an open, and the count of an open fits in an `int32`. -/
def Matched (u : Users) : UseCall → Prop
  | .closeBs store => minId ≤ store → store ≤ maxId →
      (u.st.ker.bstab store.toNat).isallocated = true → 0 < u.outstanding store.toNat
  | .openBs store => minId ≤ store → store ≤ maxId →
      (u.st.ker.bstab store.toNat).isallocated = true → u.outstanding store.toNat + 1 < 2147483648
  | _ => True

instance (u : Users) (call : UseCall) : Decidable (Matched u call) :=
  match call with
  | .allocateBs _ => isTrue trivial
  | .openBs _ => inferInstanceAs (Decidable (_ → _ → _ → _))
  | .closeBs _ => inferInstanceAs (Decidable (_ → _ → _ → _))
  | .deallocateBs _ => isTrue trivial

/-- No count is negative. -/
def Counts (u : Users) : Prop := ∀ store < maxBsEntries, 0 ≤ (u.st.ker.bstab store).usecount

/-- A store with users is not deallocated. -/
def Guarded (u : Users) : Prop :=
  ∀ store result final, minId ≤ store → store ≤ maxId → 0 < u.outstanding store.toNat →
    deallocateBs store u.st = .ok result final → result = sysErr

end Definitions

section Views

/-- What the calls know about a store -/
def useView (s : St) : Bool × (Nat → Bool × Int) :=
  (s.ker.pageServerActive,
    fun store => ((s.ker.bstab store).isallocated, (s.ker.bstab store).usecount))

variable {s final : St} {result : Int} {store : Int}

theorem keeps_wait (sem : Sem) : Keeps useView (wait sem) :=
  wait_keeps sem fun _ _ _ => rfl

theorem keeps_signal (sem : Sem) : Keeps useView (signal sem) :=
  signal_keeps sem fun _ _ _ => rfl

/-- A change of a store that is not one of its users -/
theorem keeps_store (store : Nat) {change : BsEntry → BsEntry}
    (kept : ∀ entry, (change entry).isallocated = entry.isallocated ∧
      (change entry).usecount = entry.usecount) :
    Keeps useView (modifyKer fun ker => ker.setStore store change) := by
  refine keeps_modify fun s => ?_
  refine Prod.ext rfl (funext fun other => ?_)
  change ((Function.update s.ker.bstab store _ other).isallocated,
    (Function.update s.ker.bstab store _ other).usecount) = _
  by_cases same : other = store
  · subst same
    rw [Function.update_self, (kept _).1, (kept _).2]
    rfl
  · rw [Function.update_of_ne same]
    rfl

theorem keeps_released (action : Call Int) (keeps : Keeps useView action) (sem : Sem) :
    Keeps useView (do signal sem; action) :=
  keeps_bind (keeps_signal sem) fun _ => keeps

/-- `get_bs` when the server is active -/
theorem get_bs_view (active : s.ker.pageServerActive = true) (bsId : Int) (npages : Nat) :
    useView (finalState (getBs bsId npages s)) = useView s := by
  have opened : Keeps useView (do
      wait .bsSem
      let s ← get
      if (s.ker.bstab bsId.toNat).isopen then do
        signal .bsSem
        pure sysErr
      else do
        modifyKer fun ker => ker.setStore bsId.toNat fun store =>
          { store with isopen := true, npages := npages }
        signal .bsSem
        pure (npages : Int)) := by
    apply keeps_bind (keeps_wait _)
    intro _
    apply keeps_bind keeps_get
    intro s
    apply keeps_ite
    · exact keeps_released _ (keeps_pure _) _
    · apply keeps_bind
      · exact keeps_store _ fun _ => ⟨rfl, rfl⟩
      intro _
      exact keeps_released _ (keeps_pure _) _
  unfold getBs
  rw [get_bind, if_neg (by rw [active]; decide)]
  exact keeps_ite (keeps_pure sysErr) opened s

theorem keeps_release_bs (bsId : Int) : Keeps useView (releaseBs bsId) := by
  apply keeps_bind keeps_get
  intro s
  apply keeps_ite (keeps_pure _)
  apply keeps_bind (keeps_wait _)
  intro _
  apply keeps_bind keeps_get
  intro s
  apply keeps_ite
  · exact keeps_released _ (keeps_pure _) _
  · apply keeps_bind
    · exact keeps_store _ fun _ => ⟨rfl, rfl⟩
    intro _
    exact keeps_released _ (keeps_pure _) _

end Views

section Calls

variable {s final : St} {result : Int} {store : Int} {npages : Nat}

/-- What a call did with the table of the stores -/
def Leaves (s final : St) : Prop := useView final = useView s

theorem leaves_store (same : Leaves s final) (i : Nat) :
    (final.ker.bstab i).isallocated = (s.ker.bstab i).isallocated ∧
      (final.ker.bstab i).usecount = (s.ker.bstab i).usecount := by
  have here := congrFun (congrArg Prod.snd same) i
  exact Prod.mk.inj here

theorem leaves_active (same : Leaves s final) :
    final.ker.pageServerActive = s.ker.pageServerActive := congrArg Prod.fst same

/-- One store has been given another state. -/
structure Sets (s final : St) (i : Nat) (isallocated : Bool) (usecount : Int) : Prop where
  active : final.ker.pageServerActive = s.ker.pageServerActive
  here : (final.ker.bstab i).isallocated = isallocated ∧ (final.ker.bstab i).usecount = usecount
  others : ∀ other ≠ i, (final.ker.bstab other).isallocated = (s.ker.bstab other).isallocated ∧
    (final.ker.bstab other).usecount = (s.ker.bstab other).usecount

theorem sets_of {middle after : St} {i : Nat} {change : BsEntry → BsEntry}
    (before : Leaves s middle)
    (did : modifyKer (fun ker => ker.setStore i change) middle = .ok PUnit.unit after)
    (behind : Leaves after final) :
    Sets s final i (change (middle.ker.bstab i)).isallocated
      (change (middle.ker.bstab i)).usecount := by
  cases did
  have same : ∀ j, ((middle.ker.setStore i change).bstab j) =
      if j = i then change (middle.ker.bstab i) else middle.ker.bstab j := fun j => by
    change Function.update middle.ker.bstab i _ j = _
    rw [Function.update_apply]
  have was := leaves_active before
  refine ⟨(leaves_active behind).trans was, ?_, fun other differ => ?_⟩
  · obtain ⟨allocated, usecount⟩ := leaves_store behind i
    rw [allocated, usecount]
    change ((middle.ker.setStore i change).bstab i).isallocated = _ ∧
      ((middle.ker.setStore i change).bstab i).usecount = _
    rw [same, if_pos rfl]
    exact ⟨rfl, rfl⟩
  · obtain ⟨allocated, usecount⟩ := leaves_store behind other
    obtain ⟨allocated', usecount'⟩ := leaves_store before other
    rw [allocated, usecount]
    change ((middle.ker.setStore i change).bstab other).isallocated = _ ∧
      ((middle.ker.setStore i change).bstab other).usecount = _
    rw [same, if_neg differ]
    exact ⟨allocated', usecount'⟩

/-- `open_bs` and `close_bs` that return -/
theorem count_bs_ok {change : Int → Int} (ran : countBs change store s = .ok result final) :
    result = sysErr ∧ Leaves s final ∧
        (minId ≤ store → store ≤ maxId → (s.ker.bstab store.toNat).isallocated = false) ∨
      result = store ∧ minId ≤ store ∧ store ≤ maxId ∧
        (s.ker.bstab store.toNat).isallocated = true ∧
        Sets s final store.toNat true (change (s.ker.bstab store.toNat).usecount) := by
  unfold countBs at ran
  split_ifs at ran with outside
  · cases ran
    exact Or.inl ⟨rfl, rfl, fun above below => by omega⟩
  · obtain ⟨_, held, waited, ran⟩ := bind_ok_inv ran
    have before : Leaves s held := keeps_ok (keeps_wait _) waited
    obtain ⟨allocated, usecount⟩ := leaves_store before store.toNat
    rw [get_bind] at ran
    split_ifs at ran with none
    · obtain ⟨_, released, signalled, ran⟩ := bind_ok_inv ran
      cases ran
      have behind : Leaves held final := keeps_ok (keeps_signal _) signalled
      exact Or.inl ⟨rfl, behind.trans before, fun _ _ => allocated.symm.trans none⟩
    · obtain ⟨_, changed, did, ran⟩ := bind_ok_inv ran
      obtain ⟨_, released, signalled, ran⟩ := bind_ok_inv ran
      have some : (s.ker.bstab store.toNat).isallocated = true := by
        rw [← allocated]
        simpa using none
      have behind : Leaves changed released := keeps_ok (keeps_signal _) signalled
      have sets := sets_of before did behind
      simp only [allocated, usecount, some] at sets
      cases ran
      exact Or.inr ⟨rfl, by omega, by omega, some, sets⟩

/-- `deallocate_bs` that returns -/
theorem deallocate_bs_ok (ran : deallocateBs store s = .ok result final) :
    result = sysErr ∧ Leaves s final ∨
      result = store ∧ minId ≤ store ∧ store ≤ maxId ∧
        (s.ker.bstab store.toNat).usecount ≤ 0 ∧ Sets s final store.toNat false 0 := by
  unfold deallocateBs at ran
  split_ifs at ran with outside
  · cases ran
    exact Or.inl ⟨rfl, rfl⟩
  · rw [get_bind] at ran
    split_ifs at ran with none used
    · cases ran
      exact Or.inl ⟨rfl, rfl⟩
    · cases ran
      exact Or.inl ⟨rfl, rfl⟩
    · obtain ⟨_, released, closed, ran⟩ := bind_ok_inv ran
      obtain ⟨_, changed, did, ran⟩ := bind_ok_inv ran
      have before : Leaves s released := keeps_ok (keeps_release_bs store) closed
      cases ran
      exact Or.inr ⟨rfl, by omega, by omega, by omega, sets_of before did rfl⟩

/-- The loop of `allocate_bs` with an active server -/
theorem allocate_from_ok (active : s.ker.pageServerActive = true) {fuel i : Nat}
    (ran : allocateBsFrom npages fuel i s = .ok result final) :
    result = sysErr ∧ Leaves s final ∨ ∃ j, i ≤ j ∧ j < i + fuel ∧ result = j ∧
      (s.ker.bstab j).isallocated = false ∧ Sets s final j true 0 := by
  induction fuel generalizing s i with
  | zero =>
      cases ran
      exact Or.inl ⟨rfl, rfl⟩
  | succ fuel induction =>
      unfold allocateBsFrom at ran
      rw [get_bind] at ran
      split_ifs at ran with isFree
      · obtain ⟨opened, middle, got, ran⟩ := bind_ok_inv ran
        have before : Leaves s middle := by
          have kept := get_bs_view active i npages
          rw [got] at kept
          exact kept
        split_ifs at ran with failed
        · rcases induction ((leaves_active before).trans active) ran with
            ⟨failed, same⟩ | ⟨j, above, below, place, isFree, sets⟩
          · exact Or.inl ⟨failed, same.trans before⟩
          · refine Or.inr ⟨j, by omega, by omega, place, ?_, ?_⟩
            · rw [← (leaves_store before j).1]
              exact isFree
            · refine ⟨sets.active.trans (leaves_active before), sets.here, fun other differ => ?_⟩
              obtain ⟨allocated, usecount⟩ := leaves_store before other
              rw [← allocated, ← usecount]
              exact sets.others other differ
        · obtain ⟨_, changed, did, ran⟩ := bind_ok_inv ran
          cases ran
          exact Or.inr ⟨i, Nat.le_refl i, by omega, rfl, isFree, sets_of before did rfl⟩
      · rcases induction active ran with same | ⟨j, above, below, place, isFree, sets⟩
        · exact Or.inl same
        · exact Or.inr ⟨j, by omega, by omega, place, isFree, sets⟩

/-- `psinit` of an inactive server -/
theorem psinit_resets (off : s.ker.pageServerActive = false) {status : Int}
    (ran : psinit s = .ok status final) : final.ker.pageServerActive = true ∧
      ∀ store < maxBsEntries, (final.ker.bstab store).isallocated = false ∧
        (final.ker.bstab store).usecount = 0 := by
  obtain ⟨_, held, waited, ran⟩ := bind_ok_inv ran
  have before : Leaves s held := keeps_ok (keeps_wait _) waited
  rw [get_bind, if_neg (by rw [leaves_active before, off]; decide)] at ran
  obtain ⟨_, created, createRan, ran⟩ := bind_ok_inv ran
  cases createRan
  obtain ⟨_, cleared, clearRan, ran⟩ := bind_ok_inv ran
  cases clearRan
  obtain ⟨_, released, signalled, ran⟩ := bind_ok_inv ran
  cases ran
  have behind := keeps_ok (keeps_signal _) signalled
  refine ⟨leaves_active behind, fun store bound => ?_⟩
  obtain ⟨allocated, usecount⟩ := leaves_store behind store
  rw [allocated, usecount]
  simp only [if_pos bound]
  exact ⟨trivial, trivial⟩

end Calls

section Runs

variable {u u' : Users} {call : UseCall}

/-- The use counts are the counts of the users. -/
structure Sound (u : Users) : Prop where
  server : u.st.ker.pageServerActive = false →
    ∀ store < maxBsEntries, (u.st.ker.bstab store).isallocated = false
  users : ∀ store < maxBsEntries, (u.st.ker.bstab store).usecount = u.outstanding store ∧
    u.outstanding store < 2147483648
  idle : ∀ store < maxBsEntries, (u.st.ker.bstab store).isallocated = false →
    u.outstanding store = 0

theorem bounded {store : Int} (above : minId ≤ store) (below : store ≤ maxId) :
    store.toNat < maxBsEntries := by
  unfold minId maxId maxBsEntries at *
  omega

/-- A call that changes no count keeps the users. -/
theorem sound_leaves {s st : St} {outstanding : Nat → Nat} (sound : Sound ⟨s, outstanding⟩)
    (same : Leaves s st) : Sound ⟨st, outstanding⟩ := by
  refine ⟨fun off store bound => ?_, fun store bound => ?_, fun store bound isFree => ?_⟩
  · rw [leaves_active same] at off
    rw [(leaves_store same store).1]
    exact sound.server off store bound
  · rw [(leaves_store same store).2]
    exact sound.users store bound
  · rw [(leaves_store same store).1] at isFree
    exact sound.idle store bound isFree

/-- A call changes one store and its users. -/
theorem sound_sets {s st : St} {outstanding : Nat → Nat} {i users : Nat} {isallocated : Bool}
    {usecount : Int} (sound : Sound ⟨s, outstanding⟩)
    (active : isallocated = true → s.ker.pageServerActive = true)
    (sets : Sets s st i isallocated usecount) (same : usecount = users)
    (small : users < 2147483648) (none : isallocated = false → users = 0) :
    Sound ⟨st, Function.update outstanding i users⟩ := by
  refine ⟨fun off store bound => ?_, fun store bound => ?_, fun store bound isFree => ?_⟩
  · rw [sets.active] at off
    by_cases here : store = i
    · rw [here, sets.here.1]
      by_contra allocated
      rw [active (by simpa using allocated)] at off
      cases off
    · rw [(sets.others store here).1]
      exact sound.server off store bound
  · dsimp only
    by_cases here : store = i
    · rw [here, sets.here.2, Function.update_self]
      exact ⟨same, small⟩
    · rw [(sets.others store here).2, Function.update_of_ne here]
      exact sound.users store bound
  · dsimp only at isFree ⊢
    by_cases here : store = i
    · rw [here, sets.here.1] at isFree
      rw [here, Function.update_self]
      exact none isFree
    · rw [(sets.others store here).1] at isFree
      rw [Function.update_of_ne here]
      exact sound.idle store bound isFree

/-- An allocated store has an active server. -/
theorem sound_active (sound : Sound u) {store : Nat} (bound : store < maxBsEntries)
    (allocated : (u.st.ker.bstab store).isallocated = true) :
    u.st.ker.pageServerActive = true := by
  by_contra off
  rw [sound.server (by simpa using off) store bound] at allocated
  cases allocated

theorem allocate_sound (sound : Sound u) {npages : Nat} {result : Int} {final : St}
    (ran : allocateBs npages u.st = .ok result final) :
    Sound ⟨final, counted u.outstanding (.allocateBs npages) result⟩ := by
  have allocates : ∀ {middle : St}, Sound ⟨middle, u.outstanding⟩ →
      middle.ker.pageServerActive = true →
        allocateBsFrom npages maxBsEntries 0 middle = .ok result final →
          Sound ⟨final, counted u.outstanding (.allocateBs npages) result⟩ := by
    intro middle before active ran
    rcases allocate_from_ok active ran with ⟨rfl, same⟩ | ⟨j, _, below, rfl, _, sets⟩
    · exact sound_leaves before same
    · have proper : ¬(j : Int) = sysErr := by
        unfold sysErr
        omega
      rw [counted, if_neg proper]
      exact sound_sets before (fun _ => active) sets rfl (by decide) fun allocated => by
        cases allocated
  unfold allocateBs at ran
  rw [get_bind] at ran
  split_ifs at ran with off
  · obtain ⟨status, started, initialised, ran⟩ := bind_ok_inv ran
    obtain ⟨active, reset⟩ := psinit_resets off initialised
    refine allocates ⟨fun off => ?_, fun store bound => ?_, fun store bound isFree => ?_⟩ active ran
    · rw [active] at off
      cases off
    · have none := sound.idle store bound (sound.server off store bound)
      dsimp only
      rw [(reset store bound).2, none]
      exact ⟨rfl, by decide⟩
    · exact sound.idle store bound (sound.server off store bound)
  · exact allocates sound (by simpa using off) ran

theorem proper_store {store : Int} (above : minId ≤ store) : ¬store = sysErr := by
  unfold minId at above
  unfold sysErr
  omega

theorem users_step (sound : Sound u) (may : Matched u call) (did : act u call = some u') :
    Sound u' := by
  unfold act at did
  cases ran : call.run u.st with
  | error stop final =>
      rw [ran] at did
      cases did
  | ok result final =>
      rw [ran] at did
      obtain rfl := Option.some.inj did
      cases call with
      | allocateBs npages => exact allocate_sound sound ran
      | openBs store =>
          have opened : openBs store u.st = .ok result final := ran
          rcases count_bs_ok opened with ⟨rfl, same, _⟩ | ⟨rfl, above, below, allocated, sets⟩
          · exact sound_leaves sound same
          · obtain ⟨users, _⟩ := sound.users _ (bounded above below)
            have small := may above below allocated
            rw [counted, if_neg (proper_store above)]
            refine sound_sets sound (fun _ => sound_active sound (bounded above below) allocated)
              sets ?_ small fun none => by cases none
            rw [users, int32_small (by omega) (by omega)]
            rfl
      | closeBs store =>
          have closed : closeBs store u.st = .ok result final := ran
          rcases count_bs_ok closed with ⟨rfl, same, _⟩ | ⟨rfl, above, below, allocated, sets⟩
          · exact sound_leaves sound same
          · obtain ⟨users, small⟩ := sound.users _ (bounded above below)
            have some := may above below allocated
            rw [counted, if_neg (proper_store above)]
            refine sound_sets sound (fun _ => sound_active sound (bounded above below) allocated)
              sets ?_ (by omega) fun none => by cases none
            rw [users, int32_small (by omega) (by omega)]
            omega
      | deallocateBs store =>
          rcases deallocate_bs_ok ran with ⟨rfl, same⟩ | ⟨rfl, above, below, _, sets⟩
          · exact sound_leaves sound same
          · rw [counted, if_neg (proper_store above)]
            exact sound_sets sound (fun none => by cases none) sets rfl (by decide) fun _ => rfl

theorem users_reached (run : Reached act Started Matched u) : Sound u := by
  refine reached_invariant run ?_ fun u u' call => users_step
  intro u started
  refine ⟨fun _ store bound => (started store bound).1, fun store bound => ?_,
    fun store bound _ => (started store bound).2.2⟩
  obtain ⟨_, usecount, none⟩ := started store bound
  rw [usecount, none]
  exact ⟨rfl, by decide⟩

theorem sound_counts (sound : Sound u) : Counts u := by
  intro store bound
  rw [(sound.users store bound).1]
  omega

theorem sound_guarded (sound : Sound u) : Guarded u := by
  intro store result final above below some ran
  rcases deallocate_bs_ok ran with ⟨failed, _⟩ | ⟨_, _, _, none, _⟩
  · exact failed
  · rw [(sound.users _ (bounded above below)).1] at none
    omega

/-- The first close that matches no open, or open that the count has no room for, makes a count
negative. -/
theorem unmatched_counts (sound : Sound u) (unmatched : ¬Matched u call)
    (did : act u call = some u') : ¬Counts u' := by
  unfold act at did
  cases ran : call.run u.st with
  | error stop final =>
      rw [ran] at did
      cases did
  | ok result final =>
      rw [ran] at did
      obtain rfl := Option.some.inj did
      cases call with
      | allocateBs npages => exact absurd trivial unmatched
      | deallocateBs store => exact absurd trivial unmatched
      | openBs store =>
          simp only [Matched, Classical.not_imp] at unmatched
          obtain ⟨above, below, allocated, full⟩ := unmatched
          obtain ⟨users, small⟩ := sound.users _ (bounded above below)
          have opened : openBs store u.st = .ok result final := ran
          rcases count_bs_ok opened with ⟨_, _, isFree⟩ | ⟨rfl, _, _, _, sets⟩
          · rw [isFree above below] at allocated
            cases allocated
          · intro counts
            have negative := counts _ (bounded above below)
            rw [sets.here.2, users] at negative
            unfold int32 at negative
            omega
      | closeBs store =>
          simp only [Matched, Classical.not_imp] at unmatched
          obtain ⟨above, below, allocated, none⟩ := unmatched
          obtain ⟨users, small⟩ := sound.users _ (bounded above below)
          have closed : closeBs store u.st = .ok result final := ran
          rcases count_bs_ok closed with ⟨_, _, isFree⟩ | ⟨rfl, _, _, _, sets⟩
          · rw [isFree above below] at allocated
            cases allocated
          · intro counts
            have negative := counts _ (bounded above below)
            rw [sets.here.2, users] at negative
            unfold int32 at negative
            omega

end Runs

section Results

variable {u : Users}

/-- In a run in which every close of an allocated store matches an open, the store is not
deallocated while it has users, and no count is negative. The first close that matches none makes
a count negative. -/
theorem used_stores_kept (run : Reached act Started Matched u) :
    Guarded u ∧ Counts u ∧ ∀ call u', act u call = some u' → (Counts u' ↔ Matched u call) := by
  have sound := users_reached run
  refine ⟨sound_guarded sound, sound_counts sound, fun call u' did => ⟨fun counts => ?_,
    fun may => sound_counts (users_step sound may did)⟩⟩
  by_contra unmatched
  exact unmatched_counts sound unmatched did counts

/-- A machine that has just been switched on -/
def unused : Users := ⟨blankMachine, fun _ => 0⟩

theorem unused_started : Started unused := fun _ _ => ⟨rfl, rfl, rfl⟩

theorem used_stores_kept_one : ∃ u, takeEvents act Matched
    [.allocateBs 10, .openBs 0, .openBs 0, .closeBs 0, .deallocateBs 0] unused = some u ∧
      u.outstanding 0 = 1 ∧ Guarded u := by
  obtain ⟨u, took⟩ := Option.isSome_iff_exists.mp (show (takeEvents act Matched
    [.allocateBs 10, .openBs 0, .openBs 0, .closeBs 0, .deallocateBs 0] unused).isSome = true by
      decide +kernel)
  have users : (takeEvents act Matched [.allocateBs 10, .openBs 0, .openBs 0, .closeBs 0,
      .deallocateBs 0] unused).map (fun u => u.outstanding 0) = some 1 := by
    decide +kernel
  rw [took] at users
  exact ⟨u, took, Option.some.inj users,
    (used_stores_kept (take_events (.start unused_started) took)).1⟩

/-- A close before the open takes the count below zero, and the store that is open is deallocated. -/
theorem open_store_deallocated :
    ∃ u, Reached act Started (fun _ _ => True) u ∧ u.outstanding 0 = 1 ∧
      ∃ final, deallocateBs 0 u.st = .ok 0 final := by
  have run : ((takeEvents act (fun _ _ => True) [.allocateBs 10, .closeBs 0, .openBs 0] unused).map
      fun u => (u.outstanding 0, returnedWith 0 (deallocateBs 0 u.st))) = some (1, true) := by
    decide +kernel
  obtain ⟨u, took, facts⟩ := Option.map_eq_some_iff.mp run
  obtain ⟨users, came⟩ := Prod.mk.inj facts
  exact ⟨u, take_events (.start unused_started) took, users, _, returned_with came⟩

/-- So a run can deallocate a store that is in use. -/
theorem stores_not_kept :
    ¬∀ u, Reached act Started (fun _ _ => True) u → Guarded u ∧ Counts u := by
  intro always
  obtain ⟨u, run, users, final, ran⟩ := open_store_deallocated
  exact absurd ((always u run).1 0 0 final (by decide) (by decide)
    (by rw [Int.toNat_zero, users]; decide) ran) (by decide)

end Results

end Xinu.Stores.Use
