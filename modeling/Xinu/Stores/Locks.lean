import Xinu.Stores.Use

/-!
# The locks of the page server

The calls of `paging/` take `bs_sem`, and `psinit` takes `bs_init_sem`. Each of them gives it back
on every way out but one: `psinit` of a server that is active.
-/

namespace Xinu.Stores.Locks

open Xinu.Kernel.State Xinu.Kernel.Semaphore Xinu.Lib.StateError Xinu.Lib.Interleaving
open Xinu.Paging.BackingStore Xinu.Paging.System Xinu.Stores.Use
open Xinu.Sched.Queues (int32)

set_option autoImplicit false

section Definitions

inductive StoreCall where
  | psinit
  | getBs (bsId : Int) (npages : Nat)
  | releaseBs (bsId : Int)
  | openBs (store : Int)
  | closeBs (store : Int)
  | readBs (dst : Nat) (bsId : Int) (page : Nat)
  | writeBs (src : Nat) (bsId : Int) (page : Nat)

def StoreCall.run : StoreCall → Call Int
  | .psinit => Paging.BackingStore.psinit
  | .getBs bsId npages => Paging.BackingStore.getBs bsId npages
  | .releaseBs bsId => Paging.BackingStore.releaseBs bsId
  | .openBs store => Use.openBs store
  | .closeBs store => Use.closeBs store
  | .readBs dst bsId page => Paging.BackingStore.readBs dst bsId page
  | .writeBs src bsId page => Paging.BackingStore.writeBs src bsId page

/-- `psinit` of a server that is active -/
def Again (s : St) (call : StoreCall) : Prop :=
  call = .psinit ∧ s.ker.pageServerActive = true

def scount (s : St) (sem : Sem) : Int := (s.ker.semtab sem).scount

/-- A call has left the counts of the two semaphores as they were, or has created `bs_sem`. -/
structure CountsKept (s final : St) : Prop where
  init : scount final .bsInitSem = scount s .bsInitSem
  stores : scount final .bsSem =
    if s.ker.pageServerActive = false ∧ final.ker.pageServerActive = true then 1
    else scount s .bsSem

/-- Nobody holds a lock of the page server. -/
structure Unlocked (s : St) : Prop where
  init : scount s .bsInitSem = 1
  stores : s.ker.pageServerActive = true → scount s .bsSem = 1

/-- `psinit` is called once, and `open_bs` and `close_bs` behind it. -/
def Once (s : St) : StoreCall → Prop
  | .psinit => s.ker.pageServerActive = false
  | .openBs _ => s.ker.pageServerActive = true
  | .closeBs _ => s.ker.pageServerActive = true
  | _ => True

def act (s : St) (call : StoreCall) : Option St :=
  match call.run s with
  | .ok _ final => some final
  | .error _ _ => none

end Definitions

section Moves

variable {α β : Type} {lock : Sem} {amount amount' : Int} {s : St}

/-- The server and every count but that of `lock` are as they were, and that one has moved. -/
def Moved (lock : Sem) (amount : Int) (s final : St) : Prop :=
  final.ker.pageServerActive = s.ker.pageServerActive ∧
    ∀ sem, scount final sem = scount s sem + if sem = lock then amount else 0

/-- A run that does not block -/
def Flows (stop : Stop) (_ : St) : Prop := ∀ sem, stop ≠ .blocked sem

/-- The action never blocks, and moves a count when it returns. -/
def Moves (lock : Sem) (amount : Int) (action : Call α) : Prop :=
  ∀ s, Ends (action s) (fun _ final => Moved lock amount s final) Flows

theorem moved_same {final : St} (active : final.ker.pageServerActive = s.ker.pageServerActive)
    (semtab : final.ker.semtab = s.ker.semtab) : Moved lock 0 s final := by
  refine ⟨active, fun sem => ?_⟩
  unfold scount
  rw [semtab, ite_self, Int.add_zero]

theorem moves_pure (value : α) : Moves lock 0 (pure value : Call α) :=
  fun _ => moved_same rfl rfl

theorem moves_throw {stop : Stop} (flows : ∀ sem, stop ≠ .blocked sem) :
    Moves lock amount (throw stop : Call α) := fun _ => flows

theorem moves_modify {change : St → St}
    (active : ∀ s, (change s).ker.pageServerActive = s.ker.pageServerActive)
    (semtab : ∀ s, (change s).ker.semtab = s.ker.semtab) :
    Moves lock 0 (modify change : Call PUnit) := fun s => moved_same (active s) (semtab s)

theorem moves_bind {first : Call α} {next : α → Call β} (movesFirst : Moves lock amount first)
    (movesNext : ∀ value, Moves lock amount' (next value)) :
    Moves lock (amount + amount') (first >>= next) := by
  intro s
  refine ends_bind (movesFirst s) fun value middle _ moved => ?_
  refine ends_weaken (movesNext value middle) (fun _ final _ moved' => ?_) fun _ _ flows => flows
  refine ⟨moved'.1.trans moved.1, fun sem => ?_⟩
  rw [moved'.2, moved.2]
  split_ifs <;> omega

theorem moves_get {next : St → Call β} (moves : ∀ s, Moves lock amount (next s)) :
    Moves lock amount (get >>= next) := fun s => moves s s

theorem moves_ite {condition : Prop} [Decidable condition] {yes no : Call α}
    (movesYes : Moves lock amount yes) (movesNo : Moves lock amount no) :
    Moves lock amount (if condition then yes else no) := by
  split
  · exact movesYes
  · exact movesNo

theorem moves_signal : Moves lock 1 (signal lock) := by
  intro s
  have raised : ∀ (ker : Ker), ker.semtab = Function.update s.ker.semtab lock
      { scount := (s.ker.semtab lock).scount + 1, squeue := (ker.semtab lock).squeue } →
      ker.pageServerActive = s.ker.pageServerActive → Moved lock 1 s { s with ker := ker } := by
    intro ker semtab active
    refine ⟨active, fun sem => ?_⟩
    unfold scount
    rw [semtab]
    by_cases same : sem = lock
    · rw [if_pos same, same, Function.update_self]
    · rw [if_neg same, Function.update_of_ne same, Int.add_zero]
  unfold signal
  simp only [modifyKer, get_bind, modify_bind]
  split_ifs with somebody
  · cases (s.ker.semtab lock).squeue with
    | nil =>
        refine raised _ ?_ rfl
        simp [Ker.setSem]
    | cons first rest =>
        refine raised _ ?_ rfl
        simp [ready, Ker.setProc, Ker.setSem]
  · refine raised _ ?_ rfl
    simp [Ker.setSem]

/-- The lock is released, and the rest moves no count. -/
theorem moves_released {rest : Call α} (moves : Moves lock 0 rest) :
    Moves lock 1 (signal lock >>= fun _ => rest) := by
  have both := moves_bind (@moves_signal lock) fun _ => moves
  rwa [Int.add_zero] at both

theorem moves_store (store : Nat) (change : BsEntry → BsEntry) :
    Moves lock 0 (modifyKer fun ker => ker.setStore store change) :=
  moves_modify (fun _ => rfl) fun _ => rfl

theorem moves_then {first : Call α} {next : α → Call β} (movesFirst : Moves lock 0 first)
    (movesNext : ∀ value, Moves lock amount (next value)) : Moves lock amount (first >>= next) := by
  have both := moves_bind movesFirst movesNext
  rwa [Int.zero_add] at both

/-- A call that returns has left the server and the counts as they were, and it does not block when
`lock` is free. -/
structure Holds (lock : Sem) (s : St) (outcome : EStateM.Result Stop St α) : Prop where
  kept : ∀ value final, outcome = .ok value final → Moved lock 0 s final
  flows : 1 ≤ scount s lock → ∀ sem final, outcome ≠ .error (.blocked sem) final

theorem holds_moves {action : Call α} (moves : Moves lock 0 action) (s : St) :
    Holds lock s (action s) := by
  have ends := moves s
  refine ⟨fun value final ran => ?_, fun _ sem final ran => ?_⟩
  · rw [ran] at ends
    exact ends
  · rw [ran] at ends
    exact ends sem rfl

/-- The lock is taken and given back. -/
theorem holds_locked {body : Call α} (moves : Moves lock 1 body) (s : St) :
    Holds lock s ((wait lock >>= fun _ => body) s) := by
  by_cases free : 1 ≤ scount s lock
  · have ends := moves { s with ker := taken s.ker lock }
    rw [bind_ok (wait_free free)]
    refine ⟨fun value final ran => ?_, fun _ sem final ran => ?_⟩
    · rw [ran] at ends
      obtain ⟨active, counts⟩ := ends
      refine ⟨active, fun sem => ?_⟩
      rw [counts]
      unfold scount taken Ker.setSem
      dsimp only
      by_cases same : sem = lock
      · rw [if_pos same, if_pos same, same, Function.update_self]
        dsimp only
        omega
      · rw [if_neg same, if_neg same, Function.update_of_ne same]
    · rw [ran] at ends
      exact ends sem rfl
  · obtain ⟨stopped, blocked, _⟩ := wait_held lock (show (s.ker.semtab lock).scount ≤ 0 by
      unfold scount at free
      omega)
    rw [bind_error blocked]
    refine ⟨fun value final ran => ?_, fun free' => absurd free' free⟩
    cases ran

end Moves

section Calls

variable {s final : St} {store : Int} {npages page : Nat} {result : Int}

theorem count_bs_holds (change : Int → Int) (store : Int) (s : St) :
    Holds .bsSem s (countBs change store s) := by
  unfold countBs
  split_ifs with outside
  · exact holds_moves (moves_pure sysErr) s
  · refine holds_locked (moves_get fun s => moves_ite ?_ ?_) s
    · exact moves_released (moves_pure sysErr)
    · exact moves_then (moves_store _ _) fun _ => moves_released (moves_pure store)

theorem release_bs_holds (bsId : Int) (s : St) : Holds .bsSem s (releaseBs bsId s) := by
  unfold releaseBs
  rw [get_bind]
  split_ifs with off
  · exact holds_moves (moves_pure sysErr) s
  · refine holds_locked (moves_get fun s => moves_ite ?_ ?_) s
    · exact moves_released (moves_pure sysErr)
    · exact moves_then (moves_store _ _) fun _ => moves_released (moves_pure ok)

/-- `get_bs` behind the start of the server -/
theorem get_bs_holds (active : s.ker.pageServerActive = true) (bsId : Int) (npages : Nat) :
    Holds .bsSem s (getBs bsId npages s) := by
  unfold getBs
  rw [get_bind, if_neg (by rw [active]; decide)]
  split_ifs with outside
  · exact holds_moves (moves_pure sysErr) s
  · refine holds_locked (moves_get fun s => moves_ite ?_ ?_) s
    · exact moves_released (moves_pure sysErr)
    · exact moves_then (moves_store _ _) fun _ => moves_released (moves_pure (npages : Int))

theorem read_bs_holds (dst : Nat) (bsId : Int) (page : Nat) (s : St) :
    Holds .bsSem s (readBs dst bsId page s) := by
  have behind : ∀ s, Holds .bsSem s ((do
      let s ← get
      if s.ker.pageServerActive = false then pure sysErr
      else if maxId < bsId ∨ bsId < minId then pure sysErr
      else do
        wait .bsSem
        let s ← get
        if BadStorePage s.ker bsId page then do
          signal .bsSem
          pure sysErr
        else do
          signal .bsSem
          if vheapStart ≤ dst then throw (.nestedFault dst)
          else do
            modify fun s => s.setPage (dst / nbpg) (diskPage s bsId page)
            pure ok : Call Int) s) := by
    intro s
    rw [get_bind]
    split_ifs with off outside
    · exact holds_moves (moves_pure sysErr) s
    · exact holds_moves (moves_pure sysErr) s
    · refine holds_locked (moves_get fun s => moves_ite ?_ ?_) s
      · exact moves_released (moves_pure sysErr)
      · exact moves_released (moves_throw fun _ => Stop.noConfusion)
    · refine holds_locked (moves_get fun s => moves_ite ?_ ?_) s
      · exact moves_released (moves_pure sysErr)
      · refine moves_released ?_
        exact moves_then (moves_modify (fun _ => rfl) fun _ => rfl) fun _ => moves_pure ok
  have holds := behind { s with trace := .readBs dst bsId page :: s.trace }
  exact ⟨holds.kept, holds.flows⟩

theorem write_bs_holds (src : Nat) (bsId : Int) (page : Nat) (s : St) :
    Holds .bsSem s (writeBs src bsId page s) := by
  have behind : ∀ s, Holds .bsSem s ((do
      let s ← get
      if s.ker.pageServerActive = false then pure sysErr
      else if maxId < bsId ∨ bsId < minId then pure sysErr
      else do
        wait .bsSem
        let s ← get
        if BadStorePage s.ker bsId page then do
          signal .bsSem
          pure sysErr
        else do
          signal .bsSem
          modify fun s => { s with
            disk := fun block word =>
              if pageBlock bsId page ≤ block ∧ block < pageBlock bsId page + 8 then
                s.mem (src / nbpg) ((block - pageBlock bsId page) * 128 + word)
              else s.disk block word }
          pure ok : Call Int) s) := by
    intro s
    rw [get_bind]
    split_ifs with off outside
    · exact holds_moves (moves_pure sysErr) s
    · exact holds_moves (moves_pure sysErr) s
    · refine holds_locked (moves_get fun s => moves_ite ?_ ?_) s
      · exact moves_released (moves_pure sysErr)
      · refine moves_released ?_
        exact moves_then (moves_modify (fun _ => rfl) fun _ => rfl) fun _ => moves_pure ok
  have holds := behind { s with trace := .writeBs src bsId page :: s.trace }
  exact ⟨holds.kept, holds.flows⟩

/-- A call has started the server. -/
structure Starts (s final : St) : Prop where
  active : final.ker.pageServerActive = true
  init : scount final .bsInitSem = scount s .bsInitSem
  stores : scount final .bsSem = 1

/-- `psinit` of a server that is not active -/
theorem psinit_starts (off : s.ker.pageServerActive = false) :
    (∀ final, psinit s = .ok result final → Starts s final) ∧
      (1 ≤ scount s .bsInitSem → ∃ final, psinit s = .ok ok final) := by
  by_cases free : 1 ≤ scount s .bsInitSem
  · have still : ¬(taken s.ker .bsInitSem).pageServerActive = true := by
      change ¬s.ker.pageServerActive = true
      rw [off]
      decide
    unfold psinit
    rw [bind_ok (wait_free free), get_bind, if_neg still]
    simp only [modifyKer, modify_bind]
    generalize cleared : ({ s with ker := _ } : St) = middle
    have active : middle.ker.pageServerActive = true := by rw [← cleared]
    have init : scount middle .bsInitSem = scount s .bsInitSem - 1 := by
      rw [← cleared]
      simp [scount, taken, Ker.setSem]
    have stores : scount middle .bsSem = 1 := by
      rw [← cleared]
      simp [scount, taken, Ker.setSem]
    have ends := @moves_released _ .bsInitSem _ (moves_pure ok) middle
    obtain ⟨ker, signalled, _⟩ := signal_returned middle .bsInitSem
    rw [bind_ok signalled] at ends ⊢
    refine ⟨fun final ran => ?_, fun _ => ⟨_, rfl⟩⟩
    cases ran
    obtain ⟨activeEq, counts⟩ : Moved .bsInitSem 1 middle { middle with ker := ker } := ends
    refine ⟨activeEq.trans active, ?_, ?_⟩
    · rw [counts, init, if_pos rfl]
      omega
    · rw [counts, stores, if_neg (by decide), Int.add_zero]
  · obtain ⟨stopped, blocked, _⟩ := wait_held .bsInitSem
      (show (s.ker.semtab .bsInitSem).scount ≤ 0 by
        unfold scount at free
        omega)
    refine ⟨fun final ran => ?_, fun free' => absurd free' free⟩
    unfold psinit at ran
    rw [bind_error blocked] at ran
    cases ran

/-- `psinit` of an active server keeps what it has taken. -/
theorem psinit_takes (on : s.ker.pageServerActive = true) (ran : psinit s = .ok result final) :
    scount final .bsInitSem = scount s .bsInitSem - 1 := by
  unfold psinit at ran
  obtain ⟨_, held, waited, ran⟩ := bind_ok_inv ran
  obtain ⟨_, rfl⟩ := wait_returned waited
  have still : (taken s.ker .bsInitSem).pageServerActive = true := on
  rw [get_bind, if_pos still] at ran
  cases ran
  simp [scount, taken, Ker.setSem]

end Calls

section Results

variable {s : St} {call : StoreCall}

theorem holds_kept {α : Type} {final : St} {value : α} {outcome : EStateM.Result Stop St α}
    (holds : Holds .bsSem s outcome) (ran : outcome = .ok value final) : CountsKept s final := by
  obtain ⟨active, counts⟩ := holds.kept value final ran
  refine ⟨?_, ?_⟩
  · rw [counts, ite_self, Int.add_zero]
  · rw [if_neg, counts, ite_self, Int.add_zero]
    rintro ⟨off, on⟩
    rw [active, off] at on
    cases on

theorem starts_kept {final : St} (off : s.ker.pageServerActive = false) (starts : Starts s final) :
    CountsKept s final :=
  ⟨starts.init, by rw [if_pos ⟨off, starts.active⟩, starts.stores]⟩

/-- `get_bs` starts a server that is not active, and then gets the store. -/
theorem get_bs_starts (off : s.ker.pageServerActive = false) (bsId : Int) (npages : Nat) :
    getBs bsId npages s = match psinit s with
      | .ok _ middle => getBs bsId npages middle
      | .error stop middle => .error stop middle := by
  have started := @psinit_starts s
  unfold getBs
  rw [get_bind, if_pos off, bind_apply]
  cases ran : psinit s with
  | error stop middle => rfl
  | ok status middle =>
      have active := ((started off).1 middle ran).active
      have on : ¬middle.ker.pageServerActive = false := by
        rw [active]
        decide
      dsimp only
      rw [get_bind, if_neg on]

theorem get_bs_kept {bsId : Int} {npages : Nat} {result : Int} {final : St}
    (ran : getBs bsId npages s = .ok result final) : CountsKept s final := by
  cases active : s.ker.pageServerActive with
  | true => exact holds_kept (get_bs_holds active bsId npages) ran
  | false =>
      rw [get_bs_starts active] at ran
      cases started : psinit s with
      | error stop middle =>
          rw [started] at ran
          cases ran
      | ok status middle =>
          rw [started] at ran
          have starts := (psinit_starts active).1 middle started
          obtain ⟨on, counts⟩ := (get_bs_holds starts.active bsId npages).kept _ _ ran
          refine starts_kept active ⟨on.trans starts.active, ?_, ?_⟩
          · rw [counts, ite_self, Int.add_zero, starts.init]
          · rw [counts, ite_self, Int.add_zero, starts.stores]

/-- The calls but `psinit`, and `get_bs` of an active server -/
theorem call_holds (other : call ≠ .psinit)
    (started : ∀ bsId npages, call = .getBs bsId npages → s.ker.pageServerActive = true) :
    Holds .bsSem s (call.run s) := by
  cases call with
  | psinit => exact absurd rfl other
  | getBs bsId npages => exact get_bs_holds (started bsId npages rfl) bsId npages
  | releaseBs bsId => exact release_bs_holds bsId s
  | openBs store => exact count_bs_holds (fun usecount => int32 (usecount + 1)) store s
  | closeBs store => exact count_bs_holds (fun usecount => int32 (usecount - 1)) store s
  | readBs dst bsId page => exact read_bs_holds dst bsId page s
  | writeBs src bsId page => exact write_bs_holds src bsId page s

theorem psinit_kept_iff {result : Int} {final : St} (ran : psinit s = .ok result final) :
    CountsKept s final ↔ s.ker.pageServerActive = false := by
  cases active : s.ker.pageServerActive with
  | true =>
      have less := psinit_takes active ran
      refine iff_of_false (fun kept => ?_) (by decide)
      have same := kept.init
      omega
  | false => exact iff_of_true (starts_kept active ((psinit_starts active).1 final ran)) rfl

/-- A call that returns has kept the counts, unless it is `psinit` of an active server. -/
theorem counts_kept_iff {result : Int} {final : St} (ran : call.run s = .ok result final) :
    CountsKept s final ↔ ¬Again s call := by
  by_cases isInit : call = .psinit
  · subst isInit
    rw [psinit_kept_iff ran]
    unfold Again
    simp
  · refine iff_of_true ?_ fun again => isInit again.1
    by_cases isGet : ∃ bsId npages, call = .getBs bsId npages
    · obtain ⟨bsId, npages, rfl⟩ := isGet
      exact get_bs_kept ran
    · exact holds_kept (call_holds isInit fun bsId npages same =>
        absurd ⟨bsId, npages, same⟩ isGet) ran

/-- The calls that ask for the server are answered at once when it is not active. -/
theorem answered_off (off : s.ker.pageServerActive = false) (may : Once s call)
    (other : call ≠ .psinit) (other' : ∀ bsId npages, call ≠ .getBs bsId npages) :
    ∃ final, call.run s = .ok sysErr final := by
  cases call with
  | psinit => exact absurd rfl other
  | getBs bsId npages => exact absurd rfl (other' bsId npages)
  | openBs store =>
      rw [Once, off] at may
      cases may
  | closeBs store =>
      rw [Once, off] at may
      cases may
  | releaseBs bsId =>
      refine ⟨s, ?_⟩
      change releaseBs bsId s = _
      unfold releaseBs
      rw [get_bind, if_pos off]
      rfl
  | readBs dst bsId page =>
      refine ⟨{ s with trace := .readBs dst bsId page :: s.trace }, ?_⟩
      change readBs dst bsId page s = _
      unfold readBs log
      simp only [modify_bind, get_bind, off, if_true]
      rfl
  | writeBs src bsId page =>
      refine ⟨{ s with trace := .writeBs src bsId page :: s.trace }, ?_⟩
      change writeBs src bsId page s = _
      unfold writeBs log
      simp only [modify_bind, get_bind, off, if_true]
      rfl

/-- No call blocks while nobody holds a lock. -/
theorem once_flows (unlocked : Unlocked s) (may : Once s call) (sem : Sem) (final : St) :
    call.run s ≠ .error (.blocked sem) final := by
  by_cases isInit : call = .psinit
  · subst isInit
    obtain ⟨middle, ran⟩ := (@psinit_starts s ok may).2 (Int.le_of_eq unlocked.init.symm)
    change psinit s ≠ _
    rw [ran]
    exact fun blocked => by cases blocked
  · cases active : s.ker.pageServerActive with
    | true =>
        exact (call_holds isInit fun _ _ _ => active).flows
          (Int.le_of_eq (unlocked.stores active).symm) sem final
    | false =>
        by_cases isGet : ∃ bsId npages, call = .getBs bsId npages
        · obtain ⟨bsId, npages, rfl⟩ := isGet
          obtain ⟨middle, ran⟩ := (@psinit_starts s ok active).2 (Int.le_of_eq unlocked.init.symm)
          have starts := (psinit_starts active).1 middle ran
          change getBs bsId npages s ≠ _
          rw [get_bs_starts active, ran]
          exact (get_bs_holds starts.active bsId npages).flows
            (Int.le_of_eq starts.stores.symm) sem final
        · obtain ⟨middle, ran⟩ := answered_off active may isInit fun bsId npages same =>
            isGet ⟨bsId, npages, same⟩
          rw [ran]
          exact fun blocked => by cases blocked

theorem once_unlocked {result : Int} {final : St} (unlocked : Unlocked s) (may : Once s call)
    (ran : call.run s = .ok result final) : Unlocked final := by
  have first : ¬Again s call := by
    rintro ⟨rfl, on⟩
    rw [Once, on] at may
    cases may
  obtain ⟨init, stores⟩ := (counts_kept_iff ran).mpr first
  refine ⟨init.trans unlocked.init, fun on => ?_⟩
  rw [stores]
  split_ifs with starts
  · rfl
  · exact unlocked.stores (by simpa [on] using starts)

/-- Each call that returns keeps the counts of the semaphores, unless it is `psinit` of an active
server. So any calls one after the other do not block when `psinit` is called once, and `open_bs`
and `close_bs` behind it. -/
theorem locks_kept (s : St) (call : StoreCall) :
    (∀ result final, call.run s = .ok result final → (CountsKept s final ↔ ¬Again s call)) ∧
    (Reached act Unlocked Once s → Unlocked s ∧
      (Once s call → ∀ sem final, call.run s ≠ .error (.blocked sem) final)) := by
  refine ⟨fun result final => counts_kept_iff, fun run => ?_⟩
  have unlocked : Unlocked s := by
    refine reached_invariant run (fun _ => id) fun s s' call unlocked may did => ?_
    unfold act at did
    cases ran : call.run s with
    | error stop final =>
        rw [ran] at did
        cases did
    | ok result final =>
        rw [ran] at did
        obtain rfl := Option.some.inj did
        exact once_unlocked unlocked may ran
  exact ⟨unlocked, fun may sem final => once_flows unlocked may sem final⟩

theorem blank_unlocked : Unlocked blankMachine := ⟨rfl, fun on => by cases on⟩

theorem locks_kept_one : ∃ final, psinit blankMachine = .ok ok final ∧
    CountsKept blankMachine final ∧ Unlocked final := by
  have ran := returned_with (show returnedWith ok (psinit blankMachine) = true by decide +kernel)
  refine ⟨_, ran, ((locks_kept blankMachine .psinit).1 ok _ ran).mpr fun again => ?_, ?_⟩
  · cases again.2
  · have may : Once blankMachine .psinit := rfl
    have did : act blankMachine .psinit = some (finalState (psinit blankMachine)) := by
      change (match psinit blankMachine with | .ok _ final => some final | .error _ _ => none) = _
      rw [ran]
      rfl
    exact ((locks_kept _ .psinit).2 (.step (.start blank_unlocked) may did)).1

/-- The second `psinit` returns and keeps the lock, and the third one blocks. -/
theorem psinit_keeps_lock : ∃ first second stopped,
    psinit blankMachine = .ok ok first ∧ psinit first = .ok ok second ∧
      ¬CountsKept first second ∧ psinit second = .error (.blocked .bsInitSem) stopped := by
  have ran := returned_with (show returnedWith ok (psinit blankMachine) = true by decide +kernel)
  have again := returned_with (show returnedWith ok (psinit (finalState (psinit blankMachine))) =
    true by decide +kernel)
  have held : scount (finalState (psinit (finalState (psinit blankMachine)))) .bsInitSem ≤ 0 := by
    decide +kernel
  obtain ⟨stopped, blocked, _⟩ := wait_held .bsInitSem held
  refine ⟨_, _, stopped, ran, again, fun kept => ?_, ?_⟩
  · have same := kept.init
    exact absurd same (by decide +kernel)
  · exact bind_error blocked _

end Results

end Xinu.Stores.Locks
