import Xinu.Space.Members

/-!
# The tables of a machine that has started

`initialize_paging` takes the first frames one after the other: the tables of the kernel,
the table of the devices, and the directory of the null process.
-/

namespace Xinu.Space.Boot

open Xinu.Kernel.State Xinu.Kernel.Entry Xinu.Kernel.Semaphore Xinu.Lib.LinkedQueue
open Xinu.Lib.StateError Xinu.Paging.Address Xinu.Paging.Ipt Xinu.Paging.Handler
open Xinu.Paging.Process Xinu.Paging.System Xinu.Replacement.Fifo Xinu.Replacement.Order
open Xinu.Space.Agreement Xinu.Space.Allocate Xinu.Space.Members Xinu.Space.Ownership

set_option autoImplicit false

variable [Config]

/-- The first `j` frames hold shared page tables, and no other frame is in use. -/
structure Prepared (before s : St) (j : Nat) : Prop where
  procs : s.ker.proctab = before.ker.proctab
  lock : s.ker.semtab .pfSem = { scount := 1, squeue := [] }
  policy : s.ker.currpolicy = .fifo
  hand : s.fifoNextframe = j
  heads : s.flistHead = empty ∧ s.flistTail = empty
  given : ∀ x < j, s.ipt x = newFrame .ptab global noVpn
  unused : ∀ x < nframes, j ≤ x → s.ipt x = clearedFrame
  kernel : ∀ i < j, i < numGlobalPt →
    s.ker.gpt i = frameNum2ptr i ∧ Identity (s.mem (frame0 + i)) (i * 1024)

variable {before s final : St} {j : Nat}

/-- An allocation returns the frame under the hand when that is not used. -/
theorem get_new_frame_next {type : FrameStatus} {pid vpn : Int} (policy : s.ker.currpolicy = .fifo)
    (bound : s.fifoNextframe < nframes) (free : (s.ipt s.fifoNextframe).status = .notUsed)
    (notPage : type ≠ .page) :
    getNewFrame type pid vpn s = .ok (frameNum2ptr s.fifoNextframe)
      { setFrame s s.fifoNextframe (newFrame type pid vpn) with
        fifoNextframe := s.fifoNextframe + 1 } := by
  obtain ⟨fuel, frames⟩ : ∃ fuel, nframes = fuel + 1 := ⟨nframes - 1, by omega⟩
  have scanned : fifoScan nframes s = .ok (some s.fifoNextframe)
      { s with fifoNextframe := s.fifoNextframe + 1 } := by
    rw [frames, fifoScan, modify_bind, get_bind]
    dsimp only
    rw [Nat.mod_eq_of_lt bound, bind_ok (read_frame_ok bound), modify_bind, if_pos free]
    rfl
  unfold getNewFrame getNewFrameFIFO
  rw [get_bind, if_pos policy, bind_ok scanned]
  dsimp only
  rw [bind_ok (init_frame_plain bound type pid vpn (Or.inr notPage))]
  rfl

omit [Config] in
theorem identity_entry (page : Nat) (small : page < 1048576) :
    pres (identityPTE page) = true ∧ base (identityPTE page) = page := by
  unfold identityPTE
  rw [pres_set_base, base_set_base _ _ small]
  exact ⟨by decide, rfl⟩

theorem prepared_frames (hands : before.fifoNextframe = 0)
    (ran : initializeFrames before = .ok () s) : Prepared before s 0 := by
  obtain ⟨ipt, inited, cleared, _⟩ := init_frames_ok before
  rw [inited] at ran
  cases ran
  refine ⟨rfl, ?_, rfl, hands, ⟨rfl, rfl⟩, ?_, ?_, ?_⟩
  · simp [Ker.setSem]
  · intro x none
    exact absurd none (Nat.not_lt_zero x)
  · intro x bound _
    exact cleared x bound
  · intro i none
    exact absurd none (Nat.not_lt_zero i)

/-- One turn of the loop of `init_gpt`. -/
theorem prepared_turn {fuel : Nat} (prepared : Prepared before s j) (bound : j < numGlobalPt)
    (ran : initGptFrom (fuel + 1) j s = .ok () final) :
    ∃ next, Prepared before next (j + 1) ∧ initGptFrom fuel (j + 1) next = .ok () final := by
  have frames := Config.bootFrames
  have small : j < nframes := by
    rw [numGlobalPt] at bound
    omega
  have free : (s.ipt s.fifoNextframe).status = .notUsed := by
    rw [prepared.hand, prepared.unused j small (Nat.le_refl j)]
    rfl
  unfold initGptFrom at ran
  rw [bind_ok (get_new_frame_next prepared.policy (by rw [prepared.hand]; exact small) free
    (by decide)), prepared.hand] at ran
  obtain ⟨_, noted, noteRan, ran⟩ := bind_ok_inv ran
  cases noteRan
  obtain ⟨_, mapped, mapRan, ran⟩ := bind_ok_inv ran
  cases mapRan
  rw [bind_ok (faddr_to_frame_num_ok _ _)] at ran
  obtain ⟨_, logged, logRan, ran⟩ := bind_ok_inv ran
  cases logRan
  refine ⟨_, ?_, ran⟩
  refine ⟨prepared.procs, prepared.lock, prepared.policy, rfl, prepared.heads, ?_, ?_, ?_⟩
  · intro x inside
    by_cases here : x = j
    · rw [here]
      exact set_frame_self _ _ _
    · exact (set_frame_other _ _ _ _ here).trans (prepared.given x (by omega))
  · intro x inside outside
    exact (set_frame_other _ _ _ _ (by omega)).trans (prepared.unused x inside (by omega))
  · intro i inside isKernel
    by_cases here : i = j
    · subst here
      refine ⟨Function.update_self .., ?_⟩
      have page : i * 4194304 / nbpg = i * 1024 := by
        rw [nbpg]
        omega
      intro pti room
      have word : (if frame0 + i = frameNum2ptr i / nbpg then
          identityPTE (i * 4194304 / nbpg + pti) else s.mem (frame0 + i) pti) =
          identityPTE (i * 1024 + pti) := by
        rw [frame_ptr_page i small, if_pos rfl, page]
      have small : i * 1024 + pti < 1048576 := by
        rw [numGlobalPt] at isKernel
        omega
      have both := identity_entry (i * 1024 + pti) small
      rw [← word] at both
      exact both
    · obtain ⟨entry, words⟩ := prepared.kernel i (by omega) isKernel
      refine ⟨(Function.update_of_ne here ..).trans entry, ?_⟩
      intro pti room
      have word : (if frame0 + i = frameNum2ptr j / nbpg then
          identityPTE (j * 4194304 / nbpg + pti) else s.mem (frame0 + i) pti) =
          s.mem (frame0 + i) pti := by
        rw [frame_ptr_page j small, if_neg (by omega)]
      have both := words pti room
      rw [← word] at both
      exact both

theorem prepared_tables (fuel : Nat) (prepared : Prepared before s j)
    (rest : j + fuel = numGlobalPt) (ran : initGptFrom fuel j s = .ok () final) :
    Prepared before final numGlobalPt := by
  induction fuel generalizing s j with
  | zero =>
      cases ran
      exact rest ▸ prepared
  | succ fuel induction =>
      obtain ⟨next, following, ran⟩ := prepared_turn prepared (by omega) ran
      exact induction following (by omega) ran

/-- The frames after `initialize_paging`. -/
structure Ready (s : St) : Prop where
  procs : Live s nullproc ∧ ∀ pid, pid ≠ nullproc → ¬Live s pid
  noHeap : ∀ pid, (s.ker.proctab pid).vh = false ∧ (s.ker.proctab pid).hsize = 0
  heads : s.flistHead = empty ∧ s.flistTail = empty
  tabs : ∀ x < numGlobalPt + 1, s.ipt x = newFrame .ptab global noVpn
  directory : s.ipt (numGlobalPt + 1) = newFrame .pdir nullproc noVpn
  unused : ∀ x < nframes, numGlobalPt + 1 < x → s.ipt x = clearedFrame
  pd : (s.ker.proctab nullproc).pd = frameNum2ptr (numGlobalPt + 1)
  gpd : s.ker.gpd = frameNum2ptr (numGlobalPt + 1)
  gpt : ∀ j < numGlobalPt, s.ker.gpt j = frameNum2ptr j
  dpt : s.ker.dpt = frameNum2ptr numGlobalPt
  kernel : ∀ j < numGlobalPt, Identity (s.mem (frame0 + j)) (j * 1024)
  devices : Identity (s.mem (frame0 + numGlobalPt)) (devMemStart / nbpg)
  entries : ∀ k, s.mem (frame0 + (numGlobalPt + 1)) k = initialPDE s.ker k

theorem device_table (prepared : Prepared before s numGlobalPt)
    (ran : (do
      let faddr ← getNewFrame .ptab global noVpn
      modifyKer fun ker => { ker with dpt := faddr }
      setupIdPaging faddr devMemStart) s = .ok () final) :
    Prepared before final (numGlobalPt + 1) ∧ final.ker.dpt = frameNum2ptr numGlobalPt ∧
      Identity (final.mem (frame0 + numGlobalPt)) (devMemStart / nbpg) := by
  have frames := Config.bootFrames
  have small : numGlobalPt < nframes := by
    rw [numGlobalPt]
    omega
  have free : (s.ipt s.fifoNextframe).status = .notUsed := by
    rw [prepared.hand, prepared.unused _ small (Nat.le_refl _)]
    rfl
  rw [bind_ok (get_new_frame_next prepared.policy (by rw [prepared.hand]; exact small) free
    (by decide)), prepared.hand] at ran
  obtain ⟨_, noted, noteRan, ran⟩ := bind_ok_inv ran
  cases noteRan
  cases ran
  refine ⟨⟨prepared.procs, prepared.lock, prepared.policy, rfl, prepared.heads, ?_, ?_, ?_⟩, rfl,
    ?_⟩
  · intro x inside
    by_cases here : x = numGlobalPt
    · rw [here]
      exact set_frame_self s numGlobalPt _
    · exact (set_frame_other s numGlobalPt x _ here).trans (prepared.given x (by omega))
  · intro x inside outside
    exact (set_frame_other s numGlobalPt x _ (by omega)).trans (prepared.unused x inside (by omega))
  · intro i _ isKernel
    obtain ⟨entry, words⟩ := prepared.kernel i isKernel isKernel
    refine ⟨entry, ?_⟩
    intro pti room
    have word : (if frame0 + i = frameNum2ptr numGlobalPt / nbpg then
        identityPTE (devMemStart / nbpg + pti) else s.mem (frame0 + i) pti) =
        s.mem (frame0 + i) pti := by
      rw [frame_ptr_page _ small, if_neg (by omega)]
    have both := words pti room
    rw [← word] at both
    exact both
  · intro pti room
    have word : (if frame0 + numGlobalPt = frameNum2ptr numGlobalPt / nbpg then
        identityPTE (devMemStart / nbpg + pti) else s.mem (frame0 + numGlobalPt) pti) =
        identityPTE (devMemStart / nbpg + pti) := by
      rw [frame_ptr_page _ small, if_pos rfl]
    have fits : devMemStart / nbpg + pti < 1048576 := by
      rw [devMemStart, nbpg]
      omega
    have both := identity_entry (devMemStart / nbpg + pti) fits
    rw [← word] at both
    exact both

theorem first_directory {status : Int} (prepared : Prepared before s (numGlobalPt + 1))
    (ran : initPd nullproc s = .ok status final) :
    final.ker = s.ker.setProc nullproc (fun proc =>
        { proc with pd := frameNum2ptr (numGlobalPt + 1) }) ∧
      final.ipt = (setFrame s (numGlobalPt + 1) (newFrame .pdir nullproc noVpn)).ipt ∧
      (final.flistHead = s.flistHead ∧ final.flistTail = s.flistTail) ∧
      ∀ p i, final.mem p i = if p = frame0 + (numGlobalPt + 1) then initialPDE s.ker i
        else s.mem p i := by
  have frames := Config.bootFrames
  have small : numGlobalPt + 1 < nframes := by
    rw [numGlobalPt]
    omega
  have free : (s.ipt s.fifoNextframe).status = .notUsed := by
    rw [prepared.hand, prepared.unused _ small (Nat.le_refl _)]
    rfl
  have unlocked : 1 ≤ (s.ker.semtab .pfSem).scount := by rw [prepared.lock]
  unfold initPd at ran
  rw [bind_ok (wait_free unlocked)] at ran
  let held : St := { s with ker := taken s.ker .pfSem }
  have allocated : getNewFrame .pdir nullproc noVpn held = .ok (frameNum2ptr s.fifoNextframe)
      { setFrame held s.fifoNextframe (newFrame .pdir nullproc noVpn) with
        fifoNextframe := s.fifoNextframe + 1 } :=
    get_new_frame_next prepared.policy (by rw [prepared.hand]; exact small) free (by decide)
  rw [bind_ok allocated, prepared.hand, bind_ok (signal_taken unlocked rfl),
    if_neg (frame_ptr_ne_syserr _ small)] at ran
  obtain ⟨_, entered, enterRan, ran⟩ := bind_ok_inv ran
  cases enterRan
  obtain ⟨_, filled, fillRan, ran⟩ := bind_ok_inv ran
  cases fillRan
  cases ran
  refine ⟨rfl, rfl, ⟨rfl, rfl⟩, ?_⟩
  intro p i
  rw [← frame_ptr_page _ small]
  rfl

theorem initialized_ready (on : PowerOn before) (ran : initializePaging before = .ok () final) :
    Ready final := by
  obtain ⟨_, framed, framesRan, ran⟩ := bind_ok_inv ran
  have framedReady := prepared_frames on.hands.1 framesRan
  obtain ⟨_, tabled, tablesRan, ran⟩ := bind_ok_inv ran
  obtain ⟨_, looped, loopRan, deviceRan⟩ := bind_ok_inv tablesRan
  have loopReady := prepared_tables numGlobalPt framedReady (Nat.zero_add _) loopRan
  obtain ⟨prepared, dpt, devices⟩ := device_table loopReady deviceRan
  obtain ⟨status, paged, directoryRan, ran⟩ := bind_ok_inv ran
  obtain ⟨ker, ipt, heads, mem⟩ := first_directory prepared directoryRan
  cases ran
  have live : ∀ pid, Live paged pid ↔ Live before pid := by
    intro pid
    rw [Live, Live, ker, ← prepared.procs]
    by_cases here : pid = nullproc
    · rw [here]
      simp [Ker.setProc]
    · simp [Ker.setProc, Function.update_of_ne here]
  have table : ∀ x, x ≠ numGlobalPt + 1 → paged.mem (frame0 + x) = tabled.mem (frame0 + x) := by
    intro x other
    funext i
    rw [mem, if_neg (by omega)]
  have procs : ∀ pid, (paged.ker.proctab pid).vh = false ∧ (paged.ker.proctab pid).hsize = 0 := by
    intro pid
    rw [ker]
    have noHeap := on.noHeap pid
    rw [← prepared.procs] at noHeap
    by_cases here : pid = nullproc
    · subst here
      simpa [Ker.setProc] using noHeap
    · simpa [Ker.setProc, Function.update_of_ne here] using noHeap
  have pd : (paged.ker.proctab nullproc).pd = frameNum2ptr (numGlobalPt + 1) := by
    rw [ker]
    simp [Ker.setProc]
  have gpt : paged.ker.gpt = tabled.ker.gpt := by
    rw [ker]
    rfl
  have pagedDpt : paged.ker.dpt = tabled.ker.dpt := by
    rw [ker]
    rfl
  refine ⟨⟨(live nullproc).mpr ?_, ?_⟩, procs, ?_, ?_, ?_, ?_, pd, pd, ?_, pagedDpt.trans dpt, ?_,
    ?_, ?_⟩
  · rw [Live, on.running]
    decide
  · intro pid user alive
    exact (live pid).mp alive (on.others pid user)
  · exact ⟨heads.1.trans prepared.heads.1, heads.2.trans prepared.heads.2⟩
  · intro x inside
    exact ((congrFun ipt x).trans (set_frame_other tabled _ x _ (by omega))).trans
      (prepared.given x inside)
  · exact (congrFun ipt _).trans (set_frame_self tabled _ _)
  · intro x inside outside
    exact ((congrFun ipt x).trans (set_frame_other tabled _ x _ (by omega))).trans
      (prepared.unused x inside (by omega))
  · intro j inside
    exact (congrFun gpt j).trans (prepared.kernel j (by omega) inside).1
  · intro j inside
    have words := (prepared.kernel j (by omega) inside).2
    rw [← table j (by omega)] at words
    exact words
  · rw [← table numGlobalPt (by omega)] at devices
    exact devices
  · intro k
    change paged.mem _ k = initialPDE paged.ker k
    rw [mem, if_pos rfl, ker]
    rfl

section Agreement

theorem ready_status (ready : Ready s) {x : Nat} (bound : x < nframes) :
    x < numGlobalPt + 1 ∧ (s.ipt x).status = .ptab ∧ (s.ipt x).pid = global ∨
      x = numGlobalPt + 1 ∧ (s.ipt x).status = .pdir ∧ (s.ipt x).pid = nullproc ∨
        (s.ipt x).status = .notUsed := by
  rcases Nat.lt_trichotomy x (numGlobalPt + 1) with low | here | high
  · rw [ready.tabs x low]
    exact Or.inl ⟨low, rfl, rfl⟩
  · rw [here, ready.directory]
    exact Or.inr (Or.inl ⟨rfl, rfl, rfl⟩)
  · rw [ready.unused x bound high]
    exact Or.inr (Or.inr rfl)

theorem ready_only (ready : Ready s) {pid : Int} (live : Live s pid) : pid = nullproc := by
  by_contra user
  exact ready.procs.2 pid user live

theorem ready_no_heap (ready : Ready s) {pid : Int} : ¬HeapLive s pid := by
  rintro ⟨_, heap⟩
  rw [(ready.noHeap pid).1] at heap
  cases heap

theorem ready_no_page (ready : Ready s) {x : Nat} (bound : x < nframes) :
    (s.ipt x).status ≠ .page := by
  intro page
  rcases ready_status ready bound with ⟨_, status, _⟩ | ⟨_, status, _⟩ | status
  all_goals
    rw [page] at status
    cases status

theorem ready_entries (ready : Ready s) (k : Nat) : pdeOf s nullproc k = initialPDE s.ker k := by
  have frames := Config.bootFrames
  rw [pde_word (by rw [numGlobalPt]; omega) ready.pd]
  exact ready.entries k

theorem ready_tables (ready : Ready s) : Tables s empty [] := by
  have frames := Config.bootFrames
  obtain ⟨shared, _, _⟩ := initial_entries ready.gpt ready.dpt
  have noHeap : ∀ pid, ¬HeapLive s pid := fun pid => ready_no_heap ready
  refine ⟨?_, (ready.noHeap _).1, ?_, ?_, ?_, ?_, ?_, ?_, ?_, ?_, ?_⟩
  · intro pid live
    rw [ready_only ready live]
    decide
  · intro pid live
    exact absurd live (noHeap pid)
  · intro pid live
    rw [ready_only ready live]
    refine ⟨numGlobalPt + 1, by rw [numGlobalPt]; omega, ready.pd, ?_, ?_⟩
    · rw [ready.directory]
      rfl
    · rw [ready.directory, (ready.noHeap _).1]
      rfl
  · intro t bound
    refine ⟨⟨by rw [numGlobalPt] at bound; omega, ?_, ?_⟩, fun pti inside => ?_⟩
    · rw [ready.tabs t (by omega)]
      rfl
    · rw [ready.tabs t (by omega)]
      rfl
    · exact (ready.kernel t bound pti inside).1
  · intro pid live k inside
    rw [ready_only ready live, ready_entries ready]
    exact shared k inside
  · intro pid _ live
    exact absurd live (noHeap pid)
  · intro pid _ _ live
    exact absurd live (noHeap pid)
  · intro pid _ _ live
    exact absurd live (noHeap pid)
  · intro x bound page
    exact absurd page (ready_no_page ready bound)
  · intro pid _ _ live
    exact absurd live (noHeap pid)

theorem ready_owned (ready : Ready s) : Owned s empty := by
  refine ⟨?_, ?_⟩
  · intro x bound isDir _
    rcases ready_status ready bound with ⟨_, status, _⟩ | ⟨here, _, owner⟩ | status
    · rw [isDir] at status
      cases status
    · exact ⟨nullproc, ready.procs.1, owner, here ▸ ready.pd⟩
    · rw [isDir] at status
      cases status
  · intro x bound isTab _ isPrivate
    rcases ready_status ready bound with ⟨_, _, owner⟩ | ⟨_, status, _⟩ | status
    · exact absurd owner isPrivate
    · rw [isTab] at status
      cases status
    · rw [isTab] at status
      cases status

theorem ready_rooted (ready : Ready s) : Rooted s := by
  have frames := Config.bootFrames
  obtain ⟨_, device, _⟩ := initial_entries ready.gpt ready.dpt
  refine ⟨ready.procs.1, ready.gpd.trans ready.pd.symm, ready.gpt, ready.dpt,
    ⟨by rw [numGlobalPt]; omega, ?_, ?_⟩, ready.kernel, ready.devices, ?_, ?_⟩
  · rw [ready.tabs _ (Nat.lt_succ_self _)]
    rfl
  · rw [ready.tabs _ (Nat.lt_succ_self _)]
    rfl
  · intro pid live
    rw [ready_only ready live, ready_entries ready]
    exact device
  · intro pid _ _
    exact (ready.noHeap pid).2

theorem ready_queue (ready : Ready s) : QueueKept s := by
  intro _
  refine ⟨[], ?_, ?_, fun bad => absurd bad empty_not_frame⟩
  · rw [ready.heads.1, ready.heads.2]
    exact queue_nil _ _ _
  · intro x
    simp only [List.not_mem_nil, false_iff, not_and]
    intro page
    exact absurd page.2 (ready_no_page ready page.1)

end Agreement

/-- The machine has started with its tables in order. -/
theorem booted_ready {policy : Int} (booted : Booted policy s) : Ready s := by
  obtain ⟨before, on, status, ran⟩ := booted
  obtain ⟨_, paged, initRan, ran⟩ := bind_ok_inv ran
  have ready := initialized_ready on initRan
  rw [srpolicy_returned ran]
  exact ⟨ready.procs, ready.noHeap, ready.heads, ready.tabs, ready.directory, ready.unused, ready.pd,
    ready.gpd, ready.gpt, ready.dpt, ready.kernel, ready.devices, ready.entries⟩

end Xinu.Space.Boot
