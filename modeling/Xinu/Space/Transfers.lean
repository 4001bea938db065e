import Xinu.Paging.Handler

/-!
# What a transfer can do

Each address that `pf_handler` stores in a table, reads a page to or turns into a
frame number is recorded. `AddsProper` says that all addresses recorded since a
state are frame addresses, `Clean` that a run stopped without anything worse. The
transfers to and from the backing stores are stated with all their outcomes.
-/

namespace Xinu.Space.Transfers

open Xinu.Kernel.State Xinu.Kernel.Entry Xinu.Kernel.Semaphore Xinu.Lib.StateError
open Xinu.Paging.Address Xinu.Paging.BackingStore Xinu.Paging.Ipt Xinu.Paging.Handler

set_option autoImplicit false

/-- The address an effect takes for that of a frame. -/
def frameAddress : Effect → Option Nat
  | .setPDEAddr addr | .setPTEAddr addr | .faddr2frameNum addr | .incRefCount addr
  | .readBs addr _ _ => some addr
  | _ => none

section Proper

variable [Config]

def Proper (effect : Effect) : Prop := ∀ addr ∈ frameAddress effect, FrameAddr addr

/-- All effects since a state are proper. -/
def AddsProper (s final : St) : Prop :=
  ∃ effects, final.trace = effects ++ s.trace ∧ ∀ effect ∈ effects, Proper effect

/-- A stop inside of the frame table, with proper effects so far. -/
def Clean (s : St) (stop : Stop) (final : St) : Prop :=
  AddsProper s final ∧ ∀ index, stop ≠ .badIndex index

variable {s middle final : St} {stop : Stop}

theorem adds_proper_refl (same : final.trace = s.trace) : AddsProper s final :=
  ⟨[], same, by simp⟩

theorem adds_proper_trans (first : AddsProper s middle) (second : AddsProper middle final) :
    AddsProper s final := by
  obtain ⟨left, leftTrace, leftProper⟩ := first
  obtain ⟨right, rightTrace, rightProper⟩ := second
  refine ⟨right ++ left, by rw [rightTrace, leftTrace, List.append_assoc], ?_⟩
  intro effect member
  rcases List.mem_append.mp member with inRight | inLeft
  · exact rightProper effect inRight
  · exact leftProper effect inLeft

theorem adds_proper_one (effect : Effect) (proper : Proper effect)
    (added : final.trace = effect :: s.trace) : AddsProper s final :=
  ⟨[effect], added, by simpa using proper⟩

theorem clean_trans (first : AddsProper s middle) (clean : Clean middle stop final) :
    Clean s stop final :=
  ⟨adds_proper_trans first clean.1, clean.2⟩

omit [Config] in
theorem frame_addr_ptr [Config] (fr : Nat) (bound : fr < nframes) : FrameAddr (frameNum2ptr fr) :=
  ⟨fr, bound, rfl⟩

end Proper

section Place

variable {s : St} {pid : Int} {vpn : Nat}

/-- The store and page that hold a page of the heap. -/
def storeOf (ker : Ker) (pid : Int) (vpn : Nat) : Int :=
  (ker.proctab pid).pbsd ((vpn - vpn0) / maxPagesPerBs)

def storePage (vpn : Nat) : Nat := (vpn - vpn0) % maxPagesPerBs

theorem get_bs_info_ok {vaddr : Nat} (number : vaddr2vpn vaddr = vpn) (low : vpn0 ≤ vpn)
    (high : vpn < 1048576) :
    getBsInfo pid vaddr s = .ok (storeOf s.ker pid vpn, storePage vpn) s := by
  have notLow : ¬vpn < frame0 := by
    rw [frame0]
    rw [vpn0] at low
    omega
  have offset : (vpn + word32 - vpn0) % word32 = vpn - vpn0 := by
    rw [vpn0, word32]
    rw [vpn0] at low
    omega
  unfold getBsInfo
  rw [get_bind]
  simp only [number]
  rw [if_neg notLow, offset]
  rfl

end Place

section Transfer

variable [Config] {s : St} {bsId : Int} {page : Nat}

theorem wait_ends (sem : Sem) :
    Ends (wait sem s) (fun _ middle => 1 ≤ (s.ker.semtab sem).scount ∧
      middle = { s with ker := taken s.ker sem }) (Clean s) := by
  by_cases free : 1 ≤ (s.ker.semtab sem).scount
  · rw [wait_free free]
    exact ⟨free, rfl⟩
  · obtain ⟨final, blocked, _⟩ := wait_held (s := s) sem (by omega)
    have keeps : Keeps St.trace (wait sem) := wait_keeps sem fun _ _ _ => rfl
    have trace : final.trace = s.trace := keeps_error keeps blocked
    rw [blocked]
    exact ⟨adds_proper_refl trace, by simp⟩

/-- The open section of `read_bs` and `write_bs`. -/
theorem guarded_ends {rest : Call Int} {post : Int → St → Prop}
    (rejected : BadStorePage s.ker bsId page → post sysErr s)
    (accepted : ¬BadStorePage s.ker bsId page → Ends (rest s) post (Clean s)) :
    Ends ((do
      wait .bsSem
      let s ← get
      if BadStorePage s.ker bsId page then do
        signal .bsSem
        pure sysErr
      else do
        signal .bsSem
        rest : Call Int) s) post (Clean s) := by
  apply ends_bind (wait_ends .bsSem)
  rintro _ middle _ ⟨free, rfl⟩
  have given : signal .bsSem { s with ker := taken s.ker .bsSem } = .ok () s :=
    signal_taken free rfl
  have same : BadStorePage (taken s.ker .bsSem) bsId page ↔ BadStorePage s.ker bsId page := Iff.rfl
  rw [get_bind]
  by_cases bad : BadStorePage s.ker bsId page
  · rw [if_pos (same.mpr bad), bind_ok given]
    exact rejected bad
  · rw [if_neg (fun isBad => bad (same.mp isBad)), bind_ok given]
    exact accepted bad

/-- The disk after a page of memory has been written to its place. -/
def writeBack (s : St) (source : Nat) (bsId : Int) (page : Nat) : Nat → Nat → Word :=
  fun block word =>
    if pageBlock bsId page ≤ block ∧ block < pageBlock bsId page + 8 then
      s.mem source ((block - pageBlock bsId page) * 128 + word)
    else s.disk block word

/-- The page goes to the disk, or nothing happens. -/
theorem write_bs_ends (src : Nat) :
    Ends (writeBs src bsId page s)
      (fun status final => (status = sysErr ∧ AddsProper s final ∨
        status = ok ∧ minId ≤ bsId ∧ bsId ≤ maxId ∧ ¬BadStorePage s.ker bsId page ∧
          final = { s with
            disk := writeBack s (src / nbpg) bsId page
            trace := .writeBs src bsId page :: s.trace }))
      (Clean s) := by
  let logged : St := { s with trace := .writeBs src bsId page :: s.trace }
  have recorded : AddsProper s logged := adds_proper_one _ (by simp [Proper, frameAddress]) rfl
  have logRan : log (.writeBs src bsId page) s = .ok () logged := rfl
  unfold writeBs
  rw [bind_ok logRan, get_bind]
  split
  · exact Or.inl ⟨rfl, recorded⟩
  split
  · exact Or.inl ⟨rfl, recorded⟩
  · rename_i inside
    refine ends_stop (guarded_ends (s := logged) ?_ ?_) fun _ _ => clean_trans recorded
    · intro _
      exact Or.inl ⟨rfl, recorded⟩
    · intro notBad
      exact Or.inr ⟨rfl, by omega, by omega, notBad, rfl⟩

/-- The page comes from the disk, or nothing happens. -/
theorem read_bs_ends {dst : Nat} (frame : FrameAddr dst) :
    Ends (readBs dst bsId page s)
      (fun status final => (status = sysErr ∧ AddsProper s final ∨
        status = ok ∧ minId ≤ bsId ∧ bsId ≤ maxId ∧ ¬BadStorePage s.ker bsId page ∧
          final = { s.setPage (dst / nbpg) (diskPage s bsId page) with
            trace := .readBs dst bsId page :: s.trace }))
      (Clean s) := by
  let logged : St := { s with trace := .readBs dst bsId page :: s.trace }
  have recorded : AddsProper s logged := by
    refine adds_proper_one (.readBs dst bsId page) ?_ rfl
    simpa [Proper, frameAddress] using frame
  have logRan : log (.readBs dst bsId page) s = .ok () logged := rfl
  have below : ¬vheapStart ≤ dst := by
    obtain ⟨fr, bound, rfl⟩ := frame
    have small := frame_ptr_below_heap fr bound
    omega
  unfold readBs
  rw [bind_ok logRan, get_bind]
  split
  · exact Or.inl ⟨rfl, recorded⟩
  split
  · exact Or.inl ⟨rfl, recorded⟩
  · rename_i inside
    refine ends_stop (guarded_ends (s := logged) ?_ ?_) fun _ _ => clean_trans recorded
    · intro _
      exact Or.inl ⟨rfl, recorded⟩
    · intro notBad
      rw [modify_bind]
      exact Or.inr ⟨rfl, by omega, by omega, notBad, rfl⟩

end Transfer

end Xinu.Space.Transfers
