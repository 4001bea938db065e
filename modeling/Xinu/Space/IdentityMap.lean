import Xinu.Space.Runs

/-!
# The identity map

`walkPDIR` checks for one process that kernel and device memory translate to themselves.
Here this is proved for the directory of every process, as long as page faults keep the
page table that they work on.
-/

namespace Xinu.Space.IdentityMap

open Xinu.Kernel.State Xinu.Kernel.Entry Xinu.Lib.StateError Xinu.Paging.Address Xinu.Paging.Cpu
open Xinu.Paging.System Xinu.Space.Agreement Xinu.Space.Ownership Xinu.Space.Runs
open Xinu.Swap.Conservation

set_option autoImplicit false

/-- `vaddr2paddr` for a given directory: the base of the entry and the offset of the page. -/
def vaddr2paddr (s : St) (pd vaddr : Nat) : Nat :=
  base (pte s pd vaddr) <<< 12 ||| vaddr2offset vaddr

/-- The addresses that `walkPDIR` visits. -/
def KernelOrDevice (a : Nat) : Prop := a < vheapStart ∨ devMemStart ≤ a ∧ a ≤ devMemEnd

variable [Config]

def IdentityMapped (s : St) : Prop :=
  ∀ pid, Live s pid → ∀ a, KernelOrDevice a →
    Mapped s (s.ker.proctab pid).pd a ∧ vaddr2paddr s (s.ker.proctab pid).pd a = a

variable {s : St} {pd a : Nat}

omit [Config] in
/-- A page number and an offset are put together again. -/
theorem physical_of_page (page : base (pte s pd a) = a / 4096) : vaddr2paddr s pd a = a := by
  rw [vaddr2paddr, page, page_offset,
    ← Nat.shiftLeft_add_eq_or_of_lt (show a % 4096 < 2 ^ 12 from Nat.mod_lt _ (by decide)),
    Nat.shiftLeft_eq]
  omega

/-- A walk through a directory entry for one of the shared tables. -/
theorem walked_identity {table first : Nat} (bound : table < nframes)
    (present : pres (s.entry pd (vaddr2pdi a)) = true)
    (target : base (s.entry pd (vaddr2pdi a)) = frame0 + table)
    (identity : Identity (s.mem (frame0 + table)) first)
    (page : a / 4096 = first + a / 4096 % 1024) :
    Mapped s pd a ∧ vaddr2paddr s pd a = a := by
  have word : pte s pd a = s.mem (frame0 + table) (vaddr2pti a) := by
    rw [pte, pdi2pt, target, frame_ptr_base table bound, St.entry, frame_ptr_page table bound]
  have index : vaddr2pti a < 1024 := by
    rw [page_table_index]
    exact Nat.mod_lt _ (by decide)
  obtain ⟨presPage, address⟩ := identity _ index
  refine ⟨⟨present, ?_⟩, physical_of_page ?_⟩
  · rw [word]
    exact presPage
  · rw [word, address, page_table_index]
    exact page.symm

theorem identity_mapped (sound : Sound s) : IdentityMapped s := by
  intro pid live a range
  rcases range with low | ⟨start, stop⟩
  · rw [vheapStart] at low
    have index : vaddr2pdi a = a / 4194304 := page_directory_index a (by omega)
    have global : vaddr2pdi a < numGlobalPt := by
      rw [index, numGlobalPt]
      omega
    obtain ⟨present, target⟩ := sound.tables.shared pid live _ global
    refine walked_identity (sound.tables.globals _ global).1.1 present target
      (sound.rooted.kernel _ global) ?_
    rw [index]
    omega
  · rw [devMemStart] at start
    rw [devMemEnd] at stop
    have index : vaddr2pdi a = devMemPdIndex := by
      rw [page_directory_index a (by omega), devMemPdIndex]
      omega
    obtain ⟨present, target⟩ := sound.rooted.entries pid live
    unfold pdeOf at present target
    rw [← index] at present target
    refine walked_identity sound.rooted.device.1 present target sound.rooted.devices ?_
    rw [devMemStart, nbpg]
    omega

/-- Kernel and device memory stay mapped in every run whose page faults keep their tables. -/
theorem identity_mapped_when_tables_kept {policy : Int} (run : Run (Started policy) Serves s) :
    IdentityMapped s := identity_mapped (run_sound run)

section Example

omit [Config] in
theorem identity_mapped_of_three_heaps :
    let s := @afterEvents (@ServesFifo thirteen) (@decideServes thirteen) threeHeaps
    (s.ker.proctab 2).pd = frameNum2ptr 7 ∧ IdentityMapped s :=
  ⟨by decide +kernel, @identity_mapped_when_tables_kept thirteen _ _ three_heaps_run⟩

/-- Process 1 evicts its own last page and goes on with the page table that this has freed.
The frame becomes the directory of process 4, and when process 2 evicts the page of process 1,
`evictFrame` takes an entry of that directory for the one of the page. -/
def directoryTaken : List Event :=
  [.vcreate 1024 2 20, .vcreate 1024 8 20, .vcreate 1024 1 20, .resume 1, .resume 2, .resume 3,
    .resched 1, .fault 0x1000000, .resched 3, .fault 0x1000000, .resched 1, .fault 0x1001000,
    .vcreate 1024 1 20, .resched 2, .fault 0x1000000, .fault 0x1001000]

omit [Config] in
theorem identity_map_lost : ∃ s,
    @Run thirteen (@Started thirteen fifo) (@SuppliedFifo thirteen) s ∧ ¬IdentityMapped s := by
  let s := @afterEvents (@SuppliedFifo thirteen) (@decideSupplied thirteen) directoryTaken
  have facts : ¬(s.ker.proctab 4).prstate = .free ∧
      pres (s.entry (s.ker.proctab 4).pd (vaddr2pdi 0x400000)) = false := by
    decide +kernel
  obtain ⟨live, absent⟩ := facts
  refine ⟨s, @after_events _ (@decideSupplied thirteen) _ (by decide +kernel), ?_⟩
  intro mapped
  obtain ⟨⟨present, _⟩, _⟩ := mapped 4 live 0x400000 (Or.inl (by decide))
  rw [absent] at present
  cases present

end Example

end Xinu.Space.IdentityMap
