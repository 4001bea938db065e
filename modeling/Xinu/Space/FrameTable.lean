import Xinu.Space.Runs

/-!
# The frame table and the page tables

What the tables of a process say about a page of its heap, and what the frame table says.
-/

namespace Xinu.Space.FrameTable

open Xinu.Kernel.State Xinu.Kernel.Entry Xinu.Paging.Address Xinu.Paging.System
open Xinu.Space.Agreement Xinu.Space.Allocate Xinu.Space.Runs Xinu.Swap.Conservation

set_option autoImplicit false

/-- The page directory and the page table of the process map the page as present. -/
def Present (s : St) (pid : Int) (vpn : Nat) : Prop :=
  pres (pdeOf s pid (vpn / 1024)) = true ∧ pres (pteOf s pid (vpn / 1024) (vpn % 1024)) = true

variable [Config]

structure FrameTableAgrees (s : St) : Prop where
  pages : ∀ pid vpn, HeapPage s pid vpn → (Present s pid vpn ↔ ∃! fr, IsPage s fr pid vpn)
  frames : ∀ pid vpn fr, HeapPage s pid vpn → Present s pid vpn → IsPage s fr pid vpn →
    base (pteOf s pid (vpn / 1024) (vpn % 1024)) = frame0 + fr
  tables : ∀ pid pdi, HeapLive s pid → Private pdi → pres (pdeOf s pid pdi) = true →
    ∃ table, IsTable s table pid ∧ base (pdeOf s pid pdi) = frame0 + table ∧
      (s.ipt table).refCount = presCount (s.mem (frame0 + table)) ∧ 1 ≤ (s.ipt table).refCount

variable {s : St} {pid : Int} {vpn fr : Nat}

theorem page_mapped (tables : Tables s empty []) (page : IsPage s fr pid vpn) :
    Maps s pid vpn fr := by
  obtain ⟨owner, number, other, _, maps⟩ :=
    tables.mapped fr page.1 page.2.1 (proper_of_bound page.1)
  have samePid : owner = pid := other.2.2.1.symm.trans page.2.2.1
  have sameVpn : number = vpn := by
    have same : (number : Int) = vpn := other.2.2.2.symm.trans page.2.2.2
    exact Int.ofNat_inj.mp same
  rw [← samePid, ← sameVpn]
  exact maps

theorem frame_table_agrees (tables : Tables s empty []) : FrameTableAgrees s := by
  have address : ∀ pid vpn fr, IsPage s fr pid vpn →
      base (pteOf s pid (vpn / 1024) (vpn % 1024)) = frame0 + fr :=
    fun pid vpn fr page => (page_mapped tables page).2.2
  refine ⟨?_, fun pid vpn fr _ _ page => address pid vpn fr page, ?_⟩
  · intro pid vpn heapPage
    have own := private_of_heap tables heapPage.1 heapPage.2.1 heapPage.2.2
    constructor
    · rintro ⟨present, presPage⟩
      obtain ⟨fr, page, _, _⟩ := tables.entries pid _ _ heapPage.1 own present
        (Nat.mod_lt _ (by decide)) presPage
      have number : vpn / 1024 * 1024 + vpn % 1024 = vpn := by omega
      rw [number] at page
      refine ⟨fr, page, fun other otherPage => ?_⟩
      have left := address pid vpn fr page
      have right := address pid vpn other otherPage
      omega
    · rintro ⟨fr, page, _⟩
      exact ⟨(page_mapped tables page).1, (page_mapped tables page).2.1⟩
  · intro pid pdi live own present
    obtain ⟨table, isTable, target⟩ := tables.tables pid pdi live own present
    obtain ⟨counted, positive⟩ := tables.counts pid pdi table live own present target
    exact ⟨table, isTable, target, counted, positive (by simp)⟩

/-- The two agree in every run whose page faults keep their page tables. -/
theorem frame_table_agrees_when_tables_kept {policy : Int} (run : Run (Started policy) Serves s) :
    FrameTableAgrees s := frame_table_agrees (run_sound run).tables

section Example

omit [Config] in
theorem frame_table_agrees_of_three_heaps :
    let s := @afterEvents (@ServesFifo thirteen) (@decideServes thirteen) threeHeaps
    Present s 3 4096 ∧ @FrameTableAgrees thirteen s := by
  refine ⟨?_, @frame_table_agrees_when_tables_kept thirteen _ _ three_heaps_run⟩
  rw [Present]
  decide +kernel

/-- Process 1 evicts its own last page and goes on with the page table that this has freed. -/
def tableFreed : List Event :=
  [.vcreate 1024 2 20, .vcreate 1024 8 20, .vcreate 1024 1 20, .resume 1, .resume 2, .resume 3,
    .resched 1, .fault 0x1000000, .resched 3, .fault 0x1000000, .resched 1, .fault 0x1001000]

omit [Config] in
theorem frame_table_disagrees : ∃ s, @Run thirteen (@Started thirteen fifo)
    (@SuppliedFifo thirteen) s ∧ ¬@FrameTableAgrees thirteen s := by
  let s := @afterEvents (@SuppliedFifo thirteen) (@decideSupplied thirteen) tableFreed
  have facts : (¬(s.ker.proctab 1).prstate = .free ∧ (s.ker.proctab 1).vh = true ∧
      (s.ker.proctab 1).hsize = 2) ∧ pres (pdeOf s 1 4) = false ∧
      ∀ fr < 13, decide ((s.ipt fr).status = .page ∧ (s.ipt fr).pid = 1 ∧ (s.ipt fr).vpn = (4097 : Nat)) =
        decide (fr = 10) := by
    decide +kernel
  obtain ⟨⟨live, heap, size⟩, absent, only⟩ := facts
  refine ⟨s, @after_events _ (@decideSupplied thirteen) _ (by decide +kernel), ?_⟩
  intro agrees
  have heapPage : HeapPage s 1 4097 := by
    refine ⟨⟨live, heap⟩, by decide, ?_⟩
    rw [size]
    decide
  have unique : ∃! fr, @IsPage thirteen s fr 1 4097 := by
    have here := only 10 (by decide)
    refine ⟨10, ⟨by decide, by simpa using here⟩, ?_⟩
    rintro fr ⟨bound, page⟩
    have there := only fr bound
    rw [decide_eq_true page] at there
    exact of_decide_eq_true there.symm
  have present := ((@FrameTableAgrees.pages thirteen s agrees 1 4097 heapPage).mpr unique).1
  rw [absent] at present
  cases present

end Example

end Xinu.Space.FrameTable
