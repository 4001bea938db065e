import Xinu.Lib.Counting
import Xinu.Replacement.Fifo

/-!
# Frame table and page tables agree

`Tables s limbo fresh` relates the process table, the frame table and the words
of all page directories and page tables: every live process has a directory, every
private entry of it that is present leads to a page table of the process, every
entry of such a table to a frame with that page, every frame with a page is mapped
by its process, and reference counts count. Some frames can be exempt while a fault
is served: `limbo` holds a page that is not mapped (any more, or yet; `EMPTY` when
there is none), and the page tables in `fresh` may be without a page.
-/

namespace Xinu.Space.Agreement

open Xinu.Kernel.State Xinu.Kernel.Entry Xinu.Lib.Counting Xinu.Paging.Address Xinu.Paging.Ipt
open Xinu.Replacement.Fifo

set_option autoImplicit false

section Words

/-- The number of present entries of a table. -/
def presCount (words : Nat → Word) : Nat := count 1024 fun i => pres (words i)

variable {words after : Nat → Word} {index : Nat}

theorem pres_count_congr (same : ∀ i, pres (after i) = pres (words i)) :
    presCount after = presCount words := count_congr fun i _ => same i

end Words

section Definitions

def Live (s : St) (pid : Int) : Prop := (s.ker.proctab pid).prstate ≠ .free

/-- A live process made by `vcreate`. -/
def HeapLive (s : St) (pid : Int) : Prop := Live s pid ∧ (s.ker.proctab pid).vh = true

def pdeOf (s : St) (pid : Int) (pdi : Nat) : Word := s.entry (s.ker.proctab pid).pd pdi

def pteOf (s : St) (pid : Int) (pdi pti : Nat) : Word := s.mem (base (pdeOf s pid pdi)) pti

/-- The entries of a directory that are not set up by `init_pd`. -/
def Private (pdi : Nat) : Prop := pdi < 1024 ∧ numGlobalPt ≤ pdi ∧ pdi ≠ devMemPdIndex

/-- The tables of a process map a page to a frame. -/
def Maps (s : St) (pid : Int) (vpn fr : Nat) : Prop :=
  pres (pdeOf s pid (vpn / 1024)) = true ∧ pres (pteOf s pid (vpn / 1024) (vpn % 1024)) = true ∧
    base (pteOf s pid (vpn / 1024) (vpn % 1024)) = frame0 + fr

/-- A page of the heap of a process. -/
def HeapPage (s : St) (pid : Int) (vpn : Nat) : Prop :=
  HeapLive s pid ∧ vpn0 ≤ vpn ∧ vpn < vpn0 + (s.ker.proctab pid).hsize

variable [Config]

def IsTable (s : St) (fr : Nat) (pid : Int) : Prop :=
  fr < nframes ∧ (s.ipt fr).status = .ptab ∧ (s.ipt fr).pid = pid

def IsPage (s : St) (fr : Nat) (pid : Int) (vpn : Nat) : Prop :=
  fr < nframes ∧ (s.ipt fr).status = .page ∧ (s.ipt fr).pid = pid ∧ (s.ipt fr).vpn = vpn

structure Tables (s : St) (limbo : Nat) (fresh : List Nat) : Prop where
  pids : ∀ pid, Live s pid → 0 ≤ pid
  nullHeap : (s.ker.proctab nullproc).vh = false
  heaps : ∀ pid, HeapLive s pid → (s.ker.proctab pid).hsize ≤ 1600
  dirs : ∀ pid, Live s pid → ∃ d < nframes, (s.ker.proctab pid).pd = frameNum2ptr d ∧
    (s.ipt d).status = .pdir ∧
    (s.ipt d).pid = if (s.ker.proctab pid).vh = true then pid else nullproc
  globals : ∀ t < numGlobalPt, IsTable s t global ∧
    ∀ pti < 1024, pres (s.mem (frame0 + t) pti) = true
  shared : ∀ pid, Live s pid → ∀ pdi < numGlobalPt, pres (pdeOf s pid pdi) = true ∧
    base (pdeOf s pid pdi) = frame0 + pdi
  tables : ∀ pid pdi, HeapLive s pid → Private pdi → pres (pdeOf s pid pdi) = true →
    ∃ t, IsTable s t pid ∧ base (pdeOf s pid pdi) = frame0 + t
  distinct : ∀ pid left right, HeapLive s pid → Private left → Private right →
    pres (pdeOf s pid left) = true → pres (pdeOf s pid right) = true →
    base (pdeOf s pid left) = base (pdeOf s pid right) → left = right
  entries : ∀ pid pdi pti, HeapLive s pid → Private pdi → pres (pdeOf s pid pdi) = true →
    pti < 1024 → pres (pteOf s pid pdi pti) = true →
    ∃ fr, IsPage s fr pid (pdi * 1024 + pti) ∧ fr ≠ limbo ∧
      base (pteOf s pid pdi pti) = frame0 + fr
  mapped : ∀ fr < nframes, (s.ipt fr).status = .page → fr ≠ limbo →
    ∃ pid vpn, IsPage s fr pid vpn ∧ HeapPage s pid vpn ∧ Maps s pid vpn fr
  counts : ∀ pid pdi t, HeapLive s pid → Private pdi → pres (pdeOf s pid pdi) = true →
    base (pdeOf s pid pdi) = frame0 + t →
    (s.ipt t).refCount = presCount (s.mem (frame0 + t)) ∧ (t ∉ fresh → 1 ≤ (s.ipt t).refCount)

variable {s : St} {limbo : Nat} {fresh : List Nat} {pid : Int} {vpn : Nat}

/-- Heap pages lie behind private directory entries. -/
theorem private_of_heap (tables : Tables s limbo fresh) (live : HeapLive s pid)
    (low : vpn0 ≤ vpn) (high : vpn < vpn0 + (s.ker.proctab pid).hsize) :
    Private (vpn / 1024) := by
  have heap := tables.heaps pid live
  unfold Private
  rw [numGlobalPt, devMemPdIndex]
  rw [vpn0] at low high
  omega

end Definitions

section Congruence

/-- What the tables know about a process. -/
def space (proc : Procent) : Bool × Bool × Nat × Nat :=
  (decide (proc.prstate = .free), proc.vh, proc.pd, proc.hsize)

variable [Config]

/-- Two states that differ in nothing the tables depend on. -/
structure Alike (s t : St) : Prop where
  procs : ∀ pid, space (t.ker.proctab pid) = space (s.ker.proctab pid)
  frames : ∀ fr, core (t.ipt fr) = core (s.ipt fr)
  words : ∀ fr < nframes, (s.ipt fr).status = .pdir ∨ (s.ipt fr).status = .ptab → ∀ i,
    pres (t.mem (frame0 + fr) i) = pres (s.mem (frame0 + fr) i) ∧
      base (t.mem (frame0 + fr) i) = base (s.mem (frame0 + fr) i)

variable {s t : St} {limbo : Nat} {fresh : List Nat} {pid : Int}

omit [Config] in
theorem live_of_space (same : space (t.ker.proctab pid) = space (s.ker.proctab pid)) :
    Live t pid ↔ Live s pid := by
  simp only [space, Prod.mk.injEq, decide_eq_decide] at same
  exact not_congr same.1

omit [Config] in
theorem heap_live_of_space (same : space (t.ker.proctab pid) = space (s.ker.proctab pid)) :
    HeapLive t pid ↔ HeapLive s pid := by
  have live := live_of_space same
  simp only [space, Prod.mk.injEq] at same
  unfold HeapLive
  rw [live, same.2.1]

theorem pde_word {d : Nat} (bound : d < nframes)
    (directory : (s.ker.proctab pid).pd = frameNum2ptr d) (pdi : Nat) :
    pdeOf s pid pdi = s.mem (frame0 + d) pdi := by
  rw [pdeOf, St.entry, directory, frame_ptr_page d bound]

omit [Config] in
theorem pte_word {t' pdi : Nat} (table : base (pdeOf s pid pdi) = frame0 + t') (pti : Nat) :
    pteOf s pid pdi pti = s.mem (frame0 + t') pti := by
  rw [pteOf, table]

theorem alike_pde (tables : Tables s limbo fresh) (alike : Alike s t) (live : Live s pid)
    (pdi : Nat) :
    pres (pdeOf t pid pdi) = pres (pdeOf s pid pdi) ∧
      base (pdeOf t pid pdi) = base (pdeOf s pid pdi) := by
  obtain ⟨d, bound, directory, status, _⟩ := tables.dirs pid live
  have procs := alike.procs pid
  simp only [space, Prod.mk.injEq] at procs
  rw [pde_word bound directory, pde_word bound (procs.2.2.1.trans directory)]
  exact alike.words d bound (Or.inl status) pdi

theorem alike_pte (tables : Tables s limbo fresh) (alike : Alike s t) (live : HeapLive s pid)
    {pdi : Nat} (own : Private pdi) (present : pres (pdeOf s pid pdi) = true) (pti : Nat) :
    pres (pteOf t pid pdi pti) = pres (pteOf s pid pdi pti) ∧
      base (pteOf t pid pdi pti) = base (pteOf s pid pdi pti) := by
  obtain ⟨table, isTable, address⟩ := tables.tables pid pdi live own present
  rw [pte_word address, pte_word ((alike_pde tables alike live.1 pdi).2.trans address)]
  exact alike.words table isTable.1 (Or.inr isTable.2.1) pti

theorem tables_congr (tables : Tables s limbo fresh) (alike : Alike s t) :
    Tables t limbo fresh := by
  have live : ∀ pid, Live t pid ↔ Live s pid := fun pid => live_of_space (alike.procs pid)
  have heapLive : ∀ pid, HeapLive t pid ↔ HeapLive s pid :=
    fun pid => heap_live_of_space (alike.procs pid)
  have vh : ∀ pid, (t.ker.proctab pid).vh = (s.ker.proctab pid).vh :=
    fun pid => congrArg (fun view => view.2.1) (alike.procs pid)
  have pd : ∀ pid, (t.ker.proctab pid).pd = (s.ker.proctab pid).pd :=
    fun pid => congrArg (fun view => view.2.2.1) (alike.procs pid)
  have hsize : ∀ pid, (t.ker.proctab pid).hsize = (s.ker.proctab pid).hsize :=
    fun pid => congrArg (fun view => view.2.2.2) (alike.procs pid)
  have status : ∀ fr, (t.ipt fr).status = (s.ipt fr).status :=
    fun fr => congrArg Prod.fst (alike.frames fr)
  have owner : ∀ fr, (t.ipt fr).pid = (s.ipt fr).pid :=
    fun fr => congrArg (fun view => view.2.1) (alike.frames fr)
  have page : ∀ fr, (t.ipt fr).vpn = (s.ipt fr).vpn :=
    fun fr => congrArg (fun view => view.2.2.1) (alike.frames fr)
  have count : ∀ fr, (t.ipt fr).refCount = (s.ipt fr).refCount :=
    fun fr => congrArg (fun view => view.2.2.2) (alike.frames fr)
  have isTable : ∀ fr pid, IsTable t fr pid ↔ IsTable s fr pid := by
    intro fr pid
    rw [IsTable, IsTable, status, owner]
  have isPage : ∀ fr pid vpn, IsPage t fr pid vpn ↔ IsPage s fr pid vpn := by
    intro fr pid vpn
    rw [IsPage, IsPage, status, owner, page]
  refine ⟨?_, ?_, ?_, ?_, ?_, ?_, ?_, ?_, ?_, ?_, ?_⟩
  · intro pid alive
    exact tables.pids pid ((live pid).mp alive)
  · rw [vh]
    exact tables.nullHeap
  · intro pid alive
    rw [hsize]
    exact tables.heaps pid ((heapLive pid).mp alive)
  · intro pid alive
    obtain ⟨d, bound, directory, isDir, own⟩ := tables.dirs pid ((live pid).mp alive)
    refine ⟨d, bound, (pd pid).trans directory, (status d).trans isDir, ?_⟩
    rw [owner, vh]
    exact own
  · intro table shared
    obtain ⟨global, full⟩ := tables.globals table shared
    refine ⟨(isTable table _).mpr global, fun pti bound => ?_⟩
    rw [(alike.words table global.1 (Or.inr global.2.1) pti).1]
    exact full pti bound
  · intro pid alive pdi shared
    obtain ⟨present, address⟩ := tables.shared pid ((live pid).mp alive) pdi shared
    have same := alike_pde tables alike ((live pid).mp alive) pdi
    exact ⟨same.1.trans present, same.2.trans address⟩
  · intro pid pdi alive own present
    have same := alike_pde tables alike ((heapLive pid).mp alive).1 pdi
    obtain ⟨table, isTab, address⟩ :=
      tables.tables pid pdi ((heapLive pid).mp alive) own (same.1.symm.trans present)
    exact ⟨table, (isTable table pid).mpr isTab, same.2.trans address⟩
  · intro pid left right alive ownLeft ownRight presLeft presRight equal
    have sameLeft := alike_pde tables alike ((heapLive pid).mp alive).1 left
    have sameRight := alike_pde tables alike ((heapLive pid).mp alive).1 right
    rw [sameLeft.1] at presLeft
    rw [sameRight.1] at presRight
    rw [sameLeft.2, sameRight.2] at equal
    exact tables.distinct pid left right ((heapLive pid).mp alive) ownLeft ownRight presLeft
      presRight equal
  · intro pid pdi pti alive own present bound presentPage
    have alive := (heapLive pid).mp alive
    have same := alike_pde tables alike alive.1 pdi
    rw [same.1] at present
    have samePage := alike_pte tables alike alive own present pti
    rw [samePage.1] at presentPage
    obtain ⟨fr, holds, notLimbo, address⟩ :=
      tables.entries pid pdi pti alive own present bound presentPage
    exact ⟨fr, (isPage fr pid _).mpr holds, notLimbo, samePage.2.trans address⟩
  · intro fr bound holds notLimbo
    rw [status] at holds
    obtain ⟨pid, vpn, isPg, ⟨alive, low, high⟩, presTable, presPage, address⟩ :=
      tables.mapped fr bound holds notLimbo
    have own : Private (vpn / 1024) := private_of_heap tables alive low high
    have same := alike_pde tables alike alive.1 (vpn / 1024)
    have samePage := alike_pte tables alike alive own presTable (vpn % 1024)
    refine ⟨pid, vpn, (isPage fr pid vpn).mpr isPg, ⟨(heapLive pid).mpr alive, low, ?_⟩,
      same.1.trans presTable, samePage.1.trans presPage, samePage.2.trans address⟩
    rw [hsize]
    exact high
  · intro pid pdi table alive own present address
    have alive := (heapLive pid).mp alive
    have same := alike_pde tables alike alive.1 pdi
    rw [same.1] at present
    rw [same.2] at address
    obtain ⟨other, isTab, otherAddress⟩ := tables.tables pid pdi alive own present
    have equal : other = table := by omega
    subst equal
    have words := alike.words other isTab.1 (Or.inr isTab.2.1)
    rw [count, pres_count_congr fun i => (words i).1]
    exact tables.counts pid pdi other alive own present address

end Congruence

end Xinu.Space.Agreement
