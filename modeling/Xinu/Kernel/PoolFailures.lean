import Xinu.Kernel.BufferPools
import Xinu.Kernel.HeapLaws

/-!
# Failures of `mkbufpool`

`mkbufpool` takes memory, an entry of `buftab` and a semaphore one after the other. `semcreate` is
here with its table. When no semaphore is free the entry is given back, and the memory is not.
-/

namespace Xinu.Kernel.PoolFailures

open Xinu.Kernel.State (sysErr sysErrPtr word32)
open Xinu.Kernel.Memory Xinu.Kernel.FreeList Xinu.Kernel.Heap
open Xinu.Kernel.HeapLists Xinu.Kernel.HeapRuns Xinu.Kernel.HeapLaws
open Xinu.Kernel.BufferPools (nbPools bpMaxb bpMinb bpMaxn linkBuffers)

set_option autoImplicit false

section Definitions

inductive SState where
  | free
  | used
  deriving DecidableEq

structure Sentry where
  sstate : SState
  scount : Int

/-- `nextsem` is the static variable of `newsem`. -/
structure Semtab (nsem : Nat) where
  semtab : Nat → Sentry
  nextsem : Nat
  inTable : nextsem < nsem

structure Bpentry where
  bpnext : Nat
  bpsem : Int
  bpsize : Nat

structure Pools (nsem : Nat) where
  heap : FreeMem
  word : Nat → Nat
  buftab : Nat → Bpentry
  nbpools : Nat
  sems : Semtab nsem

variable {nsem : Nat}

/-- `sem = nextsem++`, which goes on at the start behind the last semaphore -/
def advance (s : Semtab nsem) : Semtab nsem :=
  if more : s.nextsem + 1 < nsem then { s with nextsem := s.nextsem + 1, inTable := more }
  else { s with nextsem := 0, inTable := Nat.zero_lt_of_lt s.inTable }

def setSem (s : Semtab nsem) (sem : Nat) (sentry : Sentry) : Semtab nsem :=
  { s with semtab := Function.update s.semtab sem sentry }

/-- The loop of `newsem` -/
def newsemFrom : Nat → Semtab nsem → Int × Semtab nsem
  | 0, s => (sysErr, s)
  | left + 1, s =>
      if (s.semtab s.nextsem).sstate = .free then
        (s.nextsem, setSem (advance s) s.nextsem { s.semtab s.nextsem with sstate := .used })
      else newsemFrom left (advance s)

def newsem (s : Semtab nsem) : Int × Semtab nsem := newsemFrom nsem s

def semcreate (s : Semtab nsem) (count : Int) : Int × Semtab nsem :=
  if count < 0 then (sysErr, s)
  else
    let found := newsem s
    if found.1 = sysErr then (sysErr, found.2)
    else
      (found.1, setSem found.2 found.1.toNat
        { found.2.semtab found.1.toNat with scount := count })

variable (minheap maxheap : Nat) (k : Pools nsem)

def Refused (bufsiz numbufs : Int) : Prop :=
  bufsiz < bpMinb ∨ bpMaxb < bufsiz ∨ numbufs < 1 ∨ bpMaxn < numbufs ∨ nbPools ≤ k.nbpools

instance (bufsiz numbufs : Int) : Decidable (Refused k bufsiz numbufs) :=
  inferInstanceAs (Decidable (_ ∨ _ ∨ _ ∨ _ ∨ _))

def roundSize (bufsiz : Int) : Nat := (bufsiz.toNat + 3) / 4 * 4

/-- The size of the buffers with their first words -/
def poolBytes (bufsiz numbufs : Int) : Nat := numbufs.toNat * (roundSize bufsiz + 4)

/-- `mkbufpool` behind `getmem` -/
def enterPool (bufsiz numbufs : Int) (buf : Nat) (k : Pools nsem) : Pools nsem × Int :=
  let poolid := k.nbpools
  let created := semcreate k.sems numbufs
  let k := { k with
    nbpools := poolid + 1
    sems := created.2
    buftab := Function.update k.buftab poolid ⟨buf, created.1, roundSize bufsiz⟩ }
  if created.1 = sysErr then ({ k with nbpools := k.nbpools - 1 }, sysErr)
  else
    ({ k with word := linkBuffers (roundSize bufsiz + 4) k.word buf (numbufs.toNat - 1) }, poolid)

def mkbufpool (bufsiz numbufs : Int) : Option (Pools nsem × Int) :=
  if Refused k bufsiz numbufs then some (k, sysErr)
  else do
    let (buf, mem) ← getmem (fuelOf minheap maxheap) k.heap (poolBytes bufsiz numbufs)
    let k := { k with heap := mem }
    if buf = sysErrPtr then some (k, sysErr) else some (enterPool bufsiz numbufs buf k)

/-- What the claim on a failure is about: the free list with its length and its nodes, the number
of pools and the semaphores -/
structure Unchanged (k k' : Pools nsem) : Prop where
  heap : k'.heap = k.heap
  nbpools : k'.nbpools = k.nbpools
  semtab : k'.sems.semtab = k.sems.semtab

def FailureKeeps (bufsiz numbufs : Int) : Prop :=
  ∀ k', mkbufpool minheap maxheap k bufsiz numbufs = some (k', sysErr) → Unchanged k k'

def NoneFree (s : Semtab nsem) : Prop := ∀ sem < nsem, (s.semtab sem).sstate ≠ .free

instance (s : Semtab nsem) : Decidable (NoneFree s) :=
  inferInstanceAs (Decidable (∀ sem < nsem, _))

/-- Memory has been taken, and the call fails. An allocator whose list is in order returns the
address of what it takes. -/
def LosesMemory (bufsiz numbufs : Int) : Prop :=
  ¬Refused k bufsiz numbufs ∧ ∃ buf mem,
    getmem (fuelOf minheap maxheap) k.heap (poolBytes bufsiz numbufs) = some (buf, mem) ∧
      mem ≠ k.heap ∧ (buf = sysErrPtr ∨ NoneFree k.sems)

end Definitions

section Semaphores

variable {nsem : Nat} {s : Semtab nsem}

@[simp] theorem advance_semtab : (advance s).semtab = s.semtab := by
  unfold advance
  split <;> rfl

theorem advance_nextsem : (advance s).nextsem = (s.nextsem + 1) % nsem := by
  have inside := s.inTable
  unfold advance
  split
  · rename_i more
    exact (Nat.mod_eq_of_lt more).symm
  · rename_i last
    have wraps : s.nextsem + 1 = nsem := by omega
    rw [wraps, Nat.mod_self]

/-- The loop fails when it meets no free semaphore, and changes none then. -/
theorem newsem_from_fails (left : Nat) (s : Semtab nsem) :
    (newsemFrom left s).1 = sysErr ↔
      ∀ i < left, (s.semtab ((s.nextsem + i) % nsem)).sstate ≠ .free := by
  induction left generalizing s with
  | zero => exact iff_of_true rfl fun i none => absurd none (Nat.not_lt_zero i)
  | succ left induction =>
      have first : (s.nextsem + 0) % nsem = s.nextsem := Nat.mod_eq_of_lt s.inTable
      unfold newsemFrom
      split
      · rename_i free
        refine iff_of_false ?_ fun none => none 0 (Nat.succ_pos left) (by rw [first]; exact free)
        change ¬(s.nextsem : Int) = sysErr
        unfold sysErr
        omega
      · rename_i used
        rw [induction, advance_semtab, advance_nextsem]
        constructor
        · intro rest i bound
          cases i with
          | zero => rw [first]; exact used
          | succ i =>
              have later := rest i (by omega)
              rwa [Nat.mod_add_mod, Nat.add_assoc, Nat.add_comm 1 i] at later
        · intro all i bound
          have later := all (i + 1) (by omega)
          rwa [Nat.mod_add_mod, Nat.add_assoc, Nat.add_comm 1 i]

theorem newsem_from_semtab {left : Nat} (failed : (newsemFrom left s).1 = sysErr) :
    (newsemFrom left s).2.semtab = s.semtab := by
  induction left generalizing s with
  | zero => rfl
  | succ left induction =>
      unfold newsemFrom at failed ⊢
      split at failed
      · change (s.nextsem : Int) = sysErr at failed
        unfold sysErr at failed
        omega
      · rename_i used
        rw [if_neg used, induction failed, advance_semtab]

theorem newsem_fails_iff : (newsem s).1 = sysErr ↔ NoneFree s := by
  have inside := s.inTable
  rw [newsem, newsem_from_fails]
  constructor
  · intro all sem bound
    have met := all ((sem + nsem - s.nextsem) % nsem) (Nat.mod_lt _ (by omega))
    have place : s.nextsem + (sem + nsem - s.nextsem) = sem + nsem := by omega
    rwa [Nat.add_mod_mod, place, Nat.add_mod_right, Nat.mod_eq_of_lt bound] at met
  · intro none i _
    exact none _ (Nat.mod_lt _ (by omega))

theorem semcreate_fails_iff {count : Int} (proper : 0 ≤ count) :
    (semcreate s count).1 = sysErr ↔ NoneFree s := by
  rw [← newsem_fails_iff, semcreate, if_neg (Int.not_lt.mpr proper)]
  by_cases failed : (newsem s).1 = sysErr
  · exact iff_of_true (by rw [if_pos failed]) failed
  · refine iff_of_false ?_ failed
    rw [if_neg failed]
    exact failed

theorem semcreate_semtab {count : Int} (proper : 0 ≤ count) (none : NoneFree s) :
    (semcreate s count).2.semtab = s.semtab := by
  have failed := newsem_fails_iff.mpr none
  rw [semcreate, if_neg (Int.not_lt.mpr proper), if_pos failed]
  exact newsem_from_semtab failed

end Semaphores

section Failures

variable {nsem : Nat} {minheap maxheap : Nat} {k : Pools nsem} {bufsiz numbufs : Int}

theorem enter_pool_fails (bufsiz : Int) (buf : Nat) (proper : 0 ≤ numbufs) :
    (enterPool bufsiz numbufs buf k).2 = sysErr ↔ NoneFree k.sems := by
  rw [← semcreate_fails_iff proper, enterPool]
  by_cases failed : (semcreate k.sems numbufs).1 = sysErr
  · exact iff_of_true (by rw [if_pos failed]) failed
  · refine iff_of_false ?_ failed
    rw [if_neg failed]
    change ¬(k.nbpools : Int) = sysErr
    unfold sysErr
    omega

/-- Without a free semaphore the pool and the semaphores are as before. -/
theorem enter_pool_keeps (bufsiz : Int) (buf : Nat) (proper : 0 ≤ numbufs) (none : NoneFree k.sems) :
    (enterPool bufsiz numbufs buf k).1.heap = k.heap ∧
      (enterPool bufsiz numbufs buf k).1.nbpools = k.nbpools ∧
      (enterPool bufsiz numbufs buf k).1.sems.semtab = k.sems.semtab := by
  rw [enterPool, if_pos ((semcreate_fails_iff proper).mpr none)]
  exact ⟨rfl, rfl, semcreate_semtab proper none⟩

theorem proper_count (accepted : ¬Refused k bufsiz numbufs) : 0 ≤ numbufs := by
  unfold Refused at accepted
  omega

theorem enter_pool_made {buf : Nat} (proper : 0 ≤ numbufs) (some : ¬NoneFree k.sems) :
    (enterPool bufsiz numbufs buf k).1.heap = k.heap ∧
      (enterPool bufsiz numbufs buf k).1.nbpools = k.nbpools + 1 ∧
      (enterPool bufsiz numbufs buf k).2 = k.nbpools := by
  rw [enterPool, if_neg fun failed => some ((semcreate_fails_iff proper).mp failed)]
  exact ⟨rfl, rfl, rfl⟩

theorem mkbufpool_cases (accepted : ¬Refused k bufsiz numbufs) {buf : Nat} {mem : FreeMem}
    (searched : getmem (fuelOf minheap maxheap) k.heap (poolBytes bufsiz numbufs) =
      some (buf, mem)) :
    mkbufpool minheap maxheap k bufsiz numbufs =
      if buf = sysErrPtr then some ({ k with heap := mem }, sysErr)
      else some (enterPool bufsiz numbufs buf { k with heap := mem }) := by
  rw [mkbufpool, if_neg accepted, searched]
  rfl

/-- The heap, the number of pools and the result are those of the pools whose semaphores are found
or not. -/
theorem mkbufpool_agrees {m : BufferPools.Machine} (heap : m.heap.heap = k.heap)
    (nbpools : m.nbpools = k.nbpools) :
    (BufferPools.mkbufpool minheap maxheap m bufsiz numbufs (decide ¬NoneFree k.sems)).map
        (fun made => (made.1.heap.heap, made.1.nbpools, made.2)) =
      (mkbufpool minheap maxheap k bufsiz numbufs).map
        fun made => (made.1.heap, made.1.nbpools, made.2) := by
  by_cases accepted : Refused k bufsiz numbufs
  · have refused : bufsiz < bpMinb ∨ bpMaxb < bufsiz ∨ numbufs < 1 ∨ bpMaxn < numbufs ∨
        nbPools ≤ m.nbpools := by rwa [nbpools]
    rw [BufferPools.mkbufpool, if_pos refused, mkbufpool, if_pos accepted]
    simp [heap, nbpools]
  have goesOn : ¬(bufsiz < bpMinb ∨ bpMaxb < bufsiz ∨ numbufs < 1 ∨ bpMaxn < numbufs ∨
      nbPools ≤ m.nbpools) := by rwa [nbpools]
  have proper := proper_count accepted
  rw [BufferPools.mkbufpool, if_neg goesOn, heap]
  cases searched : getmem (fuelOf minheap maxheap) k.heap (poolBytes bufsiz numbufs) with
  | none =>
      rw [mkbufpool, if_neg accepted, searched]
      change Option.map _ (getmem _ k.heap (poolBytes bufsiz numbufs) >>= _) = _
      rw [searched]
      rfl
  | some found =>
      obtain ⟨buf, mem⟩ := found
      rw [mkbufpool_cases accepted searched]
      change Option.map _ (getmem _ k.heap (poolBytes bufsiz numbufs) >>= _) = _
      rw [searched]
      have holds : ∀ start nbytes, (m.heap.got buf start nbytes mem).heap = mem := by
        intro start nbytes
        unfold Run.got
        split <;> rfl
      by_cases nothing : buf = sysErrPtr
      · change Option.map _ (if buf = sysErrPtr then _ else _) = _
        rw [if_pos nothing, if_pos nothing]
        simp [holds, nbpools]
      · change Option.map _ (if buf = sysErrPtr then _ else _) = _
        rw [if_neg nothing, if_neg nothing]
        by_cases none : NoneFree k.sems
        · have kept := @enter_pool_keeps nsem { k with heap := mem } numbufs bufsiz buf proper none
          have failed : (enterPool bufsiz numbufs buf { k with heap := mem }).2 = sysErr :=
            (@enter_pool_fails nsem { k with heap := mem } numbufs bufsiz buf proper).mpr none
          rw [if_pos (by simp [none])]
          simp [BufferPools.Machine.setEntry, holds, kept, failed, nbpools]
        · have made := @enter_pool_made nsem { k with heap := mem } bufsiz numbufs buf proper none
          rw [if_neg (by simp [none])]
          simp [BufferPools.Machine.setEntry, holds, made, nbpools]

theorem failure_keeps_iff : FailureKeeps minheap maxheap k bufsiz numbufs ↔
    ¬LosesMemory minheap maxheap k bufsiz numbufs := by
  constructor
  · rintro keeps ⟨accepted, buf, mem, searched, taken, fails⟩
    have ran := mkbufpool_cases accepted searched
    by_cases nothing : buf = sysErrPtr
    · rw [if_pos nothing] at ran
      exact taken (keeps _ ran).heap
    · have none := fails.resolve_left nothing
      have proper := proper_count accepted
      have failed : (enterPool bufsiz numbufs buf { k with heap := mem }).2 = sysErr :=
        (@enter_pool_fails nsem { k with heap := mem } numbufs bufsiz buf proper).mpr none
      rw [if_neg nothing] at ran
      have kept := keeps _ (ran.trans (congrArg some (Prod.ext rfl failed)))
      have heap : (enterPool bufsiz numbufs buf { k with heap := mem }).1.heap = mem :=
        (@enter_pool_keeps nsem { k with heap := mem } numbufs bufsiz buf proper none).1
      exact taken (heap.symm.trans kept.heap)
  · intro spared k' ran
    by_cases accepted : Refused k bufsiz numbufs
    · rw [mkbufpool, if_pos accepted] at ran
      cases ran
      exact ⟨rfl, rfl, rfl⟩
    cases searched : getmem (fuelOf minheap maxheap) k.heap (poolBytes bufsiz numbufs) with
    | none =>
        rw [mkbufpool, if_neg accepted, searched] at ran
        cases ran
    | some found =>
        obtain ⟨buf, mem⟩ := found
        have same : (buf = sysErrPtr ∨ NoneFree k.sems) → mem = k.heap := by
          intro fails
          by_contra taken
          exact spared ⟨accepted, buf, mem, searched, taken, fails⟩
        rw [mkbufpool_cases accepted searched] at ran
        by_cases nothing : buf = sysErrPtr
        · rw [if_pos nothing] at ran
          cases ran
          exact ⟨same (Or.inl nothing), rfl, rfl⟩
        · rw [if_neg nothing, Option.some.injEq] at ran
          have proper := proper_count accepted
          have failed : (enterPool bufsiz numbufs buf { k with heap := mem }).2 = sysErr := by
            rw [ran]
          have none : NoneFree k.sems :=
            (@enter_pool_fails nsem { k with heap := mem } numbufs bufsiz buf proper).mp failed
          have kept := @enter_pool_keeps nsem { k with heap := mem } numbufs bufsiz buf proper none
          rw [ran] at kept
          exact ⟨kept.1.trans (same (Or.inr none)), kept.2.1, kept.2.2⟩

/-- With a free list in order `getmem` takes something or returns `SYSERR`. -/
theorem getmem_takes {m : FreeMem} {blocks : List (Nat × Nat)} {nbytes : Nat}
    (listed : Listed minheap maxheap m blocks) (bound : maxheap < word32)
    (ordered : minheap ≤ maxheap) (asked : 0 < nbytes) (short : nbytes + 7 < word32) :
    ∃ buf mem, getmem (fuelOf minheap maxheap) m nbytes = some (buf, mem) ∧
      (mem ≠ m ↔ ∃ block ∈ blocks, rounded nbytes ≤ block.2) ∧
      (buf = sysErrPtr → mem = m) := by
  have size := rounded_fits short
  have positive : 0 < roundmb nbytes := by
    rw [size, rounded]
    omega
  have less : roundmb nbytes < word32 := by
    rw [size, rounded]
    unfold word32 at *
    omega
  have searches : getmem (fuelOf minheap maxheap) m nbytes =
      firstFit (roundmb nbytes) (fuelOf minheap maxheap) m none m.memlist.mnext :=
    if_neg (Nat.ne_of_gt asked)
  rw [searches, ← size]
  rcases get_block_result listed.spaced bound positive listed.represents
    (fuel_enough listed.spaced ordered) with ⟨x, mem, blocks', found, carved, _, length⟩ | nothing
  · have inside := carved_spaced carved positive listed.spaced
    have proper : x ≠ sysErrPtr := by
      unfold sysErrPtr
      unfold word32 at bound
      omega
    refine ⟨x, mem, found, iff_of_true ?_ ?_, fun bad => absurd bad proper⟩
    · rintro rfl
      have within := total_within listed.spaced ordered
      rw [listed.length] at length
      unfold word32 at length bound less
      omega
    · rcases search_found listed.represents found with ⟨_, bad⟩ | ⟨block, member, large, _⟩
      · exact absurd bad proper
      · exact ⟨block, member, large⟩
  · refine ⟨sysErrPtr, m, nothing, iff_of_false (fun taken => taken rfl) ?_, fun _ => rfl⟩
    rintro ⟨block, member, large⟩
    rcases search_found listed.represents nothing with ⟨small, _⟩ | ⟨other, inList, _, same⟩
    · exact absurd large (Nat.not_le.mpr (small block member))
    · exact block_proper listed.spaced bound inList same.symm

/-- Where the free list is in order, a block is large enough and no semaphore is free. -/
theorem loses_memory_iff {blocks : List (Nat × Nat)} (listed : Listed minheap maxheap k.heap blocks)
    (bound : maxheap < word32) (ordered : minheap ≤ maxheap) :
    LosesMemory minheap maxheap k bufsiz numbufs ↔ ¬Refused k bufsiz numbufs ∧
      (∃ block ∈ blocks, rounded (poolBytes bufsiz numbufs) ≤ block.2) ∧ NoneFree k.sems := by
  unfold LosesMemory
  refine and_congr_right fun accepted => ?_
  have sizes : 0 < poolBytes bufsiz numbufs ∧ poolBytes bufsiz numbufs + 7 < word32 := by
    unfold Refused bpMinb bpMaxb bpMaxn at accepted
    have some : 1 ≤ numbufs.toNat ∧ numbufs.toNat ≤ 2048 := by omega
    have size : 12 ≤ roundSize bufsiz + 4 ∧ roundSize bufsiz + 4 ≤ 8200 := by
      unfold roundSize
      omega
    have low := Nat.mul_le_mul some.1 size.1
    have high := Nat.mul_le_mul some.2 size.2
    unfold poolBytes word32
    omega
  obtain ⟨buf, mem, searched, taken, nothing⟩ :=
    getmem_takes listed bound ordered sizes.1 sizes.2
  constructor
  · rintro ⟨buf', mem', found, changed, fails⟩
    rw [searched] at found
    cases found
    exact ⟨taken.mp changed, fails.resolve_left fun bad => changed (nothing bad)⟩
  · rintro ⟨large, none⟩
    exact ⟨buf, mem, searched, taken.mpr large, Or.inr none⟩

end Failures

section Results

variable {nsem : Nat}

/-- A failed `mkbufpool` changes nothing, unless it has taken memory and finds no free semaphore. -/
theorem failed_pool_unchanged_iff (minheap maxheap : Nat) (k : Pools nsem) (bufsiz numbufs : Int) :
    (FailureKeeps minheap maxheap k bufsiz numbufs ↔
      ¬LosesMemory minheap maxheap k bufsiz numbufs) ∧
      ∀ blocks, Listed minheap maxheap k.heap blocks → maxheap < word32 → minheap ≤ maxheap →
        (LosesMemory minheap maxheap k bufsiz numbufs ↔ ¬Refused k bufsiz numbufs ∧
          (∃ block ∈ blocks, rounded (poolBytes bufsiz numbufs) ≤ block.2) ∧ NoneFree k.sems) :=
  ⟨failure_keeps_iff, fun _ listed bound ordered => loses_memory_iff listed bound ordered⟩

/-- A heap of 64 bytes, and one semaphore that is used -/
def allUsed : Pools 1 where
  heap := oneBlock
  word := fun _ => 0
  buftab := fun _ => ⟨0, 0, 0⟩
  nbpools := 0
  sems := { semtab := fun _ => ⟨.used, 0⟩, nextsem := 0, inTable := by decide }

theorem failed_pool_unchanged_used : LosesMemory 1048576 1048640 allUsed 8 2 :=
  ((failed_pool_unchanged_iff 1048576 1048640 allUsed 8 2).2 [(1048576, 64)] one_block_listed
    (by decide) (by decide)).mpr ⟨by decide, by decide, by decide⟩

theorem failed_pool_takes_memory :
    ¬∀ (nsem minheap maxheap : Nat) (k : Pools nsem) (bufsiz numbufs : Int),
      FailureKeeps minheap maxheap k bufsiz numbufs := by
  intro always
  have ran : (mkbufpool 1048576 1048640 allUsed 8 2).map
      (fun result => (result.2, result.1.heap.memlist.mlength)) = some (sysErr, 40) := by decide
  cases made : mkbufpool 1048576 1048640 allUsed 8 2 with
  | none =>
      rw [made] at ran
      cases ran
  | some result =>
      obtain ⟨k', status⟩ := result
      rw [made] at ran
      simp only [Option.map_some, Option.some.injEq, Prod.mk.injEq] at ran
      obtain ⟨rfl, length⟩ := ran
      have kept := (always 1 1048576 1048640 allUsed 8 2 k' made).heap
      rw [kept] at length
      exact absurd length (by decide)

end Results

end Xinu.Kernel.PoolFailures
