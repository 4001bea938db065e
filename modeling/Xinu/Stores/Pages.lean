import Mathlib.Algebra.GroupWithZero.Nat
import Xinu.Lib.Interleaving
import Xinu.Paging.System

/-!
# Pages of the backing stores

`read_bs` and `write_bs` move a page in eight blocks of the disk. A block that the device fails to
move is tried again, and all blocks of a call share its attempts. `read_bs` numbers the blocks with
an `int` and `write_bs` with a `uint32`.
-/

namespace Xinu.Stores.Pages

open Xinu.Kernel.State Xinu.Kernel.Entry Xinu.Kernel.Semaphore Xinu.Lib.StateError
open Xinu.Lib.Interleaving Xinu.Paging.Address Xinu.Paging.BackingStore Xinu.Paging.System

set_option autoImplicit false

section Definitions

def rdBlksiz : Nat := 512

abbrev Block := Fin rdBlksiz → Byte

/-- The kernel with the disk and the memory of the machine in bytes. Of the kernel's state the calls
use the table of the stores, the server and its semaphore. -/
structure Machine where
  st : St
  disk : Nat → Block
  memory : Nat → Byte

/-- `memcpy(dst, buf, RD_BLKSIZ)` -/
def copyTo (memory : Nat → Byte) (dst : Nat) (buf : Block) : Nat → Byte := fun addr =>
  if inside : (addr + word32 - dst % word32) % word32 < rdBlksiz ∧ addr < word32 then
    buf ⟨(addr + word32 - dst % word32) % word32, inside.1⟩
  else memory addr

/-- `memcpy(buf, src, RD_BLKSIZ)` -/
def copyFrom (memory : Nat → Byte) (src : Nat) : Block := fun i => memory ((src + i) % word32)

/-- The loop around `read` and `write` of the device, which fails `failures` times before it moves
the block. It panics when the attempts are used up. -/
def retries : Nat → Int → Option Int
  | 0, attempts => some attempts
  | failures + 1, attempts => if attempts = 0 then none else retries failures (attempts - 1)

/-- `(bs_id * RD_PAGES_PER_BS + page) * 8`, which is a `uint32` as `page` is one. -/
def pageBlocks (bsId : Int) (page : Nat) : Nat :=
  (((bsId * rdPagesPerBs) % word32).toNat + page) % word32 * 8 % word32

/-- The loop of `read_bs` from block `i` on. The device gets `rd_blk + i` as a `uint32`. -/
def readBlocks (disk : Nat → Block) (dst : Nat) (rdBlk : Int) (fails : Nat → Nat) :
    Nat → Nat → Int → (Nat → Byte) → Option (Nat → Byte)
  | 0, _, _, memory => some memory
  | more + 1, i, attempts, memory => do
      let attempts ← retries (fails i) attempts
      readBlocks disk dst rdBlk fails more (i + 1) attempts
        (copyTo memory (dst + i * rdBlksiz) (disk ((rdBlk + i) % word32).toNat))

/-- The loop of `write_bs` from block `i` on -/
def writeBlocks (memory : Nat → Byte) (src rdBlk : Nat) (fails : Nat → Nat) :
    Nat → Nat → Int → (Nat → Block) → Option (Nat → Block)
  | 0, _, _, disk => some disk
  | more + 1, i, attempts, disk => do
      let attempts ← retries (fails i) attempts
      writeBlocks memory src rdBlk fails more (i + 1) attempts
        (Function.update disk ((rdBlk + i) % word32) (copyFrom memory (src + i * rdBlksiz)))

/-- What `read_bs` and `write_bs` test before they move a page -/
def checks (bsId : Int) (page : Nat) : Call Int := do
  let s ← get
  if s.ker.pageServerActive = false then pure sysErr
  else if maxId < bsId ∨ bsId < minId then pure sysErr
  else do
    wait .bsSem
    let s ← get
    if BadStorePage s.ker bsId page then do
      signal .bsSem
      pure sysErr
    else do
      signal .bsSem
      pure ok

/-- Nothing for a call that blocks or panics -/
def readBs (x : Machine) (dst : Nat) (bsId : Int) (page : Nat) (fails : Nat → Nat) :
    Option (Int × Machine) :=
  match checks bsId page x.st with
  | .error _ _ => none
  | .ok status st =>
      if status = sysErr then some (sysErr, { x with st := st })
      else (readBlocks x.disk dst (toInt32 (pageBlocks bsId page)) fails 8 0 10 x.memory).map
        fun memory => (ok, { x with st := st, memory := memory })

def writeBs (x : Machine) (src : Nat) (bsId : Int) (page : Nat) (fails : Nat → Nat) :
    Option (Int × Machine) :=
  match checks bsId page x.st with
  | .error _ _ => none
  | .ok status st =>
      if status = sysErr then some (sysErr, { x with st := st })
      else (writeBlocks x.memory src (pageBlocks bsId page) fails 8 0 10 x.disk).map
        fun disk => (ok, { x with st := st, disk := disk })

inductive PageCall where
  | getBs (bsId : Int) (npages : Nat)
  | allocateBs (npages : Nat)
  | releaseBs (bsId : Int)
  | deallocateBs (store : Int)
  | readBs (dst : Nat) (bsId : Int) (page : Nat) (fails : Nat → Nat)
  | writeBs (src : Nat) (bsId : Int) (page : Nat) (fails : Nat → Nat)
  | store (addr : Nat) (value : Byte)

/-- What the programs have given to the last call of `write_bs` for each page that returned `OK` -/
structure Written where
  machine : Machine
  written : Int × Nat → Option (Nat → Byte)

def tableCall (w : Written) (call : Call Int) : Option Written :=
  match call w.machine.st with
  | .ok _ st => some { w with machine := { w.machine with st := st } }
  | .error _ _ => none

def act (w : Written) : PageCall → Option Written
  | .getBs bsId npages => tableCall w (Paging.BackingStore.getBs bsId npages)
  | .allocateBs npages => tableCall w (Paging.BackingStore.allocateBs npages)
  | .releaseBs bsId => tableCall w (Paging.BackingStore.releaseBs bsId)
  | .deallocateBs store => tableCall w (Paging.BackingStore.deallocateBs store)
  | .readBs dst bsId page fails =>
      (readBs w.machine dst bsId page fails).map fun result => { w with machine := result.2 }
  | .writeBs src bsId page fails =>
      (writeBs w.machine src bsId page fails).map fun result =>
        { machine := result.2
          written := if result.1 = ok then
              Function.update w.written (bsId, page)
                (some fun j => w.machine.memory ((src + j) % word32))
            else w.written }
  | .store addr value => some { w with
      machine := { w.machine with memory := Function.update w.machine.memory addr value } }

/-- No store is open, and nothing has been written. -/
def Started (w : Written) : Prop :=
  (∀ store < maxBsEntries, (w.machine.st.ker.bstab store).isopen = false) ∧
    w.written = fun _ => none

/-- A page of memory holds the bytes, and the rest of the memory is as it was. -/
structure Copied (dst : Nat) (bytes memory memory' : Nat → Byte) : Prop where
  page : ∀ j < nbpg, memory' ((dst + j) % word32) = bytes j
  rest : ∀ addr, (∀ j < nbpg, addr ≠ (dst + j) % word32) → memory' addr = memory addr

/-- The device fails in a call not more often than there are attempts. -/
def Tolerated (fails : Nat → Nat) : Prop := ((List.range 8).map fails).sum ≤ 10

end Definitions

section Blocks

variable {disk disk' : Nat → Block} {memory memory' : Nat → Byte} {fails : Nat → Nat}
  {dst src rdBlk more i : Nat} {attempts left : Int}

/-- The place of an address in what is copied to `dst` -/
def offset (dst addr : Nat) : Nat := (addr + word32 - dst % word32) % word32

/-- The place of an address in its block -/
def inBlock (dst addr : Nat) : Fin rdBlksiz := ⟨offset dst addr % 512, Nat.mod_lt _ (by decide)⟩

theorem copy_to_at {addr : Nat} (buf : Block) (small : addr < word32) (low : i < 8) :
    copyTo memory (dst + i * rdBlksiz) buf addr =
      if offset dst addr / 512 = i then buf (inBlock dst addr) else memory addr := by
  have place : (addr + word32 - (dst + i * rdBlksiz) % word32) % word32 =
      (offset dst addr + word32 - i * 512) % word32 := by
    unfold offset rdBlksiz word32 at *
    omega
  have bound : offset dst addr < word32 := Nat.mod_lt _ (by decide)
  unfold copyTo
  by_cases inside : offset dst addr / 512 = i
  · have exact : (addr + word32 - (dst + i * rdBlksiz) % word32) % word32 =
        offset dst addr % 512 := by
      rw [place]
      unfold word32 at *
      omega
    rw [dif_pos ⟨by rw [exact]; exact Nat.mod_lt _ (by decide), small⟩, if_pos inside]
    congr 1
    exact Fin.ext exact
  · have outside : ¬(addr + word32 - (dst + i * rdBlksiz) % word32) % word32 < rdBlksiz := by
      rw [place]
      unfold rdBlksiz word32 at *
      omega
    rw [dif_neg fun both => outside both.1, if_neg inside]

theorem retries_eq (failures : Nat) (enough : (failures : Int) ≤ attempts) :
    retries failures attempts = some (attempts - failures) := by
  induction failures generalizing attempts with
  | zero => simp [retries]
  | succ failures induction =>
      push_cast at enough
      rw [retries, if_neg (by omega), induction (by omega)]
      congr 1
      push_cast
      omega

/-- The addresses of the page are in order from `dst` on. -/
theorem offset_of {j : Nat} (inPage : j < nbpg) : offset dst ((dst + j) % word32) = j := by
  unfold offset
  unfold nbpg at inPage
  unfold word32
  omega

theorem offset_back {addr : Nat} (small : addr < word32) :
    addr = (dst + offset dst addr) % word32 := by
  unfold offset
  unfold word32 at *
  omega

theorem read_blocks_result (rdBlk : Int) (below : i + more ≤ 8) {addr : Nat}
    (small : addr < word32)
    (did : readBlocks disk dst rdBlk fails more i attempts memory = some memory') :
    memory' addr = if i ≤ offset dst addr / 512 ∧ offset dst addr / 512 < i + more then
        disk ((rdBlk + (offset dst addr / 512 : Nat)) % word32).toNat (inBlock dst addr)
      else memory addr := by
  induction more generalizing i attempts memory with
  | zero =>
      obtain rfl := Option.some.inj did
      rw [if_neg (by omega)]
  | succ more induction =>
      obtain ⟨remaining, _, did⟩ := Option.bind_eq_some_iff.mp did
      rw [induction (by omega) did, copy_to_at _ small (by omega)]
      by_cases later : i + 1 ≤ offset dst addr / 512 ∧ offset dst addr / 512 < i + 1 + more
      · rw [if_pos later, if_pos (by omega)]
      · rw [if_neg later]
        by_cases here : offset dst addr / 512 = i
        · rw [if_pos here, if_pos (by omega), here]
        · rw [if_neg here, if_neg (by omega)]

theorem read_blocks_beyond (rdBlk : Int) {addr : Nat} (large : ¬addr < word32)
    (did : readBlocks disk dst rdBlk fails more i attempts memory = some memory') :
    memory' addr = memory addr := by
  induction more generalizing i attempts memory with
  | zero =>
      obtain rfl := Option.some.inj did
      rfl
  | succ more induction =>
      obtain ⟨remaining, _, did⟩ := Option.bind_eq_some_iff.mp did
      rw [induction did, copyTo, dif_neg fun both => large both.2]

theorem write_blocks_result (below : i + more ≤ 8) (fits : rdBlk + 8 ≤ word32) (b : Nat)
    (did : writeBlocks memory src rdBlk fails more i attempts disk = some disk') :
    disk' b = if rdBlk + i ≤ b ∧ b < rdBlk + i + more then
        copyFrom memory (src + (b - rdBlk) * rdBlksiz)
      else disk b := by
  induction more generalizing i attempts disk with
  | zero =>
      obtain rfl := Option.some.inj did
      rw [if_neg (by omega)]
  | succ more induction =>
      obtain ⟨remaining, _, did⟩ := Option.bind_eq_some_iff.mp did
      have place : (rdBlk + i) % word32 = rdBlk + i := Nat.mod_eq_of_lt (by omega)
      rw [induction (by omega) did, place]
      by_cases later : rdBlk + (i + 1) ≤ b ∧ b < rdBlk + (i + 1) + more
      · rw [if_pos later, if_pos (by omega)]
      · rw [if_neg later]
        by_cases here : b = rdBlk + i
        · rw [here, Function.update_self, if_pos (by omega), Nat.add_sub_cancel_left]
        · rw [Function.update_of_ne here, if_neg (by omega)]

/-- A device that fails as often as it may leaves attempts for the blocks behind. -/
theorem attempts_split (enough : (((List.range' i (more + 1)).map fails).sum : Int) ≤ attempts) :
    (fails i : Int) ≤ attempts ∧
      (((List.range' (i + 1) more).map fails).sum : Int) ≤ attempts - fails i := by
  rw [List.range'_succ, List.map_cons, List.sum_cons, Int.natCast_add] at enough
  have rest := Int.natCast_nonneg ((List.range' (i + 1) more).map fails).sum
  exact ⟨Int.le_trans (Int.le_add_of_nonneg_right rest) enough, Int.le_sub_left_of_add_le enough⟩

theorem read_blocks_return (rdBlk : Int)
    (enough : (((List.range' i more).map fails).sum : Int) ≤ attempts) :
    (readBlocks disk dst rdBlk fails more i attempts memory).isSome := by
  induction more generalizing i attempts memory with
  | zero => rfl
  | succ more induction =>
      obtain ⟨first, rest⟩ := attempts_split enough
      rw [readBlocks, retries_eq (fails i) first]
      exact induction rest

theorem write_blocks_return
    (enough : (((List.range' i more).map fails).sum : Int) ≤ attempts) :
    (writeBlocks memory src rdBlk fails more i attempts disk).isSome := by
  induction more generalizing i attempts disk with
  | zero => rfl
  | succ more induction =>
      obtain ⟨first, rest⟩ := attempts_split enough
      rw [writeBlocks, retries_eq (fails i) first]
      exact induction rest

end Blocks

section Numbers

variable {bsId bsId' : Int} {page page' : Nat}

/-- A page that a store can have -/
def InStore (bsId : Int) (page : Nat) : Prop :=
  minId ≤ bsId ∧ bsId ≤ maxId ∧ page < maxPagesPerBs

theorem page_blocks_eq (inStore : InStore bsId page) : pageBlocks bsId page = pageBlock bsId page ∧
    pageBlock bsId page + 8 ≤ 13120 := by
  unfold InStore minId maxId maxPagesPerBs at inStore
  unfold pageBlocks pageBlock rdPagesPerBs word32
  omega

/-- The `int` of `read_bs` is the `uint32` of `write_bs`. -/
theorem read_number (inStore : InStore bsId page) {j : Nat} (inPage : j < nbpg) :
    ((toInt32 (pageBlocks bsId page) + (j / 512 : Nat)) % (word32 : Int)).toNat =
      pageBlock bsId page + j / 512 := by
  obtain ⟨number, small⟩ := page_blocks_eq inStore
  have value : toInt32 (pageBlocks bsId page) = pageBlock bsId page := by
    rw [number]
    exact if_pos (by omega)
  rw [value]
  unfold nbpg at inPage
  unfold word32
  omega

theorem pages_apart (inStore : InStore bsId page) (inStore' : InStore bsId' page')
    (differ : (bsId, page) ≠ (bsId', page')) :
    pageBlock bsId page + 8 ≤ pageBlock bsId' page' ∨
      pageBlock bsId' page' + 8 ≤ pageBlock bsId page := by
  unfold InStore minId maxId maxPagesPerBs at *
  unfold pageBlock rdPagesPerBs
  by_contra overlap
  refine differ (Prod.ext ?_ ?_)
  · dsimp only
    omega
  · dsimp only
    omega

end Numbers

section Tables

variable {α β : Type} {s final : St}

/-- No open store has more pages than a store may have. -/
def Small (s : St) : Prop :=
  ∀ store < maxBsEntries, (s.ker.bstab store).isopen = true →
    (s.ker.bstab store).npages ≤ maxPagesPerBs

/-- A call that returns leaves the stores small. -/
def KeepsSmall (action : Call α) : Prop :=
  ∀ s value final, Small s → action s = .ok value final → Small final

theorem small_same (small : Small s) (same : final.ker.bstab = s.ker.bstab) : Small final := by
  unfold Small
  rw [same]
  exact small

theorem small_pure (value : α) : KeepsSmall (pure value : Call α) := by
  intro s value final small ran
  cases ran
  exact small

theorem small_keeps {action : Call α} (keeps : Keeps (fun s : St => s.ker.bstab) action) :
    KeepsSmall action := fun _ _ _ small ran => small_same small (keeps_ok keeps ran)

theorem small_bind {first : Call α} {next : α → Call β} (smallFirst : KeepsSmall first)
    (smallNext : ∀ value, KeepsSmall (next value)) : KeepsSmall (first >>= next) := by
  intro s result final small ran
  obtain ⟨value, middle, firstRan, ran⟩ := bind_ok_inv ran
  exact smallNext value middle result final (smallFirst s value middle small firstRan) ran

theorem small_get {next : St → Call β} (smallNext : ∀ s, KeepsSmall (next s)) :
    KeepsSmall (get >>= next) := fun s result final small ran => smallNext s s result final small ran

theorem small_ite {condition : Prop} [Decidable condition] {yes no : Call α}
    (smallYes : KeepsSmall yes) (smallNo : ¬condition → KeepsSmall no) :
    KeepsSmall (if condition then yes else no) := by
  split
  · exact smallYes
  · exact smallNo ‹_›

theorem keeps_wait (sem : Sem) : Keeps (fun s : St => s.ker.bstab) (wait sem) :=
  wait_keeps sem fun _ _ _ => rfl

theorem keeps_signal (sem : Sem) : Keeps (fun s : St => s.ker.bstab) (signal sem) :=
  signal_keeps sem fun _ _ _ => rfl

theorem small_wait (sem : Sem) : KeepsSmall (wait sem) := small_keeps (keeps_wait sem)

theorem small_signal (sem : Sem) : KeepsSmall (signal sem) := small_keeps (keeps_signal sem)

/-- One store is changed to one that is closed or small. -/
theorem small_store (store : Nat) {change : BsEntry → BsEntry}
    (fits : ∀ entry, (change entry).isopen = true → (entry.isopen = true →
      entry.npages ≤ maxPagesPerBs) → (change entry).npages ≤ maxPagesPerBs) :
    KeepsSmall (modifyKer fun ker => ker.setStore store change) := by
  intro s value final small ran
  cases ran
  intro other bound isOpen
  change (Function.update s.ker.bstab store _ other).isopen = true at isOpen
  change (Function.update s.ker.bstab store _ other).npages ≤ maxPagesPerBs
  by_cases same : other = store
  · subst same
    rw [Function.update_self] at isOpen ⊢
    exact fits _ isOpen (small other bound)
  · rw [Function.update_of_ne same] at isOpen ⊢
    exact small other bound isOpen

theorem small_psinit : KeepsSmall psinit := by
  refine small_bind (small_wait _) fun _ => small_get fun s => small_ite (small_pure _) fun _ => ?_
  refine small_bind (small_keeps (keeps_modify fun _ => rfl)) fun _ => small_bind ?_ fun _ =>
    small_bind (small_signal _) fun _ => small_pure _
  intro s value final small ran
  cases ran
  intro store bound isOpen
  simp only [if_pos bound] at isOpen
  cases isOpen

theorem small_get_bs (bsId : Int) (npages : Nat) : KeepsSmall (getBs bsId npages) := by
  have opens : ∀ s : St, KeepsSmall (if maxId < bsId ∨ bsId < minId ∨ npages = 0 ∨
      maxPagesPerBs < npages then pure sysErr
    else do
      wait .bsSem
      let s ← get
      if (s.ker.bstab bsId.toNat).isopen then do
        signal .bsSem
        pure sysErr
      else do
        modifyKer fun ker => ker.setStore bsId.toNat fun store =>
          { store with isopen := true, npages := npages }
        signal .bsSem
        pure (npages : Int) : Call Int) := by
    intro s
    refine small_ite (small_pure _) fun inside => small_bind (small_wait _) fun _ =>
      small_get fun s => small_ite ?_ fun _ => ?_
    · exact small_bind (small_signal _) fun _ => small_pure _
    · refine small_bind (small_store _ fun entry _ _ => ?_) fun _ =>
        small_bind (small_signal _) fun _ => small_pure _
      dsimp only
      omega
  refine small_get fun s => small_ite ?_ fun _ => opens s
  exact small_bind small_psinit fun _ => opens s

theorem small_release_bs (bsId : Int) : KeepsSmall (releaseBs bsId) := by
  refine small_get fun s => small_ite (small_pure _) fun _ => small_bind (small_wait _) fun _ =>
    small_get fun s => small_ite ?_ fun _ => ?_
  · exact small_bind (small_signal _) fun _ => small_pure _
  · refine small_bind (small_store _ fun entry isOpen _ => ?_) fun _ =>
      small_bind (small_signal _) fun _ => small_pure _
    cases isOpen

theorem small_allocate_from (npages fuel i : Nat) :
    KeepsSmall (allocateBsFrom npages fuel i) := by
  induction fuel generalizing i with
  | zero => exact small_pure _
  | succ fuel induction =>
      refine small_get fun s => ?_
      split_ifs with isFree
      · refine small_bind (small_get_bs _ _) fun opened => small_ite (induction _) fun _ => ?_
        exact small_bind (small_store _ fun entry isOpen small => small isOpen) fun _ =>
          small_pure _
      · exact induction _

theorem small_allocate_bs (npages : Nat) : KeepsSmall (allocateBs npages) := by
  refine small_get fun s => small_ite ?_ fun _ => small_allocate_from _ _ _
  exact small_bind small_psinit fun _ => small_allocate_from _ _ _

theorem small_deallocate_bs (store : Int) : KeepsSmall (deallocateBs store) := by
  refine small_ite (small_pure _) fun _ => small_get fun s => small_ite (small_pure _) fun _ =>
    small_ite (small_pure _) fun _ => small_bind (small_release_bs _) fun _ => ?_
  exact small_bind (small_store _ fun entry isOpen small => small isOpen) fun _ => small_pure _

/-- What `read_bs` and `write_bs` know behind their tests -/
theorem checks_ok {bsId : Int} {page : Nat} {status : Int}
    (ran : checks bsId page s = .ok status final) : final.ker.bstab = s.ker.bstab ∧
      (status = sysErr ∨ status = ok ∧ minId ≤ bsId ∧ bsId ≤ maxId ∧
        (s.ker.bstab bsId.toNat).isopen = true ∧ page < (s.ker.bstab bsId.toNat).npages) := by
  unfold checks at ran
  rw [get_bind] at ran
  split_ifs at ran with off outside
  · cases ran
    exact ⟨rfl, Or.inl rfl⟩
  · cases ran
    exact ⟨rfl, Or.inl rfl⟩
  · obtain ⟨_, held, waited, ran⟩ := bind_ok_inv ran
    have before : held.ker.bstab = s.ker.bstab := keeps_ok (keeps_wait _) waited
    rw [get_bind] at ran
    split_ifs at ran with bad
    · obtain ⟨_, released, signalled, ran⟩ := bind_ok_inv ran
      have after : released.ker.bstab = held.ker.bstab := keeps_ok (keeps_signal _) signalled
      cases ran
      exact ⟨after.trans before, Or.inl rfl⟩
    · obtain ⟨_, released, signalled, ran⟩ := bind_ok_inv ran
      have after : released.ker.bstab = held.ker.bstab := keeps_ok (keeps_signal _) signalled
      cases ran
      unfold BadStorePage at bad
      rw [before] at bad
      obtain ⟨isOpen, inside⟩ := not_or.mp bad
      exact ⟨after.trans before,
        Or.inr ⟨rfl, by omega, by omega, by simpa using isOpen, by omega⟩⟩

theorem small_page (small : Small s) {bsId : Int} {page : Nat} (above : minId ≤ bsId)
    (below : bsId ≤ maxId) (isOpen : (s.ker.bstab bsId.toNat).isopen = true)
    (inside : page < (s.ker.bstab bsId.toNat).npages) : InStore bsId page := by
  have bound : bsId.toNat < maxBsEntries := by
    unfold minId at above
    unfold maxId at below
    unfold maxBsEntries
    omega
  have most := small _ bound isOpen
  exact ⟨above, below, by omega⟩

end Tables

section Calls

variable {x y : Machine} {status : Int} {dst src page : Nat} {bsId : Int} {fails : Nat → Nat}

/-- `read_bs` that returns -/
theorem read_bs_ok (did : readBs x dst bsId page fails = some (status, y)) :
    y.disk = x.disk ∧ y.st.ker.bstab = x.st.ker.bstab ∧ (status = ok →
      (∃ st, checks bsId page x.st = .ok ok st) ∧
        readBlocks x.disk dst (toInt32 (pageBlocks bsId page)) fails 8 0 10 x.memory =
          some y.memory) := by
  unfold readBs at did
  cases ran : checks bsId page x.st with
  | error stop st =>
      rw [ran] at did
      cases did
  | ok result st =>
      rw [ran] at did
      obtain ⟨table, outcome⟩ := checks_ok ran
      dsimp only at did
      split_ifs at did with failed
      · cases did
        exact ⟨rfl, table, fun accepted => absurd accepted (by decide)⟩
      · obtain ⟨memory, moved, same⟩ := Option.map_eq_some_iff.mp did
        cases same
        obtain ⟨accepted, _⟩ := outcome.resolve_left failed
        exact ⟨rfl, table, fun _ => ⟨⟨st, by rw [accepted]⟩, moved⟩⟩

/-- `write_bs` that returns -/
theorem write_bs_ok (did : writeBs x src bsId page fails = some (status, y)) :
    y.memory = x.memory ∧ y.st.ker.bstab = x.st.ker.bstab ∧
      (status = sysErr ∧ y.disk = x.disk ∨ status = ok ∧
        (∃ st, checks bsId page x.st = .ok ok st) ∧
          writeBlocks x.memory src (pageBlocks bsId page) fails 8 0 10 x.disk = some y.disk) := by
  unfold writeBs at did
  cases ran : checks bsId page x.st with
  | error stop st =>
      rw [ran] at did
      cases did
  | ok result st =>
      rw [ran] at did
      obtain ⟨table, outcome⟩ := checks_ok ran
      dsimp only at did
      split_ifs at did with failed
      · cases did
        exact ⟨rfl, table, Or.inl ⟨rfl, rfl⟩⟩
      · obtain ⟨disk, moved, same⟩ := Option.map_eq_some_iff.mp did
        cases same
        obtain ⟨accepted, _⟩ := outcome.resolve_left failed
        exact ⟨rfl, table, Or.inr ⟨rfl, ⟨st, by rw [accepted]⟩, moved⟩⟩

theorem checks_page (small : Small x.st) {st : St} (ran : checks bsId page x.st = .ok ok st) :
    InStore bsId page := by
  obtain ⟨_, failed | ⟨_, above, below, isOpen, inside⟩⟩ := checks_ok ran
  · exact absurd failed (by decide)
  · exact small_page small above below isOpen inside

theorem tolerated_sum (tolerated : Tolerated fails) :
    (((List.range' 0 8).map fails).sum : Int) ≤ 10 := by
  unfold Tolerated at tolerated
  rw [List.range_eq_range'] at tolerated
  exact_mod_cast tolerated

theorem read_bs_returns {st : St} (ran : checks bsId page x.st = .ok ok st)
    (tolerated : Tolerated fails) : ∃ y, readBs x dst bsId page fails = some (ok, y) := by
  obtain ⟨memory, moved⟩ := Option.isSome_iff_exists.mp
    (@read_blocks_return x.disk x.memory fails dst 8 0 10 (toInt32 (pageBlocks bsId page))
      (tolerated_sum tolerated))
  refine ⟨{ x with st := st, memory := memory }, ?_⟩
  unfold readBs
  rw [ran]
  dsimp only
  rw [if_neg (by decide), moved]
  rfl

theorem write_bs_returns {st : St} (ran : checks bsId page x.st = .ok ok st)
    (tolerated : Tolerated fails) : ∃ y, writeBs x src bsId page fails = some (ok, y) := by
  obtain ⟨disk, moved⟩ := Option.isSome_iff_exists.mp
    (@write_blocks_return x.disk x.memory fails src (pageBlocks bsId page) 8 0 10
      (tolerated_sum tolerated))
  refine ⟨{ x with st := st, disk := disk }, ?_⟩
  unfold writeBs
  rw [ran]
  dsimp only
  rw [if_neg (by decide), moved]
  rfl

end Calls

section Runs

variable {w w' : Written} {call : PageCall}

/-- The disk has the bytes of a page. -/
def OnDisk (disk : Nat → Block) (bsId : Int) (page : Nat) (bytes : Nat → Byte) : Prop :=
  ∀ j < nbpg, disk (pageBlock bsId page + j / 512) ⟨j % 512, Nat.mod_lt _ (by decide)⟩ = bytes j

/-- Every page that was written is on the disk. -/
structure Stored (w : Written) : Prop where
  small : Small w.machine.st
  pages : ∀ bsId page bytes, w.written (bsId, page) = some bytes →
    InStore bsId page ∧ OnDisk w.machine.disk bsId page bytes

theorem written_page {x y : Machine} {src page : Nat} {bsId : Int} {fails : Nat → Nat}
    (inStore : InStore bsId page)
    (moved : writeBlocks x.memory src (pageBlocks bsId page) fails 8 0 10 x.disk = some y.disk) :
    OnDisk y.disk bsId page (fun j => x.memory ((src + j) % word32)) ∧
      ∀ bsId' page' bytes, InStore bsId' page' → (bsId', page') ≠ (bsId, page) →
        OnDisk x.disk bsId' page' bytes → OnDisk y.disk bsId' page' bytes := by
  obtain ⟨number, most⟩ := page_blocks_eq inStore
  rw [number] at moved
  have fits : pageBlock bsId page + 8 ≤ word32 := by
    unfold word32
    omega
  refine ⟨fun j inPage => ?_, fun bsId' page' bytes inStore' differ onDisk j inPage => ?_⟩
  · have block : j / 512 < 8 := by
      unfold nbpg at inPage
      omega
    rw [write_blocks_result (by omega) fits _ moved, if_pos (by omega), Nat.add_sub_cancel_left,
      copyFrom]
    have place : src + j / 512 * rdBlksiz + j % 512 = src + j := by
      unfold rdBlksiz
      omega
    dsimp only
    rw [place]
  · have block : j / 512 < 8 := by
      unfold nbpg at inPage
      omega
    have apart := pages_apart inStore' inStore differ
    rw [write_blocks_result (by omega) fits _ moved, if_neg (by omega)]
    exact onDisk j inPage

theorem stored_table {call : Call Int} (stored : Stored w) (keeps : KeepsSmall call)
    (did : tableCall w call = some w') : Stored w' := by
  unfold tableCall at did
  cases ran : call w.machine.st with
  | error stop st =>
      rw [ran] at did
      cases did
  | ok result st =>
      rw [ran] at did
      obtain rfl := Option.some.inj did
      exact ⟨keeps _ _ _ stored.small ran, stored.pages⟩

theorem stored_step (stored : Stored w) (did : act w call = some w') : Stored w' := by
  cases call with
  | getBs bsId npages => exact stored_table stored (small_get_bs bsId npages) did
  | allocateBs npages => exact stored_table stored (small_allocate_bs npages) did
  | releaseBs bsId => exact stored_table stored (small_release_bs bsId) did
  | deallocateBs store => exact stored_table stored (small_deallocate_bs store) did
  | store addr value =>
      obtain rfl := Option.some.inj did
      exact ⟨stored.small, stored.pages⟩
  | readBs dst bsId page fails =>
      obtain ⟨⟨status, y⟩, read, rfl⟩ := Option.map_eq_some_iff.mp did
      obtain ⟨disk, table, _⟩ := read_bs_ok read
      refine ⟨small_same stored.small table, fun bsId page bytes written => ?_⟩
      dsimp only
      rw [disk]
      exact stored.pages bsId page bytes written
  | writeBs src bsId page fails =>
      obtain ⟨⟨status, y⟩, wrote, rfl⟩ := Option.map_eq_some_iff.mp did
      obtain ⟨_, table, ⟨rfl, disk⟩ | ⟨rfl, ⟨st, ran⟩, moved⟩⟩ := write_bs_ok wrote
      · refine ⟨small_same stored.small table, fun bsId page bytes written => ?_⟩
        dsimp only at written ⊢
        rw [if_neg (by decide)] at written
        rw [disk]
        exact stored.pages bsId page bytes written
      · have inStore := checks_page stored.small ran
        obtain ⟨here, others⟩ := written_page inStore moved
        refine ⟨small_same stored.small table, fun bsId' page' bytes written => ?_⟩
        dsimp only at written ⊢
        rw [if_pos rfl] at written
        by_cases same : (bsId', page') = (bsId, page)
        · rw [same, Function.update_self] at written
          obtain rfl := Option.some.inj written
          cases same
          exact ⟨inStore, here⟩
        · rw [Function.update_of_ne same] at written
          obtain ⟨inStore', onDisk⟩ := stored.pages bsId' page' bytes written
          exact ⟨inStore', others bsId' page' bytes inStore' same onDisk⟩

theorem stored_reached (run : Reached act Started (fun _ _ => True) w) : Stored w := by
  refine reached_invariant run ?_ fun w w' call stored _ did => stored_step stored did
  rintro w ⟨closed, none⟩
  refine ⟨fun store bound isOpen => ?_, fun bsId page bytes written => ?_⟩
  · rw [closed store bound] at isOpen
    cases isOpen
  · rw [none] at written
    cases written

/-- A page that is on the disk is copied to memory. -/
theorem read_page {x y : Machine} {dst page : Nat} {bsId : Int} {fails : Nat → Nat}
    {bytes : Nat → Byte} (inStore : InStore bsId page) (onDisk : OnDisk x.disk bsId page bytes)
    (moved : readBlocks x.disk dst (toInt32 (pageBlocks bsId page)) fails 8 0 10 x.memory =
      some y.memory) : Copied dst bytes x.memory y.memory := by
  refine ⟨fun j inPage => ?_, fun addr outside => ?_⟩
  · have small : (dst + j) % word32 < word32 := Nat.mod_lt _ (by decide)
    have place : offset dst ((dst + j) % word32) = j := offset_of inPage
    have same : inBlock dst ((dst + j) % word32) = ⟨j % 512, Nat.mod_lt _ (by decide)⟩ := by
      unfold inBlock
      exact Fin.ext (congrArg (· % 512) place)
    have block : j / 512 < 8 := by
      unfold nbpg at inPage
      omega
    have result := read_blocks_result _ (by omega) small moved
    rw [same, place, if_pos (by omega), read_number inStore inPage] at result
    rw [result]
    exact onDisk j inPage
  · by_cases small : addr < word32
    · rw [read_blocks_result _ (by omega) small moved, if_neg]
      intro inside
      refine outside (offset dst addr) ?_ (offset_back small)
      unfold nbpg
      omega
    · exact read_blocks_beyond _ small moved

end Runs

section Results

variable {w : Written}

/-- In every run a `read_bs` that returns `OK` copies what the last `write_bs` of that page that
returned `OK` was given, and both return `OK` when the device fails at most ten times. -/
theorem pages_are_stored (run : Reached act Started (fun _ _ => True) w) :
    (∀ dst bsId page fails y bytes, readBs w.machine dst bsId page fails = some (ok, y) →
      w.written (bsId, page) = some bytes → Copied dst bytes w.machine.memory y.memory) ∧
    ∀ bsId page st, checks bsId page w.machine.st = .ok ok st → ∀ addr fails, Tolerated fails →
      (∃ y, readBs w.machine addr bsId page fails = some (ok, y)) ∧
        ∃ y, writeBs w.machine addr bsId page fails = some (ok, y) := by
  have stored := stored_reached run
  refine ⟨fun dst bsId page fails y bytes read written => ?_,
    fun bsId page st ran addr fails tolerated =>
      ⟨read_bs_returns ran tolerated, write_bs_returns ran tolerated⟩⟩
  obtain ⟨inStore, onDisk⟩ := stored.pages bsId page bytes written
  exact read_page inStore onDisk ((read_bs_ok read).2.2 rfl).2

/-- A machine that has just been switched on -/
def switchedOn : Written := ⟨⟨blankMachine, fun _ _ => 0, fun _ => 0⟩, fun _ => none⟩

theorem switched_on_started : Started switchedOn := ⟨fun _ _ => rfl, rfl⟩

theorem page_is_stored : ∃ w y bytes, takeEvents act (fun _ _ => True) [.getBs 0 1,
    .store 4096 7, .writeBs 4096 0 0 fun _ => 1, .store 4096 8] switchedOn = some w ∧
      readBs w.machine 8192 0 0 (fun _ => 0) = some (ok, y) ∧ bytes 0 = 7 ∧
        Copied 8192 bytes w.machine.memory y.memory := by
  obtain ⟨w, took⟩ := Option.isSome_iff_exists.mp (show (takeEvents act (fun _ _ => True)
    [.getBs 0 1, .store 4096 7, .writeBs 4096 0 0 fun _ => 1, .store 4096 8] switchedOn).isSome =
      true by decide +kernel)
  have run := take_events (.start switched_on_started) took
  have facts : (returnedWith ok (checks 0 0 w.machine.st)) = true ∧
      ∃ bytes : Nat → Byte, w.written (0, 0) = some bytes ∧ bytes 0 = 7 := by
    cases took
    exact ⟨by decide +kernel, _, rfl, by decide +kernel⟩
  obtain ⟨came, bytes, written, first⟩ := facts
  have results := pages_are_stored run
  obtain ⟨⟨y, read⟩, _⟩ := results.2 0 0 _ (returned_with came) 8192 (fun _ => 0)
    (by unfold Tolerated; decide)
  exact ⟨w, y, bytes, took, read, first, results.1 8192 0 0 _ y bytes read written⟩

end Results

end Xinu.Stores.Pages
