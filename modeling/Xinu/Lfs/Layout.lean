import Xinu.Lfs.Position

/-!
# Files on the disk

What holds of all files and control blocks between two calls: the chain of each file has the
blocks that its size needs, and a control block inside of a block has the block of its position.
-/

namespace Xinu.Lfs.Layout

open Xinu.Lfs.Device Xinu.Lfs.Accounts Xinu.Lfs.Storage Xinu.Lfs.Setup Xinu.Lfs.Position
open Xinu.Lib.SingleList

set_option autoImplicit false

/-- The blocks of a file are those in front of its size. -/
structure Sized (v : Ledger) (f size : Nat) : Prop where
  blocks : ∀ k, k < (v.chain f).length ↔ lfIdata * k < size
  data : ∀ k id j, (v.chain f)[k]? = some id → j < lfIblen →
    ((v.slot id j).isSome = true ↔ lfIdata * k + lfBlksiz * j < size)

structure Files (area : Area) (v : Ledger) (im : Image) (s : FileSystem) (size : Nat → Nat) :
    Prop where
  sound : Sound area v
  stored : Stored area none v im s
  file : ∀ f < s.lfDir.lfdNfiles, FileOk v im s f
  sized : ∀ f < s.lfDir.lfdNfiles, Sized v f (size f)
  unused : ∀ f, s.lfDir.lfdNfiles ≤ f → v.chain f = []
  entry : ∀ dev, (s.lfltab dev).lfstate = .used → (s.lfltab dev).lfdirptr < s.lfDir.lfdNfiles
  pos : ∀ dev, (s.lfltab dev).lfstate = .used →
    (s.lfltab dev).lfpos ≤ size (s.lfltab dev).lfdirptr
  byte : ∀ dev, (s.lfltab dev).lfstate = .used → (s.lfltab dev).lfbyte < lfBlksiz →
    ∃ id dnum, Placed v (s.lfltab dev) id dnum

def sizes (s : FileSystem) (f : Nat) : Nat := (s.lfDir.lfdFiles f).ldSize

/-- Unless the directory waits to be written, its sector has it, or has fewer files. -/
def Kept (s : FileSystem) : Prop :=
  ∃ dir, s.disk 0 = .directory dir ∧ dir.lfdNfiles ≤ s.lfDir.lfdNfiles ∧
    (s.lfDirdirty = false → dir = s.lfDir ∨ dir.lfdNfiles < s.lfDir.lfdNfiles)

variable {area : Area} {v v' : Ledger} {im im' : Image} {s s' : FileSystem}
  {size size' : Nat → Nat} {dev f k : Nat}

theorem Kept.backed (kept : Kept s) : Backed s :=
  let ⟨dir, sector, fewer, _⟩ := kept
  ⟨dir, sector, fewer⟩

section Sizes

/-- A position in front of the size has an index block and a data block. -/
theorem sized_at (sized : Sized v f k) {pos : Nat} (inside : pos < k) :
    ∃ id dnum, (v.chain f)[pos / lfIdata]? = some id ∧
      v.slot id (pos % lfIdata / lfBlksiz) = some dnum := by
  have long : pos / lfIdata < (v.chain f).length :=
    (sized.blocks _).mpr (by simp only [lfIdata]; omega)
  have at_ := List.getElem?_eq_getElem long
  have taken := (sized.data _ _ _ at_ (dindex_lt pos)).mpr (by
    simp only [lfIdata, lfBlksiz]
    omega)
  obtain ⟨dnum, held⟩ := Option.isSome_iff_exists.mp taken
  exact ⟨_, dnum, at_, held⟩

/-- A block that is in place has room for one more byte. -/
theorem sized_extend {n pos id dnum : Nat} (sized : Sized v f n) (upto : pos ≤ n)
    (at_ : (v.chain f)[pos / lfIdata]? = some id)
    (taken : v.slot id (pos % lfIdata / lfBlksiz) = some dnum) : Sized v f (max n (pos + 1)) := by
  have here := (sized.data _ _ _ at_ (dindex_lt pos)).mp (by rw [taken]; rfl)
  simp only [lfIdata, lfBlksiz] at here
  constructor
  · intro k
    rw [sized.blocks]
    simp only [lfIdata]
    omega
  · intro k id' j at_' inside
    rw [sized.data k id' j at_' inside]
    simp only [lfIdata, lfBlksiz, lfIblen] at inside ⊢
    omega

end Sizes

section Cleaning

/-- The state in which `lfsetup` looks for the index block. -/
structure Cleaned (area : Area) (v : Ledger) (im : Image) (s : FileSystem) (dev : Nat)
    (s' : FileSystem) : Prop where
  stored : Stored area none v im s'
  tab : s'.lfltab = Function.update s.lfltab dev
    { s.lfltab dev with lfdbdirty := false, lfibdirty := false }
  dir : s'.lfDir = s.lfDir
  present : s'.lfDirpresent = s.lfDirpresent
  kept : Kept s → Kept s'

theorem cleaned_of_flushed (flushed : Flushed area v im s dev s') : Cleaned area v im s dev s' where
  stored := flushed.stored
  tab := flushed.tab
  dir := flushed.dir
  present := flushed.present
  kept := fun ⟨dir, sector, fewer, current⟩ => by
    have now := flushed.sector
    split_ifs at now with dirty
    · exact ⟨s.lfDir, now, by rw [flushed.dir], fun _ => .inl flushed.dir.symm⟩
    · refine ⟨dir, now.trans sector, by rwa [flushed.dir], fun _ => ?_⟩
      rw [flushed.dir]
      exact current (by simpa using dirty)

theorem lowered_flags {lfptr : Lflcblk} (index : lfptr.lfibdirty = false)
    (data : lfptr.lfdbdirty = false) :
    { lfptr with lfdbdirty := false, lfibdirty := false } = lfptr := by
  cases lfptr
  cases index
  cases data
  rfl

theorem cleaned_setup (sound : Sound area v) (before : Stored area none v im s)
    (used : (s.lfltab dev).lfstate = .used) :
    Cleaned area v im s dev (if Dirty (s.lfltab dev) then lfflush s dev else s) := by
  split_ifs with dirty
  · exact cleaned_of_flushed (flushed_lfflush sound before used)
  · have lowered : (s.lfltab dev).lfibdirty = false ∧ (s.lfltab dev).lfdbdirty = false := by
      simpa [Dirty] using dirty
    refine ⟨before, ?_, rfl, rfl, id⟩
    rw [lowered_flags lowered.1 lowered.2, Function.update_eq_self]

/-- `lfsetup` up to the choice of the data block. -/
theorem lfsetup_search (before : Files area v im s size)
    (used : (s.lfltab dev).lfstate = .used) (done : lfsetup s dev = some s') :
    ∃ start found v' im', Cleaned area v im s dev start ∧
      Searched area v' im' found dev (s.lfltab dev).lfdirptr
        ((s.lfltab dev).lfpos / lfIdata) ∧
      Grows dev (s.lfltab dev).lfdirptr v im start v' im' found ∧
      (v'.chain (s.lfltab dev).lfdirptr).length ≤
        max (v.chain (s.lfltab dev).lfdirptr).length ((s.lfltab dev).lfpos / lfIdata + 1) ∧
      setupData found dev = some s' := by
  have cleaned := cleaned_setup before.sound before.stored used
  unfold lfsetup at done
  generalize (if Dirty (s.lfltab dev) then lfflush s dev else s) = start at cleaned done
  obtain ⟨first, tookFirst, rest⟩ := Option.bind_eq_some_iff.mp done
  obtain ⟨found, walked, chosen⟩ := Option.bind_eq_some_iff.mp rest
  have self : start.lfltab dev =
      { s.lfltab dev with lfdbdirty := false, lfibdirty := false } := by
    rw [cleaned.tab, Function.update_self]
  have file := before.file _ (before.entry dev used)
  obtain ⟨v₁, im₁, k, searched, grows, behind, length⟩ := setupFirst_spec before.sound
    cleaned.stored (f := (s.lfltab dev).lfdirptr)
    (file.of_entry (by rw [cleaned.dir]))
    (by rw [self]; exact used) (by rw [self]) (by rw [self]) (by rw [self]) tookFirst
  have pos : (first.lfltab dev).lfpos = (s.lfltab dev).lfpos := by
    obtain ⟨_, _, _, _, control⟩ := grows.control
    rw [control, self]
  have startPos : (start.lfltab dev).lfpos = (s.lfltab dev).lfpos := by rw [self]
  obtain ⟨v₂, im₂, at_, grows', length'⟩ := setupLoop_spec searched
    (by rw [pos, ← startPos]; exact behind) walked
  rw [pos] at at_ length'
  have bound : (v₂.chain (s.lfltab dev).lfdirptr).length ≤
      max (v.chain (s.lfltab dev).lfdirptr).length ((s.lfltab dev).lfpos / lfIdata + 1) := by
    generalize (s.lfltab dev).lfpos / lfIdata = place at length'
    omega
  exact ⟨start, found, v₂, im₂, cleaned, at_, grows.trans grows', bound, chosen⟩

end Cleaning

end Xinu.Lfs.Layout
