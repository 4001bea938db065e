import Xinu.Lfs.Device
import Xinu.Lib.SingleList

/-!
# Who has the blocks of a disk

Index blocks are free or in the chain of one file, and data blocks are free or in one slot of one
index block that is in a chain. The four ways in which a block changes hands, each of them
keeping the accounts.
-/

namespace Xinu.Lfs.Accounts

open Xinu.Lfs.Device

set_option autoImplicit false

/-- The index area has `ibsectors` sectors behind the directory, and the data area lies behind it,
up to the sector `dhigh`. -/
structure Area where
  ibsectors : Nat
  dhigh : Nat

def Area.iblocks (area : Area) : Nat := ibPerSector * area.ibsectors

def Area.Data (area : Area) (dnum : Nat) : Prop := area.ibsectors < dnum ∧ dnum < area.dhigh

structure Ledger where
  ifree : List Nat
  dfree : List Nat
  chain : Nat → List Nat
  slot : Nat → Nat → Option Nat
  iowner : Nat → Option Nat
  downer : Nat → Option (Nat × Nat)

structure Sound (area : Area) (v : Ledger) : Prop where
  chained : ∀ f id, id ∈ v.chain f ↔ id < area.iblocks ∧ v.iowner id = some f
  spare : ∀ id, id ∈ v.ifree ↔ id < area.iblocks ∧ v.iowner id = none
  chain_nodup : ∀ f, (v.chain f).Nodup
  ifree_nodup : v.ifree.Nodup
  dfree_nodup : v.dfree.Nodup
  held : ∀ id j dnum, v.slot id j = some dnum ↔ area.Data dnum ∧ v.downer dnum = some (id, j)
  unheld : ∀ dnum, dnum ∈ v.dfree ↔ area.Data dnum ∧ v.downer dnum = none
  owned : ∀ id j dnum, v.slot id j = some dnum → j < lfIblen ∧ ∃ f, id ∈ v.chain f

variable {area : Area} {v : Ledger}

namespace Sound

variable (sound : Sound area v)

include sound

theorem chain_unique {f g id : Nat} (first : id ∈ v.chain f) (second : id ∈ v.chain g) : f = g := by
  have ownerFirst := ((sound.chained f id).mp first).2
  have ownerSecond := ((sound.chained g id).mp second).2
  exact Option.some.inj (ownerFirst.symm.trans ownerSecond)

theorem chain_not_spare {f id : Nat} (member : id ∈ v.chain f) : id ∉ v.ifree := fun free => by
  have owner := ((sound.chained f id).mp member).2
  rw [((sound.spare id).mp free).2] at owner
  cases owner

theorem slot_unique {id id' j j' dnum : Nat} (first : v.slot id j = some dnum)
    (second : v.slot id' j' = some dnum) : id = id' ∧ j = j' := by
  have ownerFirst := ((sound.held id j dnum).mp first).2
  have ownerSecond := ((sound.held id' j' dnum).mp second).2
  simpa using ownerFirst.symm.trans ownerSecond

theorem slot_not_free {id j dnum : Nat} (held : v.slot id j = some dnum) : dnum ∉ v.dfree :=
  fun free => by
    have owner := ((sound.held id j dnum).mp held).2
    rw [((sound.unheld dnum).mp free).2] at owner
    cases owner

theorem slot_data {id j dnum : Nat} (held : v.slot id j = some dnum) : area.Data dnum :=
  ((sound.held id j dnum).mp held).1

theorem slot_spare {id : Nat} (free : id ∈ v.ifree) (j : Nat) : v.slot id j = none := by
  by_contra taken
  obtain ⟨dnum, held⟩ := Option.ne_none_iff_exists'.mp taken
  obtain ⟨-, f, member⟩ := sound.owned id j dnum held
  exact sound.chain_not_spare member free

end Sound

section Moves

/-- The first free index block goes to the end of the chain of a file. -/
def Ledger.grow (v : Ledger) (f id : Nat) : Ledger :=
  { v with
    ifree := v.ifree.tail
    chain := Function.update v.chain f (v.chain f ++ [id])
    iowner := Function.update v.iowner id (some f) }

/-- The first free data block goes into a slot. -/
def Ledger.fill (v : Ledger) (id j dnum : Nat) : Ledger :=
  { v with
    dfree := v.dfree.tail
    slot := Function.update v.slot id (Function.update (v.slot id) j (some dnum))
    downer := Function.update v.downer dnum (some (id, j)) }

/-- The data block of a slot is the first free one again. -/
def Ledger.release (v : Ledger) (id j dnum : Nat) : Ledger :=
  { v with
    dfree := dnum :: v.dfree
    slot := Function.update v.slot id (Function.update (v.slot id) j none)
    downer := Function.update v.downer dnum none }

/-- The chain of a file goes in front of the free index blocks. -/
def Ledger.drop (v : Ledger) (f : Nat) : Ledger :=
  { v with
    ifree := v.chain f ++ v.ifree
    chain := Function.update v.chain f []
    iowner := fun id => if id ∈ v.chain f then none else v.iowner id }

theorem mem_grow (v : Ledger) (f fresh : Nat) {g id : Nat} (chained : id ∈ v.chain g) :
    id ∈ (v.grow f fresh).chain g := by
  by_cases same : g = f
  · subst same
    simp [Ledger.grow, chained]
  · simpa [Ledger.grow, same] using chained

theorem sound_grow (sound : Sound area v) {f id : Nat} {rest : List Nat}
    (free : v.ifree = id :: rest) : Sound area (v.grow f id) := by
  have member : id ∈ v.ifree := free ▸ List.mem_cons_self
  obtain ⟨inside, unowned⟩ := (sound.spare id).mp member
  have nodup : (id :: rest).Nodup := free ▸ sound.ifree_nodup
  have fresh : ∀ g, id ∉ v.chain g := fun g chained => sound.chain_not_spare chained member
  constructor
  case chained =>
    intro g other
    by_cases same : g = f
    · subst same
      by_cases isId : other = id
      · subst isId
        simp [Ledger.grow, inside]
      · simp [Ledger.grow, isId, sound.chained g other]
    · by_cases isId : other = id
      · subst isId
        have other : f ≠ g := Ne.symm same
        simp [Ledger.grow, Function.update_of_ne same, fresh g, other]
      · simp [Ledger.grow, same, isId, sound.chained g other]
  case spare =>
    intro other
    have split : other ∈ v.ifree ↔ other = id ∨ other ∈ rest := by rw [free]; simp
    by_cases isId : other = id
    · subst isId
      simp [Ledger.grow, free, (List.nodup_cons.mp nodup).1]
    · have moved : other ∈ rest ↔ other ∈ v.ifree := by simp [split, isId]
      have tail : (v.grow f id).ifree = rest := by simp [Ledger.grow, free]
      rw [tail, moved, sound.spare other]
      simp [Ledger.grow, isId]
  case chain_nodup =>
    intro g
    by_cases same : g = f
    · subst same
      simp only [Ledger.grow, Function.update_self]
      exact List.nodup_append.mpr ⟨sound.chain_nodup g, by simp,
        fun a first b second equal => fresh g (by simp_all)⟩
    · simpa [Ledger.grow, same] using sound.chain_nodup g
  case ifree_nodup => simpa [Ledger.grow, free] using (List.nodup_cons.mp nodup).2
  case dfree_nodup => exact sound.dfree_nodup
  case held => exact sound.held
  case unheld => exact sound.unheld
  case owned =>
    intro other j dnum held
    obtain ⟨slots, g, chained⟩ := sound.owned other j dnum held
    exact ⟨slots, g, mem_grow v f id chained⟩

theorem slot_update (v : Ledger) (id j : Nat) (value : Option Nat) (other k : Nat) :
    Function.update v.slot id (Function.update (v.slot id) j value) other k =
      if other = id ∧ k = j then value else v.slot other k := by
  by_cases same : other = id
  · subst same
    by_cases isSlot : k = j
    · subst isSlot
      simp
    · simp [isSlot]
  · simp [same]

theorem sound_fill (sound : Sound area v) {id j dnum f : Nat} {rest : List Nat}
    (free : v.dfree = dnum :: rest) (empty : v.slot id j = none) (inside : j < lfIblen)
    (chained : id ∈ v.chain f) : Sound area (v.fill id j dnum) := by
  have member : dnum ∈ v.dfree := free ▸ List.mem_cons_self
  obtain ⟨data, unowned⟩ := (sound.unheld dnum).mp member
  have nodup : (dnum :: rest).Nodup := free ▸ sound.dfree_nodup
  have fresh : ∀ other k, v.slot other k ≠ some dnum := fun other k held =>
    sound.slot_not_free held member
  refine { sound with dfree_nodup := ?_, held := ?_, unheld := ?_, owned := ?_ }
  · simpa [Ledger.fill, free] using (List.nodup_cons.mp nodup).2
  · intro other k d
    simp only [Ledger.fill, slot_update]
    by_cases isBlock : d = dnum
    · subst isBlock
      by_cases here : other = id ∧ k = j
      · simp [here, data]
      · have elsewhere : ¬(id = other ∧ j = k) := fun both => here ⟨both.1.symm, both.2.symm⟩
        simp [here, fresh other k, elsewhere]
    · by_cases here : other = id ∧ k = j
      · obtain ⟨rfl, rfl⟩ := here
        have unheld := sound.held other k d
        rw [empty] at unheld
        have apart : dnum ≠ d := Ne.symm isBlock
        simpa [Function.update_of_ne isBlock, apart] using unheld
      · simp [here, isBlock, sound.held other k d]
  · intro d
    have split : d ∈ v.dfree ↔ d = dnum ∨ d ∈ rest := by rw [free]; simp
    by_cases isBlock : d = dnum
    · subst isBlock
      simp [Ledger.fill, free, (List.nodup_cons.mp nodup).1]
    · have moved : d ∈ rest ↔ d ∈ v.dfree := by simp [split, isBlock]
      have tail : (v.fill id j dnum).dfree = rest := by simp [Ledger.fill, free]
      rw [tail, moved, sound.unheld d]
      simp [Ledger.fill, isBlock]
  · intro other k d held
    simp only [Ledger.fill, slot_update] at held
    by_cases here : other = id ∧ k = j
    · exact ⟨here.2 ▸ inside, f, here.1 ▸ chained⟩
    · rw [if_neg here] at held
      exact sound.owned other k d held

theorem sound_release (sound : Sound area v) {id j dnum : Nat} (taken : v.slot id j = some dnum) :
    Sound area (v.release id j dnum) := by
  obtain ⟨data, owner⟩ := (sound.held id j dnum).mp taken
  refine { sound with dfree_nodup := ?_, held := ?_, unheld := ?_, owned := ?_ }
  · exact List.nodup_cons.mpr ⟨sound.slot_not_free taken, sound.dfree_nodup⟩
  · intro other k d
    simp only [Ledger.release, slot_update]
    by_cases here : other = id ∧ k = j
    · obtain ⟨rfl, rfl⟩ := here
      by_cases isBlock : d = dnum
      · simp [isBlock]
      · have unheld := sound.held other k d
        rw [taken] at unheld
        simpa [isBlock, Ne.symm isBlock] using unheld
    · by_cases isBlock : d = dnum
      · subst isBlock
        simpa [here] using fun held => here (sound.slot_unique held taken)
      · simp [here, isBlock, sound.held other k d]
  · intro d
    by_cases isBlock : d = dnum
    · subst isBlock
      simp [Ledger.release, data]
    · simp [Ledger.release, isBlock, sound.unheld d]
  · intro other k d held
    simp only [Ledger.release, slot_update] at held
    by_cases here : other = id ∧ k = j
    · simp [here] at held
    · rw [if_neg here] at held
      exact sound.owned other k d held

theorem sound_drop (sound : Sound area v) {f : Nat}
    (empty : ∀ id ∈ v.chain f, ∀ j, v.slot id j = none) : Sound area (v.drop f) := by
  refine { sound with chained := ?_, spare := ?_, chain_nodup := ?_, ifree_nodup := ?_, owned := ?_ }
  · intro g id
    by_cases same : g = f
    · subst same
      by_cases chained : id ∈ v.chain g
      · simp [Ledger.drop, chained]
      · have other := sound.chained g id
        simpa [Ledger.drop, chained] using other
    · by_cases chained : id ∈ v.chain f
      · have elsewhere : id ∉ v.chain g := fun both => same (sound.chain_unique both chained)
        simp [Ledger.drop, same, chained, elsewhere]
      · simp [Ledger.drop, same, chained, sound.chained g id]
  · intro id
    by_cases chained : id ∈ v.chain f
    · simp [Ledger.drop, chained, ((sound.chained f id).mp chained).1]
    · simp [Ledger.drop, chained, sound.spare id]
  · intro g
    by_cases same : g = f
    · simp [Ledger.drop, same]
    · simpa [Ledger.drop, same] using sound.chain_nodup g
  · refine List.nodup_append.mpr ⟨sound.chain_nodup f, sound.ifree_nodup, ?_⟩
    rintro id chained other free rfl
    exact sound.chain_not_spare chained free
  · intro id j dnum held
    obtain ⟨inside, g, chained⟩ := sound.owned id j dnum held
    have same : g ≠ f := by
      rintro rfl
      cases (empty id chained j).symm.trans held
    exact ⟨inside, g, by simpa [Ledger.drop, same] using chained⟩

end Moves

end Xinu.Lfs.Accounts
