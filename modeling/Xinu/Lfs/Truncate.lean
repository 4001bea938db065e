import Xinu.Lfs.Bytes

/-!
# A file is truncated

The walk along the chain frees the data blocks of one index block after the other and links the
last index block to the free ones; only then does the whole chain change hands.
-/

namespace Xinu.Lfs.Truncate

open Xinu.Kernel.State (sysErr ok)
open Xinu.Lfs.Device Xinu.Lfs.Accounts Xinu.Lfs.Storage Xinu.Lfs.Setup Xinu.Lfs.Position
open Xinu.Lfs.Layout Xinu.Lfs.Located Xinu.Lfs.Bytes Xinu.Lib.SingleList

set_option autoImplicit false

variable {area : Area} {v v' : Ledger} {im im' : Image} {s s' : FileSystem}
  {size : Nat → Nat} {dev f pos id : Nat}

/-- No control block has a block of the file. -/
def Idle (f : Nat) (s : FileSystem) : Prop :=
  ∀ dev, (s.lfltab dev).lfstate = .used → (s.lfltab dev).lfdirptr = f →
    (s.lfltab dev).lfinum = none ∧ (s.lfltab dev).lfdnum = none

/-- What changes when blocks of a file are freed: the directory is written with another head. -/
structure Frees (s s' : FileSystem) : Prop where
  tab : s'.lfltab = s.lfltab
  ifree : s'.lfDir.lfdIfree = s.lfDir.lfdIfree
  count : s'.lfDir.lfdNfiles = s.lfDir.lfdNfiles
  entries : s'.lfDir.lfdFiles = s.lfDir.lfdFiles
  present : s'.lfDirpresent = s.lfDirpresent
  backed : Backed s → Backed s'

theorem Frees.refl (s : FileSystem) : Frees s s := ⟨rfl, rfl, rfl, rfl, rfl, id⟩

theorem Frees.trans {s'' : FileSystem} (first : Frees s s') (second : Frees s' s'') :
    Frees s s'' where
  tab := second.tab.trans first.tab
  ifree := second.ifree.trans first.ifree
  count := second.count.trans first.count
  entries := second.entries.trans first.entries
  present := second.present.trans first.present
  backed := second.backed ∘ first.backed

theorem frees_lfdbfree (s : FileSystem) (dnum : Nat) : Frees s (lfdbfree s dnum) where
  tab := rfl
  ifree := rfl
  count := rfl
  entries := rfl
  present := rfl
  backed := fun _ => by
    refine ⟨{ s.lfDir with lfdDfree := some dnum }, ?_, Nat.le_refl _⟩
    simp [lfdbfree, FileSystem.writeDir, FileSystem.write, FileSystem.setDir]

theorem frees_putIblock (s : FileSystem) (id : Nat) (block : Lfiblk) :
    Frees s (s.putIblock id block) where
  tab := rfl
  ifree := rfl
  count := rfl
  entries := rfl
  present := rfl
  backed := fun ⟨dir, sector, fewer⟩ =>
    ⟨dir, (lfibput_sector s.disk block (Ne.symm (ib2sect_pos id))).trans sector, fewer⟩

/-- Free lists and slots that differ for the index blocks of a list only. -/
structure Emptied (ids : List Nat) (v v' : Ledger) : Prop where
  chain : v'.chain = v.chain
  ifree : v'.ifree = v.ifree
  empty : ∀ id ∈ ids, ∀ j, v'.slot id j = none
  others : ∀ id, id ∉ ids → v'.slot id = v.slot id

theorem idle_unheld (sound : Sound area v) {limbo : Option Nat}
    (before : Stored area limbo v im s) (idle : Idle f s) (chained : id ∈ v.chain f) {j dnum : Nat}
    (taken : v.slot id j = some dnum) (other : Nat) (used : (s.lfltab other).lfstate = .used) :
    (s.lfltab other).lfdnum ≠ some dnum := fun has => by
  obtain ⟨⟨id', j', chained', taken'⟩, -⟩ := before.dheld other dnum used has
  obtain ⟨rfl, -⟩ := sound.slot_unique taken taken'
  rw [(idle other used (sound.chain_unique chained' chained)).2] at has
  cases has

theorem idle_not_held (sound : Sound area v) {limbo : Option Nat}
    (before : Stored area limbo v im s) (idle : Idle f s) (chained : id ∈ v.chain f) (other : Nat)
    (used : (s.lfltab other).lfstate = .used) : (s.lfltab other).lfinum ≠ some id := fun has => by
  have chained' := (before.held other id used has).1
  rw [(idle other used (sound.chain_unique chained' chained)).1] at has
  cases has

section Loop

/-- The data blocks of the first slots of an index block are freed. -/
theorem freeBlocks_spec (sound : Sound area v) (before : Stored area (some id) v im s)
    (idle : Idle f s) (chained : id ∈ v.chain f) (iblock : Lfiblk)
    (slots : ∀ j < lfIblen, iblock.ibDba j = v.slot id j) {count : Nat} (upto : count ≤ lfIblen) :
    ∃ v', Sound area v' ∧ Stored area (some id) v' im (freeBlocks iblock count s) ∧
      Frees s (freeBlocks iblock count s) ∧ v'.chain = v.chain ∧ v'.ifree = v.ifree ∧
      (∀ j, v'.slot id j = if j < count then none else v.slot id j) ∧
      ∀ other, other ≠ id → v'.slot other = v.slot other := by
  induction count with
  | zero => exact ⟨v, sound, before, Frees.refl s, rfl, rfl, fun j => by simp, fun _ _ => rfl⟩
  | succ count ih =>
      obtain ⟨v₁, sound₁, stored₁, frees₁, chain₁, ifree₁, slots₁, others₁⟩ := ih (by omega)
      have here : iblock.ibDba count = v.slot id count := slots count (by omega)
      have now : v₁.slot id count = v.slot id count := by simp [slots₁]
      rw [freeBlocks, here]
      cases taken : v.slot id count with
      | none =>
          refine ⟨v₁, sound₁, stored₁, frees₁, chain₁, ifree₁, fun j => ?_, others₁⟩
          rw [slots₁]
          by_cases last : j = count
          · subst last
            simp [taken]
          · have same : j < count + 1 ↔ j < count := by omega
            simp [same]
      | some dnum =>
          rw [taken] at now
          have idle₁ : Idle f (freeBlocks iblock count s) := by
            unfold Idle
            rw [frees₁.tab]
            exact idle
          refine ⟨v₁.release id count dnum, sound_release sound₁ now,
            stored_lfdbfree sound₁ stored₁ now
              (idle_unheld sound₁ stored₁ idle₁ (chain₁ ▸ chained) now),
            frees₁.trans (frees_lfdbfree _ _), chain₁, ifree₁, fun j => ?_, fun other ne => ?_⟩
          · simp only [Ledger.release, slot_update, true_and]
            by_cases last : j = count
            · subst last
              simp
            · have same : j < count + 1 ↔ j < count := by omega
              simp [last, slots₁, same]
          · rw [← others₁ other ne]
            simp [Ledger.release, ne]

theorem stored_limbo (before : Stored area none v im s) (limbo : Option Nat) :
    Stored area limbo v im s :=
  { before with slots := fun f id member _ => before.slots f id member (by simp) }

/-- The walk along what is left of a chain. -/
theorem truncateLoop_spec {rest front : List Nat} {fuel : Nat} (sound : Sound area v)
    (before : Stored area none v im s) (idle : Idle f s) (split : v.chain f = front ++ rest)
    (links : Follows (fun id => (im.block id).ibNext) rest none) (enough : rest.length < fuel) :
    ∃ s' v' im', truncateLoop v.ifree.head? fuel (rest.head?.or v.ifree.head?) s = some s' ∧
      Sound area v' ∧ Stored area none v' im' s' ∧ Frees s s' ∧ Emptied rest v v' ∧
      Follows (fun id => (im'.block id).ibNext) rest v.ifree.head? ∧
      (∀ id, id ∉ rest → im'.block id = im.block id) ∧ im'.bytes = im.bytes := by
  induction rest generalizing front fuel v im s with
  | nil =>
      obtain ⟨fuel, rfl⟩ : ∃ n, fuel = n + 1 := ⟨fuel - 1, by simp at enough; omega⟩
      exact ⟨s, v, im, by simp [truncateLoop], sound, before, Frees.refl s,
        ⟨rfl, rfl, fun _ none_member => absurd none_member List.not_mem_nil, fun _ _ => rfl⟩, trivial,
        fun _ _ => rfl, rfl⟩
  | cons id more ih =>
      obtain ⟨fuel, rfl⟩ : ∃ n, fuel = n + 1 := ⟨fuel - 1, by simp at enough; omega⟩
      have chained : id ∈ v.chain f := by rw [split]; simp
      have inside := ((sound.chained f id).mp chained).1
      have notFree : (some id : Option Nat) ≠ v.ifree.head? := fun equal =>
        sound.chain_not_spare chained (List.mem_of_mem_head? equal.symm)
      have block : lfibget s.disk id = im.block id :=
        before.clean id inside fun other dirty =>
          idle_not_held sound before idle chained other dirty.1 dirty.2.2
      have nodup : (front ++ id :: more).Nodup := split ▸ sound.chain_nodup f
      have fresh : id ∉ more := (List.nodup_cons.mp (List.nodup_append.mp nodup).2.1).1
      obtain ⟨next, linksMore⟩ : (im.block id).ibNext = more.head? ∧
          Follows (fun id => (im.block id).ibNext) more none := by
        simpa [Follows] using links
      obtain ⟨v₁, sound₁, stored₁, frees₁, chain₁, ifree₁, slots₁, others₁⟩ :=
        freeBlocks_spec sound (stored_limbo before (some id)) idle chained (im.block id)
          (fun j small => before.slots f id chained (by simp) j small) (Nat.le_refl lfIblen)
      have empty₁ : ∀ j, v₁.slot id j = none := fun j => by
        rw [slots₁]
        by_cases small : j < lfIblen
        · simp [small]
        · rw [if_neg small]
          by_contra taken
          obtain ⟨dnum, held⟩ := Option.ne_none_iff_exists'.mp taken
          exact small (sound.owned id j dnum held).1
      have idle₁ : Idle f (freeBlocks (im.block id) lfIblen s) := by
        unfold Idle
        rw [frees₁.tab]
        exact idle
      have chained₁ : id ∈ v₁.chain f := chain₁ ▸ chained
      obtain ⟨cleared, isCleared⟩ : ∃ cleared : Lfiblk, cleared =
          { ibNext := more.head?.or v.ifree.head?, ibOffset := 0, ibDba := fun _ => none } :=
        ⟨_, rfl⟩
      have stored₂ : Stored area none v₁
          { im with block := Function.update im.block id cleared }
          ((freeBlocks (im.block id) lfIblen s).putIblock id cleared) := by
        refine stored_putIblock sound₁ stored₁ chained₁ (fun other used has => ?_)
          (fun j _ => ?_) fun other _ ne => ?_
        · exact absurd has (idle_not_held sound₁ stored₁ idle₁ chained₁ other used)
        · rw [isCleared, empty₁]
        · exact fun equal => ne (Option.some.inj equal).symm
      obtain ⟨s', v', im', looped, sound', stored', frees', emptied, links', blocks, bytes⟩ :=
        @ih _ _ _ (front ++ [id]) fuel sound₁ stored₂ idle₁
          (by rw [chain₁, split]; simp)
          (follows_congr linksMore fun other member => by
            have ne : other ≠ id := fun same => fresh (same ▸ member)
            simp [ne])
          (by simpa using enough)
      rw [ifree₁] at looped links'
      refine ⟨s', v', im', ?_, sound', stored',
        (frees₁.trans (frees_putIblock _ id cleared)).trans frees', ⟨?_, ?_, ?_, ?_⟩, ⟨?_, links'⟩,
        ?_, bytes⟩
      · rw [truncateLoop, List.head?_cons, Option.some_or, if_neg notFree, Option.bind_some, block]
        dsimp only
        rw [next]
        have joined : (if more.head? = none then v.ifree.head? else more.head?) =
            more.head?.or v.ifree.head? := by
          cases more.head? <;> simp
        rw [joined, ← isCleared]
        exact looped
      · exact emptied.chain.trans chain₁
      · exact emptied.ifree.trans ifree₁
      · intro other member j
        rcases List.mem_cons.mp member with rfl | later
        · rw [emptied.others other fresh]
          exact empty₁ j
        · exact emptied.empty other later j
      · intro other outside
        obtain ⟨ne, outsideMore⟩ : other ≠ id ∧ other ∉ more := by simpa using outside
        rw [emptied.others other outsideMore, others₁ other ne]
      · change (im'.block id).ibNext = _
        rw [blocks id fresh]
        simp [isCleared]
      · intro other outside
        obtain ⟨ne, outsideMore⟩ : other ≠ id ∧ other ∉ more := by simpa using outside
        rw [blocks other outsideMore]
        simp [ne]

end Loop

section Call

/-- The control block of a file whose blocks are about to be freed. -/
def rewound (lfptr : Lflcblk) : Lflcblk :=
  { lfptr with
    lfpos := 0, lfinum := none, lfdnum := none, lfbyte := lfBlksiz, lfdbdirty := false,
    lfibdirty := false }

/-- The state in which the walk starts. -/
def emptyEntry (s : FileSystem) (dev : Nat) : FileSystem :=
  let lfptr := s.lfltab dev
  { (s.setDev dev (rewound lfptr)).setEntry lfptr.lfdirptr
      { s.lfDir.lfdFiles lfptr.lfdirptr with ldIlist := none, ldSize := 0 } with
    lfDirdirty := true }

theorem stored_emptyEntry (sound : Sound area v) (before : Stored area none v im s)
    (used : (s.lfltab dev).lfstate = .used) (written : (s.lfltab dev).lfdbdirty = false)
    (clean : (s.lfltab dev).lfibdirty = false) :
    Stored area none v im (emptyEntry s dev) ∧ Idle (s.lfltab dev).lfdirptr (emptyEntry s dev) := by
  have self : (emptyEntry s dev).lfltab dev = rewound (s.lfltab dev) := Function.update_self _ _ _
  have others : ∀ other, other ≠ dev → (emptyEntry s dev).lfltab other = s.lfltab other :=
    fun other ne => Function.update_of_ne ne _ _
  refine ⟨?_, fun other usedOther isFile => ?_⟩
  · have moved : Stored area none v im (s.setDev dev (rewound (s.lfltab dev))) := by
      refine stored_setDev sound before dev _ im ?_ ?_ ?_ before.slots (fun _ => .inl rfl)
        (fun _ => .inl rfl) (fun id dirty => absurd dirty (not_iDirty clean id))
        (fun d dirty => absurd dirty (not_dDirty written d))
      · intro _ other ne usedOther equal
        exact ne (before.distinct other dev usedOther used equal)
      · intro id _ has
        cases has
      · intro d _ has
        cases has
    exact stored_frame sound moved rfl rfl (fun _ _ => rfl) rfl
  · by_cases same : other = dev
    · rw [same, self]
      exact ⟨rfl, rfl⟩
    · rw [others other same] at usedOther isFile
      exact absurd (before.distinct other dev usedOther used isFile) same

/-- The layout behind the walk, when the whole chain has changed hands. -/
theorem files_truncated (before : Files area v im s (sizes s))
    (used : (s.lfltab dev).lfstate = .used) {cleared : FileSystem}
    (isFile : (s.lfltab dev).lfdirptr = f)
    (sound' : Sound area v') (stored' : Stored area none v' im' cleared)
    (idle : Idle f cleared) (emptied : Emptied (v.chain f) v v')
    (links : Follows (fun id => (im'.block id).ibNext) (v.chain f) v.ifree.head?)
    (blocks : ∀ id, id ∉ v.chain f → im'.block id = im.block id)
    (tab : ∀ other, other ≠ dev → cleared.lfltab other = s.lfltab other)
    (self : cleared.lfltab dev = rewound (s.lfltab dev))
    (count : cleared.lfDir.lfdNfiles = s.lfDir.lfdNfiles)
    (entry : (cleared.lfDir.lfdFiles f).ldIlist = none ∧ (cleared.lfDir.lfdFiles f).ldSize = 0)
    (entries : ∀ g, g ≠ f → cleared.lfDir.lfdFiles g = s.lfDir.lfdFiles g)
    (result : s' = { cleared.setDir { cleared.lfDir with
      lfdIfree := (v.chain f ++ v.ifree).head? } with lfDirdirty := true }) :
    Files area (v'.drop f) im' s' (sizes s') ∧ sizes s' = Function.update (sizes s) f 0 := by
  have emptySlots : ∀ id ∈ v'.chain f, ∀ j, v'.slot id j = none := fun id member =>
    emptied.empty id (emptied.chain ▸ member)
  have dropped := stored_drop stored' (f := f)
    (by rw [emptied.chain, emptied.ifree]; exact links) emptySlots
    (fun other id usedOther has chained => by
      have own := (stored'.held other id usedOther has).1
      rw [(idle other usedOther (sound'.chain_unique own chained)).1] at has
      cases has)
  rw [emptied.chain, emptied.ifree] at dropped
  have apartFile : ∀ other, other ≠ dev → (s.lfltab other).lfstate = .used →
      (s.lfltab other).lfdirptr ≠ f := fun other ne usedOther equal =>
    ne (before.stored.distinct other dev usedOther used (equal.trans isFile.symm))
  have chainOther : ∀ g, g ≠ f → (v'.drop f).chain g = v.chain g := fun g apart =>
    (Function.update_of_ne apart _ _).trans (congrFun emptied.chain g)
  have chainSelf : (v'.drop f).chain f = [] := Function.update_self _ _ _
  have notIn : ∀ g, g ≠ f → ∀ id ∈ v.chain g, id ∉ v.chain f := fun g apart id member both =>
    apart (before.sound.chain_unique member both)
  have tab' : ∀ other, other ≠ dev → s'.lfltab other = s.lfltab other := fun other ne => by
    rw [result]
    exact tab other ne
  have self' : s'.lfltab dev = rewound (s.lfltab dev) := by
    rw [result]
    exact self
  have count' : s'.lfDir.lfdNfiles = s.lfDir.lfdNfiles := by
    rw [result]
    exact count
  have size' : sizes s' = Function.update (sizes s) f 0 := by
    funext g
    rw [result]
    by_cases same : g = f
    · subst same
      rw [Function.update_self]
      exact entry.2
    · rw [Function.update_of_ne same]
      exact congrArg Ldentry.ldSize (entries g same)
  refine ⟨⟨sound_drop sound' emptySlots, ?_, ?_, ?_, ?_, ?_, ?_, ?_⟩, size'⟩
  · rw [result]
    exact stored_frame (sound_drop sound' emptySlots) dropped rfl rfl (fun _ _ => rfl) rfl
  · intro g inside
    rw [count'] at inside
    by_cases same : g = f
    · subst same
      refine ⟨?_, by rw [chainSelf]; trivial, fun k id at_ => ?_⟩
      · rw [result, chainSelf]
        exact entry.1
      · rw [chainSelf] at at_
        simp at at_
    · have ok := before.file g inside
      refine ⟨?_, ?_, fun k id at_ => ?_⟩
      · rw [result, chainOther g same]
        exact (congrArg Ldentry.ldIlist (entries g same)).trans ok.head
      · rw [chainOther g same]
        exact follows_congr ok.links fun id member => by rw [blocks id (notIn g same id member)]
      · rw [chainOther g same] at at_
        rw [blocks id (notIn g same id (List.mem_of_getElem? at_))]
        exact ok.offset k id at_
  · intro g inside
    rw [count'] at inside
    rw [size']
    by_cases same : g = f
    · subst same
      rw [Function.update_self]
      refine ⟨fun k => by rw [chainSelf]; simp, fun k id j at_ _ => ?_⟩
      rw [chainSelf] at at_
      simp at at_
    · rw [Function.update_of_ne same]
      have old := before.sized g inside
      refine ⟨by rw [chainOther g same]; exact old.blocks, fun k id j at_ small => ?_⟩
      rw [chainOther g same] at at_
      change (v'.slot id j).isSome = true ↔ _
      rw [emptied.others id (notIn g same id (List.mem_of_getElem? at_))]
      exact old.data k id j at_ small
  · intro g outside
    rw [count'] at outside
    have apart : g ≠ f := fun same => by
      have inside := before.entry dev used
      omega
    rw [chainOther g apart]
    exact before.unused g outside
  · intro other usedOther
    rw [count']
    by_cases same : other = dev
    · rw [same, self']
      exact before.entry dev used
    · rw [tab' other same] at usedOther ⊢
      exact before.entry other usedOther
  · intro other usedOther
    rw [size']
    by_cases same : other = dev
    · rw [same, self']
      exact Nat.zero_le _
    · rw [tab' other same] at usedOther ⊢
      rw [Function.update_of_ne (apartFile other same usedOther)]
      exact before.pos other usedOther
  · intro other usedOther short
    by_cases same : other = dev
    · rw [same, self'] at short
      exact absurd short (Nat.lt_irrefl _)
    · rw [tab' other same] at usedOther short ⊢
      have apart := apartFile other same usedOther
      obtain ⟨id, dnum, placed⟩ := before.byte other usedOther short
      refine ⟨id, dnum, ?_, placed.inum, ?_, placed.dnum, placed.byte⟩
      · rw [chainOther _ apart]
        exact placed.at_
      · change v'.slot id _ = _
        rw [emptied.others id (notIn _ apart id (List.mem_of_getElem? placed.at_))]
        exact placed.slot

/-- The bytes of the other files stay. -/
theorem byteAt_truncated (sound : Sound area v) (emptied : Emptied (v.chain f) v v')
    (bytes : im'.bytes = im.bytes) {g : Nat} (apart : g ≠ f) (other : Nat) :
    byteAt (v'.drop f) im' g other = byteAt v im g other := by
  have chain : (v'.drop f).chain g = v.chain g :=
    (Function.update_of_ne apart _ _).trans (congrFun emptied.chain g)
  unfold byteAt
  rw [chain, bytes]
  cases at_ : (v.chain g)[other / lfIdata]? with
  | none => rfl
  | some id =>
      have outside : id ∉ v.chain f := fun both =>
        apart (sound.chain_unique (List.mem_of_getElem? at_) both)
      have same : (v'.drop f).slot id = v.slot id := emptied.others id outside
      simp only [same]

/-- `lftruncate` empties the file and rewinds it. -/
theorem lflcontrolTrunc_spec (before : Files area v im s (sizes s)) (kept : Kept s)
    (used : (s.lfltab dev).lfstate = .used) :
    ∃ s' v' im', lflcontrolTrunc s dev = some (s', ok) ∧ Completed area v' im' s dev s' 0 ∧
      sizes s' = Function.update (sizes s) (s.lfltab dev).lfdirptr 0 ∧
      ∀ g, g ≠ (s.lfltab dev).lfdirptr → ∀ other,
        byteAt v' im' g other = byteAt v im g other := by
  rw [lflcontrolTrunc, if_neg (by simp [used]), lftruncate]
  have rewoundPos := before.pos dev used
  have inside := before.entry dev used
  by_cases empty : (s.lfDir.lfdFiles (s.lfltab dev).lfdirptr).ldSize = 0
  · have zero : sizes s (s.lfltab dev).lfdirptr = 0 := empty
    refine ⟨s, v, im, if_pos empty, ⟨before, kept, ?_⟩, ?_, fun _ _ _ => rfl⟩
    · exact ⟨fun _ _ => rfl, rfl, rfl, rfl, by omega, rfl, fun _ => rfl, rfl⟩
    · rw [← zero, Function.update_eq_self]
  dsimp only
  rw [if_neg empty]
  have cleaned := cleaned_setup before.sound before.stored used
  generalize (if Dirty (s.lfltab dev) then lfflush s dev else s) = start at cleaned
  have self : start.lfltab dev = { s.lfltab dev with lfdbdirty := false, lfibdirty := false } := by
    rw [cleaned.tab, Function.update_self]
  have file := before.file _ inside
  have sized := before.sized _ inside
  obtain ⟨first, more, chain⟩ : ∃ first more, v.chain (s.lfltab dev).lfdirptr = first :: more := by
    have positive : 0 < (v.chain (s.lfltab dev).lfdirptr).length :=
      (sized.blocks 0).mpr (Nat.pos_of_ne_zero empty)
    exact List.exists_cons_of_length_pos positive
  have enough : (v.chain (s.lfltab dev).lfdirptr).length <
      (s.lfDir.lfdFiles (s.lfltab dev).lfdirptr).ldSize / lfIdata + 2 := by
    by_contra long
    have last := (sized.blocks (sizes s (s.lfltab dev).lfdirptr / lfIdata + 1)).mp
      (by unfold sizes; omega)
    simp only [lfIdata] at last
    omega
  obtain ⟨stored₀, idle⟩ := @stored_emptyEntry _ _ _ _ dev before.sound cleaned.stored
    (by rw [self]; exact used) (by rw [self]) (by rw [self])
  have isFile : (start.lfltab dev).lfdirptr = (s.lfltab dev).lfdirptr := by rw [self]
  rw [isFile] at idle
  obtain ⟨s₃, v', im', looped, sound', stored', frees, emptied, links, blocks, bytes⟩ :=
    @truncateLoop_spec _ _ _ _ _ _ [] _ before.sound stored₀ idle rfl file.links enough
  have head : (v.chain (s.lfltab dev).lfdirptr).head?.or v.ifree.head? =
      (s.lfDir.lfdFiles (s.lfltab dev).lfdirptr).ldIlist := by
    rw [file.head, chain]
    rfl
  have spare : v.ifree.head? = start.lfDir.lfdIfree := by
    rw [cleaned.dir]
    exact before.stored.ihead.symm
  have began : emptyEntry start dev =
      { (start.setDev dev { start.lfltab dev with
          lfpos := 0, lfinum := none, lfdnum := none, lfbyte := lfBlksiz }).setEntry
          (s.lfltab dev).lfdirptr
          { s.lfDir.lfdFiles (s.lfltab dev).lfdirptr with ldIlist := none, ldSize := 0 } with
        lfDirdirty := true } := by
    simp only [emptyEntry, rewound, self, cleaned.dir]
  rw [head, spare, began] at looped
  have firstHead : (s.lfDir.lfdFiles (s.lfltab dev).lfdirptr).ldIlist =
      (v.chain (s.lfltab dev).lfdirptr ++ v.ifree).head? := by
    rw [file.head, chain]
    rfl
  obtain ⟨s', result⟩ : ∃ s', s' = { s₃.setDir { s₃.lfDir with
      lfdIfree := (v.chain (s.lfltab dev).lfdirptr ++ v.ifree).head? } with lfDirdirty := true } :=
    ⟨_, rfl⟩
  have startTab : ∀ other, other ≠ dev → (emptyEntry start dev).lfltab other = s.lfltab other :=
    fun other ne => by
      have step : (emptyEntry start dev).lfltab other = start.lfltab other :=
        Function.update_of_ne ne _ _
      rw [step, cleaned.tab, Function.update_of_ne ne]
  have startSelf : (emptyEntry start dev).lfltab dev = rewound (s.lfltab dev) := by
    have step : (emptyEntry start dev).lfltab dev = rewound (start.lfltab dev) :=
      Function.update_self _ _ _
    rw [step, self]
    rfl
  have entry : (s₃.lfDir.lfdFiles (s.lfltab dev).lfdirptr) =
      { s.lfDir.lfdFiles (s.lfltab dev).lfdirptr with ldIlist := none, ldSize := 0 } := by
    rw [frees.entries, began]
    exact Function.update_self _ _ _
  have entries : ∀ g, g ≠ (s.lfltab dev).lfdirptr → s₃.lfDir.lfdFiles g = s.lfDir.lfdFiles g :=
    fun g apart => by
      rw [frees.entries, began, ← cleaned.dir]
      exact Function.update_of_ne apart _ _
  have count : s₃.lfDir.lfdNfiles = s.lfDir.lfdNfiles := by
    rw [frees.count, began, ← cleaned.dir]
    rfl
  have idle₃ : Idle (s.lfltab dev).lfdirptr s₃ := by
    unfold Idle
    rw [frees.tab]
    exact idle
  obtain ⟨files, size⟩ := files_truncated before used rfl sound' stored' idle₃ emptied links blocks
    (fun other ne => by rw [frees.tab]; exact startTab other ne) (by rw [frees.tab]; exact startSelf)
    count (by rw [entry]; exact ⟨rfl, rfl⟩) entries result
  refine ⟨s', v'.drop (s.lfltab dev).lfdirptr, im', ?_, ⟨files, ?_, ?_⟩, size,
    fun g apart other => byteAt_truncated before.sound emptied bytes apart other⟩
  · refine Option.bind_eq_some_iff.mpr ⟨s₃, looped, ?_⟩
    rw [firstHead, result]
  · obtain ⟨dir, sector, fewer⟩ := frees.backed (by
      obtain ⟨dir, sector, fewer⟩ := (cleaned.kept kept).backed
      exact ⟨dir, sector, fewer⟩)
    refine ⟨dir, by rw [result]; exact sector, by rw [result]; exact fewer, fun lowered => ?_⟩
    rw [result] at lowered
    cases lowered
  · have selfNow : s'.lfltab dev = rewound (s.lfltab dev) := by
      have step : s₃.lfltab dev = rewound (s.lfltab dev) := by rw [frees.tab, startSelf]
      rw [result]
      exact step
    refine ⟨fun other ne => ?_, by rw [selfNow]; rfl, by rw [selfNow]; rfl, by rw [selfNow]; rfl,
      by rw [selfNow]; rfl, by rw [result]; exact count, fun g => ?_, ?_⟩
    · rw [result, ← startTab other ne, ← frees.tab]
      rfl
    · rw [result]
      by_cases same : g = (s.lfltab dev).lfdirptr
      · have name := congrArg Ldentry.ldName entry
        rw [same]
        exact name
      · exact congrArg Ldentry.ldName (entries g same)
    · rw [result, ← cleaned.present]
      exact frees.present

end Call

end Xinu.Lfs.Truncate
