import Xinu.Lfs.Setup

/-!
# The blocks of a position

The steps of `lfsetup` one after the other: the first index block, the walk along the chain and
the data block.
-/

namespace Xinu.Lfs.Position

open Xinu.Lfs.Device Xinu.Lfs.Accounts Xinu.Lfs.Storage Xinu.Lfs.Setup Xinu.Lib.SingleList

set_option autoImplicit false

variable {area : Area} {v v' : Ledger} {im im' : Image} {s s' : FileSystem} {dev f k : Nat}

section First

/-- An index block is taken for an empty file. -/
theorem setupFirst_new (sound : Sound area v) (before : Stored area none v im s)
    (used : (s.lfltab dev).lfstate = .used) (dirptr : (s.lfltab dev).lfdirptr = f)
    (written : (s.lfltab dev).lfdbdirty = false) (clean : (s.lfltab dev).lfibdirty = false)
    (empty : v.chain f = []) {ibnum : Nat} {taken : FileSystem}
    (alloc : lfiballoc s = some (ibnum, taken))
    (result : s' = (taken.setEntry f
      { s.lfDir.lfdFiles f with ldIlist := some ibnum }).setDev dev { s.lfltab dev with
        lfiblock := lfibclear 0, lfinum := some ibnum, lfibdirty := true }) :
    ∃ v' im', Searched area v' im' s' dev f 0 ∧ Grows dev f v im s v' im' s' ∧
      (v'.chain f).length = 1 := by
  obtain ⟨free, allocated, equal⟩ := stored_lfiballoc sound before alloc f
  have member : ibnum ∈ v.ifree := free ▸ List.mem_cons_self
  have sound' := sound_grow (f := f) sound free
  have chain : (v.grow f ibnum).chain f = [ibnum] := by simp [Ledger.grow, empty]
  have tab : taken.lfltab = s.lfltab := by rw [equal]
  have entered : Stored area (some ibnum) (v.grow f ibnum) im
      (taken.setEntry f { s.lfDir.lfdFiles f with ldIlist := some ibnum }) :=
    stored_frame sound' allocated rfl rfl (fun _ _ => rfl) rfl
  have fresh := @stored_fresh _ _ _ _ dev sound' _ entered (by rwa [← tab] at used)
    (by
      have same : ((taken.setEntry f { s.lfDir.lfdFiles f with ldIlist := some ibnum }).lfltab
          dev).lfdirptr = f := by rw [← dirptr, ← tab]; rfl
      rw [same, chain]
      exact List.mem_cons_self)
    (sound.slot_spare member) (by rwa [← tab] at written) (by rwa [← tab] at clean) 0
    (s.lfltab dev).lfdnum (.inr (by rw [← tab]; rfl))
  have same : (taken.setEntry f { s.lfDir.lfdFiles f with ldIlist := some ibnum }).lfltab dev =
      s.lfltab dev := by rw [← tab]; rfl
  rw [same] at fresh
  have self : s'.lfltab dev = { s.lfltab dev with
      lfiblock := lfibclear 0, lfinum := some ibnum, lfibdirty := true } := by
    rw [result]
    exact Function.update_self _ _ _
  refine ⟨_, _, ⟨sound', result ▸ fresh, ⟨?_, ?_, ?_⟩, ?_, ?_, ?_, ?_, ?_⟩, ?_, by rw [chain]; rfl⟩
  · rw [result, chain]
    simp [FileSystem.setDev, FileSystem.setEntry, FileSystem.setDir]
  · rw [chain]
    simp [Follows, lfibclear]
  · intro k id at_
    rw [chain] at at_
    cases k with
    | zero =>
        obtain rfl : ibnum = id := by simpa using at_
        simp [lfibclear]
    | succ k => simp at at_
  · rw [self]; exact used
  · rw [self]; exact dirptr
  · rw [self, chain]; exact ⟨ibnum, rfl, rfl⟩
  · rw [self]; exact written
  · rw [chain]; exact fun _ => rfl
  · constructor
    case chain_other => exact fun g ne => Function.update_of_ne ne _ _
    case chain_self => rw [empty]; exact List.nil_prefix
    case slot => rfl
    case dfree => rfl
    case bytes => rfl
    case block =>
      intro g ne id chained
      have other : id ≠ ibnum := fun same => sound.chain_not_spare chained (same ▸ member)
      simp [other]
    case tab =>
      intro other ne
      rw [result, ← tab]
      exact Function.update_of_ne ne _ _
    case control => exact ⟨_, _, _, _, self⟩
    case files => rw [result, equal]; rfl
    case entry_other =>
      intro g ne
      rw [result, equal]
      exact Function.update_of_ne ne _ _
    case entry_self =>
      refine ⟨some ibnum, ?_⟩
      rw [result]
      exact Function.update_self _ _ _
    case present => rw [result, equal]; rfl
    case backed =>
      intro _
      rw [result, equal]
      have sector : Function.update s.disk 0
          (.directory { s.lfDir with lfdIfree := v.ifree.tail.head? }) 0 =
            .directory { s.lfDir with lfdIfree := v.ifree.tail.head? } :=
        Function.update_self _ _ _
      exact ⟨_, sector, Nat.le_refl _⟩
    case quiet =>
      rw [chain, empty]
      intro same
      cases same

theorem setupFirst_spec (sound : Sound area v) (before : Stored area none v im s)
    (file : FileOk v im s f) (used : (s.lfltab dev).lfstate = .used)
    (dirptr : (s.lfltab dev).lfdirptr = f) (written : (s.lfltab dev).lfdbdirty = false)
    (clean : (s.lfltab dev).lfibdirty = false) (done : setupFirst s dev = some s') :
    ∃ v' im' k, Searched area v' im' s' dev f k ∧ Grows dev f v im s v' im' s' ∧
      lfIdata * k ≤ (s.lfltab dev).lfpos ∧
      (v'.chain f).length ≤ max (v.chain f).length 1 := by
  subst dirptr
  unfold setupFirst at done
  dsimp only at done
  have head := file.head
  cases inum : (s.lfltab dev).lfinum with
  | none =>
      rw [inum] at done
      cases ilist : (s.lfDir.lfdFiles (s.lfltab dev).lfdirptr).ldIlist with
      | none =>
          have empty : v.chain (s.lfltab dev).lfdirptr = [] :=
            List.head?_eq_none_iff.mp (head.symm.trans ilist)
          rw [ilist] at done
          dsimp only at done
          cases alloc : lfiballoc s with
          | none => simp [alloc] at done
          | some pair =>
              obtain ⟨ibnum, taken⟩ := pair
              simp only [alloc, Option.bind_eq_bind, Option.bind_some, Option.some.injEq] at done
              obtain ⟨v', im', searched, grows, length⟩ := setupFirst_new sound before used rfl
                written clean empty alloc done.symm
              exact ⟨v', im', 0, searched, grows, by omega, by omega⟩
      | some ibnum =>
          have first : (v.chain (s.lfltab dev).lfdirptr)[0]? = some ibnum := by
            rw [← List.head?_eq_getElem?, ← head, ilist]
          rw [ilist] at done
          obtain ⟨searched, grows⟩ := searched_load sound before file used rfl written clean
            first _ (.inr rfl) (Option.some.inj done).symm
          exact ⟨v, im, 0, searched, grows, by omega, Nat.le_max_left _ _⟩
  | some inum' =>
      rw [inum] at done
      dsimp only at done
      obtain ⟨chained, block⟩ := before.held dev inum' used inum
      split_ifs at done with early
      · obtain ⟨ibnum, ilist, equal⟩ := Option.map_eq_some_iff.mp done
        have first : (v.chain (s.lfltab dev).lfdirptr)[0]? = some ibnum := by
          rw [← List.head?_eq_getElem?, ← head, ilist]
        obtain ⟨searched, grows⟩ := searched_load sound before file used rfl written clean
          first _ (.inr rfl) equal.symm
        exact ⟨v, im, 0, searched, grows, by omega, Nat.le_max_left _ _⟩
      · obtain rfl : s = s' := Option.some.inj done
        obtain ⟨k, at_⟩ := List.mem_iff_getElem?.mp chained
        have offset := file.offset k inum' at_
        rw [block] at offset
        refine ⟨v, im, k, ⟨sound, before, file, used, rfl, ⟨inum', at_, inum⟩, written, ?_⟩,
          Grows.refl dev _ v im s, by omega, Nat.le_max_left _ _⟩
        intro dirty
        cases clean.symm.trans dirty

end First

section Next

/-- The index block in memory is the one of the chain, and leads to the next one. -/
theorem searched_next (before : Searched area v im s dev f k) {inum : Nat}
    (has : (s.lfltab dev).lfinum = some inum) :
    (v.chain f)[k]? = some inum ∧ im.block inum = (s.lfltab dev).lfiblock ∧
      (s.lfltab dev).lfiblock.ibNext = (v.chain f)[k + 1]? ∧
      (s.lfltab dev).lfiblock.ibOffset = lfIdata * k := by
  obtain ⟨id, at_, has'⟩ := before.at_
  obtain rfl : id = inum := Option.some.inj (has'.symm.trans has)
  have block := (before.stored.held dev id before.used has).2
  have next := follows_next before.file.links at_
  have offset := before.file.offset k id at_
  rw [block] at next offset
  exact ⟨at_, block, by simpa using next, offset⟩

/-- The index block that ends the chain is linked to the one that has just been taken. -/
theorem stored_link (sound : Sound area v) {id : Nat} (before : Stored area (some id) v im s)
    (used : (s.lfltab dev).lfstate = .used) {inum : Nat} (ne : inum ≠ id)
    (has : (s.lfltab dev).lfinum = some inum) (linked : Lfiblk)
    (isLinked : linked = { (s.lfltab dev).lfiblock with ibNext := some id }) :
    Stored area (some id) v
      { im with block := Function.update im.block inum linked }
      ((s.putIblock inum linked).setDev dev
        { s.lfltab dev with lfiblock := linked, lfibdirty := false }) := by
  obtain ⟨chained, block⟩ := before.held dev inum used has
  have slots : ∀ j < lfIblen, linked.ibDba j = v.slot inum j := fun j inside => by
    rw [isLinked, ← block]
    exact before.slots _ inum chained (fun equal => ne (Option.some.inj equal).symm) j inside
  have edited : Stored area (some id) v
      { im with block := Function.update im.block inum linked }
      (s.setDev dev { s.lfltab dev with lfiblock := linked, lfibdirty := true }) := by
    refine stored_setDev sound before dev _ _ ?_ ?_ ?_ ?_ ?_ (fun _ => .inl rfl) ?_ ?_
    · intro _ other apart usedOther equal
      exact apart (before.distinct other dev usedOther used equal)
    · intro other _ hasOther
      obtain rfl : inum = other := Option.some.inj (has.symm.trans hasOther)
      exact ⟨chained, by simp⟩
    · exact fun d _ hasD => before.dheld dev d used hasD
    · intro g other member notLimbo j inside
      by_cases same : other = inum
      · subst same
        simpa using slots j inside
      · simpa [same] using before.slots g other member notLimbo j inside
    · intro other
      by_cases same : other = inum
      · subst same
        exact .inr ⟨used, rfl, has⟩
      · exact .inl (by simp [same])
    · exact fun other dirty => .inl ⟨used, rfl, dirty.2.2⟩
    · exact fun d dirty => .inl dirty
  have put := @stored_putIblock _ _ (some id) _ _ _ sound edited _ _ _ chained
    (fun other usedOther hasOther => by
      have member := (edited.held other inum usedOther hasOther).2
      simpa using member.symm)
    slots (fun _ notLimbo _ => notLimbo)
  simp only [Function.update_idem] at put
  have cleaned := @stored_setDev _ _ (some id) _ _ _ sound put dev
    { s.lfltab dev with lfiblock := linked, lfibdirty := false }
    { im with block := Function.update im.block inum linked }
    (fun _ other apart usedOther equal => apart (put.distinct other dev usedOther
      (by simpa [FileSystem.putIblock, FileSystem.setDev] using used)
      (by simpa [FileSystem.putIblock, FileSystem.setDev] using equal)))
    (fun other _ hasOther => by
      obtain rfl : inum = other := Option.some.inj (has.symm.trans hasOther)
      exact ⟨chained, by simp⟩)
    (fun d _ hasD => before.dheld dev d used hasD)
    put.slots (fun _ => .inl rfl) (fun _ => .inl rfl)
    (fun other dirty => .inr (by
      have hasOther : (s.lfltab dev).lfinum = some other := by
        simpa [FileSystem.putIblock, FileSystem.setDev] using dirty.2.2
      obtain rfl : inum = other := Option.some.inj (has.symm.trans hasOther)
      simpa [FileSystem.putIblock, FileSystem.setDev] using lfibget_lfibput_self s.disk inum _))
    (fun d dirty => .inl (by
      simpa [FileSystem.putIblock, FileSystem.setDev, DDirty] using dirty))
  simpa [FileSystem.putIblock, FileSystem.setDev] using cleaned

/-- An index block is taken behind the end of the chain. -/
theorem setupNext_new (before : Searched area v im s dev f k) {inum : Nat}
    (has : (s.lfltab dev).lfinum = some inum) (ends : (s.lfltab dev).lfiblock.ibNext = none)
    {ibnum : Nat} {taken : FileSystem} (alloc : lfiballoc s = some (ibnum, taken))
    (result : s' = (taken.putIblock inum
        { (s.lfltab dev).lfiblock with ibNext := some ibnum }).setDev dev { s.lfltab dev with
          lfinum := some ibnum
          lfiblock := lfibclear ((s.lfltab dev).lfiblock.ibOffset + lfIdata)
          lfibdirty := true
          lfdnum := none }) :
    ∃ v' im', Searched area v' im' s' dev f (k + 1) ∧ Grows dev f v im s v' im' s' ∧
      (v'.chain f).length = k + 2 := by
  obtain ⟨at_, block, next, offset⟩ := searched_next before has
  have sound := before.sound
  obtain ⟨free, allocated, equal⟩ := stored_lfiballoc sound before.stored alloc f
  have member : ibnum ∈ v.ifree := free ▸ List.mem_cons_self
  have fresh : ∀ g, ∀ id ∈ v.chain g, id ≠ ibnum := fun g id chained same =>
    sound.chain_not_spare chained (same ▸ member)
  have ne : inum ≠ ibnum := fresh f inum (List.mem_of_getElem? at_)
  have sound' := sound_grow (f := f) sound free
  have chain : (v.grow f ibnum).chain f = v.chain f ++ [ibnum] := by simp [Ledger.grow]
  have tab : taken.lfltab dev = s.lfltab dev := by rw [equal]
  have length : (v.chain f).length = k + 1 := by
    have inside := (List.getElem?_eq_some_iff.mp at_).1
    have outside := List.getElem?_eq_none_iff.mp (next.symm.trans ends)
    omega
  obtain ⟨front, split⟩ : ∃ front, v.chain f = front ++ [inum] := by
    have nonempty : v.chain f ≠ [] := fun empty => by simp [empty] at length
    have lastIs : (v.chain f).getLast nonempty = inum := by
      rw [List.getLast_eq_getElem]
      have place : (v.chain f).length - 1 = k := by omega
      have here := (List.getElem?_eq_some_iff.mp at_).2
      simpa [place] using here
    exact ⟨(v.chain f).dropLast, by rw [← lastIs, List.dropLast_append_getLast]⟩
  have linked := @stored_link _ _ _ _ dev sound' _ allocated (by rw [tab]; exact before.used) _
    ne (by rw [tab]; exact has) _ rfl
  rw [tab] at linked
  have started := @stored_fresh _ _ _ _ dev sound' _ linked
    (by simpa [FileSystem.setDev] using before.used)
    (by simp [FileSystem.setDev, before.dirptr, chain]) (sound.slot_spare member)
    (by simpa [FileSystem.setDev] using before.written) (by simp [FileSystem.setDev])
    ((s.lfltab dev).lfiblock.ibOffset + lfIdata) none (.inl rfl)
  have self : s'.lfltab dev = { s.lfltab dev with
      lfinum := some ibnum
      lfiblock := lfibclear ((s.lfltab dev).lfiblock.ibOffset + lfIdata)
      lfibdirty := true
      lfdnum := none } := by
    rw [result]
    exact Function.update_self _ _ _
  obtain ⟨im', isImage, stored'⟩ : ∃ im' : Image, im' = { im with
      block := Function.update
        (Function.update im.block inum { (s.lfltab dev).lfiblock with ibNext := some ibnum })
        ibnum (lfibclear ((s.lfltab dev).lfiblock.ibOffset + lfIdata)) } ∧
        Stored area none (v.grow f ibnum) im' s' :=
    ⟨_, rfl, by rw [result]; simpa [FileSystem.setDev] using started⟩
  refine ⟨v.grow f ibnum, im', ⟨sound', stored', ⟨?_, ?_, ?_⟩, ?_, ?_, ?_, ?_, ?_⟩, ?_,
    by simp [chain, length]⟩
  · have head := before.file.head
    rw [result, equal, chain, split]
    rw [split] at head
    simpa [FileSystem.setDev, FileSystem.putIblock] using head
  · rw [chain, split]
    have links := before.file.links
    rw [split] at links
    refine follows_snoc links ?_ ?_ fun other inFront => ?_
    · simp [isImage, ne]
    · simp [isImage, lfibclear]
    · have notLast : other ≠ inum := fun same => by
        have nodup := sound.chain_nodup f
        rw [split] at nodup
        exact (List.nodup_append.mp nodup).2.2 other inFront inum (by simp) same
      have notFresh : other ≠ ibnum := fresh f other (by rw [split]; simp [inFront])
      simp [isImage, notLast, notFresh]
  · intro place id placed
    rw [chain] at placed
    rcases Nat.lt_or_ge place (v.chain f).length with inside | outside
    · rw [List.getElem?_append_left inside] at placed
      have notFresh := fresh f id (List.mem_of_getElem? placed)
      have old := before.file.offset place id placed
      by_cases same : id = inum
      · subst same
        rw [block] at old
        simpa [isImage, notFresh] using old
      · simpa [isImage, same, notFresh] using old
    · rw [List.getElem?_append_right outside] at placed
      have zero : place - (v.chain f).length = 0 := by
        have := (List.getElem?_eq_some_iff.mp placed).1
        simp only [List.length_singleton] at this
        omega
      rw [zero] at placed
      obtain rfl : ibnum = id := by simpa using placed
      obtain rfl : place = k + 1 := by omega
      simp [isImage, lfibclear, offset, Nat.mul_succ]
  · rw [self]; exact before.used
  · rw [self]; exact before.dirptr
  · rw [self, chain]
    exact ⟨ibnum, by rw [List.getElem?_append_right (by omega), length]; simp, rfl⟩
  · rw [self]; exact before.written
  · exact fun _ => by simp [chain, length]
  · constructor
    case chain_other => exact fun g apart => Function.update_of_ne apart _ _
    case chain_self => exact ⟨[ibnum], chain.symm⟩
    case slot => rfl
    case dfree => rfl
    case bytes => rw [isImage]
    case block =>
      intro g apart id chained
      have notLast : id ≠ inum := fun same =>
        apart (sound.chain_unique chained (same ▸ List.mem_of_getElem? at_))
      simp [isImage, fresh g id chained, notLast]
    case tab =>
      intro other apart
      rw [result, equal]
      exact Function.update_of_ne apart _ _
    case control => exact ⟨_, _, _, _, self⟩
    case files => rw [result, equal]; rfl
    case entry_other => exact fun g _ => by rw [result, equal]; rfl
    case entry_self => exact ⟨(s.lfDir.lfdFiles f).ldIlist, by rw [result, equal]; rfl⟩
    case present => rw [result, equal]; rfl
    case backed =>
      intro _
      have sector : Function.update s.disk 0
          (.directory { s.lfDir with lfdIfree := v.ifree.tail.head? }) 0 =
            .directory { s.lfDir with lfdIfree := v.ifree.tail.head? } :=
        Function.update_self _ _ _
      refine ⟨_, ?_, Nat.le_refl _⟩
      rw [result, equal]
      exact (lfibput_sector _ { (s.lfltab dev).lfiblock with ibNext := some ibnum }
        (Ne.symm (ib2sect_pos inum))).trans sector
    case quiet =>
      intro same
      simp [chain] at same

theorem setupNext_spec (before : Searched area v im s dev f k) {inum : Nat}
    (has : (s.lfltab dev).lfinum = some inum) (done : setupNext s dev inum = some s') :
    ∃ v' im', Searched area v' im' s' dev f (k + 1) ∧ Grows dev f v im s v' im' s' ∧
      (v'.chain f).length ≤ max (v.chain f).length (k + 2) := by
  obtain ⟨-, -, next, -⟩ := searched_next before has
  unfold setupNext at done
  dsimp only at done
  cases ends : (s.lfltab dev).lfiblock.ibNext with
  | none =>
      rw [ends] at done
      dsimp only at done
      cases alloc : lfiballoc s with
      | none => simp [alloc] at done
      | some pair =>
          obtain ⟨ibnum, taken⟩ := pair
          simp only [alloc, Option.bind_eq_bind, Option.bind_some, Option.some.injEq] at done
          obtain ⟨v', im', searched, grows, length⟩ :=
            setupNext_new before has ends alloc done.symm
          exact ⟨v', im', searched, grows, by omega⟩
  | some ibnum =>
      have placed : (v.chain f)[k + 1]? = some ibnum := next.symm.trans ends
      have clean : (s.lfltab dev).lfibdirty = false := by
        by_contra dirty
        have length := before.last (by simpa using dirty)
        have inside := (List.getElem?_eq_some_iff.mp placed).1
        omega
      rw [ends] at done
      obtain ⟨searched, grows⟩ := searched_load before.sound before.stored before.file before.used
        before.dirptr before.written clean placed none (.inl rfl) (Option.some.inj done).symm
      exact ⟨v, im, searched, grows, Nat.le_max_left _ _⟩

/-- The walk ends at the index block of the position. -/
theorem setupLoop_spec {fuel : Nat} (before : Searched area v im s dev f k)
    (behind : lfIdata * k ≤ (s.lfltab dev).lfpos) (done : setupLoop dev fuel s = some s') :
    ∃ v' im', Searched area v' im' s' dev f ((s.lfltab dev).lfpos / lfIdata) ∧
      Grows dev f v im s v' im' s' ∧
      (v'.chain f).length ≤ max (v.chain f).length ((s.lfltab dev).lfpos / lfIdata + 1) := by
  induction fuel generalizing v im s k with
  | zero => cases done
  | succ fuel ih =>
      obtain ⟨inum, at_, has⟩ := before.at_
      obtain ⟨-, -, -, offset⟩ := searched_next before has
      rw [setupLoop, offset] at done
      split_ifs at done with more
      · rw [has, Option.bind_some] at done
        obtain ⟨middle, stepped, rest⟩ := Option.bind_eq_some_iff.mp done
        obtain ⟨v₁, im₁, searched, grows, length⟩ := setupNext_spec before has stepped
        have pos : (middle.lfltab dev).lfpos = (s.lfltab dev).lfpos := by
          obtain ⟨_, _, _, _, control⟩ := grows.control
          rw [control]
        have further : lfIdata * (k + 1) ≤ (s.lfltab dev).lfpos := by
          simp only [posArea, lfIdata] at more ⊢
          omega
        obtain ⟨v₂, im₂, found, grows', length'⟩ := ih searched (pos ▸ further) rest
        rw [pos] at found length'
        have bound : k + 1 ≤ (s.lfltab dev).lfpos / lfIdata := by
          simp only [lfIdata] at further ⊢
          omega
        exact ⟨v₂, im₂, found, grows.trans grows', by omega⟩
      · obtain rfl : s = s' := Option.some.inj done
        have here : k = (s.lfltab dev).lfpos / lfIdata := by
          simp only [posArea, lfIdata] at more behind ⊢
          omega
        rw [← here]
        exact ⟨v, im, before, Grows.refl dev f v im s, Nat.le_max_left _ _⟩

end Next

section Data

/-- Where the blocks of a position are. -/
structure Placed (v : Ledger) (lfptr : Lflcblk) (id dnum : Nat) : Prop where
  at_ : (v.chain lfptr.lfdirptr)[lfptr.lfpos / lfIdata]? = some id
  inum : lfptr.lfinum = some id
  slot : v.slot id (lfptr.lfpos % lfIdata / lfBlksiz) = some dnum
  dnum : lfptr.lfdnum = some dnum
  byte : lfptr.lfbyte = lfptr.lfpos % lfBlksiz

theorem dindex_lt (pos : Nat) : pos % lfIdata / lfBlksiz < lfIblen := by
  simp only [lfIdata, lfBlksiz, lfIblen]
  omega

/-- What the choice of a data block changes. -/
structure Chosen (dev : Nat) (s s' : FileSystem) : Prop where
  tab : ∀ other, other ≠ dev → s'.lfltab other = s.lfltab other
  control : ∃ iblock dirty dnum dblock byte data, s'.lfltab dev = { s.lfltab dev with
    lfiblock := iblock, lfibdirty := dirty, lfdnum := dnum, lfdblock := dblock, lfbyte := byte,
    lfdbdirty := data }
  files : s'.lfDir.lfdFiles = s.lfDir.lfdFiles
  count : s'.lfDir.lfdNfiles = s.lfDir.lfdNfiles
  present : s'.lfDirpresent = s.lfDirpresent
  backed : Backed s → Backed s'

/-- The position has a data block already. -/
theorem setupData_old (before : Searched area v im s dev f ((s.lfltab dev).lfpos / lfIdata))
    {id dnum : Nat} (has : (s.lfltab dev).lfinum = some id)
    (taken : v.slot id ((s.lfltab dev).lfpos % lfIdata / lfBlksiz) = some dnum)
    (done : setupData s dev = some s') :
    Stored area none v im s' ∧ Placed v (s'.lfltab dev) id dnum ∧ Chosen dev s s' ∧
      s'.lfDir = s.lfDir ∧ s'.disk = s.disk ∧ s'.lfDirdirty = s.lfDirdirty := by
  obtain ⟨at_, block, -, -⟩ := searched_next before has
  have member : id ∈ v.chain (s.lfltab dev).lfdirptr :=
    before.dirptr.symm ▸ List.mem_of_getElem? at_
  have dba : (s.lfltab dev).lfiblock.ibDba ((s.lfltab dev).lfpos % lfIdata / lfBlksiz) =
      some dnum := by
    rw [← block, before.stored.slots _ id member (by simp) _ (dindex_lt _), taken]
  unfold setupData at done
  simp only [dba] at done
  split_ifs at done with same
  · obtain rfl := Option.some.inj done
    have self : (s.setDev dev { s.lfltab dev with
        lfbyte := (s.lfltab dev).lfpos % lfBlksiz }).lfltab dev =
          { s.lfltab dev with lfbyte := (s.lfltab dev).lfpos % lfBlksiz } :=
      Function.update_self _ _ _
    refine ⟨stored_relabel before.sound before.stored _ rfl rfl rfl rfl rfl rfl
      (fun other dirty => .inl dirty) (fun d dirty => .inl dirty), ?_,
      ⟨fun other ne => Function.update_of_ne ne _ _, ⟨_, _, _, _, _, _, self⟩, rfl, rfl, rfl, fun backed => backed⟩,
      rfl, rfl, rfl⟩
    rw [self]
    exact ⟨before.dirptr.symm ▸ at_, has, taken, same, rfl⟩
  · obtain rfl := Option.some.inj done
    have self : (s.setDev dev { s.lfltab dev with
        lfdblock := (s.disk dnum).asBytes
        lfdbdirty := false
        lfdnum := some dnum
        lfbyte := (s.lfltab dev).lfpos % lfBlksiz }).lfltab dev =
          { s.lfltab dev with
            lfdblock := (s.disk dnum).asBytes
            lfdbdirty := false
            lfdnum := some dnum
            lfbyte := (s.lfltab dev).lfpos % lfBlksiz } :=
      Function.update_self _ _ _
    have loaded : (s.disk dnum).asBytes = im.bytes dnum :=
      before.stored.dclean id _ dnum taken
        (ne_ddirty_of_apart before.sound before.stored before.used member taken before.written)
    refine ⟨?_, ?_,
      ⟨fun other ne => Function.update_of_ne ne _ _, ⟨_, _, _, _, _, _, self⟩, rfl, rfl, rfl, fun backed => backed⟩,
      rfl, rfl, rfl⟩
    · refine stored_setDev before.sound before.stored dev _ im ?_ ?_ ?_ before.stored.slots
        (fun _ => .inl rfl) (fun _ => .inl rfl) (fun other dirty => .inl dirty)
        (fun d dirty => absurd dirty (not_dDirty before.written d))
      · intro _ other ne usedOther equal
        exact ne (before.stored.distinct other dev usedOther before.used equal)
      · exact fun other _ hasOther => before.stored.held dev other before.used hasOther
      · intro d _ hasD
        obtain rfl : dnum = d := Option.some.inj hasD
        exact ⟨⟨id, _, member, taken⟩, loaded.symm⟩
    · rw [self]
      exact ⟨before.dirptr.symm ▸ at_, has, taken, rfl, rfl⟩

/-- The block in memory counts as changed. -/
def markData (s : FileSystem) (dev : Nat) : FileSystem :=
  s.setDev dev { s.lfltab dev with lfdbdirty := true }

/-- A data block is taken for the position. -/
theorem setupData_new (before : Searched area v im s dev f ((s.lfltab dev).lfpos / lfIdata))
    {id : Nat} (has : (s.lfltab dev).lfinum = some id)
    (empty : v.slot id ((s.lfltab dev).lfpos % lfIdata / lfBlksiz) = none)
    (done : setupData s dev = some s') :
    ∃ dnum im', v.dfree = dnum :: v.dfree.tail ∧
      Stored area none (v.fill id ((s.lfltab dev).lfpos % lfIdata / lfBlksiz) dnum) im'
        (markData s' dev) ∧
      Placed (v.fill id ((s.lfltab dev).lfpos % lfIdata / lfBlksiz) dnum) (s'.lfltab dev) id dnum ∧
      Chosen dev s s' ∧
      (∀ other, other ≠ id → im'.block other = im.block other) ∧
      (im'.block id).ibNext = (im.block id).ibNext ∧
      (im'.block id).ibOffset = (im.block id).ibOffset ∧
      ∀ other, other ≠ dnum → im'.bytes other = im.bytes other := by
  obtain ⟨at_, block, -, -⟩ := searched_next before has
  have member : id ∈ v.chain (s.lfltab dev).lfdirptr :=
    before.dirptr.symm ▸ List.mem_of_getElem? at_
  have dba : (s.lfltab dev).lfiblock.ibDba ((s.lfltab dev).lfpos % lfIdata / lfBlksiz) = none := by
    rw [← block, before.stored.slots _ id member (by simp) _ (dindex_lt _), empty]
  unfold setupData at done
  simp only [dba] at done
  cases alloc : lfdballoc s with
  | none => simp [alloc] at done
  | some pair =>
      obtain ⟨dnum, taken⟩ := pair
      simp only [alloc, Option.bind_eq_bind, Option.bind_some, Option.some.injEq] at done
      obtain ⟨free, allocated, equal⟩ := stored_lfdballoc before.sound before.stored alloc empty
      have sound' := sound_fill before.sound free empty (dindex_lt _) member
      have tab : taken.lfltab = s.lfltab := by rw [equal]
      have self : s'.lfltab dev = { s.lfltab dev with
          lfdblock := fun _ => dfill
          lfiblock := { (s.lfltab dev).lfiblock with
            ibDba := Function.update (s.lfltab dev).lfiblock.ibDba
              ((s.lfltab dev).lfpos % lfIdata / lfBlksiz) (some dnum) }
          lfibdirty := true
          lfdnum := some dnum
          lfbyte := (s.lfltab dev).lfpos % lfBlksiz } := by
        rw [← done]
        exact Function.update_self _ _ _
      have marked : markData s' dev = taken.setDev dev { s'.lfltab dev with lfdbdirty := true } := by
        rw [markData, ← done]
        simp [FileSystem.setDev]
      have filled : (v.fill id ((s.lfltab dev).lfpos % lfIdata / lfBlksiz) dnum).slot id
          ((s.lfltab dev).lfpos % lfIdata / lfBlksiz) = some dnum := by
        simp [Ledger.fill]
      refine ⟨dnum,
        { block := Function.update im.block id (s'.lfltab dev).lfiblock
          bytes := Function.update im.bytes dnum fun _ => dfill }, free, ?_, ?_, ?_, ?_, ?_, ?_, ?_⟩
      · rw [marked, self]
        refine stored_setDev sound' allocated dev _ _ ?_ ?_ ?_ ?_ ?_ ?_ ?_ ?_
        · intro _ other ne usedOther equalPtr
          exact ne (before.stored.distinct other dev (tab ▸ usedOther) before.used (tab ▸ equalPtr))
        · intro other _ hasOther
          obtain rfl : id = other := Option.some.inj (has.symm.trans hasOther)
          exact ⟨member, by simp⟩
        · intro d _ hasD
          obtain rfl : dnum = d := Option.some.inj hasD
          exact ⟨⟨id, _, member, filled⟩, by simp⟩
        · intro g other chained _ j inside
          by_cases same : other = id
          · subst same
            by_cases isIndex : j = (s.lfltab dev).lfpos % lfIdata / lfBlksiz
            · subst isIndex
              simp [Ledger.fill]
            · have old := before.stored.slots g other chained (by simp) j inside
              rw [block] at old
              simpa [Ledger.fill, slot_update, isIndex] using old
          · have ne : (some id : Option Nat) ≠ some other := fun equal =>
              same (Option.some.inj equal).symm
            simpa [same] using allocated.slots g other chained ne j inside
        · intro other
          by_cases same : other = id
          · subst same
            exact .inr ⟨before.used, rfl, has⟩
          · exact .inl (by simp [same])
        · intro d
          by_cases same : d = dnum
          · subst same
            exact .inr ⟨before.used, rfl, rfl⟩
          · exact .inl (by simp [same])
        · intro other dirty
          rw [tab] at dirty
          exact .inl ⟨before.used, rfl, dirty.2.2⟩
        · intro d dirty
          rw [tab] at dirty
          exact absurd dirty (not_dDirty before.written d)
      · rw [self]
        exact ⟨before.dirptr.symm ▸ at_, has, filled, rfl, rfl⟩
      · refine ⟨fun other ne => ?_, ⟨_, _, _, _, _, _, self⟩, ?_, ?_, ?_, fun _ => ?_⟩
        · rw [← done, ← tab]
          exact Function.update_of_ne ne _ _
        · rw [← done, equal]; rfl
        · rw [← done, equal]; rfl
        · rw [← done, equal]; rfl
        · have sector : Function.update s.disk 0
              (.directory { s.lfDir with lfdDfree := v.dfree.tail.head? }) 0 =
                .directory { s.lfDir with lfdDfree := v.dfree.tail.head? } :=
            Function.update_self _ _ _
          rw [← done, equal]
          exact ⟨_, sector, Nat.le_refl _⟩
      · exact fun other ne => by simp [ne]
      · simp [self, block]
      · simp [self, block]
      · exact fun other ne => by simp [ne]

end Data

end Xinu.Lfs.Position
