import Xinu.Paging.System
import Xinu.Replacement.FifoRuns

/-!
# Which pages are written back

The history of one page-table entry, from the table's creation through any number
of residencies of a page. The processor sets `pt_acc` and `pt_dirty`; the clock
moves a set dirty bit to `pt_avail`; an eviction writes the page to its backing
store when one of the two is set, and clears both. The invariant carried through
a residency is that the two bits together say whether the page was written.
-/

namespace Xinu.Replacement.ModifyBits

open Xinu.Kernel.State Xinu.Kernel.Entry Xinu.Kernel.Semaphore Xinu.Lib.StateError
open Xinu.Paging.Address Xinu.Paging.BackingStore Xinu.Paging.Ipt Xinu.Paging.Handler
open Xinu.Paging.Cpu Xinu.Paging.System

set_option autoImplicit false

def isStoreWrite : Effect → Bool
  | .writeBs .. => true
  | _ => false

/-- The transfers to backing stores so far, the last one first. -/
def storeWrites (s : St) : List Effect := s.trace.filter isStoreWrite

/-- The bits that decide whether an eviction writes. -/
def marks (word : Word) : Bool × BitVec 3 := (dirty word, avail word)

def marksView (s : St) : (Nat → Nat → Bool × BitVec 3) × List Effect :=
  (fun table index => marks (s.entry table index), storeWrites s)

section Keeps

theorem keeps_set_pres (table index : Nat) (value : Bool) :
    Keeps marksView (setEntry table index fun entry => setPres entry value) := by
  apply keeps_modify
  intro s
  have same : ∀ t i, marks ((s.setWord (table / nbpg) index
      (setPres (s.entry table index) value)).entry t i) = marks (s.entry t i) := by
    intro t i
    apply field_of_set_entry marks s table index t i fun entry => setPres entry value
    intro word
    simp [marks]
  simp only [marksView, same]
  rfl

theorem keeps_log {effect : Effect} (other : isStoreWrite effect = false) :
    Keeps marksView (log effect) := by
  apply keeps_modify
  intro s
  simp only [marksView, storeWrites, List.filter_cons, other, Bool.false_eq_true, if_false]
  rfl

variable [Config]

omit [Config] in
theorem keeps_frame_marks {α : Type} {action : Call α} (keeps : Keeps outsideView action) :
    Keeps marksView action :=
  keeps_map keeps fun outside =>
    (fun table index => marks (outside.2.1 (table / nbpg) index),
      outside.2.2.2.filter isStoreWrite)

theorem keeps_dec_ref_count (pt pd pdi : Nat) : Keeps marksView (decRefCount pt pd pdi) := by
  apply keeps_bind (keeps_bind (keeps_log rfl) fun _ => keeps_pure _)
  intro fr
  apply keeps_bind (keeps_frame_marks (keeps_modify_frame _ _))
  intro _
  apply keeps_bind (keeps_frame_marks (keeps_read_frame _))
  intro frame
  apply keeps_ite
  · apply keeps_bind (keeps_frame_marks (keeps_free_frame _))
    intro _
    exact keeps_bind (keeps_set_pres _ _ _) fun _ => keeps_log rfl
  · exact keeps_pure _

theorem keeps_evict_begin (fr : Nat) : Keeps marksView (evictBegin fr) := by
  apply keeps_bind (keeps_frame_marks (keeps_read_frame _))
  intro frame
  apply keeps_bind keeps_get
  intro s
  apply keeps_bind (keeps_set_pres _ _ _)
  intro _
  apply keeps_ite
  · apply keeps_bind (keeps_log rfl)
    intro _
    exact keeps_bind (keeps_dec_ref_count _ _ _) fun _ => keeps_pure _
  · exact keeps_bind (keeps_dec_ref_count _ _ _) fun _ => keeps_pure _

end Keeps

section Eviction

/-- The page table and the index in it through which the page in a frame is mapped. -/
def tableOf (s : St) (fr : Nat) : Nat :=
  pdi2pt s (s.ker.proctab (s.ipt fr).pid).pd (vaddr2pdi (pageAddr (s.ipt fr).vpn))

def indexOf (s : St) (fr : Nat) : Nat := vaddr2pti (pageAddr (s.ipt fr).vpn)

theorem table_of_frame (s : St) (fr : Nat) :
    tableOf s fr =
      pdi2pt s (s.ker.proctab (s.ipt fr).pid).pd (vaddr2pdi (pageAddr (s.ipt fr).vpn)) := rfl

theorem index_of_frame (s : St) (fr : Nat) :
    indexOf s fr = vaddr2pti (pageAddr (s.ipt fr).vpn) := rfl

variable [Config] {s final : St} {fr : Nat}

theorem evict_begin_entry {e : Evicted} (ran : evictBegin fr s = .ok e final) :
    e.fr = fr ∧ e.pt = tableOf s fr ∧ e.pti = indexOf s fr := by
  obtain ⟨frame, read, readRan, ran⟩ := bind_ok_inv ran
  obtain ⟨bound, rfl, rfl⟩ := read_frame_inv readRan
  rw [get_bind] at ran
  obtain ⟨_, cleared, _, ran⟩ := bind_ok_inv ran
  have finish : ∀ {middle : St} {pt pd pdi : Nat} {given : Evicted},
      (do decRefCount pt pd pdi; pure given : Call Evicted) middle = .ok e final → e = given := by
    intro middle pt pd pdi given ran
    obtain ⟨_, _, _, ran⟩ := bind_ok_inv ran
    cases ran
    rfl
  split at ran
  · obtain ⟨_, _, _, ran⟩ := bind_ok_inv ran
    rw [finish ran]
    exact ⟨rfl, rfl, rfl⟩
  · rw [finish ran]
    exact ⟨rfl, rfl, rfl⟩

omit [Config] in
theorem get_bs_info_state {pid : Int} {vaddr : Nat} {place : Int × Nat}
    (ran : getBsInfo pid vaddr s = .ok place final) : final = s := by
  unfold getBsInfo at ran
  rw [get_bind] at ran
  split at ran
  · cases ran
  · cases ran
    rfl

omit [Config] in
/-- `write_bs` records one transfer and leaves every page table alone. -/
theorem write_bs_marks {src page : Nat} {bsId status : Int}
    (ran : writeBs src bsId page s = .ok status final) :
    storeWrites final = .writeBs src bsId page :: storeWrites s ∧
      ∀ t i, marks (final.entry t i) = marks (s.entry t i) := by
  obtain ⟨_, logged, logRan, ran⟩ := bind_ok_inv ran
  have rest : Keeps marksView (do
      let s ← get
      if s.ker.pageServerActive = false then pure sysErr
      else if maxId < bsId ∨ bsId < minId then pure sysErr
      else do
        wait .bsSem
        let s ← get
        if BadStorePage s.ker bsId page then do
          signal .bsSem
          pure sysErr
        else do
          signal .bsSem
          modify fun s => { s with
            disk := fun block word =>
              if pageBlock bsId page ≤ block ∧ block < pageBlock bsId page + 8 then
                s.mem (src / nbpg) ((block - pageBlock bsId page) * 128 + word)
              else s.disk block word }
          pure ok) := by
    apply keeps_bind keeps_get
    intro s
    apply keeps_ite (keeps_pure _)
    apply keeps_ite (keeps_pure _)
    apply keeps_bind (wait_keeps _ fun _ _ _ => rfl)
    intro _
    apply keeps_bind keeps_get
    intro s
    apply keeps_ite
    · exact keeps_bind (signal_keeps _ fun _ _ _ => rfl) fun _ => keeps_pure _
    · apply keeps_bind (signal_keeps _ fun _ _ _ => rfl)
      intro _
      exact keeps_bind (keeps_modify fun _ => rfl) fun _ => keeps_pure _
  have kept := keeps_ok rest ran
  cases logRan
  simp only [marksView, Prod.mk.injEq] at kept
  refine ⟨kept.2, fun t i => ?_⟩
  exact congrFun (congrFun kept.1 t) i

omit [Config] in
/-- What is left of an eviction once the page is unmapped. -/
theorem evict_write_marks {e : Evicted} (ran : evictWrite e s = .ok () final) :
    (∃ bsd offset, storeWrites final =
      .writeBs (frameNum2ptr e.fr) bsd offset :: storeWrites s) ∧
      marks (final.entry e.pt e.pti) = (false, 0) := by
  obtain ⟨⟨bsd, offset⟩, located, locateRan, writing⟩ := bind_ok_inv ran
  rw [get_bs_info_state locateRan] at writing
  obtain ⟨status, written, writeRan, clearing⟩ := bind_ok_inv writing
  obtain ⟨transfer, _⟩ := write_bs_marks writeRan
  split at clearing
  · cases clearing
  · cases clearing
    refine ⟨⟨bsd, offset, transfer⟩, ?_⟩
    have dirtyKept := field_of_set_entry dirty
      (written.setWord (e.pt / nbpg) e.pti (setDirty (written.entry e.pt e.pti) false))
      e.pt e.pti e.pt e.pti (fun entry => setAvail entry 0) (by simp)
    have cleared : dirty ((written.setWord (e.pt / nbpg) e.pti
        (setDirty (written.entry e.pt e.pti) false)).entry e.pt e.pti) = false := by
      rw [entry_set_word, if_pos ⟨rfl, rfl⟩, dirty_set_dirty]
    refine Prod.ext (dirtyKept.trans cleared) ?_
    change avail (St.entry _ _ _) = 0
    rw [entry_set_word, if_pos ⟨rfl, rfl⟩, avail_set_avail]

/-- The page is written when one of the two marks is set, and afterwards neither is. -/
theorem evict_frame_marks (ran : evictFrame fr s = .ok () final)
    (known : avail (s.entry (tableOf s fr) (indexOf s fr)) = 0 ∨
      avail (s.entry (tableOf s fr) (indexOf s fr)) = 1) :
    (if dirty (s.entry (tableOf s fr) (indexOf s fr)) = true ∨
          avail (s.entry (tableOf s fr) (indexOf s fr)) = 1 then
        ∃ bsd offset, storeWrites final = .writeBs (frameNum2ptr fr) bsd offset :: storeWrites s
      else storeWrites final = storeWrites s) ∧
      marks (final.entry (tableOf s fr) (indexOf s fr)) = (false, 0) := by
  obtain ⟨e, begun, beginRan, ran⟩ := bind_ok_inv ran
  obtain ⟨frEq, ptEq, ptiEq⟩ := evict_begin_entry beginRan
  have kept := keeps_ok (keeps_evict_begin fr) beginRan
  simp only [marksView, Prod.mk.injEq] at kept
  have same : marks (begun.entry e.pt e.pti) = marks (s.entry e.pt e.pti) :=
    congrFun (congrFun kept.1 _) _
  have sameDirty : dirty (begun.entry e.pt e.pti) = dirty (s.entry e.pt e.pti) :=
    congrArg Prod.fst same
  have sameAvail : avail (begun.entry e.pt e.pti) = avail (s.entry e.pt e.pti) :=
    congrArg Prod.snd same
  rw [← ptEq, ← ptiEq] at known ⊢
  have test : needsWrite begun e = true ↔
      dirty (s.entry e.pt e.pti) = true ∨ avail (s.entry e.pt e.pti) = 1 := by
    unfold needsWrite
    rw [sameDirty, sameAvail]
    simp
  rw [get_bind] at ran
  by_cases marked : dirty (s.entry e.pt e.pti) = true ∨ avail (s.entry e.pt e.pti) = 1
  · rw [if_pos (test.mpr marked)] at ran
    obtain ⟨_, written, writeRan, ran⟩ := bind_ok_inv ran
    obtain ⟨⟨bsd, offset, transfer⟩, clean⟩ := evict_write_marks writeRan
    rw [if_pos marked]
    rw [frEq, kept.2] at transfer
    cases ran
    exact ⟨⟨bsd, offset, transfer⟩, clean⟩
  · rw [if_neg (fun needs => marked (test.mp needs))] at ran
    rw [if_neg marked]
    cases ran
    refine ⟨kept.2, same.trans ?_⟩
    rw [not_or] at marked
    have noAvail := known.resolve_right marked.2
    simp only [marks, noAvail, Bool.not_eq_true] at marked ⊢
    rw [marked.1]

end Eviction

section Visit

/-- What `getAndSetUM` makes of an entry, and what it reports. -/
def visited (entry : Word) : Word :=
  if acc entry && dirty entry then setAvail (setDirty entry false) 1
  else if acc entry then setAcc entry false
  else entry

def useModify (entry : Word) : UseModify :=
  if acc entry && dirty entry then .um11 else if acc entry then .um10 else .um00

theorem base_visited (entry : Word) : base (visited entry) = base entry := by
  unfold visited
  split
  · simp
  · split
    · simp
    · rfl

theorem pres_visited (entry : Word) : pres (visited entry) = pres entry := by
  unfold visited
  split
  · simp
  · split
    · simp
    · rfl

/-- `getAndSetUM` of a frame with this entry in `ipt` -/
def setUM (frame : Frame) : Call UseModify := do
  if Skipped frame then pure .skipFrame
  else do
    let s ← get
    let pd := (s.ker.proctab frame.pid).pd
    let a := pageAddr frame.vpn
    let pti := vaddr2pti a
    let pt := pdi2pt s pd (vaddr2pdi a)
    let use := acc (s.entry pt pti)
    let mod := dirty (s.entry pt pti)
    if use && mod then do
      setEntry pt pti fun entry => setDirty entry false
      setEntry pt pti fun entry => setAvail entry 1
      pure .um11
    else if use && !mod then do
      setEntry pt pti fun entry => setAcc entry false
      pure .um10
    else if !use && !mod then pure .um00
    else throw (.panic "getAndSetUM: invalid bit state\n")

variable {s : St} {fr : Nat}

theorem set_um_skipped (skipped : Skipped (s.ipt fr)) :
    setUM (s.ipt fr) s = .ok .skipFrame s := by
  unfold setUM
  rw [if_pos skipped]
  rfl

/-- A visit of a page whose entry is not dirty without being accessed. -/
theorem set_um_page (notSkipped : ¬Skipped (s.ipt fr))
    (proper : dirty (s.entry (tableOf s fr) (indexOf s fr)) = true →
      acc (s.entry (tableOf s fr) (indexOf s fr)) = true) :
    setUM (s.ipt fr) s = .ok (useModify (s.entry (tableOf s fr) (indexOf s fr)))
      (s.setWord (tableOf s fr / nbpg) (indexOf s fr)
        (visited (s.entry (tableOf s fr) (indexOf s fr)))) := by
  unfold setUM
  rw [if_neg notSkipped, get_bind]
  rw [← table_of_frame, ← index_of_frame]
  unfold useModify visited
  cases used : acc (s.entry (tableOf s fr) (indexOf s fr)) with
  | true =>
      cases modified : dirty (s.entry (tableOf s fr) (indexOf s fr)) with
      | true =>
          simp only [Bool.and_self, if_true]
          rw [bind_ok (set_entry_ok _ _ _ _), bind_ok (set_entry_ok _ _ _ _), entry_set_word,
            if_pos ⟨rfl, rfl⟩]
          exact congrArg (EStateM.Result.ok _) (set_word_set_word _ _ _ _ _)
      | false =>
          simp only [Bool.and_false, Bool.false_eq_true, if_false, if_true, Bool.not_false,
            Bool.and_self]
          rfl
  | false =>
      have clean : dirty (s.entry (tableOf s fr) (indexOf s fr)) = false := by
        cases modified : dirty (s.entry (tableOf s fr) (indexOf s fr)) with
        | false => rfl
        | true => exact absurd (proper modified) (by rw [used]; decide)
      simp only [clean, Bool.and_self, Bool.false_eq_true, if_false, Bool.false_and, Bool.not_false,
        if_true, set_word_self]
      rfl

variable [Config]

theorem get_and_set_um_eq (bound : fr < nframes) : getAndSetUM fr s = setUM (s.ipt fr) s := by
  unfold getAndSetUM setUM
  rw [bind_ok (read_frame_ok bound)]

theorem visit_skipped (bound : fr < nframes) (skipped : Skipped (s.ipt fr)) :
    getAndSetUM fr s = .ok .skipFrame s := by
  rw [get_and_set_um_eq bound]
  exact set_um_skipped skipped

theorem visit_page (bound : fr < nframes) (notSkipped : ¬Skipped (s.ipt fr))
    (proper : dirty (s.entry (tableOf s fr) (indexOf s fr)) = true →
      acc (s.entry (tableOf s fr) (indexOf s fr)) = true) :
    getAndSetUM fr s = .ok (useModify (s.entry (tableOf s fr) (indexOf s fr)))
      (s.setWord (tableOf s fr / nbpg) (indexOf s fr)
        (visited (s.entry (tableOf s fr) (indexOf s fr)))) := by
  rw [get_and_set_um_eq bound]
  exact set_um_page notSkipped proper

end Visit

section Life

inductive Phase where
  | idle
  | resident (fr : Nat) (written : Bool)

/-- The access of the current process is translated by this entry. -/
def Translates (s : St) (a pt pti : Nat) : Prop :=
  pdi2pt s (currentPd s) (vaddr2pdi a) = pt ∧ vaddr2pti a = pti

instance (s : St) (a pt pti : Nat) : Decidable (Translates s a pt pti) :=
  inferInstanceAs (Decidable (_ ∧ _))

variable [Config]

/-- The page in a frame is mapped by this entry. -/
def MappedBy (s : St) (fr pt pti : Nat) : Prop :=
  fr < nframes ∧ tableOf s fr = pt ∧ indexOf s fr = pti

instance (s : St) (fr pt pti : Nat) : Decidable (MappedBy s fr pt pti) :=
  inferInstanceAs (Decidable (_ ∧ _ ∧ _))

/-- What can happen to an entry: its table is created; a page is installed in it;
the processor reads or writes the page, the clock visits it, anything else happens
elsewhere, in any order; the page is evicted, and so on. `written` records whether
the processor has written to the page since it was installed. -/
inductive Life (pt pti : Nat) : St → Phase → Prop
  | created {s final : St} {pid : Int} (ran : newPageTable pid s = .ok pt final)
      (isFrame : pt ≠ sysErrPtr) : Life pt pti final .idle
  | unused {s final : St} (life : Life pt pti s .idle)
      (kept : final.entry pt pti = s.entry pt pti) : Life pt pti final .idle
  | installed {s final : St} {pid : Int} {a fr : Nat} (life : Life pt pti s .idle)
      (ran : pfInstall pid a pt (frameNum2ptr fr) s = .ok () final)
      (apart : frameNum2ptr fr / nbpg ≠ pt / nbpg) (mapped : MappedBy final fr pt pti) :
      Life pt pti final (.resident fr false)
  | read {s final : St} {a fr : Nat} {written : Bool} (life : Life pt pti s (.resident fr written))
      (translates : Translates s a pt pti) (ran : touch a false s = .ok () final) :
      Life pt pti final (.resident fr written)
  | write {s final : St} {a fr : Nat} {written : Bool} (life : Life pt pti s (.resident fr written))
      (translates : Translates s a pt pti) (ran : touch a true s = .ok () final) :
      Life pt pti final (.resident fr true)
  | visit {s final : St} {fr : Nat} {written : Bool} {bits : UseModify}
      (life : Life pt pti s (.resident fr written)) (ran : getAndSetUM fr s = .ok bits final) :
      Life pt pti final (.resident fr written)
  | elsewhere {s final : St} {fr : Nat} {written : Bool}
      (life : Life pt pti s (.resident fr written)) (kept : final.entry pt pti = s.entry pt pti)
      (mapped : MappedBy final fr pt pti) : Life pt pti final (.resident fr written)
  | evicted {s final : St} {fr : Nat} {written : Bool} (life : Life pt pti s (.resident fr written))
      (ran : evictFrame fr s = .ok () final) : Life pt pti final .idle

/-- The bits of a resident page: never dirty without accessed, and one of the two
marks is set exactly when the page was written. -/
structure Tracks (entry : Word) (written : Bool) : Prop where
  proper : dirty entry = true → acc entry = true
  known : avail entry = 0 ∨ avail entry = 1
  modified : dirty entry = true ∨ avail entry = 1 ↔ written = true

def Holds (s : St) (pt pti : Nat) : Phase → Prop
  | .idle => marks (s.entry pt pti) = (false, 0)
  | .resident fr written => MappedBy s fr pt pti ∧ Tracks (s.entry pt pti) written

section Words

omit [Config]

variable {entry : Word} {written : Bool}

theorem tracks_clean (clean : marks entry = (false, 0)) : Tracks entry false := by
  simp only [marks, Prod.mk.injEq] at clean
  refine ⟨?_, Or.inl clean.2, ?_⟩
  · simp [clean.1]
  · simp [clean.1, clean.2]

theorem tracks_read (tracks : Tracks entry written) : Tracks (setAcc entry true) written := by
  obtain ⟨_, known, modified⟩ := tracks
  refine ⟨?_, ?_, ?_⟩
  · simp
  · simpa using known
  · simpa using modified

theorem tracks_write (tracks : Tracks entry written) :
    Tracks (setDirty (setAcc entry true) true) true := by
  refine ⟨?_, ?_, ?_⟩
  · simp
  · simpa using tracks.known
  · simp

/-- The clock moves the mark of a modified page from one bit to the other. -/
theorem tracks_visited (tracks : Tracks entry written) : Tracks (visited entry) written := by
  obtain ⟨proper, known, modified⟩ := tracks
  unfold visited
  split
  · rename_i both
    simp only [Bool.and_eq_true] at both
    refine ⟨by simp, by simp, ?_⟩
    simpa using modified.mp (Or.inl both.2)
  · rename_i notBoth
    split
    · rename_i used
      have clean : dirty entry = false := by
        simpa [used] using notBoth
      refine ⟨?_, ?_, ?_⟩
      · simp [clean]
      · simpa using known
      · simpa using modified
    · exact ⟨proper, known, modified⟩

end Words

section Steps

variable {s final : St} {pt pti fr a : Nat} {written : Bool}

omit [Config] in
theorem entry_set_page (s : St) (page table index : Nat) (words : Nat → Word) :
    (s.setPage page words).entry table index =
      if table / nbpg = page then words index else s.entry table index := rfl

/-- Every entry of a new page table is clean. -/
theorem new_page_table_clean {pid : Int} (ran : newPageTable pid s = .ok pt final)
    (isFrame : pt ≠ sysErrPtr) : marks (final.entry pt pti) = (false, 0) := by
  obtain ⟨faddr, allocated, _, ran⟩ := bind_ok_inv ran
  split at ran
  · cases ran
    exact absurd rfl isFrame
  · rw [modify_bind, bind_ok (faddr_to_frame_num_ok _ _)] at ran
    obtain ⟨_, blanked, logRan, ran⟩ := bind_ok_inv ran
    have entries : ∀ index, blanked.entry faddr index =
        blankPTE (allocated.mem (faddr / nbpg) index) := by
      intro index
      have keeps : Keeps (fun s : St => s.entry faddr index)
          (log (.hookPtableCreate (frameNumOf faddr + frame0))) := keeps_modify fun _ => rfl
      rw [keeps_ok keeps logRan]
      simp only [St.entry, St.setPage, if_true]
    cases ran
    rw [entries, marks, dirty_blank, avail_blank]

omit [Config] in
theorem read_bs_entry {dst page : Nat} {bsId status : Int}
    (ran : readBs dst bsId page s = .ok status final) (apart : dst / nbpg ≠ pt / nbpg) :
    final.entry pt pti = s.entry pt pti := by
  have keeps : Keeps (fun s : St => s.entry pt pti) (readBs dst bsId page) := by
    apply keeps_bind
    · exact keeps_modify fun _ => rfl
    intro _
    apply keeps_bind keeps_get
    intro s
    apply keeps_ite (keeps_pure _)
    apply keeps_ite (keeps_pure _)
    apply keeps_bind (wait_keeps _ fun _ _ _ => rfl)
    intro _
    apply keeps_bind keeps_get
    intro s
    apply keeps_ite
    · exact keeps_bind (signal_keeps _ fun _ _ _ => rfl) fun _ => keeps_pure _
    · apply keeps_bind (signal_keeps _ fun _ _ _ => rfl)
      intro _
      apply keeps_ite (keeps_throw _)
      apply keeps_bind
      · apply keeps_modify
        intro s
        rw [entry_set_page, if_neg (Ne.symm apart)]
      intro _
      exact keeps_pure _
  exact keeps_ok keeps ran

/-- Installing a page maps it without touching its marks. -/
theorem install_marks {pid : Int} {faddr : Nat} (ran : pfInstall pid a pt faddr s = .ok () final)
    (apart : faddr / nbpg ≠ pt / nbpg) : marks (final.entry pt pti) = marks (s.entry pt pti) := by
  unfold pfInstall at ran
  rw [bind_ok (faddr_to_frame_num_ok _ _)] at ran
  obtain ⟨⟨bsd, offset⟩, located, locateRan, ran⟩ := bind_ok_inv ran
  have same := get_bs_info_state locateRan
  subst same
  obtain ⟨status, filled, readRan, ran⟩ := bind_ok_inv ran
  have kept : filled.entry pt pti = s.entry pt pti := (read_bs_entry readRan apart).trans rfl
  split at ran
  · cases ran
  · have mapped : Keeps (fun s : St => marks (s.entry pt pti)) (do
        incRefCount pt
        setEntry pt (vaddr2pti a) fun entry => setPres entry true
        setPTEAddr pt (vaddr2pti a) faddr
        log (.hookPfault pid a (vaddr2vpn a) (frameNumOf faddr + frame0))) := by
      have field : ∀ change : Word → Word, (∀ word, marks (change word) = marks word) →
          Keeps (fun s : St => marks (s.entry pt pti)) (setEntry pt (vaddr2pti a) change) := by
        intro change kept
        apply keeps_modify
        intro s
        exact field_of_set_entry marks s pt (vaddr2pti a) pt pti change kept
      have logged : ∀ effect, Keeps (fun s : St => marks (s.entry pt pti)) (log effect) :=
        fun effect => keeps_modify fun _ => rfl
      apply keeps_bind
      · apply keeps_bind (logged _)
        intro _
        exact keeps_ite (keeps_modify fun _ => rfl) (keeps_throw _)
      intro _
      apply keeps_bind (field _ (by simp [marks]))
      intro _
      apply keeps_bind (keeps_bind (logged _) fun _ => field _ (by simp [marks]))
      intro _
      exact logged _
    exact (keeps_ok mapped ran).trans (congrArg marks kept)

omit [Config] in
theorem touch_state {write : Bool} (translates : Translates s a pt pti)
    (ran : touch a write s = .ok () final) :
    final = s.setWord (pt / nbpg) pti
      (if write then setDirty (setAcc (s.entry pt pti) true) true
        else setAcc (s.entry pt pti) true) := by
  obtain ⟨rfl, rfl⟩ := translates
  cases ran
  rfl

omit [Config] in
theorem pdi_to_pt_set_word (s : St) (table index pd pdi : Nat) {word : Word}
    (kept : base word = base (s.entry table index)) :
    pdi2pt (s.setWord (table / nbpg) index word) pd pdi = pdi2pt s pd pdi := by
  unfold pdi2pt
  rw [entry_set_word]
  split
  · rename_i here
    rw [kept, St.entry, St.entry, here.1, here.2]
  · rfl

/-- A change of an entry that keeps its base moves no page. -/
theorem mapped_by_set_word {word : Word} (mapped : MappedBy s fr pt pti)
    (kept : base word = base (s.entry pt pti)) :
    MappedBy (s.setWord (pt / nbpg) pti word) fr pt pti := by
  obtain ⟨bound, table, index⟩ := mapped
  exact ⟨bound, (pdi_to_pt_set_word s pt pti _ _ kept).trans table, index⟩

theorem holds_set_word {word : Word} (holds : Holds s pt pti (.resident fr written))
    (kept : base word = base (s.entry pt pti)) {now : Bool} (tracks : Tracks word now) :
    Holds (s.setWord (pt / nbpg) pti word) pt pti (.resident fr now) := by
  refine ⟨mapped_by_set_word holds.1 kept, ?_⟩
  rw [entry_set_word, if_pos ⟨rfl, rfl⟩]
  exact tracks

/-- The clock meets a resident page without a panic. -/
theorem visit_holds (holds : Holds s pt pti (.resident fr written)) :
    ∃ bits after, getAndSetUM fr s = .ok bits after ∧ Holds after pt pti (.resident fr written) := by
  obtain ⟨⟨bound, table, index⟩, tracks⟩ := holds
  by_cases skipped : Skipped (s.ipt fr)
  · exact ⟨_, s, visit_skipped bound skipped, ⟨bound, table, index⟩, tracks⟩
  · have proper := tracks.proper
    rw [← table, ← index] at proper
    refine ⟨_, _, visit_page bound skipped proper, ?_⟩
    rw [table, index]
    exact holds_set_word ⟨⟨bound, table, index⟩, tracks⟩ (base_visited _) (tracks_visited tracks)

end Steps

variable {pt pti : Nat}

theorem life_holds {s : St} {phase : Phase} (life : Life pt pti s phase) : Holds s pt pti phase := by
  induction life with
  | created ran isFrame => exact new_page_table_clean ran isFrame
  | unused _ kept clean =>
      unfold Holds
      rw [kept]
      exact clean
  | installed _ ran apart mapped clean =>
      exact ⟨mapped, tracks_clean ((install_marks ran apart).trans clean)⟩
  | read _ translates ran holds =>
      rw [touch_state translates ran]
      exact holds_set_word holds (by simp) (tracks_read holds.2)
  | write _ translates ran holds =>
      rw [touch_state translates ran]
      exact holds_set_word holds (by simp) (tracks_write holds.2)
  | visit _ ran holds =>
      obtain ⟨bits, after, visited, kept⟩ := visit_holds holds
      rw [visited] at ran
      cases ran
      exact kept
  | elsewhere _ kept mapped holds =>
      refine ⟨mapped, ?_⟩
      rw [kept]
      exact holds.2
  | @evicted s final fr written _ ran holds =>
      obtain ⟨⟨_, table, index⟩, tracks⟩ := holds
      have evicted := evict_frame_marks ran
      rw [table, index] at evicted
      exact (evicted tracks.known).2

end Life

section Example

abbrev nine : Config := smallConfig 9 (by decide) (by decide)

/-- One process with a directory in frame 6, a page table in frame 7 and a page,
which it writes to, in frame 8. -/
def oneProcess : St :=
  finalState (@bootAndRun nine gca Fixed _ [.vcreate 1024 1 20, .resume 1, .resched 1] blankMachine)

def oneTable : St := finalState (@newPageTable nine 1 oneProcess)

def oneTableMapped : Call Nat := do
  setPDEAddr (frameNum2ptr 6) 4 (frameNum2ptr 7)
  setEntry (frameNum2ptr 6) 4 fun entry => setPres entry true
  @getNewFrame nine .page 1 4096

def onePage : St :=
  finalState (@pfInstall nine 1 0x1000000 (frameNum2ptr 7) (frameNum2ptr 8)
    (finalState (oneTableMapped oneTable)))

def onePageWritten : St := finalState (touch 0x1000000 true onePage)

theorem one_page_life :
    @Life nine (frameNum2ptr 7) 0 onePageWritten (.resident 8 true) := by
  have made : @newPageTable nine 1 oneProcess = .ok (frameNum2ptr 7) oneTable :=
    returned_with (by decide +kernel)
  have created := @Life.created nine _ 0 _ _ _ made (by decide)
  have mapped := @Life.unused nine _ _ _ (finalState (oneTableMapped oneTable)) created
    (by decide +kernel)
  have installed := @Life.installed nine _ _ _ onePage _ _ 8 mapped
    (returned_unit (by decide +kernel)) (by decide) (by decide +kernel)
  exact @Life.write nine _ _ _ onePageWritten 0x1000000 _ _ installed (by decide +kernel) rfl

end Example

end Xinu.Replacement.ModifyBits
