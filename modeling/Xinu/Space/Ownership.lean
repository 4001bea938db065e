import Xinu.Space.Service

/-!
# Who the frames belong to

Every frame with a directory or a page table has an owner whose entries lead to it. What
the processes share is never touched: the tables of the kernel and of the devices, which
map these to themselves, and the entries of all directories that lead there.
-/

namespace Xinu.Space.Ownership

open Xinu.Kernel.State Xinu.Kernel.Entry Xinu.Lib.Counting Xinu.Lib.StateError
open Xinu.Paging.Address Xinu.Paging.Ipt Xinu.Replacement.Fifo
open Xinu.Space.Agreement Xinu.Space.Unmap Xinu.Space.Link Xinu.Space.Transfers
open Xinu.Space.Evict Xinu.Space.Choice Xinu.Space.Allocate Xinu.Space.Fault Xinu.Space.Service

set_option autoImplicit false

/-- The entries of a page table map its pages to the frames from `first` on. -/
def Identity (words : Nat → Word) (first : Nat) : Prop :=
  ∀ pti < 1024, pres (words pti) = true ∧ base (words pti) = first + pti

variable [Config]

section Definitions

/-- Frames with directories and page tables belong to those who use them. The frame
`loose` is exempt: it has been allocated, and nothing leads to it yet. -/
structure Owned (s : St) (loose : Nat) : Prop where
  dirs : ∀ fr < nframes, (s.ipt fr).status = .pdir → fr ≠ loose →
    ∃ pid, Live s pid ∧ (s.ipt fr).pid = pid ∧ (s.ker.proctab pid).pd = frameNum2ptr fr
  tabs : ∀ fr < nframes, (s.ipt fr).status = .ptab → fr ≠ loose → (s.ipt fr).pid ≠ global →
    ∃ pid pdi, HeapLive s pid ∧ Private pdi ∧ pres (pdeOf s pid pdi) = true ∧
      base (pdeOf s pid pdi) = frame0 + fr

/-- What the kernel keeps for all processes. -/
structure Rooted (s : St) : Prop where
  null : Live s nullproc
  gpd : s.ker.gpd = (s.ker.proctab nullproc).pd
  gpt : ∀ j < numGlobalPt, s.ker.gpt j = frameNum2ptr j
  dpt : s.ker.dpt = frameNum2ptr numGlobalPt
  device : IsTable s numGlobalPt global
  kernel : ∀ j < numGlobalPt, Identity (s.mem (frame0 + j)) (j * 1024)
  devices : Identity (s.mem (frame0 + numGlobalPt)) (devMemStart / nbpg)
  entries : ∀ pid, Live s pid → pres (pdeOf s pid devMemPdIndex) = true ∧
    base (pdeOf s pid devMemPdIndex) = frame0 + numGlobalPt
  plain : ∀ pid, Live s pid → (s.ker.proctab pid).vh = false → (s.ker.proctab pid).hsize = 0

/-- Shared frames and the directories of those that stay are left alone. -/
structure Stays (s final : St) : Prop where
  roots : final.ker.gpt = s.ker.gpt ∧ final.ker.dpt = s.ker.dpt ∧ final.ker.gpd = s.ker.gpd
  shared : ∀ fr, IsTable s fr global → core (final.ipt fr) = core (s.ipt fr) ∧
    ∀ i, pres (final.mem (frame0 + fr) i) = pres (s.mem (frame0 + fr) i) ∧
      base (final.mem (frame0 + fr) i) = base (s.mem (frame0 + fr) i)
  procs : ∀ pid, Live s pid → Live final pid →
    space (final.ker.proctab pid) = space (s.ker.proctab pid)
  dirs : ∀ pid, Live s pid → Live final pid → ∀ d < nframes,
    (s.ker.proctab pid).pd = frameNum2ptr d → core (final.ipt d) = core (s.ipt d)
  entries : ∀ pid, Live s pid → Live final pid → ∀ pdi < 1024, ¬Private pdi →
    pres (pdeOf final pid pdi) = pres (pdeOf s pid pdi) ∧
      base (pdeOf final pid pdi) = base (pdeOf s pid pdi)

end Definitions

variable {s t final : St} {limbo loose fr table vpn : Nat} {fresh : List Nat} {pid : Int}

section Congruence

theorem owned_of_alike (tables : Tables s limbo fresh) (alike : Alike s t)
    (owned : Owned s loose) : Owned t loose := by
  have status : ∀ x, (t.ipt x).status = (s.ipt x).status := fun x => core_status (alike.frames x)
  have owner : ∀ x, (t.ipt x).pid = (s.ipt x).pid :=
    fun x => congrArg (fun view => view.2.1) (alike.frames x)
  have pd : ∀ q, (t.ker.proctab q).pd = (s.ker.proctab q).pd :=
    fun q => congrArg (fun view => view.2.2.1) (alike.procs q)
  refine ⟨?_, ?_⟩
  · intro x bound isDir notLoose
    rw [status] at isDir
    obtain ⟨q, live, isOwner, directory⟩ := owned.dirs x bound isDir notLoose
    exact ⟨q, (live_of_space (alike.procs q)).mpr live, (owner x).trans isOwner,
      (pd q).trans directory⟩
  · intro x bound isTab notLoose isPrivate
    rw [status] at isTab
    rw [owner] at isPrivate
    obtain ⟨q, pdi, live, own, present, address⟩ := owned.tabs x bound isTab notLoose isPrivate
    have same := alike_pde tables alike live.1 pdi
    exact ⟨q, pdi, (heap_live_of_space (alike.procs q)).mpr live, own, same.1.trans present,
      same.2.trans address⟩

theorem stays_of_alike (tables : Tables s limbo fresh) (alike : Alike s t)
    (roots : t.ker.gpt = s.ker.gpt ∧ t.ker.dpt = s.ker.dpt ∧ t.ker.gpd = s.ker.gpd) :
    Stays s t where
  roots := roots
  shared := fun fr isTable =>
    ⟨alike.frames fr, alike.words fr isTable.1 (Or.inr isTable.2.1)⟩
  procs := fun pid _ _ => alike.procs pid
  dirs := fun _ _ _ d _ _ => alike.frames d
  entries := fun _ live _ pdi _ _ => alike_pde tables alike live pdi

theorem stays_trans (first : Stays s t) (second : Stays t final)
    (live : ∀ pid, Live s pid → Live final pid → Live t pid) : Stays s final := by
  have isTable : ∀ fr, IsTable s fr global → IsTable t fr global := by
    intro fr table
    have same := (first.shared fr table).1
    simp only [core, Prod.mk.injEq] at same
    exact ⟨table.1, same.1.trans table.2.1, same.2.1.trans table.2.2⟩
  refine ⟨⟨second.roots.1.trans first.roots.1, second.roots.2.1.trans first.roots.2.1,
    second.roots.2.2.trans first.roots.2.2⟩, ?_, ?_, ?_, ?_⟩
  · intro fr table
    obtain ⟨core, words⟩ := first.shared fr table
    obtain ⟨core', words'⟩ := second.shared fr (isTable fr table)
    exact ⟨core'.trans core, fun i => ⟨(words' i).1.trans (words i).1,
      (words' i).2.trans (words i).2⟩⟩
  · intro pid before after
    exact (second.procs pid (live pid before after) after).trans
      (first.procs pid before (live pid before after))
  · intro pid before after d bound directory
    have between := live pid before after
    have same : (t.ker.proctab pid).pd = (s.ker.proctab pid).pd :=
      congrArg (fun view => view.2.2.1) (first.procs pid before between)
    exact (second.dirs pid between after d bound (same.trans directory)).trans
      (first.dirs pid before between d bound directory)
  · intro pid before after pdi bound notPrivate
    have between := live pid before after
    have left := first.entries pid before between pdi bound notPrivate
    have right := second.entries pid between after pdi bound notPrivate
    exact ⟨right.1.trans left.1, right.2.trans left.2⟩

/-- The roots survive whatever leaves them alone. -/
theorem rooted_stays (rooted : Rooted s) (tables : Tables s limbo fresh) (stays : Stays s final)
    (null : Live final nullproc)
    (joined : ∀ pid, Live final pid → ¬Live s pid →
      (pres (pdeOf final pid devMemPdIndex) = true ∧
        base (pdeOf final pid devMemPdIndex) = frame0 + numGlobalPt) ∧
      ((final.ker.proctab pid).vh = false → (final.ker.proctab pid).hsize = 0)) :
    Rooted final := by
  have nullSpace := stays.procs nullproc rooted.null null
  have deviceSame := stays.shared numGlobalPt rooted.device
  have notPrivate : ¬Private devMemPdIndex := fun own => own.2.2 rfl
  refine ⟨null, ?_, ?_, ?_, ?_, ?_, ?_, ?_, ?_⟩
  · have pd : (final.ker.proctab nullproc).pd = (s.ker.proctab nullproc).pd :=
      congrArg (fun view => view.2.2.1) nullSpace
    rw [stays.roots.2.2, pd]
    exact rooted.gpd
  · rw [stays.roots.1]
    exact rooted.gpt
  · rw [stays.roots.2.1]
    exact rooted.dpt
  · have same := deviceSame.1
    simp only [core, Prod.mk.injEq] at same
    exact ⟨rooted.device.1, same.1.trans rooted.device.2.1, same.2.1.trans rooted.device.2.2⟩
  · intro j bound pti inside
    obtain ⟨_, words⟩ := stays.shared j (tables.globals j bound).1
    rw [(words pti).1, (words pti).2]
    exact rooted.kernel j bound pti inside
  · intro pti inside
    rw [(deviceSame.2 pti).1, (deviceSame.2 pti).2]
    exact rooted.devices pti inside
  · intro pid live
    by_cases before : Live s pid
    · have same := stays.entries pid before live devMemPdIndex (by decide) notPrivate
      rw [same.1, same.2]
      exact rooted.entries pid before
    · exact (joined pid live before).1
  · intro pid live
    by_cases before : Live s pid
    · have same := stays.procs pid before live
      simp only [space, Prod.mk.injEq] at same
      rw [same.2.1, same.2.2.2]
      exact rooted.plain pid before
    · exact (joined pid live before).2

end Congruence

section Allocation

variable {type : FrameStatus} {number : Int}

theorem mapping_looked {owner : Int} {page d : Nat} {chosen : St} (looked : Looked s chosen)
    (mapping : Mapping chosen fr owner page d table) : Mapping s fr owner page d table := by
  have ker := looked.ker
  have frames : ∀ x, core (chosen.ipt x) = core (s.ipt x) := looked.frames
  have pde : ∀ k, pres (pdeOf chosen owner k) = pres (pdeOf s owner k) ∧
      base (pdeOf chosen owner k) = base (pdeOf s owner k) := by
    intro k
    rw [pdeOf, pdeOf, St.entry, St.entry, ker]
    exact ⟨(looked.words _ _).1, (looked.words _ _).2.1⟩
  have pte : ∀ k l, pres (pteOf chosen owner k l) = pres (pteOf s owner k l) ∧
      base (pteOf chosen owner k l) = base (pteOf s owner k l) := by
    intro k l
    rw [pteOf, pteOf, (pde k).2]
    exact ⟨(looked.words _ _).1, (looked.words _ _).2.1⟩
  obtain ⟨page, ⟨live, low, high⟩, ⟨present, presPage, target⟩, dirBound, directory, dirStatus,
    isTable, address, count, positive⟩ := mapping
  have pageSame := frames fr
  have tableSame := frames table
  have dirSame := frames d
  simp only [core, Prod.mk.injEq] at pageSame tableSame dirSame
  rw [HeapLive, Live, ker] at live
  rw [ker] at high directory
  refine ⟨⟨page.1, pageSame.1.symm.trans page.2.1, pageSame.2.1.symm.trans page.2.2.1,
    pageSame.2.2.1.symm.trans page.2.2.2⟩, ⟨live, low, high⟩, ⟨?_, ?_, ?_⟩, dirBound, directory,
    dirSame.1.symm.trans dirStatus, ⟨isTable.1, tableSame.1.symm.trans isTable.2.1,
    tableSame.2.1.symm.trans isTable.2.2⟩, ?_, ?_, ?_⟩
  · rw [← (pde _).1]
    exact present
  · rw [← (pte _ _).1]
    exact presPage
  · rw [← (pte _ _).2]
    exact target
  · rw [← (pde _).2]
    exact address
  · rw [← tableSame.2.2.2, count]
    exact pres_count_congr fun i => (looked.words _ _).1
  · rw [← tableSame.2.2.2]
    exact positive

/-- What an allocation changes besides the frame it returns: nothing, or it takes a page
out of its table, and the table out of its directory when that was the last page. -/
theorem new_frame_changes (taken : NewFrame s final fr type pid number) :
    ((∀ x, x ≠ fr → core (final.ipt x) = core (s.ipt x)) ∧
      ∀ p i, pres (final.mem p i) = pres (s.mem p i)) ∨
    ∃ owner page d table, Mapping s fr owner page d table ∧
      (∀ x, x ≠ fr → x ≠ table → core (final.ipt x) = core (s.ipt x)) ∧
      (∀ p i, ¬(p = frame0 + table ∧ i = page % 1024) →
        ¬(p = frame0 + d ∧ i = page / 1024 ∧ (s.ipt table).refCount = 1) →
        pres (final.mem p i) = pres (s.mem p i)) ∧
      ((s.ipt table).refCount = 1 ∧ (final.ipt table).status = .notUsed ∨
        (s.ipt table).refCount ≠ 1 ∧ (final.ipt table).status = .ptab ∧
          (final.ipt table).pid = owner) := by
  cases taken with
  | unused chosen looked free inited =>
      refine Or.inl ⟨fun x other => (inited_other inited other).trans (looked.frames x), ?_⟩
      intro p i
      rw [inited.mem, (looked.words p i).1]
  | evicted chosen gone owner page d table looked picks mapping out inited =>
      refine Or.inr ⟨owner, page, d, table, mapping_looked looked mapping, ?_, ?_, ?_⟩
      · intro x other notTable
        rw [inited_other inited other, out.ipt, drop_page_ipt notTable]
        exact looked.frames x
      · intro p i notEntry notDir
        have count := looked.frames table
        simp only [core, Prod.mk.injEq] at count
        rw [inited.mem, out.mem p i notEntry, drop_page_mem (table_ne_dir mapping), count.2.2.2]
        rw [if_neg, (looked.words p i).1]
        rintro (entry | dir)
        · exact notEntry entry
        · exact notDir dir
      · have count := looked.frames table
        simp only [core, Prod.mk.injEq] at count
        have other : table ≠ fr := by
          rintro rfl
          have status := mapping.isTable.2.1
          rw [mapping.page.2.1] at status
          cases status
        have same := inited_other inited other
        simp only [core, Prod.mk.injEq] at same
        rw [same.1, same.2.1, out.ipt, ← count.2.2.2]
        by_cases last : (chosen.ipt table).refCount = 1
        · left
          rw [drop_page_last last]
          exact ⟨last, by simp [releaseTable, clearedFrame]⟩
        · right
          rw [drop_page_more last]
          have kept := unmap_page_status chosen table table (page % 1024)
          exact ⟨last, kept.1.trans mapping.isTable.2.1, kept.2.1.trans mapping.isTable.2.2⟩

theorem new_frame_stays (tables : Tables s empty fresh)
    (taken : NewFrame s final fr type pid number) : Stays s final := by
  have ker := new_frame_ker taken
  have was := new_frame_was taken
  have notNew : ∀ {x}, (s.ipt x).status = .pdir ∨ (s.ipt x).status = .ptab → x ≠ fr := by
    rintro x status rfl
    rcases was with free | page
    · rw [free] at status
      simp at status
    · rw [page] at status
      simp at status
  have bases : ∀ p i, base (final.mem p i) = base (s.mem p i) :=
    fun p i => (new_frame_words taken p i).1
  refine ⟨by rw [ker]; exact ⟨rfl, rfl, rfl⟩, ?_, fun q _ _ => by rw [ker], ?_, ?_⟩
  · intro x isTable
    have notFr := notNew (Or.inr isTable.2.1)
    rcases new_frame_changes taken with ⟨cores, words⟩ | ⟨owner, page, d, lost, mapping, cores,
      words, _⟩
    · exact ⟨cores x notFr, fun i => ⟨words _ i, bases _ i⟩⟩
    · have notTable : x ≠ lost :=
        global_ne tables mapping.heapPage.1.1 mapping.isTable isTable
      have notDir : x ≠ d := by
        rintro rfl
        have status := isTable.2.1
        rw [mapping.dirStatus] at status
        cases status
      refine ⟨cores x notFr notTable, fun i => ⟨words _ i ?_ ?_, bases _ i⟩⟩
      · omega
      · omega
  · intro q live _ x bound directory
    obtain ⟨dir, dirBound, isDir, status, _⟩ := tables.dirs q live
    have same : dir = x := frame_ptr_injective dir x dirBound bound (isDir.symm.trans directory)
    subst same
    have notFr := notNew (Or.inl status)
    rcases new_frame_changes taken with ⟨cores, _⟩ | ⟨owner, page, d, lost, mapping, cores, _, _⟩
    · exact cores dir notFr
    · refine cores dir notFr ?_
      rintro rfl
      have isTab := mapping.isTable.2.1
      rw [status] at isTab
      cases isTab
  · intro q live _ pdi bound notPrivate
    obtain ⟨dir, dirBound, directory, status, _⟩ := tables.dirs q live
    have after : (final.ker.proctab q).pd = frameNum2ptr dir := by rw [ker, directory]
    rw [pde_word dirBound directory, pde_word dirBound after]
    refine ⟨?_, bases _ _⟩
    rcases new_frame_changes taken with ⟨_, words⟩ | ⟨owner, page, d, lost, mapping, _, words, _⟩
    · exact words _ _
    · obtain ⟨alive, low, high⟩ := mapping.heapPage
      have own := private_of_heap tables alive low high
      refine words _ _ ?_ ?_
      · rintro ⟨equal, _⟩
        have same : dir = lost := by omega
        have isTab := mapping.isTable.2.1
        rw [← same, status] at isTab
        cases isTab
      · rintro ⟨_, index, _⟩
        exact notPrivate (index ▸ own)

theorem new_frame_owned (tables : Tables s empty fresh) (owned : Owned s empty)
    (bound : fr < nframes) (taken : NewFrame s final fr type pid number) :
    Owned final (if type = .page then empty else fr) := by
  have ker := new_frame_ker taken
  have live : ∀ q, Live final q ↔ Live s q := fun q => (new_frame_live taken).1
  have heapLive : ∀ q, HeapLive final q ↔ HeapLive s q := fun q => (new_frame_live taken).2.1
  have isNew := new_frame_core taken
  simp only [core, newFrame, Prod.mk.injEq] at isNew
  have notNew : ∀ {x}, (final.ipt x).status = .pdir ∨ (final.ipt x).status = .ptab →
      x ≠ (if type = .page then empty else fr) → x ≠ fr := by
    rintro x status notLoose rfl
    rw [isNew.1] at status
    by_cases page : type = .page
    · rw [page] at status
      simp at status
    · rw [if_neg page] at notLoose
      exact notLoose rfl
  refine ⟨?_, ?_⟩
  · intro x inside isDir notLoose
    have notFr := notNew (Or.inl isDir) notLoose
    have same : core (final.ipt x) = core (s.ipt x) := by
      rcases new_frame_changes taken with ⟨cores, _⟩ | ⟨owner, page, d, lost, mapping, cores, _,
        outcome⟩
      · exact cores x notFr
      · refine cores x notFr ?_
        rintro rfl
        rcases outcome with ⟨_, free⟩ | ⟨_, isTab, _⟩
        · rw [free] at isDir
          cases isDir
        · rw [isTab] at isDir
          cases isDir
    simp only [core, Prod.mk.injEq] at same
    obtain ⟨q, alive, owner, directory⟩ :=
      owned.dirs x inside (same.1.symm.trans isDir) (proper_of_bound inside)
    refine ⟨q, (live q).mpr alive, same.2.1.trans owner, ?_⟩
    rw [ker]
    exact directory
  · intro x inside isTab notLoose isPrivate
    have notFr := notNew (Or.inr isTab) notLoose
    have before : (s.ipt x).status = .ptab ∧ (s.ipt x).pid = (final.ipt x).pid ∧
        ∀ q k, HeapLive s q → Private k → pres (pdeOf s q k) = true →
          base (pdeOf s q k) = frame0 + x → pres (pdeOf final q k) = true := by
      rcases new_frame_changes taken with ⟨cores, words⟩ | ⟨owner, page, d, lost, mapping, cores,
        words, outcome⟩
      · have same := cores x notFr
        simp only [core, Prod.mk.injEq] at same
        refine ⟨same.1.symm.trans isTab, same.2.1.symm, ?_⟩
        intro q k _ _ present _
        rw [pdeOf, St.entry, ker, words]
        exact present
      · have kept : ∀ q k, HeapLive s q → Private k → pres (pdeOf s q k) = true →
            base (pdeOf s q k) = frame0 + x → (x = lost → (s.ipt lost).refCount ≠ 1) →
            pres (pdeOf final q k) = true := by
          intro q k alive own present address more
          obtain ⟨dir, dirBound, directory, status, _⟩ := tables.dirs q alive.1
          have after : (final.ker.proctab q).pd = frameNum2ptr dir := by rw [ker, directory]
          rw [pde_word dirBound after, words]
          · rw [← pde_word dirBound directory]
            exact present
          · rintro ⟨equal, _⟩
            have same : dir = lost := by omega
            have isTable := mapping.isTable.2.1
            rw [← same, status] at isTable
            cases isTable
          · rintro ⟨equal, index, last⟩
            have sameDir : dir = d := by omega
            subst sameDir
            have sameOwner : q = owner := dir_owner tables mapping.heapPage.1 alive.1 dirBound
              mapping.directory directory
            subst sameOwner
            have lostAddress := mapping.address
            rw [← index, address] at lostAddress
            exact more (by omega) last
        by_cases isLost : x = lost
        · subst isLost
          rcases outcome with ⟨_, free⟩ | ⟨more, _, isOwner⟩
          · rw [free] at isTab
            cases isTab
          · refine ⟨mapping.isTable.2.1, mapping.isTable.2.2.trans isOwner.symm, ?_⟩
            intro q k alive own present address
            exact kept q k alive own present address fun _ => more
        · have same := cores x notFr isLost
          simp only [core, Prod.mk.injEq] at same
          refine ⟨same.1.symm.trans isTab, same.2.1.symm, ?_⟩
          intro q k alive own present address
          exact kept q k alive own present address fun equal => absurd equal isLost
    obtain ⟨wasTab, sameOwner, stillPresent⟩ := before
    obtain ⟨q, k, alive, own, present, address⟩ :=
      owned.tabs x inside wasTab (proper_of_bound inside) (by rw [sameOwner]; exact isPrivate)
    exact ⟨q, k, (heapLive q).mpr alive, own, stillPresent q k alive own present address,
      (new_frame_pde_words taken).1.trans address⟩

end Allocation

section Faults

variable {pdi : Nat} {linked : St}

/-- A new table is entered into the directory of its process. -/
theorem linked_owned {opened : St} {d : Nat} {words : Nat → Word} {entry : Word}
    (tables : Tables opened empty fresh) (owned : Owned opened table) (live : HeapLive opened pid)
    (own : Private pdi) (absent : pres (pdeOf opened pid pdi) = false)
    (isTable : IsTable opened table pid) (unreferenced : Unreferenced opened table)
    (dirBound : d < nframes) (directory : (opened.ker.proctab pid).pd = frameNum2ptr d)
    (present : pres entry = true) (address : base entry = frame0 + table)
    (same : linked = { linkTable opened d pdi table words entry with trace := linked.trace }) :
    Owned linked empty ∧ Stays opened linked := by
  have linkedKer : linked.ker = opened.ker := by rw [same]; rfl
  have linkedIpt : linked.ipt = opened.ipt := by rw [same]; rfl
  -- words outside of the new table, but for the new entry, are those of `opened`
  have linkedMem : ∀ p i, p ≠ frame0 + table → ¬(p = frame0 + d ∧ i = pdi) →
      linked.mem p i = opened.mem p i := by
    intro p i notTable notEntry
    rw [same]
    exact link_table_word p i notTable notEntry
  have newEntry : pdeOf linked pid pdi = entry := by
    have after : (linked.ker.proctab pid).pd = frameNum2ptr d := by rw [linkedKer, directory]
    rw [pde_word dirBound after, same]
    exact if_pos ⟨rfl, rfl⟩
  have dirOf : ∀ q, Live opened q → ∃ dir < nframes,
      (opened.ker.proctab q).pd = frameNum2ptr dir ∧ dir ≠ table := by
    intro q alive
    obtain ⟨dir, inside, isDir, _⟩ := tables.dirs q alive
    refine ⟨dir, inside, isDir, ?_⟩
    rintro rfl
    exact unreferenced.noDir q alive isDir
  have linkedPde : ∀ q k, Live opened q →
      ¬((opened.ker.proctab q).pd = frameNum2ptr d ∧ k = pdi) →
      pdeOf linked q k = pdeOf opened q k := by
    intro q k alive notEntry
    obtain ⟨dir, inside, isDir, notTable⟩ := dirOf q alive
    have after : (linked.ker.proctab q).pd = frameNum2ptr dir := by rw [linkedKer, isDir]
    rw [pde_word inside isDir, pde_word inside after]
    apply linkedMem
    · omega
    · rintro ⟨equal, index⟩
      have sameDir : dir = d := by omega
      exact notEntry ⟨sameDir ▸ isDir, index⟩
  have live' : ∀ q, Live linked q ↔ Live opened q := fun q => by rw [Live, Live, linkedKer]
  refine ⟨⟨?_, ?_⟩, ⟨by rw [linkedKer]; exact ⟨rfl, rfl, rfl⟩, ?_,
    fun q _ _ => by rw [linkedKer], fun q _ _ x _ _ => by rw [linkedIpt], ?_⟩⟩
  · intro x inside isDir _
    rw [linkedIpt] at isDir ⊢
    have other : x ≠ table := by
      rintro rfl
      rw [isTable.2.1] at isDir
      cases isDir
    obtain ⟨q, alive, owner, isDirectory⟩ := owned.dirs x inside isDir other
    refine ⟨q, (live' q).mpr alive, owner, ?_⟩
    rw [linkedKer]
    exact isDirectory
  · intro x inside isTab _ isPrivate
    rw [linkedIpt] at isTab isPrivate
    by_cases isNew : x = table
    · subst isNew
      refine ⟨pid, pdi, ?_, own, ?_, ?_⟩
      · unfold HeapLive Live
        rw [linkedKer]
        exact live
      · rw [newEntry, present]
      · rw [newEntry, address]
    · obtain ⟨q, k, alive, ownK, isPresent, isAt⟩ := owned.tabs x inside isTab isNew isPrivate
      have entry : pdeOf linked q k = pdeOf opened q k := by
        refine linkedPde q k alive.1 ?_
        rintro ⟨sameDir, rfl⟩
        have sameOwner : q = pid := dir_owner tables live alive.1 dirBound directory sameDir
        subst sameOwner
        rw [absent] at isPresent
        cases isPresent
      refine ⟨q, k, ?_, ownK, ?_, ?_⟩
      · unfold HeapLive Live
        rw [linkedKer]
        exact alive
      · rw [entry]
        exact isPresent
      · rw [entry]
        exact isAt
  · intro x shared
    have other : x ≠ table := by
      rintro rfl
      have owner := shared.2.2
      rw [isTable.2.2] at owner
      have nonneg := tables.pids pid live.1
      rw [owner, global] at nonneg
      omega
    have notDir : x ≠ d := by
      rintro rfl
      obtain ⟨dir, inside, isDir, status, _⟩ := tables.dirs pid live.1
      have sameDir := frame_ptr_injective dir x inside dirBound (isDir.symm.trans directory)
      rw [sameDir, shared.2.1] at status
      cases status
    refine ⟨by rw [linkedIpt], fun i => ?_⟩
    rw [linkedMem _ i (by omega) (by omega)]
    exact ⟨rfl, rfl⟩
  · intro q alive _ k _ notPrivate
    rw [linkedPde q k alive]
    · exact ⟨rfl, rfl⟩
    · rintro ⟨_, rfl⟩
      exact notPrivate own

/-- The table of a page comes into the directory of its process. -/
theorem table_for_owned (tables : Tables s empty []) (owned : Owned s empty)
    (live : HeapLive s pid) (own : Private pdi) (made : TableFor s linked pid pdi table) :
    Owned linked empty ∧ Stays s linked := by
  cases made with
  | found same present address =>
      subst same
      exact ⟨owned, stays_of_alike tables ⟨fun _ => rfl, fun _ => rfl, fun _ _ _ _ => ⟨rfl, rfl⟩⟩
        ⟨rfl, rfl, rfl⟩⟩
  | made opened d words entry absent dirBound directory bound taken blank present address same =>
      have openedTables := new_frame_tables tables taken
      have openedOwned := new_frame_owned tables owned bound taken
      rw [if_neg (by decide)] at openedTables openedOwned
      have openedDir : (opened.ker.proctab pid).pd = frameNum2ptr d := by
        rw [new_frame_ker taken, directory]
      have openedAbsent : pres (pdeOf opened pid pdi) = false := by
        by_contra isPresent
        have before := (new_frame_pde_words taken).2 (by simpa using isPresent)
        rw [absent] at before
        cases before
      have isNew := new_frame_core taken
      simp only [core, newFrame, Prod.mk.injEq] at isNew
      obtain ⟨linkedOwned, linkedStays⟩ := linked_owned openedTables openedOwned
        ((new_frame_live taken).2.1.mpr live) own openedAbsent ⟨bound, isNew.1, isNew.2.1⟩
        (new_frame_unreferenced tables bound taken) dirBound openedDir present address same
      exact ⟨linkedOwned, stays_trans (new_frame_stays tables taken) linkedStays
        fun q before _ => (new_frame_live taken).1.mpr before⟩

/-- A page that has been read is entered into its table. -/
theorem filled_owned {fetched : St} {words : Nat → Word} {entry : Word}
    (tables : Tables fetched limbo fresh) (owned : Owned fetched empty) (live : Live fetched pid)
    (isTable : IsTable fetched table pid) (isPage : (fetched.ipt fr).status = .page)
    (same : final = { installPage (fetched.setPage (frame0 + fr) words) table (vpn % 1024) entry with
      trace := final.trace }) : Owned final empty ∧ Stays fetched final := by
  have ker : final.ker = fetched.ker := by rw [same]; rfl
  have others : ∀ x, x ≠ table → final.ipt x = fetched.ipt x := by
    intro x other
    rw [same]
    exact install_page_other other _
  have statuses : ∀ x, (final.ipt x).status = (fetched.ipt x).status ∧
      (final.ipt x).pid = (fetched.ipt x).pid := by
    intro x
    by_cases here : x = table
    · subst here
      rw [same]
      exact ⟨by simp [installPage], by simp [installPage]⟩
    · rw [others x here]
      exact ⟨rfl, rfl⟩
  have untouched : ∀ x i, x ≠ fr → x ≠ table →
      final.mem (frame0 + x) i = fetched.mem (frame0 + x) i := by
    intro x i notPage notTable
    rw [same]
    have outside : frame0 + x ≠ frame0 + fr := by omega
    have notEntry : ¬(frame0 + x = frame0 + table ∧ i = vpn % 1024) := by omega
    change (if frame0 + x = frame0 + table ∧ i = vpn % 1024 then _ else _) = _
    rw [if_neg notEntry]
    exact if_neg outside
  have alive : ∀ q, Live final q ↔ Live fetched q := fun q => by rw [Live, Live, ker]
  have pde : ∀ q k, Live fetched q → pdeOf final q k = pdeOf fetched q k := by
    intro q k before
    obtain ⟨dir, inside, isDir, status, _⟩ := tables.dirs q before
    have after : (final.ker.proctab q).pd = frameNum2ptr dir := by rw [ker, isDir]
    rw [pde_word inside isDir, pde_word inside after]
    apply untouched
    · rintro rfl
      rw [isPage] at status
      cases status
    · rintro rfl
      rw [isTable.2.1] at status
      cases status
  refine ⟨⟨?_, ?_⟩, ⟨by rw [ker]; exact ⟨rfl, rfl, rfl⟩, ?_, fun q _ _ => by rw [ker], ?_, ?_⟩⟩
  · intro x inside isDir notLoose
    rw [(statuses x).1] at isDir
    obtain ⟨q, before, owner, directory⟩ := owned.dirs x inside isDir notLoose
    refine ⟨q, (alive q).mpr before, (statuses x).2.trans owner, ?_⟩
    rw [ker]
    exact directory
  · intro x inside isTab notLoose isPrivate
    rw [(statuses x).1] at isTab
    rw [(statuses x).2] at isPrivate
    obtain ⟨q, k, before, ownK, present, address⟩ := owned.tabs x inside isTab notLoose isPrivate
    refine ⟨q, k, ?_, ownK, ?_, ?_⟩
    · refine ⟨(alive q).mpr before.1, ?_⟩
      rw [ker]
      exact before.2
    · rw [pde q k before.1]
      exact present
    · rw [pde q k before.1]
      exact address
  · intro x shared
    have notTable : x ≠ table := global_ne tables live isTable shared
    have notPage : x ≠ fr := by
      rintro rfl
      have status := shared.2.1
      rw [isPage] at status
      cases status
    rw [others x notTable]
    refine ⟨rfl, fun i => ?_⟩
    rw [untouched x i notPage notTable]
    exact ⟨rfl, rfl⟩
  · intro q before _ x inside directory
    obtain ⟨dir, dirBound, isDir, status, _⟩ := tables.dirs q before
    have sameDir := frame_ptr_injective dir x dirBound inside (isDir.symm.trans directory)
    subst sameDir
    rw [others dir]
    rintro rfl
    rw [isTable.2.1] at status
    cases status
  · intro q before _ k _ _
    rw [pde q k before]
    exact ⟨rfl, rfl⟩

/-- A page fault that does not lose its table changes nothing that others own. -/
theorem served_owned (tables : Tables s empty []) (owned : Owned s empty)
    (heapPage : HeapPage s pid vpn) (keeps : ¬LosesTable s pid (vpn / 1024))
    (served : Served s final pid vpn fr table) : Owned final empty ∧ Stays s final := by
  obtain ⟨linked, fetched, made, taken, filled⟩ := served.stages
  obtain ⟨live, low, high⟩ := heapPage
  have own := private_of_heap tables live low high
  obtain ⟨linkedTables, _, _, linkedKer⟩ := table_for_tables tables live own made
  obtain ⟨linkedOwned, linkedStays⟩ := table_for_owned tables owned live own made
  have fetchedOwned := new_frame_owned linkedTables linkedOwned served.bound taken
  rw [if_pos rfl] at fetchedOwned
  have fetchedStays := new_frame_stays linkedTables taken
  obtain ⟨fetchedTables, fetchedPresent, fetchedBase⟩ :=
    fetched_tables tables live own keeps made taken
  have fetchedLive : ∀ q, Live fetched q ↔ Live s q := fun q => by
    rw [(new_frame_live taken).1, Live, Live, linkedKer]
  have fetchedHeap : HeapLive fetched pid := by
    refine ⟨(fetchedLive pid).mpr live.1, ?_⟩
    rw [new_frame_ker taken, linkedKer]
    exact live.2
  obtain ⟨t, isTable, tableBase⟩ :=
    fetchedTables.tables pid (vpn / 1024) fetchedHeap own fetchedPresent
  have sameTable : t = table := by omega
  subst sameTable
  have isPage := core_status (new_frame_core taken)
  obtain ⟨entry, _, _, _, _, same⟩ := filled.state
  obtain ⟨finalOwned, finalStays⟩ :=
    filled_owned fetchedTables fetchedOwned fetchedHeap.1 isTable isPage same
  refine ⟨finalOwned, stays_trans linkedStays (stays_trans fetchedStays finalStays ?_) ?_⟩
  · intro q before _
    exact (new_frame_live taken).1.mpr before
  · intro q before _
    rw [Live, linkedKer]
    exact before

end Faults

end Xinu.Space.Ownership
