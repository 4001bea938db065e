import Xinu.Replacement.Exhaustion
import Xinu.Space.Choice

/-!
# What an allocation does

`getNewFrame` looks for a frame, evicts its page when it holds one, and makes it a
frame of the new kind. `NewFrame` keeps the stages apart, for both policies.
-/

namespace Xinu.Space.Allocate

open Xinu.Kernel.State Xinu.Kernel.Entry
open Xinu.Lib.StateError Xinu.Lib.Clock Xinu.Lib.Counting Xinu.Lib.LinkedQueue
open Xinu.Paging.Address Xinu.Paging.Ipt
open Xinu.Replacement.Fifo Xinu.Replacement.FifoRuns Xinu.Replacement.Exhaustion
open Xinu.Space.Agreement Xinu.Space.Unmap Xinu.Space.Transfers Xinu.Space.Evict Xinu.Space.Choice

set_option autoImplicit false

/-- `init_frame` changes one frame and the list links. -/
structure Inited (s final : St) (fr : Nat) (type : FrameStatus) (pid vpn : Int) : Prop where
  ker : final.ker = s.ker
  mem : final.mem = s.mem
  disk : final.disk = s.disk
  trace : final.trace = s.trace
  frames : ∀ x, core (final.ipt x) =
    if x = fr then core (newFrame type pid vpn) else core (s.ipt x)

variable [Config]

/-- The two ways in which an allocation finds a frame. -/
inductive NewFrame (s final : St) (fr : Nat) (type : FrameStatus) (pid vpn : Int) : Prop
  | unused (chosen : St) (looked : Looked s chosen) (free : (s.ipt fr).status = .notUsed)
      (inited : Inited chosen final fr type pid vpn)
  | evicted (chosen gone : St) (owner : Int) (page d table : Nat) (looked : Looked s chosen)
      (picks : Picks s fr) (mapping : Mapping chosen fr owner page d table)
      (out : EvictedFrame chosen gone fr owner page d table)
      (inited : Inited gone final fr type pid vpn)

/-- The FIFO queue is in order whenever it is in use. -/
def QueueKept (s : St) : Prop := s.ker.currpolicy = .fifo → ∃ nodes, FrameQueue s empty nodes

variable {s final : St} {fr : Nat} {type : FrameStatus} {pid vpn : Int} {fresh : List Nat}

omit [Config] in
theorem inited_of_relink {ipt : Nat → Frame} {head tail : Nat}
    (cores : ∀ x, core (ipt x) = if x = fr then core (newFrame type pid vpn) else core (s.ipt x)) :
    Inited s (relink s ipt head tail) fr type pid vpn where
  ker := rfl
  mem := rfl
  disk := rfl
  trace := rfl
  frames := cores

theorem init_frame_gca (type : FrameStatus) (pid vpn : Int) (bound : fr < nframes) (gca : s.ker.currpolicy = .gca) :
    ∃ final, initFrame fr type pid vpn s = .ok () final ∧ Inited s final fr type pid vpn := by
  refine ⟨_, init_frame_plain bound type pid vpn (Or.inl gca), ⟨rfl, rfl, rfl, rfl, ?_⟩⟩
  intro x
  by_cases here : x = fr
  · rw [if_pos here, here, set_frame_self]
  · rw [if_neg here, set_frame_other _ _ _ _ here]

omit [Config] in
theorem fifo_or_gca (policy : Policy) : policy = .fifo ∨ policy = .gca := by
  cases policy with
  | fifo => exact Or.inl rfl
  | gca => exact Or.inr rfl

theorem proper_of_bound (bound : fr < nframes) : fr ≠ empty := by
  rintro rfl
  exact empty_not_frame bound

section Policies

theorem fifo_new_frame (tables : Tables s empty fresh) {nodes : List Nat}
    (fifo : Fifo s empty nodes) (resources : ¬Exhausted s) :
    Ends (getNewFrame type pid vpn s)
      (fun addr final => ∃ fr < nframes, addr = frameNum2ptr fr ∧
        NewFrame s final fr type pid vpn)
      (Clean s) := by
  obtain ⟨hand, found, scanned, usable, nothing⟩ := fifo_scan_ok (s := s) nframes
  let looked : St := { s with fifoNextframe := hand }
  have lookedFifo : Fifo looked empty nodes := fifo_of_view fifo rfl
  unfold getNewFrame getNewFrameFIFO
  rw [get_bind, if_pos fifo.1, bind_ok scanned]
  cases found with
  | some fr =>
      obtain ⟨bound, free⟩ := usable fr rfl
      have absent : fr ∉ nodes := by
        intro member
        have page := ((fifo.2.members fr).mp member).1.2
        rw [free] at page
        cases page
      obtain ⟨ipt, head, tail, ran, _, cores⟩ :=
        init_frame_ok lookedFifo.2 fifo.1 bound absent (Or.inr empty_not_frame) type pid vpn
      simp only []
      rw [bind_ok ran]
      exact ⟨fr, bound, rfl, .unused looked (looked_refl rfl (fun _ => rfl) rfl rfl rfl) free
        (inited_of_relink cores)⟩
  | none =>
      have full : AllUsed s := scan_finds_all (nothing rfl)
      rcases List.eq_nil_or_concat nodes with rfl | ⟨front, fr, rfl⟩
      · refine absurd ?_ resources
        intro x bound
        refine ⟨full x bound, fun page => ?_⟩
        have member := (fifo.2.members x).mpr ⟨⟨bound, page⟩, proper_of_bound bound⟩
        cases member
      · rw [List.concat_eq_append] at lookedFifo fifo
        obtain ⟨ipt, head, tail, picked, queue, cores⟩ := pick_frame_ok lookedFifo.2
        let chosen := relink looked ipt head tail
        have pickRan : pickFrame looked = .ok fr chosen := by
          unfold pickFrame
          rw [get_bind, if_pos lookedFifo.1]
          exact picked
        have holds := ((fifo.2.members fr).mp (by simp)).1
        have bound := holds.1
        have chosenLooked : Looked s chosen := looked_refl rfl cores rfl rfl rfl
        have chosenTables := tables_congr tables (looked_alike chosenLooked)
        have page : (chosen.ipt fr).status = .page := (core_status (cores fr)).trans holds.2
        obtain ⟨owner, number, d, table, mapping⟩ :=
          mapping_of_page chosenTables bound page (proper_of_bound bound)
        have picks : Picks s fr := by
          refine Or.inl ⟨fifo.1, full, ?_⟩
          rw [fifo.2.queue.tailEq, List.getLastD_concat]
        have notErr : ¬fr = sysErrPtr := proper_of_bound bound
        simp only []
        rw [bind_ok pickRan, if_neg notErr]
        apply ends_bind (ends_stop (evict_frame_ends chosenTables mapping) fun _ _ =>
          clean_trans (adds_proper_refl chosenLooked.trace))
        · intro _ gone evictRan out
          have chosenFifo : Fifo chosen fr front := ⟨fifo.1, queue⟩
          obtain ⟨_, rest, _, goneFifo⟩ := evict_frame_run chosenFifo evictRan
          obtain ⟨ipt, head, tail, ran, _, cores⟩ := init_frame_ok goneFifo.2 goneFifo.1 bound
            (off_not_queued goneFifo.2) (Or.inl rfl) type pid vpn
          rw [bind_ok ran]
          exact ⟨fr, bound, rfl, .evicted chosen gone owner number d table chosenLooked picks
            mapping out (inited_of_relink cores)⟩

/-- The clock finds a frame in its last turn at the latest. -/
theorem clock_finds (tables : Tables s empty fresh) (gca : s.ker.currpolicy = .gca)
    (resources : ¬Exhausted s) :
    ∃ fr, scan nframes (3 * nframes + 1) (clockClasses s) s.gcaNextframe = some fr ∧
      fr < nframes ∧ ((s.ipt fr).status = .notUsed ∨ Picks s fr) := by
  have positive : 0 < nframes := by
    have boot := Config.bootFrames
    omega
  obtain ⟨x, bound, usable⟩ : ∃ x < nframes, (s.ipt x).status = .notUsed ∨
      (s.ipt x).status = .page := by
    by_contra none
    apply resources
    intro x bound
    constructor
    · intro free
      exact none ⟨x, bound, Or.inl free⟩
    · intro page
      exact none ⟨x, bound, Or.inr page⟩
  obtain ⟨c, small, held⟩ : ∃ c ≤ 2, clockClasses s x = some c := by
    rcases usable with free | page
    · exact ⟨0, by omega, clock_class_unused free⟩
    · obtain ⟨pid, vpn, holds, ⟨live, low, _⟩, _⟩ :=
        tables.mapped x bound page (proper_of_bound bound)
      have notSkipped : ¬Skipped (s.ipt x) := by
        have nonneg := tables.pids pid live.1
        rw [Skipped, holds.2.2.1, holds.2.2.2, global, noProcess, noVpn]
        omega
      refine ⟨useClass (s.entry _ _), ?_, clock_class_page page notSkipped⟩
      unfold useClass
      split
      · split <;> omega
      · omega
  have near : distance nframes s.gcaNextframe x < nframes := Nat.mod_lt _ positive
  have product : c * nframes ≤ 2 * nframes := Nat.mul_le_mul_right _ small
  have scores : Scores nframes (clockClasses s) s.gcaNextframe x
      (c * nframes + distance nframes s.gcaNextframe x) := ⟨bound, c, held, rfl⟩
  have chooses := scan_chooses (clockClasses s) s.gcaNextframe positive (3 * nframes + 1)
  cases found : scan nframes (3 * nframes + 1) (clockClasses s) s.gcaNextframe with
  | none =>
      rw [found] at chooses
      have late := chooses x _ scores
      omega
  | some fr =>
      rw [found] at chooses
      obtain ⟨k, _, frScores, least⟩ := chooses
      refine ⟨fr, rfl, frScores.1, ?_⟩
      by_cases free : (s.ipt fr).status = .notUsed
      · exact Or.inl free
      · by_cases page : (s.ipt fr).status = .page
        · exact Or.inr (Or.inr ⟨gca, page, k, frScores, least⟩)
        · obtain ⟨_, _, frHeld, _⟩ := frScores
          rw [show clockClasses s fr = none from clock_class_none free (Or.inl page)] at frHeld
          cases frHeld

theorem gca_new_frame (tables : Tables s empty fresh) (gca : s.ker.currpolicy = .gca)
    (resources : ¬Exhausted s) :
    Ends (getNewFrame type pid vpn s)
      (fun addr final => ∃ fr < nframes, addr = frameNum2ptr fr ∧
        NewFrame s final fr type pid vpn)
      (Clean s) := by
  obtain ⟨fr, found, bound, usable⟩ := clock_finds tables gca resources
  unfold getNewFrame getNewFrameGCA
  rw [get_bind, if_neg (by rw [gca]; decide), if_pos gca]
  apply ends_bind (gca_scan_ends (apart_of_tables tables) (3 * nframes + 1))
  rintro choice chosen _ ⟨looked, rfl⟩
  rw [found]
  have chosenGca : chosen.ker.currpolicy = .gca := by rw [looked.ker, gca]
  unfold choiceOf
  by_cases free : (s.ipt fr).status = .notUsed
  · simp only [if_pos free]
    obtain ⟨final, ran, inited⟩ := init_frame_gca type pid vpn bound chosenGca
    rw [bind_ok ran]
    exact ⟨fr, bound, rfl, .unused chosen looked free inited⟩
  · have picks : Picks s fr := usable.resolve_left free
    have page : (s.ipt fr).status = .page := by
      rcases picks with ⟨fifo, _⟩ | ⟨_, page, _⟩
      · rw [gca] at fifo
        cases fifo
      · exact page
    have chosenTables := tables_congr tables (looked_alike looked)
    obtain ⟨owner, number, d, table, mapping⟩ := mapping_of_page chosenTables bound
      ((core_status (looked.frames fr)).trans page) (proper_of_bound bound)
    simp only [if_neg free]
    apply ends_bind (ends_stop (evict_frame_ends chosenTables mapping) fun _ _ =>
      clean_trans (adds_proper_refl looked.trace))
    · intro _ gone _ out
      have goneGca : gone.ker.currpolicy = .gca := by rw [out.ker, chosenGca]
      obtain ⟨final, ran, inited⟩ := init_frame_gca type pid vpn bound goneGca
      rw [bind_ok ran]
      exact ⟨fr, bound, rfl, .evicted chosen gone owner number d table looked picks mapping out inited⟩

end Policies

theorem get_new_frame_ends (type : FrameStatus) (pid vpn : Int) (tables : Tables s empty fresh)
    (queue : QueueKept s) (resources : ¬Exhausted s) :
    Ends (getNewFrame type pid vpn s)
      (fun addr final => ∃ fr < nframes, addr = frameNum2ptr fr ∧
        NewFrame s final fr type pid vpn)
      (Clean s) := by
  rcases fifo_or_gca s.ker.currpolicy with fifo | gca
  · obtain ⟨nodes, frameQueue⟩ := queue fifo
    exact fifo_new_frame tables ⟨fifo, frameQueue⟩ resources
  · exact gca_new_frame tables gca resources

section Agreement

variable {middle gone : St} {limbo d table page : Nat} {owner : Int}

theorem evicted_alike (mapping : Mapping s fr owner page d table)
    (out : EvictedFrame s gone fr owner page d table) :
    Alike (dropPage s d (page / 1024) table (page % 1024)) gone where
  procs := fun q => by rw [out.ker, drop_page_ker]
  frames := fun x => by rw [out.ipt]
  words := by
    intro x _ _ i
    by_cases entry : frame0 + x = frame0 + table ∧ i = page % 1024
    · have now := out.entry
      rw [entry.1, entry.2, drop_page_mem (table_ne_dir mapping), if_pos (Or.inl ⟨rfl, rfl⟩)]
      rw [now.1, now.2]
      simp
    · rw [out.mem _ _ entry]
      exact ⟨rfl, rfl⟩

theorem evicted_tables (tables : Tables s empty fresh) (mapping : Mapping s fr owner page d table)
    (out : EvictedFrame s gone fr owner page d table) : Tables gone fr fresh :=
  tables_congr (drop_page_tables tables mapping) (evicted_alike mapping out)

/-- The frame an allocation evicts keeps its page until it is initialized. -/
theorem evicted_page (mapping : Mapping s fr owner page d table)
    (out : EvictedFrame s gone fr owner page d table) : (gone.ipt fr).status = .page := by
  have different : fr ≠ table := by
    rintro rfl
    have status := mapping.isTable.2.1
    rw [mapping.page.2.1] at status
    cases status
  rw [out.ipt, drop_page_ipt different]
  exact mapping.page.2.1

omit [Config] in
theorem inited_other (inited : Inited s final fr type pid vpn) {x : Nat} (different : x ≠ fr) :
    core (final.ipt x) = core (s.ipt x) := by
  rw [inited.frames, if_neg different]

theorem init_tables (tables : Tables s limbo fresh) (inited : Inited s final fr type pid vpn)
    (was : (s.ipt fr).status = .notUsed ∧ limbo = empty ∨ (s.ipt fr).status = .page ∧ limbo = fr) :
    Tables final (if type = .page then fr else empty) fresh := by
  have ker := inited.ker
  have mem := inited.mem
  have live : ∀ q, Live final q ↔ Live s q := fun q => by rw [Live, Live, ker]
  have heapLive : ∀ q, HeapLive final q ↔ HeapLive s q := fun q => by
    rw [HeapLive, HeapLive, live, ker]
  have pde : ∀ q k, pdeOf final q k = pdeOf s q k := fun q k => by
    rw [pdeOf, pdeOf, St.entry, St.entry, ker, mem]
  have pte : ∀ q k l, pteOf final q k l = pteOf s q k l := fun q k l => by
    rw [pteOf, pteOf, pde, mem]
  -- the frame is none of the frames the tables lead to
  have notDir : ∀ {x}, (s.ipt x).status = .pdir ∨ (s.ipt x).status = .ptab → x ≠ fr := by
    rintro x status rfl
    rcases was with ⟨free, _⟩ | ⟨page, _⟩
    · rw [free] at status
      simp at status
    · rw [page] at status
      simp at status
  have status : ∀ {x}, x ≠ fr → (final.ipt x).status = (s.ipt x).status :=
    fun different => core_status (inited_other inited different)
  have owned : ∀ {x}, x ≠ fr → (final.ipt x).pid = (s.ipt x).pid :=
    fun different => congrArg (fun view => view.2.1) (inited_other inited different)
  have number : ∀ {x}, x ≠ fr → (final.ipt x).vpn = (s.ipt x).vpn :=
    fun different => congrArg (fun view => view.2.2.1) (inited_other inited different)
  have count : ∀ {x}, x ≠ fr → (final.ipt x).refCount = (s.ipt x).refCount :=
    fun different => congrArg (fun view => view.2.2.2) (inited_other inited different)
  have isTable : ∀ {x q}, IsTable s x q → IsTable final x q := by
    intro x q table
    have different := notDir (Or.inr table.2.1)
    exact ⟨table.1, (status different).trans table.2.1, (owned different).trans table.2.2⟩
  have isPage : ∀ {x q v}, IsPage s x q v → x ≠ fr → IsPage final x q v := by
    intro x q v page different
    exact ⟨page.1, (status different).trans page.2.1, (owned different).trans page.2.2.1,
      (number different).trans page.2.2.2⟩
  refine ⟨?_, ?_, ?_, ?_, ?_, ?_, ?_, ?_, ?_, ?_, ?_⟩
  · intro q alive
    exact tables.pids q ((live q).mp alive)
  · rw [ker]
    exact tables.nullHeap
  · intro q alive
    rw [ker]
    exact tables.heaps q ((heapLive q).mp alive)
  · intro q alive
    obtain ⟨d, bound, directory, isDir, own⟩ := tables.dirs q ((live q).mp alive)
    have different := notDir (Or.inl isDir)
    rw [ker]
    exact ⟨d, bound, directory, (status different).trans isDir, (owned different).trans own⟩
  · intro t shared
    obtain ⟨isGlobal, full⟩ := tables.globals t shared
    rw [mem]
    exact ⟨isTable isGlobal, full⟩
  · intro q alive k shared
    rw [pde]
    exact tables.shared q ((live q).mp alive) k shared
  · intro q k alive own present
    rw [pde] at present ⊢
    obtain ⟨x, isTab, address⟩ := tables.tables q k ((heapLive q).mp alive) own present
    exact ⟨x, isTable isTab, address⟩
  · intro q left right alive ownLeft ownRight presLeft presRight equal
    rw [pde] at presLeft presRight
    rw [pde, pde] at equal
    exact tables.distinct q left right ((heapLive q).mp alive) ownLeft ownRight presLeft presRight
      equal
  · intro q k l alive own present bound presEntry
    rw [pde] at present
    rw [pte] at presEntry ⊢
    obtain ⟨x, holds, notLimbo, address⟩ :=
      tables.entries q k l ((heapLive q).mp alive) own present bound presEntry
    have different : x ≠ fr := by
      rintro rfl
      rcases was with ⟨free, _⟩ | ⟨_, rfl⟩
      · rw [holds.2.1] at free
        cases free
      · exact notLimbo rfl
    refine ⟨x, isPage holds different, ?_, address⟩
    split
    · exact different
    · exact proper_of_bound holds.1
  · intro x bound page notLimbo
    have different : x ≠ fr := by
      rintro rfl
      have newStatus := inited.frames x
      rw [if_pos rfl] at newStatus
      have isType : (final.ipt x).status = type := core_status newStatus
      rw [page] at isType
      rw [if_pos isType.symm] at notLimbo
      exact notLimbo rfl
    have notOld : x ≠ limbo := by
      rcases was with ⟨_, rfl⟩ | ⟨_, rfl⟩
      · exact proper_of_bound bound
      · exact different
    obtain ⟨q, v, holds, ⟨alive, low, high⟩, maps⟩ :=
      tables.mapped x bound ((status different).symm.trans page) notOld
    refine ⟨q, v, isPage holds different, ⟨(heapLive q).mpr alive, low, ?_⟩, ?_⟩
    · rw [ker]
      exact high
    · unfold Maps
      rw [pde, pte]
      exact maps
  · intro q k x alive own present address
    rw [pde] at present address
    obtain ⟨counted, positive⟩ := tables.counts q k x ((heapLive q).mp alive) own present address
    obtain ⟨y, isTab, otherAddress⟩ := tables.tables q k ((heapLive q).mp alive) own present
    have same : y = x := by omega
    subst same
    rw [count (notDir (Or.inr isTab.2.1)), mem]
    exact ⟨counted, positive⟩

theorem looked_tables (tables : Tables s limbo fresh) (looked : Looked s final) :
    Tables final limbo fresh := tables_congr tables (looked_alike looked)

theorem new_frame_tables (tables : Tables s empty fresh)
    (taken : NewFrame s final fr type pid vpn) :
    Tables final (if type = .page then fr else empty) fresh := by
  cases taken with
  | unused chosen looked free inited =>
      have status : (chosen.ipt fr).status = .notUsed := (core_status (looked.frames fr)).trans free
      exact init_tables (looked_tables tables looked) inited (Or.inl ⟨status, rfl⟩)
  | evicted chosen gone owner page d table looked picks mapping out inited =>
      exact init_tables (evicted_tables (looked_tables tables looked) mapping out) inited
        (Or.inr ⟨evicted_page mapping out, rfl⟩)

theorem new_frame_adds (taken : NewFrame s final fr type pid vpn) : AddsProper s final := by
  cases taken with
  | unused chosen looked free inited =>
      exact adds_proper_refl (inited.trace.trans looked.trace)
  | evicted chosen gone owner page d table looked picks mapping out inited =>
      exact adds_proper_trans (adds_proper_refl looked.trace)
        (adds_proper_trans out.adds (adds_proper_refl inited.trace))

theorem new_frame_ker (taken : NewFrame s final fr type pid vpn) : final.ker = s.ker := by
  cases taken with
  | unused chosen looked free inited => exact inited.ker.trans looked.ker
  | evicted chosen gone owner page d table looked picks mapping out inited =>
      exact inited.ker.trans (out.ker.trans looked.ker)

theorem new_frame_core (taken : NewFrame s final fr type pid vpn) :
    core (final.ipt fr) = core (newFrame type pid vpn) := by
  cases taken with
  | unused chosen looked free inited => rw [inited.frames, if_pos rfl]
  | evicted chosen gone owner page d table looked picks mapping out inited =>
      rw [inited.frames, if_pos rfl]

/-- An allocation never sets a present bit, and changes no base. -/
theorem new_frame_words (taken : NewFrame s final fr type pid vpn) (p i : Nat) :
    base (final.mem p i) = base (s.mem p i) ∧
      (pres (final.mem p i) = true → pres (s.mem p i) = true) := by
  cases taken with
  | unused chosen looked free inited =>
      have word := looked.words p i
      rw [inited.mem, word.1, word.2.1]
      exact ⟨rfl, id⟩
  | evicted chosen gone owner page d table looked picks mapping out inited =>
      have word := looked.words p i
      rw [inited.mem, ← word.1, ← word.2.1]
      by_cases entry : p = frame0 + table ∧ i = page % 1024
      · rw [entry.1, entry.2, out.entry.1, out.entry.2]
        exact ⟨rfl, by simp⟩
      · rw [out.mem p i entry, drop_page_mem (table_ne_dir mapping)]
        split
        · simp
        · exact ⟨rfl, id⟩

end Agreement

section Resources

/-- There is a page to evict, or there are two unused frames. -/
def Enough (s : St) : Prop :=
  (∃ fr, HoldsPage s fr) ∨ ∃ left right, left < nframes ∧ right < nframes ∧ left ≠ right ∧
    (s.ipt left).status = .notUsed ∧ (s.ipt right).status = .notUsed

theorem enough_resources (enough : Enough s) : ¬Exhausted s := by
  intro exhausted
  rcases enough with ⟨x, bound, page⟩ | ⟨left, _, bound, _, _, free, _⟩
  · exact (exhausted x bound).2 page
  · exact (exhausted left bound).1 free

/-- There is a frame for the page of a fault, and first one for its table if that is missing. -/
def Fits (s : St) (pid : Int) (pdi : Nat) : Prop :=
  ¬Exhausted s ∧ (pres (pdeOf s pid pdi) = false → Enough s)

theorem enough_fits {pdi : Nat} (enough : Enough s) : Fits s pid pdi :=
  ⟨enough_resources enough, fun _ => enough⟩

/-- After one allocation there is something left for the next. -/
theorem new_frame_leaves (tables : Tables s empty fresh) (enough : Enough s)
    (taken : NewFrame s final fr type pid vpn) : ¬Exhausted final := by
  cases taken with
  | unused chosen looked free inited =>
      have same : ∀ {x}, x ≠ fr → (final.ipt x).status = (s.ipt x).status := fun different =>
        (core_status (inited_other inited different)).trans (core_status (looked.frames _))
      intro exhausted
      rcases enough with ⟨x, bound, page⟩ | ⟨left, right, leftBound, rightBound, different, leftFree,
        rightFree⟩
      · have notFr : x ≠ fr := by
          rintro rfl
          rw [free] at page
          cases page
        exact (exhausted x bound).2 ((same notFr).trans page)
      · by_cases here : left = fr
        · have notFr : right ≠ fr := fun equal => different (here.trans equal.symm)
          exact (exhausted right rightBound).1 ((same notFr).trans rightFree)
        · exact (exhausted left leftBound).1 ((same here).trans leftFree)
  | evicted chosen gone owner page d table looked picks mapping out inited =>
      have chosenTables := looked_tables tables looked
      obtain ⟨live, low, high⟩ := mapping.heapPage
      have own := private_of_heap chosenTables live low high
      have tableNe : table ≠ fr := by
        rintro rfl
        have status := mapping.isTable.2.1
        rw [mapping.page.2.1] at status
        cases status
      intro exhausted
      by_cases last : (chosen.ipt table).refCount = 1
      · apply (exhausted table mapping.isTable.1).1
        rw [core_status (inited_other inited tableNe), out.ipt, drop_page_last last]
        simp [releaseTable, clearedFrame]
      · -- the table has another page, which stays
        have counted := mapping.count
        have positive := mapping.positive
        have another : ∃ pti < 1024, pti ≠ page % 1024 ∧
            pres (chosen.mem (frame0 + table) pti) = true := by
          by_contra none
          let others : Nat → Bool := fun i =>
            if i = page % 1024 then false else pres (chosen.mem (frame0 + table) i)
          have cleared : count 1024 others + 1 = presCount (chosen.mem (frame0 + table)) :=
            count_clear (Nat.mod_lt page (by decide))
              (by rw [← pte_word mapping.address]; exact mapping.maps.2.1) (if_pos rfl)
              (fun i _ different => if_neg different)
          have zero : count 1024 others = 0 := by
            rw [count_zero]
            intro pti bound
            by_cases here : pti = page % 1024
            · exact if_pos here
            · by_contra isPresent
              rw [show others pti = pres (chosen.mem (frame0 + table) pti) from if_neg here]
                at isPresent
              exact none ⟨pti, bound, here, by simpa using isPresent⟩
          omega
        obtain ⟨pti, bound, different, isPresent⟩ := another
        obtain ⟨x, holds, _, _⟩ := chosenTables.entries owner (page / 1024) pti live own
          mapping.maps.1 bound (by rw [pte_word mapping.address]; exact isPresent)
        have notFr : x ≠ fr := by
          rintro rfl
          have numbers := holds.2.2.2.symm.trans mapping.page.2.2.2
          omega
        have notTable : x ≠ table := by
          rintro rfl
          have status := mapping.isTable.2.1
          rw [holds.2.1] at status
          cases status
        apply (exhausted x holds.1).2
        rw [core_status (inited_other inited notFr), out.ipt, drop_page_ipt notTable]
        exact holds.2.1

theorem get_new_frame_queue {addr : Nat} (queue : QueueKept s)
    (ran : getNewFrame type pid vpn s = .ok addr final) : QueueKept final := by
  intro fifo
  have kept := keeps_ok (get_new_frame_keeps_lock type pid vpn) ran
  have before : s.ker.currpolicy = .fifo := (congrArg Prod.fst kept).symm.trans fifo
  obtain ⟨nodes, frameQueue⟩ := queue before
  cases get_new_frame_run ⟨before, frameQueue⟩ ran with
  | unused _ _ _ _ after => exact ⟨_, after.2⟩
  | evicted _ _ _ _ _ _ _ _ after => exact ⟨_, after.2⟩
  | exhausted _ _ _ after => exact ⟨_, after.2⟩

end Resources

end Xinu.Space.Allocate
