import Xinu.Lib.Clock
import Xinu.Space.Evict

/-!
# Which frame is taken

The scan of `getNewFrameGCA` is a clock over the frames: an unused frame and a page
that was not accessed have class zero, an accessed page class one, an accessed and
dirty page class two, and every other frame is passed over. `Picks` names the page
an allocation takes, for both policies, from the state before the allocation.
-/

namespace Xinu.Space.Choice

open Xinu.Kernel.State Xinu.Kernel.Entry Xinu.Lib.StateError Xinu.Lib.Clock
open Xinu.Paging.Address Xinu.Paging.Ipt
open Xinu.Replacement.Fifo Xinu.Replacement.FifoRuns Xinu.Replacement.ModifyBits
open Xinu.Space.Agreement Xinu.Space.Transfers Xinu.Space.Evict

set_option autoImplicit false

def useClass (entry : Word) : Nat := if acc entry then if dirty entry then 2 else 1 else 0

/-- The class of a frame whose page is mapped by `entry`. -/
def clockClass (frame : Frame) (entry : Word) : Option Nat :=
  if frame.status = .notUsed then some 0
  else if frame.status = .page ∧ ¬Skipped frame then some (useClass entry)
  else none

section Words

variable {frame : Frame} {entry entry' : Word}

theorem clock_class_unused (unused : frame.status = .notUsed) :
    clockClass frame entry = some 0 := if_pos unused

theorem clock_class_page (page : frame.status = .page) (notSkipped : ¬Skipped frame) :
    clockClass frame entry = some (useClass entry) := by
  have used : frame.status ≠ .notUsed := by
    rw [page]
    decide
  rw [clockClass, if_neg used, if_pos ⟨page, notSkipped⟩]

theorem clock_class_none (used : frame.status ≠ .notUsed)
    (passed : frame.status ≠ .page ∨ Skipped frame) : clockClass frame entry = none := by
  rw [clockClass, if_neg used, if_neg]
  rintro ⟨page, notSkipped⟩
  rcases passed with notPage | skipped
  · exact notPage page
  · exact notSkipped skipped

theorem clock_class_other (notPage : frame.status ≠ .page) :
    clockClass frame entry = clockClass frame entry' := by
  by_cases unused : frame.status = .notUsed
  · rw [clock_class_unused unused, clock_class_unused unused]
  · rw [clock_class_none unused (Or.inl notPage), clock_class_none unused (Or.inl notPage)]

theorem use_class_visited (entry : Word) : useClass (visited entry) = (useClass entry).pred := by
  unfold useClass visited
  cases used : acc entry with
  | true =>
      cases modified : dirty entry with
      | true => simp [used]
      | false => simp
  | false => simp [used]

/-- A visit keeps what is known about modifications. -/
theorem modified_visited (entry : Word) :
    dirty (visited entry) = true ∨ avail (visited entry) = 1 ↔
      dirty entry = true ∨ avail entry = 1 := by
  unfold visited
  cases used : acc entry with
  | true =>
      cases modified : dirty entry with
      | true => simp
      | false => simp [modified]
  | false => simp

end Words

def clockClasses (s : St) (fr : Nat) : Option Nat :=
  clockClass (s.ipt fr) (s.entry (tableOf s fr) (indexOf s fr))

variable [Config]

/-- The page that the next allocation evicts. -/
def Picks (s : St) (fr : Nat) : Prop :=
  s.ker.currpolicy = .fifo ∧ AllUsed s ∧ fr = s.flistTail ∨
    s.ker.currpolicy = .gca ∧ (s.ipt fr).status = .page ∧
      ∃ k, Scores nframes (clockClasses s) s.gcaNextframe fr k ∧
        ∀ other score, Scores nframes (clockClasses s) s.gcaNextframe other score → k ≤ score

/-- Nothing was changed but list links and the use bits of pages. -/
structure Looked (s final : St) : Prop where
  ker : final.ker = s.ker
  frames : ∀ fr, core (final.ipt fr) = core (s.ipt fr)
  words : ∀ p i, pres (final.mem p i) = pres (s.mem p i) ∧ base (final.mem p i) = base (s.mem p i) ∧
    (dirty (final.mem p i) = true ∨ avail (final.mem p i) = 1 ↔
      dirty (s.mem p i) = true ∨ avail (s.mem p i) = 1)
  others : ∀ p i, (∀ fr < nframes, (s.ipt fr).status = .page → ¬Skipped (s.ipt fr) →
    ¬(p = tableOf s fr / nbpg ∧ i = indexOf s fr)) → final.mem p i = s.mem p i
  disk : final.disk = s.disk
  trace : final.trace = s.trace

variable {s middle final : St} {fr : Nat}

theorem looked_refl (ker : final.ker = s.ker) (frames : ∀ fr, core (final.ipt fr) = core (s.ipt fr))
    (mem : final.mem = s.mem) (disk : final.disk = s.disk) (trace : final.trace = s.trace) :
    Looked s final where
  ker := ker
  frames := frames
  words := fun p i => by rw [mem]; exact ⟨rfl, rfl, Iff.rfl⟩
  others := fun p i _ => by rw [mem]
  disk := disk
  trace := trace

theorem looked_alike (looked : Looked s final) : Alike s final where
  procs := fun pid => by rw [looked.ker]
  frames := looked.frames
  words := fun fr _ _ i => ⟨(looked.words _ i).1, (looked.words _ i).2.1⟩

/-- The pages of two frames are mapped by different entries. -/
def Apart (s : St) : Prop :=
  ∀ left right, left < nframes → right < nframes → (s.ipt left).status = .page →
    (s.ipt right).status = .page →
    tableOf s left / nbpg = tableOf s right / nbpg → indexOf s left = indexOf s right →
    left = right

theorem mapping_place {limbo d table vpn : Nat} {fresh : List Nat} {pid : Int}
    (tables : Tables s limbo fresh) (mapping : Mapping s fr pid vpn d table) :
    tableOf s fr = frameNum2ptr table ∧ indexOf s fr = vpn % 1024 := by
  obtain ⟨bound, _, owner, number⟩ := mapping.page
  have small : vpn < 1048576 := by
    have heap := mapping_vpn tables mapping
    omega
  have address := mapping.address
  rw [table_of_frame, index_of_frame, owner, number, page_addr_pdi vpn small,
    page_addr_pti vpn small, pdi2pt]
  rw [pdeOf] at address
  rw [address, frame_ptr_base table mapping.isTable.1]
  exact ⟨rfl, rfl⟩

theorem apart_of_tables {fresh : List Nat} (tables : Tables s empty fresh) : Apart s := by
  intro left right leftBound rightBound leftPage rightPage sameTable sameIndex
  have proper : ∀ {fr : Nat}, fr < nframes → fr ≠ empty := by
    rintro fr bound rfl
    exact empty_not_frame bound
  obtain ⟨pid, vpn, d, table, mapping⟩ :=
    mapping_of_page tables leftBound leftPage (proper leftBound)
  obtain ⟨pid', vpn', d', table', mapping'⟩ :=
    mapping_of_page tables rightBound rightPage (proper rightBound)
  obtain ⟨leftTable, leftIndex⟩ := mapping_place tables mapping
  obtain ⟨rightTable, rightIndex⟩ := mapping_place tables mapping'
  rw [leftTable, rightTable, frame_ptr_page table mapping.isTable.1,
    frame_ptr_page table' mapping'.isTable.1] at sameTable
  rw [leftIndex, rightIndex] at sameIndex
  have leftBase := mapping.maps.2.2
  have rightBase := mapping'.maps.2.2
  rw [pte_word mapping.address, sameTable, sameIndex] at leftBase
  rw [pte_word mapping'.address, leftBase] at rightBase
  omega

section Visit

omit [Config] in
theorem use_modify_class (entry : Word) : useModify entry = .um00 ↔ useClass entry = 0 := by
  unfold useModify useClass
  cases acc entry <;> cases dirty entry <;> simp

/-- The combination of bits that `getAndSetUM` panics on. -/
theorem visit_stops (bound : fr < nframes) (notSkipped : ¬Skipped (s.ipt fr))
    (improper : ¬(dirty (s.entry (tableOf s fr) (indexOf s fr)) = true →
      acc (s.entry (tableOf s fr) (indexOf s fr)) = true)) :
    getAndSetUM fr s = .error (.panic "getAndSetUM: invalid bit state\n") s := by
  have modified : dirty (s.entry (tableOf s fr) (indexOf s fr)) = true := by
    by_contra clean
    exact improper fun isDirty => absurd isDirty clean
  have unused : acc (s.entry (tableOf s fr) (indexOf s fr)) = false := by
    by_contra used
    exact improper fun _ => by simpa using used
  unfold getAndSetUM
  rw [bind_ok (read_frame_ok bound), if_neg notSkipped, get_bind, ← table_of_frame,
    ← index_of_frame]
  simp only [modified, unused, Bool.and_true, Bool.and_self, Bool.not_true, Bool.and_false,
    Bool.false_eq_true, if_false]
  rfl

theorem visit_looked (fr : Nat) (bound : fr < nframes) (page : (s.ipt fr).status = .page)
    (notSkipped : ¬Skipped (s.ipt fr)) :
    Looked s (s.setWord (tableOf s fr / nbpg) (indexOf s fr)
      (visited (s.entry (tableOf s fr) (indexOf s fr)))) where
  ker := rfl
  frames := fun _ => rfl
  words := by
    intro p i
    rw [set_word_mem]
    split
    · rename_i here
      rw [here.1, here.2]
      change pres (visited (s.mem _ _)) = pres (s.mem _ _) ∧ base (visited (s.mem _ _)) = _ ∧ _
      refine ⟨pres_visited _, base_visited _, ?_⟩
      exact modified_visited _
    · exact ⟨rfl, rfl, Iff.rfl⟩
  others := by
    intro p i other
    rw [set_word_mem, if_neg (other fr bound page notSkipped)]
  disk := rfl
  trace := rfl

/-- A change of bits moves no page to another table. -/
theorem looked_place (looked : Looked s final) (fr : Nat) :
    tableOf final fr = tableOf s fr ∧ indexOf final fr = indexOf s fr := by
  have same := looked.frames fr
  simp only [core, Prod.mk.injEq] at same
  rw [table_of_frame, table_of_frame, index_of_frame, index_of_frame, looked.ker, same.2.1,
    same.2.2.1]
  refine ⟨?_, rfl⟩
  unfold pdi2pt St.entry
  rw [(looked.words _ _).2.1]

theorem looked_trans (first : Looked s middle) (second : Looked middle final) : Looked s final where
  ker := second.ker.trans first.ker
  frames := fun fr => (second.frames fr).trans (first.frames fr)
  words := fun p i => ⟨(second.words p i).1.trans (first.words p i).1,
    (second.words p i).2.1.trans (first.words p i).2.1,
    (second.words p i).2.2.trans (first.words p i).2.2⟩
  others := by
    intro p i other
    refine (second.others p i ?_).trans (first.others p i other)
    intro fr bound page notSkipped
    have same := first.frames fr
    simp only [core, Prod.mk.injEq] at same
    obtain ⟨table, index⟩ := looked_place first fr
    rw [table, index]
    apply other fr bound (same.1.symm.trans page)
    unfold Skipped at notSkipped ⊢
    rwa [← same.2.1, ← same.2.2.1]
  disk := second.disk.trans first.disk
  trace := second.trace.trans first.trace

theorem looked_apart (looked : Looked s final) (apart : Apart s) : Apart final := by
  intro left right leftBound rightBound leftPage rightPage sameTable sameIndex
  rw [core_status (looked.frames left)] at leftPage
  rw [core_status (looked.frames right)] at rightPage
  rw [(looked_place looked left).1, (looked_place looked right).1] at sameTable
  rw [(looked_place looked left).2, (looked_place looked right).2] at sameIndex
  exact apart left right leftBound rightBound leftPage rightPage sameTable sameIndex

/-- A visit takes one class off the page, and leaves all other classes alone. -/
theorem visit_classes (apart : Apart s) (bound : fr < nframes) (page : (s.ipt fr).status = .page)
    (notSkipped : ¬Skipped (s.ipt fr)) (x : Nat) (xBound : x < nframes) :
    clockClasses (s.setWord (tableOf s fr / nbpg) (indexOf s fr)
      (visited (s.entry (tableOf s fr) (indexOf s fr)))) x = Lib.Clock.pass (clockClasses s) fr x := by
  obtain ⟨table, index⟩ := looked_place (visit_looked fr bound page notSkipped) x
  have before : ∀ x, clockClasses s x = clockClass (s.ipt x) (s.entry (tableOf s x) (indexOf s x)) :=
    fun _ => rfl
  rw [clockClasses, table, index, entry_set_word, set_word_ipt]
  unfold Lib.Clock.pass
  by_cases here : x = fr
  · subst here
    rw [Function.update_self, if_pos ⟨rfl, rfl⟩, before, clock_class_page page notSkipped,
      clock_class_page page notSkipped, use_class_visited]
    rfl
  · rw [Function.update_of_ne here, before]
    by_cases otherPage : (s.ipt x).status = .page
    · rw [if_neg]
      rintro ⟨sameTable, sameIndex⟩
      exact here (apart x fr xBound bound otherPage page sameTable sameIndex)
    · exact clock_class_other otherPage

end Visit

section Scan

/-- The choice of the clock, as `getNewFrameGCA` reports it. -/
def choiceOf (s : St) : Option Nat → Choice
  | none => .victim empty
  | some fr => if (s.ipt fr).status = .notUsed then .unused fr else .victim fr

theorem choice_congr (looked : Looked s final) (found : Option Nat) :
    choiceOf final found = choiceOf s found := by
  cases found with
  | none => rfl
  | some fr => simp only [choiceOf, core_status (looked.frames fr)]

/-- `getNewFrameGCA` is the clock over `clockClasses`. -/
theorem gca_scan_ends (apart : Apart s) (fuel : Nat) :
    Ends (gcaScan fuel s)
      (fun choice final => Looked s final ∧
        choice = choiceOf s (scan nframes fuel (clockClasses s) s.gcaNextframe))
      (Clean s) := by
  have positive : 0 < nframes := by
    have boot := Config.bootFrames
    omega
  induction fuel generalizing s with
  | zero => exact ⟨looked_refl rfl (fun _ => rfl) rfl rfl rfl, rfl⟩
  | succ fuel induction =>
      let hand := s.gcaNextframe % nframes
      have bound : hand < nframes := Nat.mod_lt _ positive
      -- the rest of the scan, from a state in which the hand has passed this frame
      have passed : ∀ middle : St, Looked s middle →
          (∀ x < nframes, clockClasses middle x = Lib.Clock.pass (clockClasses s) hand x) →
          clockClasses s hand ≠ some 0 →
          Ends (gcaScan fuel { middle with gcaNextframe := hand + 1 })
            (fun choice final => Looked s final ∧
              choice = choiceOf s (scan nframes (fuel + 1) (clockClasses s) s.gcaNextframe))
            (Clean s) := by
        intro middle looked classes notChosen
        have moved : Looked s { middle with gcaNextframe := hand + 1 } :=
          looked_trans looked (looked_refl rfl (fun _ => rfl) rfl rfl rfl)
        have rest := induction (s := { middle with gcaNextframe := hand + 1 })
          (looked_apart moved apart)
        rw [scan, if_neg notChosen]
        apply ends_weaken rest
        · rintro choice final _ ⟨later, rfl⟩
          refine ⟨looked_trans moved later, ?_⟩
          rw [choice_congr moved]
          exact congrArg _ (scan_congr positive fuel (hand + 1) classes)
        · intro stop final clean
          exact clean_trans (adds_proper_refl moved.trace) clean
      have unmoved : ∀ {x}, clockClasses s hand = none → clockClasses s x =
          Lib.Clock.pass (clockClasses s) hand x := by
        intro x absent
        unfold Lib.Clock.pass
        by_cases here : x = hand
        · rw [here, Function.update_self, absent]
          rfl
        · rw [Function.update_of_ne here]
      unfold gcaScan
      rw [modify_bind, get_bind, bind_ok (read_frame_ok bound)]
      by_cases unused : (s.ipt hand).status = .notUsed
      · have class0 : clockClasses s hand = some 0 := clock_class_unused unused
        rw [if_pos unused, modify_bind, scan, if_pos class0]
        refine ⟨looked_refl rfl (fun _ => rfl) rfl rfl rfl, ?_⟩
        simp only [choiceOf]
        rw [if_pos unused]
      · rw [if_neg unused]
        by_cases page : (s.ipt hand).status = .page
        · rw [if_pos page]
          by_cases skipped : Skipped (s.ipt hand)
          · have absent : clockClasses s hand = none :=
              clock_class_none unused (Or.inr skipped)
            have visit : getAndSetUM hand { s with gcaNextframe := hand } =
                .ok .skipFrame { s with gcaNextframe := hand } := visit_skipped bound skipped
            rw [bind_ok visit, modify_bind, if_neg (by decide)]
            exact passed s (looked_refl rfl (fun _ => rfl) rfl rfl rfl)
              (fun x _ => unmoved absent) (by rw [absent]; decide)
          · by_cases proper : dirty (s.entry (tableOf s hand) (indexOf s hand)) = true →
                acc (s.entry (tableOf s hand) (indexOf s hand)) = true
            · let entry := s.entry (tableOf s hand) (indexOf s hand)
              have visit : getAndSetUM hand { s with gcaNextframe := hand } =
                  .ok (useModify entry)
                    { s.setWord (tableOf s hand / nbpg) (indexOf s hand) (visited entry) with
                      gcaNextframe := hand } := visit_page bound skipped proper
              have held : clockClasses s hand = some (useClass entry) :=
                clock_class_page page skipped
              have looked := visit_looked (s := s) hand bound page skipped
              have bits : useModify entry = .um00 ↔ useClass entry = 0 := use_modify_class entry
              rw [bind_ok visit, modify_bind]
              by_cases chosen : useClass entry = 0
              · rw [if_pos (bits.mpr chosen), scan, if_pos (by rw [held, chosen])]
                refine ⟨looked_trans looked (looked_refl rfl (fun _ => rfl) rfl rfl rfl), ?_⟩
                simp only [choiceOf]
                rw [if_neg unused]
              · rw [if_neg fun none => chosen (bits.mp none)]
                apply passed _ looked (visit_classes apart bound page skipped)
                rw [held]
                simpa using chosen
            · have stopped := visit_stops (s := { s with gcaNextframe := hand }) bound skipped proper
              rw [bind_error stopped]
              exact ⟨adds_proper_refl rfl, by simp⟩
        · have absent : clockClasses s hand = none := clock_class_none unused (Or.inl page)
          rw [if_neg page, modify_bind]
          exact passed s (looked_refl rfl (fun _ => rfl) rfl rfl rfl)
            (fun x _ => unmoved absent) (by rw [absent]; decide)

end Scan

end Xinu.Space.Choice
