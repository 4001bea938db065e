import Xinu.Space.Choice
import Xinu.Paging.System
import Mathlib.Data.List.Count

/-!
# The loop of `getNewFrameGCA` for any number of frames

How often the hand has been at a frame is how often its page has lost a class. The loop does not
depend on what the system needs of `NFRAMES` to boot.
-/

namespace Xinu.Space.Victim

open Xinu.Kernel.State Xinu.Kernel.Entry Xinu.Lib.StateError Xinu.Lib.Clock
open Xinu.Paging.Address Xinu.Paging.Ipt
open Xinu.Replacement.ModifyBits Xinu.Space.Choice

set_option autoImplicit false

section Definitions

/-- The loop of `getNewFrameGCA` over a table of `n` frames, at most `fuel` turns. -/
def gcaLoop (n : Nat) : Nat → Call Choice
  | 0 => pure (.victim empty)
  | fuel + 1 => do
      modify fun s => { s with gcaNextframe := s.gcaNextframe % n }
      let s ← get
      let hand := s.gcaNextframe
      if (s.ipt hand).status = .notUsed then do
        modify fun s => { s with gcaNextframe := hand + 1 }
        pure (.unused hand)
      else if (s.ipt hand).status = .page then do
        let bits ← setUM (s.ipt hand)
        modify fun s => { s with gcaNextframe := hand + 1 }
        if bits = .um00 then pure (.victim hand) else gcaLoop n fuel
      else do
        modify fun s => { s with gcaNextframe := hand + 1 }
        gcaLoop n fuel

/-- The entry of the page in a frame -/
def entryOf (s : St) (fr : Nat) : Word := s.entry (tableOf s fr) (indexOf s fr)

/-- The frame has a page of a process. -/
def Resident (n : Nat) (s : St) (fr : Nat) : Prop :=
  fr < n ∧ (s.ipt fr).status = .page ∧ ¬Skipped (s.ipt fr)

instance (n : Nat) (s : St) (fr : Nat) : Decidable (Resident n s fr) :=
  inferInstanceAs (Decidable (_ ∧ _ ∧ _))

/-- A frame table that is full, whose pages are not dirty without being accessed. -/
structure Full (n : Nat) (s : St) : Prop where
  used : ∀ fr < n, (s.ipt fr).status ≠ .notUsed
  bits : ∀ fr, Resident n s fr → dirty (entryOf s fr) = true → acc (entryOf s fr) = true

/-- Different frames have pages with different entries. -/
def Distinct (n : Nat) (s : St) : Prop :=
  ∀ left right, Resident n s left → Resident n s right →
    tableOf s left / nbpg = tableOf s right / nbpg → indexOf s left = indexOf s right →
    left = right

/-- The hand has been at `slots`: each page has lost a class for each time it was at its frame, and
nothing else has changed. -/
structure Passed (n : Nat) (s final : St) (slots : List Nat) : Prop where
  kept : final = { s with mem := final.mem, gcaNextframe := final.gcaNextframe }
  entries : ∀ fr, Resident n s fr → entryOf final fr = visited^[slots.count fr] (entryOf s fr)
  others : ∀ p i, (∀ fr, Resident n s fr → ¬(p = tableOf s fr / nbpg ∧ i = indexOf s fr)) →
    final.mem p i = s.mem p i
  bases : ∀ p i, base (final.mem p i) = base (s.mem p i)

end Definitions

section Bridge

variable [Config] {s : St} {fr : Nat}

/-- With the number of frames of the build, the loop is the one of `getNewFrameGCA`. -/
theorem gca_scan_eq (fuel : Nat) : gcaScan fuel s = gcaLoop nframes fuel s := by
  have positive : 0 < nframes := Nat.lt_of_lt_of_le (by decide) Config.bootFrames
  induction fuel generalizing s with
  | zero => rfl
  | succ fuel induction =>
      have bound : s.gcaNextframe % nframes < nframes := Nat.mod_lt _ positive
      unfold gcaScan gcaLoop
      rw [modify_bind, modify_bind, get_bind, get_bind, bind_ok (read_frame_ok bound)]
      dsimp only
      split_ifs with unused page
      · rfl
      · rw [bind_apply, bind_apply, get_and_set_um_eq bound]
        cases setUM (s.ipt (s.gcaNextframe % nframes))
            { s with gcaNextframe := s.gcaNextframe % nframes } with
        | error stop middle => rfl
        | ok bits middle =>
            dsimp only
            rw [modify_bind, modify_bind]
            split_ifs
            · rfl
            · exact induction
      · rw [modify_bind, modify_bind]
        exact induction

end Bridge

section Visits

variable {n : Nat} {s middle final : St} {fr : Nat} {slots more : List Nat}

theorem proper_iterate {entry : Word} (proper : dirty entry = true → acc entry = true) (k : Nat) :
    dirty (visited^[k] entry) = true → acc (visited^[k] entry) = true := by
  induction k generalizing entry with
  | zero => exact proper
  | succ k induction =>
      rw [Function.iterate_succ_apply]
      refine induction fun modified => ?_
      unfold visited at modified ⊢
      split_ifs at modified ⊢ with both used
      · simp at modified
      · simp only [dirty_set_acc] at modified
        exact absurd (by rw [used, modified]; rfl) both
      · exact proper modified

theorem table_same (ker : final.ker = s.ker) (ipt : final.ipt = s.ipt)
    (bases : ∀ p i, base (final.mem p i) = base (s.mem p i)) (fr : Nat) :
    tableOf final fr = tableOf s fr := by
  rw [table_of_frame, table_of_frame, ker, ipt]
  unfold pdi2pt St.entry
  rw [bases]

theorem passed_places (passed : Passed n s final slots) (fr : Nat) :
    tableOf final fr = tableOf s fr ∧ indexOf final fr = indexOf s fr := by
  refine ⟨table_same ?_ ?_ passed.bases fr, ?_⟩
  · rw [passed.kept]
  · rw [passed.kept]
  · rw [index_of_frame, index_of_frame, passed.kept]

theorem passed_ipt (passed : Passed n s final slots) : final.ipt = s.ipt := by
  rw [passed.kept]

theorem passed_resident (passed : Passed n s final slots) :
    Resident n final fr ↔ Resident n s fr := by
  unfold Resident
  rw [passed_ipt passed]

theorem passed_none (hand : Nat) : Passed n s { s with gcaNextframe := hand } [] :=
  ⟨rfl, fun _ _ => rfl, fun _ _ _ => rfl, fun _ _ => rfl⟩

theorem passed_trans (first : Passed n s middle slots) (second : Passed n middle final more) :
    Passed n s final (slots ++ more) := by
  refine ⟨?_, fun fr resident => ?_, fun p i other => ?_, fun p i =>
    (second.bases p i).trans (first.bases p i)⟩
  · rw [second.kept, first.kept]
  · rw [second.entries fr ((passed_resident first).mpr resident), first.entries fr resident,
      List.count_append, Nat.add_comm, Function.iterate_add_apply]
  · refine (second.others p i fun fr resident => ?_).trans (first.others p i other)
    rw [(passed_places first fr).1, (passed_places first fr).2]
    exact other fr ((passed_resident first).mp resident)

/-- The hand passes a frame without a page of a process. -/
theorem passed_absent {hand : Nat} (absent : ¬Resident n s hand) (next : Nat) :
    Passed n s { s with gcaNextframe := next } [hand] := by
  refine ⟨rfl, fun fr resident => ?_, fun _ _ _ => rfl, fun _ _ => rfl⟩
  have other : hand ≠ fr := by
    rintro rfl
    exact absent resident
  rw [List.count_cons_of_ne other, List.count_nil]
  rfl

/-- The hand is at a page. -/
theorem passed_page {hand : Nat} (distinct : Distinct n s) (resident : Resident n s hand)
    (next : Nat) : Passed n s
      { s.setWord (tableOf s hand / nbpg) (indexOf s hand) (visited (entryOf s hand)) with
        gcaNextframe := next } [hand] := by
  have bases : ∀ p i, base ((s.setWord (tableOf s hand / nbpg) (indexOf s hand)
      (visited (entryOf s hand))).mem p i) = base (s.mem p i) := by
    intro p i
    rw [set_word_mem]
    split_ifs with here
    · rw [base_visited, here.1, here.2]
      rfl
    · rfl
  refine ⟨rfl, fun fr residentToo => ?_, fun p i other => ?_, bases⟩
  · have table := @table_same s (s.setWord (tableOf s hand / nbpg) (indexOf s hand)
      (visited (entryOf s hand))) rfl rfl bases fr
    change St.entry (s.setWord _ _ _) (tableOf (s.setWord _ _ _) fr) (indexOf s fr) = _
    rw [table, entry_set_word]
    by_cases here : hand = fr
    · subst here
      rw [if_pos ⟨rfl, rfl⟩, List.count_cons_self, List.count_nil]
      rfl
    · rw [List.count_cons_of_ne here, List.count_nil, if_neg]
      · rfl
      · rintro ⟨sameTable, sameIndex⟩
        exact here (distinct hand fr resident residentToo sameTable.symm sameIndex.symm)
  · change (s.setWord _ _ _).mem p i = _
    rw [set_word_mem, if_neg (other hand resident)]

theorem full_passed (full : Full n s) (passed : Passed n s final slots) : Full n final := by
  refine ⟨fun fr bound => ?_, fun fr resident => ?_⟩
  · rw [passed_ipt passed]
    exact full.used fr bound
  · have before := (passed_resident passed).mp resident
    rw [passed.entries fr before]
    exact proper_iterate (full.bits fr before) _

theorem distinct_passed (distinct : Distinct n s) (passed : Passed n s final slots) :
    Distinct n final := by
  intro left right residentLeft residentRight sameTable sameIndex
  rw [(passed_places passed left).1, (passed_places passed right).1] at sameTable
  rw [(passed_places passed left).2, (passed_places passed right).2] at sameIndex
  exact distinct left right ((passed_resident passed).mp residentLeft)
    ((passed_resident passed).mp residentRight) sameTable sameIndex

end Visits

section Classes

variable {n : Nat} {s final : St} {fr hand : Nat}

theorem resident_class (resident : Resident n s fr) :
    clockClasses s fr = some (useClass (entryOf s fr)) :=
  clock_class_page resident.2.1 resident.2.2

theorem absent_class (full : Full n s) (bound : fr < n) (absent : ¬Resident n s fr) :
    clockClasses s fr = none := by
  refine clock_class_none (full.used fr bound) ?_
  by_contra page
  rw [not_or, not_not] at page
  exact absent ⟨bound, page⟩

/-- A frame that the hand has passed has lost a class, and no other has. -/
theorem passed_classes (full : Full n s) (passed : Passed n s final [hand]) (bound : fr < n) :
    clockClasses final fr = Lib.Clock.pass (clockClasses s) hand fr := by
  by_cases resident : Resident n s fr
  · rw [resident_class ((passed_resident passed).mpr resident), passed.entries fr resident]
    unfold Lib.Clock.pass
    by_cases here : fr = hand
    · subst here
      rw [Function.update_self, List.count_cons_self, List.count_nil, resident_class resident]
      exact congrArg some (use_class_visited _)
    · rw [Function.update_of_ne here, List.count_cons_of_ne (Ne.symm here), List.count_nil,
        resident_class resident]
      rfl
  · have absent := absent_class full bound resident
    rw [absent_class (full_passed full passed) bound fun now =>
      resident ((passed_resident passed).mp now)]
    unfold Lib.Clock.pass
    by_cases here : fr = hand
    · subst here
      rw [Function.update_self, absent]
      rfl
    · rw [Function.update_of_ne here, absent]

theorem visited_zero {entry : Word} (zero : useClass entry = 0) : visited entry = entry := by
  unfold useClass at zero
  unfold visited
  have unused : acc entry = false := by
    by_contra used
    rw [if_pos (by simpa using used)] at zero
    split_ifs at zero
  rw [unused]
  rfl

end Classes

section Scan

variable {n : Nat} {s middle : St}

/-- What the loop reports when every frame is used. -/
def chosen : Option Nat → Choice
  | none => .victim empty
  | some fr => .victim fr

/-- The loop is a clock over the classes of the pages. -/
def Clocks (n fuel : Nat) (s : St) (result : EStateM.Result Stop St Choice) : Prop :=
  ∃ final, result = .ok (chosen (scan n fuel (clockClasses s) s.gcaNextframe)) final ∧
    Passed n s final (passed n fuel (clockClasses s) s.gcaNextframe)

/-- The hand is at a frame that it passes, and goes on. -/
theorem clocks_pass {fuel : Nat} (positive : 0 < n) (full : Full n s)
    (passed : Passed n s middle [s.gcaNextframe % n])
    (next : middle.gcaNextframe = s.gcaNextframe % n + 1)
    (notChosen : clockClasses s (s.gcaNextframe % n) ≠ some 0)
    (rest : Clocks n fuel middle (gcaLoop n fuel middle)) :
    Clocks n (fuel + 1) s (gcaLoop n fuel middle) := by
  have classes : ∀ fr < n, clockClasses middle fr =
      pass (clockClasses s) (s.gcaNextframe % n) fr := fun fr bound =>
    passed_classes full passed bound
  obtain ⟨final, ran, more⟩ := rest
  rw [next] at ran more
  rw [scan_congr positive fuel _ classes] at ran
  rw [passed_congr positive fuel _ classes] at more
  refine ⟨final, ?_, ?_⟩
  · rw [ran, scan, if_neg notChosen]
  · rw [Lib.Clock.passed, if_neg notChosen]
    exact passed_trans passed more

theorem gca_loop_clocks (positive : 0 < n) (full : Full n s) (distinct : Distinct n s)
    (fuel : Nat) : Clocks n fuel s (gcaLoop n fuel s) := by
  induction fuel generalizing s with
  | zero => exact ⟨s, rfl, passed_none s.gcaNextframe⟩
  | succ fuel induction =>
      have bound : s.gcaNextframe % n < n := Nat.mod_lt _ positive
      have goesOn : ∀ middle : St, Passed n s middle [s.gcaNextframe % n] →
          middle.gcaNextframe = s.gcaNextframe % n + 1 →
          clockClasses s (s.gcaNextframe % n) ≠ some 0 →
          Clocks n (fuel + 1) s (gcaLoop n fuel middle) := fun middle passed next notChosen =>
        clocks_pass positive full passed next notChosen
          (induction (full_passed full passed) (distinct_passed distinct passed))
      unfold gcaLoop
      rw [modify_bind, get_bind]
      dsimp only
      rw [if_neg (full.used _ bound)]
      by_cases resident : Resident n s (s.gcaNextframe % n)
      · have held := resident_class resident
        let entry := entryOf s (s.gcaNextframe % n)
        have visit : setUM (s.ipt (s.gcaNextframe % n))
            { s with gcaNextframe := s.gcaNextframe % n } = .ok (useModify entry)
              { s.setWord (tableOf s (s.gcaNextframe % n) / nbpg) (indexOf s (s.gcaNextframe % n))
                (visited entry) with gcaNextframe := s.gcaNextframe % n } :=
          @set_um_page { s with gcaNextframe := s.gcaNextframe % n } _ resident.2.2
            (full.bits _ resident)
        rw [if_pos resident.2.1]
        by_cases zero : useClass entry = 0
        · have same : s.setWord (tableOf s (s.gcaNextframe % n) / nbpg)
              (indexOf s (s.gcaNextframe % n)) (visited entry) = s := by
            rw [visited_zero zero]
            exact set_word_self _ _ _
          have first : clockClasses s (s.gcaNextframe % n) = some 0 :=
            held.trans (congrArg some zero)
          rw [same] at visit
          rw [bind_ok visit, modify_bind, if_pos ((use_modify_class _).mpr zero)]
          refine ⟨{ s with gcaNextframe := s.gcaNextframe % n + 1 }, ?_, ?_⟩
          · rw [scan, if_pos first]
            rfl
          · rw [Lib.Clock.passed, if_pos first]
            exact passed_none _
        · rw [bind_ok visit, modify_bind, if_neg fun none => zero ((use_modify_class _).mp none)]
          refine goesOn _ (passed_page distinct resident _) rfl ?_
          rw [held]
          exact fun same => zero (Option.some.inj same)
      · have absent := absent_class full bound resident
        have notChosen : clockClasses s (s.gcaNextframe % n) ≠ some 0 := by
          rw [absent]
          decide
        by_cases page : (s.ipt (s.gcaNextframe % n)).status = .page
        · have skipped : Skipped (s.ipt (s.gcaNextframe % n)) := by
            by_contra notSkipped
            exact resident ⟨bound, page, notSkipped⟩
          have visit := @set_um_skipped { s with gcaNextframe := s.gcaNextframe % n }
            (s.gcaNextframe % n) skipped
          rw [if_pos page, bind_ok visit, modify_bind, if_neg (by decide)]
          exact goesOn _ (passed_absent resident _) rfl notChosen
        · rw [if_neg page, modify_bind]
          exact goesOn _ (passed_absent resident _) rfl notChosen

end Scan

section Results

variable {n : Nat} {s : St}

theorem use_class_le (entry : Word) : useClass entry ≤ 2 := by
  unfold useClass
  split_ifs <;> decide

theorem page_scores {fr : Nat} (resident : Resident n s fr) :
    Scores n (clockClasses s) s.gcaNextframe fr
      (useClass (entryOf s fr) * n + distance n s.gcaNextframe fr) :=
  ⟨resident.1, _, resident_class resident, rfl⟩

theorem distance_lt (positive : 0 < n) (hand fr : Nat) : distance n hand fr < n :=
  Nat.mod_lt _ positive

/-- The clock finds a page in less than three rounds. -/
theorem victim_found (full : Full n s) (page : ∃ fr, Resident n s fr) :
    ∃ victim count, scan n (3 * n + 1) (clockClasses s) s.gcaNextframe = some victim ∧
      count < 3 * n ∧ Resident n s victim ∧
      passed n (3 * n + 1) (clockClasses s) s.gcaNextframe = turns n s.gcaNextframe count ∧
      count = useClass (entryOf s victim) * n + distance n s.gcaNextframe victim ∧
      ∀ fr, Resident n s fr → useClass (entryOf s victim) < useClass (entryOf s fr) ∨
        useClass (entryOf s victim) = useClass (entryOf s fr) ∧
          distance n s.gcaNextframe victim ≤ distance n s.gcaNextframe fr := by
  obtain ⟨some_fr, someResident⟩ := page
  have positive : 0 < n := Nat.zero_lt_of_lt someResident.1
  have below : ∀ fr, useClass (entryOf s fr) * n + distance n s.gcaNextframe fr < 3 * n := by
    intro fr
    have near := distance_lt positive s.gcaNextframe fr
    have product := Nat.mul_le_mul_right n (use_class_le (entryOf s fr))
    omega
  have chooses := scan_chooses (clockClasses s) s.gcaNextframe positive (3 * n + 1)
  cases found : scan n (3 * n + 1) (clockClasses s) s.gcaNextframe with
  | none =>
      rw [found] at chooses
      have late := chooses _ _ (page_scores someResident)
      have soon := below some_fr
      omega
  | some victim =>
      rw [found] at chooses
      obtain ⟨k, _, scores, least⟩ := chooses
      have score := passed_score positive (3 * n + 1) found
      obtain ⟨bound, c, held, count⟩ := score
      have resident : Resident n s victim := by
        by_contra absent
        rw [absent_class full bound absent] at held
        cases held
      rw [resident_class resident] at held
      obtain rfl := Option.some.inj held
      have same : k = useClass (entryOf s victim) * n + distance n s.gcaNextframe victim := by
        obtain ⟨_, c, held, score⟩ := scores
        rw [resident_class resident] at held
        obtain rfl := Option.some.inj held
        exact score
      refine ⟨victim, _, rfl, ?_, resident, passed_turns _, count, fun fr residentToo => ?_⟩
      · rw [count]
        exact below victim
      · have first := least _ _ (page_scores residentToo)
        rw [same] at first
        exact score_le (distance_lt positive _ _) first

/-- In a full table with different pages the loop stops within three rounds, with the page of the
least class that the hand comes to first. Every page has lost a class for each time that the hand
has been at it, and nothing else has changed. -/
theorem gca_victim (full : Full n s) (distinct : Distinct n s) (page : ∃ fr, Resident n s fr) :
    ∃ victim count final, gcaLoop n (3 * n + 1) s = .ok (.victim victim) final ∧
      count < 3 * n ∧ Resident n s victim ∧
      count = useClass (entryOf s victim) * n + distance n s.gcaNextframe victim ∧
      (∀ fr, Resident n s fr → useClass (entryOf s victim) < useClass (entryOf s fr) ∨
        useClass (entryOf s victim) = useClass (entryOf s fr) ∧
          distance n s.gcaNextframe victim ≤ distance n s.gcaNextframe fr) ∧
      Passed n s final (turns n s.gcaNextframe count) := by
  have positive : 0 < n := page.elim fun fr resident => Nat.zero_lt_of_lt resident.1
  obtain ⟨victim, count, found, soon, resident, slots, score, least⟩ := victim_found full page
  obtain ⟨final, ran, passed⟩ := gca_loop_clocks positive full distinct (3 * n + 1)
  rw [found] at ran
  rw [slots] at passed
  exact ⟨victim, count, final, ran, soon, resident, score, least, passed⟩

/-- Two frames with accessed pages, which are different or the same one -/
def twoFrames (same : Bool) : St where
  ker := Paging.System.blankMachine.ker
  ipt fr := ⟨0, 0, .page, 3, if same = true then 4096 else 4096 + (fr : Int), 0⟩
  flistHead := 0
  flistTail := 0
  fifoNextframe := 0
  gcaNextframe := 0
  mem _ _ := setAcc 0 true
  disk _ _ := 0
  trace := []

theorem two_frames_full (same : Bool) : Full 2 (twoFrames same) :=
  ⟨fun _ _ => fun unused => FrameStatus.noConfusion unused, fun _ _ modified =>
    absurd modified (show ¬dirty (setAcc 0 true) = true by decide)⟩

theorem two_frames_resident (same : Bool) {fr : Nat} (bound : fr < 2) :
    Resident 2 (twoFrames same) fr := by
  refine ⟨bound, rfl, ?_⟩
  rintro (isGlobal | none | noPage)
  · cases isGlobal
  · cases none
  · unfold twoFrames at noPage
    dsimp only at noPage
    unfold noVpn at noPage
    split_ifs at noPage
    omega

theorem two_frames_distinct : Distinct 2 (twoFrames false) := by
  have differ : indexOf (twoFrames false) 0 ≠ indexOf (twoFrames false) 1 := by decide +kernel
  intro left right residentLeft residentRight _ sameIndex
  have leftBound := residentLeft.1
  have rightBound := residentRight.1
  have leftCases : left = 0 ∨ left = 1 := by omega
  have rightCases : right = 0 ∨ right = 1 := by omega
  rcases leftCases with rfl | rfl
  · rcases rightCases with rfl | rfl
    · rfl
    · exact absurd sameIndex differ
  · rcases rightCases with rfl | rfl
    · exact absurd sameIndex.symm differ
    · rfl

theorem gca_victim_two : ∃ victim count final,
    gcaLoop 2 7 (twoFrames false) = .ok (.victim victim) final ∧ count < 6 ∧
      Passed 2 (twoFrames false) final (turns 2 0 count) := by
  obtain ⟨victim, count, final, ran, soon, _, _, _, passed⟩ :=
    gca_victim (two_frames_full false) two_frames_distinct
      ⟨0, two_frames_resident false (by decide)⟩
  exact ⟨victim, count, final, ran, soon, passed⟩

/-- Two frames with one page: the hand takes its class at the first one and chooses the second. -/
theorem second_frame_chosen : Full 2 (twoFrames true) ∧ Resident 2 (twoFrames true) 0 ∧
    (twoFrames true).gcaNextframe = 0 ∧
    useClass (entryOf (twoFrames true) 0) = useClass (entryOf (twoFrames true) 1) ∧
    ∃ final, gcaLoop 2 7 (twoFrames true) = .ok (.victim 1) final := by
  refine ⟨two_frames_full true, two_frames_resident true (by decide), rfl, rfl, ?_⟩
  exact ⟨finalState (gcaLoop 2 7 (twoFrames true)), returned_with (by decide +kernel)⟩

end Results

end Xinu.Space.Victim
