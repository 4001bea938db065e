import Xinu.Lfs.Device
import Mathlib.Data.Nat.Find

/-!
# Opening a local file

The results of `lfsopen`, and runs of opening and closing files. The name that an open leaves in
the control block is its null character alone, so the comparison with the files that are open
refuses the empty name and no other one.
-/

namespace Xinu.Lfs.Open

open Xinu.Kernel.State (sysErr ok)
open Xinu.Lfs.Device

set_option autoImplicit false

section Names

theorem sameName_iff (nam cmp : CString) (fuel i : Nat) :
    sameName nam cmp fuel i = true ↔
      ∃ stop, i ≤ stop ∧ stop < i + fuel ∧ nam stop = 0 ∧ cmp stop = 0 ∧
        ∀ at_ < stop, i ≤ at_ → nam at_ = cmp at_ ∧ nam at_ ≠ 0 := by
  induction fuel generalizing i with
  | zero =>
      constructor
      · intro same
        simp [sameName] at same
      · rintro ⟨stop, low, high, -⟩
        omega
  | succ fuel ih =>
      rw [sameName]
      by_cases last : nam i = 0
      · rw [if_pos last]
        constructor
        · intro same
          exact ⟨i, Nat.le_refl i, by omega, last, by simpa using same, fun _ below low => by omega⟩
        · rintro ⟨stop, low, -, -, ended, before⟩
          rcases Nat.eq_or_lt_of_le low with rfl | below
          · simpa using ended
          · exact absurd last (before i below (Nat.le_refl i)).2
      · rw [if_neg last]
        by_cases differ : nam i = cmp i
        · rw [if_neg (not_not.mpr differ), ih]
          constructor
          · rintro ⟨stop, low, high, first, second, before⟩
            refine ⟨stop, by omega, by omega, first, second, fun at_ below above => ?_⟩
            rcases Nat.eq_or_lt_of_le above with rfl | later
            · exact ⟨differ, last⟩
            · exact before at_ below later
          · rintro ⟨stop, low, high, first, second, before⟩
            have later : i ≠ stop := by
              rintro rfl
              exact last first
            exact ⟨stop, by omega, by omega, first, second,
              fun at_ below above => before at_ below (by omega)⟩
        · rw [if_pos differ]
          constructor
          · intro same
            cases same
          · rintro ⟨stop, low, -, first, -, before⟩
            rcases Nat.eq_or_lt_of_le low with rfl | below
            · exact absurd first last
            · exact absurd (before i below (Nat.le_refl i)).1 differ

/-- The copy that never moves on leaves the last character copied, the null character. -/
theorem copyToFirst_first (source : CString) (fuel i : Nat) (target : CString)
    (ends : ∃ stop, i ≤ stop ∧ stop < i + fuel ∧ source stop = 0) :
    copyToFirst source fuel i target 0 = 0 := by
  induction fuel generalizing i target with
  | zero =>
      obtain ⟨stop, low, high, -⟩ := ends
      omega
  | succ fuel ih =>
      rw [copyToFirst]
      by_cases last : source i = 0
      · simp [last]
      · simp only [last, if_false]
        obtain ⟨stop, low, high, ended⟩ := ends
        have later : i ≠ stop := by
          rintro rfl
          exact last ended
        exact ih (i + 1) _ ⟨stop, by omega, by omega, ended⟩

theorem copyName_before (source : CString) (fuel i : Nat) (target : CString) (at_ : Nat)
    (below : at_ < i) : copyName source fuel i target at_ = target at_ := by
  induction fuel generalizing i target with
  | zero => rfl
  | succ fuel ih =>
      have other : Function.update target i (source i) at_ = target at_ :=
        Function.update_of_ne (by omega) _ _
      rw [copyName]
      split_ifs
      · exact other
      · exact (ih (i + 1) _ (by omega)).trans other

/-- A copy has every character of the name up to its null character. -/
theorem copyName_apply (source : CString) (fuel i : Nat) (target : CString) (at_ : Nat)
    (upto : ∀ j < at_, i ≤ j → source j ≠ 0) (above : i ≤ at_) (room : at_ < i + fuel) :
    copyName source fuel i target at_ = source at_ := by
  induction fuel generalizing i target with
  | zero => omega
  | succ fuel ih =>
      have placed : Function.update target i (source i) i = source i := Function.update_self i _ _
      rw [copyName]
      rcases Nat.eq_or_lt_of_le above with rfl | later
      · split_ifs
        · exact placed
        · exact (copyName_before source fuel (i + 1) _ i (by omega)).trans placed
      · rw [if_neg (upto i later (Nat.le_refl i))]
        exact ih (i + 1) _ (fun j below low => upto j below (by omega)) later (by omega)

/-- Names that agree up to a null character are compared alike. -/
theorem sameName_of_agree {nam first second : CString} {stop : Nat} (null : first stop = 0)
    (agree : ∀ j ≤ stop, first j = second j) (same : sameName nam first lfNameLen 0 = true) :
    sameName nam second lfNameLen 0 = true := by
  obtain ⟨ends, -, short, nameEnds, firstEnds, before⟩ := (sameName_iff _ _ _ _).mp same
  have inside : ends ≤ stop := by
    by_contra longer
    obtain ⟨equal, filled⟩ := before stop (Nat.not_le.mp longer) (Nat.zero_le stop)
    exact filled (equal.trans null)
  refine (sameName_iff _ _ _ _).mpr ⟨ends, Nat.zero_le ends, short, nameEnds, ?_, fun j below _ => ?_⟩
  · rw [← agree ends inside, firstEnds]
  · obtain ⟨equal, filled⟩ := before j below (Nat.zero_le j)
    exact ⟨equal.trans (agree j (by omega)), filled⟩

/-- A name and its copy are compared alike. -/
theorem sameName_copyName (nam source target : CString) (fits : NameFits source) :
    sameName nam (copyName source lfNameLen 0 target) lfNameLen 0 =
      sameName nam source lfNameLen 0 := by
  let stop := Nat.find fits
  obtain ⟨inside, ended⟩ : stop < lfNameLen ∧ source stop = 0 := Nat.find_spec fits
  have before : ∀ j < stop, source j ≠ 0 := fun j below null =>
    Nat.find_min fits below ⟨by omega, null⟩
  have copied : ∀ j ≤ stop, copyName source lfNameLen 0 target j = source j := fun j upto =>
    copyName_apply source lfNameLen 0 target j (fun k below _ => before k (by omega)) (by omega)
      (by omega)
  refine Bool.eq_iff_iff.mpr ⟨sameName_of_agree ?_ copied, sameName_of_agree ended fun j upto =>
    (copied j upto).symm⟩
  rw [copied stop (Nat.le_refl stop), ended]

end Names

section Results

variable {s : FileSystem} {name : CString} {mode : List Byte}

/-- What a call of `lfsopen` needs before it looks into the directory. -/
structure Admitted (s : FileSystem) (name : CString) (mode : List Byte) (mbits dev : Nat) : Prop where
  fits : NameFits name
  bits : lfgetmode mode 0 = some mbits
  device : freeDevice s = some dev
  distinct : ¬alreadyOpen s name

/-- The open of a file that is in the directory already. -/
structure OpensOld (s : FileSystem) (name : CString) (mode : List Byte) (mbits dev entry : Nat) :
    Prop extends Admitted s name mode mbits dev where
  found : findEntry (loadDir s) name = some entry
  old : mbits &&& lfModeN = 0
  result : lfsopen s name mode = (openDevice (loadDir s) dev entry mbits name, (dev : Int))

/-- The open of a file that is new. -/
structure OpensNew (s : FileSystem) (name : CString) (mode : List Byte) (mbits dev : Nat) :
    Prop extends Admitted s name mode mbits dev where
  missing : findEntry (loadDir s) name = none
  fresh : mbits &&& lfModeO = 0
  room : (loadDir s).lfDir.lfdNfiles < lfNumDirEnt
  result : lfsopen s name mode =
    (openDevice (newEntry (loadDir s) name) dev (loadDir s).lfDir.lfdNfiles mbits name, (dev : Int))

/-- A call that is refused reads the directory at most. -/
structure Refused (s : FileSystem) (name : CString) (mode : List Byte) : Prop where
  error : (lfsopen s name mode).2 = sysErr
  left : (lfsopen s name mode).1 = s ∨ (lfsopen s name mode).1 = loadDir s

theorem lfsopen_cases (s : FileSystem) (name : CString) (mode : List Byte) :
    Refused s name mode ∨ (∃ mbits dev entry, OpensOld s name mode mbits dev entry) ∨
      ∃ mbits dev, OpensNew s name mode mbits dev := by
  by_cases fits : NameFits name
  case neg => exact .inl ⟨by simp [lfsopen, fits], .inl (by simp [lfsopen, fits])⟩
  cases bits : lfgetmode mode 0 with
  | none => exact .inl ⟨by simp [lfsopen, bits], .inl (by simp [lfsopen, bits])⟩
  | some mbits =>
      cases device : freeDevice s with
      | none => exact .inl ⟨by simp [lfsopen, device], .inl (by simp [lfsopen, device])⟩
      | some dev =>
          by_cases already : alreadyOpen s name
          · exact .inl ⟨by simp [lfsopen, bits, device, already],
              .inl (by simp [lfsopen, bits, device, already])⟩
          have admitted : Admitted s name mode mbits dev := ⟨fits, bits, device, already⟩
          cases found : findEntry (loadDir s) name with
          | some entry =>
              by_cases old : mbits &&& lfModeN = 0
              · exact .inr (.inl ⟨mbits, dev, entry, admitted, found, old,
                  by simp [lfsopen, fits, bits, device, already, found, old]⟩)
              · exact .inl ⟨by simp [lfsopen, fits, bits, device, already, found, old],
                  .inr (by simp [lfsopen, fits, bits, device, already, found, old])⟩
          | none =>
              by_cases fresh : mbits &&& lfModeO = 0
              case neg =>
                exact .inl ⟨by simp [lfsopen, fits, bits, device, already, found, fresh],
                  .inr (by simp [lfsopen, fits, bits, device, already, found, fresh])⟩
              by_cases room : (loadDir s).lfDir.lfdNfiles < lfNumDirEnt
              · exact .inr (.inr ⟨mbits, dev, admitted, found, fresh, room,
                  by simp [lfsopen, fits, bits, device, already, found, fresh, Nat.not_le.mpr room]⟩)
              · exact .inl ⟨by simp [lfsopen, fits, bits, device, already, found, fresh, Nat.not_lt.mp room],
                  .inr (by simp [lfsopen, fits, bits, device, already, found, fresh, Nat.not_lt.mp room])⟩

theorem freeDevice_spec {dev : Nat} (device : freeDevice s = some dev) :
    dev < nlfl ∧ (s.lfltab dev).lfstate = .free := by
  have found := List.find?_some device
  have member := List.mem_of_find?_eq_some device
  exact ⟨List.mem_range.mp member, of_decide_eq_true found⟩

theorem findEntry_spec {entry : Nat} (found : findEntry s name = some entry) :
    entry < s.lfDir.lfdNfiles ∧
      sameName name (s.lfDir.lfdFiles entry).ldName lfNameLen 0 = true := by
  have same := List.find?_some found
  have member := List.mem_of_find?_eq_some found
  exact ⟨List.mem_range.mp member, same⟩

theorem findEntry_isSome {entry : Nat} (inside : entry < s.lfDir.lfdNfiles)
    (same : sameName name (s.lfDir.lfdFiles entry).ldName lfNameLen 0 = true) :
    ∃ found, findEntry s name = some found := by
  have some_entry : (findEntry s name).isSome = true :=
    List.find?_isSome.mpr ⟨entry, List.mem_range.mpr inside, same⟩
  exact Option.isSome_iff_exists.mp some_entry

@[simp]
theorem loadDir_lfltab (s : FileSystem) : (loadDir s).lfltab = s.lfltab := by
  rw [loadDir]
  split_ifs <;> rfl

theorem loadDir_of_present (present : s.lfDirpresent = true) : loadDir s = s := if_pos present

@[simp]
theorem loadDir_present (s : FileSystem) : (loadDir s).lfDirpresent = true := by
  rw [loadDir]
  split_ifs with present
  · exact present
  · rfl

end Results

section Runs

inductive FileCall where
  | opened (name : CString) (mode : List Byte)
  | closed (dev : Nat)

def call (s : FileSystem) : FileCall → FileSystem
  | .opened name mode => (lfsopen s name mode).1
  | .closed dev => (lflclose s dev).1

/-- The calls that `allowed` lets through, from a disk on. -/
inductive Run (allowed : FileSystem → FileCall → Prop) (disk : Disk) : FileSystem → Prop where
  | start : Run allowed disk (lfsinit disk)
  | step {s : FileSystem} {event : FileCall} (run : Run allowed disk s) (may : allowed s event) :
      Run allowed disk (call s event)

/-- The file of that name is open. -/
def OpenName (s : FileSystem) (name : CString) : Prop :=
  ∃ dev < nlfl, (s.lfltab dev).lfstate = .used ∧
    sameName name (s.lfDir.lfdFiles (s.lfltab dev).lfdirptr).ldName lfNameLen 0 = true

def Distinct (s : FileSystem) : Prop :=
  ∀ dev other, (s.lfltab dev).lfstate = .used → (s.lfltab other).lfstate = .used →
    (s.lfltab dev).lfdirptr = (s.lfltab other).lfdirptr → dev = other

def LeavesTables (s : FileSystem) (name : CString) (mode : List Byte) : Prop :=
  (lfsopen s name mode).2 = sysErr ∧ (lfsopen s name mode).1.lfltab = s.lfltab ∧
    (lfsopen s name mode).1.lfDir = s.lfDir

/-- A call that opens a file again: the name is not empty, the mode lets the file be an old one,
and a pseudo-device is free. -/
def OpensAgain (s : FileSystem) (name : CString) (mode : List Byte) : Prop :=
  OpenName s name ∧ name 0 ≠ 0 ∧ NameFits name ∧ (freeDevice s).isSome = true ∧
    ∃ mbits, lfgetmode mode 0 = some mbits ∧ mbits &&& lfModeN = 0

def NotAgain (s : FileSystem) : FileCall → Prop
  | .opened name mode => ¬OpensAgain s name mode
  | .closed _ => True

/-- What holds of the pseudo-devices in use. -/
structure Opened (s : FileSystem) : Prop where
  device : ∀ dev, (s.lfltab dev).lfstate = .used → dev < nlfl
  present : ∀ dev, (s.lfltab dev).lfstate = .used → s.lfDirpresent = true
  entry : ∀ dev, (s.lfltab dev).lfstate = .used → (s.lfltab dev).lfdirptr < s.lfDir.lfdNfiles
  emptied : ∀ dev, (s.lfltab dev).lfstate = .used → (s.lfltab dev).lfname 0 = 0
  distinct : Distinct s

theorem opened_start (disk : Disk) : Opened (lfsinit disk) := by
  have unused : ∀ dev, ((lfsinit disk).lfltab dev).lfstate ≠ .used := fun dev used => by
    cases used
  exact ⟨fun dev used => absurd used (unused dev), fun dev used => absurd used (unused dev),
    fun dev used => absurd used (unused dev), fun dev used => absurd used (unused dev),
    fun dev _ used => absurd used (unused dev)⟩

/-- Only the empty name is found among the names of the files that are open. -/
theorem alreadyOpen_iff {s : FileSystem} (before : Opened s) (name : CString) :
    alreadyOpen s name ↔ name 0 = 0 ∧ ∃ dev < nlfl, (s.lfltab dev).lfstate = .used := by
  constructor
  · rintro ⟨dev, inside, used, same⟩
    obtain ⟨stop, -, -, ended, -, agree⟩ := (sameName_iff _ _ _ _).mp same
    refine ⟨?_, dev, inside, used⟩
    by_contra filled
    rcases Nat.eq_zero_or_pos stop with rfl | positive
    · exact filled ended
    · exact filled ((agree 0 positive (Nat.le_refl 0)).1.trans (before.emptied dev used))
  · rintro ⟨empty, dev, inside, used⟩
    refine ⟨dev, inside, used, (sameName_iff _ _ _ _).mpr ⟨0, by omega, by decide, empty, ?_, ?_⟩⟩
    · exact before.emptied dev used
    · omega

/-- The control blocks behind an open: one more is in use, with an entry no other has. -/
theorem opened_openDevice {s : FileSystem} (before : Opened s) {dev entry mbits : Nat}
    {name : CString} (device : dev < nlfl) (free : (s.lfltab dev).lfstate = .free)
    (present : s.lfDirpresent = true) (inside : entry < s.lfDir.lfdNfiles) (fits : NameFits name)
    (unused : ∀ other, (s.lfltab other).lfstate = .used → (s.lfltab other).lfdirptr ≠ entry) :
    Opened (openDevice s dev entry mbits name) := by
  have ends : copyToFirst name lfNameLen 0 (s.lfltab dev).lfname 0 = 0 := by
    obtain ⟨stop, below, null⟩ := fits
    exact copyToFirst_first name lfNameLen 0 _ ⟨stop, by omega, by omega, null⟩
  have self : (openDevice s dev entry mbits name).lfltab dev =
      { s.lfltab dev with
        lfstate := .used
        lfdirptr := entry
        lfmode := mbits &&& lfModeRW
        lfpos := 0
        lfname := copyToFirst name lfNameLen 0 (s.lfltab dev).lfname
        lfinum := none
        lfdnum := none
        lfbyte := lfBlksiz
        lfibdirty := false
        lfdbdirty := false } := Function.update_self dev _ _
  have others : ∀ other, other ≠ dev →
      (openDevice s dev entry mbits name).lfltab other = s.lfltab other := fun other ne =>
    Function.update_of_ne ne _ _
  constructor
  · intro other used
    by_cases same : other = dev
    · exact same ▸ device
    · exact before.device other (others other same ▸ used)
  · exact fun _ _ => present
  · intro other used
    by_cases same : other = dev
    · subst same
      rw [self]
      exact inside
    · rw [others other same] at used ⊢
      exact before.entry other used
  · intro other used
    by_cases same : other = dev
    · subst same
      simpa [self] using ends
    · rw [others other same] at used ⊢
      exact before.emptied other used
  · intro first second usedFirst usedSecond equal
    by_cases sameFirst : first = dev <;> by_cases sameSecond : second = dev
    · exact sameFirst.trans sameSecond.symm
    · subst sameFirst
      rw [others second sameSecond] at usedSecond equal
      rw [self] at equal
      exact absurd equal.symm (unused second usedSecond)
    · subst sameSecond
      rw [others first sameFirst] at usedFirst equal
      rw [self] at equal
      exact absurd equal (unused first usedFirst)
    · rw [others first sameFirst] at usedFirst equal
      rw [others second sameSecond] at usedSecond equal
      exact before.distinct first second usedFirst usedSecond equal

/-- The control blocks behind a close: one of them is free. -/
theorem lflclose_lfltab (s : FileSystem) (dev : Nat) :
    (lflclose s dev).1.lfDir = s.lfDir ∧ (lflclose s dev).1.lfDirpresent = s.lfDirpresent ∧
      ((lflclose s dev).1 = s ∨
        ((lflclose s dev).1.lfltab dev).lfstate = .free ∧
          ∀ other, other ≠ dev → (lflclose s dev).1.lfltab other = s.lfltab other) := by
  by_cases used : (s.lfltab dev).lfstate = .used
  case neg =>
    have refused : (lflclose s dev).1 = s := by simp [lflclose, used]
    exact ⟨by rw [refused], by rw [refused], .inl refused⟩
  obtain ⟨disk, flushed⟩ := lfflush_eq s dev used
  rw [lflclose, if_neg (not_not.mpr used)]
  dsimp only
  split_ifs
  · rw [flushed]
    refine ⟨rfl, rfl, .inr ⟨by simp [FileSystem.setDev], fun other ne => ?_⟩⟩
    simp [FileSystem.setDev, ne]
  · refine ⟨rfl, rfl, .inr ⟨by simp [FileSystem.setDev], fun other ne => ?_⟩⟩
    simp [FileSystem.setDev, ne]

theorem opened_lflclose {s : FileSystem} (before : Opened s) (dev : Nat) :
    Opened (lflclose s dev).1 := by
  obtain ⟨sameDir, samePresent, refused | ⟨freed, others⟩⟩ := lflclose_lfltab s dev
  · exact refused.symm ▸ before
  have used_before : ∀ other, ((lflclose s dev).1.lfltab other).lfstate = .used →
      (lflclose s dev).1.lfltab other = s.lfltab other := fun other used => by
    by_cases same : other = dev
    · rw [same, freed] at used
      cases used
    · exact others other same
  constructor
  · exact fun other used => before.device other (used_before other used ▸ used)
  · exact fun other used => samePresent.trans (before.present other (used_before other used ▸ used))
  · intro other used
    rw [sameDir]
    have same := used_before other used
    rw [same] at used ⊢
    exact before.entry other used
  · intro other used
    have same := used_before other used
    rw [same] at used ⊢
    exact before.emptied other used
  · intro first second usedFirst usedSecond equal
    have sameFirst := used_before first usedFirst
    have sameSecond := used_before second usedSecond
    rw [sameFirst] at usedFirst equal
    rw [sameSecond] at usedSecond equal
    exact before.distinct first second usedFirst usedSecond equal

theorem opened_loadDir {s : FileSystem} (before : Opened s) : Opened (loadDir s) := by
  by_cases present : s.lfDirpresent = true
  · exact (loadDir_of_present present).symm ▸ before
  have unused : ∀ dev, ((loadDir s).lfltab dev).lfstate ≠ .used := fun dev used => by
    rw [loadDir_lfltab] at used
    exact present (before.present dev used)
  exact ⟨fun dev used => absurd used (unused dev), fun dev used => absurd used (unused dev),
    fun dev used => absurd used (unused dev), fun dev used => absurd used (unused dev),
    fun dev _ used => absurd used (unused dev)⟩

theorem opened_newEntry {s : FileSystem} (before : Opened s) (name : CString) :
    Opened (newEntry s name) :=
  ⟨before.device, before.present, fun dev used => Nat.lt_succ_of_lt (before.entry dev used),
    before.emptied, before.distinct⟩

/-- An open that finds its file in use opens it again. -/
theorem opensAgain_of_openName {s : FileSystem} (before : Opened s) {name : CString}
    {mode : List Byte} {mbits dev : Nat} (admitted : Admitted s name mode mbits dev)
    (old : mbits &&& lfModeN = 0) (isOpen : OpenName s name) : OpensAgain s name mode := by
  refine ⟨isOpen, fun empty => ?_, admitted.fits, by rw [admitted.device]; rfl, mbits,
    admitted.bits, old⟩
  obtain ⟨other, inside, used, -⟩ := isOpen
  exact admitted.distinct ((alreadyOpen_iff before name).mpr ⟨empty, other, inside, used⟩)

theorem opened_lfsopen {s : FileSystem} (before : Opened s) (name : CString) (mode : List Byte)
    (single : ¬OpensAgain s name mode) : Opened (lfsopen s name mode).1 := by
  have loaded := opened_loadDir before
  rcases lfsopen_cases s name mode with refused | ⟨mbits, dev, entry, old⟩ | ⟨mbits, dev, new⟩
  · rcases refused.left with same | same
    · exact same.symm ▸ before
    · exact same.symm ▸ loaded
  · rw [old.result]
    obtain ⟨inside, free⟩ := freeDevice_spec old.device
    obtain ⟨below, matching⟩ := findEntry_spec old.found
    refine opened_openDevice loaded inside (by rw [loadDir_lfltab]; exact free)
      (loadDir_present s) below old.fits fun other used equal => ?_
    rw [loadDir_lfltab] at used equal
    have present := before.present other used
    rw [loadDir_of_present present] at matching
    exact single (opensAgain_of_openName before old.toAdmitted old.old
      ⟨other, before.device other used, used, equal ▸ matching⟩)
  · rw [new.result]
    obtain ⟨inside, free⟩ := freeDevice_spec new.device
    refine opened_openDevice (opened_newEntry loaded name) inside
      (by rw [← loadDir_lfltab] at free; exact free) (loadDir_present s) (Nat.lt_succ_self _)
      new.fits fun other used equal => ?_
    exact absurd equal (Nat.ne_of_lt (loaded.entry other used))

theorem opened_run {disk : Disk} {s : FileSystem} (run : Run NotAgain disk s) : Opened s := by
  induction run with
  | start => exact opened_start disk
  | @step s event run may ih =>
      cases event with
      | opened name mode => exact opened_lfsopen ih name mode may
      | closed dev => exact opened_lflclose ih dev

/-- The open of a file in use is refused and changes nothing, unless it opens the file again. -/
theorem leavesTables_iff {s : FileSystem} (before : Opened s) (name : CString) (mode : List Byte)
    (isOpen : OpenName s name) : LeavesTables s name mode ↔ ¬OpensAgain s name mode := by
  obtain ⟨holder, insideHolder, usedHolder, matching⟩ := isOpen
  have present := loadDir_of_present (before.present holder usedHolder)
  obtain ⟨entry, found⟩ := findEntry_isSome (before.entry holder usedHolder) matching
  rw [← present] at found
  rcases lfsopen_cases s name mode with refused | ⟨mbits, dev, other, old⟩ | ⟨mbits, dev, new⟩
  · have same : (lfsopen s name mode).1 = s := refused.left.elim id (·.trans present)
    refine ⟨fun _ again => ?_, fun _ => ⟨refused.error, by rw [same], by rw [same]⟩⟩
    obtain ⟨-, filled, fits, free, mbits, bits, old⟩ := again
    obtain ⟨dev, device⟩ := Option.isSome_iff_exists.mp free
    have accepted : (lfsopen s name mode).2 = (dev : Int) := by
      have distinct : ¬alreadyOpen s name := fun already =>
        filled ((alreadyOpen_iff before name).mp already).1
      simp [lfsopen, fits, bits, device, distinct, found, old]
    have error := refused.error
    rw [accepted] at error
    simp [sysErr] at error
  · have again := opensAgain_of_openName before old.toAdmitted old.old
      ⟨holder, insideHolder, usedHolder, matching⟩
    refine ⟨fun leaves _ => ?_, fun single => absurd again single⟩
    have error := leaves.1
    rw [old.result] at error
    simp [sysErr] at error
  · rw [new.missing] at found
    cases found

/-- No file is open twice in a run without such an open. -/
theorem no_file_open_twice (disk : Disk) (s : FileSystem) (run : Run NotAgain disk s) :
    Distinct s ∧ ∀ name mode, OpenName s name →
      (LeavesTables s name mode ↔ ¬OpensAgain s name mode) :=
  ⟨(opened_run run).distinct, fun name mode isOpen =>
    leavesTables_iff (opened_run run) name mode isOpen⟩


end Runs

section Examples

def blank : Disk := fun _ => .data fun _ => 0

def shortName (ch : Byte) : CString := fun i => if i = 0 then ch else 0

def readWrite : List Byte := [114, 119]

/-- Two files are open, and the second one is closed. -/
def twoOpened : FileSystem :=
  (lflclose (lfsopen (lfsopen (lfsinit blank) (shortName 97) readWrite).1 (shortName 98)
    readWrite).1 1).1

theorem no_file_open_twice_two : Distinct twoOpened ∧ ∀ name mode, OpenName twoOpened name →
    (LeavesTables twoOpened name mode ↔ ¬OpensAgain twoOpened name mode) := by
  have first : NotAgain (lfsinit blank) (.opened (shortName 97) readWrite) := by
    rintro ⟨⟨dev, -, used, -⟩, -⟩
    cases used
  have second : NotAgain (lfsopen (lfsinit blank) (shortName 97) readWrite).1
      (.opened (shortName 98) readWrite) := by
    rintro ⟨isOpen, -⟩
    revert isOpen
    unfold OpenName
    decide +kernel
  have third : NotAgain (lfsopen (lfsopen (lfsinit blank) (shortName 97) readWrite).1
      (shortName 98) readWrite).1 (.closed 1) := trivial
  exact no_file_open_twice blank twoOpened
    (Run.step (.step (.step .start first) second) third)

/-- A file is open and is opened again: two control blocks use its entry. -/
theorem file_opened_twice : ¬∀ disk s, Run (fun _ _ => True) disk s → Distinct s ∧
    ∀ name mode, OpenName s name → LeavesTables s name mode := by
  intro always
  have run : Run (fun _ _ => True) blank
      (call (call (lfsinit blank) (.opened (shortName 97) readWrite))
        (.opened (shortName 97) readWrite)) :=
    .step (.step .start trivial) trivial
  have apart := (always blank _ run).1 0 1 (by decide +kernel) (by decide +kernel)
    (by decide +kernel)
  exact absurd apart (by decide)

end Examples

end Xinu.Lfs.Open
