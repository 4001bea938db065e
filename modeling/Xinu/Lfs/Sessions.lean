import Xinu.Lfs.Truncate

/-!
# Files opened and closed

Opening and closing keep the layout of the files, whether or not the directory is in memory yet,
and a new file is an empty entry behind the others.
-/

namespace Xinu.Lfs.Sessions

open Xinu.Kernel.State (sysErr ok)
open Xinu.Lfs.Device Xinu.Lfs.Accounts Xinu.Lfs.Storage Xinu.Lfs.Setup Xinu.Lfs.Position
open Xinu.Lfs.Layout Xinu.Lfs.Located Xinu.Lfs.Bytes Xinu.Lib.SingleList
open Xinu.Lfs.Open (Distinct loadDir_of_present loadDir_lfltab loadDir_present)

set_option autoImplicit false

variable {area : Area} {v v' : Ledger} {im im' : Image} {s s' : FileSystem}
  {size : Nat → Nat} {dev f entry : Nat}

/-- What holds between two calls, with the directory of the disk when none is in memory yet. -/
structure Tidy (area : Area) (v : Ledger) (im : Image) (s : FileSystem) : Prop where
  files : Files area v im (loadDir s) (sizes (loadDir s))
  kept : Kept (loadDir s)
  present : ∀ dev, (s.lfltab dev).lfstate = .used → s.lfDirpresent = true

theorem loadDir_loadDir (s : FileSystem) : loadDir (loadDir s) = loadDir s :=
  loadDir_of_present (loadDir_present s)

theorem Tidy.loaded (tidy : Tidy area v im s) : Tidy area v im (loadDir s) where
  files := by rw [loadDir_loadDir]; exact tidy.files
  kept := by rw [loadDir_loadDir]; exact tidy.kept
  present := fun _ _ => loadDir_present s

theorem Tidy.at_used (tidy : Tidy area v im s) (used : (s.lfltab dev).lfstate = .used) :
    loadDir s = s ∧ Files area v im s (sizes s) ∧ Kept s := by
  have same := loadDir_of_present (tidy.present dev used)
  have files := tidy.files
  have kept := tidy.kept
  rw [same] at files kept
  exact ⟨same, files, kept⟩

theorem tidy_of_present (present : s.lfDirpresent = true)
    (files : Files area v im s (sizes s)) (kept : Kept s) : Tidy area v im s where
  files := by rw [loadDir_of_present present]; exact files
  kept := by rw [loadDir_of_present present]; exact kept
  present := fun _ _ => present

theorem tidy_of_completed {pos : Nat} (completed : Completed area v' im' s dev s' pos)
    (present : s.lfDirpresent = true) : Tidy area v' im' s' :=
  tidy_of_present (completed.moves.present.trans present) completed.files completed.kept

section Close

/-- The state in which a close frees the control block. -/
theorem cleaned_close (sound : Sound area v) (before : Stored area none v im s)
    (used : (s.lfltab dev).lfstate = .used) :
    Cleaned area v im s dev
        (if s.lfDirdirty = true ∨ Dirty (s.lfltab dev) then lfflush s dev else s) ∧
      (if s.lfDirdirty = true ∨ Dirty (s.lfltab dev) then lfflush s dev else s).disk 0 =
        (if s.lfDirdirty = true then .directory s.lfDir else s.disk 0) := by
  by_cases dirty : s.lfDirdirty = true ∨ Dirty (s.lfltab dev)
  · rw [if_pos dirty]
    have flushed := flushed_lfflush sound before used
    exact ⟨cleaned_of_flushed flushed, flushed.sector⟩
  · rw [if_neg dirty]
    obtain ⟨current, clean⟩ := not_or.mp dirty
    have cleaned := cleaned_setup sound before used
    rw [if_neg clean] at cleaned
    exact ⟨cleaned, by rw [if_neg current]⟩

/-- A close frees the control block, with everything of its file on the disk. -/
theorem lflclose_spec (before : Files area v im s (sizes s)) (kept : Kept s)
    (used : (s.lfltab dev).lfstate = .used) :
    (lflclose s dev).2 = ok ∧
      Files area v im (lflclose s dev).1 (sizes (lflclose s dev).1) ∧
      Kept (lflclose s dev).1 ∧ (lflclose s dev).1.lfDir = s.lfDir ∧
      (lflclose s dev).1.lfDirpresent = s.lfDirpresent ∧
      ((lflclose s dev).1.lfltab dev).lfstate = .free ∧
      (∀ other, other ≠ dev → (lflclose s dev).1.lfltab other = s.lfltab other) ∧
      (lflclose s dev).1.disk 0 =
        if s.lfDirdirty = true then .directory s.lfDir else s.disk 0 := by
  obtain ⟨cleaned, sector⟩ := @cleaned_close _ _ im _ _ before.sound before.stored used
  rw [lflclose, if_neg (by simp [used])]
  dsimp only
  generalize (if s.lfDirdirty = true ∨ Dirty (s.lfltab dev) then lfflush s dev else s) = start
    at cleaned sector
  have self : start.lfltab dev = { s.lfltab dev with lfdbdirty := false, lfibdirty := false } := by
    rw [cleaned.tab, Function.update_self]
  have others : ∀ other, other ≠ dev →
      (start.setDev dev { start.lfltab dev with lfstate := .free }).lfltab other =
        s.lfltab other := fun other ne => by
    have step : (start.setDev dev { start.lfltab dev with lfstate := .free }).lfltab other =
        start.lfltab other := Function.update_of_ne ne _ _
    rw [step, cleaned.tab, Function.update_of_ne ne]
  have freed : ((start.setDev dev { start.lfltab dev with lfstate := .free }).lfltab
      dev).lfstate = .free := by simp [FileSystem.setDev]
  have apart : ∀ other,
      ((start.setDev dev { start.lfltab dev with lfstate := .free }).lfltab other).lfstate = .used →
      other ≠ dev := fun other usedOther same => by
    rw [same, freed] at usedOther
    cases usedOther
  have stored' : Stored area none v im
      (start.setDev dev { start.lfltab dev with lfstate := .free }) := by
    refine stored_setDev before.sound cleaned.stored dev _ im ?_ ?_ ?_ cleaned.stored.slots
      (fun _ => .inl rfl) (fun _ => .inl rfl)
      (fun id dirty => absurd dirty (not_iDirty (by rw [self]) id))
      (fun d dirty => absurd dirty (not_dDirty (by rw [self]) d))
    · intro stillUsed
      cases stillUsed
    · intro id stillUsed
      cases stillUsed
    · intro d stillUsed
      cases stillUsed
  refine ⟨rfl, ⟨before.sound, stored', ?_, ?_, ?_, ?_, ?_, ?_⟩, Kept.of_eq (cleaned.kept kept) rfl
    rfl rfl, cleaned.dir, cleaned.present, freed, others, sector⟩
  · intro g inside
    have same : start.lfDir.lfdNfiles = s.lfDir.lfdNfiles := by rw [cleaned.dir]
    exact (before.file g (same ▸ inside)).of_entry (congrFun (congrArg Lfdir.lfdFiles cleaned.dir) g)
  · intro g inside
    have same : start.lfDir = s.lfDir := cleaned.dir
    have result := before.sized g (by rw [← same]; exact inside)
    rw [sizes, ← same] at result
    exact result
  · intro g outside
    refine before.unused g ?_
    rw [← cleaned.dir]
    exact outside
  · intro other usedOther
    have ne := apart other usedOther
    rw [others other ne] at usedOther ⊢
    have inside := before.entry other usedOther
    rw [← cleaned.dir] at inside
    exact inside
  · intro other usedOther
    have ne := apart other usedOther
    rw [others other ne] at usedOther ⊢
    have upto := before.pos other usedOther
    rw [sizes, ← cleaned.dir] at upto
    exact upto
  · intro other usedOther short
    have ne := apart other usedOther
    rw [others other ne] at usedOther short ⊢
    exact before.byte other usedOther short

end Close

section Open

/-- An entry with no blocks is put behind the others. -/
theorem files_newEntry (before : Files area v im s (sizes s)) (name : CString) :
    Files area v im (newEntry s name) (sizes (newEntry s name)) := by
  have entryNew : (newEntry s name).lfDir.lfdFiles s.lfDir.lfdNfiles =
      { ldSize := 0
        ldIlist := none
        ldName := copyName name lfNameLen 0 (s.lfDir.lfdFiles s.lfDir.lfdNfiles).ldName } :=
    Function.update_self _ _ _
  have entryOld : ∀ g, g ≠ s.lfDir.lfdNfiles →
      (newEntry s name).lfDir.lfdFiles g = s.lfDir.lfdFiles g := fun g ne =>
    Function.update_of_ne ne _ _
  have count : (newEntry s name).lfDir.lfdNfiles = s.lfDir.lfdNfiles + 1 := rfl
  have emptyChain : v.chain s.lfDir.lfdNfiles = [] := before.unused _ (Nat.le_refl _)
  have sizeOld : ∀ g, g < s.lfDir.lfdNfiles → sizes (newEntry s name) g = sizes s g :=
    fun g inside => congrArg Ldentry.ldSize (entryOld g (Nat.ne_of_lt inside))
  refine ⟨before.sound, stored_frame before.sound before.stored rfl rfl (fun _ _ => rfl) rfl,
    ?_, ?_, ?_, ?_, ?_, before.byte⟩
  · intro g inside
    rw [count] at inside
    rcases Nat.lt_succ_iff_lt_or_eq.mp inside with old | rfl
    · exact (before.file g old).of_entry (entryOld g (Nat.ne_of_lt old))
    · refine ⟨?_, by rw [emptyChain]; trivial, fun k id at_ => ?_⟩
      · rw [entryNew, emptyChain]
        rfl
      · rw [emptyChain] at at_
        simp at at_
  · intro g inside
    rw [count] at inside
    rcases Nat.lt_succ_iff_lt_or_eq.mp inside with old | rfl
    · rw [sizeOld g old]
      exact before.sized g old
    · have zero : sizes (newEntry s name) s.lfDir.lfdNfiles = 0 := congrArg Ldentry.ldSize entryNew
      rw [zero]
      refine ⟨fun k => by rw [emptyChain]; simp, fun k id j at_ _ => ?_⟩
      rw [emptyChain] at at_
      simp at at_
  · intro g outside
    rw [count] at outside
    exact before.unused g (by omega)
  · intro other used
    exact Nat.lt_succ_of_lt (before.entry other used)
  · intro other used
    have inside := before.entry other used
    have upto := before.pos other used
    rw [← sizeOld _ inside] at upto
    exact upto

theorem kept_newEntry (kept : Kept s) (name : CString) : Kept (newEntry s name) := by
  obtain ⟨dir, sector, fewer, -⟩ := kept
  exact ⟨dir, sector, Nat.le_succ_of_le fewer, fun _ => .inr (Nat.lt_succ_of_le fewer)⟩

/-- A free control block is taken for an entry that no other one has. -/
theorem files_openDevice (before : Files area v im s (sizes s))
    (free : (s.lfltab dev).lfstate = .free) (inside : entry < s.lfDir.lfdNfiles)
    (mbits : Nat) (name : CString)
    (distinct : Distinct (openDevice s dev entry mbits name)) :
    Files area v im (openDevice s dev entry mbits name)
      (sizes (openDevice s dev entry mbits name)) := by
  obtain ⟨p, isControl⟩ : ∃ p, p = { s.lfltab dev with
      lfstate := .used
      lfdirptr := entry
      lfmode := mbits &&& lfModeRW
      lfpos := 0
      lfname := copyToFirst name lfNameLen 0 (s.lfltab dev).lfname
      lfinum := none
      lfdnum := none
      lfbyte := lfBlksiz
      lfibdirty := false
      lfdbdirty := false } := ⟨_, rfl⟩
  have result : openDevice s dev entry mbits name = s.setDev dev p := by rw [isControl]; rfl
  have self : (openDevice s dev entry mbits name).lfltab dev = p := by
    rw [result]
    exact Function.update_self _ _ _
  have others : ∀ other, other ≠ dev →
      (openDevice s dev entry mbits name).lfltab other = s.lfltab other := fun other ne =>
    Function.update_of_ne ne _ _
  have stored' : Stored area none v im (openDevice s dev entry mbits name) := by
    rw [result]
    refine stored_setDev before.sound before.stored dev p im ?_ ?_ ?_ before.stored.slots
      (fun _ => .inl rfl) (fun _ => .inl rfl) ?_ ?_
    · intro usedP other ne usedOther equal
      refine ne (distinct other dev (by rw [others other ne]; exact usedOther)
        (by rw [self]; exact usedP) ?_)
      rw [others other ne, self, equal]
    · intro id _ has
      rw [isControl] at has
      cases has
    · intro d _ has
      rw [isControl] at has
      cases has
    · intro id dirty
      cases free.symm.trans dirty.1
    · intro d dirty
      cases free.symm.trans dirty.1
  refine ⟨before.sound, stored', fun g within_ => (before.file g within_).of_entry rfl,
    before.sized, before.unused, ?_, ?_, ?_⟩
  · intro other used
    by_cases same : other = dev
    · rw [same, self, isControl]
      exact inside
    · rw [others other same] at used ⊢
      exact before.entry other used
  · intro other used
    by_cases same : other = dev
    · rw [same, self, isControl]
      exact Nat.zero_le _
    · rw [others other same] at used ⊢
      exact before.pos other used
  · intro other used short
    by_cases same : other = dev
    · rw [same, self, isControl] at short
      exact absurd short (Nat.lt_irrefl _)
    · rw [others other same] at used short ⊢
      exact before.byte other used short

end Open

end Xinu.Lfs.Sessions
