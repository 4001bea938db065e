import Xinu.Lfs.Reference
import Mathlib.Data.List.Find

/-!
# The code keeps to the files

Call by call, the file system does to its blocks what the reference does to lists of bytes, and
gives the same results.
-/

namespace Xinu.Lfs.Simulation

open Xinu.Kernel.State (sysErr ok)
open Xinu.Lfs.Device Xinu.Lfs.Accounts Xinu.Lfs.Storage Xinu.Lfs.Setup Xinu.Lfs.Layout
open Xinu.Lfs.Located Xinu.Lfs.Bytes Xinu.Lfs.Sessions Xinu.Lfs.Reference Xinu.Lfs.Truncate
open Xinu.Lfs.Open (Distinct loadDir_of_present loadDir_lfltab loadDir_present lfsopen_cases
  freeDevice_spec findEntry_spec sameName_iff sameName_copyName)

set_option autoImplicit false

variable {area : Area} {s s' : FileSystem} {r : FileStore} {dev f pos : Nat}

/-- The state is in order and shows these files. The names in the control blocks are empty. -/
structure Sim (area : Area) (s : FileSystem) (r : FileStore) : Prop where
  shown : ∃ v im, Tidy area v im s ∧ Shows v im (loadDir s) r
  emptied : ∀ dev, (s.lfltab dev).lfstate = .used → (s.lfltab dev).lfname 0 = 0
  inside : ∀ dev, (s.lfltab dev).lfstate = .used → dev < nlfl

theorem sim_device (sim : Sim area s r) (dev : Nat) : r.device dev =
    if (s.lfltab dev).lfstate = .used then some ((s.lfltab dev).lfdirptr, (s.lfltab dev).lfpos)
    else none := by
  obtain ⟨v, im, -, shows⟩ := sim.shown
  have device := shows.device dev
  rwa [loadDir_lfltab] at device

theorem sim_used (sim : Sim area s r) (device : r.device dev = some (f, pos)) :
    (s.lfltab dev).lfstate = .used ∧ (s.lfltab dev).lfdirptr = f ∧ (s.lfltab dev).lfpos = pos := by
  rw [sim_device sim] at device
  split_ifs at device with used
  obtain ⟨rfl, rfl⟩ := Prod.mk.inj (Option.some.inj device)
  exact ⟨used, rfl, rfl⟩

theorem sim_unused (sim : Sim area s r) (device : r.device dev = none) :
    (s.lfltab dev).lfstate ≠ .used := fun used => by
  rw [sim_device sim, if_pos used] at device
  cases device

/-- Everything that is known about a pseudo-device in use. -/
theorem sim_file (sim : Sim area s r) (device : r.device dev = some (f, pos)) :
    ∃ v im, Files area v im s (sizes s) ∧ Kept s ∧ Shows v im s r ∧ s.lfDirpresent = true ∧
      f < r.count ∧ (r.bytes f).length = sizes s f ∧ pos ≤ (r.bytes f).length := by
  obtain ⟨used, rfl, rfl⟩ := sim_used sim device
  obtain ⟨v, im, tidy, shows⟩ := sim.shown
  obtain ⟨same, files, kept⟩ := tidy.at_used used
  rw [same] at shows
  have inside : (s.lfltab dev).lfdirptr < r.count := shows.count ▸ files.entry dev used
  have length : (r.bytes (s.lfltab dev).lfdirptr).length = sizes s (s.lfltab dev).lfdirptr := by
    rw [shows.bytes _ inside, contents_length]
  exact ⟨v, im, files, kept, shows, tidy.present dev used, inside, length,
    length ▸ files.pos dev used⟩

/-- A call that moves one pseudo-device and changes one file. -/
theorem sim_completed {v v' : Ledger} {im im' : Image} (sim : Sim area s r)
    (device : r.device dev = some (f, pos)) (shows : Shows v im s r)
    (present : s.lfDirpresent = true) {next : Nat} (completed : Completed area v' im' s dev s' next)
    (data : List Byte) (self : contents v' im' f (sizes s' f) = data)
    (others : ∀ g < r.count, g ≠ f → contents v' im' g (sizes s' g) = contents v im g (sizes s g)) :
    Sim area s' ((r.setBytes f data).moveTo dev f next) := by
  obtain ⟨used, rfl, rfl⟩ := sim_used sim device
  have moves := completed.moves
  have present' := moves.present.trans present
  refine ⟨⟨v', im', tidy_of_completed completed present, ?_⟩, fun other usedOther => ?_,
    fun other usedOther => ?_⟩
  · rw [loadDir_of_present present']
    refine ⟨shows.count.trans moves.count.symm, fun g inside name => ?_, fun g inside => ?_,
      fun other => ?_⟩
    · rw [moves.names g]
      exact shows.names g inside name
    · by_cases same : g = (s.lfltab dev).lfdirptr
      · subst same
        exact (Function.update_self _ _ _).trans self.symm
      · exact (Function.update_of_ne same _ _).trans
          ((shows.bytes g inside).trans (others g inside same).symm)
    · by_cases same : other = dev
      · subst same
        rw [moves.state, if_pos used, moves.dirptr, moves.pos]
        exact Function.update_self _ _ _
      · rw [moves.tab other same]
        exact (Function.update_of_ne same _ _).trans (shows.device other)
  · by_cases same : other = dev
    · rw [same, moves.name]
      exact sim.emptied dev used
    · rw [moves.tab other same] at usedOther ⊢
      exact sim.emptied other usedOther
  · by_cases same : other = dev
    · rw [same]
      exact sim.inside dev used
    · rw [moves.tab other same] at usedOther
      exact sim.inside other usedOther

section Bytes

/-- `lflputc` is a write of one byte. -/
theorem sim_putc (sim : Sim area s r) {ch : Byte} {result : Int}
    (done : lflputc s dev ch = some (s', result)) :
    (∃ r', r.write dev [ch] = some r' ∧ result = ok ∧ Sim area s' r') ∨
      r.device dev = none ∧ result = sysErr ∧ s' = s := by
  cases device : r.device dev with
  | none =>
      rw [lflputc, if_pos (sim_unused sim device)] at done
      obtain ⟨rfl, rfl⟩ := Prod.mk.inj (Option.some.inj done)
      exact .inr ⟨rfl, rfl, rfl⟩
  | some place =>
      obtain ⟨f, pos⟩ := place
      obtain ⟨v, im, files, kept, shows, present, inside, length, upto⟩ := sim_file sim device
      obtain ⟨used, isFile, isPos⟩ := sim_used sim device
      obtain ⟨rfl, v', im', completed, size, bytes⟩ := lflputc_spec files kept used done
      rw [isFile, isPos] at size bytes
      rw [isPos] at completed
      have grown : sizes s' f = max (sizes s f) (pos + 1) := by
        rw [size, raise, Function.update_self]
      refine .inl ⟨_, by rw [FileStore.write, device]; rfl, rfl, ?_⟩
      refine sim_completed sim device shows present completed _ ?_ fun g insideOther apart => ?_
      · rw [shows.bytes f inside]
        refine contents_write (length ▸ upto) grown fun other short => ?_
        rw [bytes f (shows.count ▸ inside) other short]
        simp
      · have sameSize : sizes s' g = sizes s g := by
          rw [size, raise, Function.update_of_ne apart]
        rw [sameSize]
        refine List.map_congr_left fun other member => ?_
        have short := List.mem_range.mp member
        rw [bytes g (shows.count ▸ insideOther) other (sameSize ▸ short)]
        simp [apart]

/-- The device that a write has moved. -/
theorem write_device {data : List Byte} {r' : FileStore} (wrote : r.write dev data = some r')
    (device : r.device dev = some (f, pos)) :
    r' = (r.setBytes f (overwrite (r.bytes f) pos data)).moveTo dev f (pos + data.length) := by
  rw [FileStore.write, device] at wrote
  exact (Option.some.inj wrote).symm

theorem writeLoop_sim (sim : Sim area s r) {buff : Nat → Byte} {count : Nat} {accepted : Bool}
    (done : writeLoop dev buff count s = some (s', accepted)) :
    (∃ r', r.write dev ((List.range count).map buff) = some r' ∧ accepted = true ∧
        Sim area s' r') ∨
      r.device dev = none ∧ accepted = decide (count = 0) ∧ s' = s := by
  induction count generalizing s' accepted with
  | zero =>
      rw [writeLoop] at done
      obtain ⟨rfl, rfl⟩ := Prod.mk.inj (Option.some.inj done)
      cases device : r.device dev with
      | none => exact .inr ⟨rfl, rfl, rfl⟩
      | some place =>
          obtain ⟨f, pos⟩ := place
          refine .inl ⟨r, ?_, rfl, sim⟩
          rw [FileStore.write, device]
          have same : Function.update r.device dev (some (f, pos)) = r.device := by
            rw [← device, Function.update_eq_self]
          simp [overwrite, FileStore.setBytes, FileStore.moveTo, same]
  | succ count ih =>
      rw [writeLoop] at done
      obtain ⟨⟨middle, first⟩, before, rest⟩ := Option.bind_eq_some_iff.mp done
      dsimp only at rest
      rcases ih before with ⟨r₁, wrote, rfl, sim₁⟩ | ⟨device, isFirst, rfl⟩
      · rw [if_neg (by simp)] at rest
        obtain ⟨⟨last, result⟩, put, ends⟩ := Option.bind_eq_some_iff.mp rest
        obtain ⟨rfl, rfl⟩ := Prod.mk.inj (Option.some.inj ends)
        obtain ⟨⟨f, pos⟩, device, -⟩ := Option.map_eq_some_iff.mp wrote
        have isWritten := write_device wrote device
        have device₁ : r₁.device dev = some (f, pos + ((List.range count).map buff).length) := by
          rw [isWritten]
          exact Function.update_self _ _ _
        rcases sim_putc sim₁ put with ⟨r₂, wroteLast, rfl, sim₂⟩ | ⟨none_device, -⟩
        · refine .inl ⟨r₂, ?_, rfl, sim₂⟩
          obtain ⟨-, -, -, -, -, -, -, -, upto⟩ := sim_file sim device
          rw [write_device wroteLast device₁, FileStore.write, device, isWritten]
          simp only [Option.map_some, FileStore.setBytes, FileStore.moveTo, Function.update_self,
            Function.update_idem, overwrite_snoc upto, List.range_succ, List.map_append,
            List.map_cons, List.map_nil, List.length_append, List.length_singleton, Nat.add_assoc]
        · cases none_device.symm.trans device₁
      · refine .inr ⟨device, ?_⟩
        rw [isFirst] at rest
        by_cases empty : count = 0
        · rw [if_neg (by simp [empty])] at rest
          obtain ⟨⟨last, result⟩, put, ends⟩ := Option.bind_eq_some_iff.mp rest
          obtain ⟨rfl, rfl⟩ := Prod.mk.inj (Option.some.inj ends)
          rcases sim_putc sim put with ⟨r₂, wrote, -⟩ | ⟨-, rfl, rfl⟩
          · rw [FileStore.write, device] at wrote
            cases wrote
          · exact ⟨rfl, rfl⟩
        · rw [if_pos (by simp [empty])] at rest
          obtain ⟨rfl, rfl⟩ := Prod.mk.inj (Option.some.inj rest)
          exact ⟨rfl, rfl⟩

/-- `lflgetc` reads the byte at the position, if there is one. -/
theorem sim_getc (sim : Sim area s r) (device : r.device dev = some (f, pos)) {result : Int}
    (done : lflgetc s dev = some (s', result)) :
    (∃ byte, (r.bytes f)[pos]? = some byte ∧ result = byte.toNat ∧
        Sim area s' (r.moveTo dev f (pos + 1))) ∨
      (r.bytes f).length ≤ pos ∧ result = eof ∧ s' = s := by
  obtain ⟨v, im, files, kept, shows, present, inside, length, upto⟩ := sim_file sim device
  obtain ⟨used, isFile, isPos⟩ := sim_used sim device
  rcases Nat.lt_or_ge pos (sizes s f) with short | ended
  · obtain ⟨isByte, v', im', completed, size, bytes⟩ := lflgetc_spec files kept used
      (by rw [isFile, isPos]; exact short) done
    rw [isFile, isPos] at isByte
    rw [isPos] at completed
    refine .inl ⟨byteAt v im f pos, ?_, isByte, ?_⟩
    · rw [shows.bytes f inside, contents_getElem? short]
    · have same : ∀ g, contents v' im' g (sizes s' g) = contents v im g (sizes s g) := fun g => by
        rw [size]
        exact List.map_congr_left fun other _ => bytes g other
      have moved := sim_completed sim device shows present completed (r.bytes f)
        ((same f).trans (shows.bytes f inside).symm) fun g _ _ => same g
      rwa [FileStore.setBytes, Function.update_eq_self] at moved
  · rw [lflgetc_eof used (by rw [isFile, isPos]; exact ended)] at done
    obtain ⟨rfl, rfl⟩ := Prod.mk.inj (Option.some.inj done)
    exact .inr ⟨by rw [length]; exact ended, rfl, rfl⟩

theorem readLoop_sim (sim : Sim area s r) (device : r.device dev = some (f, pos)) {left : Nat}
    {buff out : List Byte} {result : Int}
    (done : readLoop dev left buff s = some (s', out, result)) :
    ∃ r' data, r.read dev left = some (r', data) ∧ out = buff ++ data ∧
      result = (if data.length < left ∧ out = [] then eof else out.length) ∧ Sim area s' r' := by
  have stay : r.moveTo dev f pos = r := by
    rw [FileStore.moveTo, ← device, Function.update_eq_self]
  induction left generalizing s r pos buff with
  | zero =>
      rw [readLoop] at done
      obtain ⟨rfl, equal⟩ := Prod.mk.inj (Option.some.inj done)
      obtain ⟨rfl, rfl⟩ := Prod.mk.inj equal
      refine ⟨r, [], ?_, by simp, by simp, sim⟩
      rw [FileStore.read, device]
      simp [stay]
  | succ left ih =>
      rw [readLoop] at done
      obtain ⟨⟨middle, nxtbyte⟩, got, rest⟩ := Option.bind_eq_some_iff.mp done
      dsimp only at rest
      rcases sim_getc sim device got with ⟨byte, at_, rfl, moved⟩ | ⟨ended, rfl, rfl⟩
      · have notErr : ((byte.toNat : Nat) : Int) ≠ sysErr := by simp [sysErr]
        have notEof : ((byte.toNat : Nat) : Int) ≠ eof := by
          simp only [eof]
          omega
        rw [if_neg notErr, if_neg notEof] at rest
        have same : UInt8.ofNat ((byte.toNat : Int)).toNat = byte := by simp
        rw [same] at rest
        have device₁ : (r.moveTo dev f (pos + 1)).device dev = some (f, pos + 1) :=
          Function.update_self _ _ _
        obtain ⟨r', data, was, isOut, isResult, sim'⟩ := ih moved device₁ rest (by
          simp [FileStore.moveTo])
        rw [FileStore.read, device₁] at was
        obtain ⟨rfl, rfl⟩ := Prod.mk.inj (Option.some.inj was)
        have split : ((r.bytes f).drop pos).take (left + 1) =
            byte :: ((r.bytes f).drop (pos + 1)).take left := by
          obtain ⟨inside, isByte⟩ := List.getElem?_eq_some_iff.mp at_
          rw [List.drop_eq_getElem_cons inside, isByte, List.take_succ_cons]
        refine ⟨_, byte :: ((r.bytes f).drop (pos + 1)).take left, ?_, ?_, ?_, sim'⟩
        · rw [FileStore.read, device]
          simp only [Option.map_some, split]
          simp [FileStore.moveTo, Nat.add_assoc, Nat.add_comm 1]
        · rw [isOut]
          simp [FileStore.moveTo]
        · rw [isResult, isOut]
          simp
      · rw [if_neg (by simp [eof, sysErr]), if_pos rfl] at rest
        obtain ⟨rfl, equal⟩ := Prod.mk.inj (Option.some.inj rest)
        obtain ⟨rfl, rfl⟩ := Prod.mk.inj equal
        have none_left : (r.bytes f).drop pos = [] := List.drop_eq_nil_of_le ended
        refine ⟨r, [], ?_, by simp, by simp, sim⟩
        rw [FileStore.read, device]
        simp only [Option.map_some, none_left, List.take_nil, List.length_nil, Nat.add_zero, stay]

end Bytes

section Positions

theorem sim_seek (sim : Sim area s r) (offset : Nat) :
    (lflseek s dev offset).2 = (r.seek dev offset).2 ∧
      Sim area (lflseek s dev offset).1 (r.seek dev offset).1 := by
  cases device : r.device dev with
  | none =>
      rw [lflseek, if_pos (sim_unused sim device), FileStore.seek, device]
      exact ⟨rfl, sim⟩
  | some place =>
      obtain ⟨f, pos⟩ := place
      obtain ⟨v, im, files, kept, shows, present, inside, length, upto⟩ := sim_file sim device
      obtain ⟨used, isFile, isPos⟩ := sim_used sim device
      rw [FileStore.seek, device]
      dsimp only
      by_cases fits : offset ≤ (r.bytes f).length
      · rw [if_pos fits]
        obtain ⟨done, completed, size⟩ := @lflseek_spec _ _ _ _ _ files kept used
          offset (by rw [isFile, ← length]; exact fits)
        refine ⟨done, ?_⟩
        have moved := sim_completed sim device shows present completed (r.bytes f)
          (by rw [size, shows.bytes f inside]) fun g _ _ => by rw [size]
        rwa [FileStore.setBytes, Function.update_eq_self] at moved
      · rw [if_neg fits]
        have beyond : (s.lfDir.lfdFiles (s.lfltab dev).lfdirptr).ldSize < offset := by
          rw [isFile]
          rw [length] at fits
          exact Nat.not_le.mp fits
        rw [lflseek, if_neg (by simp [used]), if_pos beyond]
        exact ⟨rfl, sim⟩

theorem sim_truncate (sim : Sim area s r) {result : Int}
    (done : lflcontrolTrunc s dev = some (s', result)) :
    result = (r.truncate dev).2 ∧ Sim area s' (r.truncate dev).1 := by
  cases device : r.device dev with
  | none =>
      rw [lflcontrolTrunc, if_pos (sim_unused sim device)] at done
      obtain ⟨rfl, rfl⟩ := Prod.mk.inj (Option.some.inj done)
      rw [FileStore.truncate, device]
      exact ⟨rfl, sim⟩
  | some place =>
      obtain ⟨f, pos⟩ := place
      obtain ⟨v, im, files, kept, shows, present, inside, length, upto⟩ := sim_file sim device
      obtain ⟨used, isFile, isPos⟩ := sim_used sim device
      obtain ⟨after, v', im', ran, completed, size, bytes⟩ := lflcontrolTrunc_spec files kept used
      obtain ⟨rfl, rfl⟩ := Prod.mk.inj (Option.some.inj (ran.symm.trans done))
      rw [isFile] at size bytes
      rw [FileStore.truncate, device]
      refine ⟨rfl, sim_completed sim device shows present completed [] ?_ fun g _ apart => ?_⟩
      · rw [size, Function.update_self]
        rfl
      · rw [size, Function.update_of_ne apart]
        exact List.map_congr_left fun other _ => bytes g apart other

theorem sim_close (sim : Sim area s r) :
    (lflclose s dev).2 = (r.close dev).2 ∧ Sim area (lflclose s dev).1 (r.close dev).1 := by
  cases device : r.device dev with
  | none =>
      rw [lflclose, if_pos (sim_unused sim device), FileStore.close, device]
      exact ⟨rfl, sim⟩
  | some place =>
      obtain ⟨f, pos⟩ := place
      obtain ⟨v, im, files, kept, shows, present, inside, length, upto⟩ := sim_file sim device
      obtain ⟨used, isFile, isPos⟩ := sim_used sim device
      obtain ⟨done, files', kept', dir, samePresent, freed, others, -⟩ :=
        lflclose_spec files kept used
      rw [FileStore.close, device]
      have present' := samePresent.trans present
      have apart : ∀ other, ((lflclose s dev).1.lfltab other).lfstate = .used → other ≠ dev :=
        fun other usedOther same => by
          rw [same, freed] at usedOther
          cases usedOther
      refine ⟨done, ⟨v, im, tidy_of_present present' files' kept', ?_⟩, fun other usedOther => ?_,
        fun other usedOther => ?_⟩
      · rw [loadDir_of_present present']
        refine ⟨by rw [dir]; exact shows.count, fun g small name => ?_, fun g small => ?_,
          fun other => ?_⟩
        · rw [dir]
          exact shows.names g small name
        · rw [sizes, dir]
          exact shows.bytes g small
        · by_cases same : other = dev
          · rw [same, freed, if_neg (by simp)]
            exact Function.update_self _ _ _
          · rw [others other same]
            exact (Function.update_of_ne same _ _).trans (shows.device other)
      · have ne := apart other usedOther
        rw [others other ne] at usedOther ⊢
        exact sim.emptied other usedOther
      · have ne := apart other usedOther
        rw [others other ne] at usedOther
        exact sim.inside other usedOther

end Positions

section Opening

/-- An open of the empty name with a valid mode, while one pseudo-device is in use and another
one is free. -/
def OpensEmptyName (s : FileSystem) (name : CString) (mode : List Byte) : Prop :=
  name 0 = 0 ∧ (∃ dev < nlfl, (s.lfltab dev).lfstate = .used) ∧
    (lfgetmode mode 0).isSome = true ∧ (Device.freeDevice s).isSome = true

theorem freeDevice_eq (sim : Sim area s r) : Device.freeDevice s = r.freeDevice := by
  refine List.find?_congr fun dev _ => ?_
  rw [sim_device sim]
  cases state : (s.lfltab dev).lfstate <;> simp

theorem findEntry_eq {v : Ledger} {im : Image} (shows : Shows v im s r) (name : CString) :
    findEntry s name = r.lookup name := by
  unfold findEntry FileStore.lookup
  rw [← shows.count]
  exact List.find?_congr fun f member => shows.names f (List.mem_range.mp member) name

theorem sim_loadDir (sim : Sim area s r) : Sim area (loadDir s) r := by
  obtain ⟨v, im, tidy, shows⟩ := sim.shown
  refine ⟨⟨v, im, tidy.loaded, by rw [loadDir_loadDir]; exact shows⟩, ?_, ?_⟩
  · rw [loadDir_lfltab]
    exact sim.emptied
  · rw [loadDir_lfltab]
    exact sim.inside

/-- A pseudo-device is opened for a file. -/
theorem sim_openDevice {v : Ledger} {im : Image} (files : Files area v im s (sizes s))
    (kept : Kept s) (shows : Shows v im s r) (present : s.lfDirpresent = true)
    (emptied : ∀ dev, (s.lfltab dev).lfstate = .used → (s.lfltab dev).lfname 0 = 0)
    (small : ∀ dev, (s.lfltab dev).lfstate = .used → dev < nlfl) (isDevice : dev < nlfl)
    (free : (s.lfltab dev).lfstate = .free) (inside : f < s.lfDir.lfdNfiles) {mbits : Nat}
    {name : CString} (fits : NameFits name)
    (distinct : Distinct (openDevice s dev f mbits name)) :
    Sim area (openDevice s dev f mbits name) (r.moveTo dev f 0) := by
  have files' := files_openDevice files free inside mbits name distinct
  have kept' : Kept (openDevice s dev f mbits name) := Kept.of_eq kept rfl rfl rfl
  refine ⟨⟨v, im, tidy_of_present present files' kept', ?_⟩, fun other used => ?_,
    fun other used => ?_⟩
  · have same : loadDir (openDevice s dev f mbits name) = openDevice s dev f mbits name :=
      loadDir_of_present present
    rw [same]
    refine ⟨shows.count, shows.names, shows.bytes, fun other => ?_⟩
    by_cases isDev : other = dev
    · subst isDev
      simp [FileStore.moveTo, openDevice, FileSystem.setDev]
    · simpa [FileStore.moveTo, openDevice, FileSystem.setDev, isDev] using shows.device other
  · by_cases isDev : other = dev
    · subst isDev
      obtain ⟨stop, below, null⟩ := fits
      simpa [openDevice, FileSystem.setDev] using
        Open.copyToFirst_first name lfNameLen 0 (s.lfltab other).lfname
          ⟨stop, by omega, by omega, null⟩
    · simp only [openDevice, FileSystem.setDev, Function.update_of_ne isDev] at used ⊢
      exact emptied other used
  · by_cases isDev : other = dev
    · exact isDev ▸ isDevice
    · simp only [openDevice, FileSystem.setDev, Function.update_of_ne isDev] at used
      exact small other used

/-- A new entry is a file without bytes. -/
theorem shows_newEntry {v : Ledger} {im : Image} (shows : Shows v im s r) {name : CString}
    (fits : NameFits name) : Shows v im (newEntry s name) { r with
      count := r.count + 1
      name := Function.update r.name r.count name
      bytes := Function.update r.bytes r.count [] } := by
  have count := shows.count
  refine ⟨congrArg Nat.succ count, fun f inside nam => ?_, fun f inside => ?_, shows.device⟩
  · rcases Nat.lt_succ_iff_lt_or_eq.mp inside with old | rfl
    · have entry : (newEntry s name).lfDir.lfdFiles f = s.lfDir.lfdFiles f :=
        Function.update_of_ne (by omega) _ _
      have same : Function.update r.name r.count name f = r.name f :=
        Function.update_of_ne (Nat.ne_of_lt old) _ _
      rw [entry]
      exact (shows.names f old nam).trans
        (congrArg (fun other => sameName nam other lfNameLen 0) same.symm)
    · have entry : ((newEntry s name).lfDir.lfdFiles r.count).ldName =
          copyName name lfNameLen 0 (s.lfDir.lfdFiles r.count).ldName := by
        rw [count, newEntry]
        simp [FileSystem.setEntry, FileSystem.setDir]
      have same : Function.update r.name r.count name r.count = name := Function.update_self _ _ _
      rw [entry]
      exact (sameName_copyName nam name _ fits).trans
        (congrArg (fun other => sameName nam other lfNameLen 0) same.symm)
  · rcases Nat.lt_succ_iff_lt_or_eq.mp inside with old | rfl
    · have size : sizes (newEntry s name) f = sizes s f :=
        congrArg Ldentry.ldSize (Function.update_of_ne (by omega) _ _)
      rw [size]
      exact (Function.update_of_ne (Nat.ne_of_lt old) _ _).trans (shows.bytes f old)
    · have size : sizes (newEntry s name) r.count = 0 := by
        rw [count, sizes, newEntry]
        simp [FileSystem.setEntry, FileSystem.setDir]
      rw [size]
      exact Function.update_self _ _ _

/-- An open finds, makes or refuses a file as the reference does. -/
theorem sim_fopen (sim : Sim area s r) (name : CString) (mode : List Byte)
    (filled : ¬OpensEmptyName s name mode) (distinct : Distinct (lfsopen s name mode).1) :
    (lfsopen s name mode).2 = (r.fopen name mode).2 ∧
      Sim area (lfsopen s name mode).1 (r.fopen name mode).1 := by
  have loaded := sim_loadDir sim
  obtain ⟨v, im, tidy, shows⟩ := sim.shown
  have lookup := findEntry_eq shows name
  have devices := freeDevice_eq sim
  unfold lfsopen at distinct ⊢
  unfold FileStore.fopen
  by_cases fits : NameFits name
  case neg => simpa [fits] using sim
  simp only [fits, not_true_eq_false, if_false] at distinct ⊢
  rw [← devices]
  cases bits : lfgetmode mode 0 with
  | none => exact ⟨rfl, sim⟩
  | some mbits =>
      cases free : Device.freeDevice s with
      | none => exact ⟨rfl, sim⟩
      | some dev =>
          have closed : ¬alreadyOpen s name := fun already => by
            obtain ⟨other, inside, used, same⟩ := already
            refine filled ⟨?_, ⟨other, inside, used⟩, by rw [bits]; rfl, by rw [free]; rfl⟩
            obtain ⟨stop, -, -, ends, -, agree⟩ := (sameName_iff _ _ _ _).mp same
            rcases Nat.eq_zero_or_pos stop with rfl | positive
            · exact ends
            · exact (agree 0 positive (Nat.le_refl 0)).1.trans (sim.emptied other used)
          simp only [bits, free, closed, if_false, ← lookup] at distinct ⊢
          obtain ⟨isDevice, isFree⟩ := freeDevice_spec free
          rw [← loadDir_lfltab] at isFree
          have emptied : ∀ dev, ((loadDir s).lfltab dev).lfstate = .used →
              ((loadDir s).lfltab dev).lfname 0 = 0 := loaded.emptied
          cases found : findEntry (loadDir s) name with
          | some entry =>
              simp only [found] at distinct ⊢
              by_cases new : mbits &&& lfModeN = 0
              · simp only [new, ne_eq, not_true_eq_false, if_false] at distinct ⊢
                exact ⟨trivial, sim_openDevice tidy.files tidy.kept shows (loadDir_present s) emptied
                  loaded.inside isDevice isFree (findEntry_spec found).1 fits distinct⟩
              · simp only [new, ne_eq, not_false_eq_true, if_true]
                exact ⟨trivial, loaded⟩
          | none =>
              simp only [found, ← shows.count] at distinct ⊢
              by_cases old : mbits &&& lfModeO = 0
              case neg =>
                simp only [old, ne_eq, not_false_eq_true, if_true]
                exact ⟨trivial, loaded⟩
              by_cases full : lfNumDirEnt ≤ r.count
              · simp only [old, ne_eq, not_true_eq_false, if_false, full, if_true]
                exact ⟨trivial, loaded⟩
              · simp only [old, ne_eq, not_true_eq_false, if_false, full] at distinct ⊢
                refine ⟨trivial, ?_⟩
                rw [shows.count] at distinct ⊢
                have opened := sim_openDevice (files_newEntry tidy.files name)
                  (kept_newEntry tidy.kept name) (shows_newEntry shows fits) (loadDir_present s)
                  emptied loaded.inside isDevice isFree (Nat.lt_succ_self _) fits distinct
                simpa [FileStore.moveTo, shows.count] using opened

end Opening

end Xinu.Lfs.Simulation
