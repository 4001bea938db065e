import Xinu.Lfs.Simulation

/-!
# Runs of the file system

The calls of any number of programs, one after the other, on a new disk. Every call keeps to the
files, so their blocks are accounted for whenever all files are closed.
-/

namespace Xinu.Lfs.Runs

open Xinu.Kernel.State (sysErr ok)
open Xinu.Lfs.Device Xinu.Lfs.Accounts Xinu.Lfs.Storage Xinu.Lfs.Setup Xinu.Lfs.Layout
open Xinu.Lfs.Sessions Xinu.Lfs.Create Xinu.Lfs.Reference Xinu.Lfs.Simulation Xinu.Lib.SingleList
open Xinu.Lfs.Open (Distinct loadDir_of_present loadDir_lfltab lfsopen_cases)

set_option autoImplicit false

variable {area : Area} {s s' : FileSystem} {r r' : FileStore} {dev : Nat} {event : Call}
  {reply : Reply}

section Calls

/-- An open of the empty name that the reference may grant. -/
def OpensEmpty (s : FileSystem) : Call → Prop
  | .fopen name mode => OpensEmptyName s name mode
  | _ => False

/-- What a call leaves: the files and the reply of the reference, except for an open of the empty
name, which changes nothing. -/
structure Simulated (area : Area) (s s' : FileSystem) (r : FileStore) (event : Call)
    (reply : Reply) : Prop where
  shown : ∃ r', Sim area s' r'
  agrees : ¬OpensEmpty s event → reply = (r.call event).2 ∧ Sim area s' (r.call event).1

theorem Simulated.of_sim (same : reply = (r.call event).2) (sim : Sim area s' (r.call event).1) :
    Simulated area s s' r event reply :=
  ⟨⟨_, sim⟩, fun _ => ⟨same, sim⟩⟩

/-- The state of which a pseudo-device that stays in use is a part. -/
def StaysUsed (s s' : FileSystem) : Prop :=
  s' = s ∨ ∃ dev, (s'.lfltab dev).lfstate = .used

theorem used_of_device {place : Nat × Nat} (sim : Sim area s r)
    (device : r.device dev = some place) : (s.lfltab dev).lfstate = .used :=
  (sim_used (f := place.1) sim device).1

theorem write_used {data : List Byte} (wrote : r.write dev data = some r') :
    ∃ place, r'.device dev = some place := by
  obtain ⟨⟨f, pos⟩, -, rfl⟩ := Option.map_eq_some_iff.mp wrote
  exact ⟨_, Function.update_self _ _ _⟩

theorem read_used {count : Nat} {data : List Byte} (got : r.read dev count = some (r', data)) :
    ∃ place, r'.device dev = some place := by
  obtain ⟨⟨f, pos⟩, -, moved⟩ := Option.map_eq_some_iff.mp got
  obtain ⟨rfl, -⟩ := Prod.mk.inj moved
  exact ⟨_, Function.update_self _ _ _⟩

theorem call_putc (sim : Sim area s r) {ch : Byte}
    (done : call s (.putc dev ch) = some (s', reply)) :
    Simulated area s s' r (.putc dev ch) reply ∧ StaysUsed s s' := by
  obtain ⟨⟨after, result⟩, put, same⟩ := Option.map_eq_some_iff.mp done
  obtain ⟨rfl, rfl⟩ := Prod.mk.inj same
  rcases sim_putc sim put with ⟨r', wrote, rfl, sim'⟩ | ⟨device, rfl, rfl⟩
  · obtain ⟨place, device⟩ := write_used wrote
    exact ⟨.of_sim (by simp [FileStore.call, wrote]) (by simpa [FileStore.call, wrote] using sim'),
      .inr ⟨dev, used_of_device sim' device⟩⟩
  · have unwritten : r.write dev [ch] = none := by rw [FileStore.write, device]; rfl
    exact ⟨.of_sim (by simp [FileStore.call, unwritten])
      (by simpa [FileStore.call, unwritten] using sim), .inl rfl⟩

theorem call_write (sim : Sim area s r) {buff : Nat → Byte} {count : Int}
    (done : call s (.write dev buff count) = some (s', reply)) :
    Simulated area s s' r (.write dev buff count) reply ∧ StaysUsed s s' := by
  obtain ⟨⟨after, result⟩, wrote, same⟩ := Option.map_eq_some_iff.mp done
  obtain ⟨rfl, rfl⟩ := Prod.mk.inj same
  rw [lflwrite] at wrote
  by_cases negative : count < 0
  · rw [if_pos negative] at wrote
    obtain ⟨rfl, rfl⟩ := Prod.mk.inj (Option.some.inj wrote)
    exact ⟨.of_sim (by simp [FileStore.call, negative])
      (by simpa [FileStore.call, negative] using sim), .inl rfl⟩
  · rw [if_neg negative] at wrote
    obtain ⟨⟨middle, accepted⟩, loop, ends⟩ := Option.bind_eq_some_iff.mp wrote
    obtain ⟨rfl, rfl⟩ := Prod.mk.inj (Option.some.inj ends)
    rcases writeLoop_sim sim loop with ⟨r', written, rfl, sim'⟩ | ⟨device, rfl, rfl⟩
    · obtain ⟨place, device⟩ := write_used written
      exact ⟨.of_sim (by simp [FileStore.call, negative, written])
        (by simpa [FileStore.call, negative, written] using sim'),
        .inr ⟨dev, used_of_device sim' device⟩⟩
    · have unwritten : r.write dev ((List.range count.toNat).map buff) = none := by
        rw [FileStore.write, device]
        rfl
      have zero : count.toNat = 0 ↔ count = 0 := by omega
      refine ⟨.of_sim ?_ (by simpa [FileStore.call, negative, unwritten] using sim), .inl rfl⟩
      simp only [FileStore.call, negative, if_false, unwritten, decide_eq_true_eq, zero]
      split_ifs with empty
      · rw [empty]
      · rfl

theorem call_getc (sim : Sim area s r) (done : call s (.getc dev) = some (s', reply)) :
    Simulated area s s' r (.getc dev) reply ∧ StaysUsed s s' := by
  obtain ⟨⟨after, result⟩, got, same⟩ := Option.map_eq_some_iff.mp done
  obtain ⟨rfl, rfl⟩ := Prod.mk.inj same
  cases device : r.device dev with
  | none =>
      rw [lflgetc, if_pos (sim_unused sim device)] at got
      obtain ⟨rfl, rfl⟩ := Prod.mk.inj (Option.some.inj got)
      have unread : r.read dev 1 = none := by rw [FileStore.read, device]; rfl
      exact ⟨.of_sim (by simp [FileStore.call, unread])
        (by simpa [FileStore.call, unread] using sim), .inl rfl⟩
  | some place =>
      obtain ⟨f, pos⟩ := place
      rcases sim_getc sim device got with ⟨byte, at_, rfl, sim'⟩ | ⟨ended, rfl, rfl⟩
      · have data : ((r.bytes f).drop pos).take 1 = [byte] := by
          obtain ⟨inside, isByte⟩ := List.getElem?_eq_some_iff.mp at_
          rw [List.drop_eq_getElem_cons inside, isByte]
          rfl
        have read : r.read dev 1 = some (r.moveTo dev f (pos + 1), [byte]) := by
          rw [FileStore.read, device]
          simp only [Option.map_some, data, List.length_singleton]
        exact ⟨.of_sim (by simp [FileStore.call, read]) (by simpa [FileStore.call, read] using sim'),
          .inr ⟨dev, used_of_device sim' (Function.update_self _ _ _)⟩⟩
      · have data : (r.bytes f).drop pos = [] := List.drop_eq_nil_of_le ended
        have read : r.read dev 1 = some (r.moveTo dev f pos, []) := by
          rw [FileStore.read, device]
          simp only [Option.map_some, data, List.take_nil, List.length_nil, Nat.add_zero]
        exact ⟨.of_sim (by simp [FileStore.call, read]) (by simpa [FileStore.call, read] using sim),
          .inl rfl⟩

theorem call_read (sim : Sim area s r) {count : Int}
    (done : call s (.read dev count) = some (s', reply)) :
    Simulated area s s' r (.read dev count) reply ∧ StaysUsed s s' := by
  change lflread s dev count = some (s', reply) at done
  rw [lflread] at done
  by_cases negative : count < 0
  · rw [if_pos negative] at done
    obtain ⟨rfl, rfl⟩ := Prod.mk.inj (Option.some.inj done)
    exact ⟨.of_sim (by simp [FileStore.call, negative])
      (by simpa [FileStore.call, negative] using sim), .inl rfl⟩
  rw [if_neg negative] at done
  cases device : r.device dev with
  | none =>
      have unread : r.read dev count.toNat = none := by rw [FileStore.read, device]; rfl
      cases size : count.toNat with
      | zero =>
          have empty : count = 0 := by omega
          rw [size, readLoop] at done
          obtain ⟨rfl, rfl⟩ := Prod.mk.inj (Option.some.inj done)
          rw [size] at unread
          exact ⟨.of_sim (by simp [FileStore.call, empty, unread])
            (by simpa [FileStore.call, empty, unread] using sim), .inl rfl⟩
      | succ left =>
          have filled : count ≠ 0 := by omega
          rw [size, readLoop, lflgetc, if_pos (sim_unused sim device)] at done
          obtain ⟨rfl, rfl⟩ := Prod.mk.inj (Option.some.inj done)
          exact ⟨.of_sim (by simp [FileStore.call, negative, unread, filled])
            (by simpa [FileStore.call, negative, unread] using sim), .inl rfl⟩
  | some place =>
      obtain ⟨f, pos⟩ := place
      obtain ⟨out, result⟩ := reply
      obtain ⟨r', data, read, isOut, isResult, sim'⟩ := readLoop_sim sim device done
      obtain ⟨place, device'⟩ := read_used read
      rw [List.nil_append] at isOut
      subst isOut
      have short : (out.length < count.toNat ∧ out = []) ↔ out = [] ∧ count ≠ 0 := by
        constructor
        · rintro ⟨below, rfl⟩
          exact ⟨rfl, by rintro rfl; exact Nat.lt_irrefl _ below⟩
        · rintro ⟨rfl, filled⟩
          exact ⟨by simp only [List.length_nil]; omega, rfl⟩
      refine ⟨.of_sim ?_ (by simpa [FileStore.call, negative, read] using sim'),
        .inr ⟨dev, used_of_device sim' device'⟩⟩
      simp only [FileStore.call, negative, if_false, read, isResult, short]

theorem call_seek (sim : Sim area s r) {offset : Nat}
    (done : call s (.seek dev offset) = some (s', reply)) :
    Simulated area s s' r (.seek dev offset) reply ∧ StaysUsed s s' := by
  obtain ⟨rfl, rfl⟩ := Prod.mk.inj (Option.some.inj done)
  obtain ⟨result, sim'⟩ := @sim_seek _ _ _ dev sim offset
  refine ⟨.of_sim (by simp [FileStore.call, result]) sim', ?_⟩
  by_cases used : (s.lfltab dev).lfstate = .used
  · refine .inr ⟨dev, ?_⟩
    rw [lflseek]
    split_ifs
    · exact used
    · exact used
    · simpa [FileSystem.setDev] using used
  · exact .inl (by rw [lflseek, if_pos used])

theorem call_truncate (sim : Sim area s r)
    (done : call s (.truncate dev) = some (s', reply)) :
    Simulated area s s' r (.truncate dev) reply ∧ StaysUsed s s' := by
  obtain ⟨⟨after, result⟩, cut, same⟩ := Option.map_eq_some_iff.mp done
  obtain ⟨rfl, rfl⟩ := Prod.mk.inj same
  obtain ⟨rfl, sim'⟩ := sim_truncate sim cut
  refine ⟨.of_sim rfl sim', ?_⟩
  cases device : r.device dev with
  | none =>
      rw [lflcontrolTrunc, if_pos (sim_unused sim device)] at cut
      exact .inl (Prod.mk.inj (Option.some.inj cut)).1.symm
  | some place =>
      obtain ⟨f, pos⟩ := place
      rw [FileStore.truncate, device] at sim'
      exact .inr ⟨dev, used_of_device sim' (Function.update_self _ _ _)⟩

theorem call_close (sim : Sim area s r) (done : call s (.close dev) = some (s', reply)) :
    Simulated area s s' r (.close dev) reply := by
  obtain ⟨rfl, rfl⟩ := Prod.mk.inj (Option.some.inj done)
  obtain ⟨result, sim'⟩ := @sim_close _ _ _ dev sim
  exact .of_sim (by simp [FileStore.call, result]) sim'

/-- An open of the empty name is refused as soon as one file is open. -/
theorem lfsopen_empty (sim : Sim area s r) {name : CString} {mode : List Byte}
    (empty : OpensEmptyName s name mode) : lfsopen s name mode = (s, sysErr) := by
  obtain ⟨null, ⟨other, inside, used⟩, bits, free⟩ := empty
  obtain ⟨mbits, isBits⟩ := Option.isSome_iff_exists.mp bits
  obtain ⟨device, isFree⟩ := Option.isSome_iff_exists.mp free
  have already : alreadyOpen s name :=
    ⟨other, inside, used, (Open.sameName_iff _ _ _ _).mpr
      ⟨0, Nat.le_refl 0, by decide, null, sim.emptied other used, fun _ below => by omega⟩⟩
  simp [lfsopen, isBits, isFree, already]

theorem call_fopen (sim : Sim area s r) {name : CString} {mode : List Byte}
    (done : call s (.fopen name mode) = some (s', reply)) (distinct : Distinct s') :
    Simulated area s s' r (.fopen name mode) reply := by
  obtain ⟨rfl, rfl⟩ := Prod.mk.inj (Option.some.inj done)
  by_cases empty : OpensEmptyName s name mode
  · refine ⟨⟨r, ?_⟩, fun filled => absurd empty filled⟩
    rw [lfsopen_empty sim empty]
    exact sim
  · obtain ⟨result, sim'⟩ := sim_fopen sim name mode empty distinct
    exact .of_sim (by simp [FileStore.call, result]) sim'

theorem sim_distinct (sim : Sim area s r) : Distinct s := by
  obtain ⟨v, im, tidy, -⟩ := sim.shown
  have distinct := tidy.files.stored.distinct
  unfold Distinct at distinct ⊢
  rwa [loadDir_lfltab] at distinct

def IsOpen : Call → Prop
  | .fopen _ _ => True
  | _ => False

/-- Each call keeps to the files. -/
theorem sim_call (sim : Sim area s r) (done : call s event = some (s', reply))
    (distinct : IsOpen event → Distinct s') : Simulated area s s' r event reply := by
  cases event with
  | fopen name mode => exact call_fopen sim done (distinct trivial)
  | putc dev ch => exact (call_putc sim done).1
  | write dev buff count => exact (call_write sim done).1
  | getc dev => exact (call_getc sim done).1
  | read dev count => exact (call_read sim done).1
  | seek dev offset => exact (call_seek sim done).1
  | truncate dev => exact (call_truncate sim done).1
  | close dev => exact call_close sim done

end Calls

section Runs

/-- The calls that `allowed` lets through, each of them completed, with their replies. -/
inductive Run (allowed : FileSystem → Call → FileSystem → Prop) (disk : Disk) :
    List (Call × Reply) → FileSystem → Prop where
  | start : Run allowed disk [] (lfsinit disk)
  | step {trace : List (Call × Reply)} {s s' : FileSystem} {event : Call} {reply : Reply}
      (run : Run allowed disk trace s) (done : call s event = some (s', reply))
      (may : allowed s event s') : Run allowed disk (trace ++ [(event, reply)]) s'

theorem Run.mono {allowed allowed' : FileSystem → Call → FileSystem → Prop} {disk : Disk}
    {trace : List (Call × Reply)} (run : Run allowed disk trace s)
    (more : ∀ s event s', allowed s event s' → allowed' s event s') : Run allowed' disk trace s := by
  induction run with
  | start => exact .start
  | step _ done may ih => exact ih.step done (more _ _ _ may)

/-- The replies are those of the reference. -/
def Agrees : FileStore → List (Call × Reply) → Prop
  | _, [] => True
  | r, (event, reply) :: rest => reply = (r.call event).2 ∧ Agrees (r.call event).1 rest

def FileStore.calls (r : FileStore) (trace : List (Call × Reply)) : FileStore :=
  trace.foldl (fun r done => (r.call done.1).1) r

theorem agrees_snoc {trace : List (Call × Reply)} (agrees : Agrees r trace)
    (same : reply = ((FileStore.calls r trace).call event).2) :
    Agrees r (trace ++ [(event, reply)]) := by
  induction trace generalizing r with
  | nil => exact ⟨same, trivial⟩
  | cons first rest ih => exact ⟨agrees.1, ih agrees.2 same⟩

theorem calls_snoc (r : FileStore) (trace : List (Call × Reply)) (event : Call) (reply : Reply) :
    FileStore.calls r (trace ++ [(event, reply)]) = ((FileStore.calls r trace).call event).1 := by
  simp [FileStore.calls]

variable {disk : Disk} {trace : List (Call × Reply)}

theorem sim_created (created : Created area disk) : Sim area (lfsinit disk) .empty := by
  have tidy := tidy_created created
  obtain ⟨sector, -, -, -⟩ := created_sectors created
  have none_files : (loadDir (lfsinit disk)).lfDir.lfdNfiles = 0 := by
    change (disk 0).asDir.lfdNfiles = 0
    rw [sector]
    rfl
  have unused : ∀ dev, ((lfsinit disk).lfltab dev).lfstate ≠ .used := fun dev used => by cases used
  refine ⟨⟨_, _, tidy, ?_, fun f inside => absurd inside (Nat.not_lt_zero f),
    fun f inside => absurd inside (Nat.not_lt_zero f), fun dev => ?_⟩,
    fun dev used => absurd used (unused dev), fun dev used => absurd used (unused dev)⟩
  · exact none_files.symm
  · rw [loadDir_lfltab, if_neg (unused dev)]
    rfl

/-- The states of a run are in order, if no open opens a file twice. -/
theorem sim_run {allowed : FileSystem → Call → FileSystem → Prop} (created : Created area disk)
    (single : ∀ s event s' r reply, Sim area s r → call s event = some (s', reply) →
      allowed s event s' → IsOpen event → Distinct s')
    (run : Run allowed disk trace s) : ∃ r, Sim area s r := by
  induction run with
  | start => exact ⟨_, sim_created created⟩
  | step run done may ih =>
      obtain ⟨r, sim⟩ := ih
      exact (sim_call sim done fun isOpen => single _ _ _ r _ sim done may isOpen).shown

/-- A call that leaves no file open twice, and does not open the empty name. -/
def Plain (s : FileSystem) (event : Call) (s' : FileSystem) : Prop :=
  Distinct s' ∧ ¬OpensEmpty s event

/-- The results of all calls are those of the reference, in which a file is a list of bytes. -/
theorem files_are_byte_lists (area : Area) (disk : Disk) (trace : List (Call × Reply))
    (s : FileSystem) (created : Created area disk) (run : Run Plain disk trace s) :
    Agrees .empty trace := by
  have both : Agrees .empty trace ∧ Sim area s (FileStore.calls .empty trace) := by
    induction run with
    | start => exact ⟨trivial, sim_created created⟩
    | step run done may ih =>
        obtain ⟨distinct, filled⟩ := may
        obtain ⟨same, sim'⟩ := (sim_call ih.2 done fun _ => distinct).agrees filled
        exact ⟨agrees_snoc ih.1 same, by rw [calls_snoc]; exact sim'⟩
  exact both.1

theorem opened_of_sim (sim : Sim area s r) : Open.Opened s where
  device := sim.inside
  present := fun dev used => sim.shown.choose_spec.choose_spec.1.present dev used
  entry := fun dev used => by
    obtain ⟨v, im, tidy, -⟩ := sim.shown
    exact (tidy.at_used used).2.1.entry dev used
  emptied := sim.emptied
  distinct := sim_distinct sim

/-- A state that a run reaches, in order. -/
def Reached (area : Area) (disk : Disk) (trace : List (Call × Reply)) (s : FileSystem) : Prop :=
  Run Plain disk trace s ∧ ∃ r, Sim area s r

theorem reached_start (created : Created area disk) : Reached area disk [] (lfsinit disk) :=
  ⟨.start, _, sim_created created⟩

def stepped (s : FileSystem) (event : Call) : FileSystem × Reply :=
  (call s event).getD (s, [], 0)

theorem call_stepped (done : (call s event).isSome = true) :
    call s event = some ((stepped s event).1, (stepped s event).2) := by
  obtain ⟨after, isAfter⟩ := Option.isSome_iff_exists.mp done
  simp [stepped, isAfter]

theorem Reached.call (reached : Reached area disk trace s) (event : Call)
    (done : (call s event).isSome = true) (quiet : ¬IsOpen event) :
    Reached area disk (trace ++ [(event, (stepped s event).2)]) (stepped s event).1 := by
  obtain ⟨run, r, sim⟩ := reached
  have result := call_stepped done
  obtain ⟨r', sim'⟩ := (sim_call sim result fun isOpen => absurd isOpen quiet).shown
  refine ⟨run.step result ⟨sim_distinct sim', fun empty => ?_⟩, r', sim'⟩
  cases event with
  | fopen name mode => exact quiet trivial
  | _ => exact empty

theorem Reached.fopen (reached : Reached area disk trace s) (name : CString) (mode : List Byte)
    (filled : name 0 ≠ 0) (single : ¬Open.OpenName s name) :
    Reached area disk (trace ++ [(.fopen name mode, (stepped s (.fopen name mode)).2)])
      (stepped s (.fopen name mode)).1 := by
  obtain ⟨run, r, sim⟩ := reached
  have opened := Open.opened_lfsopen (opened_of_sim sim) name mode fun again => single again.1
  have done : Reference.call s (.fopen name mode) = some ((stepped s (.fopen name mode)).1,
      (stepped s (.fopen name mode)).2) := rfl
  obtain ⟨r', sim'⟩ := (sim_call sim done fun _ => opened.distinct).shown
  exact ⟨run.step done ⟨opened.distinct, fun empty => filled empty.1⟩, r', sim'⟩

end Runs

section Examples

/-- A disk of eight sectors, one of them with index blocks. -/
def sampleDisk : Disk := (lfscreate Open.blank 1 4096).getD Open.blank

def sampleArea : Area := { ibsectors := 1, dhigh := 8 }

theorem created_sample : Created sampleArea sampleDisk where
  made := ⟨Open.blank, 1, 4096, by decide, by decide, rfl, rfl, rfl⟩
  room := by decide

def hello : Nat → Byte := fun i => UInt8.ofNat (104 + i)

/-- The calls with their replies. -/
def played (s : FileSystem) : List Call → List (Call × Reply)
  | [] => []
  | event :: rest => (event, (stepped s event).2) :: played (stepped s event).1 rest

def endOf (s : FileSystem) : List Call → FileSystem
  | [] => s
  | event :: rest => endOf (stepped s event).1 rest

/-- Two files are written, and the first one is closed and read again. -/
def sampleCalls : List Call :=
  [.fopen (Open.shortName 97) Open.readWrite, .write 0 hello 3,
    .fopen (Open.shortName 98) Open.readWrite, .putc 1 33, .close 0,
    .fopen (Open.shortName 97) Open.readWrite, .read 0 5]

theorem reached_sample : Reached sampleArea sampleDisk (played (lfsinit sampleDisk) sampleCalls)
    (endOf (lfsinit sampleDisk) sampleCalls) :=
  (((((((reached_start created_sample).fopen (Open.shortName 97) Open.readWrite (by decide)
    (by unfold Open.OpenName; decide +kernel)).call (.write 0 hello 3) (by decide +kernel) id).fopen
    (Open.shortName 98) Open.readWrite (by decide)
    (by unfold Open.OpenName; decide +kernel)).call (.putc 1 33) (by decide +kernel) id).call
    (.close 0) (by decide +kernel) id).fopen (Open.shortName 97) Open.readWrite (by decide)
    (by unfold Open.OpenName; decide +kernel)).call (.read 0 5) (by decide +kernel) id

theorem files_are_byte_lists_two : Agrees .empty (played (lfsinit sampleDisk) sampleCalls) :=
  files_are_byte_lists sampleArea sampleDisk (played (lfsinit sampleDisk) sampleCalls)
    (endOf (lfsinit sampleDisk) sampleCalls) created_sample reached_sample.1

/-- The call leaves no file open twice. -/
def Apart (_ : FileSystem) (_ : Call) (s' : FileSystem) : Prop := Distinct s'

def oneOpen : FileSystem :=
  (stepped (lfsinit sampleDisk) (.fopen (Open.shortName 97) Open.readWrite)).1

/-- One file is open, and the file of the empty name is refused. -/
theorem empty_name_refused : ¬∀ area disk trace s, Created area disk → Run Apart disk trace s →
    Agrees .empty trace := by
  intro always
  have one := (reached_start created_sample).fopen (Open.shortName 97) Open.readWrite (by decide)
    (by unfold Open.OpenName; decide +kernel)
  change Reached sampleArea sampleDisk _ oneOpen at one
  obtain ⟨run, r, sim⟩ := one
  have empty : OpensEmptyName oneOpen (Open.shortName 0) Open.readWrite :=
    ⟨rfl, ⟨0, by decide, by decide +kernel⟩, by decide, by decide +kernel⟩
  have done : call oneOpen (.fopen (Open.shortName 0) Open.readWrite) =
      some (oneOpen, [], sysErr) := by
    rw [call, lfsopen_empty sim empty]
  have two := always sampleArea sampleDisk _ _ created_sample
    ((run.mono fun _ _ _ plain => plain.1).step done (sim_distinct sim))
  exact absurd two.2.1 (by decide +kernel)

end Examples

end Xinu.Lfs.Runs
