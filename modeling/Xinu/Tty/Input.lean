import Xinu.Tty.Line

/-!
# Terminal input

The characters between `tyihead` and `tyitail` are those of whole lines, for which the semaphore was
signalled, and behind them the current line. A mode keeps them as long as its own way of storing a
character does not leave `tyibuff`.
-/

namespace Xinu.Tty.Input

open Xinu.Lib.Interleaving Xinu.Lib.Ring Xinu.Lib.Semaphores
open Xinu.Tty.Line

set_option autoImplicit false

section Definitions

/-- The characters in the queue -/
def buffered (m : Ttycblk) : Nat := m.stored.length - m.taken.length

/-- The characters that are ready to be read: all but the current line, which only cooked mode has -/
def ready (m : Ttycblk) : Int :=
  if m.tyimode = .cooked then buffered m - m.tyicursor else buffered m

/-- The pointers are inside `tyibuff`, and what was stored and not erased was read or is in the queue
behind that, each character in a place of its own. The semaphore counts what is ready to be read and
was not granted to a process. -/
structure Keeps (m : Ttycblk) : Prop where
  head : 0 ≤ m.tyihead ∧ m.tyihead < tyIbuflen
  tail : 0 ≤ m.tyitail ∧ m.tyitail < tyIbuflen
  queue : Fifo tyIbuflen (fun i : Nat => m.tyibuff i) m.tyihead.toNat m.tyitail.toNat (buffered m)
    m.stored m.taken
  counted : 0 ≤ m.tyisem.count → m.tyisem.count + m.tyisem.passed.length = ready m
  readable : m.tyimode ≠ .cooked → avail m + m.tyisem.passed.length = buffered m

/-- A place of `tyibuff` has no character, one that was granted and has not been read included. -/
def Room (m : Ttycblk) : Prop := avail m + m.tyisem.passed.length + m.tyicursor < tyIbuflen

instance : DecidablePred Room := fun _ => inferInstanceAs (Decidable (_ < _))

/-- The character is not stored in the last place of `tyibuff`. -/
def BeforeLast (m : Ttycblk) : Prop := m.tyitail + 1 < tyIbuflen

instance : DecidablePred BeforeLast := fun _ => inferInstanceAs (Decidable (_ < _))

/-- What the branches of cooked mode do not test: a line that is killed does not begin at the end of
`tyibuff`, a character is stored where there is room, and an end of file not in the last place. -/
def FitsLine (m : Ttycblk) (ch : Int8) : Prop :=
  if Kills m ch then (m.tyicursor : Int) ≤ m.tyitail
  else if Erases m ch then True
  else if Ends ch then Room m
  else if (tyIbuflen : Int) - 1 ≤ avail m + m.tyicursor then True
  else if EndsFile m ch then m.tyicursor = 0 → Room m ∧ BeforeLast m
  else Room m

/-- Raw mode stores nothing in the last place, and cbreak mode stores nothing. -/
def Fits (m : Ttycblk) : Event → Prop
  | .arrives ch =>
      match m.tyimode with
      | .raw => avail m < tyIbuflen → BeforeLast m
      | .cbreak => FlowControl m (mapped m ch) ∨ tyIbuflen ≤ avail m
      | .cooked => ¬FlowControl m (mapped m ch) → FitsLine m (mapped m ch)
  | _ => True

instance (m : Ttycblk) : DecidablePred (Fits m) := fun event => by
  cases event with
  | arrives ch => unfold Fits FitsLine; cases m.tyimode <;> dsimp only <;> infer_instance
  | getc pid => exact .isTrue trivial
  | reads pid => exact .isTrue trivial
  | putc pid ch => exact .isTrue trivial
  | writes pid => exact .isTrue trivial
  | interrupt => exact .isTrue trivial

end Definitions

section Queue

variable {q : Input} {mode : InputMode} {head tail n : Nat} {ch : Int8} {pid : Int}

structure Inv (mode : InputMode) (q : Input) (head tail n : Nat) : Prop where
  head_eq : q.tyihead = head
  tail_eq : q.tyitail = tail
  fifo : Fifo tyIbuflen (fun i : Nat => q.tyibuff i) head tail n q.stored q.taken
  sound : q.tyisem.Sound
  level : q.tyisem.level + q.tyicursor = n
  plain : mode ≠ .cooked → q.tyicursor = 0
  unwrapped : mode = .raw → q.stored.length = tail

/-- The queue is whole. -/
def Whole (mode : InputMode) (q : Input) : Prop := ∃ head tail n, Inv mode q head tail n

/-- What the semaphore has granted is what it counts and what processes have not read. -/
theorem avail_level {m : Ttycblk} (sound : m.tyisem.Sound) :
    avail m + m.tyisem.passed.length = m.tyisem.level := by
  unfold Semaphore.Sound at sound
  unfold avail Semaphore.level
  split_ifs <;> omega

theorem cells_update (cells : Int → Int8) (tail : Nat) (ch : Int8) :
    (fun i : Nat => Function.update cells (tail : Int) ch i) =
      Function.update (fun i : Nat => cells i) tail ch := by
  funext i
  by_cases same : i = tail
  · rw [same, Function.update_self, Function.update_self]
  · rw [Function.update_of_ne same, Function.update_of_ne (by exact_mod_cast same)]

/-- A character is put behind the last one. -/
theorem push_cells (inv : Inv mode q head tail n) (room : n < tyIbuflen) (ch : Int8) :
    Fifo tyIbuflen (fun i : Nat => Function.update q.tyibuff q.tyitail ch i) head
      (advance tyIbuflen tail) (n + 1) (q.stored ++ [ch]) q.taken := by
  rw [inv.tail_eq, cells_update]
  exact inv.fifo.push room ch

/-- The step forward of a pointer that wraps -/
theorem wrapped_advance (size i : Nat) :
    (if (size : Int) ≤ (i : Int) + 1 then (0 : Int) else (i : Int) + 1) =
      (advance size i : Nat) := by
  unfold advance
  split_ifs with last <;> omega

theorem advance_before {i : Nat} (before : (i : Int) + 1 < tyIbuflen) :
    advance tyIbuflen i = i + 1 := by
  unfold advance
  exact if_neg (by omega)

/-- `ttygetc` takes the first character, which belongs to a whole line. -/
theorem read_inv (inv : Inv mode q head tail n) (passed : pid ∈ q.tyisem.passed) :
    Whole mode
      { q with
        tyisem := q.tyisem.run pid
        tyihead := if tyIbuflen ≤ q.tyihead + 1 then 0 else q.tyihead + 1
        taken := q.taken ++ [q.tyibuff q.tyihead] } := by
  have positive := List.length_pos_of_mem passed
  have sound := inv.sound
  have level := inv.level
  have lower := Semaphore.run_level pid passed
  obtain ⟨rest, rfl⟩ : ∃ rest, n = rest + 1 := by
    refine ⟨n - 1, ?_⟩
    unfold Semaphore.Sound at sound
    unfold Semaphore.level at level
    omega
  refine ⟨advance tyIbuflen head, tail, rest, ?_, inv.tail_eq, ?_, sound, ?_, inv.plain,
    inv.unwrapped⟩
  · dsimp only
    rw [inv.head_eq, wrapped_advance]
  · rw [inv.head_eq]
    exact inv.fifo.pop
  · dsimp only
    rw [lower]
    omega

theorem wait_inv (inv : Inv mode q head tail n) (pid : Int) :
    Inv mode { q with tyisem := q.tyisem.wait pid } head tail n :=
  ⟨inv.head_eq, inv.tail_eq, inv.fifo, Semaphore.wait_sound pid inv.sound,
    (congrArg (· + (q.tyicursor : Int)) (Semaphore.wait_level pid)).trans inv.level, inv.plain,
    inv.unwrapped⟩

/-- A character that is stored is ready at once. -/
theorem ready_inv (inv : Inv mode q head tail n) (room : n < tyIbuflen)
    (before : q.tyitail + 1 < tyIbuflen) (ch : Int8) :
    Whole mode
      { q with
        tyibuff := Function.update q.tyibuff q.tyitail ch
        tyitail := q.tyitail + 1
        stored := q.stored ++ [ch]
        tyisem := q.tyisem.signal } := by
  have same := inv.tail_eq
  rw [same] at before
  have next := advance_before before
  refine ⟨head, advance tyIbuflen tail, n + 1, inv.head_eq, ?_, push_cells inv room ch,
    Semaphore.signal_sound inv.sound, ?_, inv.plain, fun raw => ?_⟩
  · dsimp only
    rw [same, next]
    omega
  · have level := inv.level
    dsimp only
    rw [Semaphore.signal_level inv.sound]
    omega
  · dsimp only
    rw [List.length_append, List.length_singleton, inv.unwrapped raw, next]

/-- A character is put behind the current line. -/
theorem insert_inv (inv : Inv .cooked q head tail n) (room : n < tyIbuflen) (ch : Int8) :
    Whole .cooked
      { q with
        tyibuff := Function.update q.tyibuff q.tyitail ch
        tyitail := if tyIbuflen ≤ q.tyitail + 1 then 0 else q.tyitail + 1
        stored := q.stored ++ [ch]
        tyicursor := q.tyicursor + 1 } := by
  refine ⟨head, advance tyIbuflen tail, n + 1, inv.head_eq, ?_, push_cells inv room ch, inv.sound,
    ?_, fun other => (other rfl).elim, nofun⟩
  · dsimp only
    rw [inv.tail_eq, wrapped_advance]
  · have level := inv.level
    dsimp only
    omega

/-- The line is ready with the character that ends it. -/
theorem line_inv (inv : Inv .cooked q head tail n) (room : n < tyIbuflen) (ch : Int8) :
    Whole .cooked
      { q with
        tyibuff := Function.update q.tyibuff q.tyitail ch
        tyitail := if tyIbuflen ≤ q.tyitail + 1 then 0 else q.tyitail + 1
        stored := q.stored ++ [ch]
        tyisem := q.tyisem.signaln (q.tyicursor + 1)
        tyicursor := 0 } := by
  refine ⟨head, advance tyIbuflen tail, n + 1, inv.head_eq, ?_, push_cells inv room ch,
    Semaphore.signaln_sound inv.sound _, ?_, fun other => (other rfl).elim, nofun⟩
  · dsimp only
    rw [inv.tail_eq, wrapped_advance]
  · have level := inv.level
    dsimp only
    rw [Semaphore.signaln_level inv.sound]
    omega

/-- The current line has as many characters in the queue. -/
theorem cursor_le (inv : Inv mode q head tail n) : q.tyicursor ≤ n := by
  have sound := inv.sound
  have level := inv.level
  unfold Semaphore.Sound at sound
  unfold Semaphore.level at level
  omega

theorem erase_inv (inv : Inv .cooked q head tail n) (some_line : 0 < q.tyicursor) :
    Whole .cooked
      { q with
        tyitail := if q.tyitail - 1 < 0 then q.tyitail - 1 + tyIbuflen else q.tyitail - 1
        stored := q.stored.dropLast
        tyicursor := q.tyicursor - 1 } := by
  have inside := cursor_le inv
  obtain ⟨rest, rfl⟩ : ∃ rest, n = rest + 1 := ⟨n - 1, by omega⟩
  refine ⟨head, retreat tyIbuflen tail, rest, inv.head_eq, ?_, inv.fifo.unpush, inv.sound, ?_,
    fun other => (other rfl).elim, nofun⟩
  · have size : tyIbuflen = 128 := rfl
    dsimp only
    rw [inv.tail_eq]
    unfold retreat
    split_ifs <;> omega
  · have level := inv.level
    dsimp only
    omega

theorem kill_inv (inv : Inv .cooked q head tail n) (straight : (q.tyicursor : Int) ≤ q.tyitail) :
    Whole .cooked
      { q with
        tyitail := q.tyitail - q.tyicursor
        tyihead := if q.tyitail - q.tyicursor < 0 then q.tyihead + tyIbuflen else q.tyihead
        tyicursor := 0
        stored := q.stored.take (q.stored.length - q.tyicursor) } := by
  have inside := cursor_le inv
  have same := inv.tail_eq
  refine ⟨head, tail - q.tyicursor, n - q.tyicursor, ?_, ?_, inv.fifo.unpush_many inside (by omega),
    inv.sound, ?_, fun other => (other rfl).elim, nofun⟩
  · dsimp only
    rw [if_neg (by omega), inv.head_eq]
  · dsimp only
    omega
  · have level := inv.level
    dsimp only
    omega

end Queue

section Steps

variable {m m' : Ttycblk} {head tail n : Nat} {ch : Int8}

theorem room_lt (inv : Inv m.tyimode m.toInput head tail n) (room : Room m) : n < tyIbuflen := by
  have level := inv.level
  have granted := avail_level inv.sound
  unfold Room at room
  omega

theorem raw_inv (inv : Inv .raw m.toInput head tail n)
    (fits : avail m < tyIbuflen → BeforeLast m) (did : handleRaw m ch = some m') :
    Whole .raw m'.toInput := by
  unfold handleRaw at did
  split_ifs at did with full
  · obtain rfl := Option.some.inj did
    exact ⟨head, tail, n, inv⟩
  · obtain ⟨d, deposits, rfl⟩ := Option.map_eq_some_iff.mp did
    obtain ⟨_, _, rfl⟩ := deposit_eq deposits
    have before := fits (not_le.mp full)
    have room : n < tyIbuflen := by
      have lengths := inv.fifo.lengths
      have stored := inv.unwrapped rfl
      have same := inv.tail_eq
      unfold BeforeLast at before
      omega
    exact ready_inv inv room before ch

theorem line_end_inv (inv : Inv .cooked m.toInput head tail n) (room : n < tyIbuflen)
    (did : lineEnd m ch = some m') : Whole .cooked m'.toInput := by
  obtain ⟨d, deposits, rfl⟩ := Option.map_eq_some_iff.mp did
  rw [← (echoed_echoes m ch).input] at inv
  obtain ⟨_, _, rfl⟩ := deposit_eq deposits
  rw [wrap_tail_eq]
  exact line_inv inv room ch

theorem insert_char_inv (inv : Inv .cooked m.toInput head tail n) (room : n < tyIbuflen)
    (did : insertChar m ch = some m') : Whole .cooked m'.toInput := by
  obtain ⟨d, deposits, rfl⟩ := Option.map_eq_some_iff.mp did
  rw [← (echoed_echoes m ch).input] at inv
  have cursor : m.tyicursor = (echoed m ch).tyicursor :=
    congrArg Input.tyicursor (echoed_echoes m ch).input.symm
  obtain ⟨_, _, rfl⟩ := deposit_eq deposits
  rw [wrap_tail_eq, cursor]
  exact insert_inv inv room ch

theorem end_of_file_inv (inv : Inv .cooked m.toInput head tail n)
    (fits : m.tyicursor = 0 → n < tyIbuflen ∧ BeforeLast m)
    (did : endOfFile m ch = some m') : Whole .cooked m'.toInput := by
  unfold endOfFile at did
  split_ifs at did with inside
  · obtain rfl := Option.some.inj did
    rw [(echoed_echoes m ch).input]
    exact ⟨head, tail, n, inv⟩
  · obtain ⟨room, before⟩ := fits (not_not.mp inside)
    obtain ⟨d, deposits, rfl⟩ := Option.map_eq_some_iff.mp did
    have same := (echoed_echoes m ch).input
    rw [← same] at inv
    rw [BeforeLast, ← congrArg Input.tyitail same] at before
    obtain ⟨_, _, rfl⟩ := deposit_eq deposits
    exact ready_inv inv room before ch

theorem cooked_inv (cooked : m.tyimode = .cooked) (inv : Inv .cooked m.toInput head tail n)
    (fits : FitsLine m ch) (did : handleCooked m ch = some m') : Whole .cooked m'.toInput := by
  have fullness : Room m → n < tyIbuflen := fun room => room_lt (by rw [cooked]; exact inv) room
  unfold handleCooked at did
  unfold FitsLine at fits
  split_ifs at did fits with kills erases some_line ends full eof
  · obtain rfl := Option.some.inj did
    exact kill_inv inv fits
  · obtain rfl := Option.some.inj did
    rw [erase1, (erase_echo_echoes _).input]
    exact erase_inv inv some_line
  · obtain rfl := Option.some.inj did
    exact ⟨head, tail, n, inv⟩
  · exact line_end_inv inv (fullness fits) did
  · obtain rfl := Option.some.inj did
    rw [(eputc_echoes m _).input]
    exact ⟨head, tail, n, inv⟩
  · exact end_of_file_inv inv (fun start => ⟨fullness (fits start).1, (fits start).2⟩) did
  · exact insert_char_inv inv (fullness fits) did

theorem handle_in_inv (inv : Inv m.tyimode m.toInput head tail n) (fits : Fits m (.arrives ch))
    (did : ttyhandleIn m ch = some m') : Whole m.tyimode m'.toInput := by
  have held : Inv m.tyimode ({ m with tyoheld := false } : Ttycblk).toInput head tail n := inv
  unfold ttyhandleIn at did
  unfold Fits at fits
  split_ifs at did with raw flow cbreak
  · rw [raw] at inv fits ⊢
    exact raw_inv inv fits did
  · obtain rfl := Option.some.inj did
    have same : (flowControl m (mapped m ch)).toInput = m.toInput := by
      unfold flowControl
      split_ifs <;> rfl
    rw [same]
    exact ⟨head, tail, n, inv⟩
  · rw [cbreak] at fits
    have full : (tyIbuflen : Int) ≤ avail { m with tyoheld := false } := fits.resolve_left flow
    rw [handleCbreak, if_pos full] at did
    obtain rfl := Option.some.inj did
    exact ⟨head, tail, n, inv⟩
  · have cooked : m.tyimode = .cooked := by
      cases mode : m.tyimode with
      | raw => exact (raw mode).elim
      | cooked => rfl
      | cbreak => exact (cbreak mode).elim
    rw [cooked] at fits held ⊢
    exact @cooked_inv { m with tyoheld := false } m' head tail n _ cooked held (fits flow) did

theorem getc_inv {pid : Int} (inv : Inv m.tyimode m.toInput head tail n) :
    Whole m.tyimode (ttygetc m pid).1.toInput := by
  have waits := wait_inv inv pid
  unfold ttygetc
  dsimp only
  split_ifs with blocked
  · exact ⟨head, tail, n, waits⟩
  · have passed : pid ∈ (m.tyisem.wait pid).passed := by
      have enough : ¬m.tyisem.count - 1 < 0 := by
        intro few
        rw [Semaphore.wait, if_pos few] at blocked
        exact blocked few
      rw [Semaphore.wait, if_neg enough]
      exact List.mem_append_right _ (List.mem_singleton_self pid)
    exact read_inv waits passed

/-- What holds in every state of a run -/
def Good (m : Ttycblk) : Prop := Whole m.tyimode m.toInput

theorem good_of_frame (good : Good m) (same : m'.toInput = m.toInput ∧ m'.toOptions = m.toOptions) :
    Good m' := by
  have mode : m'.tyimode = m.tyimode := congrArg Options.tyimode same.2
  rw [Good, mode, same.1]
  exact good

theorem act_good {event : Event} (good : Good m) (fits : Fits m event)
    (did : act m event = some m') : Good m' := by
  obtain ⟨head, tail, n, inv⟩ := good
  cases event with
  | arrives ch =>
      have mode : m'.tyimode = m.tyimode := congrArg Options.tyimode (handle_in_handles did).options
      rw [Good, mode]
      exact handle_in_inv inv fits did
  | getc pid =>
      simp only [act] at did
      split_ifs at did
      obtain rfl := Option.some.inj did
      have mode : (ttygetc m pid).1.tyimode = m.tyimode := by
        unfold ttygetc
        dsimp only
        split_ifs <;> rfl
      rw [Good, mode]
      exact getc_inv inv
  | reads pid =>
      simp only [act] at did
      split_ifs at did with passed
      obtain rfl := Option.some.inj did
      exact read_inv inv passed
  | putc pid ch =>
      simp only [act] at did
      split_ifs at did
      obtain rfl := Option.some.inj did
      exact good_of_frame ⟨head, tail, n, inv⟩ (put_chars_frame pid _ m)
  | writes pid =>
      simp only [act] at did
      split_ifs at did
      obtain rfl := Option.some.inj did
      exact good_of_frame ⟨head, tail, n, inv⟩ (goes_on_frame m pid)
  | interrupt =>
      obtain rfl := Option.some.inj did
      exact good_of_frame ⟨head, tail, n, inv⟩ (handle_out_frame m)

theorem started_good (started : Started m) : Good m := by
  obtain ⟨options, tyibuff, tyobuff, tyebuff, rfl⟩ := started
  exact ⟨0, 0, 0, rfl, rfl, fifo_start (by decide), rfl, rfl, fun _ => rfl, fun _ => rfl⟩

theorem good_keeps (good : Good m) : Keeps m := by
  obtain ⟨head, tail, n, inv⟩ := good
  have lengths := inv.fifo.lengths
  have inside := inv.fifo.inside
  have last := inv.fifo.tail_lt
  have count : buffered m = n := by
    unfold buffered
    omega
  have granted := avail_level inv.sound
  have level := inv.level
  refine ⟨?_, ?_, ?_, fun nonneg => ?_, fun plain => ?_⟩
  · rw [inv.head_eq]
    omega
  · rw [inv.tail_eq]
    omega
  · rw [count, inv.head_eq, inv.tail_eq]
    exact inv.fifo
  · have counts := Semaphore.count_le_level inv.sound nonneg
    unfold ready
    split_ifs with cooked
    · omega
    · have line := inv.plain cooked
      omega
  · have line := inv.plain plain
    omega

end Steps

section Results

/-- In a run in which no mode comes to a case that its branches do not test, the characters are kept
for the processes that read. -/
theorem input_is_kept {m : Ttycblk} (run : Reached act Started Fits m) : Keeps m :=
  good_keeps (reached_invariant run (fun _ => started_good) fun _ _ _ => act_good)

/-- A reader waits for a line, in which one character is erased. -/
theorem input_is_kept_line :
    ∃ m, takeEvents act Fits [.getc 5, .arrives 97, .arrives 98, .arrives 8, .arrives 13, .reads 5]
      (fresh .cooked) = some m ∧ Keeps m := by
  obtain ⟨m, took⟩ := Option.isSome_iff_exists.mp (show (takeEvents act Fits
    [.getc 5, .arrives 97, .arrives 98, .arrives 8, .arrives 13, .reads 5]
      (fresh .cooked)).isSome = true by decide)
  exact ⟨m, took, input_is_kept (take_events (.start (fresh_started _)) took)⟩

/-- In raw mode 128 characters bring `tyitail` out of `tyibuff`, in cbreak mode a character is in the
queue and cannot be read, and in cooked mode the last of 129 lines takes the place of the first. -/
theorem no_mode_keeps :
    (¬∀ m, Reached act (· = fresh .raw) (fun _ _ => True) m → Keeps m) ∧
      (¬∀ m, Reached act (· = fresh .cbreak) (fun _ _ => True) m → Keeps m) ∧
      ¬∀ m, Reached act (· = fresh .cooked) (fun _ _ => True) m → Keeps m := by
  refine ⟨fun always => ?_, fun always => ?_, fun always => ?_⟩
  · have taken : (takeEvents act (fun _ _ => True) (List.replicate 128 (.arrives 97))
        (fresh .raw)).map (fun m => m.tyitail) = some 128 := by
      decide +kernel
    obtain ⟨m, took, out⟩ := Option.map_eq_some_iff.mp taken
    have inside := (always m (take_events (.start rfl) took)).tail.2
    rw [out] at inside
    exact absurd inside (by decide)
  · have taken : (takeEvents act (fun _ _ => True) [.arrives 97] (fresh .cbreak)).map
        (fun m => (m.tyimode, avail m + m.tyisem.passed.length, buffered m)) =
          some (.cbreak, 0, 1) := by
      decide
    obtain ⟨m, took, counts⟩ := Option.map_eq_some_iff.mp taken
    obtain ⟨mode, counts⟩ := Prod.mk.inj counts
    obtain ⟨granted, stored⟩ := Prod.mk.inj counts
    have readable := (always m (take_events (.start rfl) took)).readable
    rw [mode, granted, stored] at readable
    exact absurd (readable (by decide)) (by decide)
  · have taken : (takeEvents act (fun _ _ => True) (List.replicate 129 (.arrives 10))
        (fresh .cooked)).map buffered = some 129 := by
      decide +kernel
    obtain ⟨m, took, many⟩ := Option.map_eq_some_iff.mp taken
    have bounded := (always m (take_events (.start rfl) took)).queue.bounded
    rw [many] at bounded
    exact absurd bounded (by decide)

end Results

end Xinu.Tty.Input
