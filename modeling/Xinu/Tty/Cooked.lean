import Xinu.Tty.LineEditor
import Mathlib.Data.List.Chain
import Mathlib.Data.List.GetD

/-!
# Cooked input and the line editor

The queue of the terminal has the unread lines of the editor and its unfinished line, as long as
each character finds the queue as the editor has it. The calls then read the lines of the editor.
-/

namespace Xinu.Tty.Cooked

open Xinu.Lib.Interleaving Xinu.Lib.Ring Xinu.Lib.Semaphores
open Xinu.Tty.Line hiding Event act Started
open Xinu.Tty.Input hiding Fits
open Xinu.Tty.LineEditor

set_option autoImplicit false

section Core

variable {m : Machine} {pid : Int}

/-- The character that the terminal stores for an item -/
def storedChar (o : Options) : Item → Int8
  | .char ch => ch
  | .endOfFile => o.tyeofch

/-- `ttygetc` returns the value of the item for its character. -/
def Proper (o : Options) : Item → Prop
  | .char ch => ¬(ch = o.tyeofch ∧ o.tyeof = true) ∧ ch.toInt ≠ eof
  | .endOfFile => o.tyeof = true

/-- The queue of the terminal has the lines of the editor. -/
structure Agrees (t : Ttycblk) (e : Editor) : Prop where
  cooked : t.tyimode = .cooked
  whole : Whole .cooked t.toInput
  stored : t.stored = e.released.map (storedChar t.toOptions) ++ e.line
  cursor : t.tyicursor = e.line.length
  taken : t.taken.length = e.read
  proper : ∀ item ∈ e.released, Proper t.toOptions item
  proper_line : ∀ ch ∈ e.line, Proper t.toOptions (.char ch)
  starts : e.released.IsChain fun item after => after = .endOfFile → item.Closes
  closed : ∀ item ∈ e.released.getLast?, item.Closes

variable {t t' : Ttycblk} {e : Editor} {ch : Int8}

/-- What the semaphore has granted is what the editor has released and nobody has read. -/
theorem unread_level (agrees : Agrees t e) :
    (e.unread : Int) = t.tyisem.level ∧ e.read + e.unread = e.released.length := by
  obtain ⟨head, tail, n, inv⟩ := agrees.whole
  have lengths := inv.fifo.lengths
  have level := inv.level
  have stored := congrArg List.length agrees.stored
  have cursor := agrees.cursor
  have taken := agrees.taken
  have positive := Semaphore.level_nonneg inv.sound
  rw [List.length_append, List.length_map] at stored
  unfold Editor.unread
  omega

theorem unread_avail (agrees : Agrees t e) :
    (e.unread : Int) = avail t + t.tyisem.passed.length := by
  obtain ⟨head, tail, n, inv⟩ := agrees.whole
  rw [avail_level inv.sound]
  exact (unread_level agrees).1

/-- Nothing but the unfinished line changes. -/
theorem line_agrees (agrees : Agrees t e) {line : List Int8} (options : t'.toOptions = t.toOptions)
    (whole : Whole .cooked t'.toInput)
    (stored : t'.stored = e.released.map (storedChar t.toOptions) ++ line)
    (cursor : t'.tyicursor = line.length) (taken : t'.taken = t.taken)
    (proper : ∀ ch ∈ line, Proper t.toOptions (.char ch)) :
    Agrees t' { e with line := line } where
  cooked := (congrArg Options.tyimode options).trans agrees.cooked
  whole := whole
  stored := by rw [options]; exact stored
  cursor := cursor
  taken := by rw [taken]; exact agrees.taken
  proper := by rw [options]; exact agrees.proper
  proper_line := by rw [options]; exact proper
  starts := agrees.starts
  closed := agrees.closed

/-- Items are released, and a new line begins. Only the first of them may be an end of file. -/
theorem release_agrees (agrees : Agrees t e) {items : List Item} {last : Item}
    (options : t'.toOptions = t.toOptions) (whole : Whole .cooked t'.toInput)
    (stored : t'.stored = (e.released ++ items).map (storedChar t.toOptions))
    (cursor : t'.tyicursor = 0) (taken : t'.taken = t.taken)
    (proper : ∀ item ∈ items, Proper t.toOptions item)
    (starts : items.IsChain fun item after => after = .endOfFile → item.Closes)
    (ends : items.getLast? = some last) (closes : last.Closes) :
    Agrees t' { e with released := e.released ++ items, line := [] } where
  cooked := (congrArg Options.tyimode options).trans agrees.cooked
  whole := whole
  stored := by rw [options, List.append_nil]; exact stored
  cursor := cursor
  taken := by rw [taken]; exact agrees.taken
  proper := by
    rw [options]
    intro item inside
    rcases List.mem_append.mp inside with before | new
    · exact agrees.proper item before
    · exact proper item new
  proper_line := fun _ none_ => absurd none_ List.not_mem_nil
  starts := agrees.starts.append starts fun item last_ _ _ _ => agrees.closed item last_
  closed := by
    intro item last_
    rw [Option.mem_def, List.getLast?_append, ends, Option.some_or] at last_
    cases last_
    exact closes

theorem fits_line (fits : FitsEditor t ch) : FitsLine t ch := by
  have wider : RoomForEnd t → Room t := by
    intro room
    have size : tyIbuflen = 128 := rfl
    unfold RoomForEnd at room
    unfold Room
    omega
  unfold FitsEditor at fits
  unfold FitsLine
  split_ifs at fits ⊢ with kills erases ends full eof
  · exact fits
  · exact fits.1
  · exact fun start => ⟨wider (fits start).1, (fits start).2⟩
  · exact wider fits.1

theorem line_chars_chain (chars : List Int8) :
    (chars.map Item.char).IsChain fun item after => after = .endOfFile → item.Closes := by
  induction chars with
  | nil => exact .nil
  | cons first rest induction =>
      cases rest with
      | nil => exact .singleton _
      | cons second rest => exact .cons_cons (fun other => by cases other) induction

theorem stored_chars (o : Options) (chars : List Int8) :
    (chars.map Item.char).map (storedChar o) = chars := by
  rw [List.map_map]
  exact List.map_id chars

/-- The character is added to the line. -/
theorem insert_agrees (agrees : Agrees t e) (whole : Whole .cooked t'.toInput)
    (proper : Proper t.toOptions (.char ch)) (did : insertChar t ch = some t') :
    Agrees t' { e with line := e.line ++ [ch] } := by
  obtain ⟨d, deposits, rfl⟩ := Option.map_eq_some_iff.mp did
  have echoes := echoed_echoes t ch
  obtain ⟨-, -, rfl⟩ := deposit_eq deposits
  have stored := congrArg Input.stored echoes.input
  have taken := congrArg Input.taken echoes.input
  rw [wrap_tail_eq] at whole ⊢
  refine line_agrees agrees echoes.options whole ?_ ?_ taken ?_
  · dsimp only
    rw [stored, agrees.stored, List.append_assoc]
  · rw [List.length_append, List.length_singleton, ← agrees.cursor]
  · intro c inside
    rcases List.mem_append.mp inside with before | new
    · exact agrees.proper_line c before
    · exact (List.mem_singleton.mp new) ▸ proper

/-- The line is released with its end. -/
theorem line_end_agrees (agrees : Agrees t e) (whole : Whole .cooked t'.toInput)
    (proper : Proper t.toOptions (.char ch)) (ends : Ends ch) (did : lineEnd t ch = some t') :
    Agrees t' { e with released := e.released ++ (e.line ++ [ch]).map .char, line := [] } := by
  obtain ⟨d, deposits, rfl⟩ := Option.map_eq_some_iff.mp did
  have echoes := echoed_echoes t ch
  obtain ⟨-, -, rfl⟩ := deposit_eq deposits
  have stored := congrArg Input.stored echoes.input
  have taken := congrArg Input.taken echoes.input
  rw [wrap_tail_eq] at whole ⊢
  refine @release_agrees _ _ _ agrees _ (.char ch) echoes.options whole ?_ rfl taken ?_
    (line_chars_chain _) ?_ ends
  · dsimp only
    rw [stored, agrees.stored, List.map_append, stored_chars, List.append_assoc]
  · intro item inside
    obtain ⟨c, among, rfl⟩ := List.mem_map.mp inside
    rcases List.mem_append.mp among with before | new
    · exact agrees.proper_line c before
    · exact (List.mem_singleton.mp new) ▸ proper
  · rw [List.map_append, List.getLast?_append]
    rfl

/-- An end of file at the start of a line is released, and elsewhere it is ignored. -/
theorem end_of_file_agrees (agrees : Agrees t e) (whole : Whole .cooked t'.toInput)
    (enabled : EndsFile t ch) (did : endOfFile t ch = some t') :
    Agrees t' (if e.line = [] then { e with released := e.released ++ [.endOfFile] } else e) := by
  have echoes := echoed_echoes t ch
  have stored := congrArg Input.stored echoes.input
  have taken := congrArg Input.taken echoes.input
  have cursor := congrArg Input.tyicursor echoes.input
  have start : t.tyicursor = 0 ↔ e.line = [] := by rw [agrees.cursor, List.length_eq_zero_iff]
  unfold endOfFile at did
  split_ifs at did with inside
  · obtain rfl := Option.some.inj did
    rw [if_neg fun none_ => inside (start.mpr none_)]
    exact line_agrees agrees echoes.options whole (stored.trans agrees.stored)
      (cursor.trans agrees.cursor) taken agrees.proper_line
  · have none_ := start.mp (not_not.mp inside)
    obtain ⟨d, deposits, rfl⟩ := Option.map_eq_some_iff.mp did
    obtain ⟨-, -, rfl⟩ := deposit_eq deposits
    rw [if_pos none_]
    have released : { e with released := e.released ++ [.endOfFile] } =
        ({ e with released := e.released ++ [.endOfFile], line := [] } : Editor) := by
      rw [← none_]
    rw [released]
    refine @release_agrees _ _ _ agrees _ .endOfFile echoes.options whole ?_ ?_ taken ?_
      (.singleton _) rfl trivial
    · dsimp only
      rw [stored, agrees.stored, none_, List.append_nil, List.map_append, enabled.1]
      rfl
    · exact cursor.trans (not_not.mp inside)
    · intro item new
      rw [List.mem_singleton.mp new]
      exact enabled.2

end Core

section Arrivals

variable {t t' : Ttycblk} {e : Editor} {ch : Int8}

theorem edit_eq (t : Ttycblk) (e : Editor) (ch : Int8) :
    e.edit t.toOptions ch =
      if Kills t ch then { e with line := [] }
      else if Erases t ch then { e with line := e.line.dropLast }
      else if Ends ch then
        if tyIbuflen ≤ e.unread + e.line.length then e
        else { e with released := e.released ++ (e.line ++ [ch]).map .char, line := [] }
      else if tyIbuflen - 1 ≤ e.unread + e.line.length then e
      else if EndsFile t ch then
        if e.line = [] then { e with released := e.released ++ [.endOfFile] } else e
      else { e with line := e.line ++ [ch] } := rfl

/-- A kill takes the unfinished line out of the queue. -/
theorem kill_agrees (agrees : Agrees t e) (whole : Whole .cooked (lineKill t).toInput) :
    Agrees (lineKill t) { e with line := [] } := by
  refine line_agrees agrees rfl whole ?_ rfl rfl fun _ none_ => absurd none_ List.not_mem_nil
  show t.stored.take (t.stored.length - t.tyicursor) = _
  rw [agrees.stored, agrees.cursor, List.length_append, Nat.add_sub_cancel, List.take_left,
    List.append_nil]

/-- An erase takes the last character of the unfinished line out of the queue. -/
theorem erase_agrees (agrees : Agrees t e) (some_line : 0 < t.tyicursor)
    (whole : Whole .cooked (erase1 { t with tyicursor := t.tyicursor - 1 }).toInput) :
    Agrees (erase1 { t with tyicursor := t.tyicursor - 1 }) { e with line := e.line.dropLast } := by
  have echoes := erase_echo_echoes (takeBack { t with tyicursor := t.tyicursor - 1 })
  have input := echoes.input
  have nonempty : e.line ≠ [] := List.length_pos_iff.mp (agrees.cursor ▸ some_line)
  refine line_agrees agrees echoes.options whole ?_ ?_ ?_ fun c inside =>
    agrees.proper_line c (List.dropLast_subset _ inside)
  · refine (congrArg Input.stored input).trans ?_
    show t.stored.dropLast = _
    rw [agrees.stored, List.dropLast_append_of_ne_nil nonempty]
  · refine (congrArg Input.tyicursor input).trans ?_
    show t.tyicursor - 1 = _
    rw [agrees.cursor, List.length_dropLast]
  · exact (congrArg Input.taken input).trans rfl

/-- One character of cooked mode does to the queue what it does to the editor. -/
theorem edit_agrees (agrees : Agrees t e) (fits : FitsEditor t ch)
    (did : handleCooked t ch = some t') : Agrees t' (e.edit t.toOptions ch) := by
  obtain ⟨head, tail, n, inv⟩ := agrees.whole
  have whole := cooked_inv agrees.cooked inv (fits_line fits) did
  have unread := unread_avail agrees
  have cursor := agrees.cursor
  have size : tyIbuflen = 128 := rfl
  unfold handleCooked at did
  unfold FitsEditor at fits
  rw [edit_eq]
  split_ifs at did fits with kills erases some_line ends full eof
  · obtain rfl := Option.some.inj did
    rw [if_pos kills]
    exact kill_agrees agrees whole
  · obtain rfl := Option.some.inj did
    rw [if_neg kills, if_pos erases]
    exact erase_agrees agrees some_line whole
  · obtain rfl := Option.some.inj did
    rw [if_neg kills, if_pos erases]
    have none_ : e.line = [] := List.length_eq_zero_iff.mp (by omega)
    have same : { e with line := e.line.dropLast } = e := by
      rw [none_]
      exact (congrArg (fun line => { e with line := line }) none_).symm
    rw [same]
    exact agrees
  · have room := fits.1
    unfold Room at room
    rw [if_neg kills, if_neg erases, if_pos ends, if_neg (by omega)]
    have plain : ch.toInt ≠ eof := by
      rcases ends with rfl | rfl <;> decide
    exact line_end_agrees agrees whole ⟨fits.2, plain⟩ ends did
  · obtain rfl := Option.some.inj did
    have echoes := eputc_echoes t t.tyifullc
    rw [if_neg kills, if_neg erases, if_neg ends, if_pos (by omega)]
    exact line_agrees agrees echoes.options whole agrees.stored cursor rfl agrees.proper_line
  · rw [if_neg kills, if_neg erases, if_neg ends]
    have ended := end_of_file_agrees agrees whole eof did
    by_cases start : e.line = []
    · have room := (fits (by rw [cursor, start]; rfl)).1
      unfold RoomForEnd at room
      rw [if_neg (by omega), if_pos eof]
      exact ended
    · rw [if_neg start] at ended
      split_ifs <;> exact ended
  · have room := fits.1
    unfold RoomForEnd at room
    rw [if_neg kills, if_neg erases, if_neg ends, if_neg (by omega), if_neg eof]
    exact insert_agrees agrees whole ⟨eof, fits.2⟩ did

theorem agrees_of_frame (agrees : Agrees t e) (input : t'.toInput = t.toInput)
    (options : t'.toOptions = t.toOptions) : Agrees t' e :=
  line_agrees agrees options (input ▸ agrees.whole)
    ((congrArg Input.stored input).trans agrees.stored)
    ((congrArg Input.tyicursor input).trans agrees.cursor) (congrArg Input.taken input)
    agrees.proper_line

theorem arrives_agrees (agrees : Agrees t e)
    (fits : ¬FlowControl t (mapped t ch) → FitsEditor t (mapped t ch))
    (did : ttyhandleIn t ch = some t') : Agrees t' (e.arrives t.toOptions ch) := by
  have raw : ¬t.tyimode = .raw := by simp [agrees.cooked]
  have cbreak : ¬t.tyimode = .cbreak := by simp [agrees.cooked]
  rw [ttyhandleIn, if_neg raw] at did
  show Agrees t' (if FlowControl t (mapped t ch) then e else e.edit t.toOptions (mapped t ch))
  split_ifs at did ⊢ with flow
  · obtain rfl := Option.some.inj did
    refine agrees_of_frame agrees ?_ ?_
    · unfold flowControl
      split_ifs <;> rfl
    · unfold flowControl
      split_ifs <;> rfl
  · have held : Agrees { t with tyoheld := false } e := agrees_of_frame agrees rfl rfl
    exact @edit_agrees { t with tyoheld := false } t' e _ held (fits flow) did

end Arrivals

section Readers

variable {t : Ttycblk} {e : Editor} {pid : Int}

/-- The character that a process reads is the one of the next item. -/
theorem next_item (agrees : Agrees t e) (passed : pid ∈ t.tyisem.passed) :
    e.released[e.read]? = some e.next ∧
      t.tyibuff t.tyihead = storedChar t.toOptions e.next := by
  obtain ⟨head, tail, n, inv⟩ := agrees.whole
  have positive := List.length_pos_of_mem passed
  have sound := inv.sound
  have level := inv.level
  have cursor := agrees.cursor
  have taken := agrees.taken
  have lengths := congrArg List.length agrees.stored
  have ordered := inv.fifo.lengths
  rw [List.length_append, List.length_map] at lengths
  unfold Semaphore.Sound at sound
  unfold Semaphore.level at level
  obtain ⟨rest, rfl⟩ : ∃ rest, n = rest + 1 := ⟨n - 1, by omega⟩
  have inside : e.read < e.released.length := by omega
  have there : e.released[e.read]? = some e.next := by
    rw [Editor.next, List.getD_eq_getElem _ _ inside, List.getElem?_eq_getElem inside]
  refine ⟨there, ?_⟩
  have order := inv.fifo.order
  rw [elements_pop inv.fifo.inside, agrees.stored] at order
  have at_ := congrArg (fun chars => chars[e.read]?) order
  rw [List.getElem?_append_left (by rwa [List.length_map]), List.getElem?_map, there,
    List.getElem?_append_right (by omega), taken, Nat.sub_self] at at_
  rw [inv.head_eq]
  exact (Option.some.inj at_).symm

theorem next_proper (agrees : Agrees t e) (passed : pid ∈ t.tyisem.passed) :
    Proper t.toOptions e.next :=
  agrees.proper e.next (List.mem_of_getElem? (next_item agrees passed).1)

/-- `ttygetc` returns the value of the next item. -/
theorem extract_value (agrees : Agrees t e) (passed : pid ∈ t.tyisem.passed) :
    (extract t pid).2 = e.next.value := by
  have proper := next_proper agrees passed
  obtain ⟨-, char⟩ := next_item agrees passed
  show (if t.tyimode = .cooked ∧ t.tyeof = true ∧ t.tyibuff t.tyihead = t.tyeofch then eof
    else (t.tyibuff t.tyihead).toInt) = _
  rw [char]
  cases item : e.next with
  | char ch =>
      rw [item] at proper
      exact if_neg fun same => proper.1 ⟨same.2.2, same.2.1⟩
  | endOfFile =>
      rw [item] at proper
      exact if_pos ⟨agrees.cooked, proper, rfl⟩

theorem extract_agrees (agrees : Agrees t e) (passed : pid ∈ t.tyisem.passed) :
    Agrees (extract t pid).1 e.takes := by
  obtain ⟨head, tail, n, inv⟩ := agrees.whole
  exact ⟨agrees.cooked, read_inv inv passed, agrees.stored, agrees.cursor,
    List.length_append.trans (congrArg (· + 1) agrees.taken), agrees.proper, agrees.proper_line,
    agrees.starts, agrees.closed⟩

theorem wait_agrees (agrees : Agrees t e) (pid : Int) :
    Agrees { t with tyisem := t.tyisem.wait pid } e := by
  obtain ⟨head, tail, n, inv⟩ := agrees.whole
  exact ⟨agrees.cooked, ⟨head, tail, n, wait_inv inv pid⟩, agrees.stored, agrees.cursor,
    agrees.taken, agrees.proper, agrees.proper_line, agrees.starts, agrees.closed⟩

/-- A process that is not blocked is behind its `wait`. -/
theorem wait_passed (t : Ttycblk) (pid : Int) (free : ¬(t.tyisem.wait pid).count < 0) :
    pid ∈ (t.tyisem.wait pid).passed := by
  have enough : ¬t.tyisem.count - 1 < 0 := by
    intro few
    rw [Semaphore.wait, if_pos few] at free
    exact free few
  rw [Semaphore.wait, if_neg enough]
  exact List.mem_append_right _ (List.mem_singleton_self pid)

end Readers

section Loops

variable {m : Machine} {pid : Int}

/-- What a call of `ttyread` has read, when it waits for one more character -/
structure Partial (count : Int) (left : Nat) (buff : List Int8) (items : List Item) : Prop where
  items_eq : items = buff.map .char
  inside : ∀ ch ∈ buff, ¬Ends ch
  length : buff.length + 1 + left = max 1 count.toNat

/-- What holds of a machine, the calls under way included -/
structure Good (m : Machine) : Prop where
  agrees : Agrees m.tty m.editor
  delivered : m.delivered = (m.editor.released.take m.editor.read).map Item.value
  answers : ∀ d ∈ m.answers, Right d
  reading : ∀ pid count left buff items, m.reading pid = some (.more count left buff items) →
    Partial count left buff items

theorem waits_good (good : Good m) (pid : Int) : Good (waits m pid) :=
  ⟨wait_agrees good.agrees pid, good.delivered, good.answers, good.reading⟩

theorem getchar_good (good : Good m) (passed : pid ∈ m.tty.tyisem.passed) :
    Good (getchar m pid).1 := by
  refine ⟨extract_agrees good.agrees passed, ?_, good.answers, good.reading⟩
  show m.delivered ++ [(extract m.tty pid).2] =
    (m.editor.released.take (m.editor.read + 1)).map Item.value
  rw [List.take_add_one, (next_item good.agrees passed).1, List.map_append, ← good.delivered,
    extract_value good.agrees passed]
  rfl

theorem getchar_value (good : Good m) (passed : pid ∈ m.tty.tyisem.passed) :
    (getchar m pid).2 = m.editor.next.value := extract_value good.agrees passed

theorem update_reading (good : Good m) {reading : Option Reading}
    (begun : ∀ count left buff items, reading = some (.more count left buff items) →
      Partial count left buff items) (other count : Int) (left : Nat) (buff : List Int8)
    (items : List Item)
    (has : Function.update m.reading pid reading other = some (.more count left buff items)) :
    Partial count left buff items := by
  by_cases same : other = pid
  · rw [same, Function.update_self] at has
    exact begun count left buff items has
  · rw [Function.update_of_ne same] at has
    exact good.reading other count left buff items has

theorem finish_good (good : Good m) {request : Request} {items : List Item} {answer : Answer}
    (right : Right ⟨request, items, answer⟩) : Good (finish m pid request items answer) := by
  refine ⟨good.agrees, good.delivered, fun d among => ?_, ?_⟩
  · rcases List.mem_append.mp among with before | new
    · exact good.answers d before
    · exact (List.mem_singleton.mp new) ▸ right
  · exact update_reading good fun _ _ _ _ none_ => by cases none_

theorem blocks_good (good : Good m) {reading : Reading}
    (begun : ∀ count left buff items, reading = .more count left buff items →
      Partial count left buff items) : Good (blocks m pid reading) :=
  ⟨good.agrees, good.delivered, good.answers,
    update_reading good fun count left buff items same =>
      begun count left buff items (Option.some.inj same)⟩

/-- The next item is a character where the one before it does not end its line. -/
def Inside (e : Editor) : Prop :=
  ∃ ch, 0 < e.read ∧ e.released[e.read - 1]? = some (.char ch) ∧ ¬Ends ch

theorem inside_next (good : Good m) (passed : pid ∈ m.tty.tyisem.passed)
    (inside : Inside m.editor) : m.editor.next ≠ .endOfFile := by
  intro last
  obtain ⟨ch, positive, before, goes⟩ := inside
  have here := (next_item good.agrees passed).1
  obtain ⟨read, same⟩ : ∃ read, m.editor.read = read + 1 := ⟨m.editor.read - 1, by omega⟩
  rw [same, Nat.add_sub_cancel] at before
  rw [same, last] at here
  obtain ⟨first, there⟩ := List.getElem?_eq_some_iff.mp before
  obtain ⟨second, here⟩ := List.getElem?_eq_some_iff.mp here
  have closes := List.isChain_iff_getElem.mp good.agrees.starts read second here
  rw [there] at closes
  exact goes closes

/-- One more character ends the call, or the call goes on with it. -/
theorem read_char_good {next : List Int8 → List Item → Machine → Machine} {count : Int}
    {left : Nat} {buff : List Int8} {items : List Item} (good : Good m)
    (passed : pid ∈ m.tty.tyisem.passed) (begun : Partial count left buff items)
    (char : m.editor.next ≠ .endOfFile)
    (goes : ∀ buff' items' m', Good m' → items' = buff'.map .char → (∀ ch ∈ buff', ¬Ends ch) →
      buff'.length + left = max 1 count.toNat → Inside m'.editor → Good (next buff' items' m')) :
    Good (readChar next pid count buff items m) := by
  obtain ⟨ch, item⟩ : ∃ ch, m.editor.next = .char ch := by
    cases item : m.editor.next with
    | char ch => exact ⟨ch, rfl⟩
    | endOfFile => exact absurd item char
  have value : Int8.ofInt (getchar m pid).2 = ch := by
    rw [getchar_value good passed, item]
    exact Int8.ofInt_toInt ch
  have items_eq : items ++ [m.editor.next] = (buff ++ [ch]).map .char := by
    rw [begun.items_eq, item, List.map_append]
    rfl
  have length : (buff ++ [ch]).length = buff.length + 1 := List.length_append
  have bound := begun.length
  unfold readChar
  dsimp only
  rw [value, items_eq]
  split_ifs with ends
  · refine finish_good (getchar_good good passed) (.inr (.inr ⟨buff ++ [ch], rfl, rfl, ?_⟩))
    refine ⟨?_, List.append_ne_nil_of_right_ne_nil _ (List.cons_ne_nil _ _), by omega,
      .inr ⟨ch, by rw [List.getLast?_append]; rfl, ends⟩⟩
    rw [List.dropLast_concat]
    exact begun.inside
  · refine goes _ _ _ (getchar_good good passed) rfl ?_ (by omega) ⟨ch, Nat.succ_pos _, ?_, ends⟩
    · intro c among
      rcases List.mem_append.mp among with before | new
      · exact begun.inside c before
      · exact (List.mem_singleton.mp new) ▸ ends
    · show m.editor.released[m.editor.read + 1 - 1]? = _
      rw [Nat.add_sub_cancel, (next_item good.agrees passed).1, item]

/-- The loop of `ttyread` behind a character that does not end the line -/
theorem read_chars_good (pid count : Int) (left : Nat) (buff : List Int8) (items : List Item)
    (m : Machine) (good : Good m) (items_eq : items = buff.map .char)
    (inside : ∀ ch ∈ buff, ¬Ends ch) (length : buff.length + left = max 1 count.toNat)
    (begun : Inside m.editor) : Good (readChars pid count left buff items m) := by
  induction left generalizing buff items m with
  | zero =>
      refine finish_good good (.inr (.inr ⟨buff, items_eq, rfl, ?_⟩))
      have positive : 0 < buff.length := by omega
      exact ⟨fun ch among => inside ch (List.dropLast_subset _ among),
        List.length_pos_iff.mp positive, by omega, .inl (by omega)⟩
  | succ left induction =>
      have waiting := waits_good good pid
      have more : Partial count left buff items := ⟨items_eq, inside, by omega⟩
      unfold readChars
      split_ifs with blocked
      · refine blocks_good waiting fun count left buff items same => ?_
        cases same
        exact more
      · have passed := wait_passed m.tty pid blocked
        exact read_char_good waiting passed more (inside_next waiting passed begun) induction

theorem first_begun (count : Int) : Partial count (count - 1).toNat [] [] := by
  refine ⟨rfl, fun ch none_ => absurd none_ List.not_mem_nil, ?_⟩
  rw [List.length_nil]
  omega

/-- A process that was granted a character goes on. -/
theorem goes_good (good : Good m) (passed : pid ∈ m.tty.tyisem.passed) {reading : Reading}
    (begun : ∀ count left buff items, reading = .more count left buff items →
      Partial count left buff items ∧ m.editor.next ≠ .endOfFile) :
    Good (goes m pid reading) := by
  have value := getchar_value good passed
  cases reading with
  | getc =>
      refine finish_good (getchar_good good passed) ⟨m.editor.next, rfl, ?_⟩
      rw [value]
  | first count =>
      have proper := next_proper good.agrees passed
      unfold goes
      split_ifs with ends
      · rw [value] at ends
        have last : m.editor.next = .endOfFile := by
          cases item : m.editor.next with
          | char ch =>
              rw [item] at proper ends
              exact absurd ends proper.2
          | endOfFile => rfl
        rw [last]
        exact finish_good (getchar_good good passed) (.inr (.inl ⟨rfl, rfl⟩))
      · refine read_char_good good passed (first_begun count) ?_ (read_chars_good pid count _)
        intro last
        rw [value, last] at ends
        exact ends rfl
  | more count left buff items =>
      obtain ⟨more, char⟩ := begun count left buff items rfl
      exact read_char_good good passed more char (read_chars_good pid count left)

end Loops

section Results

variable {m m' : Machine} {pid : Int}

theorem begins_good (good : Good m) {reading : Reading}
    (fresh : ∀ count left buff items, reading ≠ .more count left buff items) :
    Good (begins m pid reading) := by
  have waiting := waits_good good pid
  unfold begins
  split_ifs with blocked
  · exact blocks_good waiting fun count left buff items same =>
      absurd same (fresh count left buff items)
  · exact goes_good waiting (wait_passed m.tty pid blocked) fun count left buff items same =>
      absurd same (fresh count left buff items)

theorem call_good (good : Good m) (request : Request) : Good (call m pid request) := by
  cases request with
  | getc => exact begins_good good nofun
  | read count =>
      unfold call
      dsimp only
      split_ifs with negative
      · exact finish_good good (.inl ⟨negative, rfl, rfl⟩)
      · exact begins_good good nofun

/-- The output does not come near the input. -/
theorem frame_good (good : Good m) {t : Ttycblk} (input : t.toInput = m.tty.toInput)
    (options : t.toOptions = m.tty.toOptions) : Good { m with tty := t } :=
  ⟨agrees_of_frame good.agrees input options, good.delivered, good.answers, good.reading⟩

theorem edit_released (o : Options) (e : Editor) (ch : Int8) :
    (e.edit o ch).read = e.read ∧ e.released <+: (e.edit o ch).released := by
  fun_cases Editor.edit o e ch with
  | case4 => exact ⟨rfl, List.prefix_append _ _⟩
  | case6 => exact ⟨rfl, List.prefix_append _ _⟩
  | _ => exact ⟨rfl, List.prefix_rfl⟩

theorem arrives_released (o : Options) (e : Editor) (ch : Int8) :
    (e.arrives o ch).read = e.read ∧ e.released <+: (e.arrives o ch).released := by
  unfold Editor.arrives
  dsimp only
  generalize (if ch = tyReturn ∧ o.tyicrlf = true then tyNewline else ch) = ch
  split_ifs with flow
  · exact ⟨rfl, List.prefix_rfl⟩
  · exact edit_released o e ch

theorem act_good {event : Event} (good : Good m) (fits : Fits m event)
    (did : act m event = some m') : Good m' := by
  cases event with
  | arrives ch =>
      obtain ⟨t, handled, rfl⟩ := Option.map_eq_some_iff.mp did
      obtain ⟨read, rest, released⟩ := arrives_released m.tty.toOptions m.editor ch
      have inside := (unread_level good.agrees).2
      refine ⟨arrives_agrees good.agrees fits handled, ?_, good.answers, good.reading⟩
      show m.delivered = _
      rw [read, ← released, List.take_append_of_le_length (by omega)]
      exact good.delivered
  | calls pid request =>
      simp only [act] at did
      split_ifs at did
      obtain rfl := Option.some.inj did
      exact call_good good request
  | runs pid =>
      simp only [act] at did
      split_ifs at did with passed
      obtain ⟨reading, waits, rfl⟩ := Option.map_eq_some_iff.mp did
      refine goes_good good passed fun count left buff items same => ?_
      subst same
      refine ⟨good.reading pid count left buff items waits, fun last => ?_⟩
      have character := (next_item good.agrees passed).2
      have proper := next_proper good.agrees passed
      rw [last] at character proper
      have plain : FitsReading m.tty (m.reading pid) := fits
      rw [waits] at plain
      exact plain ⟨character, proper⟩
  | putc pid ch =>
      obtain ⟨t, puts, rfl⟩ := Option.map_eq_some_iff.mp did
      simp only [Line.act] at puts
      split_ifs at puts
      obtain rfl := Option.some.inj puts
      have frame := put_chars_frame pid
        (if ch = tyNewline ∧ m.tty.tyocrlf = true then [tyReturn, ch] else [ch]) m.tty
      exact frame_good good frame.1 frame.2
  | writes pid =>
      obtain ⟨t, goes, rfl⟩ := Option.map_eq_some_iff.mp did
      simp only [Line.act] at goes
      split_ifs at goes
      obtain rfl := Option.some.inj goes
      exact frame_good good (goes_on_frame m.tty pid).1 (goes_on_frame m.tty pid).2
  | interrupt =>
      obtain rfl := Option.some.inj did
      exact frame_good good (handle_out_frame m.tty).1 (handle_out_frame m.tty).2

theorem started_good (started : Started m) : Good m := by
  obtain ⟨head, tail, n, inv⟩ := Input.started_good started.tty
  have editor := started.editor
  obtain ⟨options, tyibuff, tyobuff, tyebuff, same⟩ := started.tty
  refine ⟨?_, ?_, ?_, ?_⟩
  · rw [editor]
    refine ⟨started.cooked, ⟨head, tail, n, started.cooked ▸ inv⟩, ?_, ?_, ?_,
      fun _ none_ => absurd none_ List.not_mem_nil, fun _ none_ => absurd none_ List.not_mem_nil,
      .nil, fun _ none_ => by cases none_⟩
    · rw [same]
      rfl
    · rw [same]
      rfl
    · rw [same]
      rfl
  · rw [started.delivered, editor]
    rfl
  · rw [started.answers]
    exact fun _ none_ => absurd none_ List.not_mem_nil
  · intro pid count left buff items has
    rw [started.reading pid] at has
    cases has

theorem good_matches (good : Good m) : Matches m := by
  refine ⟨good.delivered, good.answers, fun waiting => ?_⟩
  obtain ⟨head, tail, n, inv⟩ := good.agrees.whole
  have unread := unread_avail good.agrees
  have sound := inv.sound
  have positive : 0 < m.tty.tyisem.queue.length := List.length_pos_iff.mpr waiting
  unfold Semaphore.Sound at sound
  unfold avail at unread
  rw [if_pos (by omega)] at unread
  omega

/-- In a run in which each character finds the queue as the editor has it, the calls return what the
editor releases. -/
theorem cooked_input_matches {m : Machine} (run : Reached act Started Fits m) : Matches m :=
  good_matches (reached_invariant run (fun _ => started_good) fun _ _ _ => act_good)

instance (m : Ttycblk) : DecidablePred (FitsEditor m) := fun ch => by
  unfold FitsEditor
  infer_instance

instance (m : Ttycblk) : DecidablePred (FitsReading m) := fun reading => by
  unfold FitsReading
  split <;> infer_instance

instance (m : Machine) : DecidablePred (Fits m) := fun event => by
  cases event with
  | arrives ch => exact inferInstanceAs (Decidable (_ → _))
  | calls pid request => exact .isTrue trivial
  | runs pid => exact inferInstanceAs (Decidable (FitsReading _ _))
  | putc pid ch => exact .isTrue trivial
  | writes pid => exact .isTrue trivial
  | interrupt => exact .isTrue trivial

def console : Machine where
  tty := fresh .cooked
  editor := ⟨[], [], 0⟩
  reading := fun _ => none
  delivered := []
  answers := []

theorem console_started : Started console :=
  ⟨fresh_started _, rfl, rfl, fun _ => rfl, rfl, rfl⟩

/-- Two processes wait, and each of them gets a part of the line. -/
theorem cooked_input_matches_line :
    ∃ m, takeEvents act Fits [.calls 5 (.read 1), .calls 6 (.read 9), .arrives 97, .arrives 98,
      .arrives 8, .arrives 99, .arrives 13, .runs 5, .runs 6] console = some m ∧ Matches m := by
  obtain ⟨m, took⟩ := Option.isSome_iff_exists.mp (show (takeEvents act Fits
    [.calls 5 (.read 1), .calls 6 (.read 9), .arrives 97, .arrives 98, .arrives 8, .arrives 99,
      .arrives 13, .runs 5, .runs 6] console).isSome = true by decide)
  exact ⟨m, took, cooked_input_matches (take_events (.start console_started) took)⟩

/-- Fifty empty lines are read, a line of 61 characters is in the queue, and a line that goes over
the end of the buffer is killed: the next character that is read comes from behind the buffer. -/
def killedLine : List Event :=
  List.replicate 50 (.arrives 10) ++ List.replicate 50 (.calls 5 .getc) ++
    List.replicate 60 (.arrives 97) ++ [.arrives 10] ++ List.replicate 30 (.arrives 98) ++
    [.arrives 21, .calls 5 .getc]

theorem killed_line_spoils_another :
    ¬∀ m, Reached act Started (fun _ _ => True) m → Matches m := by
  intro always
  have ends : (takeEvents act (fun _ _ => True) killedLine console).any (fun m =>
      decide (m.delivered ≠ (m.editor.released.take m.editor.read).map Item.value)) = true := by
    decide +kernel
  obtain ⟨m, reached, differs⟩ := take_events_end (.start console_started) ends
  exact differs (always m reached).delivered

end Results

end Xinu.Tty.Cooked
