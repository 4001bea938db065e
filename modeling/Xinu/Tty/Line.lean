import Xinu.Lib.Interleaving
import Xinu.Lib.Ring
import Xinu.Lib.Semaphores
import Mathlib.Logic.Function.Basic

/-!
# Terminal lines

The control block of a serial line, with `ttyhandle_in` and `ttyhandle_out` of its interrupt handler
and with `ttygetc` and `ttyputc` of the processes that use it. Interrupts are disabled in all of
them, so that a process gives way only where it is blocked on a semaphore.
-/

namespace Xinu.Tty.Line

open Xinu.Lib.Ring Xinu.Lib.Semaphores

set_option autoImplicit false

section Definitions

def tyEbuflen : Nat := 20
def tyIbuflen : Nat := 128
def tyObuflen : Nat := 64
def uartFifoSize : Nat := 16

def tyBacksp : Int8 := 8
def tyBlank : Int8 := 32
def tyNewline : Int8 := 10
def tyReturn : Int8 := 13
def tyUparrow : Int8 := 94

def eof : Int := -2

def uartIerErbfi : UInt8 := 1
def uartIerEtbei : UInt8 := 2

inductive InputMode where
  | raw
  | cooked
  | cbreak
  deriving DecidableEq

structure Options where
  tyimode : InputMode
  tyiecho : Bool
  tyieback : Bool
  tyevis : Bool
  tyecrlf : Bool
  tyicrlf : Bool
  tyierase : Bool
  tyierasec : Int8
  tyeof : Bool
  tyeofch : Int8
  tyikill : Bool
  tyikillc : Int8
  tyoflow : Bool
  tyostop : Int8
  tyostart : Int8
  tyocrlf : Bool
  tyifullc : Int8

/-- The input queue. A pointer into `tyibuff` is its distance from the first character, and may be
outside. `stored` has what was put into the queue and not erased, `taken` what was read. -/
structure Input where
  tyihead : Int
  tyitail : Int
  tyibuff : Int → Int8
  tyisem : Semaphore Int
  tyicursor : Nat
  stored : List Int8
  taken : List Int8

/-- The output queue, with what the processes in `ttyputc` have still to put. `put` has what was put
into the queue, `sent` what the interrupt handler took from it. -/
structure Output where
  tyohead : Nat
  tyotail : Nat
  tyobuff : Nat → Int8
  tyosem : Semaphore Int
  writing : Int → List Int8
  put : List Int8
  sent : List Int8

/-- The echo queue, and the UART with the characters that it was given. -/
structure Echo where
  tyehead : Nat
  tyetail : Nat
  tyebuff : Nat → Int8
  tyoheld : Bool
  ier : UInt8
  buffer : List Int8

structure Ttycblk extends Input, Output, Echo, Options

def ttykickout (m : Ttycblk) : Ttycblk := { m with ier := uartIerErbfi ||| uartIerEtbei }

def eputc (m : Ttycblk) (ch : Int8) : Ttycblk :=
  ttykickout
    { m with
      tyebuff := Function.update m.tyebuff m.tyetail ch
      tyetail := advance tyEbuflen m.tyetail }

def Nonprintable (ch : Int8) : Prop := ch < tyBlank ∨ ch = 127

instance : DecidablePred Nonprintable := fun _ => inferInstanceAs (Decidable (_ ∨ _))

def Ends (ch : Int8) : Prop := ch = tyNewline ∨ ch = tyReturn

instance : DecidablePred Ends := fun _ => inferInstanceAs (Decidable (_ ∨ _))

def echoch (m : Ttycblk) (ch : Int8) : Ttycblk :=
  if Ends ch ∧ m.tyecrlf = true then eputc (eputc m tyReturn) tyNewline
  else if Nonprintable ch ∧ m.tyevis = true then eputc (eputc m tyUparrow) (ch + 64)
  else eputc m ch

def echoed (m : Ttycblk) (ch : Int8) : Ttycblk := if m.tyiecho = true then echoch m ch else m

/-- The characters with which one that is echoed goes away. -/
def backspace (m : Ttycblk) : Ttycblk :=
  let m := eputc m tyBacksp
  if m.tyieback = true then eputc (eputc m tyBlank) tyBacksp else m

def takeBack (m : Ttycblk) : Ttycblk :=
  { m with
    tyitail := if m.tyitail - 1 < 0 then m.tyitail - 1 + tyIbuflen else m.tyitail - 1
    stored := m.stored.dropLast }

/-- The part of `erase1` behind the step backward of `tyitail` -/
def eraseEcho (m : Ttycblk) : Ttycblk :=
  if m.tyiecho = true then
    if Nonprintable (m.tyibuff m.tyitail) then
      backspace (if m.tyevis = true then backspace m else m)
    else backspace m
  else m

def erase1 (m : Ttycblk) : Ttycblk := eraseEcho (takeBack m)

/-- `*typtr->tyitail++ = ch`. A character that is stored outside `tyibuff` hits other fields, and
what comes then is not followed. -/
def deposit (m : Ttycblk) (ch : Int8) : Option Ttycblk :=
  if 0 ≤ m.tyitail ∧ m.tyitail < tyIbuflen then
    some
      { m with
        tyibuff := Function.update m.tyibuff m.tyitail ch
        tyitail := m.tyitail + 1
        stored := m.stored ++ [ch] }
  else none

def wrapTail (m : Ttycblk) : Ttycblk :=
  if tyIbuflen ≤ m.tyitail then { m with tyitail := 0 } else m

/-- `semcount(typtr->tyisem)`, and 0 when processes are waiting -/
def avail (m : Ttycblk) : Int := if m.tyisem.count < 0 then 0 else m.tyisem.count

def handleRaw (m : Ttycblk) (ch : Int8) : Option Ttycblk :=
  if tyIbuflen ≤ avail m then some m
  else
    (deposit m ch).map fun m =>
      -- it is `tyotail` that the source wraps here
      { m with
        tyotail := if tyObuflen ≤ m.tyotail then 0 else m.tyotail
        tyisem := m.tyisem.signal }

def handleCbreak (m : Ttycblk) (ch : Int8) : Option Ttycblk :=
  if tyIbuflen ≤ avail m then some (eputc m m.tyifullc)
  else (deposit m ch).map fun m => echoed (wrapTail m) ch

def Kills (m : Ttycblk) (ch : Int8) : Prop := ch = m.tyikillc ∧ m.tyikill = true

instance (m : Ttycblk) : DecidablePred (Kills m) := fun _ => inferInstanceAs (Decidable (_ ∧ _))

def Erases (m : Ttycblk) (ch : Int8) : Prop := ch = m.tyierasec ∧ m.tyierase = true

instance (m : Ttycblk) : DecidablePred (Erases m) := fun _ => inferInstanceAs (Decidable (_ ∧ _))

def EndsFile (m : Ttycblk) (ch : Int8) : Prop := ch = m.tyeofch ∧ m.tyeof = true

instance (m : Ttycblk) : DecidablePred (EndsFile m) := fun _ =>
  inferInstanceAs (Decidable (_ ∧ _))

def lineKill (m : Ttycblk) : Ttycblk :=
  let back := m.tyitail - m.tyicursor
  eputc
    (eputc
      { m with
        tyitail := back
        tyihead := if back < 0 then m.tyihead + tyIbuflen else m.tyihead
        tyicursor := 0
        stored := m.stored.take (m.stored.length - m.tyicursor) }
      tyReturn)
    tyNewline

def lineEnd (m : Ttycblk) (ch : Int8) : Option Ttycblk :=
  (deposit (echoed m ch) ch).map fun m =>
    { wrapTail m with tyisem := m.tyisem.signaln (m.tyicursor + 1), tyicursor := 0 }

def endOfFile (m : Ttycblk) (ch : Int8) : Option Ttycblk :=
  if m.tyicursor ≠ 0 then some (echoed m ch)
  else (deposit (echoed m ch) ch).map fun m => { m with tyisem := m.tyisem.signal }

def insertChar (m : Ttycblk) (ch : Int8) : Option Ttycblk :=
  (deposit { echoed m ch with tyicursor := m.tyicursor + 1 } ch).map wrapTail

def handleCooked (m : Ttycblk) (ch : Int8) : Option Ttycblk :=
  if Kills m ch then some (lineKill m)
  else if Erases m ch then
    some (if 0 < m.tyicursor then erase1 { m with tyicursor := m.tyicursor - 1 } else m)
  else if Ends ch then lineEnd m ch
  else if (tyIbuflen : Int) - 1 ≤ avail m + m.tyicursor then some (eputc m m.tyifullc)
  else if EndsFile m ch then endOfFile m ch
  else insertChar m ch

/-- The character for which `TY_RETURN` stands -/
def mapped (m : Ttycblk) (ch : Int8) : Int8 :=
  if ch = tyReturn ∧ m.tyicrlf = true then tyNewline else ch

def FlowControl (m : Ttycblk) (ch : Int8) : Prop :=
  m.tyoflow = true ∧ (ch = m.tyostart ∨ ch = m.tyostop)

instance (m : Ttycblk) : DecidablePred (FlowControl m) := fun _ =>
  inferInstanceAs (Decidable (_ ∧ _))

def flowControl (m : Ttycblk) (ch : Int8) : Ttycblk :=
  if ch = m.tyostart then ttykickout { m with tyoheld := false } else { m with tyoheld := true }

def ttyhandleIn (m : Ttycblk) (ch : Int8) : Option Ttycblk :=
  if m.tyimode = .raw then handleRaw m ch
  else if FlowControl m (mapped m ch) then some (flowControl m (mapped m ch))
  else if m.tyimode = .cbreak then handleCbreak { m with tyoheld := false } (mapped m ch)
  else handleCooked { m with tyoheld := false } (mapped m ch)

/-- `ttygetc` behind its `wait`, with what it returns -/
def extract (m : Ttycblk) (pid : Int) : Ttycblk × Int :=
  let ch := m.tyibuff m.tyihead
  ({ m with
      tyisem := m.tyisem.run pid
      tyihead := if tyIbuflen ≤ m.tyihead + 1 then 0 else m.tyihead + 1
      taken := m.taken ++ [ch] },
    if m.tyimode = .cooked ∧ m.tyeof = true ∧ ch = m.tyeofch then eof else ch.toInt)

/-- `none` for the result while the process is blocked -/
def ttygetc (m : Ttycblk) (pid : Int) : Ttycblk × Option Int :=
  let m := { m with tyisem := m.tyisem.wait pid }
  if m.tyisem.count < 0 then (m, none) else ((extract m pid).1, some (extract m pid).2)

/-- `ttyputc` behind its `wait` -/
def place (m : Ttycblk) (pid : Int) (ch : Int8) : Ttycblk :=
  ttykickout
    { m with
      tyosem := m.tyosem.run pid
      tyobuff := Function.update m.tyobuff m.tyotail ch
      tyotail := advance tyObuflen m.tyotail
      put := m.put ++ [ch] }

/-- A process puts characters one behind the other, until it is blocked. -/
def putChars (pid : Int) : List Int8 → Ttycblk → Ttycblk
  | [], m => { m with writing := Function.update m.writing pid [] }
  | ch :: rest, m =>
      let m := { m with tyosem := m.tyosem.wait pid }
      if m.tyosem.count < 0 then { m with writing := Function.update m.writing pid (ch :: rest) }
      else putChars pid rest (place m pid ch)

/-- `TY_RETURN` goes before a newline with `tyocrlf`. -/
def ttyputc (m : Ttycblk) (pid : Int) (ch : Int8) : Ttycblk :=
  putChars pid (if ch = tyNewline ∧ m.tyocrlf = true then [tyReturn, ch] else [ch]) m

/-- A writer that was released goes on behind its `wait`. -/
def goesOn (m : Ttycblk) (pid : Int) : Ttycblk :=
  match m.writing pid with
  | [] => m
  | ch :: rest => putChars pid rest (place m pid ch)

/-- The first loop of `ttyhandle_out`, with the space that it leaves -/
def sendEcho : Nat → Ttycblk → Nat × Ttycblk
  | 0, m => (0, m)
  | uspace + 1, m =>
      if m.tyehead = m.tyetail then (uspace + 1, m)
      else
        sendEcho uspace
          { m with
            buffer := m.buffer ++ [m.tyebuff m.tyehead]
            tyehead := advance tyEbuflen m.tyehead }

/-- The second loop, with `ochars` -/
def sendOutput : Nat → Int → Ttycblk → Nat × Ttycblk
  | 0, _, m => (0, m)
  | uspace + 1, avail, m =>
      if 0 < avail then
        let rest := sendOutput uspace (avail - 1)
          { m with
            buffer := m.buffer ++ [m.tyobuff m.tyohead]
            tyohead := advance tyObuflen m.tyohead
            sent := m.sent ++ [m.tyobuff m.tyohead] }
        (rest.1 + 1, rest.2)
      else (0, m)

def ttyhandleOut (m : Ttycblk) : Ttycblk :=
  if m.tyoheld = true then m
  else if m.tyehead = m.tyetail ∧ (tyObuflen : Int) ≤ m.tyosem.count then
    { m with ier := m.ier &&& ~~~uartIerEtbei }
  else
    let echo := sendEcho uartFifoSize m
    let output := sendOutput echo.1 (tyObuflen - echo.2.tyosem.count) echo.2
    { output.2 with tyosem := output.2.tyosem.signaln output.1 }

/-- `reads` and `writes` are where a process goes on that was released from its semaphore. -/
inductive Event where
  | arrives (ch : Int8)
  | getc (pid : Int)
  | reads (pid : Int)
  | putc (pid : Int) (ch : Int8)
  | writes (pid : Int)
  | interrupt

/-- The process is in neither `ttygetc` nor `ttyputc`. -/
def Outside (m : Ttycblk) (pid : Int) : Prop :=
  pid ∉ m.tyisem.queue ++ m.tyisem.passed ++ (m.tyosem.queue ++ m.tyosem.passed)

instance (m : Ttycblk) : DecidablePred (Outside m) := fun _ => inferInstanceAs (Decidable (¬_))

def act (m : Ttycblk) : Event → Option Ttycblk
  | .arrives ch => ttyhandleIn m ch
  | .getc pid => if Outside m pid then some (ttygetc m pid).1 else none
  | .reads pid => if pid ∈ m.tyisem.passed then some (extract m pid).1 else none
  | .putc pid ch => if Outside m pid then some (ttyputc m pid ch) else none
  | .writes pid => if pid ∈ m.tyosem.passed then some (goesOn m pid) else none
  | .interrupt => some (ttyhandleOut m)

/-- `ttyinit`, with any options -/
def ttyinit (options : Options) (tyibuff : Int → Int8) (tyobuff tyebuff : Nat → Int8) : Ttycblk where
  tyihead := 0
  tyitail := 0
  tyibuff := tyibuff
  tyisem := { count := 0, queue := [], passed := [] }
  tyicursor := 0
  stored := []
  taken := []
  tyohead := 0
  tyotail := 0
  tyobuff := tyobuff
  tyosem := { count := tyObuflen, queue := [], passed := [] }
  writing := fun _ => []
  put := []
  sent := []
  tyehead := 0
  tyetail := 0
  tyebuff := tyebuff
  tyoheld := false
  ier := uartIerErbfi ||| uartIerEtbei
  buffer := []
  toOptions := options

def Started (m : Ttycblk) : Prop :=
  ∃ options tyibuff tyobuff tyebuff, m = ttyinit options tyibuff tyobuff tyebuff

/-- The options that `ttyinit` sets -/
def usual (tyimode : InputMode) : Options where
  tyimode := tyimode
  tyiecho := true
  tyieback := true
  tyevis := true
  tyecrlf := true
  tyicrlf := true
  tyierase := true
  tyierasec := tyBacksp
  tyeof := true
  tyeofch := 4
  tyikill := true
  tyikillc := 21
  tyoflow := true
  tyostop := 19
  tyostart := 17
  tyocrlf := true
  tyifullc := 7

def fresh (tyimode : InputMode) : Ttycblk :=
  ttyinit (usual tyimode) (fun _ => 0) (fun _ => 0) fun _ => 0

end Definitions

section Frames

variable {m m' m'' d : Ttycblk} {ch : Int8}

/-- Only the echo queue gets characters. -/
structure Echoes (m m' : Ttycblk) : Prop where
  input : m'.toInput = m.toInput
  output : m'.toOutput = m.toOutput
  options : m'.toOptions = m.toOptions
  head : m'.tyehead = m.tyehead
  tail : m.tyetail < tyEbuflen → m'.tyetail < tyEbuflen

theorem Echoes.refl (m : Ttycblk) : Echoes m m := ⟨rfl, rfl, rfl, rfl, id⟩

theorem Echoes.trans (first : Echoes m m') (second : Echoes m' m'') : Echoes m m'' where
  input := second.input.trans first.input
  output := second.output.trans first.output
  options := second.options.trans first.options
  head := second.head.trans first.head
  tail inside := second.tail (first.tail inside)

theorem eputc_echoes (m : Ttycblk) (ch : Int8) : Echoes m (eputc m ch) :=
  ⟨rfl, rfl, rfl, rfl, advance_lt⟩

theorem echoch_echoes (m : Ttycblk) (ch : Int8) : Echoes m (echoch m ch) := by
  unfold echoch
  split_ifs
  · exact (eputc_echoes m _).trans (eputc_echoes _ _)
  · exact (eputc_echoes m _).trans (eputc_echoes _ _)
  · exact eputc_echoes m ch

theorem echoed_echoes (m : Ttycblk) (ch : Int8) : Echoes m (echoed m ch) := by
  unfold echoed
  split_ifs
  · exact echoch_echoes m ch
  · exact .refl m

theorem backspace_echoes (m : Ttycblk) : Echoes m (backspace m) := by
  have back := eputc_echoes m tyBacksp
  unfold backspace
  dsimp only
  split_ifs
  · exact (back.trans (eputc_echoes _ _)).trans (eputc_echoes _ _)
  · exact back

theorem erase_echo_echoes (m : Ttycblk) : Echoes m (eraseEcho m) := by
  unfold eraseEcho
  split_ifs
  · exact (backspace_echoes m).trans (backspace_echoes _)
  · exact backspace_echoes m
  · exact backspace_echoes m
  · exact .refl m

theorem deposit_eq (did : deposit m ch = some d) :
    0 ≤ m.tyitail ∧ m.tyitail < tyIbuflen ∧
      d = { m with
        tyibuff := Function.update m.tyibuff m.tyitail ch
        tyitail := m.tyitail + 1
        stored := m.stored ++ [ch] } := by
  unfold deposit at did
  split_ifs at did with inside
  exact ⟨inside.1, inside.2, (Option.some.inj did).symm⟩

theorem wrap_tail_eq (m : Ttycblk) :
    wrapTail m =
      { m with tyitail := if tyIbuflen ≤ m.tyitail then 0 else m.tyitail } := by
  unfold wrapTail
  split_ifs <;> rfl

/-- The interrupt handler leaves the output queue and the options to others. -/
structure Handles (m m' : Ttycblk) : Prop where
  output : m.tyotail < tyObuflen → m'.toOutput = m.toOutput
  options : m'.toOptions = m.toOptions
  head : m'.tyehead = m.tyehead
  tail : m.tyetail < tyEbuflen → m'.tyetail < tyEbuflen

theorem Echoes.handles (echoes : Echoes m m') : Handles m m' :=
  ⟨fun _ => echoes.output, echoes.options, echoes.head, echoes.tail⟩

theorem Handles.trans (first : Handles m m') (second : Handles m' m'') : Handles m m'' where
  output inside :=
    (second.output (by rw [first.output inside]; exact inside)).trans (first.output inside)
  options := second.options.trans first.options
  head := second.head.trans first.head
  tail inside := second.tail (first.tail inside)

theorem deposit_handles (did : deposit m ch = some d) : Handles m d := by
  obtain ⟨_, _, rfl⟩ := deposit_eq did
  exact ⟨fun _ => rfl, rfl, rfl, id⟩

theorem wrap_tail_handles (m : Ttycblk) : Handles m (wrapTail m) := by
  unfold wrapTail
  split_ifs <;> exact ⟨fun _ => rfl, rfl, rfl, id⟩

theorem raw_handles (did : handleRaw m ch = some m') : Handles m m' := by
  unfold handleRaw at did
  split_ifs at did
  · obtain rfl := Option.some.inj did
    exact (Echoes.refl m).handles
  · obtain ⟨d, deposits, rfl⟩ := Option.map_eq_some_iff.mp did
    refine (deposit_handles deposits).trans ⟨fun inside => ?_, rfl, rfl, id⟩
    rw [if_neg (Nat.not_le.mpr inside)]

theorem cbreak_handles (did : handleCbreak m ch = some m') : Handles m m' := by
  unfold handleCbreak at did
  split_ifs at did
  · obtain rfl := Option.some.inj did
    exact (eputc_echoes m _).handles
  · obtain ⟨d, deposits, rfl⟩ := Option.map_eq_some_iff.mp did
    exact ((deposit_handles deposits).trans (wrap_tail_handles d)).trans
      (echoed_echoes _ ch).handles

theorem cooked_handles (did : handleCooked m ch = some m') : Handles m m' := by
  have nothing : Handles m m := (Echoes.refl m).handles
  have echo : Handles m (echoed m ch) := (echoed_echoes m ch).handles
  unfold handleCooked at did
  split_ifs at did
  · obtain rfl := Option.some.inj did
    exact ⟨fun _ => rfl, rfl, rfl, fun inside => advance_lt (advance_lt inside)⟩
  · obtain rfl := Option.some.inj did
    have back : Handles m (takeBack { m with tyicursor := m.tyicursor - 1 }) :=
      ⟨fun _ => rfl, rfl, rfl, id⟩
    exact back.trans (erase_echo_echoes _).handles
  · obtain rfl := Option.some.inj did
    exact nothing
  · obtain ⟨d, deposits, rfl⟩ := Option.map_eq_some_iff.mp did
    exact ((echo.trans (deposit_handles deposits)).trans (wrap_tail_handles d)).trans
      ⟨fun _ => rfl, rfl, rfl, id⟩
  · obtain rfl := Option.some.inj did
    exact (eputc_echoes m _).handles
  · unfold endOfFile at did
    split_ifs at did
    · obtain rfl := Option.some.inj did
      exact echo
    · obtain ⟨d, deposits, rfl⟩ := Option.map_eq_some_iff.mp did
      exact (echo.trans (deposit_handles deposits)).trans ⟨fun _ => rfl, rfl, rfl, id⟩
  · obtain ⟨d, deposits, rfl⟩ := Option.map_eq_some_iff.mp did
    have longer : Handles (echoed m ch) { echoed m ch with tyicursor := m.tyicursor + 1 } :=
      ⟨fun _ => rfl, rfl, rfl, id⟩
    exact ((echo.trans longer).trans (deposit_handles deposits)).trans (wrap_tail_handles d)

theorem handle_in_handles (did : ttyhandleIn m ch = some m') : Handles m m' := by
  have starts : Handles m { m with tyoheld := false } := ⟨fun _ => rfl, rfl, rfl, id⟩
  unfold ttyhandleIn at did
  split_ifs at did
  · exact raw_handles did
  · obtain rfl := Option.some.inj did
    unfold flowControl
    split_ifs <;> exact ⟨fun _ => rfl, rfl, rfl, id⟩
  · exact starts.trans (cbreak_handles did)
  · exact starts.trans (cooked_handles did)

/-- The processes that write, and the output part of the interrupt handler, leave the input queue
and the options to others. -/
theorem put_chars_frame (pid : Int) (chs : List Int8) (m : Ttycblk) :
    (putChars pid chs m).toInput = m.toInput ∧ (putChars pid chs m).toOptions = m.toOptions := by
  induction chs generalizing m with
  | nil => exact ⟨rfl, rfl⟩
  | cons ch rest induction =>
      unfold putChars
      dsimp only
      split_ifs
      · exact ⟨rfl, rfl⟩
      · exact induction _

theorem goes_on_frame (m : Ttycblk) (pid : Int) :
    (goesOn m pid).toInput = m.toInput ∧ (goesOn m pid).toOptions = m.toOptions := by
  unfold goesOn
  split
  · exact ⟨rfl, rfl⟩
  · exact put_chars_frame pid _ _

theorem send_echo_frame (uspace : Nat) (m : Ttycblk) :
    (sendEcho uspace m).2.toInput = m.toInput ∧ (sendEcho uspace m).2.toOutput = m.toOutput ∧
      (sendEcho uspace m).2.toOptions = m.toOptions := by
  induction uspace generalizing m with
  | zero => exact ⟨rfl, rfl, rfl⟩
  | succ uspace induction =>
      unfold sendEcho
      split_ifs
      · exact ⟨rfl, rfl, rfl⟩
      · exact induction _

theorem send_output_frame (uspace : Nat) (avail : Int) (m : Ttycblk) :
    (sendOutput uspace avail m).2.toInput = m.toInput ∧
      (sendOutput uspace avail m).2.toOptions = m.toOptions := by
  induction uspace generalizing avail m with
  | zero => exact ⟨rfl, rfl⟩
  | succ uspace induction =>
      unfold sendOutput
      split_ifs
      · exact induction _ _
      · exact ⟨rfl, rfl⟩

theorem handle_out_frame (m : Ttycblk) :
    (ttyhandleOut m).toInput = m.toInput ∧ (ttyhandleOut m).toOptions = m.toOptions := by
  have echo := send_echo_frame uartFifoSize m
  unfold ttyhandleOut
  split_ifs
  · exact ⟨rfl, rfl⟩
  · exact ⟨rfl, rfl⟩
  · have output := send_output_frame (sendEcho uartFifoSize m).1
      (tyObuflen - (sendEcho uartFifoSize m).2.tyosem.count) (sendEcho uartFifoSize m).2
    exact ⟨output.1.trans echo.1, output.2.trans echo.2.2⟩

theorem fresh_started (tyimode : InputMode) : Started (fresh tyimode) := ⟨_, _, _, _, rfl⟩

end Frames

end Xinu.Tty.Line
