import Xinu.Tty.Input

/-!
# Cooked input

`ttyread` over the calls of `ttygetc`, and a line editor beside the terminal that gets the same
characters. What the calls return is compared with the lines that the editor releases.
-/

namespace Xinu.Tty.LineEditor

open Xinu.Lib.Interleaving Xinu.Lib.Ring Xinu.Lib.Semaphores
open Xinu.Tty.Line Xinu.Tty.Input

set_option autoImplicit false

section Editor

inductive Item where
  | char (ch : Int8)
  | endOfFile
  deriving DecidableEq

/-- What `ttygetc` is to return for an item -/
def Item.value : Item → Int
  | .char ch => ch.toInt
  | .endOfFile => eof

/-- A new line begins behind the item. -/
def Item.Closes : Item → Prop
  | .char ch => Ends ch
  | .endOfFile => True

/-- The lines that were released, the unfinished line, and the number of items that were read -/
structure Editor where
  released : List Item
  line : List Int8
  read : Nat

def Editor.unread (e : Editor) : Nat := e.released.length - e.read

/-- Lines are released with the character that ends them, for which the last place of the buffer is
kept. -/
def Editor.edit (o : Options) (e : Editor) (ch : Int8) : Editor :=
  if ch = o.tyikillc ∧ o.tyikill = true then { e with line := [] }
  else if ch = o.tyierasec ∧ o.tyierase = true then { e with line := e.line.dropLast }
  else if Ends ch then
    if tyIbuflen ≤ e.unread + e.line.length then e
    else { e with released := e.released ++ (e.line ++ [ch]).map .char, line := [] }
  else if tyIbuflen - 1 ≤ e.unread + e.line.length then e
  else if ch = o.tyeofch ∧ o.tyeof = true then
    if e.line = [] then { e with released := e.released ++ [.endOfFile] } else e
  else { e with line := e.line ++ [ch] }

def Editor.arrives (o : Options) (e : Editor) (ch : Int8) : Editor :=
  let ch := if ch = tyReturn ∧ o.tyicrlf = true then tyNewline else ch
  if o.tyoflow = true ∧ (ch = o.tyostart ∨ ch = o.tyostop) then e else e.edit o ch

/-- The item that is read next -/
def Editor.next (e : Editor) : Item := e.released.getD e.read .endOfFile

def Editor.takes (e : Editor) : Editor := { e with read := e.read + 1 }

end Editor

section Calls

inductive Request where
  | getc
  | read (count : Int)

structure Answer where
  value : Int
  bytes : List Int8

/-- Where a process is that waits for a character: in `ttygetc`, in front of the first character of
`ttyread`, or behind some, with the number of characters that may follow the next one. -/
inductive Reading where
  | getc
  | first (count : Int)
  | more (count : Int) (left : Nat) (buff : List Int8) (items : List Item)

/-- A call that has returned, with the items that the editor had for it -/
structure Done where
  request : Request
  items : List Item
  answer : Answer

/-- `delivered` has what the calls of `ttygetc` have returned, those of `ttyread` included. -/
structure Machine where
  tty : Ttycblk
  editor : Editor
  reading : Int → Option Reading
  delivered : List Int
  answers : List Done

def sysErr : Int := -1

def waits (m : Machine) (pid : Int) : Machine :=
  { m with tty := { m.tty with tyisem := m.tty.tyisem.wait pid } }

/-- `ttygetc` behind its `wait` -/
def getchar (m : Machine) (pid : Int) : Machine × Int :=
  ({ m with
      tty := (extract m.tty pid).1
      editor := m.editor.takes
      delivered := m.delivered ++ [(extract m.tty pid).2] },
    (extract m.tty pid).2)

def finish (m : Machine) (pid : Int) (request : Request) (items : List Item) (answer : Answer) :
    Machine :=
  { m with
    reading := Function.update m.reading pid none
    answers := m.answers ++ [⟨request, items, answer⟩] }

def blocks (m : Machine) (pid : Int) (reading : Reading) : Machine :=
  { m with reading := Function.update m.reading pid (some reading) }

/-- One more character of `ttyread`, which goes on with `next` where the line does not end -/
def readChar (next : List Int8 → List Item → Machine → Machine) (pid count : Int)
    (buff : List Int8) (items : List Item) (m : Machine) : Machine :=
  let got := getchar m pid
  let buff := buff ++ [Int8.ofInt got.2]
  let items := items ++ [m.editor.next]
  if Ends (Int8.ofInt got.2) then finish got.1 pid (.read count) items ⟨buff.length, buff⟩
  else next buff items got.1

/-- The loop of `ttyread`, until it is blocked -/
def readChars (pid count : Int) : Nat → List Int8 → List Item → Machine → Machine
  | 0, buff, items, m => finish m pid (.read count) items ⟨buff.length, buff⟩
  | left + 1, buff, items, m =>
      if (waits m pid).tty.tyisem.count < 0 then
        blocks (waits m pid) pid (.more count left buff items)
      else readChar (readChars pid count left) pid count buff items (waits m pid)

/-- What a process does behind a `wait` -/
def goes (m : Machine) (pid : Int) : Reading → Machine
  | .getc =>
      finish (getchar m pid).1 pid .getc [m.editor.next] ⟨(getchar m pid).2, []⟩
  | .first count =>
      if (getchar m pid).2 = eof then
        finish (getchar m pid).1 pid (.read count) [m.editor.next] ⟨eof, []⟩
      else readChar (readChars pid count (count - 1).toNat) pid count [] [] m
  | .more count left buff items => readChar (readChars pid count left) pid count buff items m

def begins (m : Machine) (pid : Int) (reading : Reading) : Machine :=
  if (waits m pid).tty.tyisem.count < 0 then blocks (waits m pid) pid reading
  else goes (waits m pid) pid reading

def call (m : Machine) (pid : Int) : Request → Machine
  | .getc => begins m pid .getc
  | .read count =>
      if count < 0 then finish m pid (.read count) [] ⟨sysErr, []⟩
      else begins m pid (.first count)

/-- `runs` is where a process goes on that was released from the semaphore of the input. -/
inductive Event where
  | arrives (ch : Int8)
  | calls (pid : Int) (request : Request)
  | runs (pid : Int)
  | putc (pid : Int) (ch : Int8)
  | writes (pid : Int)
  | interrupt

def act (m : Machine) : Event → Option Machine
  | .arrives ch =>
      (ttyhandleIn m.tty ch).map fun tty =>
        { m with tty := tty, editor := m.editor.arrives m.tty.toOptions ch }
  | .calls pid request => if Outside m.tty pid then some (call m pid request) else none
  | .runs pid => if pid ∈ m.tty.tyisem.passed then (m.reading pid).map (goes m pid) else none
  | .putc pid ch => (Line.act m.tty (.putc pid ch)).map fun tty => { m with tty := tty }
  | .writes pid => (Line.act m.tty (.writes pid)).map fun tty => { m with tty := tty }
  | .interrupt => (Line.act m.tty .interrupt).map fun tty => { m with tty := tty }

structure Started (m : Machine) : Prop where
  tty : Line.Started m.tty
  cooked : m.tty.tyimode = .cooked
  editor : m.editor = ⟨[], [], 0⟩
  reading : ∀ pid, m.reading pid = none
  delivered : m.delivered = []
  answers : m.answers = []

/-- Behind the character there is a place for the end of its line, the characters included that were
granted and have not been read. -/
def RoomForEnd (m : Ttycblk) : Prop :=
  avail m + m.tyisem.passed.length + m.tyicursor < tyIbuflen - 1

instance : DecidablePred RoomForEnd := fun _ => inferInstanceAs (Decidable (_ < _))

/-- A line that is killed lies in one piece; the end of a line finds a place, and is not the end of
file as well; an end of file is not stored in the last place of the buffer; what is granted and not
read leaves the room that the count of the semaphore promises; and no character has the value of
`EOF`. -/
def FitsEditor (m : Ttycblk) (ch : Int8) : Prop :=
  if Kills m ch then (m.tyicursor : Int) ≤ m.tyitail
  else if Erases m ch then True
  else if Ends ch then Room m ∧ ¬EndsFile m ch
  else if (tyIbuflen : Int) - 1 ≤ avail m + m.tyicursor then True
  else if EndsFile m ch then m.tyicursor = 0 → RoomForEnd m ∧ BeforeLast m
  else RoomForEnd m ∧ ch.toInt ≠ eof

/-- A `ttyread` that has begun a line does not find an end of file where others have read the rest
of the line. -/
def FitsReading (m : Ttycblk) : Option Reading → Prop
  | some (.more _ _ _ _) => ¬EndsFile m (m.tyibuff m.tyihead)
  | _ => True

def Fits (m : Machine) : Event → Prop
  | .arrives ch => ¬FlowControl m.tty (mapped m.tty ch) → FitsEditor m.tty (mapped m.tty ch)
  | .runs pid => FitsReading m.tty (m.reading pid)
  | _ => True

/-- A call of `ttyread` gets the characters of a line, up to its count. -/
structure StopsAt (count : Int) (chars : List Int8) : Prop where
  inside : ∀ ch ∈ chars.dropLast, ¬Ends ch
  some_ : chars ≠ []
  bounded : chars.length ≤ max 1 count.toNat
  full : chars.length = max 1 count.toNat ∨ ∃ ch ∈ chars.getLast?, Ends ch

/-- A call has returned what the editor had for it. -/
def Right (d : Done) : Prop :=
  match d.request with
  | .getc => ∃ item, d.items = [item] ∧ d.answer = ⟨item.value, []⟩
  | .read count =>
      count < 0 ∧ d.items = [] ∧ d.answer = ⟨sysErr, []⟩ ∨
        d.items = [.endOfFile] ∧ d.answer = ⟨eof, []⟩ ∨
        ∃ chars, d.items = chars.map .char ∧ d.answer = ⟨chars.length, chars⟩ ∧
          StopsAt count chars

/-- What the calls of `ttygetc` return are the items of the editor in their order, every call has
returned what was for it, and a process waits only when all that is there has been granted to
others. -/
structure Matches (m : Machine) : Prop where
  delivered : m.delivered = (m.editor.released.take m.editor.read).map Item.value
  answers : ∀ d ∈ m.answers, Right d
  served : m.tty.tyisem.queue ≠ [] → m.editor.unread = m.tty.tyisem.passed.length

end Calls

end Xinu.Tty.LineEditor
