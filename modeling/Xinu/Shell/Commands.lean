import Xinu.Kernel.HeapFrees
import Xinu.Lib.ByteMemory
import Xinu.Shell.Lexan
import Mathlib.Tactic.IntervalCases

/-!
# The arguments of a command

The shell takes `&` and the redirections off the end of the tokens, creates a process with a
dummy for its argument vector, and `addargs` puts the vector and its strings at the low end of the
stack of the process. The dummy is found by a search through the frame for its value.
-/

namespace Xinu.Shell.Commands

open Xinu.Kernel.State (sysErr ok)
open Xinu.Lib.ByteMemory
open Xinu.Shell.Lexan

set_option autoImplicit false

section Definitions

/-- What the shell knows of a line. `inname` and `outname` are places in `tokbuf`. -/
structure Command where
  ntok : Nat
  tlen : Int
  inname : Option Nat
  outname : Option Nat
  backgnd : Bool

variable (lexed : Lexed)

def background (ntok : Nat) : Command :=
  if lexed.toktyp[ntok - 1]? = some .amper then ⟨ntok - 1, (lexed.tlen : Int) - 2, none, none, true⟩
  else ⟨ntok, lexed.tlen, none, none, false⟩

/-- One of the two checks for a redirection. In front of the first one there is no name. -/
def redirect (c : Command) : Option Command :=
  if 3 ≤ c.ntok ∧ (lexed.toktyp[c.ntok - 2]? = some .less ∨
      lexed.toktyp[c.ntok - 2]? = some .greater) then
    let name := lexed.tok.getD (c.ntok - 1) 0
    let tlen := lexed.tok.getD (c.ntok - 2) 0
    if lexed.toktyp[c.ntok - 1]? ≠ some .other then none
    else if lexed.toktyp[c.ntok - 2]? = some .less then
      if c.inname ≠ none then none
      else some { c with inname := some name, ntok := c.ntok - 2, tlen := tlen }
    else if c.outname ≠ none then none
    else some { c with outname := some name, ntok := c.ntok - 2, tlen := tlen }
  else some c

def parse (ntok : Nat) : Option Command :=
  ((redirect lexed (background lexed ntok)).bind (redirect lexed)).bind fun c =>
    if c.ntok = 0 ∨ ∃ i < c.ntok, lexed.toktyp[i]? ≠ some .other then none else some c

structure Cmdent where
  cname : List UInt8
  cbuiltin : Bool
  cfunc : Nat

/-- The loop over the characters of a name -/
def sameName : List UInt8 → List UInt8 → Bool
  | [], cmp => cmp.headD nullch == nullch
  | src :: cname, cmp => cmp.headD nullch == src && sameName cname cmp.tail

variable (cmdtab : List Cmdent)

def lookup (tokbuf : List UInt8) : Option Cmdent :=
  cmdtab.find? fun entry => sameName entry.cname tokbuf

/-- A line with a command that is not built in -/
def external (line : List UInt8) (tlen : Nat) : Option (Lexed × Command × Cmdent) :=
  let (ntok, lexed) := lexan line tlen
  if ntok = sysErr ∨ ntok = 0 then none
  else
    (parse lexed ntok.toNat).bind fun c =>
      (lookup cmdtab lexed.tokbuf).bind fun entry =>
        if entry.cbuiltin then none else some (lexed, c, entry)

structure Child where
  prstkbase : Nat
  prstklen : Nat
  prstkptr : Nat

def stackmagic : Nat := 168471209

def shellCmdstk : Nat := 8192

variable (initret : Nat)

/-- The stack that `create` makes in what `getstk` has returned -/
def create (mem : Memory) (funcaddr ssize : Nat) (args : List Nat) (saddr : Nat) : Memory × Child :=
  let savsp := saddr
  let pushed := pushWords (store mem saddr stackmagic) saddr
    (args.reverse ++ [initret, funcaddr, savsp])
  let savsp := pushed.2
  let pushed := pushWords pushed.1 pushed.2 [512, 0, 0, 0, 0, 0]
  let pushsp := pushed.2
  let pushed := pushWords pushed.1 pushed.2 [savsp, 0, 0]
  (store pushed.1 pushsp pushed.2, ⟨saddr, ssize, pushed.2⟩)

/-- The loop that looks for the dummy, over the words that are left -/
def searchFrom (mem : Memory) (dummy : Nat) : Nat → Nat → Option Nat
  | 0, _ => none
  | left + 1, search =>
      if load mem search = dummy then some search else searchFrom mem dummy left (search + 4)

def addargs (mem : Memory) (child : Child) (ntok : Nat) (tok : List Nat) (tlen : Int)
    (tokbuf : List UInt8) (dummy : Nat) : Int × Memory :=
  if ntok ≤ 0 ∨ tlen < 0 then (sysErr, mem)
  else
    let aloc := child.prstkbase - child.prstklen + 4
    let argloc := (aloc + 3) / 4 * 4
    let argstr := argloc + 4 * (ntok + 1)
    let mem := storeWords mem argloc ((tok.take ntok).map (argstr + ·) ++ [0])
    let mem := copy mem argstr (tokbuf.take tlen.toNat)
    match searchFrom mem dummy ((child.prstkbase - child.prstkptr + 3) / 4) child.prstkptr with
    | some search => (ok, store mem search argloc)
    | none => (sysErr, mem)

/-- The process that the shell creates for a command -/
def made (mem : Memory) (saddr dummy : Nat) (c : Command) (entry : Cmdent) : Memory × Child :=
  create initret mem entry.cfunc shellCmdstk [c.ntok, dummy] saddr

def added (mem : Memory) (saddr dummy : Nat) (lexed : Lexed) (c : Command) (entry : Cmdent) :
    Int × Memory :=
  addargs (made initret mem saddr dummy c entry).1 (made initret mem saddr dummy c entry).2 c.ntok
    lexed.tok c.tlen lexed.tokbuf dummy

/-- Where `getstk` has found the stack of a process, the code and the dummy of the shell -/
structure Placed (saddr funcaddr dummy : Nat) : Prop where
  low : shellCmdstk ≤ saddr
  high : saddr < 4294967296
  code : funcaddr < 4294967296 ∧ initret < 4294967296
  range : 512 < dummy ∧ dummy < 4294967296
  outside : dummy + shellCmdstk ≤ saddr ∨ saddr + 4 ≤ dummy
  apart : dummy ≠ funcaddr ∧ dummy ≠ initret

/-- A process that gets the texts of tokens, made in one memory and changed in another -/
structure Gets (words : List Token) (dummy : Nat) (child : Child) (made after : Memory) : Prop where
  replaced : load made (child.prstkbase - 4) = dummy
  argc : load after (child.prstkbase - 8) = words.length
  argv : ∃ argloc, load after (child.prstkbase - 4) = argloc ∧
    child.prstkbase - child.prstklen + 4 ≤ argloc ∧
    argloc + 4 * (words.length + 1) ≤ child.prstkptr ∧
    (∀ (i : Nat) (token : Token), words[i]? = some token → ∃ place,
      load after (argloc + 4 * i) = place ∧ argloc ≤ place ∧
        place + (token.text.length + 1) ≤ child.prstkptr ∧
        HoldsBytes after place (token.text ++ [nullch])) ∧
    load after (argloc + 4 * words.length) = 0
  frame : ∀ x, child.prstkptr ≤ x → x < child.prstkbase - 4 ∨ child.prstkbase ≤ x →
    after x = made x

end Definitions

section Syntax

/-- The words of a command, in front of the redirections and of `&` -/
structure Remaining (toks words : List Token) : Prop where
  split : ∃ redirections background, toks = words ++ (redirections ++ background) ∧
    redirections.map Token.toktyp ∈ ([[], [.less, .other], [.greater, .other],
      [.less, .other, .greater, .other], [.greater, .other, .less, .other]] : List (List TokTyp)) ∧
    background.map Token.toktyp ∈ ([[], [.amper]] : List (List TokTyp))
  nonempty : words ≠ []
  other : ∀ token ∈ words, token.toktyp = .other

/-- What `lexan` stores for tokens -/
def stored (toks : List Token) : Lexed :=
  ⟨toks.length, places 0 toks, toks.map Token.toktyp, layout toks, (layout toks).length⟩

variable {toks words : List Token} {c c' : Command}

/-- The tokens that are left, and what has been taken off -/
structure Trimmed (toks : List Token) (c : Command) : Prop where
  ntok : c.ntok ≤ toks.length
  tlen : c.tlen = (layout (toks.take c.ntok)).length
  split : ∃ redirections background, toks = toks.take c.ntok ++ (redirections ++ background) ∧
    (redirections.map Token.toktyp, c.inname.isSome, c.outname.isSome) ∈ ([([], false, false),
      ([.less, .other], true, false), ([.greater, .other], false, true),
      ([.less, .other, .greater, .other], true, true),
      ([.greater, .other, .less, .other], true, true)] : List (List TokTyp × Bool × Bool)) ∧
    background.map Token.toktyp ∈ ([[], [.amper]] : List (List TokTyp))

theorem layout_append (front back : List Token) :
    layout (front ++ back) = layout front ++ layout back :=
  List.flatMap_append

theorem place_getD {i : Nat} (bound : i < toks.length) :
    (places 0 toks).getD i 0 = (layout (toks.take i)).length := by
  have general : ∀ (toks : List Token) (start i : Nat), i < toks.length →
      (places start toks).getD i 0 = start + (layout (toks.take i)).length := by
    intro toks
    induction toks with
    | nil => exact fun _ _ none => absurd none (Nat.not_lt_zero _)
    | cons token toks induction =>
        intro start i bound
        cases i with
        | zero => simp [places, layout]
        | succ i =>
            have later :=
              induction (start + (token.text.length + 1)) i (Nat.lt_of_succ_lt_succ bound)
            simp only [places, List.getD_cons_succ, later, List.take_succ_cons, layout,
              List.flatMap_cons, List.length_append, List.length_singleton]
            omega
  rw [general toks 0 i bound, Nat.zero_add]

theorem type_at {i : Nat} {typ : TokTyp} (at_ : (toks.map Token.toktyp)[i]? = some typ) :
    ∃ token, toks[i]? = some token ∧ token.toktyp = typ := by
  rw [List.getElem?_map] at at_
  exact Option.map_eq_some_iff.mp at_

theorem take_more {i : Nat} {token : Token} (at_ : toks[i]? = some token) :
    toks.take (i + 1) = toks.take i ++ [token] := by
  rw [List.take_add_one, at_]
  rfl

theorem background_trimmed (nonempty : toks ≠ [])
    (symbols : ∀ token ∈ toks, token.toktyp = .amper → token.text.length = 1) :
    Trimmed toks (background (stored toks) toks.length) := by
  obtain ⟨count, size⟩ : ∃ count, toks.length = count + 1 :=
    Nat.exists_eq_succ_of_ne_zero fun none => nonempty (List.eq_nil_of_length_eq_zero none)
  have whole : toks.take (count + 1) = toks := by rw [← size, List.take_length]
  unfold background
  split
  · rename_i amper
    rw [size, Nat.add_sub_cancel] at amper
    obtain ⟨last, at_, typ⟩ := type_at amper
    have split : toks = toks.take count ++ [last] := whole.symm.trans (take_more at_)
    rw [size]
    refine ⟨by rw [size]; exact Nat.le_succ count, ?_, [], [last], split, by simp, by simp [typ]⟩
    have one := symbols last (List.mem_of_getElem? at_) typ
    have length := congrArg (fun toks => (layout toks).length) split
    rw [layout_append, List.length_append] at length
    have two : (layout [last]).length = 2 := by simp [layout, one]
    change ((layout toks).length : Int) - 2 = (layout (toks.take count)).length
    omega
  · refine ⟨Nat.le_refl _, ?_, [], [], ?_, by simp, by simp⟩
    · change ((layout toks).length : Int) = (layout (toks.take toks.length)).length
      rw [List.take_length]
    · change toks = toks.take toks.length ++ ([] ++ [])
      simp

theorem redirect_trimmed (trimmed : Trimmed toks c) (did : redirect (stored toks) c = some c') :
    Trimmed toks c' := by
  obtain ⟨bound, tlen, redirections, background, split, names, last⟩ := trimmed
  unfold redirect at did
  split at did
  swap
  · cases did
    exact ⟨bound, tlen, redirections, background, split, names, last⟩
  rename_i found
  obtain ⟨count, size⟩ : ∃ count, c.ntok = count + 2 := ⟨c.ntok - 2, by omega⟩
  have first : c.ntok - 2 = count := by omega
  have second : c.ntok - 1 = count + 1 := by omega
  simp only [first, second, stored, place_getD (show count < toks.length by omega)] at did found
  split at did
  · cases did
  rename_i proper
  rw [not_not] at proper
  obtain ⟨file, atFile, fileType⟩ := type_at proper
  have pair : ∀ typ, (toks.map Token.toktyp)[count]? = some typ →
      ∃ symbol, symbol.toktyp = typ ∧
        toks = toks.take count ++ (([symbol, file] ++ redirections) ++ background) := by
    intro typ at_
    obtain ⟨symbol, atSymbol, symbolType⟩ := type_at at_
    refine ⟨symbol, symbolType, ?_⟩
    rw [size, take_more atFile, take_more atSymbol] at split
    simpa using split
  split at did
  · rename_i less
    obtain ⟨symbol, symbolType, split⟩ := pair _ less
    split at did
    · cases did
    rename_i unnamed
    rw [not_not] at unnamed
    cases did
    refine ⟨by simp only; omega, rfl, _, background, split, ?_, last⟩
    rw [unnamed] at names
    simp only [List.mem_cons, Prod.mk.injEq, Option.isSome_none, List.not_mem_nil, or_false,
      Bool.false_eq_true, false_and, and_false, true_and, false_or] at names
    rcases names with ⟨none, out⟩ | ⟨other, out⟩
    · simp [none, out, symbolType, fileType]
    · simp [other, out, symbolType, fileType]
  · rename_i notLess
    obtain ⟨symbol, symbolType, split⟩ := pair _ (found.2.resolve_left notLess)
    split at did
    · cases did
    rename_i unnamed
    rw [not_not] at unnamed
    cases did
    refine ⟨by simp only; omega, rfl, _, background, split, ?_, last⟩
    rw [unnamed] at names
    simp only [List.mem_cons, Prod.mk.injEq, Option.isSome_none, List.not_mem_nil, or_false,
      Bool.false_eq_true, and_false, and_true] at names
    rcases names with ⟨none, out⟩ | ⟨other, out⟩
    · simp [none, out, symbolType, fileType]
    · simp [other, out, symbolType, fileType]

theorem parse_trimmed (nonempty : toks ≠ [])
    (symbols : ∀ token ∈ toks, token.toktyp = .amper → token.text.length = 1)
    (parsed : parse (stored toks) toks.length = some c) :
    Trimmed toks c ∧ Remaining toks (toks.take c.ntok) := by
  unfold parse at parsed
  obtain ⟨c₂, did, checked⟩ := Option.bind_eq_some_iff.mp parsed
  obtain ⟨c₁, first, second⟩ := Option.bind_eq_some_iff.mp did
  have trimmed :=
    redirect_trimmed (redirect_trimmed (background_trimmed nonempty symbols) first) second
  split at checked
  · cases checked
  rename_i proper
  cases checked
  simp only [not_or, not_exists, not_and, not_not, Ne] at proper
  refine ⟨trimmed, ?_, ?_, ?_⟩
  · obtain ⟨redirections, background, split, names, last⟩ := trimmed.split
    refine ⟨redirections, background, split, ?_, last⟩
    simp only [List.mem_cons, Prod.mk.injEq, List.not_mem_nil, or_false] at names ⊢
    tauto
  · intro none
    have length := congrArg List.length none
    rw [List.length_take, List.length_nil, Nat.min_eq_left trimmed.ntok] at length
    exact proper.1 length
  · intro token member
    obtain ⟨i, bound, same⟩ := List.mem_iff_getElem.mp member
    rw [List.length_take, Nat.min_eq_left trimmed.ntok] at bound
    have typ := proper.2 i bound
    have at_ : toks[i]? = some token := by
      rw [← same, List.getElem_take]
      exact List.getElem?_eq_getElem _
    rw [stored, List.getElem?_map, at_] at typ
    exact Option.some.inj typ

end Syntax

section Frames

variable {mem : Memory} {low dummy initret funcaddr ssize ntok : Nat}

/-- The first word of the frame with the value of the dummy is the dummy. -/
theorem create_frame (placed : Placed initret (low + 56) funcaddr dummy) (small : ntok ≤ 512)
    (mem : Memory) :
    (create initret mem funcaddr ssize [ntok, dummy] (low + 56)).2 = ⟨low + 56, ssize, low⟩ ∧
      load (create initret mem funcaddr ssize [ntok, dummy] (low + 56)).1 (low + 48) = ntok ∧
      load (create initret mem funcaddr ssize [ntok, dummy] (low + 56)).1 (low + 52) = dummy ∧
      ∀ i < 13, load (create initret mem funcaddr ssize [ntok, dummy] (low + 56)).1 (low + 4 * i) ≠
        dummy := by
  obtain ⟨_, high, code, range, outside, apart⟩ := placed
  unfold shellCmdstk at outside
  have pushed₁ := push_words (store mem (low + 56) stackmagic) (low + 56)
    [dummy, ntok, initret, funcaddr, low + 56] (by simp) (by simp; omega)
  simp only [create, List.reverse_cons, List.reverse_nil, List.nil_append, List.cons_append]
  obtain ⟨sp₁, words₁, -⟩ := pushed₁
  generalize pushWords (store mem (low + 56) stackmagic) (low + 56)
    [dummy, ntok, initret, funcaddr, low + 56] = frame at *
  obtain ⟨mem₁, sp⟩ := frame
  obtain rfl : sp = low + 36 := by simpa using sp₁
  obtain ⟨sp₂, words₂, others₂⟩ :=
    push_words mem₁ (low + 36) [512, 0, 0, 0, 0, 0] (by simp) (by simp)
  generalize pushWords mem₁ (low + 36) [512, 0, 0, 0, 0, 0] = flags at *
  obtain ⟨mem₂, sp⟩ := flags
  obtain rfl : sp = low + 12 := by simpa using sp₂
  obtain ⟨sp₃, words₃, others₃⟩ :=
    push_words mem₂ (low + 12) [low + 36, 0, 0] (by simp) (by simp; omega)
  generalize pushWords mem₂ (low + 12) [low + 36, 0, 0] = registers at *
  obtain ⟨mem₃, sp⟩ := registers
  obtain rfl : low = sp := by simpa using sp₃.symm
  have first : ∀ i value place, [dummy, ntok, initret, funcaddr, low + 56][i]? = some value →
      place + 4 * (i + 1) = low + 56 → load (store mem₃ (low + 12) low) place = value := by
    intro i value place at_ here
    have bound := (List.getElem?_eq_some_iff.mp at_).1
    simp only [List.length_cons, List.length_nil] at bound
    have pushed := words₁ i value at_
    rw [show low + 56 - 4 * (i + 1) = place by omega] at pushed
    rw [← pushed]
    refine load_congr fun x _ _ => ?_
    exact (store_outside (Or.inr (by omega))).trans
      ((others₃ x (Or.inr (by omega))).trans (others₂ x (Or.inr (by omega))))
  have second : ∀ i value place, [512, 0, 0, 0, 0][i]? = some value →
      place + 4 * (i + 1) = low + 36 → load (store mem₃ (low + 12) low) place = value := by
    intro i value place at_ here
    have bound := (List.getElem?_eq_some_iff.mp at_).1
    simp only [List.length_cons, List.length_nil] at bound
    have more : [512, 0, 0, 0, 0, 0][i]? = some value := by
      rw [← at_]
      exact List.getElem?_append_left (show i < [512, 0, 0, 0, 0].length from bound)
    have pushed := words₂ i value more
    rw [show low + 36 - 4 * (i + 1) = place by omega] at pushed
    rw [← pushed]
    refine load_congr fun x _ _ => ?_
    exact (store_outside (Or.inr (by omega))).trans (others₃ x (Or.inr (by omega)))
  have third : ∀ i value place, [low + 36, 0, 0][i]? = some value →
      place + 4 * (i + 1) = low + 12 → load (store mem₃ (low + 12) low) place = value := by
    intro i value place at_ here
    have pushed := words₃ i value at_
    rw [show low + 12 - 4 * (i + 1) = place by omega] at pushed
    rw [← pushed]
    exact load_store_apart (by omega)
  refine ⟨rfl, first 1 _ _ rfl (by omega), first 0 _ _ rfl (by omega), ?_⟩
  intro i bound
  interval_cases i
  · rw [third 2 0 _ rfl (by omega)]
    omega
  · rw [third 1 0 _ rfl (by omega)]
    omega
  · rw [third 0 _ _ rfl (by omega)]
    omega
  · rw [load_store (by omega)]
    omega
  · rw [second 4 0 _ rfl (by omega)]
    omega
  · rw [second 3 0 _ rfl (by omega)]
    omega
  · rw [second 2 0 _ rfl (by omega)]
    omega
  · rw [second 1 0 _ rfl (by omega)]
    omega
  · rw [second 0 512 _ rfl (by omega)]
    omega
  · rw [first 4 _ _ rfl (by omega)]
    omega
  · rw [first 3 _ _ rfl (by omega)]
    exact apart.1.symm
  · rw [first 2 _ _ rfl (by omega)]
    exact apart.2.symm
  · rw [first 1 _ _ rfl (by omega)]
    omega

theorem search_found {count left place : Nat}
    (others : ∀ i < count, load mem (place + 4 * i) ≠ dummy)
    (here : load mem (place + 4 * count) = dummy) (room : count < left) :
    searchFrom mem dummy left place = some (place + 4 * count) := by
  induction count generalizing left place with
  | zero =>
      obtain ⟨less, rfl⟩ : ∃ less, left = less + 1 := ⟨left - 1, by omega⟩
      exact if_pos here
  | succ count induction =>
      obtain ⟨less, rfl⟩ : ∃ less, left = less + 1 := ⟨left - 1, by omega⟩
      have first : load mem place ≠ dummy := others 0 (Nat.succ_pos count)
      rw [searchFrom, if_neg first]
      have next : ∀ i, place + 4 + 4 * i = place + 4 * (i + 1) := fun i => by omega
      rw [induction (fun i bound => by rw [next]; exact others (i + 1) (by omega))
        (by rw [next]; exact here) (by omega), next]

end Frames

section Placement

open Xinu.Kernel.Heap Xinu.Kernel.HeapLists Xinu.Kernel.HeapLaws Xinu.Kernel.HeapRuns

/-- The stack of a process is placed by `getstk`, when the dummy is in the heap and not free, and
the code in front of the heap. -/
theorem placed_of_getstk {low high saddr initret funcaddr dummy : Nat} {m m' : FreeMem}
    {blocks : List (Nat × Nat)} (listed : Listed low high m blocks) (bound : high < 4294967296)
    (ordered : low ≤ high) (found : getstk (fuelOf low high) m shellCmdstk = some (saddr, m'))
    (success : saddr ≠ Kernel.State.sysErrPtr) (started : 512 < low)
    (code : funcaddr < low ∧ initret < low) (within : low ≤ dummy ∧ dummy < high)
    (used : ∀ i < 4, cover (dummy + i) blocks = 0) : Placed initret saddr funcaddr dummy := by
  have size : Kernel.Memory.roundmb shellCmdstk = 8192 := by decide
  obtain ⟨start, blocks', rfl, carved, _⟩ := Kernel.HeapFrees.getstk_carved listed bound ordered
    (by decide) (by decide) found success
  rw [size] at carved ⊢
  obtain ⟨_, above, below⟩ := carved_spaced carved (by decide) listed.spaced
  -- No byte of the dummy is in the block, which was free.
  have outside : ∀ i < 4, ¬(start ≤ dummy + i ∧ dummy + i < start + 8192) := by
    intro i small inside
    have split := carved_cover carved (dummy + i)
    rw [used i small, cover_cons, cover_nil, if_pos inside] at split
    omega
  have first := outside 0 (by decide)
  have last := outside 3 (by decide)
  refine ⟨?_, ?_, ⟨?_, ?_⟩, ⟨?_, ?_⟩, ?_, ?_, ?_⟩
  all_goals
    try unfold shellCmdstk
    omega

end Placement

section Vectors

variable {mem : Memory} {argloc : Nat} {words : List Token}

/-- The memory with the vector of some words and their strings behind it -/
def filled (mem : Memory) (argloc : Nat) (words : List Token) : Memory :=
  copy (storeWords mem argloc ((places 0 words).map (argloc + 4 * (words.length + 1) + ·) ++ [0]))
    (argloc + 4 * (words.length + 1)) (layout words)

/-- The end of the strings -/
def argend (argloc : Nat) (words : List Token) : Nat :=
  argloc + 4 * (words.length + 1) + (layout words).length

theorem vector_length (argstr : Nat) (words : List Token) :
    ((places 0 words).map (argstr + ·) ++ [0]).length = words.length + 1 := by
  rw [List.length_append, List.length_map, places_length]
  rfl

theorem filled_outside {x : Nat} (outside : x < argloc ∨ argend argloc words ≤ x) :
    filled mem argloc words x = mem x := by
  unfold argend at outside
  have vector := vector_length (argloc + 4 * (words.length + 1)) words
  unfold filled
  rw [copy_outside (by omega), store_words_outside _ _ _ (by omega)]

/-- An entry of the vector, which the copy of the strings does not change -/
theorem load_vector {i value : Nat} (small : value < 4294967296)
    (here : ((places 0 words).map (argloc + 4 * (words.length + 1) + ·) ++ [0])[i]? = some value) :
    load (filled mem argloc words) (argloc + 4 * i) = value := by
  have bound := (List.getElem?_eq_some_iff.mp here).1
  rw [vector_length] at bound
  refine Eq.trans (load_congr fun x _ _ => copy_outside (Or.inl (by omega))) ?_
  exact load_store_words mem argloc here small

theorem filled_null : load (filled mem argloc words) (argloc + 4 * words.length) = 0 := by
  refine load_vector (by decide) ?_
  rw [List.getElem?_append_right (by rw [List.length_map, places_length])]
  simp [places_length]

theorem filled_word {i : Nat} {token : Token} (at_ : words[i]? = some token)
    (fits : argend argloc words ≤ 4294967296) :
    ∃ place, load (filled mem argloc words) (argloc + 4 * i) = place ∧ argloc ≤ place ∧
      place + (token.text.length + 1) ≤ argend argloc words ∧
      HoldsBytes (filled mem argloc words) place (token.text ++ [nullch]) := by
  obtain ⟨offset, atPlace, text⟩ := text_at_place [] at_
  simp only [List.length_nil, List.nil_append] at atPlace text
  have inside := text.length_le
  simp only [List.length_append, List.length_singleton, List.length_drop] at inside
  have entries : i < ((places 0 words).map (argloc + 4 * (words.length + 1) + ·)).length := by
    rw [List.length_map, places_length]
    exact (List.getElem?_eq_some_iff.mp at_).1
  unfold argend at fits ⊢
  refine ⟨argloc + 4 * (words.length + 1) + offset, load_vector (by omega) ?_, by omega, by omega,
    holds_part copy_holds text⟩
  rw [List.getElem?_append_left entries, List.getElem?_map, atPlace]
  rfl

end Vectors

section Arguments

variable {mem : Memory} {low dummy initret funcaddr : Nat} {toks : List Token} {c : Command}

/-- Where the vector and the strings are -/
theorem area_fits (placed : Placed initret (low + 56) funcaddr dummy) {words : List Token}
    (few : words.length ≤ shellMaxtok)
    (short : (layout words).length ≤ shellBuflen + shellMaxtok) :
    low + 56 - shellCmdstk + 4 ≤ (low + 56 - shellCmdstk + 4 + 3) / 4 * 4 ∧
      argend ((low + 56 - shellCmdstk + 4 + 3) / 4 * 4) words ≤ low := by
  have bound := placed.low
  unfold argend
  unfold shellCmdstk shellMaxtok shellBuflen at *
  omega

/-- What `addargs` does with the remaining tokens, when the frame is above the strings and its word
number 13 is the first one with the value of the dummy -/
theorem addargs_fills {made : Memory} (trimmed : Trimmed toks c) (some : 0 < c.ntok)
    (below : argend ((low + 56 - shellCmdstk + 4 + 3) / 4 * 4) (toks.take c.ntok) ≤ low)
    (argument : load made (low + 52) = dummy)
    (others : ∀ i < 13, load made (low + 4 * i) ≠ dummy) :
    addargs made ⟨low + 56, shellCmdstk, low⟩ c.ntok (places 0 toks) c.tlen (layout toks) dummy =
      (ok, store (filled made ((low + 56 - shellCmdstk + 4 + 3) / 4 * 4) (toks.take c.ntok))
        (low + 52) ((low + 56 - shellCmdstk + 4 + 3) / 4 * 4)) := by
  have count : (toks.take c.ntok).length = c.ntok := by
    rw [List.length_take, Nat.min_eq_left trimmed.ntok]
  have copied : (layout toks).take c.tlen.toNat = layout (toks.take c.ntok) := by
    have front := layout_append (toks.take c.ntok) (toks.drop c.ntok)
    rw [List.take_append_drop] at front
    rw [trimmed.tlen, Int.toNat_natCast, front, List.take_left]
  have stays : ∀ x, low ≤ x → load (filled made ((low + 56 - shellCmdstk + 4 + 3) / 4 * 4)
      (toks.take c.ntok)) x = load made x :=
    fun x inFrame => load_congr fun y _ _ => filled_outside (Or.inr (by omega))
  have found : searchFrom (filled made ((low + 56 - shellCmdstk + 4 + 3) / 4 * 4)
      (toks.take c.ntok)) dummy ((low + 56 - low + 3) / 4) low = .some (low + 4 * 13) := by
    refine search_found ?_ ?_ (by omega)
    · intro i bound
      rw [stays _ (by omega)]
      exact others i bound
    · rw [stays _ (by omega)]
      exact argument
  have proper : ¬(c.ntok ≤ 0 ∨ c.tlen < 0) := by
    have tlen := trimmed.tlen
    omega
  unfold filled at found
  rw [count] at found
  unfold addargs filled
  rw [if_neg proper, count]
  simp only [places_take, copied, found]

theorem addargs_gets (placed : Placed initret (low + 56) funcaddr dummy)
    (few : toks.length ≤ shellMaxtok) (short : (layout toks).length ≤ shellBuflen + shellMaxtok)
    (trimmed : Trimmed toks c) (some : 0 < c.ntok) (mem : Memory) :
    (addargs (create initret mem funcaddr shellCmdstk [c.ntok, dummy] (low + 56)).1
      (create initret mem funcaddr shellCmdstk [c.ntok, dummy] (low + 56)).2 c.ntok (places 0 toks)
      c.tlen (layout toks) dummy).1 = ok ∧
    Gets (toks.take c.ntok) dummy ⟨low + 56, shellCmdstk, low⟩
      (create initret mem funcaddr shellCmdstk [c.ntok, dummy] (low + 56)).1
      (addargs (create initret mem funcaddr shellCmdstk [c.ntok, dummy] (low + 56)).1
        (create initret mem funcaddr shellCmdstk [c.ntok, dummy] (low + 56)).2 c.ntok
        (places 0 toks) c.tlen (layout toks) dummy).2 := by
  have small : c.ntok ≤ shellMaxtok := Nat.le_trans trimmed.ntok few
  obtain ⟨child, argc, argument, others⟩ :=
    @create_frame low dummy initret funcaddr shellCmdstk c.ntok placed
      (Nat.le_trans small (by decide)) mem
  rw [child]
  generalize (create initret mem funcaddr shellCmdstk [c.ntok, dummy] (low + 56)).1 = made at *
  have count : (toks.take c.ntok).length = c.ntok := by
    rw [List.length_take, Nat.min_eq_left trimmed.ntok]
  have size : (layout (toks.take c.ntok)).length ≤ shellBuflen + shellMaxtok := by
    have front := layout_append (toks.take c.ntok) (toks.drop c.ntok)
    rw [List.take_append_drop] at front
    rw [front, List.length_append] at short
    omega
  obtain ⟨above, below⟩ := area_fits placed (count.trans_le small) size
  have high := placed.high
  rw [addargs_fills trimmed some below argument others]
  generalize (low + 56 - shellCmdstk + 4 + 3) / 4 * 4 = argloc at *
  generalize toks.take c.ntok = words at *
  have vector : argloc + 4 * (words.length + 1) ≤ low :=
    Nat.le_trans (Nat.le_add_right _ _) below
  refine ⟨rfl, argument, ?_, ⟨argloc, ?_, above, vector, ?_, ?_⟩, ?_⟩
  · rw [show low + 56 - 8 = low + 48 from rfl, load_store_apart (by omega),
      load_congr fun x _ _ => filled_outside (Or.inr (by omega)), argc, count]
  · exact load_store (by omega)
  · intro i token at_
    have bound := (List.getElem?_eq_some_iff.mp at_).1
    obtain ⟨place, entry, lower, upper, holds⟩ :=
      filled_word at_ (show argend argloc words ≤ _ by omega)
    refine ⟨place, ?_, lower, show place + (token.text.length + 1) ≤ low by omega, ?_⟩
    · rw [load_store_apart (by omega)]
      exact entry
    · refine holds_congr holds fun x _ before => store_outside (Or.inl ?_)
      rw [List.length_append, List.length_singleton] at before
      omega
  · rw [load_store_apart (by omega)]
    exact filled_null
  · intro x inFrame others
    have outside : x < low + 52 ∨ low + 52 + 4 ≤ x := others
    exact (store_outside outside).trans (filled_outside (Or.inr (Nat.le_trans below inFrame)))

end Arguments

section Results

variable {cmdtab : List Cmdent} {line : List UInt8} {lexed : Lexed} {c : Command} {entry : Cmdent}
  {tlen initret saddr dummy : Nat}

/-- The process of a command gets the texts of the tokens that remain, and of its frame only the
dummy changes. -/
theorem command_gets_arguments (parsed : external cmdtab line tlen = some (lexed, c, entry))
    (short : (lineText line).length ≤ shellBuflen)
    (placed : Placed initret saddr entry.cfunc dummy) (mem : Memory) :
    ∃ toks words, Tokens line toks ∧ Remaining toks words ∧
      (added initret mem saddr dummy lexed c entry).1 = ok ∧
      Gets words dummy (made initret mem saddr dummy c entry).2
        (made initret mem saddr dummy c entry).1 (added initret mem saddr dummy lexed c entry).2 := by
  have fits := @lexan_short line tlen short
  unfold external at parsed
  cases ran : lexan line tlen with
  | mk ntok stores =>
  rw [ran] at parsed fits
  dsimp only at parsed fits
  split at parsed
  · cases parsed
  rename_i accepted
  rw [not_or] at accepted
  obtain ⟨toks, tokens, few, found⟩ := lexan_accepted (by rw [ran]; exact accepted.1)
  cases ran.symm.trans found
  rw [Int.toNat_natCast] at parsed
  obtain ⟨c', isParsed, looked⟩ := Option.bind_eq_some_iff.mp parsed
  obtain ⟨entry', _, same⟩ := Option.bind_eq_some_iff.mp looked
  split at same
  · cases same
  cases same
  have nonempty : toks ≠ [] := by
    rintro rfl
    exact accepted.2 rfl
  obtain ⟨rest, reads, _⟩ := tokens
  have symbols : ∀ token ∈ toks, token.toktyp = .amper → token.text.length = 1 := by
    intro token member typ
    exact symbol_length reads token member (by rw [typ]; decide)
  obtain ⟨trimmed, remaining⟩ := parse_trimmed nonempty symbols isParsed
  have some : 0 < c.ntok := by
    refine Nat.pos_of_ne_zero fun none => remaining.nonempty ?_
    rw [none, List.take_zero]
  obtain ⟨low, rfl⟩ : ∃ low, saddr = low + 56 := by
    have bound := placed.low
    unfold shellCmdstk at bound
    exact ⟨saddr - 56, by omega⟩
  have gets := addargs_gets placed few fits trimmed some mem
  have child : (made initret mem (low + 56) dummy c entry).2 = ⟨low + 56, shellCmdstk, low⟩ :=
    (create_frame placed (Nat.le_trans (Nat.le_trans trimmed.ntok few) (by decide)) mem).1
  refine ⟨toks, toks.take c.ntok, ⟨rest, reads, ‹_›⟩, remaining, gets.1, ?_⟩
  rw [child]
  exact gets.2

/-- The characters of `a b <c >d &` -/
def redirected : List UInt8 := [97, 32, 98, 32, 60, 99, 32, 62, 100, 32, 38]

def redirectedTokens : List Token :=
  [⟨.other, [97]⟩, ⟨.other, [98]⟩, ⟨.less, [60]⟩, ⟨.other, [99]⟩, ⟨.greater, [62]⟩, ⟨.other, [100]⟩,
    ⟨.amper, [38]⟩]

theorem redirected_read : Reads redirected redirectedTokens [] := by
  have input : Reads [99, 32, 62, 100, 32, 38]
      [⟨.other, [99]⟩, ⟨.greater, [62]⟩, ⟨.other, [100]⟩, ⟨.amper, [38]⟩] [] :=
    reads_character rfl rfl rfl (.white rfl (.symbol rfl
      (reads_character rfl rfl rfl (.white rfl (.symbol rfl (.nothing []))))))
  exact reads_character rfl rfl rfl (.white rfl
    (reads_character rfl rfl rfl (.white rfl (.symbol rfl input))))

/-- A command in front of its redirections -/
theorem command_gets_arguments_redirected :
    ∃ toks words, Tokens redirected toks ∧ Remaining toks words ∧
      (added 4100 (fun _ => 0) 2097148 1000000 (stored redirectedTokens)
        ⟨2, 4, some 6, some 10, true⟩ ⟨[97], false, 4096⟩).1 = ok ∧
      Gets words 1000000
        (made 4100 (fun _ => 0) 2097148 1000000 ⟨2, 4, some 6, some 10, true⟩ ⟨[97], false, 4096⟩).2
        (made 4100 (fun _ => 0) 2097148 1000000 ⟨2, 4, some 6, some 10, true⟩ ⟨[97], false, 4096⟩).1
        (added 4100 (fun _ => 0) 2097148 1000000 (stored redirectedTokens)
          ⟨2, 4, some 6, some 10, true⟩ ⟨[97], false, 4096⟩).2 := by
  have parsed : external [⟨[97], false, 4096⟩] redirected 0 =
      some (stored redirectedTokens, ⟨2, 4, some 6, some 10, true⟩, ⟨[97], false, 4096⟩) := by
    rw [external, lexan_reads redirected_read rfl (by decide)]
    rfl
  refine command_gets_arguments parsed (by decide) ⟨?_, ?_, ?_, ?_, ?_, ?_⟩ _ <;> decide

end Results

end Xinu.Shell.Commands
