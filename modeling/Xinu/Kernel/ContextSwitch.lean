import Xinu.Lib.Processor
import Xinu.Shell.Commands

/-!
# Context switches, the clock and page faults

One processor runs every process: `ctxsw` leaves the registers of the old process on its stack and
takes those of the new one from the stack where an earlier `ctxsw`, or `create`, has put them. A
page fault and the clock save the registers of the process that they interrupt in the same way.
-/

namespace Xinu.Kernel.ContextSwitch

open Xinu.Lib.ByteMemory Xinu.Lib.Processor
open Xinu.Lib.Processor.Register Xinu.Lib.Processor.Machine

set_option autoImplicit false

section Definitions

def ctxsw : List Instr :=
  [.push ebp, .move esp ebp, .pushfl, .pushal, .fetch 8 ebp eax, .put esp eax,
    .fetch 12 ebp eax, .fetch 0 eax esp, .popal, .fetch 4 esp ebp, .popfl, .addl 4 esp, .ret]

/-- The call `ctxsw(&ptold->prstkptr, &ptnew->prstkptr)`, with the address behind it -/
def callCtxsw (old new back : Word32) (m : Machine) : Machine :=
  run ([.pushImm new, .pushImm old, .pushImm back] ++ ctxsw) m

/-- The registers that `ctxsw` takes from a stack, with the flags that the processor has before -/
def taken (mem : Memory) (sp : Word32) (before : Cpu) : Cpu where
  reg
    | edi => word mem sp
    | esi => word mem (sp + 4)
    | ebx => word mem (sp + 16)
    | edx => word mem (sp + 20)
    | ecx => word mem (sp + 24)
    | eax => word mem (sp + 28)
    | ebp => word mem (sp + 36)
    | esp => sp + 44
  eip := word mem (sp + 40)
  cs := before.cs
  eflags :=
    (before.eflags &&& ~~~(popfMask ||| rf) ||| word mem (sp + 32) &&& popfMask) &&& ~~~statusMask |||
      sumFlags (sp + 36) 4

/-- The registers behind a call of `ctxsw`: its arguments are still on the stack, and its last
addition has set the status flags. -/
def behind (c : Cpu) (back : Word32) : Cpu where
  reg := Function.update c.reg esp (c.reg esp - 8)
  eip := back
  cs := c.cs
  eflags := c.eflags &&& ~~~statusMask ||| sumFlags (c.reg esp - 16) 4

/-- The stacks of the processes, and the places of `prstkptr` in the process table -/
structure Layout (Pid : Type) where
  low : Pid → Nat
  high : Pid → Nat
  prstkptr : Pid → Word32
  bound : ∀ p, high p < 4294967296
  apart : ∀ p q, p ≠ q → high p ≤ low q ∨ high q ≤ low p
  table : ∀ p q, (prstkptr p).toNat + 4 ≤ low q ∨ high q ≤ (prstkptr p).toNat
  entries : ∀ p q, p ≠ q →
    (prstkptr p).toNat + 4 ≤ (prstkptr q).toNat ∨ (prstkptr q).toNat + 4 ≤ (prstkptr p).toNat

structure System (Pid : Type) where
  currpid : Pid
  /-- The processes that exist -/
  made : Pid → Bool
  machine : Machine

/-- Instructions of the current process, a new process, or a switch to a process. -/
inductive Event (Pid : Type) where
  | compute (f : Machine → Machine)
  | create (pid : Pid) (funcaddr ssize : Nat) (args : List Nat)
  | resched (next : Pid) (back : Word32)

/-- The stack of a new process has room for its frame, and the words on it are words. -/
structure Fits {Pid : Type} (layout : Layout Pid) (initret : Nat) (pid : Pid) (funcaddr : Nat) (args : List Nat) :
    Prop where
  room : layout.low pid + 4 * args.length + 52 ≤ layout.high pid
  initret : initret < 4294967296
  funcaddr : funcaddr < 4294967296
  args : ∀ arg ∈ args, arg < 4294967296

variable {Pid : Type} [DecidableEq Pid] (layout : Layout Pid) (initret : Nat)

/-- The stack pointer that the process table has for a process -/
def sp (mem : Memory) (p : Pid) : Word32 := word mem (layout.prstkptr p)

/-- `getstk` has returned the highest word of the stack. -/
def create (mem : Memory) (pid : Pid) (funcaddr ssize : Nat) (args : List Nat) : Memory :=
  let made := Shell.Commands.create initret mem funcaddr ssize args (layout.high pid - 4)
  put made.1 (layout.prstkptr pid) (BitVec.ofNat 32 made.2.prstkptr)

def act (s : System Pid) : Event Pid → System Pid
  | .compute f => { s with machine := f s.machine }
  | .create pid funcaddr ssize args =>
      { s with
        made := Function.update s.made pid true
        machine := { s.machine with mem := create layout initret s.machine.mem pid funcaddr ssize args } }
  | .resched next back =>
      { s with
        currpid := next
        machine := callCtxsw (layout.prstkptr s.currpid) (layout.prstkptr next) back s.machine }

def after (s : System Pid) (events : List (Event Pid)) : System Pid :=
  events.foldl (act layout initret) s

/-- A process leaves the stacks of the others alone from their stack pointers on, and the process
table; its own stack pointer stays in its stack. -/
structure Polite (s : System Pid) (m : Machine) : Prop where
  others : ∀ p, p ≠ s.currpid → s.made p = true →
    ∀ x, (sp layout s.machine.mem p).toNat ≤ x → x < layout.high p → m.mem x = s.machine.mem x
  table : ∀ p x, (layout.prstkptr p).toNat ≤ x → x < (layout.prstkptr p).toNat + 4 →
    m.mem x = s.machine.mem x
  low : layout.low s.currpid ≤ (m.reg esp).toNat
  high : (m.reg esp).toNat ≤ layout.high s.currpid
  plain : m.cpu.Plain
  segment : m.cpu.cs = s.machine.cpu.cs

/-- A switch is to a process that exists, with room for a frame on the stack of the current one. A
new process gets a stack with room for its own frame. -/
def Allowed (s : System Pid) : Event Pid → Prop
  | .compute f => Polite layout s (f s.machine)
  | .create pid funcaddr _ args =>
      s.made pid = false ∧ Fits layout initret pid funcaddr args
  | .resched next _ =>
      s.made next = true ∧ layout.low s.currpid + 52 ≤ (s.machine.reg esp).toNat

/-- A run whose events are allowed where they happen -/
def AllowedRun : System Pid → List (Event Pid) → Prop
  | _, [] => True
  | s, event :: events =>
      Allowed layout initret s event ∧ AllowedRun (act layout initret s event) events

/-- The current process is on its stack, and each other one has a frame on its own. -/
structure Multiplexed (s : System Pid) : Prop where
  current : s.made s.currpid = true
  low : layout.low s.currpid ≤ (s.machine.reg esp).toNat
  high : (s.machine.reg esp).toNat ≤ layout.high s.currpid
  plain : s.machine.cpu.Plain
  frames : ∀ p, p ≠ s.currpid → s.made p = true →
    layout.low p ≤ (sp layout s.machine.mem p).toNat ∧
      (sp layout s.machine.mem p).toNat + 44 ≤ layout.high p

def switchesTo (p : Pid) : Event Pid → Bool
  | .resched next _ => decide (next = p)
  | _ => false

end Definitions

section Switch

variable {m : Machine} {old new back : Word32}

/-- What `ctxsw` has pushed when it has saved the registers, the arguments of the call first -/
def saves (m : Machine) (old new back : Word32) : List Word32 :=
  [new, old, back, m.reg ebp, m.cpu.eflags &&& pushfMask, m.reg eax, m.reg ecx, m.reg edx,
    m.reg ebx, m.reg esp - 20, m.reg esp - 16, m.reg esi, m.reg edi]

theorem save_runs :
    run [.pushImm new, .pushImm old, .pushImm back, .push ebp, .move esp ebp, .pushfl, .pushal] m =
      (m.pushAll (saves m old new back)).set ebp (m.reg esp - 16) := by
  have sixteen (a : Word32) : a - 4#32 - 4#32 - 4#32 - 4#32 = a - 16#32 := by bv_omega
  have twenty (a : Word32) : a - 16#32 - 4#32 = a - 20#32 := by bv_omega
  have differ : ebp ≠ esp := by decide
  simp [run, exec, saves, pushAll, push, Machine.reg, Machine.set, Cpu.set]
  simp [sixteen, twenty, Function.update_comm differ]

/-- A frame that `taken` reads: the word at each distance from the stack pointer -/
structure Framed (mem : Memory) (sp : Word32) (c : Cpu) : Prop where
  edi : word mem sp = c.reg edi
  esi : word mem (sp + 4) = c.reg esi
  ebx : word mem (sp + 16) = c.reg ebx
  edx : word mem (sp + 20) = c.reg edx
  ecx : word mem (sp + 24) = c.reg ecx
  eax : word mem (sp + 28) = c.reg eax
  eflags : word mem (sp + 32) = c.eflags
  ebp : word mem (sp + 36) = c.reg ebp
  eip : word mem (sp + 40) = c.eip
  esp : c.reg Register.esp = sp + 44

/-- The rest of `ctxsw`, from the stack pointer of the old process on -/
theorem take_runs (pointer : m.reg ebp + 8 = m.reg esp + 44) :
    run [.fetch 8 ebp eax, .put esp eax, .fetch 12 ebp eax, .fetch 0 eax esp, .popal,
        .fetch 4 esp ebp, .popfl, .addl 4 esp, .ret] m =
      let mem := put m.mem (m.top 44) (m.reg esp)
      ⟨taken mem (word mem (word mem (m.reg esp + 48))) m.cpu, mem⟩ := by
  have eight : m.cpu.reg ebp + 8#32 = m.cpu.reg esp + 44#32 := pointer
  have twelve : m.cpu.reg ebp + 12#32 = m.cpu.reg esp + 48#32 := by bv_omega
  refine Machine.ext (Cpu.ext (funext fun r => ?_) ?_ ?_ ?_) ?_
  on_goal 1 => cases r
  all_goals
    simp [run, exec, top, drop, taken, setFlags, Machine.reg, Machine.set, Cpu.set, eight, twelve,
      BitVec.add_assoc]

end Switch

section Frames

variable {m : Machine} {old new back : Word32}

/-- The memory behind a switch -/
def switched (m : Machine) (old new back : Word32) : Memory :=
  put (m.pushAll (saves m old new back)).mem old (m.reg esp - 52)

theorem saves_length : (saves m old new back).length = 13 := rfl

theorem taken_congr {mem : Memory} {sp : Word32} {c d : Cpu} (flags : c.eflags = d.eflags)
    (segment : c.cs = d.cs) : taken mem sp c = taken mem sp d := by
  unfold taken
  rw [flags, segment]

variable (room : 52 ≤ (m.reg esp).toNat)

include room

theorem saves_fit :
    4 * (saves m old new back).length ≤ (m.reg esp).toNat := by
  rw [saves_length]
  exact room

/-- The machine when it has saved the registers -/
def saving (m : Machine) (old new back : Word32) : Machine :=
  (m.pushAll (saves m old new back)).set ebp (m.reg esp - 16)

theorem saving_esp : (saving m old new back).reg esp = m.reg esp - 52 := by
  have kept : (saving m old new back).reg esp = (m.pushAll (saves m old new back)).cpu.reg esp :=
    reg_set_ne (by decide)
  rw [kept, push_all_esp _ (saves_fit room), saves_length]
  simp only [Cpu.set, Function.update_self]
  bv_omega

theorem saving_word {value place : Word32} (i : Nat) (found : (saves m old new back)[i]? = some value)
    (here : place.toNat = (m.reg esp).toNat - 4 * (i + 1)) :
    word (saving m old new back).mem place = value := by
  unfold saving
  rw [mem_set]
  exact push_all_word (saves_fit room) found here

theorem saving_rest :
    (saving m old new back).cpu.eflags = m.cpu.eflags ∧ (saving m old new back).cpu.cs = m.cpu.cs := by
  have cpu : (saving m old new back).cpu = (m.pushAll (saves m old new back)).cpu.set ebp (m.reg esp - 16) :=
    rfl
  rw [cpu, push_all_esp _ (saves_fit room)]
  exact ⟨rfl, rfl⟩

variable (apart : old.toNat + 4 ≤ (m.reg esp).toNat - 52 ∨ (m.reg esp).toNat ≤ old.toNat)

include apart

theorem switched_word {value place : Word32} (i : Nat) (found : (saves m old new back)[i]? = some value)
    (here : place.toNat = (m.reg esp).toNat - 4 * (i + 1)) :
    word (switched m old new back) place = value := by
  have few := (List.getElem?_eq_some_iff.mp found).1
  rw [saves_length] at few
  unfold switched
  rw [word_put_apart (by omega), push_all_word (saves_fit room) found here]

/-- A call of `ctxsw` with room for its frame, and the place of the old stack pointer not in it -/
theorem call_runs :
    callCtxsw old new back m =
      ⟨taken (switched m old new back) (word (switched m old new back) new) m.cpu,
        switched m old new back⟩ := by
  have pointer := @saving_esp m old new back room
  have frame : (saving m old new back).reg ebp = m.reg esp - 16 := reg_set_same
  have oldPlace : (saving m old new back).top 44 = old := by
    unfold top
    rw [pointer]
    exact saving_word room 1 rfl (by bv_omega)
  have memory : put (saving m old new back).mem ((saving m old new back).top 44)
      ((saving m old new back).reg esp) = switched m old new back := by
    rw [oldPlace, pointer, saving, mem_set, switched]
  have newPlace : word (switched m old new back) ((saving m old new back).reg esp + 48) = new := by
    rw [pointer]
    exact switched_word room apart 0 rfl (by bv_omega)
  have whole : callCtxsw old new back m =
      run [.fetch 8 ebp eax, .put esp eax, .fetch 12 ebp eax, .fetch 0 eax esp, .popal,
        .fetch 4 esp ebp, .popfl, .addl 4 esp, .ret] (saving m old new back) := by
    have first := @save_runs m old new back
    unfold saving
    rw [← first, ← run_append]
    rfl
  rw [whole, take_runs (by rw [pointer, frame]; bv_omega)]
  simp only [memory, newPlace]
  rw [taken_congr (saving_rest room).1 (saving_rest room).2]

/-- The frame that a switch leaves on the stack of the old process -/
theorem switch_frames (plain : m.cpu.Plain) :
    Framed (switched m old new back) (m.reg esp - 52)
      ⟨Function.update m.cpu.reg esp (m.reg esp - 8), back, m.cpu.cs, m.cpu.eflags⟩ := by
  constructor
  · exact switched_word room apart 12 rfl (by bv_omega)
  · exact switched_word room apart 11 rfl (by bv_omega)
  · exact switched_word room apart 8 rfl (by bv_omega)
  · exact switched_word room apart 7 rfl (by bv_omega)
  · exact switched_word room apart 6 rfl (by bv_omega)
  · exact switched_word room apart 5 rfl (by bv_omega)
  · have pushed : word (switched m old new back) (m.reg esp - 52 + 32) = m.cpu.eflags &&& pushfMask :=
      switched_word room apart 4 rfl (by bv_omega)
    rw [pushed, pushf_plain plain]
  · exact switched_word room apart 3 rfl (by bv_omega)
  · exact switched_word room apart 2 rfl (by bv_omega)
  · simp only [Function.update_self]
    bv_omega

end Frames

section Taking

variable {mem mem' : Memory} {sp : Word32} {c before : Cpu}

/-- The registers of a frame behind `ctxsw`, whose addition has set the status flags -/
def resumed (sp : Word32) (c : Cpu) : Cpu :=
  { c with
    eflags := (2 ||| c.eflags &&& popfMask) &&& ~~~statusMask ||| sumFlags (sp + 36) 4 }

theorem taken_framed (framed : Framed mem sp c) (plain : before.Plain) (segment : before.cs = c.cs) :
    taken mem sp before = resumed sp c := by
  refine Cpu.ext (funext fun r => ?_) framed.eip segment ?_
  · cases r with
    | eax => exact framed.eax
    | ecx => exact framed.ecx
    | edx => exact framed.edx
    | ebx => exact framed.ebx
    | esp => exact framed.esp.symm
    | ebp => exact framed.ebp
    | esi => exact framed.esi
    | edi => exact framed.edi
  · unfold taken resumed
    rw [popf_keeps plain, framed.eflags]

theorem taken_plain (plain : before.Plain) : (taken mem sp before).Plain :=
  plain_sum (plain_popf plain) _ _

theorem framed_congr (framed : Framed mem sp c) (room : sp.toNat + 44 < 4294967296)
    (same : ∀ x, sp.toNat ≤ x → x < sp.toNat + 44 → mem' x = mem x) : Framed mem' sp c := by
  have at_ (offset : Word32) (fits : offset.toNat + 4 ≤ 44) :
      word mem' (sp + offset) = word mem (sp + offset) :=
    word_congr fun x low high => same x (by bv_omega) (by bv_omega)
  have first : word mem' sp = word mem sp := word_congr fun x low high => same x low (by omega)
  refine ⟨?_, ?_, ?_, ?_, ?_, ?_, ?_, ?_, ?_, framed.esp⟩
  · rw [first, framed.edi]
  · rw [at_ 4 (by decide), framed.esi]
  · rw [at_ 16 (by decide), framed.ebx]
  · rw [at_ 20 (by decide), framed.edx]
  · rw [at_ 24 (by decide), framed.ecx]
  · rw [at_ 28 (by decide), framed.eax]
  · rw [at_ 32 (by decide), framed.eflags]
  · rw [at_ 36 (by decide), framed.ebp]
  · rw [at_ 40 (by decide), framed.eip]

theorem switched_outside {m : Machine} {old new back : Word32} {x : Nat}
    (room : 52 ≤ (m.reg esp).toNat)
    (stack : x < (m.reg esp).toNat - 52 ∨ (m.reg esp).toNat ≤ x)
    (entry : x < old.toNat ∨ old.toNat + 4 ≤ x) : switched m old new back x = m.mem x := by
  unfold switched put
  rw [store_outside entry]
  exact push_all_outside (saves_fit room) stack

end Taking

section Created

variable {Pid : Type} {layout : Layout Pid} {initret : Nat}
variable {mem : Memory} {pid : Pid} {funcaddr ssize : Nat} {args : List Nat}

/-- The saved stack pointer of a new process -/
def newSp (layout : Layout Pid) (pid : Pid) (args : List Nat) : Nat :=
  layout.high pid - 4 - 4 * args.length - 48

/-- The registers with which a new process starts -/
def entry (layout : Layout Pid) (pid : Pid) (funcaddr : Nat) (args : List Nat) (cs : Word32) : Cpu where
  reg
    | ebp => BitVec.ofNat 32 (layout.high pid - 4)
    | esp => BitVec.ofNat 32 (newSp layout pid args) + 44
    | _ => 0
  eip := BitVec.ofNat 32 funcaddr
  cs := cs
  eflags := ifMask

/-- All that `create` pushes -/
def pushes (initret funcaddr saddr : Nat) (args : List Nat) : List Nat :=
  args.reverse ++ [initret, funcaddr, saddr] ++ [512, 0, 0, 0, 0, 0] ++
    [saddr - 4 * args.length - 12, 0, 0]

theorem pushes_length {saddr : Nat} : (pushes initret funcaddr saddr args).length = args.length + 12 := by
  simp [pushes]

variable (fits : Fits layout initret pid funcaddr args)

include fits

theorem new_sp_high :
    newSp layout pid args + 4 * args.length + 52 = layout.high pid := by
  have room := fits.room
  unfold newSp
  omega

theorem new_sp_number :
    (BitVec.ofNat 32 (newSp layout pid args)).toNat = newSp layout pid args := by
  have high := new_sp_high fits
  have bound := layout.bound pid
  bv_omega

theorem pushes_small :
    ∀ value ∈ pushes initret funcaddr (layout.high pid - 4) args, value < 4294967296 := by
  have bound := layout.bound pid
  have initretSmall := fits.initret
  have funcaddrSmall := fits.funcaddr
  intro value member
  simp only [pushes, List.mem_append, List.mem_reverse, List.mem_cons, List.not_mem_nil,
    or_false] at member
  rcases member with ((arg | one) | two) | three
  · exact fits.args value arg
  · omega
  · omega
  · omega

/-- `create` as one list of pushes, and the word of the saved stack pointer filled in behind them -/
theorem create_pushes :
    Shell.Commands.create initret mem funcaddr ssize args (layout.high pid - 4) =
      (store (pushWords (store mem (layout.high pid - 4) Shell.Commands.stackmagic)
          (layout.high pid - 4) (pushes initret funcaddr (layout.high pid - 4) args)).1
        (newSp layout pid args + 12) (newSp layout pid args),
        ⟨layout.high pid - 4, ssize, newSp layout pid args⟩) := by
  have high := fits.room
  have room : 4 * args.length + 48 ≤ layout.high pid - 4 := by omega
  have all := pushes_small fits
  unfold newSp
  generalize layout.high pid - 4 = saddr at room all ⊢
  have pointer {values more : List Nat} (whole : pushes initret funcaddr saddr args = values ++ more) :
      (pushWords (store mem saddr Shell.Commands.stackmagic) saddr values).2 =
        saddr - 4 * values.length := by
    have long := congrArg List.length whole
    rw [pushes_length, List.length_append] at long
    refine (push_words _ _ values (by omega) fun value member => all value ?_).1
    rw [whole]
    exact List.mem_append_left _ member
  have first := pointer (List.append_assoc _ _ _)
  have second := pointer rfl
  have third := pointer (List.append_nil _).symm
  simp only [List.length_append, List.length_reverse, List.length_cons, List.length_nil,
    pushes_length] at first second third
  have twelve : saddr - 4 * (args.length + (0 + 1 + 1 + 1)) = saddr - 4 * args.length - 12 := by omega
  have thirtySix : saddr - 4 * (args.length + (0 + 1 + 1 + 1) + (0 + 1 + 1 + 1 + 1 + 1 + 1)) =
      saddr - 4 * args.length - 48 + 12 := by omega
  have fortyEight : saddr - 4 * (args.length + 12) = saddr - 4 * args.length - 48 := by omega
  unfold Shell.Commands.create
  simp only [← push_words_append]
  simp only [first, second, twelve, thirtySix]
  have folded : args.reverse ++ [initret, funcaddr, saddr] ++ [512, 0, 0, 0, 0, 0] ++
      [saddr - 4 * args.length - 12, 0, 0] = pushes initret funcaddr saddr args := rfl
  rw [folded, third, fortyEight]

theorem create_sp :
    sp layout (create layout initret mem pid funcaddr ssize args) pid =
      BitVec.ofNat 32 (newSp layout pid args) := by
  unfold sp create
  rw [word_put, create_pushes fits]

/-- The words that `create` puts on a stack, from the saved stack pointer on -/
theorem create_word {i value : Nat} {place : Word32} (other : i ≠ 3)
    (at_ : ([0, 0, layout.high pid - 4 - 4 * args.length - 12, 0, 0, 0, 0, 0, 512, layout.high pid - 4,
      funcaddr, initret] ++ args)[i]? = some value)
    (here : place.toNat = newSp layout pid args + 4 * i) :
    word (create layout initret mem pid funcaddr ssize args) place = BitVec.ofNat 32 value := by
  have high := new_sp_high fits
  have apart := layout.table pid pid
  have low := fits.room
  have few := (List.getElem?_eq_some_iff.mp at_).1
  rw [List.length_append] at few
  change i < 12 + args.length at few
  have reversed : (pushes initret funcaddr (layout.high pid - 4) args).reverse =
      [0, 0, layout.high pid - 4 - 4 * args.length - 12, 0, 0, 0, 0, 0, 512, layout.high pid - 4,
        funcaddr, initret] ++ args := by
    simp [pushes]
  rw [← reversed] at at_
  have found := load_pushed (store mem (layout.high pid - 4) Shell.Commands.stackmagic)
    (layout.high pid - 4) (by rw [pushes_length]; omega) (pushes_small fits) at_
  have same : layout.high pid - 4 - 4 * (pushes initret funcaddr (layout.high pid - 4) args).length +
      4 * i = place.toNat := by
    rw [pushes_length]
    omega
  rw [same] at found
  unfold create
  rw [word_put_apart (by omega), word, create_pushes fits, load_store_apart (by omega), found]

theorem pushed_outside {x : Nat} (outside : x < newSp layout pid args ∨ layout.high pid - 4 ≤ x) (mem : Memory) :
    (pushWords mem (layout.high pid - 4) (pushes initret funcaddr (layout.high pid - 4) args)).1 x =
      mem x := by
  have high := new_sp_high fits
  exact (push_words _ _ _ (by rw [pushes_length]; omega) (pushes_small fits)).2.2 x
    (by rw [pushes_length]; omega)

theorem create_outside {x : Nat} (stack : x < layout.low pid ∨ layout.high pid ≤ x)
    (entry : x < (layout.prstkptr pid).toNat ∨ (layout.prstkptr pid).toNat + 4 ≤ x) :
    create layout initret mem pid funcaddr ssize args x = mem x := by
  have high := new_sp_high fits
  have room := fits.room
  unfold create put
  rw [store_outside entry, create_pushes fits]
  dsimp only
  rw [store_outside (by omega), pushed_outside fits (by omega), store_outside (by omega)]

theorem create_magic :
    load (create layout initret mem pid funcaddr ssize args) (layout.high pid - 4) =
      Shell.Commands.stackmagic := by
  have high := new_sp_high fits
  have room := fits.room
  have apart := layout.table pid pid
  unfold create put
  rw [load_store_apart (by omega), create_pushes fits, load_store_apart (by omega),
    load_congr fun x low _ => pushed_outside fits (Or.inr low) _]
  exact load_store (by decide)

/-- `create` makes the frame of a process that is about to call its function. -/
theorem create_framed (cs : Word32) :
    Framed (create layout initret mem pid funcaddr ssize args) (BitVec.ofNat 32 (newSp layout pid args))
      (entry layout pid funcaddr args cs) := by
  have high := new_sp_high fits
  have bound := layout.bound pid
  have number := new_sp_number fits
  have at_ (offset : Word32) (i : Nat) (fits : offset.toNat = 4 * i) (few : i ≤ 11) :
      (BitVec.ofNat 32 (newSp layout pid args) + offset).toNat = newSp layout pid args + 4 * i := by
    rw [to_nat_add (by omega), number, fits]
  constructor
  · exact create_word fits (i := 0) (by decide) rfl number
  · exact create_word fits (by decide) rfl (at_ 4 1 rfl (by decide))
  · exact create_word fits (by decide) rfl (at_ 16 4 rfl (by decide))
  · exact create_word fits (by decide) rfl (at_ 20 5 rfl (by decide))
  · exact create_word fits (by decide) rfl (at_ 24 6 rfl (by decide))
  · exact create_word fits (by decide) rfl (at_ 28 7 rfl (by decide))
  · exact create_word fits (by decide) rfl (at_ 32 8 rfl (by decide))
  · exact create_word fits (by decide) rfl (at_ 36 9 rfl (by decide))
  · exact create_word fits (by decide) rfl (at_ 40 10 rfl (by decide))
  · rfl

end Created

section Steps

variable {Pid : Type} [DecidableEq Pid] {layout : Layout Pid} {initret : Nat}
variable {s start : System Pid} {event : Event Pid} {p : Pid}

omit [DecidableEq Pid] in
theorem sp_congr {mem mem' : Memory}
    (same : ∀ x, (layout.prstkptr p).toNat ≤ x → x < (layout.prstkptr p).toNat + 4 →
      mem' x = mem x) : sp layout mem' p = sp layout mem p :=
  word_congr same

variable (multiplexed : Multiplexed layout s)

include multiplexed

/-- An allowed event changes neither the entry of a process that exists and does not run, nor its
stack from its stack pointer on. -/
theorem act_outside (allowed : Allowed layout initret s event)
    (away : p ≠ s.currpid) (exists_ : s.made p = true) {x : Nat}
    (inside : (layout.prstkptr p).toNat ≤ x ∧ x < (layout.prstkptr p).toNat + 4 ∨
      (sp layout s.machine.mem p).toNat ≤ x ∧ x < layout.high p) :
    (act layout initret s event).machine.mem x = s.machine.mem x := by
  have frame := multiplexed.frames p away exists_
  cases event with
  | compute f =>
      have polite : Polite layout s (f s.machine) := allowed
      rcases inside with entry | stack
      · exact polite.table p x entry.1 entry.2
      · exact polite.others p away exists_ x stack.1 stack.2
  | create pid funcaddr ssize args =>
      obtain ⟨new, fits⟩ := allowed
      have differ : p ≠ pid := by
        rintro rfl
        rw [exists_] at new
        cases new
      have apart := layout.apart p pid differ
      have table := layout.table p pid
      have table' := layout.table pid p
      have entries := layout.entries p pid differ
      have room := fits.room
      exact create_outside fits (by omega) (by omega)
  | resched next back =>
      have room : layout.low s.currpid + 52 ≤ (s.machine.reg esp).toNat := allowed.2
      have high := multiplexed.high
      have apart := layout.apart p s.currpid away
      have table := layout.table p s.currpid
      have table' := layout.table s.currpid p
      have own := layout.table s.currpid s.currpid
      have entries := layout.entries p s.currpid away
      have runs := @call_runs s.machine (layout.prstkptr s.currpid) (layout.prstkptr next) back
        (by omega) (by omega)
      change (callCtxsw _ _ _ _).mem x = _
      rw [runs]
      exact switched_outside (by omega) (by omega) (by omega)

/-- The memory behind a switch from the current process -/
def left (layout : Layout Pid) (s : System Pid) (next : Pid) (back : Word32) : Memory :=
  switched s.machine (layout.prstkptr s.currpid) (layout.prstkptr next) back

/-- A switch from the current process, as the memory behind it and the registers taken from it -/
theorem resched_runs {next : Pid} {back : Word32}
    (room : layout.low s.currpid + 52 ≤ (s.machine.reg esp).toNat) :
    (act layout initret s (.resched next back)).machine =
      ⟨taken (left layout s next back) (sp layout (left layout s next back) next) s.machine.cpu,
        left layout s next back⟩ := by
  have own := layout.table s.currpid s.currpid
  have high := multiplexed.high
  exact call_runs (by omega) (by omega)

omit [DecidableEq Pid] multiplexed in
/-- The stack pointer that a switch stores for the old process -/
theorem switched_sp {next : Pid} {back : Word32} :
    sp layout (left layout s next back) s.currpid = s.machine.reg esp - 52 :=
  word_put

theorem switched_frames {next : Pid} {back : Word32}
    (allowed : Allowed layout initret s (.resched next back)) (exists_ : s.made p = true) :
    layout.low p ≤ (sp layout (left layout s next back) p).toNat ∧
      (sp layout (left layout s next back) p).toNat + 44 ≤ layout.high p := by
  have room : layout.low s.currpid + 52 ≤ (s.machine.reg esp).toNat := allowed.2
  have high := multiplexed.high
  by_cases same : p = s.currpid
  · subst same
    rw [switched_sp, to_nat_sub (by change 52 ≤ _; omega)]
    change _ ≤ _ - 52 ∧ _ - 52 + 44 ≤ _
    omega
  · have frame := multiplexed.frames p same exists_
    have kept {x : Nat} := @act_outside _ _ _ initret _ _ _ multiplexed allowed same exists_ x
    rw [resched_runs multiplexed room] at kept
    rw [sp_congr fun x low high => kept (Or.inl ⟨low, high⟩)]
    exact frame

theorem act_multiplexed (allowed : Allowed layout initret s event) :
    Multiplexed layout (act layout initret s event) := by
  have kept {q : Pid} (away : q ≠ s.currpid) (exists_ : s.made q = true) :
      sp layout (act layout initret s event).machine.mem q = sp layout s.machine.mem q :=
    sp_congr fun x low high => act_outside multiplexed allowed away exists_ (Or.inl ⟨low, high⟩)
  cases event with
  | compute f =>
      have polite : Polite layout s (f s.machine) := allowed
      refine ⟨multiplexed.current, polite.low, polite.high, polite.plain, ?_⟩
      intro q away exists_
      rw [kept away exists_]
      exact multiplexed.frames q away exists_
  | create pid funcaddr ssize args =>
      obtain ⟨new, fits⟩ := allowed
      have differ : s.currpid ≠ pid := by
        rintro rfl
        rw [multiplexed.current] at new
        cases new
      have others {q : Pid} (other : q ≠ pid) :
          (act layout initret s (.create pid funcaddr ssize args)).made q = s.made q :=
        Function.update_of_ne other _ _
      refine ⟨?_, multiplexed.low, multiplexed.high, multiplexed.plain, ?_⟩
      · exact (others differ).trans multiplexed.current
      · intro q away exists_
        by_cases same : q = pid
        · subst same
          have room := fits.room
          have high := new_sp_high fits
          change layout.low q ≤ (sp layout (create _ _ _ _ _ _ _) q).toNat ∧
            (sp layout (create _ _ _ _ _ _ _) q).toNat + 44 ≤ layout.high q
          rw [create_sp fits, new_sp_number fits]
          omega
        · rw [others same] at exists_
          rw [kept away exists_]
          exact multiplexed.frames q away exists_
  | resched next back =>
      have frames {q : Pid} := @switched_frames _ _ _ initret _ q multiplexed next back allowed
      obtain ⟨chosen, room⟩ := allowed
      have bound := layout.bound next
      have frame := frames chosen
      have runs := @resched_runs _ _ _ initret _ multiplexed next back room
      have pointer : (act layout initret s (.resched next back)).machine.reg esp =
          sp layout (left layout s next back) next + 44 := by
        rw [runs]
        rfl
      have number : (sp layout (left layout s next back) next + 44).toNat =
          (sp layout (left layout s next back) next).toNat + 44 :=
        to_nat_add (by change _ + 44 < _; omega)
      refine ⟨chosen, ?_, ?_, ?_, ?_⟩
      · rw [pointer, number]
        change layout.low next ≤ _
        omega
      · rw [pointer, number]
        exact frame.2
      · rw [runs]
        exact taken_plain multiplexed.plain
      · intro q _ exists_
        rw [runs]
        exact frames exists_

theorem act_segment (allowed : Allowed layout initret s event) :
    (act layout initret s event).machine.cpu.cs = s.machine.cpu.cs := by
  cases event with
  | compute f => exact Polite.segment allowed
  | create pid funcaddr ssize args => rfl
  | resched next back =>
      rw [resched_runs multiplexed allowed.2]
      rfl

/-- The process has not run since, and nothing has changed what it needs. -/
structure Parked (layout : Layout Pid) (start s : System Pid) (p : Pid) : Prop where
  away : p ≠ s.currpid
  exists_ : s.made p = true
  segment : s.machine.cpu.cs = start.machine.cpu.cs
  table : ∀ x, (layout.prstkptr p).toNat ≤ x → x < (layout.prstkptr p).toNat + 4 →
    s.machine.mem x = start.machine.mem x
  stack : ∀ x, (sp layout start.machine.mem p).toNat ≤ x → x < layout.high p →
    s.machine.mem x = start.machine.mem x

omit [DecidableEq Pid] multiplexed in
theorem parked_refl (away : p ≠ s.currpid) (exists_ : s.made p = true) : Parked layout s s p :=
  ⟨away, exists_, rfl, fun _ _ _ => rfl, fun _ _ _ => rfl⟩

theorem act_parked (allowed : Allowed layout initret s event)
    (other : switchesTo p event = false) (parked : Parked layout start s p) :
    Parked layout start (act layout initret s event) p := by
  have pointer : sp layout s.machine.mem p = sp layout start.machine.mem p := sp_congr parked.table
  have kept {x : Nat} := @act_outside _ _ _ initret _ event _ multiplexed allowed parked.away
    parked.exists_ x
  refine ⟨?_, ?_, (act_segment multiplexed allowed).trans parked.segment, ?_, ?_⟩
  · cases event with
    | compute f => exact parked.away
    | create pid funcaddr ssize args => exact parked.away
    | resched next back =>
        intro same
        have chosen : switchesTo p (.resched next back) = true := decide_eq_true same.symm
        rw [chosen] at other
        cases other
  · cases event with
    | compute f => exact parked.exists_
    | resched next back => exact parked.exists_
    | create pid funcaddr ssize args =>
        change Function.update s.made pid true p = true
        rw [Function.update_apply]
        split
        · rfl
        · exact parked.exists_
  · intro x low high
    rw [kept (Or.inl ⟨low, high⟩), parked.table x low high]
  · intro x low high
    rw [kept (Or.inr ⟨by rw [pointer]; exact low, high⟩), parked.stack x low high]

end Steps

section Runs

variable {Pid : Type} [DecidableEq Pid] {layout : Layout Pid} {initret : Nat}
variable {s start : System Pid} {p : Pid} {events : List (Event Pid)}

theorem after_multiplexed (multiplexed : Multiplexed layout s)
    (allowed : AllowedRun layout initret s events) :
    Multiplexed layout (after layout initret s events) := by
  induction events generalizing s with
  | nil => exact multiplexed
  | cons event events induction => exact induction (act_multiplexed multiplexed allowed.1) allowed.2

theorem after_parked (multiplexed : Multiplexed layout s)
    (allowed : AllowedRun layout initret s events)
    (others : ∀ event ∈ events, switchesTo p event = false) (parked : Parked layout start s p) :
    Parked layout start (after layout initret s events) p := by
  induction events generalizing s with
  | nil => exact parked
  | cons event events induction =>
      exact induction (act_multiplexed multiplexed allowed.1) allowed.2
        (fun event member => others event (List.mem_cons_of_mem _ member))
        (act_parked multiplexed allowed.1 (others event List.mem_cons_self) parked)

theorem allowed_append {more : List (Event Pid)}
    (allowed : AllowedRun layout initret s (events ++ more)) :
    AllowedRun layout initret s events ∧
      AllowedRun layout initret (after layout initret s events) more := by
  induction events generalizing s with
  | nil => exact ⟨trivial, allowed⟩
  | cons event events induction =>
      obtain ⟨rest, tail⟩ := induction allowed.2
      exact ⟨⟨allowed.1, rest⟩, tail⟩

theorem after_append (more : List (Event Pid)) :
    after layout initret s (events ++ more) = after layout initret (after layout initret s events) more :=
  List.foldl_append

theorem after_one (event : Event Pid) :
    after layout initret s [event] = act layout initret s event := rfl

/-- A process with a frame gets the processor back with the registers of its frame, whatever the
others have done in the meantime. -/
theorem gets_back {c : Cpu} {back : Word32} (multiplexed : Multiplexed layout s)
    (allowed : AllowedRun layout initret s (events ++ [.resched p back]))
    (others : ∀ event ∈ events, switchesTo p event = false) (away : p ≠ s.currpid)
    (exists_ : s.made p = true) (framed : Framed s.machine.mem (sp layout s.machine.mem p) c)
    (segment : s.machine.cpu.cs = c.cs) :
    (after layout initret s (events ++ [.resched p back])).machine.cpu =
        resumed (sp layout s.machine.mem p) c ∧
      ∀ x, (sp layout s.machine.mem p).toNat ≤ x → x < layout.high p →
        (after layout initret s (events ++ [.resched p back])).machine.mem x = s.machine.mem x := by
  obtain ⟨first, last, _⟩ := allowed_append allowed
  have bound := layout.bound p
  have frame := multiplexed.frames p away exists_
  have then_ := after_multiplexed multiplexed first
  have parked := after_parked multiplexed first others (parked_refl away exists_)
  have pointer : sp layout (after layout initret s events).machine.mem p =
      sp layout s.machine.mem p := sp_congr parked.table
  have outside {x : Nat} := @act_outside _ _ _ initret _ _ _ then_ last parked.away parked.exists_ x
  rw [after_append, after_one]
  rw [pointer] at outside
  have kept (x : Nat) (low : (sp layout s.machine.mem p).toNat ≤ x) (high : x < layout.high p) :=
    (outside (Or.inr ⟨low, high⟩)).trans (parked.stack x low high)
  have table (x : Nat) (low : (layout.prstkptr p).toNat ≤ x)
      (high : x < (layout.prstkptr p).toNat + 4) :=
    (outside (Or.inl ⟨low, high⟩)).trans (parked.table x low high)
  refine ⟨?_, kept⟩
  rw [resched_runs then_ last.2] at kept table ⊢
  rw [sp_congr table]
  exact taken_framed (framed_congr framed (by omega) fun x low high => kept x low (by omega))
    then_.plain (parked.segment.trans segment)

end Runs

section Results

variable {Pid : Type} [DecidableEq Pid] {layout : Layout Pid} {initret : Nat}
variable {s : System Pid} {p next : Pid} {events : List (Event Pid)} {back back' : Word32}

/-- A call of `ctxsw` returns in the state in which it has been made, apart from the status flags:
every register, the instruction pointer and the interrupt flag are those of the call, and so is the
stack, whatever other processes have done and however often they have been switched. -/
theorem switch_returns (multiplexed : Multiplexed layout s) (differ : next ≠ s.currpid)
    (allowed : AllowedRun layout initret s
      (.resched next back :: (events ++ [.resched s.currpid back'])))
    (others : ∀ event ∈ events, switchesTo s.currpid event = false) :
    (after layout initret s (.resched next back :: (events ++ [.resched s.currpid back']))).machine.cpu =
        behind s.machine.cpu back ∧
      ∀ x, (s.machine.reg esp).toNat ≤ x → x < layout.high s.currpid →
        (after layout initret s
          (.resched next back :: (events ++ [.resched s.currpid back']))).machine.mem x =
            s.machine.mem x := by
  obtain ⟨chosen, room⟩ : s.made next = true ∧
    layout.low s.currpid + 52 ≤ (s.machine.reg esp).toNat := allowed.1
  have own := layout.table s.currpid s.currpid
  have high := multiplexed.high
  have runs := @resched_runs _ _ _ initret _ multiplexed next back room
  have then_ := act_multiplexed multiplexed allowed.1
  have framed := @switch_frames s.machine (layout.prstkptr s.currpid) (layout.prstkptr next) back
    (by omega) (by omega) multiplexed.plain
  have pointer : sp layout (act layout initret s (.resched next back)).machine.mem s.currpid =
      s.machine.reg esp - 52 := by
    rw [runs]
    exact switched_sp
  have segment := act_segment multiplexed allowed.1
  have number : (s.machine.reg esp - 52).toNat = (s.machine.reg esp).toNat - 52 :=
    to_nat_sub (by change 52 ≤ _; omega)
  have result := gets_back then_ allowed.2 others (Ne.symm differ) multiplexed.current
    (c := ⟨Function.update s.machine.cpu.reg esp (s.machine.reg esp - 8), back, s.machine.cpu.cs,
      s.machine.cpu.eflags⟩) (by rw [pointer, runs]; exact framed) segment
  rw [pointer] at result
  refine ⟨result.1.trans (Cpu.ext rfl rfl rfl ?_), ?_⟩
  · change (2 ||| s.machine.cpu.eflags &&& popfMask) &&& ~~~statusMask ||| sumFlags _ 4 =
      s.machine.cpu.eflags &&& ~~~statusMask ||| sumFlags _ 4
    have sixteen : s.machine.reg esp - 52 + 36 = s.machine.cpu.reg esp - 16 := by
      change s.machine.cpu.reg esp - 52 + 36 = _
      bv_omega
    rw [BitVec.or_comm 2, ← plain_eq multiplexed.plain, sixteen]
  · intro x low above
    refine (result.2 x (by omega) above).trans ?_
    rw [runs]
    exact switched_outside (by omega) (Or.inr low) (by omega)

/-- In every run a call of `ctxsw` returns in the state in which it has been made, at the next switch
back to its process. -/
theorem calls_return {before : List (Event Pid)} (multiplexed : Multiplexed layout s)
    (allowed : AllowedRun layout initret s
      (before ++ .resched next back :: (events ++ [.resched p back'])))
    (current : (after layout initret s before).currpid = p) (differ : next ≠ p)
    (others : ∀ event ∈ events, switchesTo p event = false) :
    (after layout initret s
        (before ++ .resched next back :: (events ++ [.resched p back']))).machine.cpu =
        behind (after layout initret s before).machine.cpu back ∧
      ∀ x, ((after layout initret s before).machine.reg esp).toNat ≤ x → x < layout.high p →
        (after layout initret s
          (before ++ .resched next back :: (events ++ [.resched p back']))).machine.mem x =
            (after layout initret s before).machine.mem x := by
  obtain ⟨first, rest⟩ := allowed_append allowed
  subst current
  rw [after_append]
  exact switch_returns (after_multiplexed multiplexed first) differ rest others

/-- Two stacks behind each other, for two processes -/
def twoStacks : Layout Bool where
  low p := if p then 8192 else 4096
  high p := if p then 12288 else 8192
  prstkptr p := if p then 256 else 0
  bound := by decide
  apart := by decide
  table := by decide
  entries := by decide

/-- One of two processes runs, and the other one has a frame on its stack. -/
def oneOfTwo : System Bool where
  currpid := false
  made _ := true
  machine := ⟨⟨fun r => if r = esp then 6144 else 7, 77, 8, 2⟩, put (fun _ => 0) 256 10240⟩

theorem one_of_two : Multiplexed twoStacks oneOfTwo := by
  refine ⟨rfl, by decide, by decide, by decide, ?_⟩
  intro p away _
  cases p with
  | false => exact absurd rfl away
  | true =>
      have stored : sp twoStacks oneOfTwo.machine.mem true = 10240 := word_put
      rw [stored]
      decide

theorem calls_return_two :
    (after twoStacks 0 oneOfTwo [.resched true 99, .resched false 88]).machine.cpu =
      behind oneOfTwo.machine.cpu 99 := by
  have first : Allowed twoStacks 0 oneOfTwo (.resched true 99) := ⟨rfl, by decide⟩
  have second : Allowed twoStacks 0 (act twoStacks 0 oneOfTwo (.resched true 99)) (.resched false 88) := by
    refine ⟨rfl, ?_⟩
    rw [resched_runs one_of_two first.2]
    decide +kernel
  exact (@calls_return _ _ twoStacks 0 oneOfTwo false true [] 99 88 [] one_of_two
    ⟨first, second, trivial⟩ rfl (by decide) (fun _ none => absurd none List.not_mem_nil)).1

/-- A new process starts at its function with its arguments and `INITRET` on the stack, whatever the
others do before it is chosen for the first time, and with interrupts enabled; `STACKMAGIC` is at
the place in `ebp`. -/
theorem first_dispatch {funcaddr ssize : Nat} {args : List Nat} (multiplexed : Multiplexed layout s)
    (allowed : AllowedRun layout initret s
      (.create p funcaddr ssize args :: (events ++ [.resched p back])))
    (others : ∀ event ∈ events, switchesTo p event = false) :
    let started := after layout initret s
      (.create p funcaddr ssize args :: (events ++ [.resched p back]))
    started.machine.cpu.eip = BitVec.ofNat 32 funcaddr ∧
      started.machine.top 0 = BitVec.ofNat 32 initret ∧
      (∀ i arg, args[i]? = some arg →
        started.machine.top (BitVec.ofNat 32 (4 + 4 * i)) = BitVec.ofNat 32 arg) ∧
      started.machine.cpu.eflags &&& ifMask = ifMask ∧
      load started.machine.mem (started.machine.reg ebp).toNat = Shell.Commands.stackmagic ∧
      started.machine.cpu.Plain := by
  obtain ⟨new, fits⟩ := allowed.1
  have room := fits.room
  have bound := layout.bound p
  have apart := layout.table p p
  have away : p ≠ s.currpid := by
    rintro rfl
    rw [multiplexed.current] at new
    cases new
  let begun := act layout initret s (.create p funcaddr ssize args)
  have then_ : Multiplexed layout begun := act_multiplexed multiplexed allowed.1
  have pointer : sp layout begun.machine.mem p = BitVec.ofNat 32 (newSp layout p args) := create_sp fits
  have number := new_sp_number fits
  have end_ := new_sp_high fits
  have framed : Framed begun.machine.mem (sp layout begun.machine.mem p)
      (entry layout p funcaddr args begun.machine.cpu.cs) := by
    rw [pointer]
    exact create_framed fits _
  have exists_ : begun.made p = true := by
    change Function.update s.made p true p = true
    rw [Function.update_self]
  obtain ⟨cpu, kept⟩ := gets_back then_ allowed.2 others away exists_ framed rfl
  rw [pointer] at cpu kept
  rw [number] at kept
  intro started
  change started.machine.cpu = _ at cpu
  change ∀ x, newSp layout p args ≤ x → x < layout.high p →
    started.machine.mem x = begun.machine.mem x at kept
  have stack {place : Word32} (low : newSp layout p args ≤ place.toNat)
      (high : place.toNat + 4 ≤ layout.high p) :
      word started.machine.mem place = word begun.machine.mem place :=
    word_congr fun x above below => kept x (by omega) (by omega)
  have esp_ : started.machine.reg esp = BitVec.ofNat 32 (newSp layout p args) + 44 := by
    change started.machine.cpu.reg esp = _
    rw [cpu]
    rfl
  refine ⟨?_, ?_, ?_, ?_, ?_, ?_⟩
  · rw [cpu]
    rfl
  · have place : (BitVec.ofNat 32 (newSp layout p args) + 44 + 0).toNat = newSp layout p args + 4 * 11 := by
      rw [to_nat_add (by bv_omega), to_nat_add (by bv_omega), number]
      rfl
    unfold top
    rw [esp_, stack (by omega) (by omega)]
    exact create_word fits (by decide) rfl place
  · intro i arg at_
    have few := (List.getElem?_eq_some_iff.mp at_).1
    have offset : (BitVec.ofNat 32 (4 + 4 * i)).toNat = 4 + 4 * i := by bv_omega
    have place : (BitVec.ofNat 32 (newSp layout p args) + 44 + BitVec.ofNat 32 (4 + 4 * i)).toNat =
        newSp layout p args + 4 * (12 + i) := by
      have first : (BitVec.ofNat 32 (newSp layout p args) + 44).toNat = newSp layout p args + 44 := by
        rw [to_nat_add (by bv_omega), number]
        rfl
      rw [to_nat_add (by omega), first, offset]
      omega
    unfold top
    rw [esp_, stack (by omega) (by omega)]
    exact create_word fits (by omega)
      (by rw [List.getElem?_append_right (by simp), ← at_]; congr 1; simp) place
  · rw [cpu]
    have narrower : ifMask = ~~~statusMask &&& ifMask := by decide
    have sum (a b : Word32) : sumFlags a b &&& ifMask = 0#32 := by
      rw [narrower, ← BitVec.and_assoc, sum_flags_inside, BitVec.zero_and]
    change ((2 ||| ifMask &&& popfMask) &&& ~~~statusMask ||| sumFlags _ 4) &&& ifMask = ifMask
    rw [and_or_and, sum, BitVec.or_zero]
    decide
  · have frame : started.machine.reg ebp = BitVec.ofNat 32 (layout.high p - 4) := by
      change started.machine.cpu.reg ebp = _
      rw [cpu]
      rfl
    have place : (BitVec.ofNat 32 (layout.high p - 4)).toNat = layout.high p - 4 := by
      bv_omega
    rw [frame, place, load_congr fun x low high => kept x (by omega) (by omega)]
    exact create_magic fits
  · exact (after_multiplexed then_ allowed.2).plain

def alone : System Bool := { oneOfTwo with made := fun p => p == false }

theorem alone_multiplexed : Multiplexed twoStacks alone := by
  refine ⟨rfl, by decide, by decide, by decide, ?_⟩
  intro p away exists_
  cases p with
  | false => exact absurd rfl away
  | true => cases exists_

theorem first_dispatch_two :
    (after twoStacks 33 alone [.create true 444 4096 [5, 6], .resched true 99]).machine.cpu.eip = 444 ∧
      (after twoStacks 33 alone [.create true 444 4096 [5, 6], .resched true 99]).machine.top 8 = 6 := by
  have fits : Fits twoStacks 33 true 444 [5, 6] := ⟨by decide, by decide, by decide, by decide⟩
  have first : Allowed twoStacks 33 alone (.create true 444 4096 [5, 6]) := ⟨rfl, fits⟩
  have second : Allowed twoStacks 33 (act twoStacks 33 alone (.create true 444 4096 [5, 6]))
      (.resched true 99) := ⟨rfl, by decide⟩
  have started := @first_dispatch _ _ twoStacks 33 alone true [] 99 444 4096 [5, 6] alone_multiplexed
    ⟨first, second, trivial⟩ (fun _ none => absurd none List.not_mem_nil)
  exact ⟨started.1, started.2.2.1 1 6 rfl⟩

end Results

end Xinu.Kernel.ContextSwitch
