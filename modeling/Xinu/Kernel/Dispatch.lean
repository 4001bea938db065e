import Xinu.Kernel.ContextSwitch

/-!
# Interrupted processes

The gates of the clock and of a page fault are trap gates: the processor saves the flags, the code
segment and the instruction pointer, and leaves interrupts as they are. The dispatchers save the
registers around a routine of the compiler.
-/

namespace Xinu.Kernel.Dispatch

open Xinu.Lib.ByteMemory Xinu.Lib.Processor Xinu.Kernel.ContextSwitch
open Xinu.Lib.Processor.Register Xinu.Lib.Processor.Machine

set_option autoImplicit false

section Definitions

/-- TF, NT, RF and VM, which a trap gate clears -/
def gateMask : Word32 := 0x34100

/-- The processor at a trap gate, with the image of the flags that it saves -/
def trap (m : Machine) (image : Word32) (more : List Word32) : Machine :=
  (m.pushAll ([image, m.cpu.cs, m.cpu.eip] ++ more)).setFlags (m.cpu.eflags &&& ~~~gateMask)

/-- A clock interrupt between two instructions -/
def clockInterrupt (m : Machine) : Machine := trap m m.cpu.eflags []

/-- An instruction that faults: RF is set in the image, and an error code is on top. -/
def pageFault (m : Machine) (errCode : Word32) : Machine := trap m (m.cpu.eflags ||| rf) [errCode]

def eoi : BitVec 8 := 0x20

def clkdisp (back : Word32) (clkhandler : Machine → Machine) : List Instr :=
  [.pushal, .cli, .movb eoi eax, .outb, .call back clkhandler, .sti, .popal, .iret]

def pfDispatcher (pfErrCode back : Word32) (pfHandler : Machine → Machine) : List Instr :=
  [.popTo pfErrCode, .pushfl, .pushal, .call back pfHandler, .popal, .popfl, .iret]

/-- The machine at the first instruction of `clkhandler` -/
def clkEntry (m : Machine) (back : Word32) : Machine :=
  (run [.pushal, .cli, .movb eoi eax, .outb] (clockInterrupt m)).push back

/-- The machine at the first instruction of `pf_handler` -/
def pfEntry (m : Machine) (errCode pfErrCode back : Word32) : Machine :=
  (run [.popTo pfErrCode, .pushfl, .pushal] (pageFault m errCode)).push back

end Definitions

section Stacks

variable {m n : Machine} {above : Nat} {values : List Word32}

/-- What a routine that has been called with a return address hands back of the words below it -/
theorem returned_word {place : Word32} (returned : Returned above m n)
    (low : (m.reg esp).toNat + 4 ≤ place.toNat) (high : place.toNat + 4 ≤ above) :
    word n.mem place = word m.mem place :=
  word_congr fun x below top => returned.live x (by omega) (by omega)

/-- The last instructions of both dispatchers, when the stack is as they have left it -/
theorem iret_runs {c : Cpu} {image : Word32} (eip : n.top 0 = c.eip) (cs : n.top 4 = c.cs)
    (flags : n.top 8 = c.eflags ||| image) (plain : n.cpu.Plain) (plain' : c.Plain)
    (extra : image &&& iretMask = image) (pointer : n.reg esp + 12 = c.reg esp)
    (others : ∀ r, r ≠ esp → n.reg r = c.reg r) :
    exec n .iret = ⟨{ c with eflags := c.eflags ||| image }, n.mem⟩ := by
  refine Machine.ext (Cpu.ext (funext fun r => ?_) eip cs ?_) rfl
  · by_cases same : r = esp
    · subst same
      refine Eq.trans ?_ pointer
      simp [exec, drop, Machine.set, Cpu.set, Machine.reg]
    · refine Eq.trans ?_ (others r same)
      simp [exec, drop, Machine.set, Cpu.set, Machine.reg, same]
  · change n.cpu.eflags &&& ~~~iretMask ||| n.top 8 &&& iretMask = _
    rw [flags]
    exact iret_plain plain' plain extra

theorem top_update (c : Cpu) (reg : Register → Word32) (mem : Memory) (value offset : Word32) :
    Machine.top ⟨{ c with reg := Function.update reg esp value }, mem⟩ offset =
      word mem (value + offset) := by
  simp [Machine.top, Machine.reg]

theorem esp_update (c : Cpu) (reg : Register → Word32) (mem : Memory) (value : Word32) :
    Machine.reg ⟨{ c with reg := Function.update reg esp value }, mem⟩ esp = value := by
  simp [Machine.reg]

/-- A routine that returns at once keeps to the convention. -/
theorem ret_returned : Returned above m (exec m .ret) := by
  have kept {r : Register} (other : r ≠ esp) : (exec m .ret).reg r = m.reg r := by
    simp [exec, drop, Machine.set, Cpu.set, Machine.reg, other]
  refine ⟨kept (by decide), kept (by decide), kept (by decide), kept (by decide), ?_, fun _ _ _ => rfl⟩
  simp [exec, drop, Machine.set, Cpu.set, Machine.reg]

theorem plain_sti {flags : Word32} (plain : flags &&& ~~~popfMask = 2) :
    (flags ||| ifMask) &&& ~~~popfMask = 2 := by
  rw [and_or_and, plain]
  decide

end Stacks

section Clock

variable {m n : Machine} {back : Word32} {above : Nat}

/-- What is on the stack when `clkhandler` is called -/
def clkSaves (m : Machine) (back : Word32) : List Word32 :=
  [m.cpu.eflags, m.cpu.cs, m.cpu.eip, m.reg eax, m.reg ecx, m.reg edx, m.reg ebx, m.reg esp - 12,
    m.reg ebp, m.reg esi, m.reg edi, back]

theorem clk_saves_fit (room : 48 ≤ (m.reg esp).toNat) :
    4 * (clkSaves m back).length ≤ (m.reg esp).toNat := by
  have long : (clkSaves m back).length = 12 := rfl
  rw [long]
  exact room

theorem clk_entry_mem : (clkEntry m back).mem = (m.pushAll (clkSaves m back)).mem := by
  have twelve (a : Word32) : a - 4#32 - 4#32 - 4#32 = a - 12#32 := by bv_omega
  simp [clkEntry, clockInterrupt, trap, run, exec, clkSaves, pushAll, push, setFlags, Machine.reg,
    Machine.set, Cpu.set]
  simp [twelve]

theorem clk_entry_esp : (clkEntry m back).reg esp = m.reg esp - 48 := by
  have pushed : (clkEntry m back).reg esp =
      m.reg esp - 4 - 4 - 4 - 4 - 4 - 4 - 4 - 4 - 4 - 4 - 4 - 4 := by
    simp [clkEntry, clockInterrupt, trap, run, exec, pushAll, push, setFlags, Machine.reg,
      Machine.set, Cpu.set]
  rw [pushed]
  bv_omega

theorem clk_entry_number (room : 48 ≤ (m.reg esp).toNat) :
    ((clkEntry m back).reg esp).toNat = (m.reg esp).toNat - 48 := by
  rw [clk_entry_esp]
  exact to_nat_sub (by exact room)

theorem clk_word {value place : Word32} (i : Nat) (room : 48 ≤ (m.reg esp).toNat)
    (returned : Returned above (clkEntry m back) n) (inside : (m.reg esp).toNat ≤ above)
    (found : (clkSaves m back)[i]? = some value) (few : i < 11)
    (here : place.toNat = (m.reg esp).toNat - 4 * (i + 1)) : word n.mem place = value := by
  have pointer := @clk_entry_number m back room
  rw [returned_word returned (by omega) (by omega), clk_entry_mem]
  exact push_all_word (clk_saves_fit room) found here

/-- The dispatcher up to the handler, and behind it -/
theorem clkdisp_runs (clkhandler : Machine → Machine) :
    run (clkdisp back clkhandler) (clockInterrupt m) =
      run [.sti, .popal, .iret] (clkhandler (clkEntry m back)) := by
  simp only [clkdisp, clkEntry, run_cons, run_nil, exec_call]

/-- A clock interrupt whose handler keeps to the convention leaves the registers, the flags and the
instruction pointer of the process that it has interrupted as they were. -/
theorem clkdisp_returns {clkhandler : Machine → Machine} (room : 48 ≤ (m.reg esp).toNat)
    (inside : (m.reg esp).toNat ≤ above) (plain : m.cpu.Plain)
    (returned : Returned above (clkEntry m back) (clkhandler (clkEntry m back)))
    (plain' : (clkhandler (clkEntry m back)).cpu.Plain) :
    run (clkdisp back clkhandler) (clockInterrupt m) =
      ⟨m.cpu, (clkhandler (clkEntry m back)).mem⟩ := by
  rw [clkdisp_runs]
  generalize clkhandler (clkEntry m back) = n at returned plain' ⊢
  have pointer : n.reg esp = m.reg esp - 44 := by
    rw [returned.esp, clk_entry_esp]
    bv_omega
  have at_ {value place : Word32} (i : Nat) := @clk_word m n back above value place i room returned inside
  let stied : Machine := n.setFlags (n.cpu.eflags ||| ifMask)
  have pushed : PushedAll stied.mem (stied.reg esp)
      (Function.update m.cpu.reg esp (m.reg esp - 12)) := by
    change PushedAll n.mem (n.reg esp) _
    rw [pointer]
    constructor
    · exact at_ 10 rfl (by decide) (by bv_omega)
    · exact at_ 9 rfl (by decide) (by bv_omega)
    · exact at_ 8 rfl (by decide) (by bv_omega)
    · exact at_ 6 rfl (by decide) (by bv_omega)
    · exact at_ 5 rfl (by decide) (by bv_omega)
    · exact at_ 4 rfl (by decide) (by bv_omega)
    · exact at_ 3 rfl (by decide) (by bv_omega)
  have popped := popal_runs pushed (by
    change Function.update m.cpu.reg esp (m.reg esp - 12) esp = n.reg esp + 32
    rw [Function.update_self, pointer]
    bv_omega)
  rw [run_cons, run_cons, run_cons, run_nil]
  change exec (exec stied .popal) .iret = _
  rw [popped]
  have result := @iret_runs ⟨{ stied.cpu with reg := Function.update m.cpu.reg esp (m.reg esp - 12) },
    stied.mem⟩ m.cpu 0#32 ?_ ?_ ?_ (plain_sti plain') plain (by decide) ?_ ?_
  · rw [result, BitVec.or_zero]
    rfl
  · rw [top_update]
    exact at_ 2 rfl (by decide) (by bv_omega)
  · rw [top_update]
    exact at_ 1 rfl (by decide) (by bv_omega)
  · rw [top_update, BitVec.or_zero]
    exact at_ 0 rfl (by decide) (by bv_omega)
  · rw [esp_update]
    change m.reg esp - 12 + 12 = m.reg esp
    bv_omega
  · intro r other
    exact Function.update_of_ne other _ _

end Clock

section Faults

variable {m n : Machine} {errCode pfErrCode back : Word32} {above : Nat}

theorem gate_plain {flags : Word32} (plain : flags &&& ~~~popfMask = 2) :
    (flags &&& ~~~gateMask) &&& ~~~popfMask = 2 := by
  rw [BitVec.and_assoc, BitVec.and_comm (~~~gateMask), ← BitVec.and_assoc, plain]
  decide

/-- What the processor pushes at a page fault -/
def faultSaves (m : Machine) (errCode : Word32) : List Word32 :=
  [m.cpu.eflags ||| rf, m.cpu.cs, m.cpu.eip, errCode]

/-- The machine when the dispatcher has moved the error code to its place -/
def moved (m : Machine) (errCode pfErrCode : Word32) : Machine :=
  ⟨{ m.cpu with
      reg := Function.update m.cpu.reg esp (m.reg esp - 12)
      eflags := m.cpu.eflags &&& ~~~gateMask },
    put (m.pushAll (faultSaves m errCode)).mem pfErrCode errCode⟩

/-- What the dispatcher pushes -/
def pfSaves (m : Machine) (back : Word32) : List Word32 :=
  [m.cpu.eflags &&& ~~~gateMask &&& pushfMask, m.reg eax, m.reg ecx, m.reg edx, m.reg ebx,
    m.reg esp - 16, m.reg ebp, m.reg esi, m.reg edi, back]

theorem moved_runs (room : 16 ≤ (m.reg esp).toNat) :
    exec (pageFault m errCode) (.popTo pfErrCode) = moved m errCode pfErrCode := by
  have top_ : (pageFault m errCode).top 0 = errCode := by
    have pointer : (pageFault m errCode).reg esp = m.reg esp - 16 := by
      have pushed : (pageFault m errCode).reg esp = m.reg esp - 4 - 4 - 4 - 4 := by
        simp [pageFault, trap, pushAll, push, setFlags, Machine.reg, Cpu.set]
      rw [pushed]
      bv_omega
    unfold Machine.top
    rw [pointer]
    exact @push_all_word m errCode (faultSaves m errCode) 3 (by exact room) rfl _ (by bv_omega)
  have three (a : Word32) : a - 4#32 - 4#32 - 4#32 = a - 12#32 := by bv_omega
  have mem : (exec (pageFault m errCode) (.popTo pfErrCode)).mem =
      put (m.pushAll (faultSaves m errCode)).mem pfErrCode ((pageFault m errCode).top 0) := rfl
  refine Machine.ext (Cpu.ext ?_ rfl rfl rfl) ?_
  · simp [exec, pageFault, trap, drop, moved, pushAll, push, setFlags, Machine.reg, Machine.set,
      Cpu.set, BitVec.sub_add_cancel]
    rw [three]
  · rw [mem, top_]
    rfl

theorem pf_entry_runs (room : 16 ≤ (m.reg esp).toNat) :
    pfEntry m errCode pfErrCode back =
      (run [.pushfl, .pushal] (moved m errCode pfErrCode)).push back := by
  unfold pfEntry
  rw [run_cons, moved_runs room]

theorem pf_entry_mem (room : 16 ≤ (m.reg esp).toNat) :
    (pfEntry m errCode pfErrCode back).mem =
      ((moved m errCode pfErrCode).pushAll (pfSaves m back)).mem := by
  rw [pf_entry_runs room]
  have sixteen (a : Word32) : a - 12#32 - 4#32 = a - 16#32 := by bv_omega
  simp [run, exec, pfSaves, moved, pushAll, push, Machine.reg, Cpu.set]
  simp [sixteen]

theorem pf_entry_esp (room : 16 ≤ (m.reg esp).toNat) :
    (pfEntry m errCode pfErrCode back).reg esp = m.reg esp - 52 := by
  rw [pf_entry_runs room]
  have pushed : ((run [.pushfl, .pushal] (moved m errCode pfErrCode)).push back).reg esp =
      m.reg esp - 12 - 4 - 4 - 4 - 4 - 4 - 4 - 4 - 4 - 4 - 4 := by
    simp [run, exec, moved, pushAll, push, Machine.reg, Cpu.set]
  rw [pushed]
  bv_omega

/-- The place of the error code is not in the part of the stack that the dispatcher uses. -/
def Outside (m : Machine) (pfErrCode : Word32) : Prop :=
  pfErrCode.toNat + 4 ≤ (m.reg esp).toNat - 52 ∨ (m.reg esp).toNat ≤ pfErrCode.toNat

theorem moved_esp (room : 52 ≤ (m.reg esp).toNat) :
    ((moved m errCode pfErrCode).reg esp).toNat = (m.reg esp).toNat - 12 := by
  have pointer : (moved m errCode pfErrCode).reg esp = m.reg esp - 12 := by
    simp [moved, Machine.reg]
  rw [pointer, to_nat_sub (by change 12 ≤ _; omega)]
  rfl

section Kept

variable (room : 52 ≤ (m.reg esp).toNat) (inside : (m.reg esp).toNat ≤ above)
variable (returned : Returned above (pfEntry m errCode pfErrCode back) n)

include room inside returned

theorem pf_kept {place : Word32} (low : (m.reg esp).toNat - 48 ≤ place.toNat)
    (high : place.toNat + 4 ≤ (m.reg esp).toNat) :
    word n.mem place = word ((moved m errCode pfErrCode).pushAll (pfSaves m back)).mem place := by
  have pointer := @pf_entry_esp m errCode pfErrCode back (by omega)
  have number : (m.reg esp - 52).toNat = (m.reg esp).toNat - 52 := to_nat_sub (by exact room)
  rw [returned_word returned (by rw [pointer, number]; omega) (by omega), pf_entry_mem (by omega)]

/-- The words that the dispatcher has pushed, at the end of its handler -/
theorem pf_lower {value place : Word32} (i : Nat) (found : (pfSaves m back)[i]? = some value)
    (few : i < 9) (here : place.toNat = (m.reg esp).toNat - 12 - 4 * (i + 1)) : word n.mem place = value := by
  have long : (pfSaves m back).length = 10 := rfl
  rw [pf_kept room inside returned (by omega) (by omega)]
  exact push_all_word (by rw [long, moved_esp room]; omega) found (by rw [moved_esp room]; exact here)

/-- The words that the processor has pushed, at the end of the handler -/
theorem pf_upper {value place : Word32} (outside : Outside m pfErrCode) (i : Nat)
    (found : (faultSaves m errCode)[i]? = some value) (few : i < 3) (here : place.toNat = (m.reg esp).toNat - 4 * (i + 1)) :
    word n.mem place = value := by
  have long : (pfSaves m back).length = 10 := rfl
  have four : (faultSaves m errCode).length = 4 := rfl
  unfold Outside at outside
  rw [pf_kept room inside returned (by omega) (by omega)]
  have under : word ((moved m errCode pfErrCode).pushAll (pfSaves m back)).mem place =
      word (moved m errCode pfErrCode).mem place :=
    word_congr fun x low _ => push_all_outside (by rw [long, moved_esp room]; omega)
      (Or.inr (by rw [moved_esp room]; omega))
  rw [under]
  change word (put (m.pushAll (faultSaves m errCode)).mem pfErrCode errCode) place = value
  rw [word_put_apart (by omega)]
  exact push_all_word (by rw [four]; omega) found here

end Kept

/-- A page fault whose handler keeps to the convention goes back to the instruction that has faulted,
with every register as it was; RF is set, as in the image that the processor has saved. -/
theorem pf_dispatcher_returns {pfHandler : Machine → Machine} (room : 52 ≤ (m.reg esp).toNat)
    (inside : (m.reg esp).toNat ≤ above) (plain : m.cpu.Plain) (outside : Outside m pfErrCode)
    (returned : Returned above (pfEntry m errCode pfErrCode back)
      (pfHandler (pfEntry m errCode pfErrCode back)))
    (plain' : (pfHandler (pfEntry m errCode pfErrCode back)).cpu.Plain) :
    run (pfDispatcher pfErrCode back pfHandler) (pageFault m errCode) =
      ⟨{ m.cpu with eflags := m.cpu.eflags ||| rf },
        (pfHandler (pfEntry m errCode pfErrCode back)).mem⟩ := by
  have whole : run (pfDispatcher pfErrCode back pfHandler) (pageFault m errCode) =
      run [.popal, .popfl, .iret] (pfHandler (pfEntry m errCode pfErrCode back)) := by
    simp only [pfDispatcher, pfEntry, run_cons, run_nil, exec_call]
  rw [whole]
  generalize pfHandler (pfEntry m errCode pfErrCode back) = n at returned plain' ⊢
  have pointer : n.reg esp = m.reg esp - 48 := by
    rw [returned.esp, pf_entry_esp (by omega)]
    bv_omega
  have lower {value place : Word32} := @pf_lower _ _ _ _ _ _ room inside returned value place
  have upper {value place : Word32} := @pf_upper _ _ _ _ _ _ room inside returned value place outside
  have pushed : PushedAll n.mem (n.reg esp) (Function.update m.cpu.reg esp (m.reg esp - 16)) := by
    rw [pointer]
    constructor
    · exact lower 8 rfl (by decide) (by bv_omega)
    · exact lower 7 rfl (by decide) (by bv_omega)
    · exact lower 6 rfl (by decide) (by bv_omega)
    · exact lower 4 rfl (by decide) (by bv_omega)
    · exact lower 3 rfl (by decide) (by bv_omega)
    · exact lower 2 rfl (by decide) (by bv_omega)
    · exact lower 1 rfl (by decide) (by bv_omega)
  have popped := popal_runs pushed (by
    rw [Function.update_self, pointer]
    bv_omega)
  have flags : exec (exec n .popal) .popfl =
      ⟨{ n.cpu with
          reg := Function.update m.cpu.reg esp (m.reg esp - 12)
          eflags := m.cpu.eflags &&& ~~~gateMask }, n.mem⟩ := by
    have image : word n.mem (m.reg esp - 16 + 0) = m.cpu.eflags &&& ~~~gateMask &&& pushfMask :=
      lower 0 rfl (by decide) (by bv_omega)
    have twelve : m.reg esp - 16 + 4 = m.reg esp - 12 := by bv_omega
    rw [popped]
    refine Machine.ext (Cpu.ext ?_ rfl rfl ?_) rfl
    · simp only [exec, drop, setFlags, Machine.set, Cpu.set, esp_update, Function.update_idem, twelve]
    · change n.cpu.eflags &&& ~~~(popfMask ||| rf) ||| Machine.top _ 0 &&& popfMask = _
      rw [top_update, image, pushf_plain (gate_plain plain), popf_plain plain' (gate_plain plain)]
  rw [run_cons, run_cons, run_cons, run_nil, flags]
  have result := @iret_runs ⟨{ n.cpu with
    reg := Function.update m.cpu.reg esp (m.reg esp - 12)
    eflags := m.cpu.eflags &&& ~~~gateMask }, n.mem⟩ m.cpu rf ?_ ?_ ?_ (gate_plain plain) plain
      (by decide) ?_ ?_
  · exact result
  · change word n.mem (Function.update m.cpu.reg esp (m.reg esp - 12) esp + 0) = _
    rw [Function.update_self]
    exact upper 2 rfl (by decide) (by bv_omega)
  · change word n.mem (Function.update m.cpu.reg esp (m.reg esp - 12) esp + 4) = _
    rw [Function.update_self]
    exact upper 1 rfl (by decide) (by bv_omega)
  · change word n.mem (Function.update m.cpu.reg esp (m.reg esp - 12) esp + 8) = _
    rw [Function.update_self]
    exact upper 0 rfl (by decide) (by bv_omega)
  · change Function.update m.cpu.reg esp (m.reg esp - 12) esp + 12 = m.reg esp
    rw [Function.update_self]
    bv_omega
  · intro r other
    exact Function.update_of_ne other _ _

theorem pf_dispatcher_returns_once :
    run (pfDispatcher 16 55 fun n => exec n .ret) (pageFault oneOfTwo.machine 2) =
      ⟨{ oneOfTwo.machine.cpu with eflags := 2 ||| rf },
        (exec (pfEntry oneOfTwo.machine 2 16 55) .ret).mem⟩ :=
  @pf_dispatcher_returns oneOfTwo.machine 2 16 55 6144 (fun n => exec n .ret) (by decide) (by decide)
    (by decide) (by unfold Outside; decide) ret_returned (by decide)

end Faults

section Results

variable {Pid : Type} [DecidableEq Pid] {layout : Layout Pid} {initret : Nat}
variable {s : System Pid} {m : Machine} {next : Pid} {events : List (Event Pid)}
variable {back back' clkBack : Word32}

/-- A process that the clock has interrupted between two instructions, and that has lost the processor
in the handler, goes on with the second one with every register, every flag and its stack as they
were. `post` is the handler behind `ctxsw`, which keeps to the calling convention if it gets back the
registers and the stack of the call. -/
theorem preempted_continues {post : Machine → Machine} (multiplexed : Multiplexed layout s)
    (room : 48 ≤ (m.reg esp).toNat) (inside : (m.reg esp).toNat ≤ layout.high s.currpid)
    (plain : m.cpu.Plain)
    (convention : ∀ n : Machine, n.cpu = behind s.machine.cpu back →
      (∀ x, (s.machine.reg esp).toNat ≤ x → x < layout.high s.currpid → n.mem x = s.machine.mem x) →
        Returned (layout.high s.currpid) (clkEntry m clkBack) (post n) ∧ (post n).cpu.Plain)
    (differ : next ≠ s.currpid)
    (allowed : AllowedRun layout initret s
      (.resched next back :: (events ++ [.resched s.currpid back'])))
    (others : ∀ event ∈ events, switchesTo s.currpid event = false) :
    let again := after layout initret s (.resched next back :: (events ++ [.resched s.currpid back']))
    (run [.sti, .popal, .iret] (post again.machine)).cpu = m.cpu ∧
      ∀ x, (m.reg esp).toNat ≤ x → x < layout.high s.currpid →
        (run [.sti, .popal, .iret] (post again.machine)).mem x = m.mem x := by
  obtain ⟨cpu, stack⟩ := switch_returns multiplexed differ allowed others
  obtain ⟨returned, plain'⟩ := convention _ cpu stack
  intro again
  have back_ := @clkdisp_returns m clkBack (layout.high s.currpid) (fun _ => post again.machine) room
    inside plain returned plain'
  rw [clkdisp_runs] at back_
  rw [back_]
  refine ⟨rfl, fun x low high => ?_⟩
  have pointer := @clk_entry_number m clkBack room
  refine (returned.live x (by omega) high).trans ?_
  rw [clk_entry_mem]
  exact push_all_outside (clk_saves_fit room) (Or.inr low)

/-- The first of two processes at the first instruction of the clock's handler -/
def interrupted : System Bool :=
  { oneOfTwo with machine := clkEntry oneOfTwo.machine 55 }

theorem interrupted_multiplexed : Multiplexed twoStacks interrupted := by
  have pointer : interrupted.machine.reg esp = 6144 - 48 := clk_entry_esp
  have kept : sp twoStacks interrupted.machine.mem true = 10240 := by
    have same : sp twoStacks interrupted.machine.mem true = sp twoStacks oneOfTwo.machine.mem true := by
      refine sp_congr fun x _ high => ?_
      have low : x < 256 + 4 := high
      change (clkEntry oneOfTwo.machine 55).mem x = _
      rw [clk_entry_mem]
      have top_ : (oneOfTwo.machine.reg esp).toNat = 6144 := rfl
      have long : (clkSaves oneOfTwo.machine 55).length = 12 := rfl
      exact push_all_outside (by rw [long, top_]; decide) (Or.inl (by rw [long, top_]; omega))
    exact same.trans word_put
  refine ⟨rfl, ?_, ?_, by decide, ?_⟩
  · rw [pointer]
    decide
  · rw [pointer]
    decide
  · intro p away _
    cases p with
    | false => exact absurd rfl away
    | true =>
        rw [kept]
        decide

/-- A handler that calls `ctxsw` at once, and returns behind it -/
def dropsArguments (n : Machine) : Machine := run [.addl 8 esp, .ret] n

theorem drops_arguments {n : Machine} (plain : m.cpu.Plain) (cpu : n.cpu = behind m.cpu back)
    {above : Nat} (stack : ∀ x, (m.reg esp).toNat ≤ x → x < above → n.mem x = m.mem x) :
    Returned above m (dropsArguments n) ∧ (dropsArguments n).cpu.Plain := by
  have kept {r : Register} (other : r ≠ esp) : (dropsArguments n).reg r = m.reg r := by
    simp [dropsArguments, run, exec, drop, setFlags, Machine.set, Cpu.set, Machine.reg, other, cpu, behind]
  refine ⟨⟨kept (by decide), kept (by decide), kept (by decide), kept (by decide), ?_, ?_⟩, ?_⟩
  · simp [dropsArguments, run, exec, drop, setFlags, Machine.set, Cpu.set, Machine.reg, cpu, behind,
      BitVec.sub_add_cancel]
  · exact fun x low high => stack x (by omega) high
  · have flags : n.cpu.Plain := by
      rw [cpu]
      exact plain_sum plain _ _
    exact plain_sum flags _ _

theorem preempted_continues_two :
    (run [.sti, .popal, .iret] (dropsArguments (after twoStacks 0 interrupted
      [.resched true 99, .resched false 88]).machine)).cpu = oneOfTwo.machine.cpu := by
  have multiplexed := interrupted_multiplexed
  have pointer : interrupted.machine.reg esp = 6144 - 48 := clk_entry_esp
  have first : Allowed twoStacks 0 interrupted (.resched true 99) := by
    refine ⟨rfl, ?_⟩
    rw [pointer]
    decide
  have second : Allowed twoStacks 0 (act twoStacks 0 interrupted (.resched true 99))
      (.resched false 88) := by
    refine ⟨rfl, ?_⟩
    rw [resched_runs multiplexed first.2]
    decide +kernel
  exact (@preempted_continues _ _ twoStacks 0 interrupted oneOfTwo.machine true [] 99 88 55
    dropsArguments multiplexed (by decide) (by decide) (by decide)
    (fun n cpu stack => drops_arguments multiplexed.plain cpu stack) (by decide)
    ⟨first, second, trivial⟩ (fun _ none => absurd none List.not_mem_nil)).1

end Results

end Xinu.Kernel.Dispatch
