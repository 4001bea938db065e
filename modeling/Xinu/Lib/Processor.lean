import Mathlib.Logic.Function.Basic
import Mathlib.Tactic.SplitIfs
import Xinu.Lib.ByteMemory

/-!
# A processor and its stack

Eight registers of 32 bits, the instruction pointer, the flags, and the instructions with which a
kernel saves and restores them on a stack. A routine in another language is what it does to the
machine, and a calling convention says which parts of the machine it hands back as they were.
-/

namespace Xinu.Lib.Processor

open Xinu.Lib.ByteMemory

set_option autoImplicit false

section Definitions

abbrev Word32 := BitVec 32

inductive Register where
  | eax
  | ecx
  | edx
  | ebx
  | esp
  | ebp
  | esi
  | edi
  deriving DecidableEq

@[ext] structure Cpu where
  reg : Register → Word32
  eip : Word32
  cs : Word32
  eflags : Word32

@[ext] structure Machine where
  cpu : Cpu
  mem : Memory

def word (mem : Memory) (place : Word32) : Word32 := BitVec.ofNat 32 (load mem place.toNat)

def put (mem : Memory) (place value : Word32) : Memory := store mem place.toNat value.toNat

/-- The flags that `popfl` takes from the stack: no reserved ones, not RF, VM, VIF and VIP. -/
def popfMask : Word32 := 0x247FD5

/-- The flags that `iret` takes from the stack: RF, VIF and VIP as well. -/
def iretMask : Word32 := 0x3D7FD5

/-- `pushfl` stores VM and RF as 0. -/
def pushfMask : Word32 := 0x00FCFFFF

def rf : Word32 := 0x10000

def ifMask : Word32 := 0x200

/-- CF, PF, AF, ZF, SF and OF -/
def statusMask : Word32 := 0x8D5

/-- The status flags of a sum -/
def sumFlags (a b : Word32) : Word32 :=
  (if 4294967296 ≤ a.toNat + b.toNat then 0x1 else 0) |||
  (if ((List.range 8).countP fun i => (a + b).getLsbD i) % 2 = 0 then 0x4 else 0) |||
  (if 16 ≤ a.toNat % 16 + b.toNat % 16 then 0x10 else 0) |||
  (if a + b = 0 then 0x40 else 0) |||
  (if (a + b).msb = true then 0x80 else 0) |||
  (if a.msb = b.msb ∧ (a + b).msb ≠ a.msb then 0x800 else 0)

namespace Cpu

def set (c : Cpu) (r : Register) (value : Word32) : Cpu :=
  { c with reg := Function.update c.reg r value }

/-- Outside the flags that `popfl` can change there is only the reserved one that is always set. -/
def Plain (c : Cpu) : Prop := c.eflags &&& ~~~popfMask = 2

instance (c : Cpu) : Decidable c.Plain := inferInstanceAs (Decidable (_ = _))

end Cpu

namespace Machine

def reg (m : Machine) (r : Register) : Word32 := m.cpu.reg r

def set (m : Machine) (r : Register) (value : Word32) : Machine := { m with cpu := m.cpu.set r value }

def setFlags (m : Machine) (eflags : Word32) : Machine :=
  { m with cpu := { m.cpu with eflags } }

def push (m : Machine) (value : Word32) : Machine :=
  ⟨m.cpu.set .esp (m.reg .esp - 4), put m.mem (m.reg .esp - 4) value⟩

def pushAll (m : Machine) (values : List Word32) : Machine := values.foldl push m

/-- The word at a distance from the top of the stack -/
def top (m : Machine) (disp : Word32) : Word32 := word m.mem (m.reg .esp + disp)

def drop (m : Machine) (size : Word32) : Machine := m.set .esp (m.reg .esp + size)

end Machine

/-- An instruction. A call is given the address behind it, and a routine of the compiler. -/
inductive Instr where
  | push (r : Register)
  | pushImm (value : Word32)
  | popTo (place : Word32)
  | move (src dst : Register)
  | fetch (disp : Word32) (base dst : Register)
  | put (src base : Register)
  | movb (value : BitVec 8) (dst : Register)
  | outb
  | pushfl
  | popfl
  | pushal
  | popal
  | addl (value : Word32) (dst : Register)
  | cli
  | sti
  | ret
  | iret
  | call (back : Word32) (routine : Machine → Machine)

open Register in
def exec (m : Machine) : Instr → Machine
  | .push r => m.push (m.reg r)
  | .pushImm value => m.push value
  | .popTo place => { m.drop 4 with mem := put m.mem place (m.top 0) }
  | .move src dst => m.set dst (m.reg src)
  | .fetch disp base dst => m.set dst (word m.mem (m.reg base + disp))
  | .put src base => { m with mem := put m.mem (m.reg base) (m.reg src) }
  | .movb value dst => m.set dst (m.reg dst &&& 0xFFFFFF00 ||| value.setWidth 32)
  | .outb => m
  | .pushfl => m.push (m.cpu.eflags &&& pushfMask)
  | .popfl => (m.drop 4).setFlags (m.cpu.eflags &&& ~~~(popfMask ||| rf) ||| m.top 0 &&& popfMask)
  | .pushal =>
      m.pushAll [m.reg eax, m.reg ecx, m.reg edx, m.reg ebx, m.reg esp, m.reg ebp, m.reg esi,
        m.reg edi]
  | .popal =>
      -- the word of the stack pointer is left out
      ((((((((m.set edi (m.top 0)).set esi (m.top 4)).set ebp (m.top 8)).set ebx (m.top 16)).set edx
        (m.top 20)).set ecx (m.top 24)).set eax (m.top 28)).drop 32)
  | .addl value dst =>
      (m.set dst (m.reg dst + value)).setFlags
        (m.cpu.eflags &&& ~~~statusMask ||| sumFlags (m.reg dst) value)
  | .cli => m.setFlags (m.cpu.eflags &&& ~~~ifMask)
  | .sti => m.setFlags (m.cpu.eflags ||| ifMask)
  | .ret => { m.drop 4 with cpu := { (m.drop 4).cpu with eip := m.top 0 } }
  | .iret =>
      { m.drop 12 with
        cpu := { (m.drop 12).cpu with
          eip := m.top 0
          cs := m.top 4
          eflags := m.cpu.eflags &&& ~~~iretMask ||| m.top 8 &&& iretMask } }
  | .call back routine => routine (m.push back)

def run (code : List Instr) (m : Machine) : Machine := code.foldl exec m

/-- What a routine hands back to its caller: the registers it has to save, the stack pointer behind
the return address, and the stack above it up to an address. -/
structure Returned (above : Nat) (m m' : Machine) : Prop where
  ebx : m'.reg .ebx = m.reg .ebx
  ebp : m'.reg .ebp = m.reg .ebp
  esi : m'.reg .esi = m.reg .esi
  edi : m'.reg .edi = m.reg .edi
  esp : m'.reg .esp = m.reg .esp + 4
  live : ∀ x, (m.reg .esp).toNat + 4 ≤ x → x < above → m'.mem x = m.mem x

end Definitions

section Flags

variable {flags other value : Word32}

theorem split_mask (flags mask : Word32) : flags = flags &&& mask ||| flags &&& ~~~mask := by
  ext i low
  simp only [BitVec.getElem_or, BitVec.getElem_and, BitVec.getElem_not]
  cases flags[i] <;> cases mask[i] <;> rfl

theorem and_or_and (a b mask : Word32) : (a ||| b) &&& mask = a &&& mask ||| b &&& mask := by
  ext i low
  simp only [BitVec.getElem_or, BitVec.getElem_and]
  cases a[i] <;> cases b[i] <;> cases mask[i] <;> rfl

theorem sum_flags_inside (a b : Word32) : sumFlags a b &&& ~~~statusMask = 0#32 := by
  unfold sumFlags
  split_ifs <;> decide

variable (plain : flags &&& ~~~popfMask = 2)

include plain

theorem plain_eq : flags = flags &&& popfMask ||| 2 := by
  rw [← plain]
  exact split_mask flags popfMask

/-- Plain flags under a mask with the ones that `popfl` can change and the one that is always set -/
theorem plain_masked {mask : Word32} (inside : popfMask &&& mask = popfMask)
    (always : (2 : Word32) &&& mask = 2) : flags &&& mask = flags := by
  have split := plain_eq plain
  rw [split, and_or_and, BitVec.and_assoc, inside, always]

theorem pushf_plain : flags &&& pushfMask = flags :=
  plain_masked plain (by decide) (by decide)

theorem popf_keeps : flags &&& ~~~(popfMask ||| rf) = 2 := by
  have apart : ~~~(popfMask ||| rf) = ~~~popfMask &&& ~~~rf := by decide
  rw [apart, ← BitVec.and_assoc, plain]
  decide

theorem popf_plain (taken : value &&& ~~~popfMask = 2) :
    flags &&& ~~~(popfMask ||| rf) ||| value &&& popfMask = value := by
  rw [popf_keeps plain, BitVec.or_comm]
  exact (plain_eq taken).symm

/-- What `popfl` leaves is plain, whatever the word on the stack. -/
theorem plain_popf : (flags &&& ~~~(popfMask ||| rf) ||| value &&& popfMask) &&& ~~~popfMask = 2 := by
  have none : popfMask &&& ~~~popfMask = 0#32 := by decide
  rw [popf_keeps plain, and_or_and, BitVec.and_assoc, none, BitVec.and_zero]
  decide

theorem plain_sum (a b : Word32) :
    (flags &&& ~~~statusMask ||| sumFlags a b) &&& ~~~popfMask = 2 := by
  have narrower : ~~~popfMask = ~~~statusMask &&& ~~~popfMask := by decide
  have sum : sumFlags a b &&& ~~~popfMask = 0#32 := by
    rw [narrower, ← BitVec.and_assoc, sum_flags_inside, BitVec.zero_and]
  rw [and_or_and, sum, BitVec.and_assoc, ← narrower, plain]
  decide

/-- `iret` takes back flags that were plain, and RF with them. -/
theorem iret_plain {image : Word32} (fixed : other &&& ~~~popfMask = 2)
    (extra : image &&& iretMask = image) :
    other &&& ~~~iretMask ||| (flags ||| image) &&& iretMask = flags ||| image := by
  have outer : ~~~iretMask = ~~~popfMask &&& ~~~iretMask := by decide
  have inner : popfMask &&& iretMask = popfMask := by decide
  have always : (2 : Word32) &&& ~~~iretMask = 2 := by decide
  have never : (2 : Word32) &&& iretMask = 0#32 := by decide
  rw [outer, ← BitVec.and_assoc, fixed, always, and_or_and, extra]
  have taken : flags &&& iretMask = flags &&& popfMask := by
    conv_lhs => rw [plain_eq plain, and_or_and, BitVec.and_assoc, inner, never, BitVec.or_zero]
  rw [taken, ← BitVec.or_assoc, BitVec.or_comm 2, ← plain_eq plain]

end Flags

section Words

variable {mem mem' : Memory} {place other value : Word32}

theorem word_put : word (put mem place value) place = value := by
  unfold word put
  rw [load_store value.isLt, BitVec.ofNat_toNat, BitVec.setWidth_eq]

theorem word_congr (same : ∀ x, place.toNat ≤ x → x < place.toNat + 4 → mem' x = mem x) :
    word mem' place = word mem place := by
  unfold word
  rw [load_congr same]

theorem word_put_apart
    (apart : place.toNat + 4 ≤ other.toNat ∨ other.toNat + 4 ≤ place.toNat) :
    word (put mem other value) place = word mem place :=
  word_congr fun _ _ _ => store_outside (by omega)

theorem push_words_append (mem : Memory) (sp : Nat) (values more : List Nat) :
    pushWords mem sp (values ++ more) =
      pushWords (pushWords mem sp values).1 (pushWords mem sp values).2 more := by
  induction values generalizing mem sp with
  | nil => rfl
  | cons value values induction => exact induction _ _

/-- The words on a stack from its top on -/
theorem load_pushed (mem : Memory) (sp : Nat) {values : List Nat} {i value : Nat}
    (room : 4 * values.length ≤ sp) (small : ∀ value ∈ values, value < 4294967296)
    (at_ : values.reverse[i]? = some value) :
    load (pushWords mem sp values).1 (sp - 4 * values.length + 4 * i) = value := by
  have bound := (List.getElem?_eq_some_iff.mp at_).1
  rw [List.length_reverse] at bound
  rw [List.getElem?_reverse bound] at at_
  rw [← (push_words mem sp values room small).2.1 _ _ at_]
  congr 1
  omega

end Words

theorem run_nil (m : Machine) : run [] m = m := rfl

theorem run_cons (instr : Instr) (code : List Instr) (m : Machine) :
    run (instr :: code) m = run code (exec m instr) := rfl

theorem exec_call (m : Machine) (back : Word32) (routine : Machine → Machine) :
    exec m (.call back routine) = routine (m.push back) := rfl

theorem run_append (code more : List Instr) (m : Machine) :
    run (code ++ more) m = run more (run code m) := List.foldl_append

section Stacks

variable {m : Machine} {r : Register} {value : Word32}

@[simp] theorem reg_set_same : (m.set r value).reg r = value := by
  simp [Machine.set, Machine.reg, Cpu.set]

@[simp] theorem reg_set_ne {other : Register} (differ : other ≠ r) :
    (m.set r value).reg other = m.reg other := by
  simp [Machine.set, Machine.reg, Cpu.set, differ]

@[simp] theorem mem_set : (m.set r value).mem = m.mem := rfl

theorem to_nat_sub {a b : Word32} (room : b.toNat ≤ a.toNat) :
    (a - b).toNat = a.toNat - b.toNat := by
  bv_omega

theorem to_nat_add {a b : Word32} (room : a.toNat + b.toNat < 4294967296) :
    (a + b).toNat = a.toNat + b.toNat := by
  bv_omega

/-- Pushes on a stack with room for them -/
theorem push_all (values : List Word32) (room : 4 * values.length ≤ (m.reg .esp).toNat) :
    m.pushAll values =
      ⟨m.cpu.set .esp (BitVec.ofNat 32 ((m.reg .esp).toNat - 4 * values.length)),
        (pushWords m.mem (m.reg .esp).toNat (values.map BitVec.toNat)).1⟩ := by
  induction values generalizing m with
  | nil =>
      have same : m.cpu.set .esp (m.reg .esp) = m.cpu := by
        simp [Cpu.set, Machine.reg]
      simp [Machine.pushAll, pushWords, same]
  | cons value values induction =>
      rw [List.length_cons] at room
      have pointer : (m.push value).reg .esp = m.reg .esp - 4 := by
        simp [Machine.push, Machine.reg, Cpu.set]
      have number : (m.reg .esp - 4).toNat = (m.reg .esp).toNat - 4 := by
        bv_omega
      have rest := @induction (m.push value) (by rw [pointer, number]; omega)
      have unfolded : m.pushAll (value :: values) = (m.push value).pushAll values := rfl
      rw [unfolded, rest, pointer, number, List.length_cons, List.map_cons, pushWords]
      refine Machine.ext ?_ ?_
      · simp only [Machine.push, Cpu.set, Function.update_idem]
        congr 3
        omega
      · simp only [Machine.push, put, number]

theorem push_all_esp (values : List Word32) (room : 4 * values.length ≤ (m.reg .esp).toNat) :
    (m.pushAll values).cpu =
      m.cpu.set .esp (BitVec.ofNat 32 ((m.reg .esp).toNat - 4 * values.length)) := by
  rw [push_all values room]

theorem words_small (values : List Word32) :
    ∀ number ∈ values.map BitVec.toNat, number < 4294967296 := by
  intro number member
  obtain ⟨value, _, rfl⟩ := List.mem_map.mp member
  exact value.isLt

theorem push_all_word {values : List Word32} {i : Nat}
    (room : 4 * values.length ≤ (m.reg .esp).toNat) (at_ : values[i]? = some value)
    {place : Word32} (here : place.toNat = (m.reg .esp).toNat - 4 * (i + 1)) :
    word (m.pushAll values).mem place = value := by
  have words := (push_words m.mem (m.reg .esp).toNat (values.map BitVec.toNat)
    (by rw [List.length_map]; exact room) (words_small values)).2.1
  have found := words i value.toNat (by rw [List.getElem?_map, at_]; rfl)
  rw [push_all values room, word, here, found, BitVec.ofNat_toNat, BitVec.setWidth_eq]

theorem push_all_outside {values : List Word32} {x : Nat}
    (room : 4 * values.length ≤ (m.reg .esp).toNat)
    (outside : x < (m.reg .esp).toNat - 4 * values.length ∨ (m.reg .esp).toNat ≤ x) :
    (m.pushAll values).mem x = m.mem x := by
  have others := (push_words m.mem (m.reg .esp).toNat (values.map BitVec.toNat)
    (by rw [List.length_map]; exact room) (words_small values)).2.2
  rw [push_all values room]
  exact others x (by rw [List.length_map]; exact outside)

/-- The words from which `popal` takes the registers -/
structure PushedAll (mem : Memory) (sp : Word32) (reg : Register → Word32) : Prop where
  edi : word mem sp = reg .edi
  esi : word mem (sp + 4) = reg .esi
  ebp : word mem (sp + 8) = reg .ebp
  ebx : word mem (sp + 16) = reg .ebx
  edx : word mem (sp + 20) = reg .edx
  ecx : word mem (sp + 24) = reg .ecx
  eax : word mem (sp + 28) = reg .eax

theorem popal_runs {reg : Register → Word32} (pushed : PushedAll m.mem (m.reg .esp) reg)
    (pointer : reg .esp = m.reg .esp + 32) : exec m .popal = ⟨{ m.cpu with reg }, m.mem⟩ := by
  obtain ⟨edi, esi, ebp, ebx, edx, ecx, eax⟩ := pushed
  have behind := pointer.symm
  refine Machine.ext (Cpu.ext (funext fun r => ?_) rfl rfl rfl) rfl
  cases r <;> simp [exec, Machine.top, Machine.drop, Machine.set, Cpu.set] <;> assumption

end Stacks

end Xinu.Lib.Processor
