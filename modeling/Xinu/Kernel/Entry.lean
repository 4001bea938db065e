import Xinu.Lib.BitField

/-!
# Page-table entries and bytes of a word

`pd_t` and `pt_t` are 32-bit words of bit fields and place the fields used here
at the same offsets: present at bit 0, accessed at bit 5, dirty at bit 6 (a
`pd_t` has `pd_mbz` there and the code never sets it), the programmer's field at
bits 9 to 11 and the base page number at bits 12 to 31.
-/

namespace Xinu.Kernel.Entry

open Xinu.Lib.BitField

set_option autoImplicit false

abbrev Word := BitVec 32

abbrev Byte := BitVec 8

def pres (entry : Word) : Bool := entry.getLsbD 0

def acc (entry : Word) : Bool := entry.getLsbD 5

def dirty (entry : Word) : Bool := entry.getLsbD 6

def avail (entry : Word) : BitVec 3 := field entry 9 3

def base (entry : Word) : Nat := (field entry 12 20).toNat

def setPres (entry : Word) (value : Bool) : Word := setField entry 0 (BitVec.ofBool value)

def setAcc (entry : Word) (value : Bool) : Word := setField entry 5 (BitVec.ofBool value)

def setDirty (entry : Word) (value : Bool) : Word := setField entry 6 (BitVec.ofBool value)

def setAvail (entry : Word) (value : BitVec 3) : Word := setField entry 9 value

def setBase (entry : Word) (page : Nat) : Word := setField entry 12 (BitVec.ofNat 20 page)

/-- `newPageTable` assigns every field of an entry except the base: all zero
but the write bit. -/
def blankPTE (entry : Word) : Word := setField entry 0 (2#12)

/-- `init_pd` assigns every field of an entry: all zero but the write bit. -/
def blankPDE : Word := 2#32

/-- `setup_id_paging` assigns every field of an entry: present, writable, and
the page it maps. -/
def identityPTE (page : Nat) : Word := setBase (3#32) page

/-- The global entries `init_pd` installs: present, writable and global. -/
def globalPDE (page : Nat) : Word := setBase (0x103#32) page

section Laws

variable (entry : Word) (value : Bool) (marks : BitVec 3) (page : Nat)

@[simp] theorem pres_set_pres : pres (setPres entry value) = value :=
  bit_of_set_bit entry 0 value (by decide)

@[simp] theorem pres_set_acc : pres (setAcc entry value) = pres entry :=
  bit_of_set_field_disjoint entry 5 _ 0 (by decide) (by decide)

@[simp] theorem pres_set_dirty : pres (setDirty entry value) = pres entry :=
  bit_of_set_field_disjoint entry 6 _ 0 (by decide) (by decide)

@[simp] theorem pres_set_avail : pres (setAvail entry marks) = pres entry :=
  bit_of_set_field_disjoint entry 9 _ 0 (by decide) (by decide)

@[simp] theorem pres_set_base : pres (setBase entry page) = pres entry :=
  bit_of_set_field_disjoint entry 12 _ 0 (by decide) (by decide)

@[simp] theorem acc_set_pres : acc (setPres entry value) = acc entry :=
  bit_of_set_field_disjoint entry 0 _ 5 (by decide) (by decide)

@[simp] theorem acc_set_acc : acc (setAcc entry value) = value :=
  bit_of_set_bit entry 5 value (by decide)

@[simp] theorem acc_set_dirty : acc (setDirty entry value) = acc entry :=
  bit_of_set_field_disjoint entry 6 _ 5 (by decide) (by decide)

@[simp] theorem acc_set_avail : acc (setAvail entry marks) = acc entry :=
  bit_of_set_field_disjoint entry 9 _ 5 (by decide) (by decide)

@[simp] theorem acc_set_base : acc (setBase entry page) = acc entry :=
  bit_of_set_field_disjoint entry 12 _ 5 (by decide) (by decide)

@[simp] theorem dirty_set_pres : dirty (setPres entry value) = dirty entry :=
  bit_of_set_field_disjoint entry 0 _ 6 (by decide) (by decide)

@[simp] theorem dirty_set_acc : dirty (setAcc entry value) = dirty entry :=
  bit_of_set_field_disjoint entry 5 _ 6 (by decide) (by decide)

@[simp] theorem dirty_set_dirty : dirty (setDirty entry value) = value :=
  bit_of_set_bit entry 6 value (by decide)

@[simp] theorem dirty_set_avail : dirty (setAvail entry marks) = dirty entry :=
  bit_of_set_field_disjoint entry 9 _ 6 (by decide) (by decide)

@[simp] theorem dirty_set_base : dirty (setBase entry page) = dirty entry :=
  bit_of_set_field_disjoint entry 12 _ 6 (by decide) (by decide)

@[simp] theorem avail_set_pres : avail (setPres entry value) = avail entry :=
  field_set_field_disjoint entry 0 _ 9 3 (by decide) (by decide)

@[simp] theorem avail_set_acc : avail (setAcc entry value) = avail entry :=
  field_set_field_disjoint entry 5 _ 9 3 (by decide) (by decide)

@[simp] theorem avail_set_dirty : avail (setDirty entry value) = avail entry :=
  field_set_field_disjoint entry 6 _ 9 3 (by decide) (by decide)

@[simp] theorem avail_set_avail : avail (setAvail entry marks) = marks :=
  field_set_field entry 9 marks (by decide)

@[simp] theorem avail_set_base : avail (setBase entry page) = avail entry :=
  field_set_field_disjoint entry 12 _ 9 3 (by decide) (by decide)

@[simp] theorem base_set_pres : base (setPres entry value) = base entry :=
  congrArg BitVec.toNat (field_set_field_disjoint entry 0 _ 12 20 (by decide) (by decide))

@[simp] theorem base_set_acc : base (setAcc entry value) = base entry :=
  congrArg BitVec.toNat (field_set_field_disjoint entry 5 _ 12 20 (by decide) (by decide))

@[simp] theorem base_set_dirty : base (setDirty entry value) = base entry :=
  congrArg BitVec.toNat (field_set_field_disjoint entry 6 _ 12 20 (by decide) (by decide))

@[simp] theorem base_set_avail : base (setAvail entry marks) = base entry :=
  congrArg BitVec.toNat (field_set_field_disjoint entry 9 _ 12 20 (by decide) (by decide))

theorem base_set_base (bound : page < 1048576) : base (setBase entry page) = page := by
  unfold base setBase
  rw [field_set_field entry 12 (BitVec.ofNat 20 page) (by decide), BitVec.toNat_ofNat]
  exact Nat.mod_eq_of_lt bound

@[simp] theorem pres_blank : pres (blankPTE entry) = false :=
  bit_of_set_field_inside entry 0 (2#12) 0 (by decide) (by decide) (by decide)

@[simp] theorem acc_blank : acc (blankPTE entry) = false :=
  bit_of_set_field_inside entry 0 (2#12) 5 (by decide) (by decide) (by decide)

@[simp] theorem dirty_blank : dirty (blankPTE entry) = false :=
  bit_of_set_field_inside entry 0 (2#12) 6 (by decide) (by decide) (by decide)

@[simp] theorem avail_blank : avail (blankPTE entry) = 0 := by
  apply BitVec.eq_of_getLsbD_eq
  intro index bound
  unfold avail field blankPTE
  rw [BitVec.getLsbD_extractLsb',
    bit_of_set_field_inside entry 0 (2#12) (9 + index) (by omega) (by omega) (by omega)]
  obtain rfl | rfl | rfl : index = 0 ∨ index = 1 ∨ index = 2 := by omega
  all_goals rfl

@[simp] theorem pres_blank_pde : pres blankPDE = false := rfl

end Laws

def byteOf (word : Word) (lane : Nat) : Byte := field word (8 * lane) 8

def setByte (word : Word) (lane : Nat) (value : Byte) : Word := setField word (8 * lane) value

theorem byte_set_byte (word : Word) (lane other : Nat) (value : Byte) (bound : lane < 4)
    (otherBound : other < 4) :
    byteOf (setByte word lane value) other = if other = lane then value else byteOf word other := by
  unfold byteOf setByte
  by_cases same : other = lane
  · subst same
    rw [if_pos rfl]
    exact field_set_field word (8 * other) value (by omega)
  · rw [if_neg same]
    exact field_set_field_disjoint word (8 * lane) value (8 * other) 8 (by omega) (by omega)

end Xinu.Kernel.Entry
