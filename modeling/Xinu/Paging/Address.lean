import Xinu.Kernel.State

/-!
# Virtual addresses and frame addresses

The address arithmetic of `paging.c` and `ipt.c`, with the C types: shifts and
masks of a `uint32`, a signed pointer difference that is divided as an `int` and
assigned back to a `uint32`, and 20-bit base fields.
-/

namespace Xinu.Paging.Address

open Xinu.Kernel.State Xinu.Kernel.Entry

set_option autoImplicit false

def vaddr2offset (vaddr : Nat) : Nat := vaddr &&& 0x00000FFF

def vaddr2pdi (vaddr : Nat) : Nat := (vaddr &&& 0xFFC00000) >>> 22

def vaddr2pti (vaddr : Nat) : Nat := (vaddr &&& 0x003FF000) >>> 12

def vaddr2vpn (vaddr : Nat) : Nat := vaddr >>> 12

/-- A `uint32` assigned to an `int32`, and back. -/
def toInt32 (value : Nat) : Int :=
  if value < 2147483648 then value else (value : Int) - word32

def toUInt32 (value : Int) : Nat := (value % word32).toNat

/-- `(char *) (vp * NBPG)`: the first address of a virtual page. -/
def pageAddr (vpn : Int) : Nat := toUInt32 (vpn * nbpg)

def frameNum2ptr (frameNum : Nat) : Nat := (metadataStart + frameNum * nbpg) % word32

/-- The value of `faddr2frameNum`. -/
def frameNumOf (faddr : Nat) : Nat :=
  toUInt32 ((toInt32 ((faddr + word32 - metadataStart) % word32)).tdiv nbpg)

def faddr2frameNum (faddr : Nat) : Call Nat := do
  log (.faddr2frameNum faddr)
  pure (frameNumOf faddr)

theorem faddr_to_frame_num_ok (faddr : Nat) (s : St) :
    faddr2frameNum faddr s =
      .ok (frameNumOf faddr) { s with trace := .faddr2frameNum faddr :: s.trace } := rfl

/-- `pdi2pt`: the page table a directory entry points to. -/
def pdi2pt (s : St) (pd pdi : Nat) : Nat := base (s.entry pd pdi) * nbpg

def isInvalidAddr (ker : Ker) (a : Nat) (pid : Int) : Bool :=
  decide ((vheapStart + nbpg * (ker.proctab pid).hsize) % word32 ≤ a)

/-- An address that is the start of one of the frames. -/
def FrameAddr [Config] (addr : Nat) : Prop := ∃ fr < nframes, addr = frameNum2ptr fr

section Arithmetic

theorem page_directory_index (vaddr : Nat) (bound : vaddr < 4294967296) :
    vaddr2pdi vaddr = vaddr / 4194304 := by
  unfold vaddr2pdi
  rw [Nat.shiftRight_and_distrib, Nat.shiftRight_eq_div_pow]
  have mask : (0xFFC00000 : Nat) >>> 22 = 2 ^ 10 - 1 := by decide
  rw [mask, Nat.and_two_pow_sub_one_eq_mod]
  omega

theorem page_table_index (vaddr : Nat) : vaddr2pti vaddr = vaddr / 4096 % 1024 := by
  unfold vaddr2pti
  rw [Nat.shiftRight_and_distrib, Nat.shiftRight_eq_div_pow]
  have mask : (0x003FF000 : Nat) >>> 12 = 2 ^ 10 - 1 := by decide
  rw [mask, Nat.and_two_pow_sub_one_eq_mod]

theorem page_offset (vaddr : Nat) : vaddr2offset vaddr = vaddr % 4096 := by
  unfold vaddr2offset
  rw [show (0x00000FFF : Nat) = 2 ^ 12 - 1 by decide, Nat.and_two_pow_sub_one_eq_mod]

theorem page_number (vaddr : Nat) : vaddr2vpn vaddr = vaddr / 4096 := by
  rw [vaddr2vpn, Nat.shiftRight_eq_div_pow]

theorem page_addr (vpn : Nat) (bound : vpn < 1048576) : pageAddr vpn = vpn * 4096 := by
  unfold pageAddr toUInt32 word32 nbpg
  omega

theorem page_addr_pdi (vpn : Nat) (bound : vpn < 1048576) :
    vaddr2pdi (pageAddr vpn) = vpn / 1024 := by
  rw [page_addr vpn bound, page_directory_index _ (by omega)]
  omega

theorem page_addr_pti (vpn : Nat) (bound : vpn < 1048576) :
    vaddr2pti (pageAddr vpn) = vpn % 1024 := by
  rw [page_addr vpn bound, page_table_index]
  omega

variable [Config]

theorem frame_ptr (fr : Nat) (bound : fr < nframes) : frameNum2ptr fr = (1024 + fr) * 4096 := by
  have space := Config.frameSpace
  unfold frameNum2ptr metadataStart nbpg word32
  omega

theorem frame_ptr_page (fr : Nat) (bound : fr < nframes) : frameNum2ptr fr / nbpg = frame0 + fr := by
  rw [frame_ptr fr bound, nbpg, frame0, Nat.mul_div_cancel _ (by decide)]

theorem frame_ptr_base (fr : Nat) (bound : fr < nframes) :
    (frame0 + fr) * nbpg = frameNum2ptr fr := by
  rw [frame_ptr fr bound, nbpg, frame0]

theorem frame_num_of_ptr (fr : Nat) (bound : fr < nframes) : frameNumOf (frameNum2ptr fr) = fr := by
  have space := Config.frameSpace
  rw [frame_ptr fr bound]
  have distance : ((1024 + fr) * 4096 + word32 - metadataStart) % word32 = fr * 4096 := by
    unfold word32 metadataStart
    omega
  have small : fr * 4096 < 2147483648 := by omega
  have quotient : ((fr * 4096 : Nat) : Int).tdiv ((4096 : Nat) : Int) = (fr : Nat) := by
    rw [← Int.ofNat_tdiv, Nat.mul_div_cancel _ (by decide)]
  unfold frameNumOf toInt32
  rw [distance, if_pos small, nbpg, quotient]
  unfold toUInt32 word32
  omega

theorem frame_ptr_injective (left right : Nat) (leftBound : left < nframes)
    (rightBound : right < nframes) (same : frameNum2ptr left = frameNum2ptr right) :
    left = right := by
  rw [frame_ptr left leftBound, frame_ptr right rightBound] at same
  omega

theorem frame_ptr_below_heap (fr : Nat) (bound : fr < nframes) : frameNum2ptr fr < vheapStart := by
  have space := Config.frameSpace
  rw [frame_ptr fr bound, vheapStart]
  omega

theorem frame_ptr_ne_syserr (fr : Nat) (bound : fr < nframes) : frameNum2ptr fr ≠ sysErrPtr := by
  have space := Config.frameSpace
  rw [frame_ptr fr bound, sysErrPtr]
  omega

theorem syserr_not_frame : ¬FrameAddr sysErrPtr := by
  rintro ⟨fr, bound, same⟩
  exact frame_ptr_ne_syserr fr bound same.symm

theorem empty_not_frame : ¬empty < nframes := by
  have space := Config.frameSpace
  rw [empty]
  omega

end Arithmetic

end Xinu.Paging.Address
