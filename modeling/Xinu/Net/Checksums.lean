import Xinu.Lib.OnesComplement
import Xinu.Net.Frames
import Mathlib.Algebra.Order.BigOperators.Group.List
import Mathlib.Algebra.Order.Group.Nat

/-!
# Checksums

`ipcksum` and `icmp_cksum` add the 16-bit words of a header or of a message as natural numbers, and
add the carries once. Where that leaves a carry, the result is not the Internet checksum, and
neither is it where a last byte without a partner is negative as a `char`.
-/

namespace Xinu.Net.Checksums

open Xinu.Lib.OnesComplement
open Xinu.Net.Frames

set_option autoImplicit false

section Definitions

/-- `icmp_cksum` of a buffer. A last byte is a signed `char`. -/
def icmpCksum (buf : Nat → UInt8) (buflen : Nat) : Nat :=
  let scount := buflen / 2
  let cksum := ((List.range scount).map fun i =>
    (buf (2 * i)).toNat * 256 + (buf (2 * i + 1)).toNat).sum
  let last := (buf (2 * scount)).toNat
  let odd :=
    if buflen % 2 = 0 then 0
    else if last < 128 then last * 256
    else 4294967296 - (256 - last) * 256
  complement ((cksum + odd) % 4294967296)

/-- What the checksum of a header is stored as, with 0 for all ones -/
def stored (cksum : Nat) : Nat := if cksum = 65535 then 0 else cksum

variable (f : Frame)

def header : List UInt8 := (List.range ipHdrLen).map fun i => f.bytes (14 + i)

def setCksum (cksum : Nat) : Frame :=
  { f with
    bytes := Function.update (Function.update f.bytes 24 (UInt8.ofNat (cksum / 256))) 25
      (UInt8.ofNat (cksum % 256)) }

/-- `ip_out` behind `ip_hton`: the checksum is computed with a field of 0 and stored in it. -/
def ipOut : Frame := setCksum (setCksum f 0) (ipcksum (setCksum f 0))

/-- The two checks of a header with which `ip_in` begins. -/
def Accepts : Prop := ipcksum f = 0 ∧ f.netIpvh = 0x45

instance : Decidable (Accepts f) := inferInstanceAs (Decidable (_ ∧ _))

/-- The sum of a header is that of a sound one. -/
def Sound : Prop := onesSum (words (header f)) = 65535

/-- The checksum of a header is the Internet checksum, `ip_in` accepts the header when it is sound,
and what `ip_out` makes of it is sound. -/
structure HeaderRight : Prop where
  cksum : ipcksum f = stored (checksum (header f))
  accepts : Accepts f ↔ f.netIpvh = 0x45 ∧ Sound f
  sends : f.netIpvh = 0x45 → Sound (ipOut f)

def BufferRight (buf : Nat → UInt8) (buflen : Nat) : Prop :=
  icmpCksum buf buflen = checksum ((List.range buflen).map buf)

/-- The carries of a header's sum are settled at once, also without the checksum field. -/
def HeaderFits : Prop :=
  CarriesOnce (words (header f)).sum ∧
    (f.netIpvh = 0x45 → CarriesOnce (words (header (setCksum f 0))).sum)

/-- The carries of a buffer's sum are settled at once, and the last byte of an odd number is not
negative as a `char`. -/
def BufferFits (buf : Nat → UInt8) (buflen : Nat) : Prop :=
  CarriesOnce (words ((List.range buflen).map buf)).sum ∧
    (buflen % 2 = 1 → (buf (buflen - 1)).toNat < 128)

end Definitions

section Buffers

variable {buf : Nat → UInt8} {buflen : Nat}

/-- The checksum of the message behind the header of a packet -/
theorem icmp_cksum_frame (f : Frame) (buflen : Nat) :
    Frames.icmpCksum f buflen = icmpCksum (fun i => f.bytes (34 + i)) buflen := by
  have half : ((buflen : Int) / 2).toNat = buflen / 2 := by omega
  have rest : (buflen : Int) % 2 = 0 ↔ buflen % 2 = 0 := by omega
  simp only [Frames.icmpCksum, icmpCksum, Frame.short, half, rest, Nat.add_assoc]

/-- The words of a buffer, whose sum is what `icmp_cksum` adds up when no `char` is negative -/
theorem sum_buffer (buf : Nat → UInt8) (buflen : Nat) :
    (words ((List.range buflen).map buf)).sum =
      ((List.range (buflen / 2)).map fun i =>
        (buf (2 * i)).toNat * 256 + (buf (2 * i + 1)).toNat).sum +
        if buflen % 2 = 0 then 0 else (buf (2 * (buflen / 2))).toNat * 256 := by
  by_cases even : buflen % 2 = 0
  · have whole : buflen = 2 * (buflen / 2) := by omega
    rw [if_pos even]
    conv_lhs => rw [whole, words_even]
    rfl
  · have whole : buflen = 2 * (buflen / 2) + 1 := by omega
    rw [if_neg even]
    conv_lhs => rw [whole, words_odd, List.sum_append]
    simp

theorem sum_bounded (bytes : List UInt8) : (words bytes).sum ≤ (words bytes).length * 65535 :=
  List.sum_le_card_nsmul _ _ fun w member => Nat.le_of_lt_succ (words_lt bytes w member)

theorem words_length (bytes : List UInt8) : (words bytes).length = (bytes.length + 1) / 2 := by
  induction bytes using words.induct with
  | case1 => rfl
  | case2 byte => simp [words]
  | case3 high low rest induction =>
      rw [words, List.length_cons, induction, List.length_cons, List.length_cons]
      omega

theorem complement_once {total : Nat} (once : CarriesOnce total) (bounded : total < 67108864) :
    complement total = 65535 - (total / 65536 + total % 65536) := by
  unfold CarriesOnce at once
  unfold complement
  omega

/-- A complement of a sum with one carry is the Internet checksum where it is settled by it. -/
theorem complement_iff {total : Nat} (bounded : total < 67108864) :
    complement total = 65535 - settled total ↔ CarriesOnce total := by
  by_cases once : CarriesOnce total
  · refine iff_of_true ?_ once
    rw [complement_once once bounded, settled_once once]
  · refine iff_of_false ?_ once
    unfold complement
    rw [settled_twice once (by omega)]
    unfold CarriesOnce at once
    omega

/-- A negative last byte takes 65536 from the sum. -/
theorem complement_negative {total : Nat} (bounded : total < 67108864) (large : 32768 ≤ total) :
    complement ((total + 4294901760) % 4294967296) ≠ 65535 - settled total := by
  unfold complement
  by_cases once : CarriesOnce total
  · rw [settled_once once]
    unfold CarriesOnce at once
    omega
  · rw [settled_twice once (by omega)]
    unfold CarriesOnce at once
    omega

theorem buffer_right_iff (fits : buflen ≤ packlen) :
    BufferRight buf buflen ↔ BufferFits buf buflen := by
  have limit : packlen = 1514 := rfl
  have bounded := sum_bounded ((List.range buflen).map buf)
  have length := words_length ((List.range buflen).map buf)
  rw [List.length_map, List.length_range] at length
  have sums := sum_buffer buf buflen
  unfold BufferRight BufferFits checksum icmpCksum
  rw [sum_words]
  dsimp only
  generalize (words ((List.range buflen).map buf)).sum = total at *
  generalize ((List.range (buflen / 2)).map fun i =>
    (buf (2 * i)).toNat * 256 + (buf (2 * i + 1)).toNat).sum = front at *
  by_cases even : buflen % 2 = 0
  · rw [if_pos even, Nat.add_zero] at sums
    rw [if_pos even, Nat.add_zero, ← sums, Nat.mod_eq_of_lt (by omega),
      complement_iff (by omega)]
    exact (and_iff_left fun odd => absurd odd (by omega)).symm
  · have place : buflen - 1 = 2 * (buflen / 2) := by omega
    have byte := (buf (2 * (buflen / 2))).toNat_lt
    rw [if_neg even] at sums
    rw [if_neg even, place]
    by_cases positive : (buf (2 * (buflen / 2))).toNat < 128
    · rw [if_pos positive, ← sums, Nat.mod_eq_of_lt (by omega), complement_iff (by omega)]
      exact (and_iff_left fun _ => positive).symm
    · have negative : front +
          (4294967296 - (256 - (buf (2 * (buflen / 2))).toNat) * 256) = total + 4294901760 := by
        omega
      rw [if_neg positive, negative]
      refine iff_of_false (complement_negative (by omega) (by omega)) ?_
      rintro ⟨-, small⟩
      exact positive (small (by omega))

end Buffers

section Headers

variable {f : Frame}

theorem words_header (f : Frame) :
    words (header f) = (List.range 10).map fun i => f.short (14 + 2 * i) :=
  words_even (fun i => f.bytes (14 + i)) 10

theorem sum_header (f : Frame) : (words (header f)).sum =
    f.short 14 + f.short 16 + f.short 18 + f.short 20 + f.short 22 + f.short 24 + f.short 26 +
      f.short 28 + f.short 30 + f.short 32 := by
  rw [words_header]
  simp [List.range_succ, Nat.add_assoc]

theorem header_bounded (f : Frame) : (words (header f)).sum ≤ 655350 := by
  have bounded := sum_bounded (header f)
  rwa [words_header, List.length_map, List.length_range, ← words_header] at bounded

theorem ipcksum_eq (f : Frame) : ipcksum f = stored (complement (words (header f)).sum) := by
  rw [words_header]
  rfl

theorem ipcksum_lt (f : Frame) : ipcksum f < 65536 := by
  rw [ipcksum_eq]
  unfold stored complement
  split_ifs <;> omega

/-- A header of version 4 has a sum that is not 0. -/
theorem header_positive (version : f.netIpvh = 0x45) : 0 < (words (header f)).sum := by
  rw [sum_header]
  unfold Frame.netIpvh at version
  unfold Frame.short
  omega

/-- The sum with a checksum in its field -/
theorem sum_set_cksum {cksum : Nat} (small : cksum < 65536) (f : Frame) :
    (words (header (setCksum f cksum))).sum = (words (header (setCksum f 0))).sum + cksum := by
  rw [sum_header, sum_header]
  simp only [Frame.short, setCksum, Function.update_apply]
  have high : (UInt8.ofNat (cksum / 256)).toNat = cksum / 256 := by
    rw [UInt8.toNat_ofNat']
    omega
  have low : (UInt8.ofNat (cksum % 256)).toNat = cksum % 256 := by
    rw [UInt8.toNat_ofNat']
    omega
  simp [high, low]
  omega

theorem complement_twice {total : Nat} (twice : ¬CarriesOnce total) (bounded : total ≤ 655350) :
    complement total = 131071 - (total / 65536 + total % 65536) := by
  unfold CarriesOnce at twice
  unfold complement
  omega

theorem stored_iff {total : Nat} (bounded : total ≤ 655350) :
    stored (complement total) = stored (65535 - settled total) ↔ CarriesOnce total := by
  unfold stored complement
  by_cases once : CarriesOnce total
  · refine iff_of_true ?_ once
    rw [settled_once once]
    unfold CarriesOnce at once
    split_ifs <;> omega
  · refine iff_of_false ?_ once
    rw [settled_twice once (by omega)]
    unfold CarriesOnce at once
    split_ifs <;> omega

theorem stored_zero_iff {total : Nat} (positive : 0 < total) (once : CarriesOnce total) :
    stored (complement total) = 0 ↔ settled total = 65535 := by
  rw [settled_once once]
  unfold CarriesOnce at once
  unfold stored complement
  split_ifs <;> omega

/-- A sum and its stored complement add up to all ones exactly where one carry settles the sum. -/
theorem settled_sum_iff {total : Nat} (positive : 0 < total) (bounded : total ≤ 655350) :
    settled (total + stored (complement total)) = 65535 ↔ CarriesOnce total := by
  by_cases once : CarriesOnce total
  · refine iff_of_true ?_ once
    rw [complement_once once (by omega)]
    unfold CarriesOnce at once
    unfold stored settled
    split_ifs <;> omega
  · refine iff_of_false ?_ once
    rw [complement_twice once bounded]
    unfold CarriesOnce at once
    unfold stored settled
    split_ifs <;> omega

theorem version_kept (cksum : Nat) : (setCksum f cksum).netIpvh = f.netIpvh := by
  simp [Frame.netIpvh, setCksum]

theorem sends_iff (version : f.netIpvh = 0x45) :
    Sound (ipOut f) ↔ CarriesOnce (words (header (setCksum f 0))).sum := by
  have positive := @header_positive (setCksum f 0) (by rw [version_kept, version])
  have zeroed : setCksum (setCksum f 0) (ipcksum (setCksum f 0)) =
      setCksum f (ipcksum (setCksum f 0)) := by
    unfold setCksum
    congr 1
    funext i
    simp only [Function.update_apply]
    split_ifs <;> rfl
  unfold Sound ipOut
  rw [zeroed, sum_words, sum_set_cksum (ipcksum_lt _), ipcksum_eq,
    settled_sum_iff positive (header_bounded _)]

theorem header_right_iff (f : Frame) : HeaderRight f ↔ HeaderFits f := by
  have cksum : ipcksum f = stored (checksum (header f)) ↔ CarriesOnce (words (header f)).sum := by
    rw [ipcksum_eq, checksum, sum_words]
    exact stored_iff (header_bounded f)
  constructor
  · intro right
    exact ⟨cksum.mp right.cksum, fun version => (sends_iff version).mp (right.sends version)⟩
  · rintro ⟨once, sends⟩
    refine ⟨cksum.mpr once, ?_, fun version => (sends_iff version).mpr (sends version)⟩
    rw [Accepts, Sound, sum_words, and_comm]
    refine and_congr_right fun version => ?_
    rw [ipcksum_eq]
    exact stored_zero_iff (header_positive version) once

end Headers

section Results

/-- All checksums are the Internet checksum exactly where one carry settles the sums, and a last
byte without a partner is below 128. -/
theorem checksums_right_iff (f : Frame) (buf : Nat → UInt8) (buflen : Nat)
    (fits : buflen ≤ packlen) :
    HeaderRight f ∧ BufferRight buf buflen ↔ HeaderFits f ∧ BufferFits buf buflen :=
  and_congr (header_right_iff f) (buffer_right_iff fits)

/-- A UDP packet from 10.0.0.2 to 10.0.0.1 with an identification -/
def packet (ident : Nat) : Frame where
  received := 54
  bytes := fun i =>
    (List.replicate 14 0 ++ [0x45, 0, 0, 40, UInt8.ofNat (ident / 256), UInt8.ofNat (ident % 256),
      0, 0, 255, 17, 0, 0, 10, 0, 0, 2, 10, 0, 0, 1]).getD i 0
  fits := by decide

theorem checksums_right_iff_packet :
    HeaderRight (packet 1) ∧ BufferRight (fun _ => 7) 3 ↔
      HeaderFits (packet 1) ∧ BufferFits (fun _ => 7) 3 :=
  checksums_right_iff (packet 1) (fun _ => 7) 3 (by decide)

/-- The words of a packet with the identification `0xa7c3` add up to `0x1ffff`, so that a receiver
drops it. The checksum of the byte 128 is short by 1. -/
theorem checksums_are_not_right :
    (¬∀ f, HeaderRight f) ∧ ¬∀ buf buflen, buflen ≤ packlen → BufferRight buf buflen := by
  constructor
  · intro always
    have once := ((header_right_iff (packet 0xa7c3)).mp (always _)).1
    rw [sum_header] at once
    exact absurd once (by decide)
  · intro always
    have small := ((buffer_right_iff (by decide)).mp (always (fun _ => 128) 1 (by decide))).2 rfl
    exact absurd small (by decide)

end Results

end Xinu.Net.Checksums
