import Xinu.Kernel.State
import Mathlib.Algebra.Group.Nat.Defs
import Mathlib.Tactic.Common

/-!
# Dotted decimal

`dot2ip` reads a string segment by segment. A string in memory ends in front of its first null
byte, and its segments are what the dots in it separate.
-/

namespace Xinu.Net.Dotted

open Xinu.Kernel.State (sysErr ok word32)

set_option autoImplicit false

section Definitions

def nullch : UInt8 := 0

def dot : UInt8 := 46

variable (dotted : Nat → UInt8)

/-- The loop over the characters of a segment, which may look at `left` more: the value, the last
character and the place behind it. -/
def readSegment : Nat → Nat → Nat → UInt8 → Option (Nat × UInt8 × Nat)
  | 0, p, val, ch => some (val, ch, p)
  | left + 1, p, val, _ =>
      let nch := 3 - left
      let ch := dotted p
      if ch = nullch ∨ ch = dot then if nch = 0 then none else some (val, ch, p + 1)
      else if 3 ≤ nch ∨ ch < 48 ∨ 57 < ch then none
      else readSegment left (p + 1) (10 * val + (ch.toNat - 48)) ch

/-- The loop over the segments, of which `left` more are read. -/
def readSegments : Nat → Nat → Nat → Option Nat
  | 0, _, _ => none
  | left + 1, p, ipaddr =>
      match readSegment dotted 4 p 0 nullch with
      | none => none
      | some (val, ch, p) =>
          if 255 < val then none
          else
            let ipaddr := (ipaddr <<< 8) % word32 ||| val
            if ch = nullch then some ipaddr else readSegments left p ipaddr

/-- The status and what is in `*result` afterwards -/
def dot2ip (result : Nat) : Int × Nat :=
  match readSegments dotted 4 0 0 with
  | none => (sysErr, result)
  | some ipaddr => (ok, ipaddr)

/-- The string at a place -/
def TextAt : Nat → List UInt8 → Prop
  | p, [] => dotted p = nullch
  | p, ch :: text => dotted p = ch ∧ ch ≠ nullch ∧ TextAt (p + 1) text

instance decideTextAt : (p : Nat) → (text : List UInt8) → Decidable (TextAt dotted p text)
  | _, [] => inferInstanceAs (Decidable (_ = _))
  | p, _ :: text =>
      have := decideTextAt (p + 1) text
      inferInstanceAs (Decidable (_ ∧ _ ∧ _))

end Definitions

section Grammar

def IsDigit (ch : UInt8) : Prop := 48 ≤ ch ∧ ch ≤ 57

instance (ch : UInt8) : Decidable (IsDigit ch) := inferInstanceAs (Decidable (_ ∧ _))

def valueFrom (val : Nat) (digits : List UInt8) : Nat :=
  digits.foldl (fun val digit => 10 * val + (digit.toNat - 48)) val

def value (digits : List UInt8) : Nat := valueFrom 0 digits

/-- A decimal number of one to three digits that is at most 255 -/
def IsNumber (segment : List UInt8) : Prop :=
  (1 ≤ segment.length ∧ segment.length ≤ 3) ∧ (∀ ch ∈ segment, IsDigit ch) ∧ value segment ≤ 255

instance (segment : List UInt8) : Decidable (IsNumber segment) :=
  inferInstanceAs (Decidable (_ ∧ _ ∧ _))

def segments (text : List UInt8) : List (List UInt8) := text.splitOn dot

def IsDotted (text : List UInt8) : Prop :=
  (segments text).length = 4 ∧ ∀ segment ∈ segments text, IsNumber segment

/-- The numbers of a string with fewer than four of them -/
def IsShort (text : List UInt8) : Prop :=
  (segments text).length < 4 ∧ ∀ segment ∈ segments text, IsNumber segment

instance (text : List UInt8) : Decidable (IsDotted text) := inferInstanceAs (Decidable (_ ∧ _))

instance (text : List UInt8) : Decidable (IsShort text) := inferInstanceAs (Decidable (_ ∧ _))

/-- `a * 2^24 + b * 2^16 + c * 2^8 + d` for four segments -/
def address (text : List UInt8) : Nat :=
  (segments text).foldl (fun ipaddr segment => ipaddr * 256 + value segment) 0

/-- The string is accepted exactly when it is dotted decimal, and nothing is stored otherwise. -/
structure Exact (dotted : Nat → UInt8) (text : List UInt8) (result : Nat) : Prop where
  accepts : (dot2ip dotted result).1 = ok ↔ IsDotted text
  stores : IsDotted text → dot2ip dotted result = (ok, address text)
  refuses : ¬IsDotted text → dot2ip dotted result = (sysErr, result)

end Grammar

section Reading

variable {dotted : Nat → UInt8} {p : Nat} {segment tail : List UInt8}

/-- A segment ends at a dot or at the end of the string. -/
def Ends (tail : List UInt8) : Prop := tail = [] ∨ tail.head? = some dot

/-- What the loop takes, with `left` more characters to look at: digits for which it has room, and
no empty first segment -/
def Taken (left : Nat) (segment : List UInt8) : Prop :=
  (segment.length ≤ left ∧ (segment = [] → left < 3)) ∧ ∀ ch ∈ segment, IsDigit ch

instance (left : Nat) (segment : List UInt8) : Decidable (Taken left segment) :=
  inferInstanceAs (Decidable (_ ∧ _))

theorem text_at_end (ends : Ends tail) (text : TextAt dotted p tail) :
    dotted p = tail.headD nullch ∧ (dotted p = nullch ∨ dotted p = dot) := by
  cases tail with
  | nil => exact ⟨text, Or.inl text⟩
  | cons ch rest =>
      rcases ends with none | first
      · cases none
      · simp only [List.head?_cons, Option.some.injEq] at first
        exact ⟨text.1, Or.inr (text.1.trans first)⟩

theorem text_behind (text : TextAt dotted p (segment ++ tail)) :
    TextAt dotted (p + segment.length) tail := by
  induction segment generalizing p with
  | nil => exact text
  | cons ch rest induction =>
      have behind := induction text.2.2
      rwa [List.length_cons, show p + (rest.length + 1) = p + 1 + rest.length by omega]

theorem read_segment {left val : Nat} {ch : UInt8} (few : left ≤ 3) (noDot : dot ∉ segment)
    (ends : Ends tail) (text : TextAt dotted p (segment ++ tail)) :
    readSegment dotted (left + 1) p val ch =
      if Taken left segment then
        some (valueFrom val segment, tail.headD nullch, p + segment.length + 1)
      else none := by
  induction segment generalizing left p val ch with
  | nil =>
      obtain ⟨last, stops⟩ := text_at_end ends text
      rw [readSegment, if_pos stops]
      by_cases first : left = 3
      · rw [if_pos (by omega), if_neg (by simp [Taken, first])]
      · have later : left < 3 := by omega
        rw [if_neg (by omega), if_pos (by simp [Taken, later])]
        simp [valueFrom, last]
  | cons c rest induction =>
      obtain ⟨here, proper, behind⟩ := text
      have different : c ≠ dot := fun same => noDot (same ▸ List.mem_cons_self)
      have goesOn : ¬(c = nullch ∨ c = dot) := by simp [proper, different]
      rw [readSegment, here, if_neg goesOn]
      by_cases last : left = 0
      · rw [if_pos (Or.inl (by omega)), if_neg (by simp [Taken, last])]
      obtain ⟨less, rfl⟩ : ∃ less, left = less + 1 := ⟨left - 1, by omega⟩
      by_cases digit : IsDigit c
      · have taken : ¬(3 ≤ 3 - (less + 1) ∨ c < 48 ∨ 57 < c) := by
          have low := UInt8.not_lt.mpr digit.1
          have high := UInt8.not_lt.mpr digit.2
          simp only [low, high, or_false]
          omega
        rw [if_neg taken, induction (by omega) (fun inside => noDot (List.mem_cons_of_mem _ inside))
          behind]
        have same : Taken less rest ↔ Taken (less + 1) (c :: rest) := by
          simp only [Taken, List.length_cons, List.mem_cons, forall_eq_or_imp, digit, true_and]
          have room : less < 3 := by omega
          simp [room]
        have place : p + 1 + rest.length + 1 = p + (c :: rest).length + 1 := by
          rw [List.length_cons]
          omega
        simp only [same, place]
        rfl
      · have refused : 3 ≤ 3 - (less + 1) ∨ c < 48 ∨ 57 < c := by
          by_contra none
          simp only [not_or, UInt8.not_lt] at none
          exact digit none.2
        rw [if_pos refused, if_neg]
        rintro ⟨_, all⟩
        exact digit (all c List.mem_cons_self)

theorem number_iff : IsNumber segment ↔ Taken 3 segment ∧ value segment ≤ 255 := by
  have some : 1 ≤ segment.length ↔ (segment = [] → 3 < 3) := by
    rw [Nat.one_le_iff_ne_zero, Ne, List.length_eq_zero_iff]
    simp
  rw [IsNumber, some, Taken]
  tauto

/-- The address with one more byte -/
theorem shifted {ipaddr val : Nat} (room : ipaddr < 256 ^ 3) (small : val ≤ 255) :
    (ipaddr <<< 8) % word32 ||| val = ipaddr * 256 + val := by
  have fits : ipaddr <<< 8 < word32 := by
    rw [Nat.shiftLeft_eq, word32]
    omega
  rw [Nat.mod_eq_of_lt fits, ← Nat.shiftLeft_add_eq_or_of_lt (by omega), Nat.shiftLeft_eq]

/-- The loop over the segments takes at most as many as it has left. -/
theorem read_segments {left ipaddr : Nat} {text : List UInt8} (few : left ≤ 4)
    (small : ipaddr < 256 ^ (4 - left)) (string : TextAt dotted p text) :
    readSegments dotted left p ipaddr =
      if (segments text).length ≤ left ∧ ∀ segment ∈ segments text, IsNumber segment then
        some ((segments text).foldl (fun ipaddr segment => ipaddr * 256 + value segment) ipaddr)
      else none := by
  induction left generalizing p ipaddr text with
  | zero =>
      have some := List.length_pos_iff.mpr (List.splitOn_ne_nil dot text)
      rw [readSegments, if_neg]
      rintro ⟨none, _⟩
      exact absurd none (Nat.not_le.mpr some)
  | succ left induction =>
      obtain ⟨segment, tail, rfl, noDot, ends⟩ : ∃ segment tail, text = segment ++ tail ∧
          dot ∉ segment ∧ Ends tail := by
        by_cases member : dot ∈ text
        · obtain ⟨front, back, same, absent⟩ := List.eq_append_cons_of_mem member
          exact ⟨front, dot :: back, same, absent, Or.inr rfl⟩
        · exact ⟨text, [], (List.append_nil text).symm, member, Or.inl rfl⟩
      obtain ⟨rest, split⟩ : ∃ rest, segments (segment ++ tail) = segment :: rest ∧
          (tail = [] ∧ rest = [] ∨ ∃ back, tail = dot :: back ∧ rest = segments back) := by
        rcases ends with rfl | first
        · refine ⟨[], ?_, Or.inl ⟨rfl, rfl⟩⟩
          rw [List.append_nil]
          exact List.splitOn_eq_singleton noDot
        · obtain ⟨back, rfl⟩ := List.head?_eq_some_iff.mp first
          exact ⟨segments back, List.splitOn_append_cons_self_of_not_mem noDot back,
            Or.inr ⟨back, rfl, rfl⟩⟩
      obtain ⟨split, remain⟩ := split
      rw [split, readSegments, read_segment (by omega) noDot ends string]
      by_cases number : IsNumber segment
      swap
      · have refused : ¬((segment :: rest).length ≤ left + 1 ∧
            ∀ part ∈ segment :: rest, IsNumber part) :=
          fun all => number (all.2 segment List.mem_cons_self)
        rw [if_neg refused]
        split_ifs with shape
        · have large : 255 < value segment := by
            by_contra fits
            exact number (number_iff.mpr ⟨shape, by omega⟩)
          exact if_pos large
        · rfl
      · obtain ⟨shape, fits⟩ := number_iff.mp number
        have room : ipaddr < 256 ^ 3 :=
          Nat.lt_of_lt_of_le small (Nat.pow_le_pow_right (by decide) (by omega))
        rw [if_pos shape]
        change (if 255 < value segment then none else _) = _
        rw [if_neg (by omega)]
        change (if _ = nullch then some _ else readSegments _ _ _ _) = _
        rw [show valueFrom 0 segment = value segment from rfl, shifted room fits]
        rcases remain with ⟨rfl, rfl⟩ | ⟨back, rfl, rfl⟩
        · rw [if_pos (by rfl), if_pos ⟨by simp, by simpa using number⟩]
          rfl
        · have behind : TextAt dotted (p + segment.length + 1) back := (text_behind string).2.2
          have less : ipaddr * 256 + value segment < 256 ^ (4 - left) := by
            rw [show 4 - left = 4 - (left + 1) + 1 by omega, Nat.pow_succ]
            omega
          rw [if_neg (by simp [dot, nullch]), induction (by omega) less behind]
          simp [number]

end Reading

section Results

variable {dotted : Nat → UInt8}

theorem dot2ip_eq {text : List UInt8} (string : TextAt dotted 0 text) (result : Nat) :
    dot2ip dotted result =
      if IsDotted text ∨ IsShort text then (ok, address text) else (sysErr, result) := by
  have few : IsDotted text ∨ IsShort text ↔
      (segments text).length ≤ 4 ∧ ∀ segment ∈ segments text, IsNumber segment := by
    unfold IsDotted IsShort
    rw [← or_and_right, Nat.le_iff_lt_or_eq, or_comm]
  rw [dot2ip, read_segments (Nat.le_refl 4) (by decide) string]
  by_cases accepted : IsDotted text ∨ IsShort text
  · rw [if_pos accepted, if_pos (few.mp accepted)]
    rfl
  · rw [if_neg accepted, if_neg fun all => accepted (few.mpr all)]

/-- A string is accepted exactly when it is dotted decimal, unless it has fewer than four numbers. -/
theorem dot2ip_exact_iff {text : List UInt8} (string : TextAt dotted 0 text) (result : Nat) :
    Exact dotted text result ↔ ¬IsShort text := by
  constructor
  · intro holds short
    have accepted : (dot2ip dotted result).1 = ok := by rw [dot2ip_eq string, if_pos (Or.inr short)]
    have four := (holds.accepts.mp accepted).1
    exact absurd short.1 (by omega)
  · intro long
    have same : dot2ip dotted result =
        if IsDotted text then (ok, address text) else (sysErr, result) := by
      rw [dot2ip_eq string]
      simp only [long, or_false]
    refine ⟨?_, fun isDotted => by rw [same, if_pos isDotted],
      fun notDotted => by rw [same, if_neg notDotted]⟩
    rw [same]
    by_cases isDotted : IsDotted text
    · simp [isDotted]
    · rw [if_neg isDotted]
      exact iff_of_false (show ¬sysErr = ok by decide) isDotted

/-- The characters `10.0.0.2` -/
def fourNumbers : List UInt8 := [49, 48, 46, 48, 46, 48, 46, 50]

theorem dot2ip_exact_four :
    Exact (fun i => fourNumbers.getD i 0) fourNumbers 7 ↔ ¬IsShort fourNumbers :=
  dot2ip_exact_iff (by decide) 7

/-- The characters `10.2`, which are accepted as 2562 -/
def twoNumbers : List UInt8 := [49, 48, 46, 50]

theorem dot2ip_not_exact : ¬∀ (dotted : Nat → UInt8) (text : List UInt8) (result : Nat),
    TextAt dotted 0 text → Exact dotted text result := by
  intro always
  have holds := always (fun i => twoNumbers.getD i 0) twoNumbers 7 (by decide)
  have accepted : (dot2ip (fun i => twoNumbers.getD i 0) 7).1 = ok := by decide
  exact absurd (holds.accepts.mp accepted) (by decide)

end Results

end Xinu.Net.Dotted
