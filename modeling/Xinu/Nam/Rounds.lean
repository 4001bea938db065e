import Xinu.Nam.Prefixes

/-!
# Rounds of substitutions

`nammap` is meant to substitute prefixes until it comes to a device that is not the namespace. Each
of its rounds begins with the name that the call was given, so that they all do the same.
-/

namespace Xinu.Nam.Rounds

open Xinu.Kernel.State (sysErr ok)
open Xinu.Nam.Names Xinu.Nam.Prefixes

set_option autoImplicit false

section Definitions

/-- Substitutions one behind the other, in at most as many rounds, until the device is not
`namdev` -/
def iterate (table : List Mapping) (namdev : Int) : Nat → List UInt8 → Option (Int × List UInt8)
  | 0, _ => none
  | rounds + 1, name =>
      match firstMatch table name with
      | none => none
      | some m =>
          if Fits (m.apply name) then
            if m.device ≠ namdev then some (m.device, m.apply name)
            else iterate table namdev rounds (m.apply name)
          else none

/-- `nammap` returns what the rounds of substitutions lead to, whatever the stack and the buffer
hold. -/
def Maps (s : Namespace) (table : List Mapping) (name : Buffer) (chars : List UInt8)
    (namdev : Int) : Prop :=
  ∀ tmpname newname,
    match iterate table namdev s.nnames chars with
    | none => (nammap s tmpname name newname namdev).1 = sysErr
    | some (device, mapped) =>
        (nammap s tmpname name newname namdev).1 = device ∧
          Reads (nammap s tmpname name newname namdev).2 mapped

/-- The first round ends the search, for a name of at most 126 characters, or the search fails. -/
def Settles (table : List Mapping) (chars : List UInt8) (namdev : Int) (nnames : Nat) : Prop :=
  match firstMatch table chars with
  | none => True
  | some m =>
      if m.device = namdev then iterate table namdev nnames chars = none else chars.length < 127

end Definitions

section Calls

variable {ndevs : Nat} {s : Namespace} {table : List Mapping} {m : Mapping} {name : Buffer}
  {chars : List UInt8} {namdev : Int}

/-- A name in which no prefix matches -/
theorem nammap_loop_none {tmpname : Buffer} (represents : Represents ndevs s table)
    (reads : Reads tmpname chars) (bounded : chars.length < nmMaxlen)
    (missing : firstMatch table chars = none) (left : Nat) (newname : Buffer) :
    (nammapLoop s tmpname namdev left newname).1 = sysErr := by
  induction left generalizing newname with
  | zero => rfl
  | succ left induction =>
      rw [nammapLoop, namrepl_eq represents reads bounded, missing]
      dsimp only
      split_ifs
      · rfl
      · exact induction newname

/-- Each round is like the first one. -/
theorem nammap_loop_again {tmpname : Buffer} (represents : Represents ndevs s table)
    (reads : Reads tmpname chars) (bounded : chars.length < nmMaxlen)
    (found : firstMatch table chars = some m) (again : m.device = namdev) (left : Nat)
    (newname : Buffer) : (nammapLoop s tmpname namdev left newname).1 = sysErr := by
  induction left generalizing newname with
  | zero => rfl
  | succ left induction =>
      rw [nammapLoop, namrepl_eq represents reads bounded, found]
      dsimp only
      rw [if_neg (not_not.mpr again)]
      exact induction _

theorem nammap_eq (reads : Reads name chars) (bounded : chars.length < nmMaxlen)
    (tmpname newname : Buffer) : ∃ copy, Reads copy chars ∧
      nammap s tmpname name newname namdev = nammapLoop s copy namdev s.nnames newname := by
  obtain ⟨copied, copy⟩ := namcpy_reads tmpname reads bounded
  refine ⟨_, copy, ?_⟩
  unfold nammap
  dsimp only
  rw [copied, if_neg (by decide)]

/-- The table of a match is not empty. -/
theorem some_names (represents : Represents ndevs s table)
    (found : firstMatch table chars = some m) : ∃ left, s.nnames = left + 1 := by
  refine ⟨s.nnames - 1, ?_⟩
  have length := represents.length
  cases table with
  | nil => cases found
  | cons first rest =>
      rw [List.length_cons] at length
      omega

/-- The first round ends the search. -/
theorem nammap_first (represents : Represents ndevs s table) (reads : Reads name chars)
    (bounded : chars.length < nmMaxlen) (found : firstMatch table chars = some m)
    (other : m.device ≠ namdev) (tmpname newname : Buffer) :
    nammap s tmpname name newname namdev =
      (m.device, overwrite newname (written m chars)) := by
  obtain ⟨copy, copied, result⟩ := @nammap_eq s _ _ namdev reads bounded tmpname newname
  obtain ⟨left, count⟩ := some_names represents found
  rw [result, count, nammapLoop, namrepl_eq represents copied bounded, found]
  exact if_pos other

theorem overwrite_reads (buffer : Buffer) {bytes : List UInt8} (plain : 0 ∉ bytes) :
    Reads (overwrite buffer (bytes ++ [0])) bytes := by
  refine ⟨fun i below => ?_, ?_, plain⟩
  · rw [overwrite, List.getD_append _ _ _ _ below, List.getD_eq_getElem _ _ below]
  · rw [overwrite, List.getD_append_right _ _ _ _ (Nat.le_refl _), Nat.sub_self]
    rfl

theorem apply_plain (represents : Represents ndevs s table) (reads : Reads name chars)
    (found : firstMatch table chars = some m) : 0 ∉ m.apply chars := by
  obtain ⟨i, below, rfl⟩ := List.getElem_of_mem (List.mem_of_find?_eq_some found)
  have holds := represents.holds i below
  intro member
  rcases List.mem_append.mp member with replaced | kept
  · exact holds.replaces.plain replaced
  · exact reads.plain (List.mem_of_mem_drop kept)

/-- A name of more than 126 characters does not come out with its end. -/
theorem long_fails (long : ¬chars.length < 127) :
    ¬∀ newname, Reads (overwrite newname (written m chars)) (m.apply chars) := by
  intro always
  have reads := always (spoiled (m.apply chars ++ [0]))
  refine @long_differs m _ long ?_
  by_cases inside : m.replace.length < (m.apply chars).length
  · rw [reads.inside _ inside, List.getD_append _ _ _ _ inside, List.getD_eq_getElem _ _ inside]
  · have last : m.replace.length = (m.apply chars).length := by
      simp only [Mapping.apply, List.length_append] at inside ⊢
      omega
    rw [last, reads.ends, List.getD_append_right _ _ _ _ (Nat.le_refl _), Nat.sub_self]
    rfl

end Calls

section Results

variable {ndevs : Nat} {s : Namespace} {table : List Mapping} {name : Buffer} {chars : List UInt8}
  {namdev : Int}

theorem iterate_first {m : Mapping} (found : firstMatch table chars = some m)
    (other : m.device ≠ namdev) (left : Nat) : iterate table namdev (left + 1) chars =
      if Fits (m.apply chars) then some (m.device, m.apply chars) else none := by
  rw [iterate, found]
  dsimp only
  rw [if_pos other]

/-- The search ends at a device of the table. -/
theorem iterate_device (represents : Represents ndevs s table) {rounds : Nat}
    {answer : Int × List UInt8} (leads : iterate table namdev rounds chars = some answer) :
    0 ≤ answer.1 := by
  induction rounds generalizing chars with
  | zero => cases leads
  | succ rounds induction =>
      rw [iterate] at leads
      cases found : firstMatch table chars with
      | none =>
          rw [found] at leads
          cases leads
      | some m =>
          rw [found] at leads
          dsimp only at leads
          split_ifs at leads
          · cases leads
            exact (first_match_holds represents found).2.2
          · exact induction leads

/-- A name without a prefix is mapped to nothing by both. -/
theorem maps_none (represents : Represents ndevs s table) (reads : Reads name chars)
    (bounded : chars.length < nmMaxlen) (found : firstMatch table chars = none) :
    Maps s table name chars namdev := by
  have nothing : iterate table namdev s.nnames chars = none := by
    cases s.nnames with
    | zero => rfl
    | succ left => rw [iterate, found]
  unfold Maps
  rw [nothing]
  intro tmpname newname
  obtain ⟨copy, copied, result⟩ := @nammap_eq s _ _ namdev reads bounded tmpname newname
  dsimp only
  rw [result]
  exact nammap_loop_none represents copied bounded found _ newname

/-- Where the first match is the namespace, the loop never gets away from it. -/
theorem maps_again_iff {m : Mapping} (represents : Represents ndevs s table)
    (reads : Reads name chars) (bounded : chars.length < nmMaxlen)
    (found : firstMatch table chars = some m) (again : m.device = namdev) :
    Maps s table name chars namdev ↔ iterate table namdev s.nnames chars = none := by
  have fails : ∀ tmpname newname, (nammap s tmpname name newname namdev).1 = sysErr := by
    intro tmpname newname
    obtain ⟨copy, copied, result⟩ := @nammap_eq s _ _ namdev reads bounded tmpname newname
    rw [result]
    exact nammap_loop_again represents copied bounded found again _ newname
  unfold Maps
  constructor
  · intro maps
    cases leads : iterate table namdev s.nnames chars with
    | none => rfl
    | some answer =>
        have now := maps (fun _ => 0) fun _ => 0
        have device := iterate_device represents leads
        have negative : sysErr < 0 := by decide
        rw [leads, fails] at now
        have same : sysErr = answer.1 := now.1
        omega
  · intro nothing tmpname newname
    rw [nothing]
    exact fails tmpname newname

/-- Where the first match is another device, one substitution is all there is. -/
theorem maps_first_iff {m : Mapping} (represents : Represents ndevs s table)
    (reads : Reads name chars) (bounded : chars.length < nmMaxlen)
    (found : firstMatch table chars = some m) (other : ¬m.device = namdev) :
    Maps s table name chars namdev ↔ chars.length < 127 := by
  obtain ⟨-, small, valid⟩ := first_match_holds represents found
  obtain ⟨left, count⟩ := some_names represents found
  have negative : sysErr < 0 := by decide
  unfold Maps
  rw [count, iterate_first found other]
  constructor
  · intro maps
    by_contra long
    have fits : Fits (m.apply chars) := by
      by_contra large
      have now := maps (fun _ => 0) fun _ => 0
      rw [if_neg large, nammap_first represents reads bounded found other] at now
      have same : m.device = sysErr := now
      omega
    refine @long_fails m chars long fun newname => ?_
    have now := maps (fun _ => 0) newname
    rw [if_pos fits, nammap_first represents reads bounded found other] at now
    exact now.2
  · intro short tmpname newname
    rw [if_pos (short_fits small short), nammap_first represents reads bounded found other,
      written, if_pos short]
    exact ⟨rfl, overwrite_reads newname (apply_plain represents reads found)⟩

theorem maps_iff (represents : Represents ndevs s table) (reads : Reads name chars)
    (bounded : chars.length < nmMaxlen) :
    Maps s table name chars namdev ↔ Settles table chars namdev s.nnames := by
  unfold Settles
  cases found : firstMatch table chars with
  | none => exact iff_of_true (maps_none represents reads bounded found) trivial
  | some m =>
      dsimp only
      by_cases again : m.device = namdev
      · rw [if_pos again]
        exact maps_again_iff represents reads bounded found again
      · rw [if_neg again]
        exact maps_first_iff represents reads bounded found again

/-- A name is mapped as the iteration of substitutions says exactly when no prefix matches, the
first match is a device other than the namespace and the name has at most 126 characters, or the
iteration comes to no such device. -/
theorem name_mapping_iff (ndevs : Nat) (s : Namespace) (table : List Mapping) (name : Buffer)
    (chars : List UInt8) (namdev : Int) (built : Built ndevs s table) (reads : Reads name chars)
    (bounded : chars.length < nmMaxlen) :
    Maps s table name chars namdev ↔ Settles table chars namdev s.nnames :=
  maps_iff (built_represents built) reads bounded

theorem name_mapping_iff_letters :
    Maps rootOnly [⟨[], [], 0⟩] (letters 3) (List.replicate 3 97) 5 ↔
      Settles [⟨[], [], 0⟩] (List.replicate 3 97) 5 rootOnly.nnames :=
  name_mapping_iff 1 rootOnly _ (letters 3) _ 5 root_only_built (letters_reads 3) (by decide)

def text (chars : List UInt8) : Buffer := fun i => chars.getD i 0

theorem text_reads (plain : 0 ∉ chars) : Reads (text chars) chars := by
  refine ⟨fun i below => ?_, ?_, plain⟩
  · exact List.getD_eq_getElem _ _ below
  · exact List.getD_eq_default _ _ (Nat.le_refl _)

/-- The name table behind `mount("a", "b", 0)` and `mount("b", "c", 1)`, with the namespace for
device 0 -/
def twoSteps : Namespace :=
  (mount 2 (mount 2 ⟨fun _ => ⟨fun _ => 0, fun _ => 0, 0⟩, 0⟩ (text [97]) (text [98]) 0).1
    (text [98]) (text [99]) 1).1

def twoMappings : List Mapping := [⟨[97], [98], 0⟩, ⟨[98], [99], 1⟩]

theorem two_steps_built : Built 2 twoSteps twoMappings :=
  .mounted
    (.mounted (.empty _) (text_reads (by decide)) (text_reads (by decide))
      (Prod.ext rfl (by decide)))
    (text_reads (by decide)) (text_reads (by decide)) (Prod.ext rfl (by decide))

/-- The name `a` stands for `c` on device 1. -/
theorem name_is_not_mapped :
    ¬∀ (ndevs : Nat) (s : Namespace) (table : List Mapping) (name : Buffer) (chars : List UInt8)
      (namdev : Int), Built ndevs s table → Reads name chars → chars.length < nmMaxlen →
        Maps s table name chars namdev := by
  intro always
  have reads : Reads (text [97]) [97] := text_reads (by decide)
  have maps := always 2 twoSteps twoMappings _ _ 0 two_steps_built reads (by decide)
  have settles := (maps_iff (built_represents two_steps_built) reads (by decide)).mp maps
  have leads : iterate twoMappings 0 twoSteps.nnames [97] = some (1, [99]) := by decide
  have fails : iterate twoMappings 0 twoSteps.nnames [97] = none := settles
  rw [leads] at fails
  cases fails

end Results

end Xinu.Nam.Rounds
