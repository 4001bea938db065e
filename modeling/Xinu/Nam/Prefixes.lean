import Xinu.Nam.Names
import Mathlib.Data.List.GetD

/-!
# Prefix substitution

The table as a list of mappings from prefixes to replacements, and what one substitution does to a
name. `namrepl` keeps the length of the name in a `char`, which holds no length above 127.
-/

namespace Xinu.Nam.Prefixes

open Xinu.Kernel.State (sysErr ok)
open Xinu.Nam.Names

set_option autoImplicit false

section Definitions

/-- What an entry of the table stands for. -/
structure Mapping where
  pre : List UInt8
  replace : List UInt8
  device : Int

/-- The first mapping whose prefix the name begins with -/
def firstMatch (table : List Mapping) (name : List UInt8) : Option Mapping :=
  table.find? fun m => m.pre.isPrefixOf name

/-- The name with another prefix -/
def Mapping.apply (m : Mapping) (name : List UInt8) : List UInt8 :=
  m.replace ++ name.drop m.pre.length

/-- The string fits into a name buffer with its null byte. -/
def Fits (name : List UInt8) : Prop := name.length + 1 ≤ nmMaxlen

instance : DecidablePred Fits := fun _ => inferInstanceAs (Decidable (_ ≤ _))

/-- The table that calls of `mount` have built. -/
inductive Built (ndevs : Nat) : Namespace → List Mapping → Prop
  | empty (nametab : Nat → Nmentry) : Built ndevs ⟨nametab, 0⟩ []
  | mounted {s s' : Namespace} {table : List Mapping} {pre replace : Buffer} {m : Mapping}
      (built : Built ndevs s table) (prefixes : Reads pre m.pre)
      (replaces : Reads replace m.replace)
      (done : mount ndevs s pre replace m.device = (s', ok)) : Built ndevs s' (table ++ [m])
  | refused {s s' : Namespace} {table : List Mapping} {pre replace : Buffer} {device : Int}
      (built : Built ndevs s table) (done : mount ndevs s pre replace device = (s', sysErr)) :
      Built ndevs s' table

/-- One substitution is exact: what the first matching prefix stands for is written into the buffer
with a null byte, where it fits, and otherwise nothing is written. -/
def Exact (s : Namespace) (table : List Mapping) (name : Buffer) (chars : List UInt8)
    (newname : Buffer) : Prop :=
  match firstMatch table chars with
  | none => namrepl s name newname = (sysErr, newname)
  | some m =>
      if Fits (m.apply chars) then
        namrepl s name newname = (m.device, overwrite newname (m.apply chars ++ [0]))
      else namrepl s name newname = (sysErr, newname)

end Definitions

section Table

variable {ndevs : Nat} {s : Namespace} {table : List Mapping} {m : Mapping}

/-- An entry that `mount` has filled -/
structure Holds (ndevs : Nat) (entry : Nmentry) (m : Mapping) : Prop where
  prefixes : Reads entry.nprefix m.pre
  replaces : Reads entry.nreplace m.replace
  device : entry.ndevice = m.device
  short : m.pre.length < nmPrelen
  small : m.replace.length < nmRepllen
  valid : 0 ≤ m.device ∧ m.device < ndevs

structure Represents (ndevs : Nat) (s : Namespace) (table : List Mapping) : Prop where
  length : table.length = s.nnames
  holds : ∀ i, (below : i < table.length) → Holds ndevs (s.nametab i) table[i]

theorem mount_cases (ndevs : Nat) (s : Namespace) (pre replace : Buffer) (device : Int) :
    mount ndevs s pre replace device = (s, sysErr) ∨
      ∃ p r, Reads pre p ∧ p.length < nmPrelen ∧ Reads replace r ∧ r.length < nmRepllen ∧
        0 ≤ device ∧ device < ndevs ∧
        mount ndevs s pre replace device =
          ({ nametab := Function.update s.nametab s.nnames
                { nprefix := copyBytes pre 0 0 (p.length + 1)
                    ( Nmentry.nprefix (s.nametab s.nnames))
                  nreplace := copyBytes replace 0 0 (r.length + 1) (s.nametab s.nnames).nreplace
                  ndevice := device }
             nnames := s.nnames + 1 }, ok) := by
  unfold mount
  dsimp only
  split_ifs with refused
  · exact .inl rfl
  · rw [not_or, not_or, not_or] at refused
    obtain ⟨prefixes, replaces, valid, -⟩ := refused
    obtain ⟨p, readsPrefix, short⟩ := reads_of_namlen prefixes
    obtain ⟨r, readsReplace, small⟩ := reads_of_namlen replaces
    rw [isbaddev, not_or] at valid
    refine .inr ⟨p, r, readsPrefix, short, readsReplace, small, by omega, by omega, ?_⟩
    rw [namlen_reads readsPrefix short, namlen_reads readsReplace small]
    rfl

theorem reads_unique {buffer : Buffer} {left right : List UInt8} (first : Reads buffer left)
    (second : Reads buffer right) : left = right := by
  have lengths : left.length = right.length := by
    by_contra differ
    rcases Nat.lt_or_gt_of_ne differ with less | more
    · exact second.ne_zero less first.ends
    · exact first.ne_zero more second.ends
  refine List.ext_getElem lengths fun i below other => ?_
  rw [← first.inside i below, ← second.inside i other]

/-- Every call of `mount` leads from a table to a table. -/
theorem mount_builds (built : Built ndevs s table) (pre replace : Buffer) (device : Int) :
    ∃ table', Built ndevs (mount ndevs s pre replace device).1 table' := by
  rcases mount_cases ndevs s pre replace device with
    refused | ⟨p, r, prefixes, -, replaces, -, -, -, done⟩
  · exact ⟨table, .refused built (by rw [refused])⟩
  · refine ⟨table ++ [⟨p, r, device⟩], ?_⟩
    rw [done]
    exact .mounted built prefixes replaces done

theorem built_represents (built : Built ndevs s table) : Represents ndevs s table := by
  induction built with
  | empty nametab => exact ⟨rfl, fun i below => absurd below (by simp)⟩
  | @mounted s s' table pre replace m built prefixes replaces done induction =>
      rcases mount_cases ndevs s pre replace m.device with refused |
        ⟨p, r, readsPrefix, short, readsReplace, small, positive, below, result⟩
      · rw [refused] at done
        cases (Prod.mk.inj done).2
      · rw [result] at done
        obtain ⟨rfl, -⟩ := Prod.mk.inj done
        obtain rfl := reads_unique prefixes readsPrefix
        obtain rfl := reads_unique replaces readsReplace
        refine ⟨by simp [induction.length], fun i inside => ?_⟩
        dsimp only
        by_cases last : i = s.nnames
        · subst last
          rw [Function.update_self, List.getElem_append_right (Nat.le_of_eq induction.length)]
          simp only [induction.length, Nat.sub_self, List.getElem_singleton]
          exact ⟨copy_bytes_reads prefixes _, copy_bytes_reads replaces _, rfl, short, small,
            positive, below⟩
        · have earlier : i < table.length := by
            rw [List.length_append, List.length_singleton, induction.length] at inside
            have length := induction.length
            omega
          rw [Function.update_of_ne last, List.getElem_append_left earlier]
          exact induction.holds i earlier
  | @refused s s' table pre replace device built done induction =>
      rcases mount_cases ndevs s pre replace device with refused |
        ⟨p, r, -, -, -, -, -, -, result⟩
      · rw [refused] at done
        obtain ⟨rfl, -⟩ := Prod.mk.inj done
        exact induction
      · rw [result] at done
        cases (Prod.mk.inj done).2

end Table

section Matching

variable {pre name : Buffer} {p chars : List UInt8}

/-- A prefix agrees with the name in all of its characters. -/
theorem prefix_iff (prefixes : Reads pre p) (reads : Reads name chars) :
    p <+: chars ↔ ∀ i < p.length, pre i = name i := by
  constructor
  · rintro ⟨rest, rfl⟩ i below
    rw [prefixes.inside i below, reads.inside i (by rw [List.length_append]; omega),
      List.getElem_append_left below]
  · intro agree
    have short : p.length ≤ chars.length := by
      by_contra long
      have inside : chars.length < p.length := by omega
      exact prefixes.ne_zero inside ((agree _ inside).trans reads.ends)
    rw [List.prefix_iff_eq_take]
    refine List.ext_getElem (by rw [List.length_take]; omega) fun i below other => ?_
    rw [List.getElem_take, ← prefixes.inside i below, ← reads.inside i (by omega)]
    exact agree i below

theorem match_prefix_eq {left plen : Nat} (prefixes : Reads pre p) (reads : Reads name chars)
    (before : plen ≤ p.length) (fits : p.length < plen + left)
    (agree : ∀ i < plen, pre i = name i) :
    matchPrefix pre name left plen = if p <+: chars then some p.length else none := by
  induction left generalizing plen with
  | zero => omega
  | succ left induction =>
      unfold matchPrefix
      by_cases last : plen = p.length
      · subst last
        rw [if_pos prefixes.ends, if_pos ((prefix_iff prefixes reads).mpr agree)]
      · have below : plen < p.length := by omega
        rw [if_neg (prefixes.ne_zero below)]
        by_cases same : pre plen = name plen
        · rw [if_neg (not_not.mpr same)]
          refine induction (by omega) (by omega) fun i inside => ?_
          rcases Nat.lt_succ_iff_lt_or_eq.mp inside with earlier | rfl
          · exact agree i earlier
          · exact same
        · rw [if_pos same, if_neg]
          intro matched
          exact same ((prefix_iff prefixes reads).mp matched plen below)

end Matching

section Substitution

variable {ndevs : Nat} {s : Namespace} {table : List Mapping} {m : Mapping} {entry : Nmentry}
  {name newname : Buffer} {chars : List UInt8}

theorem overwrite_copy {source buffer : Buffer} {src : Nat} {front bytes : List UInt8}
    (same : ∀ i, (below : i < bytes.length) → source (src + i) = bytes[i]) :
    copyBytes source src front.length bytes.length (overwrite buffer front) =
      overwrite buffer (front ++ bytes) := by
  funext i
  rw [copy_bytes_apply]
  unfold overwrite
  by_cases first : i < front.length
  · rw [if_neg (by omega), List.getD_append _ _ _ _ first]
  · rw [List.getD_append_right _ _ _ _ (by omega)]
    by_cases inside : i < front.length + bytes.length
    · rw [if_pos (by omega), same _ (by omega), List.getD_eq_getElem _ _ (by omega)]
    · rw [if_neg (by omega), List.getD_eq_default _ _ (by omega),
        List.getD_eq_default _ _ (by omega)]

theorem overwrite_nil (buffer : Buffer) : overwrite buffer [] = buffer := rfl

/-- A name of up to 126 characters has its length in a `char`. -/
theorem to_char_short {n : Nat} (short : n < 127) : toChar (n + 1) = n + 1 := by
  rw [toChar, Int.bmod_def]
  split_ifs <;> omega

/-- The length of a longer name is not positive there. -/
theorem to_char_long {n : Nat} (long : 127 ≤ n) (fits : n < nmMaxlen) :
    toChar (n + 1) = n - 255 := by
  have size : nmMaxlen = 256 := rfl
  rw [toChar, Int.bmod_def]
  split_ifs <;> omega

/-- The bytes that a substitution writes. -/
def written (m : Mapping) (chars : List UInt8) : List UInt8 :=
  if chars.length < 127 then m.apply chars ++ [0] else m.replace

theorem substitute_eq (holds : Holds ndevs entry m) (reads : Reads name chars)
    (bounded : chars.length < nmMaxlen) (matched : m.pre <+: chars) (newname : Buffer) :
    substitute entry name m.pre.length newname =
      (m.device, overwrite newname (written m chars)) := by
  have size : nmMaxlen = 256 := rfl
  have limit : nmRepllen = 96 := rfl
  have small := holds.small
  have short := matched.length_le
  have replaced : namlen entry.nreplace nmMaxlen - 1 = m.replace.length := by
    rw [namlen_reads holds.replaces (by omega)]
    omega
  have first : copyBytes entry.nreplace 0 0 m.replace.length newname =
      overwrite newname m.replace := by
    have copied := @overwrite_copy entry.nreplace newname 0 [] m.replace fun i below => by
      rw [Nat.zero_add]
      exact holds.replaces.inside i below
    simpa [overwrite_nil] using copied
  unfold substitute written
  rw [namlen_reads reads bounded, replaced]
  dsimp only
  by_cases few : chars.length < 127
  · have rest : ((chars.length : Int) + 1 - m.pre.length).toNat =
        (chars.drop m.pre.length ++ [0]).length := by
      rw [List.length_append, List.length_drop, List.length_singleton]
      omega
    rw [to_char_short few, if_neg (by omega), if_pos few, Int.toNat_natCast, first, rest,
      holds.device, overwrite_copy, Mapping.apply, List.append_assoc]
    intro i below
    rw [List.length_append, List.length_drop, List.length_singleton] at below
    by_cases last : m.pre.length + i = chars.length
    · rw [last, reads.ends, List.getElem_append_right (by rw [List.length_drop]; omega)]
      simp
    · rw [reads.inside _ (by omega), List.getElem_append_left (by rw [List.length_drop]; omega),
        List.getElem_drop]
  · have nothing : ((chars.length : Int) - 255 - m.pre.length).toNat = 0 := by omega
    rw [to_char_long (by omega) bounded, if_neg (by omega), if_neg few, Int.toNat_natCast, first,
      nothing, holds.device]
    rfl

theorem namrepl_loop_eq (represents : Represents ndevs s table) (reads : Reads name chars)
    (bounded : chars.length < nmMaxlen) (newname : Buffer) {left i : Nat}
    (rest : i + left = table.length) :
    namreplLoop s name newname left i =
      match firstMatch (table.drop i) chars with
      | none => (sysErr, newname)
      | some m => (m.device, overwrite newname (written m chars)) := by
  induction left generalizing i with
  | zero =>
      rw [List.drop_eq_nil_of_le (by omega)]
      rfl
  | succ left induction =>
      have inside : i < table.length := by omega
      have holds := represents.holds i inside
      have prefixes := match_prefix_eq holds.prefixes reads (Nat.zero_le _)
        (by rw [Nat.zero_add]; exact holds.short) fun j below => absurd below (by omega)
      rw [namreplLoop, prefixes, List.drop_eq_getElem_cons inside, firstMatch, List.find?_cons]
      by_cases matched : table[i].pre <+: chars
      · rw [if_pos matched, List.isPrefixOf_iff_prefix.mpr matched]
        exact substitute_eq holds reads bounded matched newname
      · rw [if_neg matched, Bool.eq_false_iff.mpr fun found =>
          matched (List.isPrefixOf_iff_prefix.mp found)]
        exact induction (by omega)

/-- What `namrepl` returns and writes, for every name -/
theorem namrepl_eq (represents : Represents ndevs s table) (reads : Reads name chars)
    (bounded : chars.length < nmMaxlen) (newname : Buffer) :
    namrepl s name newname =
      match firstMatch table chars with
      | none => (sysErr, newname)
      | some m => (m.device, overwrite newname (written m chars)) := by
  rw [namrepl, ← represents.length]
  exact namrepl_loop_eq represents reads bounded newname (Nat.zero_add _)

theorem first_match_holds (represents : Represents ndevs s table)
    (found : firstMatch table chars = some m) :
    m.pre <+: chars ∧ m.replace.length < nmRepllen ∧ 0 ≤ m.device := by
  have matched := List.find?_some found
  obtain ⟨i, below, rfl⟩ := List.getElem_of_mem (List.mem_of_find?_eq_some found)
  have holds := represents.holds i below
  exact ⟨List.isPrefixOf_iff_prefix.mp matched, holds.small, holds.valid.1⟩

/-- A mapped name of up to 126 characters fits. -/
theorem short_fits (small : m.replace.length < nmRepllen) (short : chars.length < 127) :
    Fits (m.apply chars) := by
  have size : nmMaxlen = 256 := rfl
  have limit : nmRepllen = 96 := rfl
  unfold Fits Mapping.apply
  rw [List.length_append, List.length_drop]
  omega

/-- A buffer in which no byte is as it has to be afterwards -/
def spoiled (bytes : List UInt8) : Buffer := fun i => bytes.getD i 0 + 1

/-- With a long name the bytes behind the replacement are not written. -/
theorem long_differs (long : ¬chars.length < 127) :
    overwrite (spoiled (m.apply chars ++ [0])) (written m chars) m.replace.length ≠
      (m.apply chars ++ [0]).getD m.replace.length 0 := by
  rw [written, if_neg long, overwrite, List.getD_eq_default _ _ (Nat.le_refl _), spoiled]
  intro same
  simp at same

end Substitution

section Results

variable {ndevs : Nat} {s : Namespace} {table : List Mapping} {m : Mapping} {name : Buffer}
  {chars : List UInt8}

theorem exact_iff (represents : Represents ndevs s table) (reads : Reads name chars)
    (bounded : chars.length < nmMaxlen) :
    (∀ newname, Exact s table name chars newname) ↔
      firstMatch table chars = none ∨ chars.length < 127 := by
  unfold Exact
  cases found : firstMatch table chars with
  | none =>
      refine iff_of_true (fun newname => ?_) (.inl rfl)
      dsimp only
      rw [namrepl_eq represents reads bounded, found]
  | some m =>
      obtain ⟨-, small, valid⟩ := first_match_holds represents found
      have result : ∀ newname, namrepl s name newname =
          (m.device, overwrite newname (written m chars)) := fun newname => by
        rw [namrepl_eq represents reads bounded, found]
      dsimp only
      constructor
      · intro exact
        by_contra neither
        rw [not_or] at neither
        have long := neither.2
        have now := exact (spoiled (m.apply chars ++ [0]))
        rw [result] at now
        split_ifs at now
        · have same := congrFun (Prod.mk.inj now).2 m.replace.length
          refine long_differs long (same.trans ?_)
          have inside : m.replace.length < (m.apply chars ++ [0]).length := by
            simp only [Mapping.apply, List.length_append, List.length_singleton]
            omega
          rw [overwrite, List.getD_eq_getElem _ _ inside, List.getD_eq_getElem _ _ inside]
        · have negative : m.device = sysErr := (Prod.mk.inj now).1
          rw [negative] at valid
          exact absurd valid (by decide)
      · rintro (missing | short) newname
        · cases missing
        · rw [if_pos (short_fits small short), result, written, if_pos short]

/-- The substitution in a name is exact, whatever the buffer holds, exactly when no prefix matches
or the name has at most 126 characters. -/
theorem substitution_exact_iff (ndevs : Nat) (s : Namespace) (table : List Mapping) (name : Buffer)
    (chars : List UInt8) (built : Built ndevs s table) (reads : Reads name chars)
    (bounded : chars.length < nmMaxlen) :
    (∀ newname, Exact s table name chars newname) ↔
      firstMatch table chars = none ∨ chars.length < 127 :=
  exact_iff (built_represents built) reads bounded

/-- The name table behind `mount("", "", 0)` -/
def rootOnly : Namespace := (mount 1 ⟨fun _ => ⟨fun _ => 0, fun _ => 0, 0⟩, 0⟩ (fun _ => 0)
  (fun _ => 0) 0).1

theorem root_only_built : Built 1 rootOnly [⟨[], [], 0⟩] :=
  .mounted (.empty _) ⟨by simp, rfl, by simp⟩ ⟨by simp, rfl, by simp⟩ (Prod.ext rfl (by decide))

/-- A name of equal characters -/
def letters (n : Nat) : Buffer := fun i => if i < n then 97 else 0

theorem letters_reads (n : Nat) : Reads (letters n) (List.replicate n 97) := by
  refine ⟨fun i below => ?_, by simp [letters], by simp⟩
  rw [List.length_replicate] at below
  simp [letters, below]

theorem substitution_exact_iff_letters :
    (∀ newname, Exact rootOnly [⟨[], [], 0⟩] (letters 3) (List.replicate 3 97) newname) ↔
      firstMatch [⟨[], [], 0⟩] (List.replicate 3 97) = none ∨
        (List.replicate 3 (97 : UInt8)).length < 127 :=
  substitution_exact_iff 1 rootOnly _ (letters 3) _ root_only_built (letters_reads 3) (by decide)

theorem letters_bounded {n : Nat} (fits : n < nmMaxlen) :
    (List.replicate n (97 : UInt8)).length < nmMaxlen := by
  rw [List.length_replicate]
  exact fits

theorem long_letters {n : Nat} (long : 127 ≤ n) (fits : n < nmMaxlen) :
    ¬∀ newname, Exact rootOnly [⟨[], [], 0⟩] (letters n) (List.replicate n 97) newname := by
  rw [exact_iff (built_represents root_only_built) (letters_reads n) (letters_bounded fits)]
  rintro (missing | short)
  · cases missing
  · rw [List.length_replicate] at short
    omega

/-- A name of 127 characters with the empty prefix -/
theorem substitution_is_not_exact :
    ¬∀ (ndevs : Nat) (s : Namespace) (table : List Mapping) (name : Buffer) (chars : List UInt8)
      (newname : Buffer), Built ndevs s table → Reads name chars → chars.length < nmMaxlen →
        Exact s table name chars newname := by
  intro always
  have fits : 127 < nmMaxlen := by decide
  generalize size : 127 = n at fits
  exact long_letters (Nat.le_of_eq size) fits fun newname =>
    always 1 rootOnly _ _ _ newname root_only_built (letters_reads n) (letters_bounded fits)

end Results

end Xinu.Nam.Prefixes
