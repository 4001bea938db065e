import Mathlib.Data.List.Induction
import Xinu.Net.Dhcp

/-!
# The options of a message

The list of options is a sequence of padding bytes, of codes with a length and a value, and of an
end. Both parsers of DHCP take every byte that they come to for a code with a length.
-/

namespace Xinu.Net.DhcpOptions

open Xinu.Net.Dhcp

set_option autoImplicit false

section Definitions

variable (opt : Nat → UInt8)

/-- The number of option bytes in a message of a size -/
def stopOf (size : Int) : Nat := (size - dcOptOffset).toNat

/-- The place of the value of the first option with a key: a 0 is padding, a 255 ends the list, and
every other option is its code, its length and its value, all in front of `stop`. -/
def findOption (stop : Nat) (key : UInt8) (place : Nat) : Option Nat :=
  if place + 1 < stop then
    if opt place = 0 then findOption stop key (place + 1)
    else if opt place = 255 then none
    else if stop < place + 2 + (opt (place + 1)).toNat then none
    else if opt place = key then some (place + 2)
    else findOption stop key (place + 2 + (opt (place + 1)).toNat)
  else none
termination_by stop - place

/-- The number in the value of the first option with a key, if it has enough bytes -/
def optionNumber (stop : Nat) (key : UInt8) (least : Nat) (number : Nat → Nat) : Nat :=
  match findOption opt stop key 0 with
  | none => 0
  | some place => if least ≤ (opt (place - 1)).toNat then number place else 0

def findScan (stop : Nat) : Found :=
  ⟨optionNumber opt stop 53 1 fun place => (opt place).toNat, optionNumber opt stop 1 4 (long opt),
    optionNumber opt stop 3 4 (long opt)⟩

/-- The parsers find in a message what its options are, and `dhcp_get_opt_val` does so whatever is
behind the message. -/
structure Right (msg : Dhcpmsg) (size : Int) : Prop where
  value : ∀ key, dhcpGetOptVal msg size key = findOption msg.dcOpt (stopOf size) key 0
  inside : ∀ (other : Dhcpmsg) (key : UInt8),
    (∀ place < stopOf size, other.dcOpt place = msg.dcOpt place) →
      dhcpGetOptVal other size key = dhcpGetOptVal msg size key
  scan : scanOptions msg size = findScan msg.dcOpt (stopOf size)

/-- The places at which both parsers look for a code -/
def placesFrom (eom place : Nat) : List Nat :=
  if place < eom then place :: placesFrom eom (place + 1 + ((opt (place + 1)).toNat + 1))
  else []
termination_by eom - place

def places (size : Int) : List Nat := placesFrom opt (eomOf size) 0

/-- No place at which a parser looks is padding or the end, and an option that is cut off is not the
first one with its code. -/
def Plain (size : Int) : Prop :=
  ∀ place ∈ places opt size, opt place ≠ 0 ∧ opt place ≠ 255 ∧
    (place + 2 + (opt (place + 1)).toNat ≤ stopOf size ∨
      ∃ earlier ∈ places opt size, earlier < place ∧ opt earlier = opt place)

/-- The last option with a code has the number of the first, whose value has enough bytes. -/
def Repeats (size : Int) (code : UInt8) (least : Nat) (number : Nat → Nat) : Prop :=
  ∀ first ∈ (places opt size).find? (opt · == code),
    ∀ last ∈ (places opt size).reverse.find? (opt · == code),
      number (last + 2) =
        if least ≤ (opt (first + 1)).toNat then number (first + 2) else 0

structure Unambiguous (size : Int) : Prop where
  type : Repeats opt size 53 1 fun place => (opt place).toNat
  mask : Repeats opt size 1 4 (long opt)
  router : Repeats opt size 3 4 (long opt)

/-- Both parsers find an option that a message has been built with, the option loop if it looks for
it. -/
structure Finds (msg : Dhcpmsg) (size : Int) (code : UInt8) (value : List UInt8) : Prop where
  found : ∃ place, dhcpGetOptVal msg size code = some place ∧
    value = (List.range value.length).map fun i => msg.dcOpt (place + i)
  type : code = 53 → value.map UInt8.toNat = [(scanOptions msg size).msgtype]

/-- The options that `dhcp_bld_disc` writes -/
def discOptions : List (UInt8 × List UInt8) := [(53, [1]), (55, [1, 3])]

/-- The options that `dhcp_bld_req` writes for an offer whose server is at a place -/
def reqOptions (offer : Dhcpmsg) (serverIp : Nat) : List (UInt8 × List UInt8) :=
  [(53, [3]), (50, networkBytes offer.dcYip),
    (54, (List.range 4).map fun i => offer.dcOpt (serverIp + i))]

end Definitions

section Walk

variable {opt : Nat → UInt8} {eom place : Nat}

theorem places_from_inside (below : place < eom) :
    placesFrom opt eom place =
      place :: placesFrom opt eom (place + 2 + (opt (place + 1)).toNat) := by
  rw [placesFrom, if_pos below]
  congr 2
  omega

theorem places_from_outside (over_ : eom ≤ place) : placesFrom opt eom place = [] := by
  rw [placesFrom, if_neg (by omega)]

theorem places_from_ge {p : Nat} (inside : p ∈ placesFrom opt eom place) : place ≤ p := by
  induction place using placesFrom.induct opt eom with
  | case1 place below induction =>
      rw [placesFrom, if_pos below] at inside
      rcases List.mem_cons.mp inside with rfl | later
      · exact Nat.le_refl p
      · exact Nat.le_trans (by omega) (induction later)
  | case2 place below =>
      rw [placesFrom, if_neg below] at inside
      cases inside

/-- `dhcp_get_opt_val` finds the first place with its key. -/
theorem get_opt_val_loop_eq (opt : Nat → UInt8) (eom : Nat) (key : UInt8) (place : Nat) :
    getOptValLoop opt eom key place =
      ((placesFrom opt eom place).find? (opt · == key)).map (· + 2) := by
  induction place using placesFrom.induct opt eom with
  | case1 place below induction =>
      rw [getOptValLoop, placesFrom, if_pos below, if_pos below, List.find?_cons]
      by_cases found : opt place = key
      · simp [found]
      · have differs : (opt place == key) = false := by simpa using found
        rw [if_neg found, differs]
        exact induction
  | case2 place below =>
      rw [getOptValLoop, placesFrom, if_neg below, if_neg below]
      rfl

theorem option_loop_eq (opt : Nat → UInt8) (eom place : Nat) (found : Found) :
    optionLoop opt eom place found =
      (placesFrom opt eom place).foldl (fun found p => optionStep opt p found) found := by
  induction place using placesFrom.induct opt eom generalizing found with
  | case1 place below induction =>
      rw [optionLoop, placesFrom, if_pos below, if_pos below, List.foldl_cons]
      exact induction (optionStep opt place found)
  | case2 place below =>
      rw [optionLoop, placesFrom, if_neg below, if_neg below]
      rfl

/-- The parsers look at nothing behind the last byte of a message. -/
theorem get_opt_val_loop_inside {other : Nat → UInt8} (key : UInt8)
    (same : ∀ p ≤ eom, other p = opt p) :
    getOptValLoop other eom key place = getOptValLoop opt eom key place := by
  induction place using placesFrom.induct opt eom with
  | case1 place below induction =>
      rw [getOptValLoop, getOptValLoop.eq_def opt, if_pos below, if_pos below,
        same place (by omega), same (place + 1) (by omega), induction]
  | case2 place below =>
      rw [getOptValLoop, getOptValLoop.eq_def opt, if_neg below, if_neg below]

end Walk

section Values

variable {opt : Nat → UInt8} {stop place : Nat}

/-- Padding and the end are no options. -/
theorem find_option_never {key : UInt8} (never : key = 0 ∨ key = 255) :
    findOption opt stop key place = none := by
  induction place using findOption.induct opt stop key with
  | case1 place below padding induction =>
      rw [findOption, if_pos below, if_pos padding]
      exact induction
  | case2 place below differs ends => rw [findOption, if_pos below, if_neg differs, if_pos ends]
  | case3 place below differs goes outside =>
      rw [findOption, if_pos below, if_neg differs, if_neg goes, if_pos outside]
  | case4 place below differs goes inside found =>
      rcases never with rfl | rfl
      · exact absurd found differs
      · exact absurd found goes
  | case5 place below differs goes inside other induction =>
      rw [findOption, if_pos below, if_neg differs, if_neg goes, if_neg inside, if_neg other]
      exact induction
  | case6 place below => rw [findOption, if_neg below]

/-- What is left to be plain from a place on, when the codes that have been seen do not matter any
more. -/
def PlainFrom (opt : Nat → UInt8) (stop : Nat) (seen : UInt8 → Prop) (place : Nat) : Prop :=
  ∀ p ∈ placesFrom opt (stop - 1) place, opt p ≠ 0 ∧ opt p ≠ 255 ∧
    (p + 2 + (opt (p + 1)).toNat ≤ stop ∨ seen (opt p) ∨
      ∃ earlier ∈ placesFrom opt (stop - 1) place, earlier < p ∧ opt earlier = opt p)

/-- Behind a whole option its code has been seen. -/
theorem plain_from_next {seen : UInt8 → Prop} (below : place < stop - 1) (padding : opt place ≠ 0)
    (ends : opt place ≠ 255) (inside : place + 2 + (opt (place + 1)).toNat ≤ stop) :
    PlainFrom opt stop seen place ↔
      PlainFrom opt stop (fun code => seen code ∨ opt place = code)
        (place + 2 + (opt (place + 1)).toNat) := by
  unfold PlainFrom
  rw [places_from_inside below, List.forall_mem_cons]
  constructor
  · rintro ⟨-, rest⟩ p later
    obtain ⟨first, second, whole | before | ⟨earlier, among, less, same⟩⟩ := rest p later
    · exact ⟨first, second, .inl whole⟩
    · exact ⟨first, second, .inr (.inl (.inl before))⟩
    · rcases List.mem_cons.mp among with rfl | among
      · exact ⟨first, second, .inr (.inl (.inr same))⟩
      · exact ⟨first, second, .inr (.inr ⟨earlier, among, less, same⟩)⟩
  · intro rest
    refine ⟨⟨padding, ends, .inl inside⟩, fun p later => ?_⟩
    obtain ⟨first, second, whole | (before | same) | ⟨earlier, among, less, same⟩⟩ := rest p later
    · exact ⟨first, second, .inl whole⟩
    · exact ⟨first, second, .inr (.inl before)⟩
    · have behind := places_from_ge later
      exact ⟨first, second, .inr (.inr ⟨place, List.mem_cons_self, by omega, same⟩)⟩
    · exact ⟨first, second,
        .inr (.inr ⟨earlier, List.mem_cons_of_mem place among, less, same⟩)⟩

/-- One turn of the loop of `dhcp_get_opt_val` -/
theorem get_opt_val_loop_at (below : place < stop - 1) (key : UInt8) :
    getOptValLoop opt (stop - 1) key place =
      if opt place = key then some (place + 2)
      else getOptValLoop opt (stop - 1) key (place + 2 + (opt (place + 1)).toNat) := by
  have next : place + 1 + ((opt (place + 1)).toNat + 1) =
      place + 2 + (opt (place + 1)).toNat := by omega
  rw [getOptValLoop, if_pos below, next]

/-- The option at a place that is neither padding nor the end -/
theorem find_option_at (below : place < stop - 1) (padding : opt place ≠ 0)
    (ends : opt place ≠ 255) (key : UInt8) :
    findOption opt stop key place =
      if stop < place + 2 + (opt (place + 1)).toNat then none
      else if opt place = key then some (place + 2)
      else findOption opt stop key (place + 2 + (opt (place + 1)).toNat) := by
  rw [findOption, if_pos (by omega), if_neg padding, if_neg ends]

/-- Padding, or the end, at a place makes a difference for its own byte as a key. -/
theorem values_from_never {seen : UInt8 → Prop} (below : place < stop - 1)
    (never : opt place = 0 ∨ opt place = 255) (unseen : ¬seen (opt place)) :
    ¬∀ key, ¬seen key → getOptValLoop opt (stop - 1) key place = findOption opt stop key place := by
  intro agree
  have found := agree (opt place) unseen
  rw [get_opt_val_loop_at below, if_pos rfl, find_option_never never] at found
  cases found

/-- An option that is cut off is the last one, and makes a difference unless its code has been
seen. -/
theorem values_from_cut_off {seen : UInt8 → Prop} (below : place < stop - 1)
    (padding : opt place ≠ 0) (ends : opt place ≠ 255)
    (cutOff : stop < place + 2 + (opt (place + 1)).toNat) :
    (∀ key, ¬seen key → getOptValLoop opt (stop - 1) key place = findOption opt stop key place) ↔
      PlainFrom opt stop seen place := by
  have only : placesFrom opt (stop - 1) place = [place] := by
    rw [places_from_inside below, places_from_outside (by omega)]
  have loop : ∀ key, getOptValLoop opt (stop - 1) key place =
      if opt place = key then some (place + 2) else none := by
    intro key
    rw [get_opt_val_loop_at below, getOptValLoop.eq_def _ _ _ (place + 2 + _),
      if_neg (by omega : ¬place + 2 + (opt (place + 1)).toNat < stop - 1)]
  constructor
  · intro agree p among
    rw [only, List.mem_singleton] at among
    subst among
    refine ⟨padding, ends, .inr (.inl ?_)⟩
    by_contra unseen
    have same := agree (opt p) unseen
    rw [loop, find_option_at below padding ends, if_pos rfl, if_pos cutOff] at same
    cases same
  · intro plain key unseen
    rw [loop, find_option_at below padding ends, if_pos cutOff]
    have here : place ∈ placesFrom opt (stop - 1) place := by
      rw [only]
      exact List.mem_singleton.mpr rfl
    obtain ⟨-, -, whole | before | ⟨earlier, among, less, -⟩⟩ := plain place here
    · exact absurd whole (by omega)
    · rw [if_neg]
      rintro rfl
      exact unseen before
    · rw [only, List.mem_singleton] at among
      exact absurd less (by omega)

/-- Behind a whole option, the codes that have not been seen are those that differ from its own. -/
theorem values_from_whole {seen : UInt8 → Prop} (below : place < stop - 1)
    (padding : opt place ≠ 0) (ends : opt place ≠ 255)
    (whole : ¬stop < place + 2 + (opt (place + 1)).toNat) :
    (∀ key, ¬seen key → getOptValLoop opt (stop - 1) key place = findOption opt stop key place) ↔
      ∀ key, ¬(seen key ∨ opt place = key) →
        getOptValLoop opt (stop - 1) key (place + 2 + (opt (place + 1)).toNat) =
          findOption opt stop key (place + 2 + (opt (place + 1)).toNat) := by
  constructor
  · intro agree key unseen
    have same := agree key fun before => unseen (.inl before)
    rwa [get_opt_val_loop_at below, find_option_at below padding ends, if_neg whole,
      if_neg fun code => unseen (.inr code), if_neg fun code => unseen (.inr code)] at same
  · intro agree key unseen
    rw [get_opt_val_loop_at below, find_option_at below padding ends, if_neg whole]
    by_cases code : opt place = key
    · rw [if_pos code, if_pos code]
    · rw [if_neg code, if_neg code]
      exact agree key fun either => either.elim unseen code

/-- From a place on, the two ways to find a value agree about the codes that have not been seen. -/
theorem values_from_iff (opt : Nat → UInt8) (stop : Nat) (place : Nat) (seen : UInt8 → Prop)
    (zero : ¬seen 0) (last : ¬seen 255) :
    (∀ key, ¬seen key → getOptValLoop opt (stop - 1) key place = findOption opt stop key place) ↔
      PlainFrom opt stop seen place := by
  induction place using placesFrom.induct opt (stop - 1) generalizing seen with
  | case2 place below =>
      refine iff_of_true (fun key _ => ?_) fun p inside => ?_
      · rw [getOptValLoop, findOption, if_neg below, if_neg (by omega)]
      · rw [placesFrom, if_neg below] at inside
        cases inside
  | case1 place below induction =>
      have here : place ∈ placesFrom opt (stop - 1) place := by
        rw [places_from_inside below]
        exact List.mem_cons_self
      have next : place + 1 + ((opt (place + 1)).toNat + 1) =
          place + 2 + (opt (place + 1)).toNat := by omega
      rw [next] at induction
      by_cases padding : opt place = 0
      · exact iff_of_false (values_from_never below (.inl padding) (padding ▸ zero))
          fun plain => (plain place here).1 padding
      by_cases ends : opt place = 255
      · exact iff_of_false (values_from_never below (.inr ends) (ends ▸ last))
          fun plain => (plain place here).2.1 ends
      by_cases cutOff : stop < place + 2 + (opt (place + 1)).toNat
      · exact values_from_cut_off below padding ends cutOff
      · rw [plain_from_next below padding ends (Nat.not_lt.mp cutOff),
          values_from_whole below padding ends cutOff]
        exact induction (fun code => seen code ∨ opt place = code) (by simp [zero, padding])
          (by simp [last, ends])

/-- The whole of a message: nothing has been seen at its front. -/
theorem values_iff (msg : Dhcpmsg) (size : Int) :
    (∀ key, dhcpGetOptVal msg size key = findOption msg.dcOpt (stopOf size) key 0) ↔
      Plain msg.dcOpt size := by
  have eom : eomOf size = stopOf size - 1 := by simp only [eomOf, stopOf]; omega
  have whole := values_from_iff msg.dcOpt (stopOf size) 0 (fun _ => False) id id
  simp only [not_false_eq_true, true_implies, PlainFrom, false_or] at whole
  unfold Plain places dhcpGetOptVal
  rw [eom]
  exact whole

theorem value_inside {msg other : Dhcpmsg} {size : Int} {key : UInt8}
    (same : ∀ place < stopOf size, other.dcOpt place = msg.dcOpt place) :
    dhcpGetOptVal other size key = dhcpGetOptVal msg size key := by
  unfold dhcpGetOptVal
  by_cases empty : eomOf size = 0
  · rw [empty, getOptValLoop, getOptValLoop.eq_def msg.dcOpt, if_neg (by omega), if_neg (by omega)]
  · have eom : eomOf size + 1 = stopOf size := by
      simp only [eomOf, stopOf] at empty ⊢
      omega
    exact get_opt_val_loop_inside key fun p below => same p (by omega)

end Values

section Scan

variable {opt : Nat → UInt8}

/-- What a fold over places leaves of the last one with a code. -/
def lastNumber (opt : Nat → UInt8) (code : UInt8) (number : Nat → Nat) (walked : List Nat) : Nat :=
  match walked.reverse.find? (opt · == code) with
  | none => 0
  | some place => number (place + 2)

theorem last_number_concat (code : UInt8) (number : Nat → Nat) (walked : List Nat) (place : Nat) :
    lastNumber opt code number (walked ++ [place]) =
      if opt place = code then number (place + 2) else lastNumber opt code number walked := by
  unfold lastNumber
  rw [List.reverse_concat, List.find?_cons]
  by_cases found : opt place = code
  · simp [found]
  · have differs : (opt place == code) = false := by simpa using found
    simp [differs, found]

/-- The option loop takes each number from the last place with its code. -/
theorem scan_fold_eq (opt : Nat → UInt8) (walked : List Nat) :
    walked.foldl (fun found p => optionStep opt p found) ⟨0, 0, 0⟩ =
      ⟨lastNumber opt 53 (fun place => (opt place).toNat) walked,
        lastNumber opt 1 (long opt) walked, lastNumber opt 3 (long opt) walked⟩ := by
  induction walked using List.reverseRecOn with
  | nil => rfl
  | append_singleton walked place induction =>
      rw [List.foldl_concat, induction]
      simp only [last_number_concat, optionStep]
      by_cases type : opt place = 53
      · simp [type]
      · by_cases mask : opt place = 1
        · simp [mask]
        · by_cases router : opt place = 3
          · simp [router]
          · simp [type, mask, router]

theorem scan_eq (msg : Dhcpmsg) (size : Int) :
    scanOptions msg size =
      ⟨lastNumber msg.dcOpt 53 (fun place => (msg.dcOpt place).toNat) (places msg.dcOpt size),
        lastNumber msg.dcOpt 1 (long msg.dcOpt) (places msg.dcOpt size),
        lastNumber msg.dcOpt 3 (long msg.dcOpt) (places msg.dcOpt size)⟩ :=
  (option_loop_eq msg.dcOpt (eomOf size) 0 ⟨0, 0, 0⟩).trans
    (scan_fold_eq msg.dcOpt (places msg.dcOpt size))

/-- Where the values are right, a number is right when repeating its option changes nothing. -/
theorem number_iff {msg : Dhcpmsg} {size : Int} {code : UInt8} {least : Nat} {number : Nat → Nat}
    (value : dhcpGetOptVal msg size code = findOption msg.dcOpt (stopOf size) code 0) :
    lastNumber msg.dcOpt code number (places msg.dcOpt size) =
        optionNumber msg.dcOpt (stopOf size) code least number ↔
      Repeats msg.dcOpt size code least number := by
  have first : findOption msg.dcOpt (stopOf size) code 0 =
      ((places msg.dcOpt size).find? (msg.dcOpt · == code)).map (· + 2) :=
    value.symm.trans (get_opt_val_loop_eq msg.dcOpt (eomOf size) code 0)
  unfold lastNumber optionNumber Repeats
  rw [first]
  cases found : (places msg.dcOpt size).find? (msg.dcOpt · == code) with
  | none =>
      have missing : (places msg.dcOpt size).reverse.find? (msg.dcOpt · == code) = none := by
        rw [List.find?_eq_none] at found ⊢
        exact fun p inside => found p (List.mem_reverse.mp inside)
      simp [missing]
  | some place =>
      cases last : (places msg.dcOpt size).reverse.find? (msg.dcOpt · == code) with
      | none =>
          have missing := List.find?_eq_none.mp last place
            (List.mem_reverse.mpr (List.mem_of_find?_eq_some found))
          exact absurd (List.find?_some found) missing
      | some lastPlace => simp

theorem right_iff (msg : Dhcpmsg) (size : Int) :
    Right msg size ↔ Plain msg.dcOpt size ∧ Unambiguous msg.dcOpt size := by
  have scans : (∀ key, dhcpGetOptVal msg size key = findOption msg.dcOpt (stopOf size) key 0) →
      (scanOptions msg size = findScan msg.dcOpt (stopOf size) ↔
        Unambiguous msg.dcOpt size) := by
    intro value
    rw [scan_eq, findScan, Found.mk.injEq, number_iff (value 53), number_iff (value 1),
      number_iff (value 3)]
    exact ⟨fun same => ⟨same.1, same.2.1, same.2.2⟩,
      fun same => ⟨same.type, same.mask, same.router⟩⟩
  constructor
  · intro right
    exact ⟨(values_iff msg size).mp right.value, (scans right.value).mp right.scan⟩
  · rintro ⟨plain, unambiguous⟩
    have value := (values_iff msg size).mpr plain
    exact ⟨value, fun _ _ => value_inside, (scans value).mpr unambiguous⟩

end Scan

section Builders

/-- Behind the first option of a message that was built comes padding, and the byte behind that is
the code of the second: a parser takes it for a length that leads out of the message. -/
theorem built_value {opt : Nat → UInt8} {eom : Nat} (type : opt 0 = 53) (length : opt 1 = 1)
    (padding : opt 3 = 0) (second : eom ≤ 4 + ((opt 4).toNat + 1)) (room : 3 < eom) (key : UInt8) :
    getOptValLoop opt eom key 0 =
      if key = 53 then some 2 else if key = 0 then some 5 else none := by
  have next : ¬3 + 1 + ((opt (3 + 1)).toNat + 1) < eom := Nat.not_lt.mpr second
  have one : (1 : UInt8).toNat = 1 := rfl
  rw [getOptValLoop, if_pos (by omega), type, length, one, getOptValLoop, if_pos room, padding,
    getOptValLoop, if_neg next]
  simp only [eq_comm]

theorem built_scan {opt : Nat → UInt8} {eom : Nat} (type : opt 0 = 53) (length : opt 1 = 1)
    (padding : opt 3 = 0) (second : eom ≤ 4 + ((opt 4).toNat + 1)) (room : 3 < eom) :
    (optionLoop opt eom 0 ⟨0, 0, 0⟩).msgtype = (opt 2).toNat := by
  have next : ¬3 + 1 + ((opt (3 + 1)).toNat + 1) < eom := Nat.not_lt.mpr second
  have one : (1 : UInt8).toNat = 1 := rfl
  rw [optionLoop, if_pos (by omega), length, one, optionLoop, if_pos room, optionLoop, if_neg next]
  simp [optionStep, type, padding]

/-- A message that begins like that is searched for one of the options that it was built with. -/
theorem built_finds_iff {msg : Dhcpmsg} {size : Int} (type : msg.dcOpt 0 = 53)
    (length : msg.dcOpt 1 = 1) (padding : msg.dcOpt 3 = 0)
    (second : eomOf size ≤ 4 + ((msg.dcOpt 4).toNat + 1)) (room : 3 < eomOf size) {code : UInt8}
    {value : List UInt8} (real : code ≠ 0) (written : code = 53 → value = [msg.dcOpt 2]) :
    Finds msg size code value ↔ code = 53 := by
  have found := built_value type length padding second room
  constructor
  · intro finds
    obtain ⟨place, here, -⟩ := finds.found
    by_contra other
    have missing := found code
    rw [if_neg other, if_neg real] at missing
    cases missing.symm.trans here
  · rintro rfl
    rw [written rfl]
    refine ⟨⟨2, found 53, rfl⟩, fun _ => ?_⟩
    exact congrArg (fun n => [n]) (built_scan type length padding second room).symm

/-- The list of parameters that a discover message asks for is not found in it. -/
theorem disc_finds_iff (net : NetData) {option : UInt8 × List UInt8}
    (among : option ∈ discOptions) :
    Finds (dhcpBldDisc net).1 (dhcpBldDisc net).2 option.1 option.2 ↔ option.1 = 53 := by
  have second : eomOf 249 ≤ 4 + ((55 : UInt8).toNat + 1) := by decide
  have room : 3 < eomOf 249 := by decide
  show Finds (dhcpBldDisc net).1 249 option.1 option.2 ↔ option.1 = 53
  refine @built_finds_iff (dhcpBldDisc net).1 249 rfl rfl rfl second room option.1 option.2 ?_ ?_
  · revert option
    decide
  · simp only [discOptions, List.mem_cons, List.not_mem_nil, or_false] at among
    rcases among with rfl | rfl
    · exact fun _ => rfl
    · exact fun code => absurd code (by decide)

/-- Neither are the address and the server of a request. -/
theorem req_finds_iff {net : NetData} {offer : Dhcpmsg} {size : Int} {serverIp : Nat}
    {request : Dhcpmsg × Int} (server : dhcpGetOptVal offer size dhcpServerId = some serverIp)
    (built : dhcpBldReq net offer size = some request) {option : UInt8 × List UInt8}
    (among : option ∈ reqOptions offer serverIp) :
    Finds request.1 request.2 option.1 option.2 ↔ option.1 = 53 := by
  have second : eomOf 257 ≤ 4 + ((50 : UInt8).toNat + 1) := by decide
  have room : 3 < eomOf 257 := by decide
  rw [dhcpBldReq, server, Option.some.injEq] at built
  subst built
  refine @built_finds_iff _ (257 : Int) rfl rfl rfl second room option.1 option.2 ?_ ?_
  · simp only [reqOptions, List.mem_cons, List.not_mem_nil, or_false] at among
    rcases among with rfl | rfl | rfl
    · decide
    · exact (by decide : (50 : UInt8) ≠ 0)
    · exact (by decide : (54 : UInt8) ≠ 0)
  · simp only [reqOptions, List.mem_cons, List.not_mem_nil, or_false] at among
    rcases among with rfl | rfl | rfl
    · exact fun _ => rfl
    · exact fun code => absurd code (by decide : (50 : UInt8) ≠ 53)
    · exact fun code => absurd code (by decide : (54 : UInt8) ≠ 53)

/-- The parsers find the options of a message that is plain and unambiguous, and of a message that
the builders have written they find the type only. -/
theorem options_parsed_iff (msg : Dhcpmsg) (size : Int) (net : NetData) (offer : Dhcpmsg)
    (offerSize : Int) :
    (Right msg size ↔ Plain msg.dcOpt size ∧ Unambiguous msg.dcOpt size) ∧
      (∀ option ∈ discOptions,
        Finds (dhcpBldDisc net).1 (dhcpBldDisc net).2 option.1 option.2 ↔ option.1 = 53) ∧
      ∀ serverIp ∈ dhcpGetOptVal offer offerSize dhcpServerId,
        ∀ request ∈ dhcpBldReq net offer offerSize, ∀ option ∈ reqOptions offer serverIp,
          Finds request.1 request.2 option.1 option.2 ↔ option.1 = 53 :=
  ⟨right_iff msg size, fun _ among => disc_finds_iff net among,
    fun _ server _ built _ among => req_finds_iff server built among⟩

/-- A discover message is parsed wrongly, and its list of parameters is not found in it. -/
theorem discover_is_not_parsed :
    ¬Right (dhcpBldDisc noAddresses).1 249 ∧
      ¬Finds (dhcpBldDisc noAddresses).1 (dhcpBldDisc noAddresses).2 55 [1, 3] := by
  have stop : stopOf 249 = 9 := by decide
  constructor
  · intro right
    have looked : dhcpGetOptVal (dhcpBldDisc noAddresses).1 249 55 = none :=
      @built_value (dhcpBldDisc noAddresses).1.dcOpt (eomOf 249) rfl rfl rfl (by decide : 8 ≤ 60)
        (by decide) 55
    have listed : findOption (dhcpBldDisc noAddresses).1.dcOpt (stopOf 249) 55 0 = some 6 := by
      rw [stop]
      simp [findOption, dhcpBldDisc, withOptions]
    rw [← right.value 55, looked] at listed
    cases listed
  · intro finds
    have among : ((55 : UInt8), [1, 3]) ∈ discOptions := by decide
    cases (disc_finds_iff noAddresses among).mp finds

end Builders

end Xinu.Net.DhcpOptions
