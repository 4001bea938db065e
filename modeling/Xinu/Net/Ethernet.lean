import Xinu.Lib.Interleaving
import Xinu.Lib.Ring
import Xinu.Lib.Semaphores

/-!
# The receive ring of the Ethernet device

The device completes the descriptors of a ring one after the other, at any time. The interrupt
handler looks at one descriptor after the other and then signals the semaphore, and no process runs
meanwhile. A process in `ethread` may be interrupted between looking at a frame and giving its
descriptor back to the device.
-/

namespace Xinu.Net.Ethernet

open Xinu.Lib.Interleaving Xinu.Lib.Ring Xinu.Lib.Semaphores

set_option autoImplicit false

section Definitions

def ethQuarkRxRingSize : Nat := 32

/-- The field of the control block, as `ethinit` sets it -/
def rxRingSize : Nat := ethQuarkRxRingSize

/-- A frame in a buffer, with the length that the device writes to the status word. -/
structure Frame where
  netEthdst : Nat
  framelen : Nat
  data : List Nat
  deriving DecidableEq

/-- A descriptor: the bit for its owner, the bit for the end of the ring, and its buffer. -/
structure RxDesc where
  own : Bool
  rer : Bool
  frame : Frame
  deriving DecidableEq

/-- A process in the loop of `ethread`, behind its `wait`: the descriptor and the frame that it has
looked at. -/
structure Body where
  pid : Int
  rdescptr : Nat
  frame : Frame
  deriving DecidableEq

/-- The device and its control block. `dma` is where the device goes on, `ri` its receive interrupt,
and `scan` the `count` of a handler that is running. `len` is what the calls of `ethread` have been
given and `returned` what they have copied. The last two fields are all frames that have been
received and all that `ethread` has looked at. -/
structure Ethcblk where
  rxRing : Nat → RxDesc
  rxHead : Nat
  rxTail : Nat
  isem : Semaphore Int
  devAddress : Nat
  ethbcast : Nat
  edMcc : Nat
  edMca : Nat → Nat
  dma : Nat
  ri : Bool
  scan : Option Nat
  len : Int → Int
  bodies : List Body
  returned : List (Int × List Nat)
  received : List Frame
  examined : List Frame

def setDesc (m : Ethcblk) (i : Nat) (change : RxDesc → RxDesc) : Nat → RxDesc :=
  Function.update m.rxRing i (change (m.rxRing i))

/-- A frame comes in. The device drops it when the descriptor is not its own. -/
def completes (m : Ethcblk) (frame : Frame) : Option Ethcblk :=
  if (m.rxRing m.dma).own = true then
    some { m with
      rxRing := setDesc m m.dma fun d => { d with own := false, frame := frame }
      dma := if (m.rxRing m.dma).rer = true then 0 else m.dma + 1
      ri := true
      received := m.received ++ [frame] }
  else none

/-- `ethhandler` acknowledges a receive interrupt. -/
def ethhandler (m : Ethcblk) : Option Ethcblk :=
  if m.scan = none ∧ m.ri = true then some { m with ri := false, scan := some 0 } else none

/-- The loop of `ethhandler` goes on. -/
def GoesOn (m : Ethcblk) (count : Nat) : Prop :=
  count ≤ rxRingSize ∧ (m.rxRing m.rxTail).own = false

instance (m : Ethcblk) (count : Nat) : Decidable (GoesOn m count) :=
  inferInstanceAs (Decidable (_ ∧ _))

/-- One turn of the loop, or what is behind it -/
def scans (m : Ethcblk) (count : Nat) : Ethcblk :=
  if GoesOn m count then
    { m with
      rxTail := if rxRingSize ≤ m.rxTail + 1 then 0 else m.rxTail + 1
      scan := some (count + 1) }
  else { m with isem := m.isem.signaln count, scan := none }

/-- `valid_addr` for a destination -/
def validAddr (m : Ethcblk) (netEthdst : Nat) : Bool :=
  decide (netEthdst = m.devAddress) || decide (netEthdst = m.ethbcast) ||
    (List.range m.edMcc).any fun i => decide (netEthdst = m.edMca i)

/-- What `ethread` copies to a buffer of `len` bytes. The two are compared as unsigned numbers. -/
def copied (len : Int) (frame : Frame) : List Nat :=
  let framelen := frame.framelen % 2 ^ 14
  let size := (len % 4294967296).toNat
  frame.data.take (if size < framelen then size else framelen)

/-- `ethread` comes to its `wait`. -/
def ethread (m : Ethcblk) (pid len : Int) : Ethcblk :=
  { m with isem := m.isem.wait pid, len := Function.update m.len pid len }

/-- A process behind its `wait` looks at the frame at the head. -/
def examines (m : Ethcblk) (pid : Int) : Ethcblk :=
  let frame := (m.rxRing m.rxHead).frame
  { m with
    isem := m.isem.run pid
    bodies := m.bodies ++ [⟨pid, m.rxHead, frame⟩]
    returned := if validAddr m frame.netEthdst = true then
        m.returned ++ [(pid, copied (m.len pid) frame)]
      else m.returned
    examined := m.examined ++ [frame] }

/-- It gives the descriptor back, and returns or waits again. -/
def rearms (m : Ethcblk) (b : Body) : Ethcblk :=
  let rxHead := if ethQuarkRxRingSize ≤ m.rxHead + 1 then 0 else m.rxHead + 1
  { m with
    rxRing := setDesc m b.rdescptr fun d => { d with own := true, rer := decide (rxHead = 0) }
    rxHead := rxHead
    isem := if validAddr m b.frame.netEthdst = true then m.isem else m.isem.wait b.pid
    bodies := m.bodies.erase b }

inductive Event where
  | completes (frame : Frame)
  | interrupt
  | scans
  | ethread (pid len : Int)
  | examines (pid : Int)
  | rearms (b : Body)

/-- Processes run while the handler does not. -/
def act (m : Ethcblk) : Event → Option Ethcblk
  | .completes frame => completes m frame
  | .interrupt => ethhandler m
  | .scans => m.scan.map (scans m)
  | .ethread pid len => if m.scan = none then some (ethread m pid len) else none
  | .examines pid => if m.scan = none ∧ pid ∈ m.isem.passed then some (examines m pid) else none
  | .rearms b => if m.scan = none ∧ b ∈ m.bodies then some (rearms m b) else none

/-- The ring behind `ethinit` -/
structure Started (m : Ethcblk) : Prop where
  own : ∀ i < rxRingSize, (m.rxRing i).own = true
  rer : ∀ i < rxRingSize, ((m.rxRing i).rer = true ↔ i + 1 = rxRingSize)
  rxHead : m.rxHead = 0
  rxTail : m.rxTail = 0
  isem : m.isem = ⟨0, [], []⟩
  dma : m.dma = 0
  scan : m.scan = none
  bodies : m.bodies = []
  received : m.received = []
  examined : m.examined = []

/-- What `isem` has to offer: a negative count stands for waiting processes. -/
def avail (m : Ethcblk) : Nat := m.isem.count.toNat

/-- The readers that have been released and have not moved the head -/
def released (m : Ethcblk) : Nat := m.isem.passed.length + m.bodies.length

/-- The frames that have been counted and whose descriptors have not been given back -/
def unread (m : Ethcblk) : Nat := avail m + released m + m.scan.getD 0

/-- The handler looks at a descriptor while not all of them are unread, and a reader looks at a
frame while no other one is between that and giving its descriptor back. -/
def Careful (m : Ethcblk) : Event → Prop
  | .scans => ∀ count ∈ m.scan, GoesOn m count → unread m < rxRingSize
  | .examines _ => m.bodies = []
  | _ => True

instance (m : Ethcblk) : (event : Event) → Decidable (Careful m event)
  | .scans => inferInstanceAs (Decidable (∀ count ∈ m.scan, GoesOn m count → _))
  | .examines _ => inferInstanceAs (Decidable (_ = _))
  | .completes _ => .isTrue trivial
  | .interrupt => .isTrue trivial
  | .ethread _ _ => .isTrue trivial
  | .rearms _ => .isTrue trivial

/-- Frames are counted and read once. -/
structure CountedOnce (m : Ethcblk) : Prop where
  /-- Outside of the handler the semaphore and the released readers have what is in the ring. -/
  counted : m.scan = none → avail m + released m ≤ rxRingSize ∧
    m.rxTail = (m.rxHead + (avail m + released m)) % rxRingSize ∧
    ∀ k < avail m + released m, (m.rxRing ((m.rxHead + k) % rxRingSize)).own = false
  order : m.examined <+: m.received
  reads : m.isem.passed ≠ [] → (m.rxRing m.rxHead).own = false
  rearms : ∀ b ∈ m.bodies, (m.rxRing b.rdescptr).own = false

end Definitions

section Ring

variable {m m' : Ethcblk} {left : List Frame} {n i : Nat}

/-- `n` frames lie behind the head, `left` are those whose descriptors were given back, and the
descriptors of the device are all others. -/
structure Inv (m : Ethcblk) (left : List Frame) (n : Nat) : Prop where
  fifo : Fifo rxRingSize (fun i => (m.rxRing i).frame) m.rxHead m.dma n m.received left
  tail : m.rxTail = (m.rxHead + unread m) % rxRingSize
  unread_le : unread m ≤ n
  own : ∀ i < rxRingSize, (m.rxRing i).own = false ↔ ∃ k < n, i = (m.rxHead + k) % rxRingSize
  rer : ∀ i < rxRingSize, (m.rxRing i).rer = true ↔ i + 1 = rxRingSize
  sound : m.isem.Sound
  examined : m.bodies = [] ∧ m.examined = left ∨ ∃ b, m.bodies = [b] ∧ b.rdescptr = m.rxHead ∧
    m.examined = left ++ [(m.rxRing m.rxHead).frame]

theorem unread_level (sound : m.isem.Sound) :
    (unread m : Int) = m.isem.level + m.bodies.length + m.scan.getD 0 := by
  unfold Semaphore.Sound at sound
  unfold unread avail released Semaphore.level
  omega

theorem unread_same (sound : m.isem.Sound) (sound' : m'.isem.Sound)
    (level : m'.isem.level + m'.bodies.length + (m'.scan.getD 0 : Nat) =
      m.isem.level + m.bodies.length + (m.scan.getD 0 : Nat)) : unread m' = unread m := by
  have before := unread_level sound
  have behind := unread_level sound'
  omega

theorem ring_positive : 0 < rxRingSize := by decide

theorem Inv.head_own (inv : Inv m left n) (positive : 0 < n) : (m.rxRing m.rxHead).own = false :=
  (inv.own _ inv.fifo.inside).mpr ⟨0, positive, (Nat.mod_eq_of_lt inv.fifo.inside).symm⟩

/-- Places of the ring that are the same have the same distance from the head. -/
theorem distance_unique {head j k : Nat} (below : j < rxRingSize) (below' : k < rxRingSize)
    (same : (head + j) % rxRingSize = (head + k) % rxRingSize) : j = k := by
  rcases Nat.lt_trichotomy j k with less | equal | more
  · exact absurd same (places_differ less (by omega))
  · exact equal
  · exact absurd same.symm (places_differ more (by omega))

/-- A descriptor that the device owns is not one of the frames. -/
theorem Inv.room (inv : Inv m left n) (owned : (m.rxRing m.dma).own = true) : n < rxRingSize := by
  by_contra full
  have all : n = rxRingSize := Nat.le_antisymm inv.fifo.bounded (by omega)
  have here : m.dma = m.rxHead := by
    rw [inv.fifo.last, all, Nat.add_mod_right, Nat.mod_eq_of_lt inv.fifo.inside]
  rw [here, inv.head_own (all ▸ ring_positive)] at owned
  cases owned

theorem frames_set (change : RxDesc → RxDesc) :
    (fun j => (setDesc m i change j).frame) =
      Function.update (fun j => (m.rxRing j).frame) i (change (m.rxRing i)).frame := by
  funext j
  unfold setDesc
  by_cases same : j = i
  · rw [same, Function.update_self, Function.update_self]
  · rw [Function.update_of_ne same, Function.update_of_ne same]

theorem frames_kept {change : RxDesc → RxDesc}
    (keeps : (change (m.rxRing i)).frame = (m.rxRing i).frame) :
    (fun j => (setDesc m i change j).frame) = fun j => (m.rxRing j).frame := by
  rw [frames_set, keeps]
  exact Function.update_eq_self i _

theorem completes_inv {frame : Frame} (inv : Inv m left n)
    (did : completes m frame = some m') : Inv m' left (n + 1) := by
  have owned : (m.rxRing m.dma).own = true := by
    by_contra other
    rw [completes, if_neg other] at did
    cases did
  rw [completes, if_pos owned] at did
  obtain rfl := Option.some.inj did
  have room := inv.room owned
  have next : (if (m.rxRing m.dma).rer = true then 0 else m.dma + 1) =
      advance rxRingSize m.dma := by
    unfold advance
    have inside := inv.fifo.tail_lt
    by_cases last : m.dma + 1 = rxRingSize
    · rw [if_pos ((inv.rer _ inside).mpr last), if_pos (Nat.le_of_eq last.symm)]
    · rw [if_neg fun isLast => last ((inv.rer _ inside).mp isLast), if_neg (by omega)]
  refine ⟨?_, inv.tail, Nat.le_succ_of_le inv.unread_le, fun i below => ?_, fun i below => ?_,
    inv.sound, ?_⟩
  · dsimp only
    rw [next, frames_set]
    exact inv.fifo.push room frame
  · dsimp only [setDesc]
    by_cases same : i = m.dma
    · rw [same, Function.update_self]
      exact iff_of_true rfl ⟨n, Nat.lt_succ_self n, inv.fifo.last⟩
    · rw [Function.update_of_ne same, inv.own i below]
      constructor
      · rintro ⟨k, less, place⟩
        exact ⟨k, Nat.lt_succ_of_lt less, place⟩
      · rintro ⟨k, less, place⟩
        refine ⟨k, Nat.lt_of_le_of_ne (Nat.le_of_lt_succ less) fun last => same ?_, place⟩
        rw [place, last, ← inv.fifo.last]
  · dsimp only [setDesc]
    by_cases same : i = m.dma
    · rw [same, Function.update_self]
      exact inv.rer _ inv.fifo.tail_lt
    · rw [Function.update_of_ne same]
      exact inv.rer i below
  · rcases inv.examined with nobody | ⟨b, reader, place, examined⟩
    · exact .inl nobody
    · refine .inr ⟨b, reader, place, ?_⟩
      have some_unread : 0 < unread m := by
        unfold unread released
        rw [reader, List.length_singleton]
        omega
      have other : m.rxHead ≠ m.dma := by
        intro same
        rw [← same, inv.head_own (Nat.lt_of_lt_of_le some_unread inv.unread_le)] at owned
        cases owned
      dsimp only [setDesc]
      rw [Function.update_of_ne other]
      exact examined

/-- Steps that leave the descriptors alone. -/
theorem inv_kept (inv : Inv m left n) (rxRing : m'.rxRing = m.rxRing) (rxHead : m'.rxHead = m.rxHead)
    (dma : m'.dma = m.dma) (received : m'.received = m.received)
    (tail : m'.rxTail = (m.rxHead + unread m') % rxRingSize) (most : unread m' ≤ n)
    (sound : m'.isem.Sound) (bodies : m'.bodies = m.bodies) (examined : m'.examined = m.examined) :
    Inv m' left n := by
  obtain ⟨fifo, _, _, own, rer, _, same⟩ := inv
  refine ⟨?_, ?_, most, ?_, ?_, sound, ?_⟩
  · rw [rxRing, rxHead, dma, received]
    exact fifo
  · rw [rxHead]
    exact tail
  · rw [rxRing, rxHead]
    exact own
  · rw [rxRing]
    exact rer
  · rw [bodies, examined, rxRing, rxHead]
    exact same

theorem ethhandler_inv (inv : Inv m left n) (did : ethhandler m = some m') : Inv m' left n := by
  have begins : m.scan = none ∧ m.ri = true := by
    by_contra other
    rw [ethhandler, if_neg other] at did
    cases did
  rw [ethhandler, if_pos begins] at did
  obtain rfl := Option.some.inj did
  have same : m.scan.getD 0 = 0 := by rw [begins.1]; rfl
  have tail := inv.tail
  have most := inv.unread_le
  unfold unread at tail most
  rw [same] at tail most
  exact inv_kept inv rfl rfl rfl rfl tail most inv.sound rfl rfl

/-- The handler counts a frame: the descriptor behind the unread ones is not the device's. -/
theorem counts_inv {count : Nat} (inv : Inv m left n) (scanning : m.scan = some count)
    (goesOn : GoesOn m count) (below : unread m < rxRingSize) : Inv (scans m count) left n := by
  have inside : m.rxTail < rxRingSize := by
    rw [inv.tail]
    exact Nat.mod_lt _ ring_positive
  obtain ⟨k, less, place⟩ := (inv.own _ inside).mp goesOn.2
  rw [inv.tail] at place
  have here : unread m = k :=
    distance_unique below (Nat.lt_of_lt_of_le less inv.fifo.bounded) place
  have more : unread { m with
      rxTail := if rxRingSize ≤ m.rxTail + 1 then 0 else m.rxTail + 1
      scan := some (count + 1) } = unread m + 1 := by
    unfold unread
    rw [scanning]
    rfl
  unfold scans
  rw [if_pos goesOn]
  refine inv_kept inv rfl rfl rfl rfl ?_ ?_ inv.sound rfl rfl
  · change advance rxRingSize m.rxTail = _
    rw [more, advance_mod inside, inv.tail, Nat.mod_add_mod, Nat.add_assoc]
  · rw [more]
    omega

/-- What the handler has counted goes to the semaphore. -/
theorem signals_inv {count : Nat} (inv : Inv m left n) (scanning : m.scan = some count)
    (stops : ¬GoesOn m count) : Inv (scans m count) left n := by
  have sound := Semaphore.signaln_sound inv.sound count
  have same : unread { m with isem := m.isem.signaln count, scan := none } = unread m := by
    refine unread_same inv.sound sound ?_
    dsimp only
    rw [Semaphore.signaln_level inv.sound, scanning, Option.getD_some, Option.getD_none]
    omega
  unfold scans
  rw [if_neg stops]
  refine inv_kept inv rfl rfl rfl rfl ?_ ?_ sound rfl rfl
  · rw [same]
    exact inv.tail
  · rw [same]
    exact inv.unread_le

theorem ethread_inv (inv : Inv m left n) (pid len : Int) : Inv (ethread m pid len) left n := by
  have sound := Semaphore.wait_sound pid inv.sound
  have same : unread (ethread m pid len) = unread m := by
    refine unread_same inv.sound sound ?_
    dsimp only [ethread]
    rw [Semaphore.wait_level]
  refine inv_kept inv rfl rfl rfl rfl ?_ ?_ sound rfl rfl
  · rw [same]
    exact inv.tail
  · rw [same]
    exact inv.unread_le

theorem examines_inv {pid : Int} (inv : Inv m left n) (passed : pid ∈ m.isem.passed)
    (alone : m.bodies = []) : Inv (examines m pid) left n := by
  have sound : (m.isem.run pid).Sound := inv.sound
  have same : unread (examines m pid) = unread m := by
    refine unread_same inv.sound sound ?_
    dsimp only [examines]
    rw [Semaphore.run_level pid passed, List.length_append, List.length_singleton]
    omega
  have examined : m.examined = left := by
    rcases inv.examined with nobody | ⟨b, reader, _⟩
    · exact nobody.2
    · rw [alone] at reader
      cases reader
  refine ⟨inv.fifo, ?_, ?_, inv.own, inv.rer, sound,
    .inr ⟨⟨pid, m.rxHead, (m.rxRing m.rxHead).frame⟩, ?_, rfl, ?_⟩⟩
  · rw [same]
    exact inv.tail
  · rw [same]
    exact inv.unread_le
  · change m.bodies ++ _ = _
    rw [alone]
    rfl
  · change m.examined ++ _ = _
    rw [examined]
    rfl

theorem rearms_unread {b : Body} (inv : Inv m left n) (reader : m.bodies = [b]) :
    (rearms m b).isem.Sound ∧ unread m = unread (rearms m b) + 1 := by
  have sound : (rearms m b).isem.Sound := by
    dsimp only [rearms]
    split_ifs
    · exact inv.sound
    · exact Semaphore.wait_sound _ inv.sound
  have level : (rearms m b).isem.level = m.isem.level := by
    dsimp only [rearms]
    split_ifs
    · rfl
    · exact Semaphore.wait_level _
  have before := unread_level inv.sound
  have behind := unread_level sound
  have nobody : (rearms m b).bodies = [] := by
    dsimp only [rearms]
    rw [reader, List.erase_cons_head]
  rw [reader, List.length_singleton] at before
  rw [level, nobody, List.length_nil] at behind
  refine ⟨sound, ?_⟩
  change (unread (rearms m b) : Int) = _ + _ + (m.scan.getD 0 : Nat) at behind
  omega

/-- The descriptors that are not the device's, behind the one that is given back -/
theorem own_behind (inv : Inv m left (n + 1)) (below : i < rxRingSize) :
    i ≠ m.rxHead ∧ (m.rxRing i).own = false ↔
      ∃ k < n, i = (advance rxRingSize m.rxHead + k) % rxRingSize := by
  have inside := inv.fifo.inside
  rw [inv.own i below]
  have shift : ∀ k, (advance rxRingSize m.rxHead + k) % rxRingSize =
      (m.rxHead + (k + 1)) % rxRingSize := fun k => by
    rw [advance_mod inside, Nat.mod_add_mod, Nat.add_assoc, Nat.add_comm 1]
  constructor
  · rintro ⟨other, k, less, place⟩
    cases k with
    | zero =>
        rw [Nat.add_zero, Nat.mod_eq_of_lt inside] at place
        exact absurd place other
    | succ k => exact ⟨k, by omega, place.trans (shift k).symm⟩
  · rintro ⟨k, less, place⟩
    rw [shift] at place
    refine ⟨fun same => ?_, k + 1, by omega, place⟩
    have here : (m.rxHead + 0) % rxRingSize = (m.rxHead + (k + 1)) % rxRingSize := by
      rw [Nat.add_zero, Nat.mod_eq_of_lt inside, ← place, same]
    have bounded := inv.fifo.bounded
    have zero := distance_unique (by omega) (by omega) here
    cases zero

theorem rearms_inv {b : Body} (inv : Inv m left n) (member : b ∈ m.bodies) :
    ∃ left' n', Inv (rearms m b) left' n' := by
  obtain ⟨reader, place, examined⟩ : m.bodies = [b] ∧ b.rdescptr = m.rxHead ∧
      m.examined = left ++ [(m.rxRing m.rxHead).frame] := by
    rcases inv.examined with ⟨nobody, _⟩ | ⟨b', reader, place, examined⟩
    · rw [nobody] at member
      cases member
    · rw [reader] at member
      obtain rfl := List.mem_singleton.mp member
      exact ⟨reader, place, examined⟩
  obtain ⟨sound, fewer⟩ := rearms_unread inv reader
  have most := inv.unread_le
  obtain ⟨n, rfl⟩ : ∃ rest, n = rest + 1 := ⟨n - 1, by omega⟩
  have inside := inv.fifo.inside
  have ring : (rearms m b).rxRing = setDesc m m.rxHead fun d =>
      { d with own := true, rer := decide (advance rxRingSize m.rxHead = 0) } := by
    dsimp only [rearms]
    rw [place]
    rfl
  have head : (rearms m b).rxHead = advance rxRingSize m.rxHead := rfl
  refine ⟨left ++ [(m.rxRing m.rxHead).frame], n, ?_, ?_, by omega, fun i below => ?_,
    fun i below => ?_, sound, .inl ⟨?_, examined⟩⟩
  · rw [ring, frames_kept rfl, head]
    exact inv.fifo.pop
  · rw [head, advance_mod inside, Nat.mod_add_mod, Nat.add_assoc, Nat.add_comm 1, ← fewer]
    exact inv.tail
  · rw [ring, head, ← own_behind inv below]
    unfold setDesc
    by_cases same : i = m.rxHead
    · rw [same, Function.update_self]
      exact iff_of_false (fun owned => by cases owned) fun other => other.1 rfl
    · rw [Function.update_of_ne same]
      exact ⟨fun free => ⟨same, free⟩, fun both => both.2⟩
  · rw [ring]
    unfold setDesc
    by_cases same : i = m.rxHead
    · rw [same, Function.update_self, decide_eq_true_iff]
      unfold advance
      split_ifs with last
      · omega
      · exact iff_of_false id (by omega)
    · rw [Function.update_of_ne same]
      exact inv.rer i below
  · dsimp only [rearms]
    rw [reader, List.erase_cons_head]

end Ring

section Results

variable {m m' : Ethcblk}

theorem inv_counted {left : List Frame} {n : Nat} (inv : Inv m left n) : CountedOnce m := by
  have unowned : ∀ k < n, (m.rxRing ((m.rxHead + k) % rxRingSize)).own = false := fun k less =>
    (inv.own _ (Nat.mod_lt _ ring_positive)).mpr ⟨k, less, rfl⟩
  have most := inv.unread_le
  have bounded := inv.fifo.bounded
  refine ⟨fun idle => ?_, ?_, fun passed => ?_, fun b member => ?_⟩
  · have all : unread m = avail m + released m := by
      unfold unread
      rw [idle, Option.getD_none, Nat.add_zero]
    rw [← all]
    exact ⟨by omega, inv.tail, fun k less => unowned k (by omega)⟩
  · have order := inv.fifo.order
    rcases inv.examined with ⟨_, examined⟩ | ⟨b, reader, _, examined⟩
    · rw [examined, order]
      exact List.prefix_append _ _
    · have positive : 0 < unread m := by
        unfold unread released
        rw [reader, List.length_singleton]
        omega
      obtain ⟨rest, rfl⟩ : ∃ rest, n = rest + 1 := ⟨n - 1, by omega⟩
      rw [examined, inv.fifo.pop.order]
      exact List.prefix_append _ _
  · have some_passed := List.length_pos_of_ne_nil passed
    refine inv.head_own ?_
    unfold unread released at most
    omega
  · rcases inv.examined with ⟨nobody, _⟩ | ⟨b', reader, place, _⟩
    · rw [nobody] at member
      cases member
    · rw [reader] at member
      obtain rfl := List.mem_singleton.mp member
      rw [place]
      refine inv.head_own ?_
      unfold unread released at most
      rw [reader, List.length_singleton] at most
      omega

theorem started_inv (started : Started m) : Inv m [] 0 := by
  obtain ⟨own, rer, rxHead, rxTail, isem, dma, scan, bodies, received, examined⟩ := started
  have nothing : unread m = 0 := by
    unfold unread avail released
    rw [isem, bodies, scan]
    rfl
  refine ⟨?_, ?_, by omega, fun i below => ?_, rer, ?_, .inl ⟨bodies, examined⟩⟩
  · rw [rxHead, dma, received]
    exact fifo_start ring_positive
  · rw [rxTail, rxHead, nothing]
    rfl
  · rw [own i below]
    exact iff_of_false (by decide) fun ⟨k, less, _⟩ => by omega
  · rw [isem]
    rfl

theorem careful_step {left : List Frame} {n : Nat} {event : Event} (inv : Inv m left n)
    (careful : Careful m event) (did : act m event = some m') : ∃ left' n', Inv m' left' n' := by
  cases event with
  | completes frame => exact ⟨_, _, completes_inv inv did⟩
  | interrupt => exact ⟨_, _, ethhandler_inv inv did⟩
  | scans =>
      obtain ⟨count, scanning, rfl⟩ := Option.map_eq_some_iff.mp did
      by_cases goesOn : GoesOn m count
      · exact ⟨_, _, counts_inv inv scanning goesOn (careful count scanning goesOn)⟩
      · exact ⟨_, _, signals_inv inv scanning goesOn⟩
  | ethread pid len =>
      obtain ⟨_, did⟩ := Option.ite_none_right_eq_some.mp did
      obtain rfl := Option.some.inj did
      exact ⟨_, _, ethread_inv inv pid len⟩
  | examines pid =>
      obtain ⟨may, did⟩ := Option.ite_none_right_eq_some.mp did
      obtain rfl := Option.some.inj did
      exact ⟨_, _, examines_inv inv may.2 careful⟩
  | rearms b =>
      obtain ⟨may, did⟩ := Option.ite_none_right_eq_some.mp did
      obtain rfl := Option.some.inj did
      exact rearms_inv inv may.2

/-- In every run in which the handler never looks at a descriptor while all are unread, and one
reader at a time looks at a frame, frames are counted and read once. -/
theorem frames_counted_once (run : Reached act Started Careful m) : CountedOnce m := by
  have whole : ∃ left n, Inv m left n := by
    refine @reached_invariant _ _ act Started Careful (fun m => ∃ left n, Inv m left n) m run
      (fun m started => ⟨[], 0, started_inv started⟩) ?_
    rintro m m' event ⟨left, n, inv⟩ careful did
    exact careful_step inv careful did
  obtain ⟨left, n, inv⟩ := whole
  exact inv_counted inv

/-- The device behind `ethinit`, with one process that reads into a large buffer -/
def plugged : Ethcblk where
  rxRing i := ⟨true, decide (i + 1 = rxRingSize), ⟨0, 0, []⟩⟩
  rxHead := 0
  rxTail := 0
  isem := ⟨0, [], []⟩
  devAddress := 1
  ethbcast := 2
  edMcc := 0
  edMca _ := 0
  dma := 0
  ri := false
  scan := none
  len _ := 0
  bodies := []
  returned := []
  received := []
  examined := []

theorem plugged_started : Started plugged :=
  ⟨fun _ _ => rfl, fun _ _ => decide_eq_true_iff, rfl, rfl, rfl, rfl, rfl, rfl, rfl, rfl⟩

def frameOf (byte : Nat) : Frame := ⟨1, 1, [byte]⟩

theorem frame_is_counted_once : ∃ m, takeEvents act Careful [.ethread 7 1514,
    .completes (frameOf 3), .interrupt, .scans, .scans] plugged = some m ∧
      m.isem.passed = [7] ∧ m.received = [frameOf 3] ∧ CountedOnce m := by
  obtain ⟨m, took⟩ := Option.isSome_iff_exists.mp (show (takeEvents act Careful
    [.ethread 7 1514, .completes (frameOf 3), .interrupt, .scans, .scans] plugged).isSome = true by
      decide +kernel)
  have facts : m.isem.passed = [7] ∧ m.received = [frameOf 3] := by
    cases took
    decide +kernel
  exact ⟨m, took, facts.1, facts.2,
    frames_counted_once (take_events (.start plugged_started) took)⟩

/-- A process reads the frame of a descriptor and returns. -/
def readAt (i : Nat) : List Event :=
  [.ethread 7 1514, .examines 7, .rearms ⟨7, i, frameOf 3⟩]

/-- The ring is full when the handler runs. -/
def fullRing : List Event :=
  List.replicate rxRingSize (.completes (frameOf 3)) ++ .interrupt :: List.replicate 34 .scans

/-- The handler counts 33 frames of a full ring, and the reader behind the 32 frames is given a
descriptor of the device. Two readers look at one frame and at the other one not at all. -/
theorem frames_counted_twice :
    (∃ m, Reached act Started (fun _ _ => True) m ∧ m.received.length = 32 ∧
      m.isem.count = 33 ∧ ¬CountedOnce m) ∧
    (∃ m, Reached act Started (fun _ _ => True) m ∧ m.isem.passed = [7] ∧
      (m.rxRing m.rxHead).own = true) ∧
    ∃ m, Reached act Started (fun _ _ => True) m ∧ m.received = [frameOf 3, frameOf 4] ∧
      m.examined = [frameOf 3, frameOf 3] := by
  have start : Reached act Started (fun _ _ => True) plugged := .start plugged_started
  refine ⟨?_, ?_, ?_⟩
  · obtain ⟨m, run, received, count, idle⟩ := @take_events_end _ _ _ _ _ _ fullRing _
      (fun m => m.received.length = 32 ∧ m.isem.count = 33 ∧ m.scan = none) _ start
      (by decide +kernel)
    refine ⟨m, run, received, count, fun once => ?_⟩
    have most := (once.counted idle).1
    unfold avail at most
    rw [count] at most
    have small : rxRingSize = 32 := rfl
    omega
  · exact @take_events_end _ _ _ _ _ _
      (fullRing ++ (List.range rxRingSize).flatMap readAt ++ [.ethread 7 1514]) _
      (fun m => m.isem.passed = [7] ∧ (m.rxRing m.rxHead).own = true) _ start (by decide +kernel)
  · exact @take_events_end _ _ _ _ _ _
      [.completes (frameOf 3), .completes (frameOf 4), .interrupt, .scans, .scans, .scans,
        .ethread 7 1514, .ethread 8 1514, .examines 7, .examines 8] _
      (fun m => m.received = [frameOf 3, frameOf 4] ∧ m.examined = [frameOf 3, frameOf 3]) _ start
      (by decide +kernel)

end Results

end Xinu.Net.Ethernet
