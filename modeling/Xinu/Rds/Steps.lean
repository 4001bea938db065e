import Xinu.Rds.Driver
import Xinu.Rds.Lists

/-!
# Steps of the remote disk

What each step does to the lists of the device, and the part of the invariant that every result
about the device rests on. Two steps break the lists: the loop of `rdsprocess` that drops a second
request for a block, and the loop of `rdsread` that drops the buffer it has copied.
-/

namespace Xinu.Rds.Steps

open List (Perm)
open Xinu.Kernel.State (sysErr ok)
open Xinu.Rds.Device Xinu.Rds.Driver Xinu.Rds.Lists

set_option autoImplicit false

section Conditions

variable (x : Machine)

/-- `rdsprocess` finds another request for the block that it has just read. -/
def piggyBacks : Event → Bool
  | .driver =>
      match x.driver with
      | .others bptr => searchReaders x.rds (x.rds.buff bptr).rdBlknum != some .rtnext
      | _ => false
  | _ => false

/-- `rdsread` unlinks the buffer that it has copied. -/
def unlinks : Event → Bool
  | .step pid =>
      match x.calls pid with
      | some ⟨.read blk, .cleanup cptr bptr _, _, _⟩ =>
          cptr != bptr && (x.rds.buff cptr).rdBlknum == blk
      | _ => false
  | _ => false

/-- A step that does not break the lists. -/
def orderly (event : Event) : Bool := !piggyBacks x event && !unlinks x event

end Conditions

section Invariant

/-- Where `rdsprocess` is in the queue. -/
def Serving (driver : Service) (buff : Ptr → RdBuff) (queue : List Ptr) : Prop :=
  match driver with
  | .serve => queue ≠ []
  | .reading bptr => (∃ rest, queue = bptr :: rest) ∧ (buff bptr).rdOp = .read
  | .synced bptr => (∃ rest, queue = bptr :: rest) ∧ (buff bptr).rdOp = .sync
  | .dropping _ _ => False
  | _ => True

/-- The requests other than the one that `rdsprocess` is serving. -/
def ahead (driver : Service) (queue : List Ptr) : List Ptr :=
  match driver with
  | .serve => queue.tail
  | .reading _ => queue.tail
  | .synced _ => queue.tail
  | _ => queue

/-- What orderly steps keep. -/
structure Base (x : Machine) (queue cache free : List Ptr) : Prop extends
    Conserved x.rds queue cache free where
  opened : x.rds.rdState = .opened
  kinds : ∀ p ∈ queue, (x.rds.buff p).rdOp ≠ .other
  serving : Serving x.driver x.rds.buff queue
  blocked : x.driver = .blocked → x.reqsem = -1
  counted : x.driver ≠ .blocked → 0 ≤ x.reqsem ∧ x.reqsem ≤ (ahead x.driver queue).length

end Invariant

section Relation

/-- The device after a step. -/
structure After (r : Rdscblk) (buff : Ptr → RdBuff) (queue cache free : List Ptr) : Prop extends
    Conserved r queue cache free where
  buffs : r.buff = buff
  opened : r.rdState = .opened

/-- What `rdsbufalloc` has done when it returns `p`. -/
structure Allocated (r : Rdscblk) (queue cache free : List Ptr) (p : Ptr) (r' : Rdscblk)
    (cache' free' : List Ptr) : Prop extends Linked r' queue cache' free',
    Loose p queue cache' free', Taken r cache free p cache' free' where
  result : rdsbufalloc r = some (p, r')
  buffs : r'.buff = r.buff

def same (blk : Nat) (buff : Ptr → RdBuff) (p : Ptr) : Bool := (buff p).rdBlknum == blk

def isWrite (blk : Nat) (buff : Ptr → RdBuff) (p : Ptr) : Bool :=
  (buff p).rdBlknum == blk && (buff p).rdOp == .write

def change (buff : Ptr → RdBuff) (p : Ptr) (f : RdBuff → RdBuff) : Ptr → RdBuff :=
  Function.update buff p (f (buff p))

def readBuff (pid : Int) (blk : Nat) (buff : RdBuff) : RdBuff :=
  { buff with rdOp := .read, rdRefcnt := 1, rdBlknum := blk, rdStatus := .invalid, rdPid := pid }

def writeBuff (pid : Int) (blk : Nat) (data : Block) : RdBuff where
  rdBlock := data
  rdOp := .write
  rdRefcnt := 0
  rdBlknum := blk
  rdStatus := .valid
  rdPid := pid

def syncBuff (pid : Int) (buff : RdBuff) : RdBuff :=
  { buff with rdOp := .sync, rdRefcnt := 1, rdBlknum := 0, rdStatus := .invalid, rdPid := pid }

/-- The orderly steps, with the lists before and after each of them. -/
inductive Step (x : Machine) (queue cache free : List Ptr) :
    Event → Machine → Option Return → List Ptr → List Ptr → List Ptr → Prop
  | cached {pid : Int} {blk : Nat} {p : Ptr} (idle : x.calls pid = none)
      (found : cache.find? (same blk x.rds.buff) = some p)
      (valid : (x.rds.buff p).rdStatus = .valid) :
      Step x queue cache free (.call pid (.read blk)) x
        (some ⟨pid, calling x (.read blk), .read (x.rds.buff p).rdBlock⟩) queue cache free
  | queued {pid : Int} {blk : Nat} {p : Ptr} (idle : x.calls pid = none)
      (found : queue.reverse.find? (same blk x.rds.buff) = some p)
      (write : (x.rds.buff p).rdOp = .write) :
      Step x queue cache free (.call pid (.read blk)) x
        (some ⟨pid, calling x (.read blk), .read (x.rds.buff p).rdBlock⟩) queue cache free
  | waits {pid : Int} {request : Request} (idle : x.calls pid = none) :
      Step x queue cache free (.call pid request) (waitAvail x pid request) none queue cache free
  | replaced {pid : Int} {blk : Nat} {data : Block} {p : Ptr} {r : Rdscblk}
      (idle : x.calls pid = none) (found : queue.find? (isWrite blk x.rds.buff) = some p)
      (after : After r (change x.rds.buff p fun buff => { buff with rdBlock := data }) queue cache
        free) :
      Step x queue cache free (.call pid (.write blk data)) ({ x with rds := r }.accept blk data)
        (some ⟨pid, calling x (.write blk data), .ok⟩) queue cache free
  | reused {pid : Int} {blk : Nat} {data : Block} {p : Ptr} {front back : List Ptr} {r : Rdscblk}
      (idle : x.calls pid = none) (new : queue.find? (isWrite blk x.rds.buff) = none)
      (split : cache = front ++ p :: back) (found : cache.find? (same blk x.rds.buff) = some p)
      (unread : (x.rds.buff p).rdRefcnt ≤ 0)
      (exhausts : searchWrites x.rds blk = some .rtnext ∧ searchCache x.rds blk = some p ∧
        p ≠ .ctnext)
      (after : After r (change x.rds.buff p fun _ => writeBuff pid blk data) (queue ++ [p])
        (front ++ back) free) :
      Step x queue cache free (.call pid (.write blk data))
        ({ x with rds := r, avail := x.avail.semreset (x.avail.count - 1) }.accept blk
          data).signalReq
        (some ⟨pid, calling x (.write blk data), .ok⟩) (queue ++ [p]) (front ++ back) free
  | allocatesRead {pid : Int} {blk since earlier : Nat} {p : Ptr} {cache' free' : List Ptr}
      {got r : Rdscblk} (called : x.calls pid = some ⟨.read blk, .avail, since, earlier⟩)
      (passed : pid ∈ x.avail.passed)
      (allocated : Allocated x.rds queue cache free p got cache' free')
      (after : After r (change x.rds.buff p (readBuff pid blk)) (queue ++ [p]) cache' free') :
      Step x queue cache free (.step pid)
        (({ x with
            rds := r
            avail := { x.avail with passed := x.avail.passed.erase pid } }.recvclr
          pid).signalReq.setCall pid (some ⟨.read blk, .receive p, since, earlier⟩))
        none (queue ++ [p]) cache' free'
  | allocatesWrite {pid : Int} {blk since earlier : Nat} {data : Block} {p : Ptr}
      {cache' free' : List Ptr} {got r : Rdscblk}
      (called : x.calls pid = some ⟨.write blk data, .avail, since, earlier⟩)
      (passed : pid ∈ x.avail.passed)
      (allocated : Allocated x.rds queue cache free p got cache' free')
      (after : After r (change x.rds.buff p fun _ => writeBuff pid blk data) (queue ++ [p]) cache'
        free') :
      Step x queue cache free (.step pid)
        (({ x with
            rds := r
            avail := { x.avail with passed := x.avail.passed.erase pid } }.accept blk
          data).signalReq.setCall pid none)
        (some ⟨pid, ⟨.write blk data, .avail, since, earlier⟩, .ok⟩) (queue ++ [p]) cache' free'
  | allocatesSync {pid : Int} {since earlier : Nat} {p : Ptr} {cache' free' : List Ptr}
      {got r : Rdscblk} (called : x.calls pid = some ⟨.sync, .avail, since, earlier⟩)
      (passed : pid ∈ x.avail.passed)
      (allocated : Allocated x.rds queue cache free p got cache' free')
      (after : After r (change x.rds.buff p (syncBuff pid)) (queue ++ [p]) cache' free') :
      Step x queue cache free (.step pid)
        (({ x with
            rds := r
            avail := { x.avail with passed := x.avail.passed.erase pid } }.recvclr pid).setCall pid
          (some ⟨.sync, .receive p, since, earlier⟩))
        none (queue ++ [p]) cache' free'
  | refused {pid : Int} {blk since earlier : Nat} {b : Ptr}
      (called : x.calls pid = some ⟨.read blk, .receive b, since, earlier⟩)
      (mail : x.mail pid = some (.word sysErr)) :
      Step x queue cache free (.step pid) ((x.recvclr pid).setCall pid none)
        (some ⟨pid, ⟨.read blk, .receive b, since, earlier⟩, .sysErr⟩) queue cache free
  | acknowledged {pid : Int} {request : Request} {since earlier : Nat} {b msg : Ptr}
      (called : x.calls pid = some ⟨request, .receive b, since, earlier⟩)
      (other : ∀ blk, request ≠ .read blk) (mail : x.mail pid = some msg) :
      Step x queue cache free (.step pid) ((x.recvclr pid).setCall pid none)
        (some ⟨pid, ⟨request, .receive b, since, earlier⟩, .ok⟩) queue cache free
  | copied {pid : Int} {blk since earlier : Nat} {b msg : Ptr} {place : Option Calling}
      {out : Option Return} {r : Rdscblk}
      (called : x.calls pid = some ⟨.read blk, .receive b, since, earlier⟩)
      (mail : x.mail pid = some msg)
      (after : After r (change x.rds.buff msg fun buff => { buff with
        rdRefcnt := buff.rdRefcnt - 1 }) queue cache free)
      (next : place = none ∧ out = some ⟨pid, ⟨.read blk, .receive b, since, earlier⟩,
          .read (x.rds.buff msg).rdBlock⟩ ∨
        out = none ∧ ∃ cptr, place =
          some ⟨.read blk, .cleanup cptr msg (x.rds.buff msg).rdBlock, since, earlier⟩) :
      Step x queue cache free (.step pid) (({ x with rds := r }.recvclr pid).setCall pid place) out
        queue cache free
  | returns {pid : Int} {request : Request} {since earlier : Nat} {c b : Ptr} {data : Block}
      (called : x.calls pid = some ⟨request, .cleanup c b data, since, earlier⟩) :
      Step x queue cache free (.step pid) (x.setCall pid none)
        (some ⟨pid, ⟨request, .cleanup c b data, since, earlier⟩, .read data⟩) queue cache free
  | turns {pid : Int} : Step x queue cache free (.step pid) x none queue cache free
  | wait (driver : x.driver = .wait) :
      Step x queue cache free .driver { x with
        reqsem := x.reqsem - 1
        driver := if x.reqsem - 1 < 0 then .blocked else .serve } none queue cache free
  | serveRead {b : Ptr} {rest : List Ptr} (driver : x.driver = .serve) (split : queue = b :: rest)
      (op : (x.rds.buff b).rdOp = .read) :
      Step x queue cache free .driver { x with driver := .reading b } none queue cache free
  | serveWrite {b : Ptr} {rest : List Ptr} {r : Rdscblk} (driver : x.driver = .serve)
      (split : queue = b :: rest) (op : (x.rds.buff b).rdOp = .write)
      (after : After r (change x.rds.buff b fun buff => { buff with rdRefcnt := 0 }) rest
        (b :: cache) free) :
      Step x queue cache free .driver { x.signalAvail with
        rds := r
        driver := .writing (x.rds.buff b).rdBlknum (x.rds.buff b).rdBlock } none rest (b :: cache)
        free
  | serveSync {b : Ptr} {rest : List Ptr} (driver : x.driver = .serve) (split : queue = b :: rest)
      (op : (x.rds.buff b).rdOp = .sync) :
      Step x queue cache free .driver { x.send (x.rds.buff b).rdPid (.word ok) with
        driver := .synced b } none queue cache free
  | reading {b : Ptr} {rest : List Ptr} {r : Rdscblk} (driver : x.driver = .reading b)
      (split : queue = b :: rest)
      (after : After r (change x.rds.buff b fun buff => { buff with
        rdBlock := x.server (x.rds.buff b).rdBlknum, rdRefcnt := 1 }) rest (b :: cache) free) :
      Step x queue cache free .driver { x.signalAvail with
        rds := r
        driver := .notify b
        fills := x.fills ++ [⟨b, (x.rds.buff b).rdBlknum, x.server (x.rds.buff b).rdBlknum⟩] } none
        rest (b :: cache) free
  | notify {b : Ptr} (driver : x.driver = .notify b) :
      Step x queue cache free .driver { x.send (x.rds.buff b).rdPid b with driver := .others b } none
        queue cache free
  | others {b : Ptr} (driver : x.driver = .others b)
      (alone : queue.find? (same (x.rds.buff b).rdBlknum x.rds.buff) = none) :
      Step x queue cache free .driver { x with driver := .sleep } none queue cache free
  | writing {blk : Nat} {data : Block} (driver : x.driver = .writing blk data) :
      Step x queue cache free .driver { x with
        server := Function.update x.server blk data
        driver := .sleep } none queue cache free
  | synced {b : Ptr} {rest : List Ptr} {r : Rdscblk} (driver : x.driver = .synced b)
      (split : queue = b :: rest) (after : After r x.rds.buff rest cache (b :: free)) :
      Step x queue cache free .driver { x.signalAvail with rds := r, driver := .sleep } none rest
        cache (b :: free)
  | sleep (driver : x.driver = .sleep) :
      Step x queue cache free .driver { x with driver := .wait } none queue cache free
  | message {pid : Int} {msg : Ptr} :
      Step x queue cache free (.send pid msg) (x.send pid msg) none queue cache free
  | takes {pid : Int} (idle : x.calls pid = none) :
      Step x queue cache free (.receive pid) (x.recvclr pid) none queue cache free

end Relation

section Inversion

variable {x x' : Machine} {queue cache free : List Ptr} {pid : Int} {out : Option Return}

/-- The step leads from the lists to some lists. -/
def Leads (x : Machine) (queue cache free : List Ptr) (event : Event) (x' : Machine)
    (out : Option Return) : Prop :=
  ∃ queue' cache' free', Step x queue cache free event x' out queue' cache' free'

theorem read_begins {blk : Nat} (base : Base x queue cache free) (idle : x.calls pid = none)
    (done : begins x pid (.read blk) = some (x', out)) :
    Leads x queue cache free (.call pid (.read blk)) x' out := by
  have lengths := conserved_lengths base.toConserved
  unfold begins at done
  rw [if_neg (by simp [base.opened])] at done
  rcases @rdsreadSearch_cases _ _ _ _ blk base.toLinked (by omega) (by omega) with
    ⟨p, found, valid, search⟩ | ⟨-, ⟨p, found, write, search⟩ | ⟨-, search⟩⟩
  · simp only [search, Option.bind_eq_bind, Option.bind_some, Option.some.injEq, Prod.mk.injEq]
      at done
    obtain ⟨rfl, rfl⟩ := done
    exact ⟨_, _, _, .cached idle found valid⟩
  · simp only [search, Option.bind_eq_bind, Option.bind_some, Option.some.injEq, Prod.mk.injEq]
      at done
    obtain ⟨rfl, rfl⟩ := done
    exact ⟨_, _, _, .queued idle found write⟩
  · simp only [search, Option.bind_eq_bind, Option.bind_some, Option.some.injEq, Prod.mk.injEq]
      at done
    obtain ⟨rfl, rfl⟩ := done
    exact ⟨_, _, _, .waits idle⟩

theorem write_begins {blk : Nat} {data : Block} (base : Base x queue cache free)
    (idle : x.calls pid = none) (done : begins x pid (.write blk data) = some (x', out)) :
    Leads x queue cache free (.call pid (.write blk data)) x' out := by
  unfold begins at done
  rw [if_neg (by simp [base.opened])] at done
  have writes := @searchWrites_eq _ _ _ _ blk base.toConserved
  have inCache := @searchCache_eq _ _ _ _ blk base.toConserved
  simp only [writes, Option.bind_eq_bind, Option.bind_some] at done
  cases queued : queue.find? (isWrite blk x.rds.buff) with
  | some p =>
      have isFound : queue.find? (fun p => (x.rds.buff p).rdBlknum == blk &&
        (x.rds.buff p).rdOp == .write) = some p := queued
      have member := List.mem_of_find?_eq_some isFound
      simp only [isFound, Option.getD_some] at done
      rw [if_pos (queue_ne_end base.toLinked member).1] at done
      obtain ⟨rfl, rfl⟩ := Prod.mk.inj (Option.some.inj done)
      exact ⟨_, _, _, .replaced idle queued ⟨conserved_set base.toConserved, rfl, base.opened⟩⟩
  | none =>
      have isFound : queue.find? (fun p => (x.rds.buff p).rdBlknum == blk &&
        (x.rds.buff p).rdOp == .write) = none := queued
      simp only [isFound, Option.getD_none, ne_eq, not_true_eq_false, if_false, inCache,
        Option.bind_some] at done
      rw [isFound] at writes
      split_ifs at done with takes
      · obtain ⟨rfl, rfl⟩ := Prod.mk.inj (Option.some.inj done)
        cases hit : cache.find? (fun p => (x.rds.buff p).rdBlknum == blk) with
        | none => simp [hit] at takes
        | some p =>
            rw [hit] at takes inCache
            have member := List.mem_of_find?_eq_some hit
            obtain ⟨front, back, rfl⟩ := List.append_of_mem member
            exact ⟨_, _, _, .reused idle queued rfl hit takes.2 ⟨writes, inCache, takes.1⟩
              ⟨conserved_reuse base.toConserved, rfl, base.opened⟩⟩
      · obtain ⟨rfl, rfl⟩ := Prod.mk.inj (Option.some.inj done)
        exact ⟨_, _, _, .waits idle⟩

theorem sync_begins (base : Base x queue cache free) (idle : x.calls pid = none)
    (done : begins x pid .sync = some (x', out)) :
    Leads x queue cache free (.call pid .sync) x' out := by
  unfold begins at done
  rw [if_neg (by simp [base.opened])] at done
  obtain ⟨rfl, rfl⟩ := Prod.mk.inj (Option.some.inj done)
  exact ⟨_, _, _, .waits idle⟩

/-- A buffer that `rdsbufalloc` returns becomes a request. -/
theorem conserved_allocated {r got : Rdscblk} {p : Ptr} {cache' free' : List Ptr}
    {set : RdBuff → RdBuff} (lists : Conserved r queue cache free)
    (allocated : Allocated r queue cache free p got cache' free') :
    Conserved (appendRequest (got.set p set) p) (queue ++ [p]) cache' free' := by
  refine conserved_request allocated.toLinked allocated.toLoose (Perm.trans ?_ lists.total)
  rw [List.append_assoc]
  exact List.Perm.append_left _ (taken_perm allocated.toTaken)

theorem allocates_step {calling : Calling} (base : Base x queue cache free)
    (called : x.calls pid = some calling) (place : calling.place = .avail)
    (passed : pid ∈ x.avail.passed) (done : allocates x pid calling = some (x', out)) :
    Leads x queue cache free (.step pid) x' out := by
  obtain ⟨request, at_, since, earlier⟩ := calling
  subst place
  unfold allocates at done
  cases result : rdsbufalloc x.rds with
  | none => simp [result] at done
  | some got =>
      obtain ⟨p, r⟩ := got
      obtain ⟨cache', free', taken, linked, loose, buffs, state⟩ :=
        rdsbufalloc_taken base.toConserved result
      have allocated : Allocated x.rds queue cache free p r cache' free' :=
        ⟨linked, loose, taken, result, buffs⟩
      have opened : r.rdState = .opened := state.trans base.opened
      simp only [result, Option.bind_eq_bind, Option.bind_some] at done
      cases request with
      | read blk =>
          obtain ⟨rfl, rfl⟩ := Prod.mk.inj (Option.some.inj done)
          refine ⟨_, _, _, .allocatesRead called passed allocated
            ⟨conserved_allocated base.toConserved allocated, ?_, opened⟩⟩
          change Function.update r.buff p _ = _
          rw [buffs]
          rfl
      | write blk data =>
          obtain ⟨rfl, rfl⟩ := Prod.mk.inj (Option.some.inj done)
          refine ⟨_, _, _, .allocatesWrite called passed allocated
            ⟨conserved_allocated base.toConserved allocated, ?_, opened⟩⟩
          change Function.update r.buff p _ = _
          rw [buffs]
          rfl
      | sync =>
          obtain ⟨rfl, rfl⟩ := Prod.mk.inj (Option.some.inj done)
          refine ⟨_, _, _, .allocatesSync called passed allocated
            ⟨conserved_allocated base.toConserved allocated, ?_, opened⟩⟩
          change Function.update r.buff p _ = _
          rw [buffs]
          rfl

theorem receives_step {calling : Calling} {b msg : Ptr} (base : Base x queue cache free)
    (called : x.calls pid = some calling) (place : calling.place = .receive b)
    (mail : x.mail pid = some msg) (done : receives x pid calling msg = (x', out)) :
    Leads x queue cache free (.step pid) x' out := by
  obtain ⟨request, at_, since, earlier⟩ := calling
  subst place
  unfold receives at done
  cases request with
  | read blk =>
      have copies : Conserved (x.rds.set msg fun buff => { buff with
        rdRefcnt := buff.rdRefcnt - 1 }) queue cache free := conserved_set base.toConserved
      dsimp only at done
      split_ifs at done with refusal last
      · obtain ⟨rfl, rfl⟩ := Prod.mk.inj done
        exact ⟨_, _, _, .refused called (refusal ▸ mail)⟩
      · obtain ⟨rfl, rfl⟩ := Prod.mk.inj done
        exact ⟨_, _, _, .copied called mail ⟨copies, rfl, base.opened⟩ (.inr ⟨rfl, _, rfl⟩)⟩
      · obtain ⟨rfl, rfl⟩ := Prod.mk.inj done
        exact ⟨_, _, _, .copied called mail ⟨copies, rfl, base.opened⟩ (.inl ⟨rfl, rfl⟩)⟩
  | write blk data =>
      obtain ⟨rfl, rfl⟩ := Prod.mk.inj done
      exact ⟨_, _, _, .acknowledged called (by simp) mail⟩
  | sync =>
      obtain ⟨rfl, rfl⟩ := Prod.mk.inj done
      exact ⟨_, _, _, .acknowledged called (by simp) mail⟩

theorem cleanup_step {calling : Calling} {c b : Ptr} {data : Block}
    (called : x.calls pid = some calling) (place : calling.place = .cleanup c b data)
    (kept : unlinks x (.step pid) = false)
    (done : cleanupTurn x pid calling c b data = (x', out)) :
    Leads x queue cache free (.step pid) x' out := by
  obtain ⟨request, at_, since, earlier⟩ := calling
  subst place
  unfold cleanupTurn at done
  split_ifs at done with ends
  · obtain ⟨rfl, rfl⟩ := Prod.mk.inj done
    exact ⟨_, _, _, .returns called⟩
  · cases request with
    | read blk =>
        have other : ¬(x.rds.buff c).rdBlknum = blk := by
          simpa [unlinks, called, ends] using kept
        dsimp only at done
        rw [if_neg other] at done
        obtain ⟨rfl, rfl⟩ := Prod.mk.inj done
        exact ⟨_, _, _, .turns⟩
    | write blk data =>
        obtain ⟨rfl, rfl⟩ := Prod.mk.inj done
        exact ⟨_, _, _, .turns⟩
    | sync =>
        obtain ⟨rfl, rfl⟩ := Prod.mk.inj done
        exact ⟨_, _, _, .turns⟩

theorem proceeds_step (base : Base x queue cache free) (kept : unlinks x (.step pid) = false)
    (done : proceeds x pid = some (x', out)) : Leads x queue cache free (.step pid) x' out := by
  unfold proceeds at done
  cases called : x.calls pid with
  | none => simp [called] at done
  | some calling =>
      simp only [called, Option.bind_eq_bind, Option.bind_some] at done
      cases place : calling.place with
      | avail =>
          simp only [place] at done
          split_ifs at done with passed
          exact allocates_step base called place passed done
      | receive b =>
          simp only [place] at done
          obtain ⟨msg, mail, result⟩ := Option.map_eq_some_iff.mp done
          exact receives_step base called place mail result
      | cleanup c b data =>
          simp only [place, Option.some.injEq] at done
          exact cleanup_step called place kept done

theorem serve_step (base : Base x queue cache free) (driver : x.driver = .serve)
    (done : driverStep x = some x') : Leads x queue cache free .driver x' none := by
  have serving := base.serving
  rw [driver] at serving
  obtain ⟨b, rest, rfl⟩ := List.exists_cons_of_ne_nil serving
  have first : x.rds.rdNext .rhnext = b := firstRequest base.toConserved
  simp only [driverStep, driver, first] at done
  cases op : (x.rds.buff b).rdOp with
  | read =>
      simp only [op, Option.some.injEq] at done
      subst done
      exact ⟨_, _, _, .serveRead driver rfl op⟩
  | write =>
      simp only [op, Option.some.injEq] at done
      subst done
      exact ⟨_, _, _, .serveWrite driver rfl op
        ⟨conserved_moveToCache base.toConserved, rfl, base.opened⟩⟩
  | sync =>
      simp only [op, Option.some.injEq] at done
      subst done
      exact ⟨_, _, _, .serveSync driver rfl op⟩
  | other => exact absurd op (base.kinds b (by simp))

theorem driver_step (base : Base x queue cache free) (alone : piggyBacks x .driver = false)
    (done : driverStep x = some x') : Leads x queue cache free .driver x' none := by
  cases driver : x.driver with
  | wait =>
      simp only [driverStep, driver, Option.some.injEq] at done
      subst done
      exact ⟨_, _, _, .wait driver⟩
  | blocked => simp [driverStep, driver] at done
  | serve => exact serve_step base driver done
  | reading b =>
      have serving := base.serving
      rw [driver] at serving
      obtain ⟨⟨rest, rfl⟩, -⟩ := serving
      simp only [driverStep, driver, Option.some.injEq] at done
      subst done
      refine ⟨_, _, _, .reading driver rfl
        ⟨conserved_moveToCache (conserved_set base.toConserved), ?_, base.opened⟩⟩
      simp [moveToCache, Rdscblk.set, insertCache, unlinkNode, change]
  | notify b =>
      simp only [driverStep, driver, Option.some.injEq] at done
      subst done
      exact ⟨_, _, _, .notify driver⟩
  | others b =>
      have search := @searchReaders_eq _ _ _ _ (x.rds.buff b).rdBlknum base.toConserved
      cases hit : queue.find? (same (x.rds.buff b).rdBlknum x.rds.buff) with
      | some p =>
          have isFound : queue.find? (fun p =>
            (x.rds.buff p).rdBlknum == (x.rds.buff b).rdBlknum) = some p := hit
          have member := List.mem_of_find?_eq_some isFound
          rw [isFound, Option.getD_some] at search
          have no_end := (queue_ne_end base.toLinked member).1
          simp [piggyBacks, driver, search, no_end] at alone
      | none =>
          have isFound : queue.find? (fun p =>
            (x.rds.buff p).rdBlknum == (x.rds.buff b).rdBlknum) = none := hit
          rw [isFound, Option.getD_none] at search
          simp only [driverStep, driver, search, Option.bind_eq_bind, Option.bind_some, if_true,
            Option.some.injEq] at done
          subst done
          exact ⟨_, _, _, .others driver hit⟩
  | dropping b q =>
      have serving := base.serving
      rw [driver] at serving
      cases serving
  | writing blk data =>
      simp only [driverStep, driver, Option.some.injEq] at done
      subst done
      exact ⟨_, _, _, .writing driver⟩
  | synced b =>
      have serving := base.serving
      rw [driver] at serving
      obtain ⟨⟨rest, rfl⟩, -⟩ := serving
      simp only [driverStep, driver, Option.some.injEq] at done
      subst done
      exact ⟨_, _, _, .synced driver rfl ⟨conserved_release base.toConserved, rfl, base.opened⟩⟩
  | sleep =>
      simp only [driverStep, driver, Option.some.injEq] at done
      subst done
      exact ⟨_, _, _, .sleep driver⟩

/-- Every orderly step is one of the relation. -/
theorem act_step {event : Event} (base : Base x queue cache free) (may : orderly x event = true)
    (done : act x event = some (x', out)) : Leads x queue cache free event x' out := by
  obtain ⟨alone, kept⟩ : piggyBacks x event = false ∧ unlinks x event = false := by
    simpa [orderly] using may
  cases event with
  | call pid request =>
      simp only [act] at done
      split_ifs at done with busy
      have idle : x.calls pid = none := by simpa using busy
      cases request with
      | read blk => exact read_begins base idle done
      | write blk data => exact write_begins base idle done
      | sync => exact sync_begins base idle done
  | step pid => exact proceeds_step base kept done
  | driver =>
      obtain ⟨after, taken, rest⟩ := Option.map_eq_some_iff.mp done
      obtain ⟨rfl, rfl⟩ := Prod.mk.inj rest
      exact driver_step base alone taken
  | send pid msg =>
      obtain ⟨rfl, rfl⟩ := Prod.mk.inj (Option.some.inj done)
      exact ⟨_, _, _, .message⟩
  | receive pid =>
      simp only [act] at done
      split_ifs at done with busy
      have idle : x.calls pid = none := by simpa using busy
      obtain ⟨rfl, rfl⟩ := Prod.mk.inj (Option.some.inj done)
      exact ⟨_, _, _, .takes idle⟩

end Inversion

section Preservation

variable {x x' : Machine} {queue cache free cache' free' : List Ptr} {r : Rdscblk} {p : Ptr}
  {f : RdBuff → RdBuff}

theorem ahead_append {driver : Service} {buff : Ptr → RdBuff} (serving : Serving driver buff queue) :
    ahead driver (queue ++ [p]) = ahead driver queue ++ [p] := by
  cases driver with
  | serve => exact List.tail_append_of_ne_nil serving
  | reading b =>
      obtain ⟨⟨rest, rfl⟩, -⟩ := serving
      rfl
  | synced b =>
      obtain ⟨⟨rest, rfl⟩, -⟩ := serving
      rfl
  | _ => rfl

/-- The request that is being served has no other operation afterwards. -/
theorem serving_append {driver : Service} {buff buff' : Ptr → RdBuff} {more : List Ptr}
    (serving : Serving driver buff queue)
    (ops : ∀ p ∈ queue, (buff' p).rdOp = (buff p).rdOp) : Serving driver buff' (queue ++ more) := by
  cases driver with
  | serve =>
      intro empty
      exact serving (List.append_eq_nil_iff.mp empty).1
  | reading b =>
      obtain ⟨⟨rest, rfl⟩, op⟩ := serving
      exact ⟨⟨rest ++ more, rfl⟩, (ops b (by simp)).trans op⟩
  | synced b =>
      obtain ⟨⟨rest, rfl⟩, op⟩ := serving
      exact ⟨⟨rest ++ more, rfl⟩, (ops b (by simp)).trans op⟩
  | dropping b q => exact serving
  | _ => trivial

theorem change_of_ne {buff : Ptr → RdBuff} {q : Ptr} (ne : q ≠ p) : change buff p f q = buff q :=
  Function.update_of_ne ne _ _

@[simp]
theorem change_self {buff : Ptr → RdBuff} : change buff p f p = f (buff p) :=
  Function.update_self _ _ _

theorem change_ops {buff : Ptr → RdBuff} (op : (f (buff p)).rdOp = (buff p).rdOp) (q : Ptr) :
    (change buff p f q).rdOp = (buff q).rdOp := by
  by_cases isP : q = p
  · subst isP
    rw [change_self, op]
  · rw [change_of_ne isP]

theorem not_in_queue {buff : Ptr → RdBuff} (after : After r buff (queue ++ [p]) cache' free') :
    p ∉ queue := by
  have nodup := after.nodup
  grind

theorem base_content (base : Base x queue cache free)
    (after : After r (change x.rds.buff p f) queue cache free)
    (op : (f (x.rds.buff p)).rdOp = (x.rds.buff p).rdOp) (rds : x'.rds = r)
    (reqsem : x'.reqsem = x.reqsem) (driver : x'.driver = x.driver) :
    Base x' queue cache free := by
  subst rds
  have serving := @serving_append _ _ _ _ [] base.serving fun q _ => change_ops op q
  rw [List.append_nil] at serving
  refine ⟨after.toConserved, after.opened, fun q member => ?_, ?_, ?_, ?_⟩
  · rw [after.buffs, change_ops op]
    exact base.kinds q member
  · rw [after.buffs, driver]
    exact serving
  · rw [driver, reqsem]
    exact base.blocked
  · rw [driver, reqsem]
    exact base.counted

theorem base_congr (base : Base x queue cache free) (rds : x'.rds = x.rds)
    (reqsem : x'.reqsem = x.reqsem) (driver : x'.driver = x.driver) :
    Base x' queue cache free := by
  obtain ⟨lists, opened, kinds, serving, blocked, counted⟩ := base
  refine ⟨rds ▸ lists, rds ▸ opened, rds ▸ kinds, ?_, ?_, ?_⟩
  · rw [driver, rds]
    exact serving
  · rw [driver, reqsem]
    exact blocked
  · rw [driver, reqsem]
    exact counted

theorem kinds_append (base : Base x queue cache free)
    (after : After r (change x.rds.buff p f) (queue ++ [p]) cache' free')
    (kind : (f (x.rds.buff p)).rdOp ≠ .other) : ∀ q ∈ queue ++ [p], (r.buff q).rdOp ≠ .other := by
  intro q member
  rw [after.buffs]
  by_cases isP : q = p
  · subst isP
    rwa [change_self]
  · rw [change_of_ne isP]
    exact base.kinds q (by simpa [isP] using member)

theorem ops_append (after : After r (change x.rds.buff p f) (queue ++ [p]) cache' free') :
    ∀ q ∈ queue, (r.buff q).rdOp = (x.rds.buff q).rdOp := by
  intro q member
  rw [after.buffs, change_of_ne]
  rintro rfl
  exact not_in_queue after member

/-- A request is added to the queue, and `rd_reqsem` is signalled. -/
theorem base_signalled (base : Base x queue cache free)
    (after : After r (change x.rds.buff p f) (queue ++ [p]) cache' free')
    (kind : (f (x.rds.buff p)).rdOp ≠ .other) (rds : x'.rds = r)
    (reqsem : x'.reqsem = x.reqsem + 1)
    (driver : x'.driver = if x.reqsem < 0 then .serve else x.driver) :
    Base x' (queue ++ [p]) cache' free' := by
  subst rds
  by_cases blocked : x.driver = .blocked
  · have count := base.blocked blocked
    rw [count] at driver reqsem
    have serves : x'.driver = .serve := driver
    refine ⟨after.toConserved, after.opened, kinds_append base after kind, ?_, ?_, ?_⟩
    · rw [serves]
      exact List.append_ne_nil_of_right_ne_nil _ (List.cons_ne_nil _ _)
    · simp [serves]
    · simp [reqsem]
  · obtain ⟨low, high⟩ := base.counted blocked
    rw [if_neg (by omega)] at driver
    refine ⟨after.toConserved, after.opened, kinds_append base after kind, ?_, ?_, fun _ => ?_⟩
    · rw [driver]
      exact serving_append base.serving (ops_append after)
    · exact fun isBlocked => absurd (driver ▸ isBlocked) blocked
    · rw [driver, ahead_append base.serving, List.length_append, reqsem]
      simp only [List.length_singleton]
      omega

/-- A request is added to the queue without a signal. -/
theorem base_appended (base : Base x queue cache free)
    (after : After r (change x.rds.buff p f) (queue ++ [p]) cache' free')
    (kind : (f (x.rds.buff p)).rdOp ≠ .other) (rds : x'.rds = r)
    (reqsem : x'.reqsem = x.reqsem) (driver : x'.driver = x.driver) :
    Base x' (queue ++ [p]) cache' free' := by
  subst rds
  refine ⟨after.toConserved, after.opened, kinds_append base after kind, ?_, ?_, ?_⟩
  · rw [driver]
    exact serving_append base.serving (ops_append after)
  · rw [driver, reqsem]
    exact base.blocked
  · intro running
    rw [driver] at running
    rw [driver, ahead_append base.serving, List.length_append, reqsem]
    have counted := base.counted running
    simp only [List.length_singleton]
    omega

/-- A step of `rdsprocess` that changes nothing but where it is. -/
theorem base_moves (base : Base x queue cache free) {driver : Service}
    (rds : x'.rds = x.rds) (reqsem : x'.reqsem = x.reqsem) (moves : x'.driver = driver)
    (running : x.driver ≠ .blocked) (runs : driver ≠ .blocked)
    (serving : Serving driver x.rds.buff queue)
    (left : (ahead driver queue).length = (ahead x.driver queue).length) :
    Base x' queue cache free := by
  refine ⟨rds ▸ base.toConserved, rds ▸ base.opened, rds ▸ base.kinds, ?_, ?_, fun _ => ?_⟩
  · rw [moves, rds]
    exact serving
  · rw [moves]
    exact fun isBlocked => absurd isBlocked runs
  · rw [moves, left, reqsem]
    exact base.counted running

/-- `rdsprocess` takes the first request off the queue. -/
theorem base_taken {buff : Ptr → RdBuff} {rest : List Ptr} (base : Base x (p :: rest) cache free)
    {driver : Service} (after : After r buff rest cache' free') (rds : x'.rds = r)
    (ops : ∀ q, (buff q).rdOp = (x.rds.buff q).rdOp) (reqsem : x'.reqsem = x.reqsem)
    (moves : x'.driver = driver) (running : x.driver ≠ .blocked) (runs : driver ≠ .blocked)
    (serving : Serving driver buff rest) (left : ahead x.driver (p :: rest) = rest)
    (all : ahead driver rest = rest) : Base x' rest cache' free' := by
  subst rds
  refine ⟨after.toConserved, after.opened, fun q member => ?_, ?_, ?_, fun _ => ?_⟩
  · rw [after.buffs, ops]
    exact base.kinds q (by simp [member])
  · rw [moves, after.buffs]
    exact serving
  · rw [moves]
    exact fun isBlocked => absurd isBlocked runs
  · have counted := base.counted running
    rw [left] at counted
    rw [moves, all, reqsem]
    exact counted

theorem base_waits (base : Base x queue cache free) (driver : x.driver = .wait) :
    Base { x with
      reqsem := x.reqsem - 1
      driver := if x.reqsem - 1 < 0 then .blocked else .serve } queue cache free := by
  obtain ⟨low, high⟩ := base.counted (by simp [driver])
  rw [driver] at high
  simp only [ahead] at high
  have some_left : 0 ≤ x.reqsem - 1 → queue ≠ [] := fun positive empty => by
    rw [empty, List.length_nil] at high
    omega
  by_cases none_left : x.reqsem - 1 < 0
  · refine ⟨base.toConserved, base.opened, base.kinds, ?_, fun _ => ?_, fun running => ?_⟩
    · simp [none_left, Serving]
    · dsimp only
      omega
    · simp [none_left] at running
  · have nonempty := some_left (by omega)
    refine ⟨base.toConserved, base.opened, base.kinds, ?_, fun isBlocked => ?_, fun _ => ?_⟩
    · simpa [none_left, Serving] using nonempty
    · simp [none_left] at isBlocked
    · have length := List.length_pos_iff.mpr nonempty
      simp only [if_neg none_left, ahead, List.length_tail]
      omega

theorem base_step {event : Event} {out : Option Return} {queue' : List Ptr}
    (base : Base x queue cache free)
    (step : Step x queue cache free event x' out queue' cache' free') :
    Base x' queue' cache' free' := by
  cases step with
  | cached => exact base
  | queued => exact base
  | waits => exact base_congr base rfl rfl rfl
  | replaced idle found after => exact base_content base after rfl rfl rfl rfl
  | reused idle new split found unread exhausts after =>
      exact base_signalled base after (by simp [writeBuff]) rfl rfl rfl
  | allocatesRead called passed allocated after =>
      exact base_signalled base after (by simp [readBuff]) rfl rfl rfl
  | allocatesWrite called passed allocated after =>
      exact base_signalled base after (by simp [writeBuff]) rfl rfl rfl
  | allocatesSync called passed allocated after =>
      exact base_appended base after (by simp [syncBuff]) rfl rfl rfl
  | refused => exact base_congr base rfl rfl rfl
  | acknowledged => exact base_congr base rfl rfl rfl
  | copied called mail after next => exact base_content base after rfl rfl rfl rfl
  | returns => exact base_congr base rfl rfl rfl
  | turns => exact base
  | wait driver => exact base_waits base driver
  | serveRead driver split op =>
      refine base_moves base rfl rfl rfl (by simp [driver]) (by simp) ⟨⟨_, split⟩, op⟩ ?_
      rw [driver, split]
      rfl
  | serveWrite driver split op after =>
      subst split
      exact base_taken base after rfl (change_ops rfl) rfl rfl (by simp [driver]) (by simp) trivial
        (by rw [driver]; rfl) rfl
  | serveSync driver split op =>
      rw [Machine.send_eq]
      refine base_moves base rfl rfl rfl (by simp [driver]) (by simp) ⟨⟨_, split⟩, op⟩ ?_
      rw [driver, split]
      rfl
  | reading driver split after =>
      subst split
      exact base_taken base after rfl (change_ops rfl) rfl rfl (by simp [driver]) (by simp) trivial
        (by rw [driver]; rfl) rfl
  | notify driver =>
      rw [Machine.send_eq]
      exact base_moves base rfl rfl rfl (by simp [driver]) (by simp) trivial (by rw [driver]; rfl)
  | others driver alone =>
      exact base_moves base rfl rfl rfl (by simp [driver]) (by simp) trivial (by rw [driver]; rfl)
  | writing driver =>
      exact base_moves base rfl rfl rfl (by simp [driver]) (by simp) trivial (by rw [driver]; rfl)
  | synced driver split after =>
      subst split
      exact base_taken base after rfl (fun _ => rfl) rfl rfl (by simp [driver]) (by simp) trivial
        (by rw [driver]; rfl) rfl
  | sleep driver =>
      exact base_moves base rfl rfl rfl (by simp [driver]) (by simp) trivial (by rw [driver]; rfl)
  | message =>
      rw [Machine.send_eq]
      exact base_congr base rfl rfl rfl
  | takes => exact base_congr base rfl rfl rfl

theorem base_started (memory : Rdscblk) (mail : Int → Option Ptr) (server : Nat → Block) :
    Base (started memory mail server) [] [] ((List.range rdBuffs).map .buffer) :=
  ⟨conserved_rdsopen memory, rfl, by simp, trivial, by simp [started], fun _ => by simp [started]⟩

end Preservation

section Runs

/-- What a run keeps, when each of its steps is orderly and keeps it on top of `Base`. -/
theorem kept {allowed : Machine → Event → Bool}
    {more : Machine → List Ptr → List Ptr → List Ptr → Prop}
    (tidy : ∀ x queue cache free event, allowed x event = true → more x queue cache free →
      orderly x event = true)
    (starts : ∀ memory mail server,
      more (started memory mail server) [] [] ((List.range rdBuffs).map .buffer))
    (steps : ∀ x queue cache free event x' out queue' cache' free', allowed x event = true →
      Base x queue cache free → more x queue cache free →
      Step x queue cache free event x' out queue' cache' free' → more x' queue' cache' free')
    {x : Machine} (reached : Reaches allowed x) :
    ∃ queue cache free, Base x queue cache free ∧ more x queue cache free := by
  induction reached with
  | start memory mail server =>
      exact ⟨_, _, _, base_started memory mail server, starts memory mail server⟩
  | step before may done induction =>
      obtain ⟨queue, cache, free, base, holds⟩ := induction
      obtain ⟨queue', cache', free', step⟩ := act_step base (tidy _ _ _ _ _ may holds) done
      exact ⟨queue', cache', free', base_step base step,
        steps _ _ _ _ _ _ _ _ _ _ may base holds step⟩

end Runs

end Xinu.Rds.Steps
