import Xinu.Rds.Counting

/-!
# The messages of the remote disk

A process that has queued a request waits for one message. While no other process sends it one, the
message is the answer to its own request, and the request of every process is in one place.
-/

namespace Xinu.Rds.Messages

open Xinu.Kernel.State (sysErr ok)
open Xinu.Rds.Counting (blank)
open Xinu.Rds.Device Xinu.Rds.Driver Xinu.Rds.Lists Xinu.Rds.Steps

set_option autoImplicit false

/-- Another process sends a message to a process that waits for the answer to its request. -/
def interferes (x : Machine) : Event → Bool
  | .send pid _ =>
      match x.calls pid with
      | some ⟨_, .receive _, _, _⟩ => true
      | _ => false
  | _ => false

section Places

variable (x : Machine) (queue cache : List Ptr) (pid : Int)

/-- The request has not been answered. -/
structure Requested (b : Ptr) (op : RdOp) : Prop where
  member : b ∈ queue
  owner : (x.rds.buff b).rdPid = pid
  operation : (x.rds.buff b).rdOp = op
  unserved : x.driver ≠ .synced b ∧ x.driver ≠ .notify b
  empty : x.mail pid = none

/-- The block has been read and is kept for the process. -/
structure Filled (b : Ptr) (blk earlier : Nat) : Prop where
  member : b ∈ cache
  owner : (x.rds.buff b).rdPid = pid
  refcnt : (x.rds.buff b).rdRefcnt = 1
  blknum : (x.rds.buff b).rdBlknum = blk
  filled : ⟨b, blk, (x.rds.buff b).rdBlock⟩ ∈ x.fills.drop earlier
  told : x.mail pid = none ∧ x.driver = .notify b ∨ x.mail pid = some b ∧ x.driver ≠ .notify b

/-- The SYNC request has been answered. -/
structure Acknowledged (b : Ptr) : Prop where
  told : x.mail pid = some (.word ok)
  served : b ∈ queue → (x.rds.buff b).rdPid = pid → (x.rds.buff b).rdOp ≠ .write →
    x.driver = .synced b

/-- Where the request of a process is that waits for a message. -/
def Stage (calling : Calling) (b : Ptr) : Prop :=
  match calling.request with
  | .read blk => Requested x queue pid b .read ∧ (x.rds.buff b).rdBlknum = blk ∨
      Filled x cache pid b blk calling.earlier
  | .sync => Requested x queue pid b .sync ∨ Acknowledged x queue pid b
  | .write _ _ => False

/-- What holds of the calls of a process. -/
structure AwaitedBy : Prop where
  early : ∀ calling, x.calls pid = some calling → calling.earlier ≤ x.fills.length
  stage : ∀ calling b, x.calls pid = some calling → calling.place = .receive b →
    Stage x queue cache pid calling b
  copied : ∀ calling c b data, x.calls pid = some calling → calling.place = .cleanup c b data →
    ∃ blk, calling.request = .read blk ∧ ⟨b, blk, data⟩ ∈ x.fills.drop calling.earlier
  asked : ∀ b ∈ queue, (x.rds.buff b).rdPid = pid → (x.rds.buff b).rdOp ≠ .write →
    x.driver ≠ .synced b → ∃ calling, x.calls pid = some calling ∧ calling.place = .receive b
  notified : ∀ b, x.driver = .notify b → (x.rds.buff b).rdPid = pid →
    ∃ calling blk, x.calls pid = some calling ∧ calling.place = .receive b ∧
      calling.request = .read blk

def Awaited : Prop := ∀ pid, AwaitedBy x queue cache pid

end Places

section Frames

variable {x x' : Machine} {queue cache free queue' cache' free' : List Ptr} {pid : Int} {p : Ptr}

/-- A step that keeps a process waiting for the message that it waits for. -/
structure Still (x x' : Machine) (pid : Int) : Prop where
  callers : ∀ calling b, x.calls pid = some calling → calling.place = .receive b →
    x'.calls pid = some calling ∧ x'.mail pid = x.mail pid
  calls : ∀ calling, x'.calls pid = some calling →
    x.calls pid = some calling ∨ calling.place = .avail ∧ calling.earlier ≤ x.fills.length

/-- A step after which `rdsprocess` answers the same requests of a process. -/
structure Moves (x x' : Machine) (pid : Int) : Prop where
  syncs : ∀ b, (x.rds.buff b).rdPid = pid → (x'.driver = .synced b ↔ x.driver = .synced b)
  notifies : ∀ b, (x.rds.buff b).rdPid = pid → (x'.driver = .notify b ↔ x.driver = .notify b)

/-- A step that leaves the calls of a process and their requests alone. -/
structure Frame (x : Machine) (queue cache : List Ptr) (x' : Machine) (queue' cache' : List Ptr)
    (pid : Int) : Prop extends Still x x' pid, Moves x x' pid where
  queued : ∀ b ∈ queue, (x.rds.buff b).rdPid = pid → (x.rds.buff b).rdOp ≠ .write →
    b ∈ queue' ∧ x'.rds.buff b = x.rds.buff b
  requested : ∀ b ∈ queue', (x'.rds.buff b).rdPid = pid → (x'.rds.buff b).rdOp ≠ .write →
    b ∈ queue ∧ (x.rds.buff b).rdPid = pid ∧ (x.rds.buff b).rdOp ≠ .write
  cached : ∀ b ∈ cache, (x.rds.buff b).rdPid = pid → (x.rds.buff b).rdRefcnt = 1 →
    b ∈ cache' ∧ x'.rds.buff b = x.rds.buff b
  owners : ∀ b, x'.driver = .notify b → (x'.rds.buff b).rdPid = pid →
    (x.rds.buff b).rdPid = pid
  fills : x.fills <+: x'.fills

theorem fills_drop {fills fills' : List Fill} {fill : Fill} {earlier : Nat}
    (further : fills <+: fills') (member : fill ∈ fills.drop earlier) :
    fill ∈ fills'.drop earlier := by
  obtain ⟨more, rfl⟩ := further
  rw [List.drop_append]
  exact List.mem_append_left _ member

theorem requested_frame {b : Ptr} {op : RdOp} (frame : Frame x queue cache x' queue' cache' pid)
    (requested : Requested x queue pid b op) (kind : op ≠ .write)
    (mail : x'.mail pid = x.mail pid) :
    Requested x' queue' pid b op ∧ x'.rds.buff b = x.rds.buff b := by
  obtain ⟨member, owner, operation, unserved, empty⟩ := requested
  obtain ⟨stays, same⟩ := frame.queued b member owner (by rw [operation]; exact kind)
  refine ⟨⟨stays, ?_, ?_, ?_, mail.trans empty⟩, same⟩
  · rw [same]
    exact owner
  · rw [same]
    exact operation
  · exact ⟨fun isSynced => unserved.1 ((frame.syncs b owner).mp isSynced),
      fun isNotify => unserved.2 ((frame.notifies b owner).mp isNotify)⟩

theorem filled_frame {b : Ptr} {blk earlier : Nat}
    (frame : Frame x queue cache x' queue' cache' pid)
    (filled : Filled x cache pid b blk earlier) (mail : x'.mail pid = x.mail pid) :
    Filled x' cache' pid b blk earlier := by
  obtain ⟨member, owner, refcnt, blknum, isFilled, told⟩ := filled
  obtain ⟨stays, same⟩ := frame.cached b member owner refcnt
  have notifies := frame.notifies b owner
  refine ⟨stays, ?_, ?_, ?_, ?_, ?_⟩
  · rw [same]
    exact owner
  · rw [same]
    exact refcnt
  · rw [same]
    exact blknum
  · rw [same]
    exact fills_drop frame.fills isFilled
  · rw [mail, ne_eq, notifies]
    exact told

theorem acknowledged_frame {b : Ptr} (frame : Frame x queue cache x' queue' cache' pid)
    (acknowledged : Acknowledged x queue pid b) (mail : x'.mail pid = x.mail pid) :
    Acknowledged x' queue' pid b := by
  refine ⟨mail.trans acknowledged.told, fun member owner kind => ?_⟩
  obtain ⟨was, owned, op⟩ := frame.requested b member owner kind
  exact (frame.syncs b owned).mpr (acknowledged.served was owned op)

theorem awaitedBy_frame (awaited : AwaitedBy x queue cache pid)
    (frame : Frame x queue cache x' queue' cache' pid) : AwaitedBy x' queue' cache' pid := by
  refine ⟨fun calling called => ?_, fun calling b called place => ?_,
    fun calling c b data called place => ?_, fun b member owner kind unserved => ?_,
    fun b driver owner => ?_⟩
  · have length := frame.fills.length_le
    rcases frame.calls calling called with before | ⟨-, early⟩
    · exact Nat.le_trans (awaited.early calling before) length
    · exact Nat.le_trans early length
  · have before := (frame.calls calling called).resolve_right (by simp [place])
    have mail := (frame.callers calling b before place).2
    have stage := awaited.stage calling b before place
    unfold Stage at stage ⊢
    split at stage
    · rcases stage with ⟨requested, blknum⟩ | filled
      · obtain ⟨still, same⟩ := requested_frame frame requested (by simp) mail
        exact .inl ⟨still, by rw [same]; exact blknum⟩
      · exact .inr (filled_frame frame filled mail)
    · rcases stage with requested | acknowledged
      · exact .inl (requested_frame frame requested (by simp) mail).1
      · exact .inr (acknowledged_frame frame acknowledged mail)
    · exact stage
  · have before := (frame.calls calling called).resolve_right (by simp [place])
    obtain ⟨blk, request, filled⟩ := awaited.copied calling c b data before place
    exact ⟨blk, request, fills_drop frame.fills filled⟩
  · obtain ⟨was, owned, op⟩ := frame.requested b member owner kind
    obtain ⟨calling, called, place⟩ := awaited.asked b was owned op fun isSynced =>
      unserved ((frame.syncs b owned).mpr isSynced)
    exact ⟨calling, (frame.callers calling b called place).1, place⟩
  · have owned := frame.owners b driver owner
    obtain ⟨calling, blk, called, place, request⟩ :=
      awaited.notified b ((frame.notifies b owned).mp driver) owned
    exact ⟨calling, blk, (frame.callers calling b called place).1, place, request⟩

theorem still_same (calls : x'.calls pid = x.calls pid) (mail : x'.mail pid = x.mail pid) :
    Still x x' pid :=
  ⟨fun _ _ called _ => ⟨calls.trans called, mail⟩, fun _ called => .inl (calls.symm.trans called)⟩

/-- A process that does not wait for a message leaves its call. -/
theorem still_leaves (waits : ∀ calling b, x.calls pid = some calling → calling.place ≠ .receive b)
    (leaves : x'.calls pid = none) : Still x x' pid :=
  ⟨fun calling b called place => absurd place (waits calling b called),
    fun _ called => by simp [leaves] at called⟩

/-- `rdsprocess` is not between the answer to a request and the step behind it. -/
def Neutral (driver : Service) : Prop := ∀ b, driver ≠ .synced b ∧ driver ≠ .notify b

theorem moves_same (driver : x'.driver = x.driver) : Moves x x' pid :=
  ⟨fun b _ => by rw [driver], fun b _ => by rw [driver]⟩

theorem moves_neutral (before : Neutral x.driver) (after : Neutral x'.driver) : Moves x x' pid :=
  ⟨fun b _ => iff_of_false (after b).1 (before b).1,
    fun b _ => iff_of_false (after b).2 (before b).2⟩

theorem frame_still (still : Still x x' pid) (moves : Moves x x' pid)
    (buffs : x'.rds.buff = x.rds.buff) (fills : x'.fills = x.fills) :
    Frame x queue cache x' queue cache pid := by
  refine ⟨still, moves, fun b member _ _ => ⟨member, congrFun buffs b⟩,
    fun b member owner kind => ?_, fun b member _ _ => ⟨member, congrFun buffs b⟩,
    fun b _ owner => ?_, fills ▸ List.prefix_rfl⟩
  · rw [buffs] at owner kind
    exact ⟨member, owner, kind⟩
  · rw [buffs] at owner
    exact owner

/-- A buffer is changed that holds no request of the process that is to be answered. -/
theorem frame_change {f : RdBuff → RdBuff} (still : Still x x' pid) (moves : Moves x x' pid)
    (buffs : x'.rds.buff = change x.rds.buff p f)
    (kept : (f (x.rds.buff p)).rdPid = (x.rds.buff p).rdPid ∧
      (f (x.rds.buff p)).rdOp = (x.rds.buff p).rdOp)
    (foreign : p ∈ queue → (x.rds.buff p).rdPid ≠ pid ∨ (x.rds.buff p).rdOp = .write)
    (apart : p ∈ cache → (x.rds.buff p).rdPid ≠ pid)
    (queues : ∀ b, b ≠ p → b ∈ queue → b ∈ queue') (left : ∀ b ∈ queue', b ∈ queue)
    (caches : ∀ b ∈ cache, b ∈ cache') (fills : x.fills <+: x'.fills) :
    Frame x queue cache x' queue' cache' pid := by
  have owners : ∀ b, (x'.rds.buff b).rdPid = (x.rds.buff b).rdPid ∧
      (x'.rds.buff b).rdOp = (x.rds.buff b).rdOp := fun b => by
    rw [buffs]
    by_cases same : b = p
    · rw [same, change_self]
      exact kept
    · rw [change_of_ne same]
      exact ⟨rfl, rfl⟩
  refine ⟨still, moves, fun b member owner kind => ?_, fun b member owner kind => ?_,
    fun b member owner _ => ?_, fun b _ owner => ?_, fills⟩
  · have differ : b ≠ p := by
      rintro rfl
      exact (foreign member).elim (fun other => other owner) kind
    rw [buffs, change_of_ne differ]
    exact ⟨queues b differ member, rfl⟩
  · rw [(owners b).1] at owner
    rw [(owners b).2] at kind
    exact ⟨left b member, owner, kind⟩
  · have differ : b ≠ p := by
      rintro rfl
      exact apart member owner
    rw [buffs, change_of_ne differ]
    exact ⟨caches b member, rfl⟩
  · rw [(owners b).1] at owner
    exact owner

end Frames

section Requests

variable {x x' : Machine} {queue cache free cache' free' : List Ptr} {pid : Int} {p : Ptr}
  {f : RdBuff → RdBuff} {r : Rdscblk}

/-- A buffer whose owner is about to be notified is kept for it. -/
theorem notified_filled (awaited : Awaited x queue cache) (driver : x.driver = .notify p) :
    ∃ blk earlier, Filled x cache (x.rds.buff p).rdPid p blk earlier := by
  obtain ⟨calling, blk, called, place, request⟩ := (awaited _).notified p driver rfl
  have stage := (awaited _).stage calling p called place
  rw [Stage, request] at stage
  rcases stage with ⟨requested, -⟩ | filled
  · exact absurd driver requested.unserved.2
  · exact ⟨blk, calling.earlier, filled⟩

/-- What a step does that puts a buffer at the end of the queue. -/
structure Appends (x : Machine) (queue cache : List Ptr) (x' : Machine) (p : Ptr)
    (f : RdBuff → RdBuff) (cache' free' : List Ptr) : Prop where
  after : After x'.rds (change x.rds.buff p f) (queue ++ [p]) cache' free'
  fills : x'.fills = x.fills
  driver : x'.driver = x.driver ∨ x.driver = .blocked ∧ x'.driver = .serve
  kept : ∀ b ∈ cache, (x.rds.buff b).rdRefcnt = 1 → b ∈ cache'

theorem appends_quiet (appends : Appends x queue cache x' p f cache' free')
    (awaited : Awaited x queue cache) : x.driver ≠ .notify p := by
  intro driver
  obtain ⟨blk, earlier, filled⟩ := notified_filled awaited driver
  have member := appends.kept p filled.member filled.refcnt
  have nodup := appends.after.nodup
  grind

theorem appends_moves (appends : Appends x queue cache x' p f cache' free') (b : Ptr) :
    (x'.driver = .synced b ↔ x.driver = .synced b) ∧
      (x'.driver = .notify b ↔ x.driver = .notify b) := by
  rcases appends.driver with same | ⟨blocked, serves⟩
  · rw [same]
    exact ⟨Iff.rfl, Iff.rfl⟩
  · simp [serves, blocked]

/-- A request that another process made, or a write, is put at the end of the queue. -/
theorem frame_append (appends : Appends x queue cache x' p f cache' free')
    (awaited : Awaited x queue cache) (still : Still x x' pid)
    (foreign : (f (x.rds.buff p)).rdPid ≠ pid ∨ (f (x.rds.buff p)).rdOp = .write) :
    Frame x queue cache x' (queue ++ [p]) cache' pid := by
  have absent := not_in_queue appends.after
  have quiet := appends_quiet appends awaited
  have buffs := appends.after.buffs
  refine ⟨still, ⟨fun b _ => (appends_moves appends b).1, fun b _ => (appends_moves appends b).2⟩,
    fun b member _ _ => ⟨List.mem_append_left _ member, ?_⟩, fun b member owner kind => ?_,
    fun b member _ refcnt => ⟨appends.kept b member refcnt, ?_⟩, fun b isNotify owner => ?_,
    appends.fills ▸ List.prefix_rfl⟩
  · rw [buffs, change_of_ne]
    rintro rfl
    exact absent member
  · rw [buffs] at owner kind
    by_cases same : b = p
    · rw [same, change_self] at owner kind
      exact (foreign.elim (fun other => other owner) kind).elim
    · rw [change_of_ne same] at owner kind
      exact ⟨by simpa [same] using member, owner, kind⟩
  · rw [buffs, change_of_ne]
    rintro rfl
    have nodup := appends.after.nodup
    have stays := appends.kept b member refcnt
    grind
  · have differ : b ≠ p := by
      rintro rfl
      exact quiet ((appends_moves appends b).2.mp isNotify)
    rw [buffs, change_of_ne differ] at owner
    exact owner

end Requests

section Requesting

variable {x : Machine} {queue cache free rest : List Ptr} {p b : Ptr}

theorem found_write {blk : Nat} (found : queue.find? (isWrite blk x.rds.buff) = some p) :
    p ∈ queue ∧ (x.rds.buff p).rdBlknum = blk ∧ (x.rds.buff p).rdOp = .write := by
  have isFound := List.find?_some found
  simp only [isWrite, Bool.and_eq_true, beq_iff_eq] at isFound
  exact ⟨List.mem_of_find?_eq_some found, isFound.1, isFound.2⟩

/-- The request that is read is a READ request. -/
theorem reading_op (base : Base x (b :: rest) cache free) (driver : x.driver = .reading b) :
    (x.rds.buff b).rdOp = .read := by
  have serving := base.serving
  rw [driver] at serving
  exact serving.2

theorem synced_op (base : Base x (b :: rest) cache free) (driver : x.driver = .synced b) :
    (x.rds.buff b).rdOp = .sync := by
  have serving := base.serving
  rw [driver] at serving
  exact serving.2

theorem queue_not_cache (base : Base x queue cache free) (inQueue : p ∈ queue) : p ∉ cache := by
  have nodup := base.nodup
  grind

/-- A buffer that is taken out of the cache unread is kept for nobody. -/
theorem kept_unread {front back : List Ptr} (unread : (x.rds.buff p).rdRefcnt ≤ 0)
    (split : cache = front ++ p :: back) :
    ∀ q ∈ cache, (x.rds.buff q).rdRefcnt = 1 → q ∈ front ++ back := by
  intro q member refcnt
  have differ : q ≠ p := by
    rintro rfl
    omega
  simpa [split, differ] using member

end Requesting

section Owners

variable {x x' : Machine} {queue cache free cache' free' : List Ptr} {pid : Int} {p : Ptr}
  {f : RdBuff → RdBuff}

theorem place_unique {calling calling' : Calling} {b b' : Ptr} (called : x.calls pid = some calling)
    (called' : x.calls pid = some calling') (place : calling.place = .receive b)
    (place' : calling'.place = .receive b') : b' = b := by
  obtain rfl := Option.some.inj (called.symm.trans called')
  exact (Place.receive.inj (place.symm.trans place')).symm

/-- The process that puts its request at the end of the queue waits for it. -/
theorem awaitedBy_asks {calling before : Calling} (base : Base x queue cache free)
    (appends : Appends x queue cache x' p f cache' free') (awaited : Awaited x queue cache)
    (called : x.calls pid = some before) (place : before.place = .avail)
    (calls : x'.calls pid = some calling) (asks : calling.place = .receive p)
    (early : calling.earlier = before.earlier) (mail : x'.mail pid = none)
    (owner : (f (x.rds.buff p)).rdPid = pid)
    (stage : Requested x' (queue ++ [p]) pid p (f (x.rds.buff p)).rdOp →
      Stage x' (queue ++ [p]) cache' pid calling p) :
    AwaitedBy x' (queue ++ [p]) cache' pid := by
  have absent := not_in_queue appends.after
  have quiet := appends_quiet appends awaited
  have buffs := appends.after.buffs
  have holds : x'.rds.buff p = f (x.rds.buff p) := by rw [buffs, change_self]
  have unserved : x.driver ≠ .synced p := fun driver => by
    have serving := base.serving
    rw [driver] at serving
    obtain ⟨⟨rest, rfl⟩, -⟩ := serving
    exact absent List.mem_cons_self
  have moves := appends_moves appends
  have nowhere : ∀ calling b, x.calls pid = some calling → calling.place ≠ .receive b := by
    intro calling b isCalled isPlace
    obtain rfl := Option.some.inj (called.symm.trans isCalled)
    simp [place] at isPlace
  refine ⟨fun c isCall => ?_, fun c b isCall isPlace => ?_, fun c a b data isCall isPlace => ?_,
    fun b member owned kind waits => ?_, fun b driver owned => ?_⟩
  · obtain rfl := Option.some.inj (calls.symm.trans isCall)
    rw [early, appends.fills]
    exact (awaited pid).early before called
  · obtain rfl := Option.some.inj (calls.symm.trans isCall)
    obtain rfl := Place.receive.inj (asks.symm.trans isPlace)
    refine stage ⟨by simp, by rw [holds, owner], by rw [holds], ?_, mail⟩
    exact ⟨fun driver => unserved ((moves p).1.mp driver),
      fun driver => quiet ((moves p).2.mp driver)⟩
  · obtain rfl := Option.some.inj (calls.symm.trans isCall)
    simp [asks] at isPlace
  · by_cases same : b = p
    · exact ⟨calling, calls, same ▸ asks⟩
    · rw [buffs, change_of_ne same] at owned kind
      obtain ⟨c, isCall, isPlace⟩ := (awaited pid).asked b (by simpa [same] using member) owned kind
        fun driver => waits ((moves b).1.mpr driver)
      exact absurd isPlace (nowhere c b isCall)
  · have was := (moves b).2.mp driver
    have differ : b ≠ p := by
      rintro rfl
      exact quiet was
    rw [buffs, change_of_ne differ] at owned
    obtain ⟨c, blk, isCall, isPlace, -⟩ := (awaited pid).notified b was owned
    exact absurd isPlace (nowhere c b isCall)

/-- When a process has a message, the answer to its request has been sent. -/
theorem told_served {calling : Calling} {b msg : Ptr} (base : Base x queue cache free)
    (awaited : AwaitedBy x queue cache pid) (called : x.calls pid = some calling)
    (place : calling.place = .receive b) (mail : x.mail pid = some msg) :
    (∀ q ∈ queue, (x.rds.buff q).rdPid = pid → (x.rds.buff q).rdOp ≠ .write →
      x.driver = .synced q) ∧ ∀ q, x.driver = .notify q → (x.rds.buff q).rdPid ≠ pid := by
  have stage := awaited.stage calling b called place
  unfold Stage at stage
  refine ⟨fun q member owner kind => ?_, fun q driver owner => ?_⟩
  · by_contra waits
    obtain ⟨other, isCall, isPlace⟩ := awaited.asked q member owner kind waits
    obtain rfl := place_unique called isCall place isPlace
    split at stage
    · rcases stage with ⟨requested, -⟩ | filled
      · simp [requested.empty] at mail
      · exact queue_not_cache base member filled.member
    · rcases stage with requested | acknowledged
      · simp [requested.empty] at mail
      · exact waits (acknowledged.served member owner kind)
    · exact stage
  · obtain ⟨other, blk, isCall, isPlace, request⟩ := awaited.notified q driver owner
    obtain rfl := place_unique called isCall place isPlace
    obtain rfl := Option.some.inj (called.symm.trans isCall)
    rw [request] at stage
    rcases stage with ⟨requested, -⟩ | filled
    · simp [requested.empty] at mail
    · rcases filled.told with ⟨empty, -⟩ | ⟨-, done⟩
      · simp [empty] at mail
      · exact done driver

/-- A process that takes a message for the address of a buffer takes the one that was filled for
it. -/
theorem copied_filled {blk since earlier : Nat} {b msg : Ptr}
    (awaited : AwaitedBy x queue cache pid)
    (called : x.calls pid = some ⟨.read blk, .receive b, since, earlier⟩)
    (mail : x.mail pid = some msg) : msg = b ∧ Filled x cache pid b blk earlier := by
  rcases awaited.stage _ b called rfl with ⟨requested, -⟩ | filled
  · simp [requested.empty] at mail
  · rcases filled.told with ⟨empty, -⟩ | ⟨told, -⟩
    · simp [empty] at mail
    · exact ⟨Option.some.inj (mail.symm.trans told), filled⟩

/-- A process takes its message, and holds no request afterwards. -/
theorem awaitedBy_takes {calling : Calling} {b msg : Ptr} (base : Base x queue cache free)
    (awaited : AwaitedBy x queue cache pid) (called : x.calls pid = some calling)
    (place : calling.place = .receive b) (mail : x.mail pid = some msg)
    (driver : x'.driver = x.driver) (fills : x'.fills = x.fills)
    (owners : ∀ q, (x'.rds.buff q).rdPid = (x.rds.buff q).rdPid ∧
      (x'.rds.buff q).rdOp = (x.rds.buff q).rdOp)
    (calls : ∀ c, x'.calls pid = some c → c.earlier = calling.earlier ∧ ∃ a d data blk,
      c.place = .cleanup a d data ∧ c.request = .read blk ∧
        ⟨d, blk, data⟩ ∈ x.fills.drop c.earlier) : AwaitedBy x' queue cache pid := by
  obtain ⟨served, silent⟩ := told_served base awaited called place mail
  refine ⟨fun c isCall => ?_, fun c q isCall isPlace => ?_, fun c a q data isCall isPlace => ?_,
    fun q member owner kind waits => ?_, fun q isNotify owner => ?_⟩
  · rw [(calls c isCall).1, fills]
    exact awaited.early calling called
  · obtain ⟨-, a, d, data, blk, cleanup, -⟩ := calls c isCall
    simp [cleanup] at isPlace
  · obtain ⟨-, a', d, data', blk, cleanup, request, filled⟩ := calls c isCall
    rw [cleanup] at isPlace
    cases isPlace
    exact ⟨blk, request, fills ▸ filled⟩
  · rw [(owners q).1] at owner
    rw [(owners q).2] at kind
    exact absurd (driver.trans (served q member owner kind)) waits
  · rw [(owners q).1] at owner
    exact absurd owner (silent q (driver.symm.trans isNotify))

end Owners

section Answers

variable {x x' : Machine} {queue cache free : List Ptr} {pid : Int} {b : Ptr} {rest : List Ptr}

/-- `rdsprocess` answers a SYNC request. -/
theorem awaitedBy_synced (base : Base x queue cache free) (awaited : AwaitedBy x queue cache pid)
    (driver : x.driver = .serve) (member : b ∈ queue) (op : (x.rds.buff b).rdOp = .sync)
    (owner : (x.rds.buff b).rdPid = pid) (calls : x'.calls = x.calls)
    (mail : x'.mail pid = (x.mail pid).or (some (.word ok))) (rds : x'.rds = x.rds)
    (moves : x'.driver = .synced b) (fills : x'.fills = x.fills) :
    AwaitedBy x' queue cache pid := by
  obtain ⟨calling, called, place⟩ := awaited.asked b member owner (by simp [op]) (by simp [driver])
  have stage := awaited.stage calling b called place
  have acknowledged : Stage x' queue cache pid calling b := by
    unfold Stage at stage ⊢
    split at stage
    · rcases stage with ⟨requested, -⟩ | filled
      · have kind := requested.operation
        simp [op] at kind
      · exact absurd filled.member (queue_not_cache base member)
    · rcases stage with requested | told
      · exact .inr ⟨by rw [mail, requested.empty]; rfl, fun _ _ _ => moves⟩
      · have was := told.served member owner (by simp [op])
        simp [driver] at was
    · exact stage
  refine ⟨fun c isCall => ?_, fun c q isCall isPlace => ?_, fun c a q data isCall isPlace => ?_,
    fun q inQueue owned kind waits => ?_, fun q isNotify => by simp [moves] at isNotify⟩
  · rw [fills]
    exact awaited.early c (calls ▸ isCall)
  · rw [calls] at isCall
    obtain rfl := place_unique called isCall place isPlace
    obtain rfl := Option.some.inj (called.symm.trans isCall)
    exact acknowledged
  · rw [calls] at isCall
    obtain rfl := Option.some.inj (called.symm.trans isCall)
    simp [place] at isPlace
  · rw [rds] at owned kind
    obtain ⟨c, isCall, isPlace⟩ := awaited.asked q inQueue owned kind (by simp [driver])
    obtain rfl := place_unique called isCall place isPlace
    exact absurd moves waits

/-- `rdsprocess` has read a block for a process. -/
theorem awaitedBy_reads {r : Rdscblk} {data : Block} {blk : Nat}
    (base : Base x (b :: rest) cache free) (awaited : AwaitedBy x (b :: rest) cache pid)
    (driver : x.driver = .reading b) (owner : (x.rds.buff b).rdPid = pid)
    (blknum : (x.rds.buff b).rdBlknum = blk)
    (buffs : r.buff = change x.rds.buff b fun buff => { buff with rdBlock := data, rdRefcnt := 1 })
    (calls : x'.calls = x.calls) (mail : x'.mail = x.mail) (rds : x'.rds = r)
    (moves : x'.driver = .notify b) (fills : x'.fills = x.fills ++ [⟨b, blk, data⟩]) :
    AwaitedBy x' rest (b :: cache) pid := by
  have op := reading_op base driver
  have nodup := base.nodup
  have alone : b ∉ rest ∧ b ∉ cache := by grind
  subst rds
  have holds : x'.rds.buff b = { x.rds.buff b with rdBlock := data, rdRefcnt := 1 } := by
    rw [buffs, change_self]
  obtain ⟨calling, called, place⟩ := awaited.asked b List.mem_cons_self owner (by simp [op])
    (by simp [driver])
  have stage := awaited.stage calling b called place
  have early := awaited.early calling called
  have requests : calling.request = .read blk ∧ x.mail pid = none := by
    unfold Stage at stage
    split at stage
    · rename_i asked isRequest
      rcases stage with ⟨requested, same⟩ | filled
      · exact ⟨isRequest.trans (by rw [← same, blknum]), requested.empty⟩
      · exact absurd filled.member alone.2
    · rcases stage with requested | told
      · have kind := requested.operation
        simp [op] at kind
      · have was := told.served List.mem_cons_self owner (by simp [op])
        simp [driver] at was
    · exact stage.elim
  have filled : Filled x' (b :: cache) pid b blk calling.earlier := by
    refine ⟨List.mem_cons_self, by rw [holds]; exact owner, by rw [holds],
      by rw [holds]; exact blknum, ?_, .inl ⟨by rw [mail]; exact requests.2, moves⟩⟩
    rw [holds, fills, List.drop_append_of_le_length early]
    exact List.mem_append_right _ (List.mem_singleton.mpr rfl)
  refine ⟨fun c isCall => ?_, fun c q isCall isPlace => ?_, fun c a q data isCall isPlace => ?_,
    fun q inQueue owned kind waits => ?_, fun q isNotify owned => ?_⟩
  · rw [fills, List.length_append]
    exact Nat.le_add_right_of_le (awaited.early c (calls ▸ isCall))
  · rw [calls] at isCall
    obtain rfl := place_unique called isCall place isPlace
    obtain rfl := Option.some.inj (called.symm.trans isCall)
    rw [Stage, requests.1]
    exact .inr filled
  · rw [calls] at isCall
    obtain rfl := Option.some.inj (called.symm.trans isCall)
    simp [place] at isPlace
  · have differ : q ≠ b := by
      rintro rfl
      exact alone.1 inQueue
    rw [buffs, change_of_ne differ] at owned kind
    obtain ⟨c, isCall, isPlace⟩ := awaited.asked q (List.mem_cons_of_mem _ inQueue) owned kind
      (by simp [driver])
    exact absurd (place_unique called isCall place isPlace) differ
  · obtain rfl : b = q := Service.notify.inj (moves.symm.trans isNotify)
    exact ⟨calling, blk, by rw [calls]; exact called, place, requests.1⟩

/-- `rdsprocess` tells a process where its block is. -/
theorem awaitedBy_notified (base : Base x queue cache free)
    (awaited : AwaitedBy x queue cache pid) (driver : x.driver = .notify b)
    (owner : (x.rds.buff b).rdPid = pid) (calls : x'.calls = x.calls)
    (mail : x'.mail pid = (x.mail pid).or (some b)) (rds : x'.rds = x.rds)
    (moves : x'.driver = .others b) (fills : x'.fills = x.fills) :
    AwaitedBy x' queue cache pid := by
  obtain ⟨calling, blk, called, place, request⟩ := awaited.notified b driver owner
  have stage := awaited.stage calling b called place
  rw [Stage, request] at stage
  have filled : Filled x cache pid b blk calling.earlier := by
    rcases stage with ⟨requested, -⟩ | filled
    · exact absurd driver requested.unserved.2
    · exact filled
  have told : x'.mail pid = some b := by
    rcases filled.told with ⟨empty, -⟩ | ⟨-, done⟩
    · rw [mail, empty]
      rfl
    · exact absurd driver done
  refine ⟨fun c isCall => ?_, fun c q isCall isPlace => ?_, fun c a q data isCall isPlace => ?_,
    fun q inQueue owned kind _ => ?_, fun q isNotify => by simp [moves] at isNotify⟩
  · rw [fills]
    exact awaited.early c (calls ▸ isCall)
  · rw [calls] at isCall
    obtain rfl := place_unique called isCall place isPlace
    obtain rfl := Option.some.inj (called.symm.trans isCall)
    rw [Stage, request]
    refine .inr ⟨filled.member, ?_, ?_, ?_, ?_, .inr ⟨told, by simp [moves]⟩⟩
    · rw [rds]
      exact owner
    · rw [rds]
      exact filled.refcnt
    · rw [rds]
      exact filled.blknum
    · rw [rds, fills]
      exact filled.filled
  · rw [calls] at isCall
    obtain rfl := Option.some.inj (called.symm.trans isCall)
    simp [place] at isPlace
  · rw [rds] at owned kind
    obtain ⟨c, isCall, isPlace⟩ := awaited.asked q inQueue owned kind (by simp [driver])
    obtain rfl := place_unique called isCall place isPlace
    exact absurd filled.member (queue_not_cache base inQueue)

/-- `rdsprocess` releases the buffer of a SYNC request that it has answered. -/
theorem awaitedBy_released (base : Base x (b :: rest) cache free)
    (awaited : AwaitedBy x (b :: rest) cache pid) (driver : x.driver = .synced b)
    (buffs : x'.rds.buff = x.rds.buff) (calls : x'.calls = x.calls) (mail : x'.mail = x.mail)
    (moves : x'.driver = .sleep) (fills : x'.fills = x.fills) : AwaitedBy x' rest cache pid := by
  have nodup := base.nodup
  have alone : b ∉ rest := by grind
  have serves : ∀ q ∈ rest, x.driver ≠ .synced q := by
    intro q member isSynced
    obtain rfl : b = q := Service.synced.inj (driver.symm.trans isSynced)
    exact alone member
  have waits : ∀ q op, Requested x (b :: rest) pid q op → Requested x' rest pid q op := by
    intro q op requested
    have differ : q ≠ b := by
      rintro rfl
      exact requested.unserved.1 driver
    refine ⟨by simpa [differ] using requested.member, ?_, ?_, ?_, ?_⟩
    · rw [buffs]
      exact requested.owner
    · rw [buffs]
      exact requested.operation
    · simp [moves]
    · rw [mail]
      exact requested.empty
  refine ⟨fun c isCall => ?_, fun c q isCall isPlace => ?_, fun c a q data isCall isPlace => ?_,
    fun q member owned kind _ => ?_, fun q isNotify => by simp [moves] at isNotify⟩
  · rw [fills]
    exact awaited.early c (calls ▸ isCall)
  · have stage := awaited.stage c q (calls ▸ isCall) isPlace
    unfold Stage at stage ⊢
    split at stage
    · rcases stage with ⟨requested, blknum⟩ | filled
      · exact .inl ⟨waits _ _ requested, by rw [buffs]; exact blknum⟩
      · refine .inr ⟨filled.member, ?_, ?_, ?_, ?_, ?_⟩
        · rw [buffs]
          exact filled.owner
        · rw [buffs]
          exact filled.refcnt
        · rw [buffs]
          exact filled.blknum
        · rw [buffs, fills]
          exact filled.filled
        · have told := filled.told
          simp only [driver, reduceCtorEq, and_false, false_or] at told
          exact .inr ⟨by rw [mail]; exact told.1, by simp [moves]⟩
    · rcases stage with requested | told
      · exact .inl (waits _ _ requested)
      · refine .inr ⟨by rw [mail]; exact told.told, fun member owned kind => ?_⟩
        rw [buffs] at owned kind
        exact absurd (told.served (List.mem_cons_of_mem _ member) owned kind) (serves q member)
    · exact stage
  · rw [fills]
    exact awaited.copied c a q data (calls ▸ isCall) isPlace
  · rw [buffs] at owned kind
    rw [calls]
    exact awaited.asked q (List.mem_cons_of_mem _ member) owned kind (serves q member)

end Answers

section Preservation

variable {x x' : Machine} {queue cache free queue' cache' free' : List Ptr} {pid : Int} {p : Ptr}
  {f : RdBuff → RdBuff}

theorem moves_waking (base : Base x queue cache free)
    (driver : x'.driver = if x.reqsem < 0 then .serve else x.driver) :
    x'.driver = x.driver ∨ x.driver = .blocked ∧ x'.driver = .serve := by
  split_ifs at driver with negative
  · refine .inr ⟨?_, driver⟩
    by_contra running
    have counted := base.counted running
    omega
  · exact .inl driver

/-- `rdsbufalloc` takes no buffer that is kept for a process. -/
theorem kept_taken (taken : Taken x.rds cache free p cache' free') :
    ∀ b ∈ cache, (x.rds.buff b).rdRefcnt = 1 → b ∈ cache' := by
  intro b member refcnt
  rcases taken.source with ⟨-, rfl⟩ | ⟨-, -, unread, front, back, rfl, rfl⟩
  · exact member
  · exact kept_unread unread rfl b member refcnt

/-- A step that changes no buffer. -/
theorem awaited_still (awaited : Awaited x queue cache) (still : ∀ pid, Still x x' pid)
    (moves : ∀ pid, Moves x x' pid) (buffs : x'.rds.buff = x.rds.buff) (fills : x'.fills = x.fills) :
    Awaited x' queue cache :=
  fun pid => awaitedBy_frame (awaited pid) (frame_still (still pid) (moves pid) buffs fills)

/-- A message to a process that does not wait for one, or that takes one. -/
theorem still_mail (waits : ∀ calling b, x.calls pid = some calling → calling.place ≠ .receive b)
    (calls : x'.calls = x.calls) (mail : ∀ q ≠ pid, x'.mail q = x.mail q) (q : Int) :
    Still x x' q := by
  refine ⟨fun calling b called place => ⟨by rw [calls]; exact called, ?_⟩,
    fun calling called => .inl (calls ▸ called)⟩
  refine mail q ?_
  rintro rfl
  exact waits calling b called place

/-- Another process than `pid` goes on with its call. -/
theorem still_other {q : Int} (differ : q ≠ pid) {calling : Option Calling}
    (calls : x'.calls = Function.update x.calls pid calling)
    (mail : ∀ q ≠ pid, x'.mail q = x.mail q) : Still x x' q :=
  still_same (by rw [calls, Function.update_of_ne differ]) (mail q differ)

/-- What holds between the messages of the processes and their requests is kept by an orderly step
in which nobody sends a message to a process that waits for an answer. -/
theorem awaited_step {event : Event} {out : Option Return} (may : interferes x event = false)
    (base : Base x queue cache free) (awaited : Awaited x queue cache)
    (step : Step x queue cache free event x' out queue' cache' free') :
    Awaited x' queue' cache' := by
  have nodup := base.nodup
  cases step with
  | cached => exact awaited
  | queued => exact awaited
  | @waits pid request idle =>
      refine awaited_still awaited (fun q => ?_) (fun _ => moves_same rfl) rfl rfl
      by_cases same : q = pid
      · subst same
        refine ⟨fun _ _ called _ => by simp [idle] at called, fun c isCall => .inr ?_⟩
        simp only [waitAvail, Function.update_self, Option.some.injEq] at isCall
        subst isCall
        exact ⟨rfl, Nat.le_refl _⟩
      · exact still_other same rfl fun _ _ => rfl
  | @replaced pid blk data p r idle found after =>
      obtain ⟨member, -, op⟩ := found_write found
      exact fun q => awaitedBy_frame (awaited q) (frame_change (still_same rfl rfl)
        (moves_same rfl) after.buffs ⟨rfl, rfl⟩ (fun _ => .inr op)
        (fun inCache => absurd inCache (queue_not_cache base member)) (fun _ _ inQueue => inQueue)
        (fun _ inQueue => inQueue) (fun _ inCache => inCache) List.prefix_rfl)
  | @reused pid blk data p front back r idle new split found unread exhausts after =>
      have appends : Appends x queue cache
          ({ x with rds := r, avail := x.avail.semreset (x.avail.count - 1) }.accept blk
            data).signalReq p (fun _ => writeBuff pid blk data) (front ++ back) free :=
        ⟨after, rfl, moves_waking base rfl, kept_unread unread split⟩
      exact fun q => awaitedBy_frame (awaited q) (frame_append appends awaited (still_same rfl rfl)
        (.inr rfl))
  | @allocatesRead pid blk since earlier p cache' free' got r called passed allocated after =>
      have appends : Appends x queue cache
          (({ x with
              rds := r
              avail := { x.avail with passed := x.avail.passed.erase pid } }.recvclr
            pid).signalReq.setCall pid (some ⟨.read blk, .receive p, since, earlier⟩)) p
          (readBuff pid blk) cache' free' :=
        ⟨after, rfl, moves_waking base rfl, kept_taken allocated.toTaken⟩
      intro q
      by_cases same : q = pid
      · subst same
        refine awaitedBy_asks base appends awaited called rfl (Function.update_self _ _ _) rfl rfl
          (Function.update_self _ _ _) rfl fun requested => .inl ⟨requested, ?_⟩
        change (r.buff p).rdBlknum = blk
        rw [after.buffs, change_self]
        rfl
      · exact awaitedBy_frame (awaited q) (frame_append appends awaited
          (still_other same rfl fun _ differ => Function.update_of_ne differ _ _)
          (.inl fun owner => same owner.symm))
  | @allocatesWrite pid blk since earlier data p cache' free' got r called passed allocated after =>
      have appends : Appends x queue cache
          (({ x with
              rds := r
              avail := { x.avail with passed := x.avail.passed.erase pid } }.accept blk
            data).signalReq.setCall pid none) p (fun _ => writeBuff pid blk data) cache' free' :=
        ⟨after, rfl, moves_waking base rfl, kept_taken allocated.toTaken⟩
      intro q
      refine awaitedBy_frame (awaited q) (frame_append appends awaited ?_ (.inr rfl))
      by_cases same : q = pid
      · subst same
        refine still_leaves (fun c b isCall => ?_) (Function.update_self _ _ _)
        obtain rfl := Option.some.inj (called.symm.trans isCall)
        simp
      · exact still_other same rfl fun _ _ => rfl
  | @allocatesSync pid since earlier p cache' free' got r called passed allocated after =>
      have appends : Appends x queue cache
          (({ x with
              rds := r
              avail := { x.avail with passed := x.avail.passed.erase pid } }.recvclr pid).setCall
            pid (some ⟨.sync, .receive p, since, earlier⟩)) p (syncBuff pid) cache' free' :=
        ⟨after, rfl, .inl rfl, kept_taken allocated.toTaken⟩
      intro q
      by_cases same : q = pid
      · subst same
        exact awaitedBy_asks base appends awaited called rfl (Function.update_self _ _ _) rfl rfl
          (Function.update_self _ _ _) rfl .inl
      · exact awaitedBy_frame (awaited q) (frame_append appends awaited
          (still_other same rfl fun _ differ => Function.update_of_ne differ _ _)
          (.inl fun owner => same owner.symm))
  | @refused pid blk since earlier b called mail =>
      intro q
      by_cases same : q = pid
      · subst same
        exact awaitedBy_takes base (awaited q) called rfl mail rfl rfl (fun _ => ⟨rfl, rfl⟩)
          fun c isCall => by simp [Machine.setCall] at isCall
      · exact awaitedBy_frame (awaited q) (frame_still
          (still_other same rfl fun _ differ => Function.update_of_ne differ _ _) (moves_same rfl)
          rfl rfl)
  | @acknowledged pid request since earlier b msg called other mail =>
      intro q
      by_cases same : q = pid
      · subst same
        exact awaitedBy_takes base (awaited q) called rfl mail rfl rfl (fun _ => ⟨rfl, rfl⟩)
          fun c isCall => by simp [Machine.setCall] at isCall
      · exact awaitedBy_frame (awaited q) (frame_still
          (still_other same rfl fun _ differ => Function.update_of_ne differ _ _) (moves_same rfl)
          rfl rfl)
  | @copied pid blk since earlier b msg place out r called mail after next =>
      obtain ⟨rfl, filled⟩ := copied_filled (awaited pid) called mail
      intro q
      by_cases same : q = pid
      · subst same
        refine awaitedBy_takes base (awaited q) called rfl mail rfl rfl (fun b => ?_)
          fun c isCall => ?_
        · change (r.buff b).rdPid = _ ∧ (r.buff b).rdOp = _
          rw [after.buffs]
          by_cases isMsg : b = msg
          · rw [isMsg, change_self]
            exact ⟨rfl, rfl⟩
          · rw [change_of_ne isMsg]
            exact ⟨rfl, rfl⟩
        · simp only [Machine.setCall, Function.update_self] at isCall
          rcases next with ⟨rfl, -⟩ | ⟨-, cptr, rfl⟩
          · simp at isCall
          · obtain rfl := Option.some.inj isCall
            exact ⟨rfl, cptr, msg, _, blk, rfl, rfl, filled.filled⟩
      · exact awaitedBy_frame (awaited q) (frame_change
          (still_other same rfl fun _ differ => Function.update_of_ne differ _ _) (moves_same rfl)
          after.buffs ⟨rfl, rfl⟩
          (fun inQueue => absurd filled.member (queue_not_cache base inQueue))
          (fun _ owner => same (owner.symm.trans filled.owner)) (fun _ _ inQueue => inQueue)
          (fun _ inQueue => inQueue) (fun _ inCache => inCache) List.prefix_rfl)
  | @returns pid request since earlier c b data called =>
      refine awaited_still awaited (fun q => ?_) (fun _ => moves_same rfl) rfl rfl
      by_cases same : q = pid
      · subst same
        refine still_leaves (fun a d isCall => ?_) (Function.update_self _ _ _)
        obtain rfl := Option.some.inj (called.symm.trans isCall)
        simp
      · exact still_other same rfl fun _ _ => rfl
  | turns => exact awaited
  | wait driver =>
      refine awaited_still awaited (fun _ => still_same rfl rfl) (fun _ => moves_neutral ?_ ?_)
        rfl rfl
      · simp [Neutral, driver]
      · intro b
        dsimp only
        split_ifs <;> exact ⟨nofun, nofun⟩
  | serveRead driver =>
      exact awaited_still awaited (fun _ => still_same rfl rfl)
        (fun _ => moves_neutral (by simp [Neutral, driver]) fun _ => ⟨nofun, nofun⟩) rfl rfl
  | @serveWrite b rest r driver split op after =>
      subst split
      refine fun q => awaitedBy_frame (awaited q) (frame_change (still_same rfl rfl)
        (moves_neutral (by simp [Neutral, driver]) fun _ => ⟨nofun, nofun⟩) after.buffs ⟨rfl, rfl⟩
        (fun _ => .inr op)
        (fun inCache => absurd inCache (queue_not_cache base List.mem_cons_self))
        (fun p differ member => ?_) (fun p member => List.mem_cons_of_mem _ member)
        (fun p member => List.mem_cons_of_mem _ member) List.prefix_rfl)
      exact (List.mem_cons.mp member).resolve_left differ
  | @serveSync b rest driver split op =>
      intro q
      rw [Machine.send_eq]
      by_cases same : (x.rds.buff b).rdPid = q
      · subst same
        exact awaitedBy_synced base (awaited _) driver (by simp [split]) op rfl rfl
          (Function.update_self _ _ _) rfl rfl rfl
      · refine awaitedBy_frame (awaited q) (frame_still
          (still_same rfl (Function.update_of_ne (Ne.symm same) _ _))
          ⟨fun p owner => ?_, fun p _ => by simp [driver]⟩ rfl rfl)
        have differ : b ≠ p := by
          rintro rfl
          exact same owner
        simp [driver, differ]
  | @reading b rest r driver split after =>
      subst split
      intro q
      by_cases same : (x.rds.buff b).rdPid = q
      · exact awaitedBy_reads base (awaited q) driver same rfl after.buffs rfl rfl rfl rfl rfl
      · refine awaitedBy_frame (awaited q) (frame_change (still_same rfl rfl)
          ⟨fun p _ => by simp [driver], fun p owner => ?_⟩ after.buffs ⟨rfl, rfl⟩
          (fun _ => .inl same) (fun _ => same) (fun p differ member => ?_)
          (fun p member => List.mem_cons_of_mem _ member)
          (fun p member => List.mem_cons_of_mem _ member) (List.prefix_append _ _))
        · have differ : b ≠ p := by
            rintro rfl
            exact same owner
          simp [driver, differ]
        · exact (List.mem_cons.mp member).resolve_left differ
  | @notify b driver =>
      intro q
      rw [Machine.send_eq]
      by_cases same : (x.rds.buff b).rdPid = q
      · subst same
        exact awaitedBy_notified base (awaited _) driver rfl rfl (Function.update_self _ _ _) rfl
          rfl rfl
      · refine awaitedBy_frame (awaited q) (frame_still
          (still_same rfl (Function.update_of_ne (Ne.symm same) _ _))
          ⟨fun p _ => by simp [driver], fun p owner => ?_⟩ rfl rfl)
        have differ : b ≠ p := by
          rintro rfl
          exact same owner
        simp [driver, differ]
  | others driver =>
      exact awaited_still awaited (fun _ => still_same rfl rfl)
        (fun _ => moves_neutral (by simp [Neutral, driver]) fun _ => ⟨nofun, nofun⟩) rfl rfl
  | writing driver =>
      exact awaited_still awaited (fun _ => still_same rfl rfl)
        (fun _ => moves_neutral (by simp [Neutral, driver]) fun _ => ⟨nofun, nofun⟩) rfl rfl
  | @synced b rest r driver split after =>
      subst split
      exact fun q => awaitedBy_released base (awaited q) driver after.buffs rfl rfl rfl rfl
  | sleep driver =>
      exact awaited_still awaited (fun _ => still_same rfl rfl)
        (fun _ => moves_neutral (by simp [Neutral, driver]) fun _ => ⟨nofun, nofun⟩) rfl rfl
  | @message pid msg =>
      rw [Machine.send_eq]
      refine awaited_still awaited (still_mail (fun c b called place => ?_) rfl
        fun _ differ => Function.update_of_ne differ _ _) (fun _ => moves_same rfl) rfl rfl
      obtain ⟨request, at_, since, earlier⟩ := c
      subst place
      simp [interferes, called] at may
  | @takes pid idle =>
      exact awaited_still awaited (still_mail (fun c b called => by simp [idle] at called) rfl
        fun _ differ => Function.update_of_ne differ _ _) (fun _ => moves_same rfl) rfl rfl

end Preservation

section Results

variable {x x' : Machine} {ret : Return}

/-- A call of `rdsread` that has waited for a message returns the data of a buffer that `rdsprocess`
has filled for its block since the call began. -/
def Answered (x : Machine) (ret : Return) : Prop :=
  ∀ blk data, ret.calling.request = .read blk → ret.calling.place ≠ .avail →
    ret.result = .read data → ∃ b, ⟨b, blk, data⟩ ∈ x.fills.drop ret.calling.earlier

/-- An orderly step in which no process is sent a message while it waits for its answer. -/
def undisturbed (x : Machine) (event : Event) : Bool := orderly x event && !interferes x event

theorem awaited_started (memory : Rdscblk) (mail : Int → Option Ptr) (server : Nat → Block) :
    Awaited (started memory mail server) [] [] :=
  fun _ => ⟨by simp [started], by simp [started], by simp [started], by simp, by simp [started]⟩

theorem awaited_reached (reached : Reaches undisturbed x) :
    ∃ queue cache free, Base x queue cache free ∧ Awaited x queue cache :=
  @kept undisturbed (fun x queue cache _ => Awaited x queue cache)
    (fun _ _ _ _ _ may _ => (Bool.and_eq_true_iff.mp may).1)
    (fun memory mail server => awaited_started memory mail server)
    (fun _ _ _ _ _ _ _ _ _ _ may base awaited step =>
      awaited_step (by simpa using (Bool.and_eq_true_iff.mp may).2) base awaited step) x reached

/-- What a step of a process returns, when its requests are answered in order. -/
theorem answered_step {event : Event} {queue cache free queue' cache' free' : List Ptr}
    (awaited : Awaited x queue cache)
    (step : Step x queue cache free event x' (some ret) queue' cache' free') : Answered x ret := by
  intro blk data request place result
  cases step with
  | cached => exact absurd rfl place
  | queued => exact absurd rfl place
  | replaced => cases result
  | reused => cases result
  | allocatesWrite => cases result
  | refused => cases result
  | acknowledged => cases result
  | @copied pid asked since earlier b msg at_ out r called mail after next =>
      obtain ⟨rfl, filled⟩ := copied_filled (awaited pid) called mail
      rcases next with ⟨-, isRet⟩ | ⟨none, -⟩
      · obtain rfl := Option.some.inj isRet
        cases request
        cases result
        exact ⟨msg, filled.filled⟩
      · cases none
  | @returns pid asks since earlier c b copied called =>
      obtain ⟨asked, isRead, filled⟩ := (awaited pid).copied _ c b copied called rfl
      cases isRead.symm.trans request
      cases result
      exact ⟨b, filled⟩

/-- The memory in which the word that is read as the reference count at address 3 is 2. -/
def memoryWithCount : Rdscblk where
  rdState := .free
  rdNext := fun _ => .null
  rdPrev := fun _ => .null
  buff := fun p => ⟨.other, if p = .word 3 then 2 else 0, 0, .invalid, 0, fun _ => 0⟩
  rdFree := .null

/-- The step copies a block from the address that a message gives. -/
def copies : Return → Bool
  | ⟨_, ⟨.read _, .receive _, _, _⟩, .read _⟩ => true
  | _ => false

theorem copies_read (copied : copies ret = true) : ∃ blk data,
    ret.calling.request = .read blk ∧ ret.calling.place ≠ .avail ∧ ret.result = .read data := by
  unfold copies at copied
  split at copied
  · exact ⟨_, _, rfl, by simp, rfl⟩
  · simp at copied

end Results

end Xinu.Rds.Messages
