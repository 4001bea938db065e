import Xinu.Rds.Counting

/-!
# The available buffers

`rd_availsem` counts the buffers that are free, or cached and read by nobody. Two places let it
count more: `rdsprocess` signals it for a block that its reader has not copied, and `rdswrite` takes
a cached buffer when `semreset` refuses to count it.
-/

namespace Xinu.Rds.Available

open Xinu.Rds.Device Xinu.Rds.Driver Xinu.Rds.Lists Xinu.Rds.Steps
open Xinu.Rds.Counting (blank)

set_option autoImplicit false

section Conditions

variable (x : Machine)

/-- `rdsprocess` serves a READ request. -/
def servesRead : Event → Bool
  | .driver =>
      match x.driver with
      | .reading _ => true
      | _ => false
  | _ => false

/-- `rdswrite` takes a cached buffer although `rd_availsem` does not count one. -/
def overdraws : Event → Bool
  | .call _ (.write blk _) =>
      decide (x.avail.count < 1) && searchWrites x.rds blk == some .rtnext &&
        (searchCache x.rds blk).any fun p => p != .ctnext && decide ((x.rds.buff p).rdRefcnt ≤ 0)
  | _ => false

def balances (event : Event) : Bool :=
  ofDriver x event && !servesRead x event && !overdraws x event

end Conditions

/-- The buffers that `rdsbufalloc` can take. -/
def reusable (x : Machine) (cache free : List Ptr) : List Ptr :=
  free ++ cache.filter fun p => (x.rds.buff p).rdRefcnt == 0

/-- What the buffers of a device are at any time. -/
structure Accounted (x : Machine) : Prop extends
    Conserved x.rds (queueOf x.rds) (cacheOf x.rds) (freeOf x.rds) where
  counted : 0 ≤ x.avail.count →
    x.avail.count ≤ (reusable x (cacheOf x.rds) (freeOf x.rds)).length
  found : ∀ pid ∈ x.avail.passed, (rdsbufalloc x.rds).isSome = true

/-- The semaphore has granted and counts the buffers in the cache and on the free list, which nobody
reads. -/
structure Balanced (x : Machine) (cache free : List Ptr) : Prop where
  unread : ∀ p ∈ cache, (x.rds.buff p).rdRefcnt = 0
  sound : x.avail.Sound
  level : x.avail.level = cache.length + free.length

/-- Nobody is served a READ request, and only `rdscontrol` gets an answer. -/
structure Quiet (x : Machine) (queue : List Ptr) : Prop where
  serves : ∀ b, x.driver ≠ .notify b ∧ x.driver ≠ .others b
  copies : ∀ pid calling, x.calls pid = some calling → ∀ c b data,
    calling.place ≠ .cleanup c b data
  syncs : ∀ b ∈ queue, (x.rds.buff b).rdOp = .sync → x.driver ≠ .synced b →
    (∃ since earlier, x.calls (x.rds.buff b).rdPid = some ⟨.sync, .receive b, since, earlier⟩) ∧
      x.mail (x.rds.buff b).rdPid = none
  silent : ∀ pid blk b since earlier,
    x.calls pid = some ⟨.read blk, .receive b, since, earlier⟩ → x.mail pid = none

section Balance

variable {x x' : Machine} {queue cache free queue' cache' free' : List Ptr} {r : Rdscblk} {p : Ptr}
  {f : RdBuff → RdBuff}

theorem balanced_congr (balanced : Balanced x cache free) (rds : x'.rds = x.rds)
    (avail : x'.avail = x.avail) : Balanced x' cache free := by
  refine ⟨?_, ?_, ?_⟩
  · rw [rds]
    exact balanced.unread
  · rw [avail]
    exact balanced.sound
  · rw [avail]
    exact balanced.level

theorem balanced_content (balanced : Balanced x cache free)
    (buffs : x'.rds.buff = change x.rds.buff p f)
    (refcnt : (f (x.rds.buff p)).rdRefcnt = (x.rds.buff p).rdRefcnt)
    (avail : x'.avail = x.avail) : Balanced x' cache free := by
  refine ⟨fun q member => ?_, ?_, ?_⟩
  · rw [buffs]
    by_cases same : q = p
    · subst same
      rw [change_self, refcnt]
      exact balanced.unread q member
    · rw [change_of_ne same]
      exact balanced.unread q member
  · rw [avail]
    exact balanced.sound
  · rw [avail]
    exact balanced.level

theorem not_in_cache {buff : Ptr → RdBuff} (after : After r buff (queue ++ [p]) cache' free') :
    p ∉ cache' := by
  have nodup := after.nodup
  grind

/-- A process that was granted a buffer takes one. -/
theorem balanced_allocates {pid : Int} {got : Rdscblk} (balanced : Balanced x cache free)
    (passed : pid ∈ x.avail.passed) (allocated : Allocated x.rds queue cache free p got cache' free')
    (after : After r (change x.rds.buff p f) (queue ++ [p]) cache' free') (rds : x'.rds = r)
    (avail : x'.avail = { x.avail with passed := x.avail.passed.erase pid }) :
    Balanced x' cache' free' := by
  subst rds
  have fewer := @Lib.Semaphores.Semaphore.run_level _ x.avail pid _ passed
  have lengths := (taken_perm allocated.toTaken).length_eq
  have level := balanced.level
  simp only [List.length_cons, List.length_append] at lengths
  refine ⟨fun q member => ?_, ?_, ?_⟩
  · have differ : q ≠ p := fun same => not_in_cache after (same ▸ member)
    have was : q ∈ cache ++ free :=
      (taken_perm allocated.toTaken).mem_iff.mp (by simp [member])
    rw [after.buffs, change_of_ne differ]
    rcases allocated.source with ⟨_, rfl⟩ | ⟨_, _, _, front, back, rfl, rfl⟩
    · exact balanced.unread q member
    · exact balanced.unread q (by simp only [List.mem_append, List.mem_cons] at member ⊢; tauto)
  · rw [avail]
    exact balanced.sound
  · rw [avail]
    change (x.avail.run pid).level = _
    rw [fewer]
    omega

/-- A buffer becomes available, and the semaphore is signalled. -/
theorem balanced_signalled (balanced : Balanced x cache free)
    (unread : ∀ q ∈ cache', (x'.rds.buff q).rdRefcnt = 0)
    (more : cache'.length + free'.length = cache.length + free.length + 1)
    (avail : x'.avail = x.avail.signal) : Balanced x' cache' free' := by
  have level := balanced.level
  refine ⟨unread, ?_, ?_⟩
  · rw [avail]
    exact Lib.Semaphores.Semaphore.signal_sound balanced.sound
  · rw [avail, Lib.Semaphores.Semaphore.signal_level balanced.sound]
    omega

/-- `rdswrite` takes a cached buffer and counts it out. -/
theorem balanced_reused {front back : List Ptr} (balanced : Balanced x (front ++ p :: back) free)
    (counted : 1 ≤ x.avail.count)
    (after : After r (change x.rds.buff p f) (queue ++ [p]) (front ++ back) free)
    (rds : x'.rds = r) (avail : x'.avail = x.avail.semreset (x.avail.count - 1)) :
    Balanced x' (front ++ back) free := by
  subst rds
  have sound := balanced.sound
  have level := balanced.level
  unfold Lib.Semaphores.Semaphore.Sound at sound
  have nobody : x.avail.queue = [] := List.length_eq_zero_iff.mp (by omega)
  have resets : x.avail.semreset (x.avail.count - 1) =
      ⟨x.avail.count - 1, [], x.avail.passed⟩ := by
    rw [Lib.Semaphores.Semaphore.semreset, if_neg (by omega), nobody, List.append_nil]
  refine ⟨fun q member => ?_, ?_, ?_⟩
  · have differ : q ≠ p := fun same => not_in_cache after (same ▸ member)
    rw [after.buffs, change_of_ne differ]
    exact balanced.unread q (by simp only [List.mem_append, List.mem_cons] at member ⊢; tauto)
  · rw [avail, resets]
    unfold Lib.Semaphores.Semaphore.Sound
    dsimp only
    rw [List.length_nil]
    omega
  · rw [avail, resets]
    unfold Lib.Semaphores.Semaphore.level at level ⊢
    simp only [nobody, List.length_append, List.length_cons, List.length_nil] at level ⊢
    omega

theorem balanced_step {event : Event} {out : Option Return} (may : balances x event = true)
    (balanced : Balanced x cache free) (quiet : Quiet x queue)
    (step : Step x queue cache free event x' out queue' cache' free') :
    Balanced x' cache' free' := by
  cases step with
  | cached => exact balanced
  | queued => exact balanced
  | waits =>
      refine ⟨balanced.unread, Lib.Semaphores.Semaphore.wait_sound _ balanced.sound, ?_⟩
      exact (Lib.Semaphores.Semaphore.wait_level _).trans balanced.level
  | replaced idle found after => exact balanced_content balanced after.buffs rfl rfl
  | @reused pid blk data p front back r idle new split found unread exhausts after =>
      subst split
      have counted : 1 ≤ x.avail.count := by
        by_contra few
        have overdrawn : overdraws x (.call pid (.write blk data)) = true := by
          simp only [overdraws, exhausts.1, exhausts.2.1, Option.any_some]
          simp only [beq_self_eq_true, Bool.and_true, Bool.and_eq_true, decide_eq_true_eq, bne_iff_ne]
          exact ⟨by omega, exhausts.2.2, unread⟩
        simp [balances, overdrawn] at may
      exact balanced_reused balanced counted after rfl rfl
  | allocatesRead called passed allocated after =>
      exact balanced_allocates balanced passed allocated after rfl rfl
  | allocatesWrite called passed allocated after =>
      exact balanced_allocates balanced passed allocated after rfl rfl
  | allocatesSync called passed allocated after =>
      exact balanced_allocates balanced passed allocated after rfl rfl
  | refused => exact balanced_congr balanced rfl rfl
  | acknowledged => exact balanced_congr balanced rfl rfl
  | copied called mail =>
      rw [quiet.silent _ _ _ _ _ called] at mail
      cases mail
  | returns => exact balanced_congr balanced rfl rfl
  | turns => exact balanced
  | wait => exact balanced_congr balanced rfl rfl
  | serveRead => exact balanced_congr balanced rfl rfl
  | @serveWrite b rest r driver split op after =>
      refine balanced_signalled balanced (fun q member => ?_) ?_ rfl
      · change (r.buff q).rdRefcnt = 0
        rw [after.buffs]
        by_cases same : q = b
        · rw [same, change_self]
        · rw [change_of_ne same]
          exact balanced.unread q ((List.mem_cons.mp member).resolve_left same)
      · rw [List.length_cons]
        omega
  | serveSync =>
      rw [Machine.send_eq]
      exact balanced_congr balanced rfl rfl
  | reading driver => simp [balances, servesRead, driver] at may
  | notify driver => exact ((quiet.serves _).1 driver).elim
  | others driver => exact ((quiet.serves _).2 driver).elim
  | writing => exact balanced_congr balanced rfl rfl
  | @synced b rest r driver split after =>
      refine balanced_signalled balanced (fun q member => ?_) ?_ rfl
      · change (r.buff q).rdRefcnt = 0
        rw [after.buffs]
        exact balanced.unread q member
      · rw [List.length_cons]
        omega
  | sleep => exact balanced_congr balanced rfl rfl
  | message => simp [balances, ofDriver] at may
  | takes => simp [balances, ofDriver] at may

end Balance

section Silence

variable {x x' : Machine} {queue cache free queue' cache' free' : List Ptr} {r : Rdscblk} {p : Ptr}
  {f : RdBuff → RdBuff} {pid : Int}

/-- `rdsprocess` is at neither of the places behind a READ request. -/
def Unread (driver : Service) : Prop := ∀ b, driver ≠ .notify b ∧ driver ≠ .others b

/-- A step of the caller's own changes what is known of it alone. Its requests are answered. -/
theorem quiet_calls (quiet : Quiet x queue) {place : Option Calling} {mail : Option Ptr}
    (rds : x'.rds.buff = x.rds.buff) (driver : x'.driver = x.driver)
    (calls : x'.calls = Function.update x.calls pid place)
    (mails : ∀ other, other ≠ pid → x'.mail other = x.mail other) (own : x'.mail pid = mail)
    (answered : ∀ b ∈ queue, (x.rds.buff b).rdOp = .sync → x.driver ≠ .synced b →
      (x.rds.buff b).rdPid ≠ pid)
    (copies : ∀ calling ∈ place, ∀ c b data, calling.place ≠ .cleanup c b data)
    (silent : ∀ calling ∈ place, ∀ blk b, calling.request = .read blk →
      calling.place = .receive b → mail = none) : Quiet x' queue := by
  refine ⟨?_, fun other calling called => ?_, fun b member op unserved => ?_,
    fun other blk b since earlier called => ?_⟩
  · rw [driver]
    exact quiet.serves
  · rw [calls] at called
    by_cases same : other = pid
    · rw [same, Function.update_self] at called
      exact copies calling called
    · rw [Function.update_of_ne same] at called
      exact quiet.copies other calling called
  · rw [rds] at op ⊢
    rw [driver] at unserved
    have differ := answered b member op unserved
    rw [calls, Function.update_of_ne differ, mails _ differ]
    exact quiet.syncs b member op unserved
  · rw [calls] at called
    by_cases same : other = pid
    · rw [same, Function.update_self] at called
      rw [same, own]
      exact silent _ called blk b rfl rfl
    · rw [Function.update_of_ne same] at called
      rw [mails _ same]
      exact quiet.silent other blk b since earlier called

/-- A process that is not in the queue with a SYNC request: its call is at another place. -/
theorem not_asking (quiet : Quiet x queue) (elsewhere : ∀ b since earlier,
    x.calls pid ≠ some ⟨.sync, .receive b, since, earlier⟩ ∨ x.mail pid ≠ none) :
    ∀ b ∈ queue, (x.rds.buff b).rdOp = .sync → x.driver ≠ .synced b →
      (x.rds.buff b).rdPid ≠ pid := by
  intro b member op unserved same
  obtain ⟨⟨since, earlier, called⟩, empty⟩ := quiet.syncs b member op unserved
  rw [same] at called empty
  rcases elsewhere b since earlier with other | holds
  · exact other called
  · exact holds empty

/-- Requests leave the queue, or `rdsprocess` goes on. -/
theorem quiet_moves (quiet : Quiet x queue) (calls : x'.calls = x.calls) (mail : x'.mail = x.mail)
    (fewer : ∀ b ∈ queue', b ∈ queue)
    (same : ∀ b ∈ queue', (x'.rds.buff b).rdOp = (x.rds.buff b).rdOp ∧
      (x'.rds.buff b).rdPid = (x.rds.buff b).rdPid)
    (serves : Unread x'.driver)
    (unserved : ∀ b ∈ queue', x'.driver ≠ .synced b → x.driver ≠ .synced b) :
    Quiet x' queue' := by
  refine ⟨serves, ?_, fun b member op further => ?_, ?_⟩
  · rw [calls]
    exact quiet.copies
  · obtain ⟨ops, pids⟩ := same b member
    rw [ops] at op
    rw [pids, calls, mail]
    exact quiet.syncs b (fewer b member) op (unserved b member further)
  · rw [calls, mail]
    exact quiet.silent

/-- A request is added to the queue, and `rdsprocess` may be woken. -/
theorem quiet_append (quiet : Quiet x queue)
    (after : After r (change x.rds.buff p f) (queue ++ [p]) cache' free') (rds : x'.rds = r)
    (calls : x'.calls = x.calls) (mail : x'.mail = x.mail)
    (driver : x'.driver = x.driver ∨ x.driver = .blocked ∧ x'.driver = .serve)
    (asked : (f (x.rds.buff p)).rdOp = .sync →
      (∃ since earlier, x.calls (f (x.rds.buff p)).rdPid = some ⟨.sync, .receive p, since, earlier⟩) ∧
        x.mail (f (x.rds.buff p)).rdPid = none) : Quiet x' (queue ++ [p]) := by
  subst rds
  refine ⟨?_, ?_, fun b member op unserved => ?_, ?_⟩
  · rcases driver with same | ⟨_, serves⟩
    · rw [same]
      exact quiet.serves
    · rw [serves]
      exact fun b => ⟨nofun, nofun⟩
  · rw [calls]
    exact quiet.copies
  · rw [after.buffs] at op ⊢
    rw [calls, mail]
    by_cases same : b = p
    · subst same
      rw [change_self] at op ⊢
      exact asked op
    · have was : b ∈ queue := by simpa [same] using member
      rw [change_of_ne same] at op ⊢
      refine quiet.syncs b was op fun isSynced => ?_
      rcases driver with kept | ⟨isBlocked, _⟩
      · exact unserved (kept.trans isSynced)
      · rw [isBlocked] at isSynced
        cases isSynced
  · rw [calls, mail]
    exact quiet.silent

theorem signal_req_driver (x : Machine) (base : Base x queue cache free) :
    x.signalReq.driver = x.driver ∨ x.driver = .blocked ∧ x.signalReq.driver = .serve := by
  by_cases low : x.reqsem < 0
  · refine .inr ⟨?_, if_pos low⟩
    by_contra running
    have counted := base.counted running
    omega
  · exact .inl (if_neg low)

/-- `rdsprocess` answers a SYNC request. -/
theorem quiet_answered {b : Ptr} (quiet : Quiet x queue) (driver : x.driver = .serve)
    (member : b ∈ queue) (op : (x.rds.buff b).rdOp = .sync) :
    Quiet { x.send (x.rds.buff b).rdPid (.word Kernel.State.ok) with driver := .synced b } queue := by
  obtain ⟨⟨since, earlier, called⟩, empty⟩ := quiet.syncs b member op (by simp [driver])
  rw [Machine.send_eq, empty]
  refine ⟨fun c => ⟨nofun, nofun⟩, quiet.copies, fun c inQueue kind unserved => ?_,
    fun pid blk c since earlier reads => ?_⟩
  · obtain ⟨⟨since', earlier', asks⟩, none⟩ := quiet.syncs c inQueue kind (by simp [driver])
    refine ⟨⟨since', earlier', asks⟩, ?_⟩
    have differ : (x.rds.buff c).rdPid ≠ (x.rds.buff b).rdPid := by
      intro same
      rw [same, called] at asks
      cases asks
      exact unserved rfl
    exact (Function.update_of_ne differ _ _).trans none
  · have differ : pid ≠ (x.rds.buff b).rdPid := by
      intro same
      change x.calls pid = _ at reads
      rw [same, called] at reads
      cases reads
    exact (Function.update_of_ne differ _ _).trans (quiet.silent pid blk c since earlier reads)

end Silence

section Runs

variable {x x' : Machine} {queue cache free queue' cache' free' : List Ptr}

theorem update_others (mail : Int → Option Ptr) (pid : Int) (other : Int) (differ : other ≠ pid) :
    Function.update mail pid none other = mail other := Function.update_of_ne differ _ _

theorem quiet_step {event : Event} {out : Option Return} (may : balances x event = true)
    (base : Base x queue cache free) (quiet : Quiet x queue)
    (step : Step x queue cache free event x' out queue' cache' free') : Quiet x' queue' := by
  -- a process at `rd_availsem`, or in no call, has no request in the queue
  have away : ∀ pid, (∀ b request since earlier,
      x.calls pid ≠ some ⟨request, .receive b, since, earlier⟩) →
      ∀ b ∈ queue, (x.rds.buff b).rdOp = .sync → x.driver ≠ .synced b →
        (x.rds.buff b).rdPid ≠ pid :=
    fun pid elsewhere => not_asking quiet fun b since earlier =>
      .inl (elsewhere b .sync since earlier)
  cases step with
  | cached => exact quiet
  | queued => exact quiet
  | @waits pid request idle =>
      exact quiet_calls quiet rfl rfl rfl (fun _ _ => rfl) rfl (away pid (by simp [idle]))
        (fun _ made => by cases made; nofun) fun _ made _ _ _ place => by cases made; cases place
  | @replaced pid blk data p r idle found after =>
      refine quiet_moves quiet rfl rfl (fun _ member => member) (fun b _ => ?_) quiet.serves
        fun _ _ unserved => unserved
      change (r.buff b).rdOp = _ ∧ (r.buff b).rdPid = _
      rw [after.buffs]
      by_cases same : b = p
      · rw [same, change_self]
        exact ⟨rfl, rfl⟩
      · rw [change_of_ne same]
        exact ⟨rfl, rfl⟩
  | reused idle new split found unread exhausts after =>
      exact quiet_append quiet after rfl rfl rfl (signal_req_driver x base) nofun
  | @allocatesRead pid blk since earlier p cache' free' got r called passed allocated after =>
      have ready : Quiet ((x.recvclr pid).setCall pid
          (some ⟨.read blk, .receive p, since, earlier⟩)) queue :=
        quiet_calls quiet rfl rfl rfl (update_others x.mail pid) (Function.update_self _ _ _)
          (away pid (by simp [called])) (fun _ made => by cases made; nofun) fun _ _ _ _ _ _ => rfl
      exact quiet_append ready after rfl rfl rfl (signal_req_driver x base) nofun
  | @allocatesWrite pid blk since earlier data p cache' free' got r called passed allocated after =>
      have ready : Quiet (x.setCall pid none) queue :=
        quiet_calls quiet rfl rfl rfl (fun _ _ => rfl) rfl (away pid (by simp [called])) nofun nofun
      exact quiet_append ready after rfl rfl rfl (signal_req_driver x base) nofun
  | @allocatesSync pid since earlier p cache' free' got r called passed allocated after =>
      have ready : Quiet ((x.recvclr pid).setCall pid
          (some ⟨.sync, .receive p, since, earlier⟩)) queue :=
        quiet_calls quiet rfl rfl rfl (update_others x.mail pid) (Function.update_self _ _ _)
          (away pid (by simp [called])) (fun _ made => by cases made; nofun)
          fun _ made _ _ reads _ => by cases made; cases reads
      exact quiet_append ready after rfl rfl rfl (.inl rfl) fun _ =>
        ⟨⟨since, earlier, Function.update_self _ _ _⟩, Function.update_self _ _ _⟩
  | refused called mail =>
      rw [quiet.silent _ _ _ _ _ called] at mail
      cases mail
  | @acknowledged pid request since earlier b msg called other mail =>
      exact quiet_calls quiet rfl rfl rfl (update_others x.mail pid) (Function.update_self _ _ _)
        (not_asking quiet fun _ _ _ => .inr (by simp [mail])) nofun nofun
  | copied called mail =>
      rw [quiet.silent _ _ _ _ _ called] at mail
      cases mail
  | returns called => exact absurd rfl (quiet.copies _ _ called _ _ _)
  | turns => exact quiet
  | wait driver =>
      refine quiet_moves quiet rfl rfl (fun _ member => member) (fun _ _ => ⟨rfl, rfl⟩) ?_
        fun _ _ _ => by simp [driver]
      intro b
      dsimp only
      split_ifs
      · exact ⟨nofun, nofun⟩
      · exact ⟨nofun, nofun⟩
  | serveRead driver =>
      exact quiet_moves quiet rfl rfl (fun _ member => member) (fun _ _ => ⟨rfl, rfl⟩)
        (fun _ => ⟨nofun, nofun⟩) fun _ _ _ => by simp [driver]
  | @serveWrite b rest r driver split op after =>
      subst split
      refine quiet_moves quiet rfl rfl (fun _ member => List.mem_cons_of_mem _ member)
        (fun q _ => ?_) (fun _ => ⟨nofun, nofun⟩) fun _ _ _ => by simp [driver]
      change (r.buff q).rdOp = _ ∧ (r.buff q).rdPid = _
      rw [after.buffs]
      by_cases same : q = b
      · rw [same, change_self]
        exact ⟨rfl, rfl⟩
      · rw [change_of_ne same]
        exact ⟨rfl, rfl⟩
  | serveSync driver split op =>
      exact quiet_answered quiet driver (by simp [split]) op
  | reading driver => simp [balances, servesRead, driver] at may
  | notify driver => exact ((quiet.serves _).1 driver).elim
  | others driver => exact ((quiet.serves _).2 driver).elim
  | writing driver =>
      exact quiet_moves quiet rfl rfl (fun _ member => member) (fun _ _ => ⟨rfl, rfl⟩)
        (fun _ => ⟨nofun, nofun⟩) fun _ _ _ => by simp [driver]
  | @synced b rest r driver split after =>
      subst split
      have nodup := base.nodup
      refine quiet_moves quiet rfl rfl (fun _ member => List.mem_cons_of_mem _ member)
        (fun q _ => ?_) (fun _ => ⟨nofun, nofun⟩) fun q member _ => ?_
      · change (r.buff q).rdOp = _ ∧ (r.buff q).rdPid = _
        rw [after.buffs]
        exact ⟨rfl, rfl⟩
      · rw [driver]
        rintro same
        cases same
        simp [member] at nodup
  | sleep driver =>
      exact quiet_moves quiet rfl rfl (fun _ member => member) (fun _ _ => ⟨rfl, rfl⟩)
        (fun _ => ⟨nofun, nofun⟩) fun _ _ _ => by simp [driver]
  | message => simp [balances, ofDriver] at may
  | takes => simp [balances, ofDriver] at may

/-- The lists keep all buffers when nobody is served a READ request. -/
theorem balances_orderly {event : Event} (may : balances x event = true) (quiet : Quiet x queue) :
    orderly x event = true := by
  have pigs : piggyBacks x event = false := by
    cases event with
    | driver =>
        unfold piggyBacks
        cases driver : x.driver with
        | others b => exact ((quiet.serves b).2 driver).elim
        | _ => rfl
    | _ => rfl
  have links : unlinks x event = false := by
    cases event with
    | step pid =>
        cases called : x.calls pid with
        | none => simp [unlinks, called]
        | some calling =>
            obtain ⟨request, place, since, earlier⟩ := calling
            cases place with
            | cleanup c b data => exact absurd rfl (quiet.copies pid _ called c b data)
            | avail => simp [unlinks, called]
            | receive b => simp [unlinks, called]
    | _ => rfl
  rw [orderly, pigs, links]
  rfl

theorem accounted {queue cache free : List Ptr} (base : Base x queue cache free)
    (balanced : Balanced x cache free) : Accounted x := by
  obtain ⟨queues, caches, frees⟩ := walks base.toConserved
  have level := balanced.level
  have all : (reusable x cache free).length = cache.length + free.length := by
    have unread : cache.filter (fun p => (x.rds.buff p).rdRefcnt == 0) = cache :=
      List.filter_eq_self.mpr fun p member => by simp [balanced.unread p member]
    rw [reusable, unread, List.length_append, Nat.add_comm]
  refine ⟨?_, fun nonneg => ?_, fun pid passed => ?_⟩
  · rw [queues, caches, frees]
    exact base.toConserved
  · rw [caches, frees, all]
    have counts := Lib.Semaphores.Semaphore.count_le_level balanced.sound nonneg
    omega
  · refine rdsbufalloc_some base.toConserved ?_
    have sound := balanced.sound
    have positive := List.length_pos_of_mem passed
    unfold Lib.Semaphores.Semaphore.Sound at sound
    unfold Lib.Semaphores.Semaphore.level at level
    cases free with
    | cons first rest => exact .inl (List.cons_ne_nil _ _)
    | nil =>
        cases cache with
        | nil =>
            simp only [List.length_nil] at level
            omega
        | cons first rest =>
            have unread := balanced.unread first List.mem_cons_self
            exact .inr ⟨first, List.mem_cons_self, Int.le_of_eq unread⟩

end Runs

section Results

variable {x : Machine}

end Results

end Xinu.Rds.Available
