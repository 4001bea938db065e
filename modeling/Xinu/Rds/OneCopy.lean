import Xinu.Rds.Messages

/-!
# One copy of each block

A block can be in the cache and in the request queue at once. As long as a write request is put into
the queue only when the block has no other one and no valid copy in the cache, `rdsread` returns
data that is as new as the last write that was accepted before it began.
-/

namespace Xinu.Rds.OneCopy

open Xinu.Rds.Counting (blank)
open Xinu.Rds.Device Xinu.Rds.Driver Xinu.Rds.Lists Xinu.Rds.Steps Xinu.Rds.Messages

set_option autoImplicit false

section Conditions

variable (x : Machine)

def isValid (blk : Nat) (buff : Ptr → RdBuff) (p : Ptr) : Bool :=
  (buff p).rdBlknum == blk && (buff p).rdStatus == .valid

/-- A write request that is put into the queue is the only one for its block, and the cache has no
valid copy of the block besides the buffer that is reused for the request. -/
def writesAlone : Event → Bool
  | .step pid =>
      match x.calls pid with
      | some ⟨.write blk _, .avail, _, _⟩ =>
          !(queueOf x.rds).any (isWrite blk x.rds.buff) &&
            !(cacheOf x.rds).any (isValid blk x.rds.buff)
      | _ => true
  | .call _ (.write blk _) =>
      match (cacheOf x.rds).find? (same blk x.rds.buff) with
      | some p => decide (0 < (x.rds.buff p).rdRefcnt) ||
          (cacheOf x.rds).all fun q => q == p || !isValid blk x.rds.buff q
      | none => true
  | _ => true

def coherent (event : Event) : Bool := undisturbed x event && writesAlone x event

end Conditions

section Invariant

variable (x : Machine)

/-- What the server has when `rdsprocess` has carried out the write that it is at. -/
def arriving (blk : Nat) : Block :=
  match x.driver with
  | .writing written data => if written = blk then data else x.server blk
  | _ => x.server blk

/-- The block has a write request in these nodes. -/
def Written (nodes : List Ptr) (blk : Nat) : Prop :=
  ∃ q ∈ nodes, (x.rds.buff q).rdOp = .write ∧ (x.rds.buff q).rdBlknum = blk

/-- The data is the last that was accepted for the block. -/
def Latest (blk : Nat) (data : Block) : Prop := (x.log blk).getLast? = some data

/-- The data was accepted for the block, and nothing newer before the call began. -/
def Fresh (blk since : Nat) (data : Block) : Prop :=
  ∃ j, since ≤ j + 1 ∧ (x.log blk)[j]? = some data

/-- The copies of the blocks. -/
structure Copies (queue cache : List Ptr) : Prop where
  cached : ∀ p ∈ cache, (x.rds.buff p).rdStatus = .valid →
    ¬Written x queue (x.rds.buff p).rdBlknum ∧
      Latest x (x.rds.buff p).rdBlknum (x.rds.buff p).rdBlock
  queued : ∀ p ∈ queue, (x.rds.buff p).rdOp = .write →
    Latest x (x.rds.buff p).rdBlknum (x.rds.buff p).rdBlock
  single : ∀ p ∈ queue, ∀ q ∈ queue, (x.rds.buff p).rdOp = .write → (x.rds.buff q).rdOp = .write →
    (x.rds.buff p).rdBlknum = (x.rds.buff q).rdBlknum → p = q
  reads : ∀ p ∈ queue, (x.rds.buff p).rdOp = .read → (x.rds.buff p).rdStatus = .invalid
  settled : ∀ blk, ¬Written x queue blk → Latest x blk (arriving x blk)

/-- What a request reads that has these nodes ahead of it is fresh. -/
def Coming (nodes : List Ptr) (blk since : Nat) : Prop :=
  Written x nodes blk ∨ Fresh x blk since (arriving x blk)

/-- What a process reads is fresh. -/
structure FreshBy (queue cache : List Ptr) (pid : Int) : Prop where
  began : ∀ blk place since earlier, x.calls pid = some ⟨.read blk, place, since, earlier⟩ →
    since ≤ (x.log blk).length
  waits : ∀ blk since earlier, x.calls pid = some ⟨.read blk, .avail, since, earlier⟩ →
    Coming x queue blk since
  asked : ∀ blk b since earlier, x.calls pid = some ⟨.read blk, .receive b, since, earlier⟩ →
    ∀ front back, queue = front ++ b :: back → Coming x front blk since
  filled : ∀ blk b since earlier, x.calls pid = some ⟨.read blk, .receive b, since, earlier⟩ →
    b ∈ cache → Fresh x blk since (x.rds.buff b).rdBlock
  copied : ∀ blk c b data since earlier,
    x.calls pid = some ⟨.read blk, .cleanup c b data, since, earlier⟩ → Fresh x blk since data

end Invariant

section Logs

variable {x x' : Machine} {blk since : Nat} {data : Block} {nodes nodes' queue cache : List Ptr}

theorem latest_fresh (latest : Latest x blk data) (began : since ≤ (x.log blk).length) :
    Fresh x blk since data := by
  unfold Latest at latest
  rw [List.getLast?_eq_getElem?] at latest
  exact ⟨_, by omega, latest⟩

theorem fresh_further (log : x.log blk <+: x'.log blk) (fresh : Fresh x blk since data) :
    Fresh x' blk since data := by
  obtain ⟨j, least, has⟩ := fresh
  obtain ⟨more, same⟩ := log
  refine ⟨j, least, ?_⟩
  rw [← same, List.getElem?_append_left (List.getElem?_eq_some_iff.mp has).1]
  exact has

theorem written_mono (kept : ∀ q ∈ nodes, (x.rds.buff q).rdOp = .write →
    q ∈ nodes' ∧ (x'.rds.buff q).rdOp = .write ∧
      (x'.rds.buff q).rdBlknum = (x.rds.buff q).rdBlknum)
    (written : Written x nodes blk) : Written x' nodes' blk := by
  obtain ⟨q, member, op, blknum⟩ := written
  obtain ⟨stays, op', blknum'⟩ := kept q member op
  exact ⟨q, stays, op', blknum'.trans blknum⟩

theorem coming_mono (kept : ∀ q ∈ nodes, (x.rds.buff q).rdOp = .write →
    q ∈ nodes' ∧ (x'.rds.buff q).rdOp = .write ∧
      (x'.rds.buff q).rdBlknum = (x.rds.buff q).rdBlknum)
    (log : x.log blk <+: x'.log blk) (arrives : arriving x' blk = arriving x blk)
    (coming : Coming x nodes blk since) : Coming x' nodes' blk since := by
  rcases coming with written | fresh
  · exact .inl (written_mono kept written)
  · rw [Coming, arrives]
    exact .inr (fresh_further log fresh)

/-- What is read for a call that begins is fresh. -/
theorem coming_latest (copies : Copies x queue cache) (began : since ≤ (x.log blk).length) :
    Coming x queue blk since := by
  by_cases written : Written x queue blk
  · exact .inl written
  · exact .inr (latest_fresh (copies.settled blk written) began)

/-- `rdsprocess` is not at a write. -/
def Unwriting (driver : Service) : Prop := ∀ blk data, driver ≠ .writing blk data

theorem arriving_server (unwriting : Unwriting x.driver) : arriving x blk = x.server blk := by
  unfold arriving
  split
  · rename_i written data driver
    exact absurd driver (unwriting written data)
  · rfl

theorem arriving_same (before : Unwriting x.driver) (after : Unwriting x'.driver)
    (server : x'.server = x.server) : arriving x' blk = arriving x blk := by
  rw [arriving_server before, arriving_server after, server]

/-- `rdsprocess` waits for a request. -/
theorem arriving_waits {reqsem : Int} (driver : x.driver = .wait) (server : x'.server = x.server)
    (moves : x'.driver = if reqsem < 0 then .blocked else .serve) :
    arriving x' blk = arriving x blk := by
  refine arriving_same (by simp [Unwriting, driver]) (fun written data => ?_) server
  rw [moves]
  split_ifs
  · nofun
  · nofun

/-- `rdsprocess` has carried out a write. -/
theorem arriving_written {written : Nat} (before : x.driver = .writing written data)
    (after : x'.driver = .sleep) (server : x'.server = Function.update x.server written data) :
    arriving x' blk = arriving x blk := by
  rw [arriving_server (by simp [Unwriting, after]), server, arriving, before]
  dsimp only
  split_ifs with same
  · rw [same, Function.update_self]
  · rw [Function.update_of_ne (Ne.symm same)]

theorem arriving_congr (driver : x'.driver = x.driver) (server : x'.server = x.server) :
    arriving x' blk = arriving x blk := by
  rw [arriving, arriving, driver, server]

end Logs

section Copying

variable {x x' : Machine} {queue cache queue' cache' free' rest : List Ptr} {p b : Ptr} {blk : Nat}
  {f : RdBuff → RdBuff}

/-- The buffers hold the same of the block. -/
structure Alike (buff buff' : RdBuff) : Prop where
  op : buff'.rdOp = buff.rdOp
  blknum : buff'.rdBlknum = buff.rdBlknum
  status : buff'.rdStatus = buff.rdStatus
  block : buff'.rdBlock = buff.rdBlock

theorem alike_rfl {buff : RdBuff} : Alike buff buff := ⟨rfl, rfl, rfl, rfl⟩

theorem alike_change {buff : Ptr → RdBuff} (alike : Alike (buff p) (f (buff p))) (q : Ptr) :
    Alike (buff q) (change buff p f q) := by
  by_cases same : q = p
  · rw [same, change_self]
    exact alike
  · rw [change_of_ne same]
    exact alike_rfl

theorem alike_other {buff : Ptr → RdBuff} {q : Ptr} (differ : q ≠ p) :
    Alike (buff q) (change buff p f q) := by
  rw [change_of_ne differ]
  exact alike_rfl

/-- A step that changes no write request and no valid copy. -/
theorem copies_kept (copies : Copies x queue cache)
    (kept : ∀ q ∈ queue, (x.rds.buff q).rdOp = .write →
      q ∈ queue' ∧ Alike (x.rds.buff q) (x'.rds.buff q))
    (queued : ∀ q ∈ queue', q ∈ queue ∧ Alike (x.rds.buff q) (x'.rds.buff q) ∨
      (x'.rds.buff q).rdOp ≠ .write ∧ (x'.rds.buff q).rdStatus = .invalid)
    (cached : ∀ q ∈ cache', (x'.rds.buff q).rdStatus = .valid →
      q ∈ cache ∧ Alike (x.rds.buff q) (x'.rds.buff q))
    (log : x'.log = x.log) (arrives : ∀ blk, arriving x' blk = arriving x blk) :
    Copies x' queue' cache' := by
  have writes : ∀ q ∈ queue', (x'.rds.buff q).rdOp = .write →
      q ∈ queue ∧ Alike (x.rds.buff q) (x'.rds.buff q) := fun q member op =>
    (queued q member).resolve_right fun other => other.1 op
  have iff : ∀ blk, Written x' queue' blk ↔ Written x queue blk := by
    refine fun blk => ⟨fun ⟨q, member, op, blknum⟩ => ?_, fun ⟨q, member, op, blknum⟩ => ?_⟩
    · obtain ⟨was, alike⟩ := writes q member op
      exact ⟨q, was, alike.op.symm.trans op, alike.blknum.symm.trans blknum⟩
    · obtain ⟨stays, alike⟩ := kept q member op
      exact ⟨q, stays, alike.op.trans op, alike.blknum.trans blknum⟩
  refine ⟨fun q member valid => ?_, fun q member op => ?_, fun q member q' member' op op' blknum => ?_,
    fun q member op => ?_, fun blk none => ?_⟩
  · obtain ⟨was, alike⟩ := cached q member valid
    have before := copies.cached q was (alike.status.symm.trans valid)
    rw [alike.blknum, alike.block, iff, Latest, log]
    exact before
  · obtain ⟨was, alike⟩ := writes q member op
    rw [alike.blknum, alike.block, Latest, log]
    exact copies.queued q was (alike.op.symm.trans op)
  · obtain ⟨was, alike⟩ := writes q member op
    obtain ⟨was', alike'⟩ := writes q' member' op'
    rw [alike.blknum, alike'.blknum] at blknum
    exact copies.single q was q' was' (alike.op.symm.trans op) (alike'.op.symm.trans op') blknum
  · rcases queued q member with ⟨was, alike⟩ | ⟨-, invalid⟩
    · exact alike.status.trans (copies.reads q was (alike.op.symm.trans op))
    · exact invalid
  · rw [arrives, Latest, log]
    exact copies.settled blk ((iff blk).not.mp none)

theorem latest_append {data : Block} : (Function.update x.log blk (x.log blk ++ [data]) blk).getLast? =
    some data := by
  rw [Function.update_self, List.getLast?_concat]

/-- A write request is put at the end of the queue. -/
theorem copies_write {pid : Int} {data : Block} (copies : Copies x queue cache)
    (absent : p ∉ queue) (uncached : p ∉ cache') (left : ∀ q ∈ cache', q ∈ cache)
    (buffs : x'.rds.buff = change x.rds.buff p fun _ => writeBuff pid blk data)
    (alone : ¬Written x queue blk)
    (stale : ∀ q ∈ cache', (x.rds.buff q).rdStatus = .valid → (x.rds.buff q).rdBlknum ≠ blk)
    (log : x'.log = Function.update x.log blk (x.log blk ++ [data]))
    (arrives : ∀ blk, arriving x' blk = arriving x blk) : Copies x' (queue ++ [p]) cache' := by
  have holds : x'.rds.buff p = writeBuff pid blk data := by rw [buffs, change_self]
  have others : ∀ q, q ≠ p → x'.rds.buff q = x.rds.buff q := fun q differ => by
    rw [buffs, change_of_ne differ]
  have inQueue : ∀ q ∈ queue, q ≠ p := fun q member same => absent (same ▸ member)
  have inCache : ∀ q ∈ cache', q ≠ p := fun q member same => uncached (same ▸ member)
  have elsewhere : ∀ blk', blk' ≠ blk → x'.log blk' = x.log blk' := fun blk' differ => by
    rw [log, Function.update_of_ne differ]
  have writes : ∀ q ∈ queue, (x.rds.buff q).rdOp = .write → (x.rds.buff q).rdBlknum ≠ blk :=
    fun q member op blknum => alone ⟨q, member, op, blknum⟩
  refine ⟨fun q member valid => ?_, fun q member op => ?_, fun q member q' member' op op' blknum => ?_,
    fun q member op => ?_, fun blk' none => ?_⟩
  · rw [others q (inCache q member)] at valid ⊢
    have differ := stale q member valid
    obtain ⟨unwritten, latest⟩ := copies.cached q (left q member) valid
    refine ⟨?_, by rw [Latest, elsewhere _ differ]; exact latest⟩
    rintro ⟨w, among, op, blknum⟩
    rcases List.mem_append.mp among with was | isP
    · rw [others w (inQueue w was)] at op blknum
      exact unwritten ⟨w, was, op, blknum⟩
    · rw [List.mem_singleton.mp isP, holds] at blknum
      exact differ blknum.symm
  · rcases List.mem_append.mp member with was | isP
    · rw [others q (inQueue q was)] at op ⊢
      rw [Latest, elsewhere _ (writes q was op)]
      exact copies.queued q was op
    · rw [List.mem_singleton.mp isP, holds, Latest, log]
      exact latest_append
  · rcases List.mem_append.mp member with was | isP
    · rw [others q (inQueue q was)] at op blknum
      rcases List.mem_append.mp member' with was' | isP'
      · rw [others q' (inQueue q' was')] at op' blknum
        exact copies.single q was q' was' op op' blknum
      · rw [List.mem_singleton.mp isP', holds] at blknum
        exact absurd blknum (writes q was op)
    · rw [List.mem_singleton.mp isP, holds] at blknum
      rcases List.mem_append.mp member' with was' | isP'
      · rw [others q' (inQueue q' was')] at op' blknum
        exact absurd blknum.symm (writes q' was' op')
      · rw [List.mem_singleton.mp isP, List.mem_singleton.mp isP']
  · rcases List.mem_append.mp member with was | isP
    · rw [others q (inQueue q was)] at op ⊢
      exact copies.reads q was op
    · rw [List.mem_singleton.mp isP, holds] at op
      simp [writeBuff] at op
  · have differ : blk' ≠ blk := by
      rintro rfl
      exact none ⟨p, by simp, by rw [holds]; rfl, by rw [holds]; rfl⟩
    rw [arrives, Latest, elsewhere blk' differ]
    refine copies.settled blk' ?_
    rintro ⟨w, was, op, blknum⟩
    refine none ⟨w, List.mem_append_left _ was, ?_⟩
    rw [others w (inQueue w was)]
    exact ⟨op, blknum⟩

/-- The data of a write request is replaced. -/
theorem copies_replaced {data : Block} (copies : Copies x queue cache) (member : p ∈ queue)
    (uncached : p ∉ cache) (op : (x.rds.buff p).rdOp = .write)
    (blknum : (x.rds.buff p).rdBlknum = blk)
    (buffs : x'.rds.buff = change x.rds.buff p fun buff => { buff with rdBlock := data })
    (log : x'.log = Function.update x.log blk (x.log blk ++ [data]))
    (arrives : ∀ blk, arriving x' blk = arriving x blk) : Copies x' queue cache := by
  have holds : x'.rds.buff p = { x.rds.buff p with rdBlock := data } := by rw [buffs, change_self]
  have others : ∀ q, q ≠ p → x'.rds.buff q = x.rds.buff q := fun q differ => by
    rw [buffs, change_of_ne differ]
  have same : ∀ q, (x'.rds.buff q).rdOp = (x.rds.buff q).rdOp ∧
      (x'.rds.buff q).rdBlknum = (x.rds.buff q).rdBlknum ∧
      (x'.rds.buff q).rdStatus = (x.rds.buff q).rdStatus := fun q => by
    by_cases isP : q = p
    · rw [isP, holds]
      exact ⟨rfl, rfl, rfl⟩
    · rw [others q isP]
      exact ⟨rfl, rfl, rfl⟩
  have inCache : ∀ q ∈ cache, q ≠ p := fun q member same => uncached (same ▸ member)
  have elsewhere : ∀ blk', blk' ≠ blk → x'.log blk' = x.log blk' := fun blk' differ => by
    rw [log, Function.update_of_ne differ]
  have iff : ∀ blk, Written x' queue blk ↔ Written x queue blk := fun blk => by
    simp only [Written, (same _).1, (same _).2.1]
  refine ⟨fun q inList valid => ?_, fun q inList isWrite => ?_,
    fun q inList q' inList' isWrite isWrite' blknums => ?_, fun q inList isRead => ?_,
    fun blk' none => ?_⟩
  · rw [others q (inCache q inList)] at valid ⊢
    obtain ⟨unwritten, latest⟩ := copies.cached q inList valid
    have differ : (x.rds.buff q).rdBlknum ≠ blk := fun isBlk =>
      unwritten ⟨p, member, op, blknum.trans isBlk.symm⟩
    rw [iff, Latest, elsewhere _ differ]
    exact ⟨unwritten, latest⟩
  · by_cases isP : q = p
    · rw [isP, holds, Latest, log]
      dsimp only
      rw [blknum]
      exact latest_append
    · rw [others q isP] at isWrite ⊢
      have differ : (x.rds.buff q).rdBlknum ≠ blk := fun isBlk =>
        isP (copies.single q inList p member isWrite op (isBlk.trans blknum.symm))
      rw [Latest, elsewhere _ differ]
      exact copies.queued q inList isWrite
  · rw [(same q).1] at isWrite
    rw [(same q').1] at isWrite'
    rw [(same q).2.1, (same q').2.1] at blknums
    exact copies.single q inList q' inList' isWrite isWrite' blknums
  · rw [(same q).1] at isRead
    rw [(same q).2.2]
    exact copies.reads q inList isRead
  · have unwritten := (iff blk').not.mp none
    have differ : blk' ≠ blk := by
      rintro rfl
      exact unwritten ⟨p, member, op, blknum⟩
    rw [arrives, Latest, elsewhere blk' differ]
    exact copies.settled blk' unwritten

/-- `rdsprocess` takes a write request off the queue. -/
theorem copies_served (copies : Copies x (b :: rest) cache) (alone : b ∉ rest)
    (op : (x.rds.buff b).rdOp = .write)
    (alike : ∀ q, Alike (x.rds.buff q) (x'.rds.buff q)) (log : x'.log = x.log)
    (waits : Unwriting x.driver) (server : x'.server = x.server)
    (moves : x'.driver = .writing (x.rds.buff b).rdBlknum (x.rds.buff b).rdBlock) :
    Copies x' rest (b :: cache) := by
  have written : ∀ blk, Written x' rest blk → Written x rest blk := by
    rintro blk ⟨q, member, isWrite, blknum⟩
    exact ⟨q, member, (alike q).op.symm.trans isWrite, (alike q).blknum.symm.trans blknum⟩
  have latest := copies.queued b List.mem_cons_self op
  have gone : ¬Written x rest (x.rds.buff b).rdBlknum := by
    rintro ⟨q, member, isWrite, blknum⟩
    have same := copies.single q (List.mem_cons_of_mem _ member) b List.mem_cons_self isWrite op blknum
    exact alone (same ▸ member)
  refine ⟨fun q member valid => ?_, fun q member isWrite => ?_,
    fun q member q' member' isWrite isWrite' blknums => ?_, fun q member isRead => ?_,
    fun blk none => ?_⟩
  · rw [(alike q).blknum, (alike q).block, Latest, log]
    rcases List.mem_cons.mp member with rfl | was
    · exact ⟨fun was => gone (written _ was), latest⟩
    · obtain ⟨unwritten, last⟩ := copies.cached q was ((alike q).status.symm.trans valid)
      refine ⟨fun later => unwritten ?_, last⟩
      obtain ⟨w, among, rest⟩ := written _ later
      exact ⟨w, List.mem_cons_of_mem _ among, rest⟩
  · rw [(alike q).blknum, (alike q).block, Latest, log]
    exact copies.queued q (List.mem_cons_of_mem _ member) ((alike q).op.symm.trans isWrite)
  · rw [(alike q).op] at isWrite
    rw [(alike q').op] at isWrite'
    rw [(alike q).blknum, (alike q').blknum] at blknums
    exact copies.single q (List.mem_cons_of_mem _ member) q' (List.mem_cons_of_mem _ member')
      isWrite isWrite' blknums
  · rw [(alike q).op] at isRead
    rw [(alike q).status]
    exact copies.reads q (List.mem_cons_of_mem _ member) isRead
  · rw [Latest, log, arriving, moves]
    dsimp only
    split_ifs with isBlk
    · rw [← isBlk]
      exact latest
    · rw [server, ← arriving_server waits]
      refine copies.settled blk ?_
      rintro ⟨q, member, isWrite, blknum⟩
      rcases List.mem_cons.mp member with rfl | was
      · exact isBlk blknum
      · exact none ⟨q, was, (alike q).op.trans isWrite, (alike q).blknum.trans blknum⟩

end Copying

section Reading

variable {x x' : Machine} {queue cache free queue' cache' free' rest : List Ptr} {pid : Int}
  {p b : Ptr}

/-- A step after which the calls of a process find what they found before. -/
theorem freshBy_frame (fresh : FreshBy x queue cache pid)
    (calls : ∀ c, x'.calls pid = some c → x.calls pid = some c)
    (logs : ∀ blk, x.log blk <+: x'.log blk)
    (whole : ∀ blk since, since ≤ (x.log blk).length → Coming x queue blk since →
      Coming x' queue' blk since)
    (parts : ∀ blk b since earlier, x.calls pid = some ⟨.read blk, .receive b, since, earlier⟩ →
      ∀ front back, queue' = front ++ b :: back → ∃ front' back', queue = front' ++ b :: back' ∧
        (since ≤ (x.log blk).length → Coming x front' blk since → Coming x' front blk since))
    (kept : ∀ blk b since earlier, x.calls pid = some ⟨.read blk, .receive b, since, earlier⟩ →
      b ∈ cache' → b ∈ cache ∧ (x'.rds.buff b).rdBlock = (x.rds.buff b).rdBlock ∨
        Fresh x' blk since (x'.rds.buff b).rdBlock) : FreshBy x' queue' cache' pid := by
  refine ⟨fun blk place since earlier called => ?_, fun blk since earlier called => ?_,
    fun blk b since earlier called front back split => ?_,
    fun blk b since earlier called member => ?_, fun blk c b data since earlier called => ?_⟩
  · exact Nat.le_trans (fresh.began blk place since earlier (calls _ called)) (logs blk).length_le
  · have began := fresh.began blk _ since earlier (calls _ called)
    exact whole blk since began (fresh.waits blk since earlier (calls _ called))
  · have began := fresh.began blk _ since earlier (calls _ called)
    obtain ⟨front', back', was, comes⟩ := parts blk b since earlier (calls _ called) front back split
    exact comes began (fresh.asked blk b since earlier (calls _ called) front' back' was)
  · rcases kept blk b since earlier (calls _ called) member with ⟨was, same⟩ | new
    · rw [same]
      exact fresh_further (logs blk) (fresh.filled blk b since earlier (calls _ called) was)
    · exact new
  · exact fresh_further (logs blk) (fresh.copied blk c b data since earlier (calls _ called))

/-- A step that leaves the queue and the cache. -/
theorem freshBy_same (fresh : FreshBy x queue cache pid)
    (calls : ∀ c, x'.calls pid = some c → x.calls pid = some c)
    (logs : ∀ blk, x.log blk <+: x'.log blk)
    (writes : ∀ q ∈ queue, (x.rds.buff q).rdOp = .write → (x'.rds.buff q).rdOp = .write ∧
      (x'.rds.buff q).rdBlknum = (x.rds.buff q).rdBlknum)
    (blocks : ∀ q ∈ cache, (x'.rds.buff q).rdBlock = (x.rds.buff q).rdBlock)
    (arrives : ∀ blk, arriving x' blk = arriving x blk) : FreshBy x' queue cache pid := by
  have comes : ∀ nodes blk since, (∀ q ∈ nodes, q ∈ queue) → Coming x nodes blk since →
      Coming x' nodes blk since := fun nodes blk since within =>
    coming_mono (fun q member op => ⟨member, writes q (within q member) op⟩) (logs blk) (arrives blk)
  refine freshBy_frame fresh calls logs (fun blk since _ => comes queue blk since fun _ => id)
    (fun blk b since earlier _ front back split => ⟨front, back, split, fun _ =>
      comes front blk since fun q member => ?_⟩)
    (fun blk b since earlier _ member => .inl ⟨member, blocks b member⟩)
  rw [split]
  exact List.mem_append_left _ member

/-- A request is put at the end of the queue. -/
theorem freshBy_append {f : RdBuff → RdBuff} (fresh : FreshBy x queue cache pid)
    (calls : ∀ c, x'.calls pid = some c → x.calls pid = some c)
    (logs : ∀ blk, x.log blk <+: x'.log blk) (absent : p ∉ queue) (uncached : p ∉ cache')
    (left : ∀ q ∈ cache', q ∈ cache) (buffs : x'.rds.buff = change x.rds.buff p f)
    (another : ∀ blk b since earlier,
      x.calls pid = some ⟨.read blk, .receive b, since, earlier⟩ → b ≠ p)
    (arrives : ∀ blk, arriving x' blk = arriving x blk) :
    FreshBy x' (queue ++ [p]) cache' pid := by
  have others : ∀ q, q ≠ p → x'.rds.buff q = x.rds.buff q := fun q differ => by
    rw [buffs, change_of_ne differ]
  have comes : ∀ nodes nodes' blk since, (∀ q ∈ nodes, q ∈ queue ∧ q ∈ nodes') →
      Coming x nodes blk since → Coming x' nodes' blk since := fun nodes nodes' blk since within =>
    coming_mono (fun q member op => ⟨(within q member).2, by
      rw [others q fun same => absent (same ▸ (within q member).1)]
      exact ⟨op, rfl⟩⟩) (logs blk) (arrives blk)
  refine freshBy_frame fresh calls logs (fun blk since _ => comes queue _ blk since fun q member =>
      ⟨member, List.mem_append_left _ member⟩)
    (fun blk b since earlier called front back split => ?_)
    (fun blk b since earlier _ member => .inl ⟨left b member, ?_⟩)
  · have differ := another blk b since earlier called
    rcases List.eq_nil_or_concat back with rfl | ⟨back', last, rfl⟩
    · exact absurd (List.append_inj_right' split rfl) (by simpa using differ.symm)
    · have whole : queue ++ [p] = (front ++ b :: back') ++ [last] := by simpa using split
      obtain ⟨was, -⟩ := List.append_inj' whole rfl
      refine ⟨front, back', was, fun _ => comes front front blk since fun q member => ⟨?_, member⟩⟩
      rw [was]
      exact List.mem_append_left _ member
  · rw [others b fun same => uncached (same ▸ member)]

/-- `rdsprocess` takes the first request off the queue. -/
theorem freshBy_popped (fresh : FreshBy x (b :: rest) cache pid)
    (calls : x'.calls = x.calls) (logs : x'.log = x.log)
    (pops : ∀ nodes blk since, (∀ q ∈ nodes, q ∈ rest) → since ≤ (x.log blk).length →
      Coming x (b :: nodes) blk since → Coming x' nodes blk since)
    (kept : ∀ blk q since earlier, x.calls pid = some ⟨.read blk, .receive q, since, earlier⟩ →
      q ∈ cache' → q ∈ cache ∧ (x'.rds.buff q).rdBlock = (x.rds.buff q).rdBlock ∨
        Fresh x' blk since (x'.rds.buff q).rdBlock) : FreshBy x' rest cache' pid := by
  refine freshBy_frame fresh (fun c called => calls ▸ called)
    (fun blk => logs ▸ List.prefix_rfl) (fun blk since => pops rest blk since fun _ => id)
    (fun blk q since earlier called front back split => ⟨b :: front, back, by rw [split]; rfl,
      pops front blk since fun w member => ?_⟩) kept
  rw [split]
  exact List.mem_append_left _ member

/-- The request that is taken is no write. -/
theorem pops_other {nodes : List Ptr} {blk since : Nat} (coming : Coming x (b :: nodes) blk since)
    (op : (x.rds.buff b).rdOp ≠ .write) (writes : ∀ q, (x'.rds.buff q).rdOp = (x.rds.buff q).rdOp ∧
      (x'.rds.buff q).rdBlknum = (x.rds.buff q).rdBlknum) (logs : x'.log = x.log)
    (arrives : ∀ blk, arriving x' blk = arriving x blk) : Coming x' nodes blk since := by
  refine coming_mono (fun q member isWrite => ?_) (logs ▸ List.prefix_rfl) (arrives blk) coming
  rcases List.mem_cons.mp member with rfl | was
  · exact absurd isWrite op
  · exact ⟨was, (writes q).1.trans isWrite, (writes q).2⟩

/-- The request that is taken is a write. -/
theorem pops_write {nodes : List Ptr} {blk since : Nat} (coming : Coming x (b :: nodes) blk since)
    (began : since ≤ (x.log blk).length) (copies : Copies x (b :: rest) cache)
    (op : (x.rds.buff b).rdOp = .write) (writes : ∀ q, (x'.rds.buff q).rdOp = (x.rds.buff q).rdOp ∧
      (x'.rds.buff q).rdBlknum = (x.rds.buff q).rdBlknum) (logs : x'.log = x.log)
    (waits : Unwriting x.driver) (server : x'.server = x.server)
    (moves : x'.driver = .writing (x.rds.buff b).rdBlknum (x.rds.buff b).rdBlock) :
    Coming x' nodes blk since := by
  have latest := copies.queued b List.mem_cons_self op
  have arrives : arriving x' blk = if (x.rds.buff b).rdBlknum = blk then (x.rds.buff b).rdBlock
      else x.server blk := by
    rw [arriving, moves, server]
  by_cases isBlk : (x.rds.buff b).rdBlknum = blk
  · rw [Coming, arrives, if_pos isBlk]
    rw [isBlk] at latest
    exact .inr (fresh_further (logs ▸ List.prefix_rfl) (latest_fresh latest began))
  · have behind : Coming x nodes blk since := by
      rcases coming with ⟨q, member, isWrite, blknum⟩ | freshly
      · rcases List.mem_cons.mp member with rfl | was
        · exact absurd blknum isBlk
        · exact .inl ⟨q, was, isWrite, blknum⟩
      · exact .inr freshly
    rw [if_neg isBlk, ← arriving_server waits] at arrives
    exact coming_mono (fun q member isWrite => ⟨member, (writes q).1.trans isWrite, (writes q).2⟩)
      (logs ▸ List.prefix_rfl) arrives behind

end Reading

section Preservation

variable {x x' : Machine} {queue cache free queue' cache' free' rest : List Ptr} {pid : Int}
  {p b : Ptr} {f : RdBuff → RdBuff} {r : Rdscblk} {event : Event} {out : Option Return}

theorem arriving_waking {blk : Nat} (base : Base x queue cache free)
    (driver : x'.driver = if x.reqsem < 0 then .serve else x.driver) (server : x'.server = x.server) :
    arriving x' blk = arriving x blk := by
  rcases moves_waking base driver with same | ⟨blocked, serves⟩
  · exact arriving_congr same server
  · refine arriving_same ?_ ?_ server
    · simp [Unwriting, blocked]
    · simp [Unwriting, serves]

theorem left_of_split {front back : List Ptr} (split : cache = front ++ p :: back) :
    ∀ q ∈ front ++ back, q ∈ cache := by
  rw [split]
  exact (List.Sublist.append_left (List.sublist_cons_self p back) front).subset

theorem left_taken (taken : Taken r cache free p cache' free') : ∀ q ∈ cache', q ∈ cache := by
  intro q member
  rcases taken.source with ⟨-, rfl⟩ | ⟨-, -, -, front, back, rfl, rfl⟩
  · exact member
  · exact left_of_split rfl q member

theorem not_in_cache {buff : Ptr → RdBuff} (after : After r buff (queue ++ [p]) cache' free') :
    p ∉ cache' := by
  have nodup := after.nodup
  grind

theorem copies_alike (copies : Copies x queue cache)
    (alike : ∀ q, Alike (x.rds.buff q) (x'.rds.buff q)) (log : x'.log = x.log)
    (arrives : ∀ blk, arriving x' blk = arriving x blk) : Copies x' queue cache :=
  copies_kept copies (fun q member _ => ⟨member, alike q⟩) (fun q member => .inl ⟨member, alike q⟩)
    (fun q member _ => ⟨member, alike q⟩) log arrives

/-- A request other than a write is put at the end of the queue. -/
theorem copies_asked (copies : Copies x queue cache)
    (after : After x'.rds (change x.rds.buff p f) (queue ++ [p]) cache' free')
    (op : (f (x.rds.buff p)).rdOp ≠ .write) (status : (f (x.rds.buff p)).rdStatus = .invalid)
    (left : ∀ q ∈ cache', q ∈ cache) (log : x'.log = x.log)
    (arrives : ∀ blk, arriving x' blk = arriving x blk) : Copies x' (queue ++ [p]) cache' := by
  have alike : ∀ q, q ≠ p → Alike (x.rds.buff q) (x'.rds.buff q) := fun q differ => by
    rw [after.buffs]
    exact alike_other differ
  have inQueue : ∀ q ∈ queue, q ≠ p := fun q member same => not_in_queue after (same ▸ member)
  have inCache : ∀ q ∈ cache', q ≠ p := fun q member same => not_in_cache after (same ▸ member)
  refine copies_kept copies
    (fun q member _ => ⟨List.mem_append_left _ member, alike q (inQueue q member)⟩)
    (fun q member => ?_) (fun q member _ => ⟨left q member, alike q (inCache q member)⟩) log arrives
  rcases List.mem_append.mp member with was | isP
  · exact .inl ⟨was, alike q (inQueue q was)⟩
  · rw [List.mem_singleton.mp isP, after.buffs, change_self]
    exact .inr ⟨op, status⟩

/-- What the queue and the cache have of a block that a request is put into the queue for. -/
theorem writesAlone_step {blk since earlier : Nat} {data : Block} (base : Base x queue cache free)
    (called : x.calls pid = some ⟨.write blk data, .avail, since, earlier⟩)
    (may : writesAlone x (.step pid) = true) : ¬Written x queue blk ∧
      ∀ q ∈ cache, (x.rds.buff q).rdStatus = .valid → (x.rds.buff q).rdBlknum ≠ blk := by
  obtain ⟨queues, caches, -⟩ := walks base.toConserved
  simp only [writesAlone, called, queues, caches, Bool.and_eq_true, Bool.not_eq_true',
    List.any_eq_false] at may
  refine ⟨fun ⟨q, member, op, blknum⟩ => ?_, fun q member valid blknum => ?_⟩
  · have unwritten := may.1 q member
    simp [isWrite, op, blknum] at unwritten
  · have invalid := may.2 q member
    simp [isValid, valid, blknum] at invalid

theorem writesAlone_reused {blk : Nat} {data : Block} (base : Base x queue cache free)
    (found : cache.find? (same blk x.rds.buff) = some p) (unread : (x.rds.buff p).rdRefcnt ≤ 0)
    (may : writesAlone x (.call pid (.write blk data)) = true) : ∀ q ∈ cache, q ≠ p →
      (x.rds.buff q).rdStatus = .valid → (x.rds.buff q).rdBlknum ≠ blk := by
  obtain ⟨-, caches, -⟩ := walks base.toConserved
  intro q member differ valid blknum
  simp only [writesAlone, caches, found, Bool.or_eq_true, decide_eq_true_eq, List.all_eq_true,
    beq_iff_eq, Bool.not_eq_true'] at may
  rcases may with read | alone
  · omega
  · have invalid := (alone q member).resolve_left differ
    simp [isValid, valid, blknum] at invalid

theorem copies_step (may : writesAlone x event = true) (base : Base x queue cache free)
    (copies : Copies x queue cache)
    (step : Step x queue cache free event x' out queue' cache' free') : Copies x' queue' cache' := by
  have nodup := base.nodup
  cases step with
  | cached => exact copies
  | queued => exact copies
  | waits => exact copies_alike copies (fun _ => alike_rfl) rfl fun _ => arriving_congr rfl rfl
  | @replaced pid blk data p r idle found after =>
      obtain ⟨member, blknum, op⟩ := found_write found
      exact copies_replaced copies member (queue_not_cache base member) op blknum
        after.buffs rfl fun _ => arriving_congr rfl rfl
  | @reused pid blk data p front back r idle new split found unread exhausts after =>
      have others := writesAlone_reused base found unread may
      have uncached := not_in_cache after
      have left := left_of_split split
      refine copies_write copies (not_in_queue after) uncached left after.buffs ?_
        (fun q member => others q (left q member) fun same => uncached (same ▸ member)) rfl
        fun _ => arriving_waking base rfl rfl
      rintro ⟨q, member, op, blknum⟩
      have unwritten := List.find?_eq_none.mp new q member
      simp [isWrite, op, blknum] at unwritten
  | allocatesRead called passed allocated after =>
      exact copies_asked copies after (by simp [readBuff]) rfl (left_taken allocated.toTaken) rfl
        fun _ => arriving_waking base rfl rfl
  | allocatesWrite called passed allocated after =>
      obtain ⟨alone, stale⟩ := writesAlone_step base called may
      have left := left_taken allocated.toTaken
      exact copies_write copies (not_in_queue after) (not_in_cache after) left after.buffs alone
        (fun q member => stale q (left q member)) rfl fun _ => arriving_waking base rfl rfl
  | allocatesSync called passed allocated after =>
      exact copies_asked copies after (by simp [syncBuff]) rfl (left_taken allocated.toTaken) rfl
        fun _ => arriving_congr rfl rfl
  | refused => exact copies_alike copies (fun _ => alike_rfl) rfl fun _ => arriving_congr rfl rfl
  | acknowledged => exact copies_alike copies (fun _ => alike_rfl) rfl fun _ => arriving_congr rfl rfl
  | copied called mail after next =>
      refine copies_alike copies (fun q => ?_) rfl fun _ => arriving_congr rfl rfl
      exact after.buffs ▸ alike_change ⟨rfl, rfl, rfl, rfl⟩ q
  | returns => exact copies_alike copies (fun _ => alike_rfl) rfl fun _ => arriving_congr rfl rfl
  | turns => exact copies
  | wait driver =>
      exact copies_alike copies (fun _ => alike_rfl) rfl fun _ => arriving_waits driver rfl rfl
  | serveRead driver =>
      exact copies_alike copies (fun _ => alike_rfl) rfl fun _ =>
        arriving_same (by simp [Unwriting, driver]) (by simp [Unwriting]) rfl
  | @serveWrite b rest r driver split op after =>
      subst split
      refine copies_served copies (by grind) op (fun q => ?_) rfl (by simp [Unwriting, driver]) rfl rfl
      exact after.buffs ▸ alike_change ⟨rfl, rfl, rfl, rfl⟩ q
  | serveSync driver =>
      rw [Machine.send_eq]
      exact copies_alike copies (fun _ => alike_rfl) rfl fun _ =>
        arriving_same (by simp [Unwriting, driver]) (by simp [Unwriting]) rfl
  | @reading b rest r driver split after =>
      subst split
      have op := reading_op base driver
      have alike : ∀ q, q ≠ b → Alike (x.rds.buff q) (r.buff q) := fun q differ => by
        rw [after.buffs]
        exact alike_other differ
      refine copies_kept copies (fun q member isWrite => ?_) (fun q member => .inl ?_)
        (fun q member valid => ?_) rfl fun _ => arriving_same (by simp [Unwriting, driver])
          (by simp [Unwriting]) rfl
      · have differ : q ≠ b := by
          rintro rfl
          simp [op] at isWrite
        exact ⟨(List.mem_cons.mp member).resolve_left differ, alike q differ⟩
      · exact ⟨List.mem_cons_of_mem _ member, alike q (by grind)⟩
      · rcases List.mem_cons.mp member with rfl | was
        · have invalid := copies.reads q List.mem_cons_self op
          have status : (r.buff q).rdStatus = (x.rds.buff q).rdStatus := by
            rw [after.buffs, change_self]
          rw [invalid] at status
          cases status.symm.trans valid
        · exact ⟨was, alike q (by grind)⟩
  | notify driver =>
      rw [Machine.send_eq]
      exact copies_alike copies (fun _ => alike_rfl) rfl fun _ =>
        arriving_same (by simp [Unwriting, driver]) (by simp [Unwriting]) rfl
  | others driver =>
      exact copies_alike copies (fun _ => alike_rfl) rfl fun _ =>
        arriving_same (by simp [Unwriting, driver]) (by simp [Unwriting]) rfl
  | writing driver =>
      exact copies_alike copies (fun _ => alike_rfl) rfl fun _ => arriving_written driver rfl rfl
  | @synced b rest r driver split after =>
      subst split
      have op := synced_op base driver
      have alike : ∀ q, Alike (x.rds.buff q) (r.buff q) := fun q => after.buffs ▸ alike_rfl
      refine copies_kept copies (fun q member isWrite => ?_)
        (fun q member => .inl ⟨List.mem_cons_of_mem _ member, alike q⟩)
        (fun q member _ => ⟨member, alike q⟩) rfl fun _ => arriving_same
          (by simp [Unwriting, driver]) (by simp [Unwriting]) rfl
      have differ : q ≠ b := by
        rintro rfl
        simp [op] at isWrite
      exact ⟨(List.mem_cons.mp member).resolve_left differ, alike q⟩
  | sleep driver =>
      exact copies_alike copies (fun _ => alike_rfl) rfl fun _ =>
        arriving_same (by simp [Unwriting, driver]) (by simp [Unwriting]) rfl
  | message =>
      rw [Machine.send_eq]
      exact copies_alike copies (fun _ => alike_rfl) rfl fun _ => arriving_congr rfl rfl
  | takes => exact copies_alike copies (fun _ => alike_rfl) rfl fun _ => arriving_congr rfl rfl

end Preservation

section Calls

variable {x x' : Machine} {queue cache free queue' cache' free' : List Ptr} {pid : Int} {p : Ptr}
  {event : Event} {out : Option Return}

/-- The process is not in a call of `rdsread`. -/
theorem freshBy_unread (other : ∀ blk place since earlier,
    x'.calls pid ≠ some ⟨.read blk, place, since, earlier⟩) : FreshBy x' queue' cache' pid :=
  ⟨fun _ _ _ _ called => absurd called (other _ _ _ _),
    fun _ _ _ called => absurd called (other _ _ _ _),
    fun _ _ _ _ called => absurd called (other _ _ _ _),
    fun _ _ _ _ called => absurd called (other _ _ _ _),
    fun _ _ _ _ _ _ called => absurd called (other _ _ _ _)⟩

theorem freshBy_idle (idle : x'.calls pid = none) : FreshBy x' queue' cache' pid :=
  freshBy_unread fun _ _ _ _ called => by simp [idle] at called

/-- A process begins to wait for a buffer. -/
theorem freshBy_begins {request : Request} (copies : Copies x queue cache) :
    FreshBy (waitAvail x pid request) queue cache pid := by
  have calls : (waitAvail x pid request).calls pid = some (calling x request) :=
    Function.update_self _ _ _
  cases request with
  | read blk =>
      have before : Coming x queue blk (x.log blk).length := coming_latest copies (Nat.le_refl _)
      have comes : Coming (waitAvail x pid (.read blk)) queue blk (x.log blk).length :=
        coming_mono (fun q member op => ⟨member, op, rfl⟩) List.prefix_rfl rfl before
      refine ⟨fun _ _ _ _ called => ?_, fun _ _ _ called => ?_, fun _ _ _ _ called => ?_,
        fun _ _ _ _ called => ?_, fun _ _ _ _ _ _ called => ?_⟩
      · cases calls.symm.trans called
        exact Nat.le_refl _
      · cases calls.symm.trans called
        exact comes
      · cases calls.symm.trans called
      · cases calls.symm.trans called
      · cases calls.symm.trans called
  | write blk data => exact freshBy_unread fun _ _ _ _ called => by cases calls.symm.trans called
  | sync => exact freshBy_unread fun _ _ _ _ called => by cases calls.symm.trans called

/-- A process puts its READ request at the end of the queue. -/
theorem freshBy_asks {blk since earlier : Nat} (fresh : FreshBy x queue cache pid)
    (called : x.calls pid = some ⟨.read blk, .avail, since, earlier⟩)
    (calls : x'.calls pid = some ⟨.read blk, .receive p, since, earlier⟩)
    (absent : p ∉ queue) (uncached : p ∉ cache') (log : x'.log = x.log)
    (writes : ∀ q ∈ queue, x'.rds.buff q = x.rds.buff q)
    (arrives : ∀ blk, arriving x' blk = arriving x blk) :
    FreshBy x' (queue ++ [p]) cache' pid := by
  refine ⟨fun _ _ _ _ now => ?_, fun _ _ _ now => ?_, fun _ _ _ _ now front back split => ?_,
    fun _ _ _ _ now member => ?_, fun _ _ _ _ _ _ now => ?_⟩
  · cases calls.symm.trans now
    rw [log]
    exact fresh.began _ _ _ _ called
  · cases calls.symm.trans now
  · cases calls.symm.trans now
    have whole : queue = front := by
      rcases List.eq_nil_or_concat back with rfl | ⟨back', last, rfl⟩
      · exact (List.append_inj' split rfl).1
      · have longer : queue ++ [p] = (front ++ p :: back') ++ [last] := by simpa using split
        obtain ⟨was, -⟩ := List.append_inj' longer rfl
        exact absurd (by simp [was]) absent
    rw [← whole]
    exact coming_mono (fun q member op => ⟨member, by rw [writes q member]; exact ⟨op, rfl⟩⟩)
      (log ▸ List.prefix_rfl) (arrives blk) (fresh.waits _ _ _ called)
  · cases calls.symm.trans now
    exact absurd member uncached
  · cases calls.symm.trans now

/-- A process copies the block that was read for it. -/
theorem freshBy_copies {blk since earlier : Nat} {b cptr : Ptr}
    (fresh : FreshBy x queue cache pid)
    (called : x.calls pid = some ⟨.read blk, .receive b, since, earlier⟩) (member : b ∈ cache)
    (calls : x'.calls pid = some ⟨.read blk, .cleanup cptr b (x.rds.buff b).rdBlock, since,
      earlier⟩) (log : x'.log = x.log) : FreshBy x' queue cache pid := by
  refine ⟨fun _ _ _ _ now => ?_, fun _ _ _ now => ?_, fun _ _ _ _ now => ?_,
    fun _ _ _ _ now => ?_, fun _ _ _ _ _ _ now => ?_⟩
  · cases calls.symm.trans now
    rw [log]
    exact fresh.began _ _ _ _ called
  · cases calls.symm.trans now
  · cases calls.symm.trans now
  · cases calls.symm.trans now
  · cases calls.symm.trans now
    exact fresh_further (log ▸ List.prefix_rfl) (fresh.filled _ _ _ _ called member)

/-- The buffer that a process waits for is not taken for another request. -/
theorem another_place (awaited : AwaitedBy x queue cache pid) (absent : p ∉ queue)
    (uncached : p ∉ cache') (kept : ∀ b ∈ cache, (x.rds.buff b).rdRefcnt = 1 → b ∈ cache') :
    ∀ blk b since earlier, x.calls pid = some ⟨.read blk, .receive b, since, earlier⟩ → b ≠ p := by
  rintro blk b since earlier called rfl
  rcases awaited.stage _ b called rfl with ⟨requested, -⟩ | filled
  · exact absent requested.member
  · exact uncached (kept b filled.member filled.refcnt)

end Calls

section Freshness

variable {x x' : Machine} {queue cache free queue' cache' free' : List Ptr} {event : Event}
  {out : Option Return}

theorem log_accept {r : Machine} {blk : Nat} {data : Block}
    (log : x'.log = Function.update r.log blk (r.log blk ++ [data])) (same : r.log = x.log)
    (blk' : Nat) : x.log blk' <+: x'.log blk' := by
  by_cases isBlk : blk' = blk
  · rw [log, same, isBlk, Function.update_self]
    exact List.prefix_append _ _
  · have kept : x'.log blk' = x.log blk' := by rw [log, same, Function.update_of_ne isBlk]
    exact kept ▸ List.prefix_rfl

/-- A step that changes the calls of one process at most, and neither a list nor a copy. -/
theorem freshBy_still {pid : Int} (fresh : FreshBy x queue cache pid)
    (calls : x'.calls pid = x.calls pid) (log : x'.log = x.log)
    (alike : ∀ q, Alike (x.rds.buff q) (x'.rds.buff q))
    (arrives : ∀ blk, arriving x' blk = arriving x blk) : FreshBy x' queue cache pid :=
  freshBy_same fresh (fun _ called => calls ▸ called) (fun _ => log ▸ List.prefix_rfl)
    (fun q _ op => ⟨(alike q).op.trans op, (alike q).blknum⟩) (fun q _ => (alike q).block) arrives

theorem fresh_step (base : Base x queue cache free) (awaited : Awaited x queue cache)
    (copies : Copies x queue cache) (fresh : ∀ pid, FreshBy x queue cache pid)
    (step : Step x queue cache free event x' out queue' cache' free') (pid : Int) :
    FreshBy x' queue' cache' pid := by
  have nodup := base.nodup
  cases step with
  | cached => exact fresh pid
  | queued => exact fresh pid
  | @waits caller request idle =>
      by_cases same : pid = caller
      · subst same
        exact freshBy_begins copies
      · exact freshBy_still (fresh pid) (Function.update_of_ne same _ _) rfl (fun _ => alike_rfl)
          fun _ => arriving_congr rfl rfl
  | @replaced caller blk data p r idle found after =>
      obtain ⟨member, -, -⟩ := found_write found
      refine freshBy_same (fresh pid) (fun _ => id) (log_accept rfl rfl) (fun q _ op => ?_)
        (fun q inCache => ?_) fun _ => arriving_congr rfl rfl
      · change (r.buff q).rdOp = _ ∧ (r.buff q).rdBlknum = _
        rw [after.buffs]
        by_cases isP : q = p
        · rw [isP, change_self]
          exact ⟨isP ▸ op, rfl⟩
        · rw [change_of_ne isP]
          exact ⟨op, rfl⟩
      · change (r.buff q).rdBlock = _
        rw [after.buffs, change_of_ne]
        rintro rfl
        exact queue_not_cache base member inCache
  | @reused caller blk data p front back r idle new split found unread exhausts after =>
      exact freshBy_append (fresh pid) (fun _ => id) (log_accept rfl rfl) (not_in_queue after)
        (not_in_cache after) (left_of_split split) after.buffs (another_place (awaited pid)
          (not_in_queue after) (not_in_cache after) (kept_unread unread split))
        fun _ => arriving_waking base rfl rfl
  | @allocatesRead caller blk since earlier p cache' free' got r called passed allocated after =>
      have absent := not_in_queue after
      by_cases same : pid = caller
      · subst same
        refine freshBy_asks (fresh pid) called (Function.update_self _ _ _) absent
          (not_in_cache after) rfl (fun q member => ?_) fun _ => arriving_waking base rfl rfl
        change r.buff q = _
        rw [after.buffs, change_of_ne]
        rintro rfl
        exact absent member
      · exact freshBy_append (fresh pid) (fun _ now => (Function.update_of_ne same _ _).symm.trans now)
          (fun _ => List.prefix_rfl) absent (not_in_cache after) (left_taken allocated.toTaken)
          after.buffs (another_place (awaited pid) absent (not_in_cache after)
            (kept_taken allocated.toTaken)) fun _ => arriving_waking base rfl rfl
  | @allocatesWrite caller blk since earlier data p cache' free' got r called passed allocated
      after =>
      by_cases same : pid = caller
      · subst same
        exact freshBy_idle (Function.update_self _ _ _)
      · exact freshBy_append (fresh pid) (fun _ now => (Function.update_of_ne same _ _).symm.trans now)
          (log_accept rfl rfl) (not_in_queue after) (not_in_cache after)
          (left_taken allocated.toTaken) after.buffs (another_place (awaited pid)
            (not_in_queue after) (not_in_cache after) (kept_taken allocated.toTaken))
          fun _ => arriving_waking base rfl rfl
  | @allocatesSync caller since earlier p cache' free' got r called passed allocated after =>
      by_cases same : pid = caller
      · subst same
        refine freshBy_unread fun _ _ _ _ now => ?_
        cases (Function.update_self pid _ x.calls).symm.trans now
      · exact freshBy_append (fresh pid) (fun _ now => (Function.update_of_ne same _ _).symm.trans now)
          (fun _ => List.prefix_rfl) (not_in_queue after) (not_in_cache after)
          (left_taken allocated.toTaken) after.buffs (another_place (awaited pid)
            (not_in_queue after) (not_in_cache after) (kept_taken allocated.toTaken))
          fun _ => arriving_congr rfl rfl
  | @refused caller blk since earlier b called mail =>
      by_cases same : pid = caller
      · subst same
        exact freshBy_idle (Function.update_self _ _ _)
      · exact freshBy_still (fresh pid) (Function.update_of_ne same _ _) rfl (fun _ => alike_rfl)
          fun _ => arriving_congr rfl rfl
  | @acknowledged caller request since earlier b msg called other mail =>
      by_cases same : pid = caller
      · subst same
        exact freshBy_idle (Function.update_self _ _ _)
      · exact freshBy_still (fresh pid) (Function.update_of_ne same _ _) rfl (fun _ => alike_rfl)
          fun _ => arriving_congr rfl rfl
  | @copied caller blk since earlier b msg place out r called mail after next =>
      by_cases same : pid = caller
      · subst same
        obtain ⟨rfl, filled⟩ := copied_filled (awaited pid) called mail
        rcases next with ⟨rfl, -⟩ | ⟨-, cptr, rfl⟩
        · exact freshBy_idle (Function.update_self _ _ _)
        · exact freshBy_copies (fresh pid) called filled.member (Function.update_self _ _ _) rfl
      · exact freshBy_still (fresh pid) (Function.update_of_ne same _ _) rfl
          (fun q => after.buffs ▸ alike_change ⟨rfl, rfl, rfl, rfl⟩ q) fun _ => arriving_congr rfl rfl
  | @returns caller request since earlier c b data called =>
      by_cases same : pid = caller
      · subst same
        exact freshBy_idle (Function.update_self _ _ _)
      · exact freshBy_still (fresh pid) (Function.update_of_ne same _ _) rfl (fun _ => alike_rfl)
          fun _ => arriving_congr rfl rfl
  | turns => exact fresh pid
  | wait driver =>
      exact freshBy_still (fresh pid) rfl rfl (fun _ => alike_rfl) fun _ =>
        arriving_waits driver rfl rfl
  | serveRead driver =>
      exact freshBy_still (fresh pid) rfl rfl (fun _ => alike_rfl) fun _ =>
        arriving_same (by simp [Unwriting, driver]) (by simp [Unwriting]) rfl
  | @serveWrite b rest r driver split op after =>
      subst split
      have alike : ∀ q, Alike (x.rds.buff q) (r.buff q) := fun q =>
        after.buffs ▸ alike_change ⟨rfl, rfl, rfl, rfl⟩ q
      refine freshBy_popped (fresh pid) rfl rfl (fun nodes blk since _ began coming => ?_)
        fun blk q since earlier called member => ?_
      · exact pops_write coming began copies op (fun q => ⟨(alike q).op, (alike q).blknum⟩) rfl
          (by simp [Unwriting, driver]) rfl rfl
      · refine .inl ⟨(List.mem_cons.mp member).resolve_left ?_, (alike q).block⟩
        rintro rfl
        rcases (awaited pid).stage _ q called rfl with ⟨requested, -⟩ | filled
        · cases requested.operation.symm.trans op
        · exact queue_not_cache base List.mem_cons_self filled.member
  | serveSync driver =>
      rw [Machine.send_eq]
      exact freshBy_still (fresh pid) rfl rfl (fun _ => alike_rfl) fun _ =>
        arriving_same (by simp [Unwriting, driver]) (by simp [Unwriting]) rfl
  | @reading b rest r driver split after =>
      subst split
      have op := reading_op base driver
      have writes : ∀ q, (r.buff q).rdOp = (x.rds.buff q).rdOp ∧
          (r.buff q).rdBlknum = (x.rds.buff q).rdBlknum := fun q => by
        rw [after.buffs]
        by_cases isB : q = b
        · rw [isB, change_self]
          exact ⟨rfl, rfl⟩
        · rw [change_of_ne isB]
          exact ⟨rfl, rfl⟩
      have before : Unwriting x.driver := by simp [Unwriting, driver]
      refine freshBy_popped (fresh pid) rfl rfl (fun nodes blk since _ _ coming => ?_)
        fun blk q since earlier called member => ?_
      · exact pops_other coming (by simp [op]) writes rfl fun _ =>
          arriving_same before (by simp [Unwriting]) rfl
      · by_cases isB : q = b
        · subst isB
          refine .inr ?_
          change Fresh x blk since (r.buff q).rdBlock
          have comes := (fresh pid).asked blk q since earlier called [] _ rfl
          have blknum : (x.rds.buff q).rdBlknum = blk := by
            rcases (awaited pid).stage _ q called rfl with ⟨-, blknum⟩ | filled
            · exact blknum
            · exact absurd filled.member (queue_not_cache base List.mem_cons_self)
          rw [after.buffs, change_self, blknum, ← arriving_server before]
          rcases comes with ⟨w, none, -⟩ | isFresh
          · simp at none
          · exact isFresh
        · refine .inl ⟨(List.mem_cons.mp member).resolve_left isB, ?_⟩
          change (r.buff q).rdBlock = _
          rw [after.buffs, change_of_ne isB]
  | notify driver =>
      rw [Machine.send_eq]
      exact freshBy_still (fresh pid) rfl rfl (fun _ => alike_rfl) fun _ =>
        arriving_same (by simp [Unwriting, driver]) (by simp [Unwriting]) rfl
  | others driver =>
      exact freshBy_still (fresh pid) rfl rfl (fun _ => alike_rfl) fun _ =>
        arriving_same (by simp [Unwriting, driver]) (by simp [Unwriting]) rfl
  | writing driver =>
      exact freshBy_still (fresh pid) rfl rfl (fun _ => alike_rfl) fun _ =>
        arriving_written driver rfl rfl
  | @synced b rest r driver split after =>
      subst split
      have op := synced_op base driver
      have same : ∀ q, r.buff q = x.rds.buff q := fun q => by rw [after.buffs]
      refine freshBy_popped (fresh pid) rfl rfl (fun nodes blk since _ _ coming => ?_)
        fun blk q since earlier called member => .inl ⟨member, congrArg RdBuff.rdBlock (same q)⟩
      exact pops_other coming (by simp [op])
        (fun q => ⟨congrArg RdBuff.rdOp (same q), congrArg RdBuff.rdBlknum (same q)⟩) rfl fun _ =>
          arriving_same (by simp [Unwriting, driver]) (by simp [Unwriting]) rfl
  | sleep driver =>
      exact freshBy_still (fresh pid) rfl rfl (fun _ => alike_rfl) fun _ =>
        arriving_same (by simp [Unwriting, driver]) (by simp [Unwriting]) rfl
  | message =>
      rw [Machine.send_eq]
      exact freshBy_still (fresh pid) rfl rfl (fun _ => alike_rfl) fun _ => arriving_congr rfl rfl
  | takes =>
      exact freshBy_still (fresh pid) rfl rfl (fun _ => alike_rfl) fun _ => arriving_congr rfl rfl

end Freshness

section Results

variable {x x' : Machine} {queue cache free queue' cache' free' : List Ptr} {event : Event}
  {out : Option Return} {ret : Return}

/-- A write request stays in the queue, with its data, or the data of a later write of the block, or
it is being sent to the server. -/
def Kept (x : Machine) (event : Event) (x' : Machine) (queue' : List Ptr) (q : Ptr) : Prop :=
  (q ∈ queue' ∧ (x'.rds.buff q).rdOp = .write ∧
    (x'.rds.buff q).rdBlknum = (x.rds.buff q).rdBlknum ∧
    ((x'.rds.buff q).rdBlock = (x.rds.buff q).rdBlock ∨ ∃ pid,
      event = .call pid (.write (x.rds.buff q).rdBlknum (x'.rds.buff q).rdBlock))) ∨
  x'.driver = .writing (x.rds.buff q).rdBlknum (x.rds.buff q).rdBlock

/-- What a step does, when the device behaves as one copy of each block. -/
structure ActsAsOne (x : Machine) (event : Event) (x' : Machine) (out : Option Return) : Prop where
  read : ∀ ret blk data, out = some ret → ret.calling.request = .read blk →
    ret.result = .read data → Fresh x blk ret.calling.since data
  accepted : ∀ ret blk data, out = some ret → ret.calling.request = .write blk data →
    ret.result = .ok → ∃ q ∈ queueOf x'.rds, (x'.rds.buff q).rdOp = .write ∧
      (x'.rds.buff q).rdBlknum = blk ∧ (x'.rds.buff q).rdBlock = data
  kept : ∀ q ∈ queueOf x.rds, (x.rds.buff q).rdOp = .write → Kept x event x' (queueOf x'.rds) q
  sent : ∀ blk data, x.driver = .writing blk data →
    x'.driver = .writing blk data ∨ x'.server blk = data

theorem read_step (awaited : Awaited x queue cache) (copies : Copies x queue cache)
    (fresh : ∀ pid, FreshBy x queue cache pid)
    (step : Step x queue cache free event x' (some ret) queue' cache' free') {blk : Nat}
    {data : Block} (request : ret.calling.request = .read blk) (result : ret.result = .read data) :
    Fresh x blk ret.calling.since data := by
  cases step with
  | @cached pid asked p idle found valid =>
      cases request
      cases result
      have member := List.mem_of_find?_eq_some found
      have isBlk : (x.rds.buff p).rdBlknum = blk := by
        simpa [same] using List.find?_some found
      have latest := (copies.cached p member valid).2
      rw [isBlk] at latest
      exact latest_fresh latest (Nat.le_refl _)
  | @queued pid asked p idle found write =>
      cases request
      cases result
      have member := List.mem_reverse.mp (List.mem_of_find?_eq_some found)
      have isBlk : (x.rds.buff p).rdBlknum = blk := by
        simpa [same] using List.find?_some found
      have latest := copies.queued p member write
      rw [isBlk] at latest
      exact latest_fresh latest (Nat.le_refl _)
  | replaced => cases result
  | reused => cases result
  | allocatesWrite => cases result
  | refused => cases result
  | acknowledged => cases result
  | @copied pid asked since earlier b msg place out r called mail after next =>
      obtain ⟨rfl, filled⟩ := copied_filled (awaited pid) called mail
      rcases next with ⟨-, isRet⟩ | ⟨none, -⟩
      · obtain rfl := Option.some.inj isRet
        cases request
        cases result
        exact (fresh pid).filled _ _ _ _ called filled.member
      · cases none
  | @returns pid asks since earlier c b copied called =>
      cases request
      cases result
      exact (fresh pid).copied _ _ _ _ _ _ called

/-- A write that is accepted is in the queue. -/
theorem accepted_step (step : Step x queue cache free event x' (some ret) queue' cache' free')
    {blk : Nat} {data : Block} (request : ret.calling.request = .write blk data)
    (stage : ∀ calling b, x.calls ret.pid = some calling → calling.place = .receive b →
      calling.request ≠ .write blk data) (result : ret.result = .ok) :
    ∃ q ∈ queue', (x'.rds.buff q).rdOp = .write ∧ (x'.rds.buff q).rdBlknum = blk ∧
      (x'.rds.buff q).rdBlock = data := by
  cases step with
  | cached => cases result
  | queued => cases result
  | @replaced pid blk data p r idle found after =>
      cases request
      obtain ⟨member, blknum, op⟩ := found_write found
      refine ⟨p, member, ?_⟩
      change (r.buff p).rdOp = _ ∧ (r.buff p).rdBlknum = _ ∧ (r.buff p).rdBlock = _
      rw [after.buffs, change_self]
      exact ⟨op, blknum, rfl⟩
  | @reused pid blk data p front back r idle new split found unread exhausts after =>
      cases request
      refine ⟨p, by simp, ?_⟩
      change (r.buff p).rdOp = _ ∧ (r.buff p).rdBlknum = _ ∧ (r.buff p).rdBlock = _
      rw [after.buffs, change_self]
      exact ⟨rfl, rfl, rfl⟩
  | @allocatesWrite pid blk since earlier data p cache' free' got r called passed allocated after =>
      cases request
      refine ⟨p, by simp, ?_⟩
      change (r.buff p).rdOp = _ ∧ (r.buff p).rdBlknum = _ ∧ (r.buff p).rdBlock = _
      rw [after.buffs, change_self]
      exact ⟨rfl, rfl, rfl⟩
  | refused => cases result
  | acknowledged called => exact absurd request (stage _ _ called rfl)
  | copied called mail after next =>
      rcases next with ⟨-, isRet⟩ | ⟨none, -⟩
      · obtain rfl := Option.some.inj isRet
        cases result
      · cases none
  | returns => cases result

theorem kept_alike {q : Ptr} (member : q ∈ queue') (op : (x.rds.buff q).rdOp = .write)
    (alike : Alike (x.rds.buff q) (x'.rds.buff q)) : Kept x event x' queue' q :=
  .inl ⟨member, alike.op.trans op, alike.blknum, .inl alike.block⟩

theorem kept_append {q p : Ptr} {f : RdBuff → RdBuff} (member : q ∈ queue)
    (op : (x.rds.buff q).rdOp = .write)
    (after : After x'.rds (change x.rds.buff p f) (queue ++ [p]) cache' free') :
    Kept x event x' (queue ++ [p]) q := by
  refine kept_alike (List.mem_append_left _ member) op ?_
  rw [after.buffs]
  refine alike_other ?_
  rintro rfl
  exact not_in_queue after member

theorem kept_step (base : Base x queue cache free)
    (step : Step x queue cache free event x' out queue' cache' free') {q : Ptr}
    (member : q ∈ queue) (op : (x.rds.buff q).rdOp = .write) : Kept x event x' queue' q := by
  cases step with
  | cached => exact kept_alike member op alike_rfl
  | queued => exact kept_alike member op alike_rfl
  | waits => exact kept_alike member op alike_rfl
  | @replaced pid blk data p r idle found after =>
      obtain ⟨-, blknum, -⟩ := found_write found
      by_cases isP : q = p
      · subst isP
        have holds : r.buff q = { x.rds.buff q with rdBlock := data } := by
          rw [after.buffs, change_self]
        refine .inl ⟨member, ?_, ?_, .inr ⟨pid, ?_⟩⟩
        · change (r.buff q).rdOp = _
          rw [holds]
          exact op
        · change (r.buff q).rdBlknum = _
          rw [holds]
        · change _ = Event.call pid (.write _ (r.buff q).rdBlock)
          rw [holds, blknum]
      · exact kept_alike member op (after.buffs ▸ alike_other isP)
  | reused idle new split found unread exhausts after => exact kept_append member op after
  | allocatesRead called passed allocated after => exact kept_append member op after
  | allocatesWrite called passed allocated after => exact kept_append member op after
  | allocatesSync called passed allocated after => exact kept_append member op after
  | refused => exact kept_alike member op alike_rfl
  | acknowledged => exact kept_alike member op alike_rfl
  | copied called mail after next =>
      exact kept_alike member op (after.buffs ▸ alike_change ⟨rfl, rfl, rfl, rfl⟩ q)
  | returns => exact kept_alike member op alike_rfl
  | turns => exact kept_alike member op alike_rfl
  | wait => exact kept_alike member op alike_rfl
  | serveRead => exact kept_alike member op alike_rfl
  | @serveWrite b rest r driver split isWrite after =>
      subst split
      by_cases isB : q = b
      · subst isB
        exact .inr rfl
      · exact kept_alike ((List.mem_cons.mp member).resolve_left isB) op
          (after.buffs ▸ alike_other isB)
  | serveSync =>
      rw [Machine.send_eq]
      exact kept_alike member op alike_rfl
  | @reading b rest r driver split after =>
      subst split
      have differ : q ≠ b := by
        rintro rfl
        cases (reading_op base driver).symm.trans op
      exact kept_alike ((List.mem_cons.mp member).resolve_left differ) op
        (after.buffs ▸ alike_other differ)
  | notify =>
      rw [Machine.send_eq]
      exact kept_alike member op alike_rfl
  | others => exact kept_alike member op alike_rfl
  | writing => exact kept_alike member op alike_rfl
  | @synced b rest r driver split after =>
      subst split
      have differ : q ≠ b := by
        rintro rfl
        cases (synced_op base driver).symm.trans op
      exact kept_alike ((List.mem_cons.mp member).resolve_left differ) op (after.buffs ▸ alike_rfl)
  | sleep => exact kept_alike member op alike_rfl
  | message =>
      rw [Machine.send_eq]
      exact kept_alike member op alike_rfl
  | takes => exact kept_alike member op alike_rfl

/-- `rdsprocess` carries out the write that it is at. -/
theorem sent_step (base : Base x queue cache free)
    (step : Step x queue cache free event x' out queue' cache' free') {blk : Nat} {data : Block}
    (driver : x.driver = .writing blk data) :
    x'.driver = .writing blk data ∨ x'.server blk = data := by
  have running : ¬x.reqsem < 0 := by
    have counted := base.counted (by simp [driver])
    omega
  have signalled : (if x.reqsem < 0 then .serve else x.driver) = Service.writing blk data := by
    rw [if_neg running, driver]
  cases step with
  | reused => exact .inl signalled
  | allocatesRead => exact .inl signalled
  | allocatesWrite => exact .inl signalled
  | wait isWait => cases isWait.symm.trans driver
  | serveRead serves => cases serves.symm.trans driver
  | serveWrite serves => cases serves.symm.trans driver
  | serveSync serves => cases serves.symm.trans driver
  | reading reads => cases reads.symm.trans driver
  | notify notifies => cases notifies.symm.trans driver
  | others looks => cases looks.symm.trans driver
  | writing writes =>
      cases writes.symm.trans driver
      exact .inr (Function.update_self _ _ _)
  | synced isSynced => cases isSynced.symm.trans driver
  | sleep sleeps => cases sleeps.symm.trans driver
  | message =>
      rw [Machine.send_eq]
      exact .inl driver
  | _ => exact .inl driver

theorem copies_started (memory : Rdscblk) (mail : Int → Option Ptr) (server : Nat → Block) :
    Copies (started memory mail server) [] [] :=
  ⟨by simp, by simp, by simp, by simp, fun _ _ => rfl⟩

/-- What holds in every state of a run whose steps are coherent. -/
structure Held (x : Machine) (queue cache : List Ptr) : Prop where
  awaited : Awaited x queue cache
  copies : Copies x queue cache
  fresh : ∀ pid, FreshBy x queue cache pid

theorem held_reached (reached : Reaches coherent x) :
    ∃ queue cache free, Base x queue cache free ∧ Held x queue cache := by
  refine @kept coherent (fun x queue cache _ => Held x queue cache)
    (fun x _ _ _ event may _ => ?_)
    (fun memory mail server => ⟨awaited_started memory mail server,
      copies_started memory mail server, fun _ => freshBy_idle rfl⟩)
    (fun x _ _ _ event _ _ _ _ _ may base held step => ?_) x reached
  · simp only [coherent, undisturbed, Bool.and_eq_true] at may
    exact may.1.1
  · simp only [coherent, undisturbed, Bool.and_eq_true, Bool.not_eq_true'] at may
    exact ⟨awaited_step may.1.2 base held.awaited step, copies_step may.2 base held.copies step,
      fresh_step base held.awaited held.copies held.fresh step⟩

/-- The first byte of what a call of `rdsread` returns. -/
def firstByte : Return → Option (Nat × Nat × UInt8)
  | ⟨_, ⟨.read blk, _, since, _⟩, .read data⟩ => some (blk, since, data 0)
  | _ => none

theorem firstByte_read {blk since : Nat} {byte : UInt8}
    (first : firstByte ret = some (blk, since, byte)) : ∃ data,
      ret.calling.request = .read blk ∧ ret.calling.since = since ∧ ret.result = .read data ∧
        data 0 = byte := by
  unfold firstByte at first
  split at first
  · cases first
    exact ⟨_, rfl, rfl, rfl, rfl⟩
  · simp at first

end Results

end Xinu.Rds.OneCopy
