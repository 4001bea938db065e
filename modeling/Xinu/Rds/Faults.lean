import Xinu.Lib.Interleaving
import Xinu.Paging.BackingStore
import Xinu.Rds.OneCopy

/-!
# Messages in a page fault

`pf_handler` reads a page with eight calls of `rdsread`, behind calls of `rdswrite` for the frames
that it evicts. `rdsread` clears the message of the process and waits for one of `rdsprocess`: the
process has one place for a message, which is also the place for those of other processes.
-/

namespace Xinu.Rds.Faults

open Xinu.Kernel.State (sysErr)
open Xinu.Lib.Interleaving Xinu.Lib.Semaphores
open Xinu.Paging.BackingStore (pageBlock)
open Xinu.Rds.Counting (blank)
open Xinu.Rds.Device Xinu.Rds.Driver Xinu.Rds.Lists Xinu.Rds.Steps Xinu.Rds.Messages
open Xinu.Rds.OneCopy

set_option autoImplicit false

section Definitions

/-- The number of disk blocks of a page -/
def pageBlocks : Nat := 8

/-- The calls that may fail before `read_bs` and `write_bs` panic -/
def attempts : Nat := 10

/-- Where a process is in `pf_handler`: at `pf_sem`, between its calls of the device, in `write_bs`
with the blocks that are left, in `read_bs` with the blocks that it has read, and behind it. -/
inductive Stage where
  | waits
  | handles
  | writes (rest : List (Nat × Block)) (attempts : Nat)
  | reads (page : List Block) (attempts : Nat)
  | done (page : List Block)

/-- A page fault, with the first block of the page. Two fields are ghost state: `held` is the
message that the process had, or else the first that was accepted for it since, and `since` is how
many writes of each block had been accepted. -/
structure Fault where
  rdBlk : Nat
  stage : Stage
  held : Option Ptr
  since : Nat → Nat

namespace Fault

variable (f : Fault)

/-- The blocks that have been read -/
def page : List Block :=
  match f.stage with
  | .reads page _ => page
  | .done page => page
  | _ => []

/-- The next call of the device -/
def next : Option Request :=
  match f.stage with
  | .writes (⟨blk, data⟩ :: _) _ => some (.write blk data)
  | .reads page _ => some (.read (f.rdBlk + page.length))
  | _ => none

/-- What `read_bs` and `write_bs` do when the call returns. There is no result when they panic. -/
def answered (result : Result) : Option Fault :=
  match f.stage, result with
  | .writes (_ :: rest) left, .ok =>
      some { f with stage := if rest.isEmpty then .handles else .writes rest left }
  | .writes rest (left + 1), .sysErr => some { f with stage := .writes rest left }
  | .reads page left, .read data =>
      some { f with
        stage := if page.length + 1 = pageBlocks then .done (page ++ [data])
          else .reads (page ++ [data]) left }
  | .reads page (left + 1), .sysErr => some { f with stage := .reads page left }
  | _, _ => none

/-- Another process has sent a message with `OK`. -/
def hears (msg : Ptr) : Fault := { f with held := f.held.or (some msg) }

end Fault

structure World where
  disk : Machine
  pfSem : Semaphore Int
  faults : Int → Option Fault

/-- A page fault of a process, its steps in `pf_handler`, another step of the device, and a message
of another process. -/
inductive Event where
  | fault (pid bsd : Int) (page : Nat)
  | enters (pid : Int)
  | evicts (pid bsd : Int) (page : Nat) (frame : List Block)
  | fetches (pid : Int)
  | calls (pid : Int)
  | device (event : Driver.Event)
  | send (pid : Int) (msg : Ptr)
  | leaves (pid : Int)

/-- A process that is in `pf_handler` makes no other calls. -/
def Others (w : World) : Driver.Event → Prop
  | .call pid _ => w.faults pid = none
  | .receive pid => w.faults pid = none
  | .send _ _ => False
  | _ => True

instance (w : World) : DecidablePred (Others w) := fun event =>
  match event with
  | .call _ _ => inferInstanceAs (Decidable (_ = _))
  | .receive _ => inferInstanceAs (Decidable (_ = _))
  | .send _ _ => .isFalse id
  | .step _ => .isTrue trivial
  | .driver => .isTrue trivial

/-- The faults behind a step of the device -/
def answers (w : World) : Option Return → Option (Int → Option Fault)
  | none => some w.faults
  | some ret =>
      match w.faults ret.pid with
      | none => some w.faults
      | some f => (f.answered ret.result).map fun f => Function.update w.faults ret.pid (some f)

def deviceStep (w : World) (event : Driver.Event) : Option World := do
  let (disk, out) ← Driver.act w.disk event
  let faults ← answers w out
  some { w with disk, faults }

/-- A stage of a process that it leaves without a call of the device -/
def moves (w : World) (pid : Int) (f : Fault) (stage : Stage) : World :=
  { w with faults := Function.update w.faults pid (some { f with stage }) }

def act (w : World) : Event → Option World
  | .fault pid bsd page =>
      if (w.faults pid).isSome ∨ (w.disk.calls pid).isSome then none
      else
        let f := ⟨pageBlock bsd page, .waits, w.disk.mail pid, fun blk => (w.disk.log blk).length⟩
        some { w with
          pfSem := w.pfSem.wait pid
          faults := Function.update w.faults pid (some f) }
  | .enters pid => do
      let f ← w.faults pid
      match f.stage with
      | .waits =>
          if pid ∈ w.pfSem.passed then
            some { moves w pid f .handles with pfSem := w.pfSem.run pid }
          else none
      | _ => none
  | .evicts pid bsd page frame => do
      let f ← w.faults pid
      match f.stage with
      | .handles =>
          if frame.length = pageBlocks then
            some (moves w pid f (.writes (frame.mapIdx fun i data => (pageBlock bsd page + i, data))
              attempts))
          else none
      | _ => none
  | .fetches pid => do
      let f ← w.faults pid
      match f.stage with
      | .handles => some (moves w pid f (.reads [] attempts))
      | _ => none
  | .calls pid => do
      let f ← w.faults pid
      let request ← f.next
      deviceStep w (.call pid request)
  | .device event => if Others w event then deviceStep w event else none
  | .send pid msg =>
      some { w with
        disk := w.disk.send pid msg
        faults := if w.disk.mail pid = none then
            Function.update w.faults pid ((w.faults pid).map (·.hears msg))
          else w.faults }
  | .leaves pid => do
      let f ← w.faults pid
      match f.stage with
      | .done _ =>
          some { w with
            pfSem := w.pfSem.signal
            faults := Function.update w.faults pid none }
      | _ => none

structure Started (w : World) : Prop where
  disk : ∃ memory mail server, w.disk = started memory mail server
  pfSem : w.pfSem = ⟨1, [], []⟩
  faults : ∀ pid, w.faults pid = none

/-- The message that `recvclr` finds in `rdsread` is not lost. -/
def keepsMessage (w : World) (pid : Int) : Bool :=
  match w.faults pid, w.disk.calls pid with
  | some _, some ⟨.read _, .avail, _, _⟩ => w.disk.mail pid == none
  | _, _ => true

/-- The loop behind the copy begins at the buffer of the call. -/
def loopEnds (w : World) (pid : Int) : Bool :=
  match w.faults pid, w.disk.calls pid, w.disk.mail pid with
  | some _, some ⟨.read _, .receive _, _, _⟩, some msg =>
      decide (1 < (w.disk.rds.buff msg).rdRefcnt) || w.disk.rds.rdNext .chnext == msg
  | _, _, _ => true

/-- A step of a process in a fault that the messages of others do not disturb -/
def undisturbedStep (w : World) : Driver.Event → Bool
  | .step pid => keepsMessage w pid && loopEnds w pid
  | _ => true

/-- A step that keeps the device in order and loses no message. -/
def Clear (w : World) : Event → Prop
  | .calls pid =>
      ((w.faults pid).bind Fault.next).all (fun request =>
        coherent w.disk (.call pid request)) = true
  | .device event => coherent w.disk event = true ∧ undisturbedStep w event = true
  | .send pid msg => w.disk.mail pid = none → interferes w.disk (.send pid msg) = false
  | _ => True

instance (w : World) : DecidablePred (Clear w) := fun event =>
  match event with
  | .calls _ => inferInstanceAs (Decidable (_ = true))
  | .device _ => inferInstanceAs (Decidable (_ ∧ _))
  | .send _ _ => inferInstanceAs (Decidable (_ → _))
  | .fault _ _ _ => .isTrue trivial
  | .enters _ => .isTrue trivial
  | .evicts _ _ _ _ => .isTrue trivial
  | .fetches _ => .isTrue trivial
  | .leaves _ => .isTrue trivial

/-- A page fault that is not to be seen in the messages, and that brings the right page: each block
is one that was accepted for it, and as new as the last that was accepted before the fault. -/
structure Invisible (w : World) (pid : Int) (f : Fault) : Prop where
  message : ∀ page, f.stage = .done page → w.disk.mail pid = f.held
  page : ∀ page, f.stage = .done page → page.length = pageBlocks ∧
    ∀ i data, page[i]? = some data →
      Fresh w.disk (f.rdBlk + i) (f.since (f.rdBlk + i)) data
  /-- No call of the device has failed. -/
  unfailed : ∀ left, (∃ rest, f.stage = .writes rest left) ∨ (∃ page, f.stage = .reads page left) →
    left = attempts
  /-- The message that `rdsread` waits for will be sent, or is there. -/
  notice : ∀ calling b, w.disk.calls pid = some calling → calling.place = .receive b →
    Messages.Stage w.disk (queueOf w.disk.rds) (cacheOf w.disk.rds) pid calling b
  /-- The loop behind the copy ends in one turn. -/
  ends : ∀ calling c b data, w.disk.calls pid = some calling →
    calling.place = .cleanup c b data → c = b

end Definitions

section Invariant

/-- What a process has called is the next call of its fault, and it has its message, unless it waits
for the notice. -/
structure Sound (x : Machine) (pid : Int) (f : Fault) : Prop where
  keeps : (∀ calling b, x.calls pid = some calling → calling.place ≠ .receive b) →
    x.mail pid = f.held
  waits : ∀ calling b, x.calls pid = some calling → calling.place = .receive b → f.held = none
  next : ∀ calling, x.calls pid = some calling → f.next = some calling.request
  since : ∀ blk place since earlier, x.calls pid = some ⟨.read blk, place, since, earlier⟩ →
    f.since blk ≤ since
  ends : ∀ calling c b data, x.calls pid = some calling → calling.place = .cleanup c b data → c = b

/-- The blocks that have been read are the right ones. -/
structure Right (x : Machine) (f : Fault) : Prop where
  began : ∀ blk, f.since blk ≤ (x.log blk).length
  page : ∀ i data, f.page[i]? = some data → Fresh x (f.rdBlk + i) (f.since (f.rdBlk + i)) data

structure Formed (f : Fault) : Prop where
  reads : ∀ page left, f.stage = .reads page left → page.length < pageBlocks
  whole : ∀ page, f.stage = .done page → page.length = pageBlocks
  unfailed : ∀ left, (∃ rest, f.stage = .writes rest left) ∨ (∃ page, f.stage = .reads page left) →
    left = attempts

/-- A call of the device has returned to `read_bs` or `write_bs`. -/
structure Completes (x : Machine) (pid : Int) (f : Fault) (result : Result) : Prop where
  idle : x.calls pid = none
  mail : x.mail pid = f.held
  answer : (∃ blk data, f.next = some (.write blk data) ∧ result = .ok) ∨
    ∃ blk data, f.next = some (.read blk) ∧ result = .read data ∧ Fresh x blk (f.since blk) data

/-- The event is of the process. -/
def about (pid : Int) : Driver.Event → Bool
  | .call other _ => other == pid
  | .step other => other == pid
  | .send other _ => other == pid
  | .receive other => other == pid
  | .driver => false

end Invariant

section Steps

variable {x x' : Machine} {queue cache free queue' cache' free' : List Ptr} {pid : Int}
  {event : Driver.Event} {out : Option Return} {ret : Return} {f : Fault} {result : Result}

theorem send_log (x : Machine) (pid : Int) (msg : Ptr) : (x.send pid msg).log = x.log := by
  simp only [Machine.send_eq]

theorem log_grows (step : Step x queue cache free event x' out queue' cache' free') (blk : Nat) :
    x.log blk <+: x'.log blk := by
  have sends : ∀ pid msg, x.log blk <+: (x.send pid msg).log blk := fun pid msg =>
    send_log x pid msg ▸ List.prefix_rfl
  cases step with
  | replaced => exact log_accept rfl rfl blk
  | reused => exact log_accept rfl rfl blk
  | allocatesWrite => exact log_accept rfl rfl blk
  | serveSync => exact sends _ _
  | notify => exact sends _ _
  | message => exact sends _ _
  | _ => exact List.prefix_rfl

theorem right_further (grows : ∀ blk, x.log blk <+: x'.log blk) (right : Right x f) :
    Right x' f :=
  ⟨fun blk => Nat.le_trans (right.began blk) (grows blk).length_le,
    fun i data has => fresh_further (grows _) (right.page i data has)⟩

/-- A step of the others leaves the call of a process and its message, or the process waits for the
notice. -/
theorem elsewhere (awaited : Awaited x queue cache)
    (step : Step x queue cache free event x' out queue' cache' free')
    (away : about pid event = false) :
    x'.calls pid = x.calls pid ∧ (x'.mail pid = x.mail pid ∨
      ∃ calling b, x.calls pid = some calling ∧ calling.place = .receive b) := by
  cases step with
  | @serveSync b rest driver split op =>
      rw [Machine.send_eq]
      refine ⟨rfl, ?_⟩
      by_cases same : (x.rds.buff b).rdPid = pid
      · obtain ⟨calling, called, place⟩ := (awaited pid).asked _ (split ▸ List.mem_cons_self) same
          (by rw [op]; nofun) (by rw [driver]; nofun)
        exact .inr ⟨calling, _, called, place⟩
      · exact .inl (Function.update_of_ne (Ne.symm same) _ _)
  | @notify b driver =>
      rw [Machine.send_eq]
      refine ⟨rfl, ?_⟩
      by_cases same : (x.rds.buff b).rdPid = pid
      · obtain ⟨calling, blk, called, place, -⟩ := (awaited pid).notified _ driver same
        exact .inr ⟨calling, _, called, place⟩
      · exact .inl (Function.update_of_ne (Ne.symm same) _ _)
  | message =>
      have differ := beq_eq_false_iff_ne.mp away
      rw [Machine.send_eq]
      exact ⟨rfl, .inl (Function.update_of_ne (Ne.symm differ) _ _)⟩
  | waits => exact ⟨Function.update_of_ne (Ne.symm (beq_eq_false_iff_ne.mp away)) _ _, .inl rfl⟩
  | allocatesRead =>
      have differ := Ne.symm (beq_eq_false_iff_ne.mp away)
      exact ⟨Function.update_of_ne differ _ _, .inl (Function.update_of_ne differ _ _)⟩
  | allocatesWrite =>
      exact ⟨Function.update_of_ne (Ne.symm (beq_eq_false_iff_ne.mp away)) _ _, .inl rfl⟩
  | allocatesSync =>
      have differ := Ne.symm (beq_eq_false_iff_ne.mp away)
      exact ⟨Function.update_of_ne differ _ _, .inl (Function.update_of_ne differ _ _)⟩
  | refused =>
      have differ := Ne.symm (beq_eq_false_iff_ne.mp away)
      exact ⟨Function.update_of_ne differ _ _, .inl (Function.update_of_ne differ _ _)⟩
  | acknowledged =>
      have differ := Ne.symm (beq_eq_false_iff_ne.mp away)
      exact ⟨Function.update_of_ne differ _ _, .inl (Function.update_of_ne differ _ _)⟩
  | copied =>
      have differ := Ne.symm (beq_eq_false_iff_ne.mp away)
      exact ⟨Function.update_of_ne differ _ _, .inl (Function.update_of_ne differ _ _)⟩
  | returns => exact ⟨Function.update_of_ne (Ne.symm (beq_eq_false_iff_ne.mp away)) _ _, .inl rfl⟩
  | takes =>
      exact ⟨rfl, .inl (Function.update_of_ne (Ne.symm (beq_eq_false_iff_ne.mp away)) _ _)⟩
  | _ => exact ⟨rfl, .inl rfl⟩

theorem sound_elsewhere (awaited : Awaited x queue cache) (sound : Sound x pid f)
    (step : Step x queue cache free event x' out queue' cache' free')
    (away : about pid event = false) : Sound x' pid f := by
  obtain ⟨calls, mail⟩ := elsewhere awaited step away
  refine ⟨fun idle => ?_, fun calling b called => ?_, fun calling called => ?_,
    fun blk place since earlier called => ?_, fun calling c b data called => ?_⟩
  · rw [calls] at idle
    rcases mail with same | ⟨calling, b, called, place⟩
    · exact same.trans (sound.keeps idle)
    · exact absurd place (idle calling b called)
  · exact sound.waits calling b (calls ▸ called)
  · exact sound.next calling (calls ▸ called)
  · exact sound.since blk place since earlier (calls ▸ called)
  · exact sound.ends calling c b data (calls ▸ called)

/-- `write_bs` has written a block. -/
theorem formed_written {first : Nat × Block} {rest : List (Nat × Block)} {left : Nat}
    (formed : Formed f) (stage : f.stage = .writes (first :: rest) left) :
    Formed { f with stage := if rest.isEmpty then .handles else .writes rest left } := by
  obtain rfl := formed.unfailed left (.inl ⟨_, stage⟩)
  refine ⟨fun page left after => ?_, fun page after => ?_, fun left after => ?_⟩
  · dsimp only at after
    split_ifs at after
  · dsimp only at after
    split_ifs at after
  · dsimp only at after
    split_ifs at after
    · simp at after
    · rcases after with ⟨_, same⟩ | ⟨_, other⟩
      · cases same
        rfl
      · cases other

/-- `read_bs` has read a block. -/
theorem formed_read {page : List Block} {left : Nat} {data : Block} (formed : Formed f)
    (stage : f.stage = .reads page left) :
    Formed { f with
      stage := if page.length + 1 = pageBlocks then .done (page ++ [data])
        else .reads (page ++ [data]) left } := by
  obtain rfl := formed.unfailed left (.inr ⟨_, stage⟩)
  have short := formed.reads page _ stage
  have more : (page ++ [data]).length = page.length + 1 := by simp
  refine ⟨fun page left after => ?_, fun page after => ?_, fun left after => ?_⟩
  · dsimp only at after
    split_ifs at after with last
    cases after
    omega
  · dsimp only at after
    split_ifs at after with last
    cases after
    omega
  · dsimp only at after
    split_ifs at after
    · simp at after
    · rcases after with ⟨_, other⟩ | ⟨_, same⟩
      · cases other
      · cases same
        rfl

/-- What holds of the blocks of a page and of the one that is added to them holds of them all. -/
theorem page_grows {page : List Block} {data : Block} {holds : Nat → Block → Prop}
    (before : ∀ i read, page[i]? = some read → holds i read) (added : holds page.length data) :
    ∀ i read, (page ++ [data])[i]? = some read → holds i read := by
  intro i read has
  by_cases inPage : i < page.length
  · rw [List.getElem?_append_left inPage] at has
    exact before i read has
  · have bound := (List.getElem?_eq_some_iff.mp has).1
    simp only [List.length_append, List.length_singleton] at bound
    obtain rfl : i = page.length := by omega
    rw [List.getElem?_append_right (Nat.le_refl _), Nat.sub_self, List.getElem?_cons_zero] at has
    cases has
    exact added

/-- `read_bs` or `write_bs` goes on when a call has returned. -/
theorem completes_sound (completes : Completes x pid f result) (formed : Formed f)
    (right : Right x f) : ∃ f', f.answered result = some f' ∧ Sound x pid f' ∧ Right x f' ∧
      Formed f' := by
  obtain ⟨idle, mail, answer⟩ := completes
  have rests : ∀ f' : Fault, f'.held = f.held → Sound x pid f' := fun f' held =>
    ⟨fun _ => mail.trans held.symm, by simp [idle], by simp [idle], by simp [idle], by simp [idle]⟩
  obtain ⟨rdBlk, stage, held, since⟩ := f
  cases stage with
  | waits => simp [Fault.next] at answer
  | handles => simp [Fault.next] at answer
  | done page => simp [Fault.next] at answer
  | writes rest left =>
      cases rest with
      | nil => simp [Fault.next] at answer
      | cons first rest =>
          obtain rfl : result = .ok := by
            rcases answer with ⟨-, -, -, ok⟩ | ⟨blk, data, next, -⟩
            · exact ok
            · simp [Fault.next] at next
          refine ⟨_, rfl, rests _ rfl, ⟨right.began, ?_⟩, formed_written formed rfl⟩
          intro i data has
          dsimp only [Fault.page] at has
          split_ifs at has <;> simp at has
  | reads page left =>
      obtain ⟨data, rfl, fresh⟩ : ∃ data, result = .read data ∧
          Fresh x (rdBlk + page.length) (since (rdBlk + page.length)) data := by
        rcases answer with ⟨blk, data, next, -⟩ | ⟨blk, data, next, returned, fresh⟩
        · simp [Fault.next] at next
        · simp only [Fault.next, Option.some.injEq, Request.read.injEq] at next
          subst next
          exact ⟨data, returned, fresh⟩
      refine ⟨_, rfl, rests _ rfl, ⟨right.began, ?_⟩, formed_read formed rfl⟩
      intro i read has
      refine page_grows right.page fresh i read ?_
      dsimp only [Fault.page] at has
      split_ifs at has <;> exact has

/-- Where a process that is in a call of the device has its message -/
def Placed (x : Machine) (pid : Int) (f : Fault) : Place → Prop
  | .avail => x.mail pid = f.held
  | .receive _ => f.held = none
  | .cleanup c b _ => x.mail pid = f.held ∧ c = b

theorem sound_called {calling : Calling} (called : x.calls pid = some calling)
    (next : f.next = some calling.request)
    (since : ∀ blk, calling.request = .read blk → f.since blk ≤ calling.since)
    (placed : Placed x pid f calling.place) : Sound x pid f := by
  refine ⟨fun idle => ?_, fun other b isCalling place => ?_, fun other isCalling => ?_,
    fun blk place since' earlier isCalling => ?_, fun other c b data isCalling place => ?_⟩
  · cases place : calling.place with
    | avail =>
        rw [place] at placed
        exact placed
    | receive b => exact absurd place (idle calling b called)
    | cleanup c b data =>
        rw [place] at placed
        exact placed.1
  · obtain rfl := Option.some.inj (called.symm.trans isCalling)
    rw [place] at placed
    exact placed
  · obtain rfl := Option.some.inj (called.symm.trans isCalling)
    exact next
  · obtain rfl := Option.some.inj (called.symm.trans isCalling)
    exact since blk rfl
  · obtain rfl := Option.some.inj (called.symm.trans isCalling)
    rw [place] at placed
    exact placed.2

theorem fresh_older {blk since since' : Nat} {data : Block} (older : since' ≤ since)
    (fresh : Fresh x blk since data) : Fresh x blk since' data := by
  obtain ⟨j, least, has⟩ := fresh
  exact ⟨j, Nat.le_trans older least, has⟩

/-- A call of the fault begins. -/
theorem own_call (held : Held x queue cache) (sound : Sound x pid f) (right : Right x f)
    {request : Request} (next : f.next = some request)
    (step : Step x queue cache free (.call pid request) x' out queue' cache' free') :
    out = none ∧ Sound x' pid f ∨
      ∃ ret, out = some ret ∧ ret.pid = pid ∧ Completes x' pid f ret.result := by
  have reads : ∀ ret blk data, out = some ret → ret.calling.request = .read blk →
      ret.result = .read data → f.since blk ≤ ret.calling.since →
        Fresh x' blk (f.since blk) data := by
    rintro ret blk data rfl request result older
    exact fresh_further (log_grows step blk)
      (fresh_older older (read_step held.awaited held.copies held.fresh step request result))
  have silent : x.calls pid = none → x.mail pid = f.held := fun idle =>
    sound.keeps fun calling b called => by simp [idle] at called
  cases step with
  | @cached _ blk p idle =>
      exact .inr ⟨_, rfl, rfl, idle, silent idle,
        .inr ⟨blk, _, next, rfl, reads _ _ _ rfl rfl rfl (right.began blk)⟩⟩
  | @queued _ blk p idle =>
      exact .inr ⟨_, rfl, rfl, idle, silent idle,
        .inr ⟨blk, _, next, rfl, reads _ _ _ rfl rfl rfl (right.began blk)⟩⟩
  | replaced idle => exact .inr ⟨_, rfl, rfl, idle, silent idle, .inl ⟨_, _, next, rfl⟩⟩
  | reused idle => exact .inr ⟨_, rfl, rfl, idle, silent idle, .inl ⟨_, _, next, rfl⟩⟩
  | waits idle =>
      refine .inl ⟨rfl, sound_called (Function.update_self _ _ _) next (fun blk is => ?_)
        (silent idle)⟩
      cases is
      exact right.began blk

/-- The loop behind the copy begins at the head of the cache. -/
theorem loop_begins {blk since earlier : Nat} {b msg : Ptr}
    (called : x.calls pid = some ⟨.read blk, .receive b, since, earlier⟩)
    (mail : x.mail pid = some msg) (did : Driver.act x (.step pid) = some (x', none)) :
    (x.rds.buff msg).rdRefcnt ≤ 1 ∧ ∃ data, x'.calls pid =
      some ⟨.read blk, .cleanup (x.rds.rdNext .chnext) msg data, since, earlier⟩ := by
  have result : receives x pid ⟨.read blk, .receive b, since, earlier⟩ msg = (x', none) := by
    simpa [Driver.act, proceeds, called, mail] using did
  unfold receives at result
  dsimp only at result
  split_ifs at result with failed alone
  · cases result
  · cases result
    simp only [Machine.recvclr, Rdscblk.set, Function.update_self] at alone
    exact ⟨by omega, _, Function.update_self _ _ _⟩
  · cases result

/-- A call of the fault goes on. -/
theorem own_step (base : Base x queue cache free) (held : Held x queue cache)
    (sound : Sound x pid f)
    (message : ∀ blk since earlier, x.calls pid = some ⟨.read blk, .avail, since, earlier⟩ →
      x.mail pid = none)
    (first : ∀ blk b since earlier msg, x.calls pid = some ⟨.read blk, .receive b, since, earlier⟩ →
      x.mail pid = some msg → 1 < (x.rds.buff msg).rdRefcnt ∨ x.rds.rdNext .chnext = msg)
    (did : Driver.act x (.step pid) = some (x', out))
    (step : Step x queue cache free (.step pid) x' out queue' cache' free') :
    out = none ∧ Sound x' pid f ∨
      ∃ ret, out = some ret ∧ ret.pid = pid ∧ Completes x' pid f ret.result := by
  have reads : ∀ ret blk data, out = some ret → ret.calling.request = .read blk →
      ret.result = .read data → f.since blk ≤ ret.calling.since →
        Fresh x' blk (f.since blk) data := by
    rintro ret blk data rfl request result older
    exact fresh_further (log_grows step blk)
      (fresh_older older (read_step held.awaited held.copies held.fresh step request result))
  have cleared : (x.recvclr pid).mail pid = none := Function.update_self _ _ _
  have idle : ∀ y : Machine, (y.setCall pid none).calls pid = none :=
    fun y => Function.update_self _ _ _
  cases step with
  | @allocatesRead _ blk since earlier p cache' free' got r called =>
      have empty : f.held = none := by
        rw [← sound.keeps fun calling b isCalling place => ?_]
        · exact message blk since earlier called
        · obtain rfl := Option.some.inj (called.symm.trans isCalling)
          cases place
      have next := sound.next _ called
      refine .inl ⟨rfl, sound_called (Function.update_self _ _ _) next (fun asked is => ?_) empty⟩
      cases is
      exact sound.since _ _ _ _ called
  | @allocatesWrite _ blk since earlier data p cache' free' got r called =>
      refine .inr ⟨_, rfl, rfl, idle _, ?_, .inl ⟨blk, data, sound.next _ called, rfl⟩⟩
      refine sound.keeps fun calling b isCalling place => ?_
      obtain rfl := Option.some.inj (called.symm.trans isCalling)
      cases place
  | allocatesSync called =>
      have next := sound.next _ called
      unfold Fault.next at next
      split at next <;> cases next
  | refused called mail =>
      obtain ⟨rfl, filled⟩ := copied_filled (held.awaited pid) called mail
      obtain ⟨i, isBuffer⟩ := base.buffers (.word sysErr) (by simp [filled.member])
      cases isBuffer
  | @acknowledged _ request since earlier b msg called other mail =>
      have stage := (held.awaited pid).stage _ b called rfl
      have next := sound.next _ called
      unfold Fault.next at next
      split at next
      · cases next
        exact stage.elim
      · cases next
        exact absurd rfl (other _)
      · cases next
  | @copied _ blk since earlier b msg place out r called mail after next =>
      have empty := sound.waits _ b called rfl
      rcases next with ⟨rfl, rfl⟩ | ⟨rfl, cptr, rfl⟩
      · refine .inr ⟨_, rfl, rfl, idle _, cleared.trans empty.symm,
          .inr ⟨blk, _, sound.next _ called, rfl, ?_⟩⟩
        exact reads _ _ _ rfl rfl rfl (sound.since _ _ _ _ called)
      · obtain ⟨alone, data, begins⟩ := loop_begins called mail did
        have head := (first blk b since earlier msg called mail).resolve_left (by omega)
        have next := sound.next _ called
        refine .inl ⟨rfl, sound_called begins next (fun asked is => ?_)
          ⟨cleared.trans empty.symm, head⟩⟩
        cases is
        exact sound.since _ _ _ _ called
  | @returns _ request since earlier c b data called =>
      obtain ⟨blk, rfl, -⟩ := (held.awaited pid).copied _ c b data called rfl
      refine .inr ⟨_, rfl, rfl, idle _, ?_, .inr ⟨blk, data, sound.next _ called, rfl, ?_⟩⟩
      · refine sound.keeps fun calling b isCalling place => ?_
        obtain rfl := Option.some.inj (called.symm.trans isCalling)
        cases place
      · exact reads _ _ _ rfl rfl rfl (sound.since _ _ _ _ called)
  | turns => exact .inl ⟨rfl, sound⟩

end Steps

section Runs

variable {w w' : World} {pid : Int} {f : Fault}

structure Tracked (x : Machine) (pid : Int) (f : Fault) : Prop where
  sound : Sound x pid f
  right : Right x f
  formed : Formed f

structure Inv (w : World) : Prop where
  disk : Reaches coherent w.disk
  faults : ∀ pid f, w.faults pid = some f → Tracked w.disk pid f

theorem about_unique {event : Driver.Event} {other : Int} (first : about pid event = true)
    (second : about other event = true) : other = pid := by
  cases event <;> simp_all [about]

theorem returns_about {x x' : Machine} {queue cache free queue' cache' free' : List Ptr}
    {event : Driver.Event} {ret : Return}
    (step : Step x queue cache free event x' (some ret) queue' cache' free') :
    about ret.pid event = true := by
  cases step with
  | copied called mail after next =>
      rcases next with ⟨-, isRet⟩ | ⟨none, -⟩
      · cases isRet
        exact beq_self_eq_true _
      · cases none
  | _ => exact beq_self_eq_true _

theorem coherent_orderly {x : Machine} {event : Driver.Event} (may : coherent x event = true) :
    orderly x event = true := by
  simp only [coherent, undisturbed, Bool.and_eq_true] at may
  exact may.1.1

/-- A step of the device, when the process whose step it is goes on with its fault. -/
theorem device_step_inv {event : Driver.Event} (inv : Inv w) (may : coherent w.disk event = true)
    (own : ∀ pid f queue cache free x' out queue' cache' free', w.faults pid = some f →
      about pid event = true → Base w.disk queue cache free → Held w.disk queue cache →
      Driver.act w.disk event = some (x', out) →
      Step w.disk queue cache free event x' out queue' cache' free' →
      out = none ∧ Sound x' pid f ∨
        ∃ ret, out = some ret ∧ ret.pid = pid ∧ Completes x' pid f ret.result)
    (did : deviceStep w event = some w') : Inv w' := by
  simp only [deviceStep, Option.bind_eq_bind, Option.bind_eq_some_iff] at did
  obtain ⟨⟨x', out⟩, acted, faults', answered, result⟩ := did
  cases result
  obtain ⟨queue, cache, free, base, held⟩ := held_reached inv.disk
  obtain ⟨queue', cache', free', step⟩ := act_step base (coherent_orderly may) acted
  have right : ∀ pid f, w.faults pid = some f → Right x' f := fun pid f faulted =>
    right_further (log_grows step) (inv.faults pid f faulted).right
  have others : ∀ pid f, w.faults pid = some f → about pid event = false → Tracked x' pid f :=
    fun pid f faulted away =>
      ⟨sound_elsewhere held.awaited (inv.faults pid f faulted).sound step away, right pid f faulted,
        (inv.faults pid f faulted).formed⟩
  refine ⟨inv.disk.step may acted, fun pid f faulted => ?_⟩
  cases out with
  | none =>
      cases answered
      cases isOwn : about pid event with
      | false => exact others pid f faulted isOwn
      | true =>
          rcases own pid f _ _ _ _ _ _ _ _ faulted isOwn base held acted step with
            ⟨-, sound⟩ | ⟨ret, other, -⟩
          · exact ⟨sound, right pid f faulted, (inv.faults pid f faulted).formed⟩
          · cases other
  | some ret =>
      have returner := returns_about step
      have differs : ∀ {pid}, pid ≠ ret.pid → about pid event = false := by
        intro pid differ
        rw [Bool.eq_false_iff]
        exact fun isOwn => differ (about_unique returner isOwn)
      unfold answers at answered
      dsimp only at answered
      split at answered
      · rename_i outside
        cases answered
        refine others pid f faulted (differs ?_)
        rintro rfl
        rw [outside] at faulted
        cases faulted
      · rename_i g before
        obtain ⟨g', result, rfl⟩ := Option.map_eq_some_iff.mp answered
        dsimp only at faulted
        by_cases same : pid = ret.pid
        · subst same
          rw [Function.update_self] at faulted
          obtain rfl := Option.some.inj faulted
          rcases own _ g _ _ _ _ _ _ _ _ before returner base held acted step with
            ⟨other, -⟩ | ⟨ret', isRet, -, completes⟩
          · cases other
          · cases isRet
            obtain ⟨g'', result', sound, isRight, formed⟩ := completes_sound completes
              (inv.faults _ g before).formed (right _ g before)
            obtain rfl := Option.some.inj (result'.symm.trans result)
            exact ⟨sound, isRight, formed⟩
        · rw [Function.update_of_ne same] at faulted
          exact others pid f faulted (differs same)

/-- A stage that a process leaves without a call of the device -/
theorem tracked_moves {x : Machine} {stage : Stage} (tracked : Tracked x pid f)
    (between : f.next = none) (empty : ({ f with stage } : Fault).page = [])
    (formed : Formed { f with stage }) : Tracked x pid { f with stage } := by
  have idle : x.calls pid = none := by
    cases called : x.calls pid with
    | none => rfl
    | some calling =>
        have next := tracked.sound.next calling called
        rw [between] at next
        cases next
  refine ⟨⟨tracked.sound.keeps, by simp [idle], by simp [idle], by simp [idle], by simp [idle]⟩,
    ⟨tracked.right.began, fun i data has => ?_⟩, formed⟩
  rw [empty] at has
  cases has

theorem inv_moves {stage : Stage} {pfSem : Semaphore Int} (inv : Inv w)
    (faulted : w.faults pid = some f) (between : f.next = none)
    (empty : ({ f with stage } : Fault).page = []) (formed : Formed { f with stage }) :
    Inv { moves w pid f stage with pfSem := pfSem } := by
  refine ⟨inv.disk, fun other g found => ?_⟩
  dsimp only [moves] at found ⊢
  by_cases same : other = pid
  · subst same
    rw [Function.update_self] at found
    obtain rfl := Option.some.inj found
    exact tracked_moves (inv.faults other f faulted) between empty formed
  · rw [Function.update_of_ne same] at found
    exact inv.faults other g found

theorem inv_faults {bsd : Int} {page : Nat} (inv : Inv w)
    (did : act w (.fault pid bsd page) = some w') : Inv w' := by
  simp only [act] at did
  split_ifs at did with busy
  cases did
  rw [not_or, Option.not_isSome_iff_eq_none, Option.not_isSome_iff_eq_none] at busy
  refine ⟨inv.disk, fun other g found => ?_⟩
  dsimp only at found ⊢
  by_cases same : other = pid
  · subst same
    rw [Function.update_self] at found
    obtain rfl := Option.some.inj found
    refine ⟨⟨fun _ => rfl, ?_, ?_, ?_, ?_⟩, ⟨fun _ => Nat.le_refl _, ?_⟩, ⟨?_, ?_, ?_⟩⟩ <;>
      simp [busy.2, Fault.page]
  · rw [Function.update_of_ne same] at found
    exact inv.faults other g found

theorem inv_send {msg : Ptr} (inv : Inv w) (may : Clear w (.send pid msg))
    (did : act w (.send pid msg) = some w') : Inv w' := by
  cases did
  by_cases empty : w.disk.mail pid = none
  · have quiet := may empty
    have coherent : coherent w.disk (.send pid msg) = true := by
      simp [coherent, undisturbed, orderly, piggyBacks, unlinks, quiet, writesAlone]
    obtain ⟨queue, cache, free, base, held⟩ := held_reached inv.disk
    obtain ⟨queue', cache', free', step⟩ := act_step base (coherent_orderly coherent) rfl
    refine ⟨inv.disk.step coherent rfl, fun other g found => ?_⟩
    dsimp only at found ⊢
    rw [if_pos empty] at found
    by_cases same : other = pid
    · subst same
      rw [Function.update_self] at found
      obtain ⟨f, faulted, rfl⟩ := Option.map_eq_some_iff.mp found
      obtain ⟨sound, right, formed⟩ := inv.faults other f faulted
      have outside : ∀ calling b, w.disk.calls other = some calling →
          calling.place ≠ .receive b := by
        rintro ⟨request, at_, since, earlier⟩ b called rfl
        simp [interferes, called] at quiet
      have none_held : f.held = none := (sound.keeps outside).symm.trans empty
      have heard : Right w.disk (f.hears msg) := ⟨right.began, right.page⟩
      refine ⟨?_, right_further (log_grows step) heard,
        ⟨formed.reads, formed.whole, formed.unfailed⟩⟩
      rw [Machine.send_eq, empty]
      refine ⟨fun _ => ?_, fun calling b called place => absurd place (outside calling b called),
        sound.next, sound.since, sound.ends⟩
      rw [Fault.hears, none_held]
      exact Function.update_self _ _ _
    · rw [Function.update_of_ne same] at found
      obtain ⟨sound, right, formed⟩ := inv.faults other g found
      have away : about other (.send pid msg) = false := beq_eq_false_iff_ne.mpr (Ne.symm same)
      exact ⟨sound_elsewhere held.awaited sound step away, right_further (log_grows step) right,
        formed⟩
  · obtain ⟨old, has⟩ := Option.ne_none_iff_exists'.mp empty
    have refused : w.disk.send pid msg = w.disk := by
      unfold Machine.send
      rw [has]
    rw [refused, if_neg empty]
    exact inv

/-- The calls of a fault that is between its calls of the device, and its own steps. -/
theorem inv_enters (inv : Inv w) (did : act w (.enters pid) = some w') : Inv w' := by
  simp only [act, Option.bind_eq_bind, Option.bind_eq_some_iff] at did
  obtain ⟨f, faulted, did⟩ := did
  split at did
  · rename_i stage
    split_ifs at did
    cases did
    exact inv_moves inv faulted (by rw [Fault.next, stage]) rfl ⟨nofun, nofun, by simp⟩
  · cases did

theorem inv_evicts {bsd : Int} {page : Nat} {frame : List Block} (inv : Inv w)
    (did : act w (.evicts pid bsd page frame) = some w') : Inv w' := by
  simp only [act, Option.bind_eq_bind, Option.bind_eq_some_iff] at did
  obtain ⟨f, faulted, did⟩ := did
  split at did
  · rename_i stage
    split_ifs at did
    cases did
    refine @inv_moves w pid f _ w.pfSem inv faulted (by rw [Fault.next, stage]) rfl
      ⟨nofun, nofun, ?_⟩
    rintro left (⟨rest, is⟩ | ⟨page, is⟩) <;> cases is
    rfl
  · cases did

theorem inv_fetches (inv : Inv w) (did : act w (.fetches pid) = some w') : Inv w' := by
  simp only [act, Option.bind_eq_bind, Option.bind_eq_some_iff] at did
  obtain ⟨f, faulted, did⟩ := did
  split at did
  · rename_i stage
    cases did
    refine @inv_moves w pid f _ w.pfSem inv faulted (by rw [Fault.next, stage]) rfl
      ⟨?_, nofun, ?_⟩
    · rintro page left is
      cases is
      decide
    · rintro left (⟨rest, is⟩ | ⟨page, is⟩) <;> cases is
      rfl
  · cases did

theorem inv_calls (inv : Inv w) (may : Clear w (.calls pid))
    (did : act w (.calls pid) = some w') : Inv w' := by
  simp only [act, Option.bind_eq_bind, Option.bind_eq_some_iff] at did
  obtain ⟨f, faulted, request, next, did⟩ := did
  have isCoherent : coherent w.disk (.call pid request) = true := by
    simpa [Clear, faulted, next] using may
  refine device_step_inv inv isCoherent ?_ did
  intro other g queue cache free x' out queue' cache' free' found isOwn base held acted step
  obtain rfl : other = pid := (beq_iff_eq.mp isOwn).symm
  obtain rfl := Option.some.inj (faulted.symm.trans found)
  have tracked := inv.faults other f found
  exact own_call held tracked.sound tracked.right next step

theorem inv_device {event : Driver.Event} (inv : Inv w) (may : Clear w (.device event))
    (did : act w (.device event) = some w') : Inv w' := by
  simp only [act] at did
  split_ifs at did with others
  refine device_step_inv inv may.1 ?_ did
  intro pid f queue cache free x' out queue' cache' free' faulted isOwn base held acted step
  cases event with
  | call other request =>
      obtain rfl : other = pid := beq_iff_eq.mp isOwn
      exact absurd (faulted.symm.trans others) nofun
  | step other =>
      obtain rfl : other = pid := beq_iff_eq.mp isOwn
      obtain ⟨keeps, ends⟩ := Bool.and_eq_true_iff.mp may.2
      refine own_step base held (inv.faults other f faulted).sound ?_ ?_ acted step
      · intro blk since earlier called
        simpa [keepsMessage, faulted, called] using keeps
      · intro blk b since earlier msg called mail
        simpa [loopEnds, faulted, called, mail] using ends
  | driver => cases isOwn
  | send other msg => exact others.elim
  | receive other =>
      obtain rfl : other = pid := beq_iff_eq.mp isOwn
      exact absurd (faulted.symm.trans others) nofun

theorem inv_leaves (inv : Inv w) (did : act w (.leaves pid) = some w') : Inv w' := by
  simp only [act, Option.bind_eq_bind, Option.bind_eq_some_iff] at did
  obtain ⟨f, faulted, did⟩ := did
  split at did
  · cases did
    refine ⟨inv.disk, fun other g found => ?_⟩
    dsimp only at found
    by_cases same : other = pid
    · subst same
      rw [Function.update_self] at found
      cases found
    · rw [Function.update_of_ne same] at found
      exact inv.faults other g found
  · cases did

theorem act_inv {event : Event} (inv : Inv w) (may : Clear w event)
    (did : act w event = some w') : Inv w' := by
  cases event with
  | fault pid bsd page => exact inv_faults inv did
  | enters pid => exact inv_enters inv did
  | evicts pid bsd page frame => exact inv_evicts inv did
  | fetches pid => exact inv_fetches inv did
  | calls pid => exact inv_calls inv may did
  | device event => exact inv_device inv may did
  | send pid msg => exact inv_send inv may did
  | leaves pid => exact inv_leaves inv did

theorem inv_reached (run : Reached act Started Clear w) : Inv w := by
  refine reached_invariant run (fun w started => ?_) fun w w' event inv may did =>
    act_inv inv may did
  obtain ⟨⟨memory, mail, server, disk⟩, -, faults⟩ := started
  exact ⟨disk ▸ .start memory mail server, fun pid f faulted => by simp [faults] at faulted⟩

end Runs

section Results

variable {w : World} {pid : Int} {f : Fault}

theorem tracked_invisible (inv : Inv w) (faulted : w.faults pid = some f) : Invisible w pid f := by
  obtain ⟨sound, right, formed⟩ := inv.faults pid f faulted
  obtain ⟨queue, cache, free, base, held⟩ := held_reached inv.disk
  obtain ⟨isQueue, isCache, -⟩ := walks base.toConserved
  refine ⟨fun page stage => ?_, fun page stage => ⟨formed.whole page stage, fun i data has => ?_⟩,
    formed.unfailed, fun calling b called place => ?_, sound.ends⟩
  · refine sound.keeps fun calling b called => ?_
    have next := sound.next calling called
    rw [Fault.next, stage] at next
    cases next
  · refine right.page i data ?_
    rw [Fault.page, stage]
    exact has
  · rw [isQueue, isCache]
    exact (held.awaited pid).stage calling b called place

/-- A device that has just been opened, with these messages -/
def booted (mail : Int → Option Ptr) : World where
  disk := { blank with mail := mail }
  pfSem := ⟨1, [], []⟩
  faults := fun _ => none

theorem booted_started (mail : Int → Option Ptr) : Started (booted mail) :=
  ⟨⟨_, mail, _, rfl⟩, rfl, fun _ => rfl⟩

/-- Process 1 reads one block of its page. -/
def oneBlock : List Event :=
  [.calls 1, .device (.step 1), .device .driver, .device .driver, .device .driver, .device .driver,
    .device (.step 1), .device (.step 1), .device .driver, .device .driver]

/-- Process 1 faults, and nobody else does anything. -/
def wholeFault : List Event :=
  [.fault 1 0 0, .enters 1, .fetches 1] ++ (List.replicate pageBlocks oneBlock).flatten

def isDone (f : Fault) : Bool :=
  match f.stage with
  | .done _ => true
  | _ => false

end Results

end Xinu.Rds.Faults
