import Xinu.Space.PolicyChanges

/-!
# The frames that a page fault uses

`pf_handler` does not look at what `newPageTable` and `getNewFrame` return. It takes no other
address for that of a frame as long as both have a frame to give, and in no other case.
-/

namespace Xinu.Space.RealFrames

open Xinu.Kernel.State Xinu.Kernel.Entry Xinu.Kernel.Semaphore Xinu.Lib.StateError
open Xinu.Paging.Address Xinu.Paging.BackingStore Xinu.Paging.Ipt Xinu.Paging.Handler
open Xinu.Paging.Process Xinu.Paging.System Xinu.Paging.Cpu Xinu.Processes.Steps
open Xinu.Processes.KernelVariables Xinu.Replacement.SystemCalls Xinu.Replacement.Fifo
open Xinu.Replacement.FifoRuns Xinu.Replacement.Exhaustion Xinu.Space.Agreement
open Xinu.Space.Transfers Xinu.Space.Allocate Xinu.Space.Fault Xinu.Space.Choice Xinu.Space.Link
open Xinu.Space.Service Xinu.Space.Runs Xinu.Space.PolicyChanges Xinu.Swap.Conservation
open Xinu.Swap.Places

set_option autoImplicit false

section Failure

/-- Effects are only added. -/
def Longer (s final : St) : Prop := s.trace <:+ final.trace

instance : IsTrans St Longer := ⟨fun _ _ _ => List.IsSuffix.trans⟩

theorem longer_of_trace (s final : St) (same : final.trace = s.trace) : Longer s final := by
  rw [Longer, same]

theorem log_moves (effect : Effect) : Moves Longer (log effect) := fun _ => List.suffix_cons _ _

variable [Config] {s middle final : St} {a : Nat} {pid : Int}

/-- A bad effect is not taken back. -/
theorem not_adds_proper {effect : Effect} (bad : ¬Proper effect) (before : Longer s middle)
    (behind : effect :: middle.trace <:+ final.trace) : ¬AddsProper s final := by
  rintro ⟨effects, trace, proper⟩
  obtain ⟨early, earlyTrace⟩ := before
  obtain ⟨late, lateTrace⟩ := behind
  have whole : (late ++ effect :: early) ++ s.trace = effects ++ s.trace := by
    rw [← trace, ← lateTrace, ← earlyTrace]
    simp
  have same := List.append_cancel_right whole
  apply bad
  apply proper
  rw [← same]
  simp

omit [Config] in
theorem read_bs_moves (dst : Nat) (bs : Int) (page : Nat) : Moves Longer (readBs dst bs page) := by
  have quiet : ∀ {α : Type} {action : Call α}, Keeps St.trace action → Moves Longer action :=
    moves_of_keeps longer_of_trace
  have waits : Keeps St.trace (wait .bsSem) := wait_keeps _ fun _ _ _ => rfl
  have signals : Keeps St.trace (signal .bsSem) := signal_keeps _ fun _ _ _ => rfl
  apply moves_bind (log_moves _)
  intro _
  apply quiet
  apply keeps_bind keeps_get
  intro s
  apply keeps_ite (keeps_pure _)
  apply keeps_ite (keeps_pure _)
  apply keeps_bind waits
  intro _
  apply keeps_bind keeps_get
  intro held
  apply keeps_ite
  · exact keeps_bind signals fun _ => keeps_pure _
  apply keeps_bind signals
  intro _
  apply keeps_ite (keeps_throw _)
  exact keeps_bind (keeps_modify fun _ => rfl) fun _ => keeps_pure _

/-- `pf_handler` converts the address before it does anything else with it. -/
theorem pf_install_converts (pt faddr : Nat) :
    Effect.faddr2frameNum faddr :: middle.trace <:+
      (finalState (pfInstall pid a pt faddr middle)).trace := by
  have quiet : ∀ {α : Type} {action : Call α}, Keeps St.trace action → Moves Longer action :=
    moves_of_keeps longer_of_trace
  have info : Keeps St.trace (getBsInfo pid a) := by
    apply keeps_bind keeps_get
    intro s
    exact keeps_ite (keeps_throw _) (keeps_pure _)
  have counts : Keeps St.trace (modifyFrame (frameNumOf pt) fun frame =>
      { frame with refCount := (frame.refCount + 1) % word32 }) :=
    keeps_map (keeps_modify_frame _ _) fun view => view.2.2.2
  have sets : ∀ change, Keeps St.trace (setEntry pt (vaddr2pti a) change) := fun _ =>
    keeps_modify fun _ => rfl
  unfold pfInstall
  rw [bind_ok (faddr_to_frame_num_ok _ _)]
  change Longer { middle with trace := .faddr2frameNum faddr :: middle.trace } _
  refine moves_bind (quiet info) (fun _ => moves_bind (read_bs_moves _ _ _) fun e => ?_) _
  apply moves_ite (quiet (keeps_throw _))
  apply moves_bind (moves_bind (log_moves _) fun _ => quiet counts)
  intro _
  apply moves_bind (quiet (sets _))
  intro _
  apply moves_bind (moves_bind (log_moves _) fun _ => quiet (sets _))
  intro _
  exact log_moves _

/-- An outcome with proper effects only, in which no access was outside of the frame table -/
def Fine (s : St) (outcome : EStateM.Result Stop St Unit) : Prop :=
  Ends outcome (fun _ final => AddsProper s final) (Clean s)

theorem fine_adds {outcome : EStateM.Result Stop St Unit} (fine : Fine s outcome) :
    AddsProper s (finalState outcome) := by
  cases outcome with
  | ok value final => exact fine
  | error stop final => exact fine.1

theorem not_fine_bad {index : Nat} : ¬Fine s (.error (.badIndex index) final) := fun fine =>
  fine.2 index rfl

theorem fifo_reports (fifo : s.ker.currpolicy = .fifo) (exhausted : Exhausted s)
    (queue : QueueKept s) (type : FrameStatus) (pid vpn : Int) :
    ∃ hand, getNewFrame type pid vpn s = .ok sysErrPtr { s with fifoNextframe := hand } := by
  obtain ⟨nodes, frameQueue⟩ := queue fifo
  have nobody : nodes = [] := by
    rw [List.eq_nil_iff_forall_not_mem]
    intro x member
    obtain ⟨⟨bound, page⟩, _⟩ := (frameQueue.members x).mp member
    exact (exhausted x bound).2 page
  subst nobody
  exact fifo_allocation_fails ⟨fifo, frameQueue⟩ (fun x bound => (exhausted x bound).1) type pid vpn

theorem allocation_fails (exhausted : Exhausted s) (queue : QueueKept s) (type : FrameStatus)
    (pid vpn : Int) :
    (∃ hand, getNewFrame type pid vpn s = .ok sysErrPtr { s with fifoNextframe := hand }) ∨
      s.ker.currpolicy = .gca ∧
        ∃ final, getNewFrame type pid vpn s = .error (.badIndex empty) final := by
  rcases fifo_or_gca s.ker.currpolicy with fifo | gca
  · exact Or.inl (fifo_reports fifo exhausted queue type pid vpn)
  · exact Or.inr ⟨gca, gca_allocation_stops gca exhausted type pid vpn⟩

/-- Without a frame for the page the fault goes wrong. -/
theorem page_fails (before : Longer s middle) (exhausted : Exhausted middle)
    (queue : QueueKept middle) (pt : Nat) (vpn : Int) :
    ¬Fine s ((do
      let faddr ← getNewFrame .page pid vpn
      pfInstall pid a pt faddr) middle) := by
  rcases allocation_fails exhausted queue .page pid vpn with ⟨hand, ran⟩ | ⟨_, final, ran⟩
  · rw [bind_ok ran]
    intro fine
    have bad : ¬Proper (.faddr2frameNum sysErrPtr) := fun proper =>
      syserr_not_frame (proper sysErrPtr rfl)
    have still : Longer s { middle with fifoNextframe := hand } := before
    exact not_adds_proper bad still (pf_install_converts pt sysErrPtr) (fine_adds fine)
  · rw [bind_error ran]
    exact not_fine_bad

/-- `newPageTable` fails, and its result goes into the directory. -/
theorem table_fails (pid : Int) {pd pdi : Nat} (absent : pres (s.entry pd pdi) = false)
    (exhausted : Exhausted s) (queue : QueueKept s) :
    (∃ pt middle, pfTable pid pd pdi s = .ok pt middle ∧ Longer s middle ∧ Exhausted middle ∧
      QueueKept middle) ∨
      s.ker.currpolicy = .gca ∧
        ∃ final, pfTable pid pd pdi s = .error (.badIndex empty) final := by
  unfold pfTable
  rw [get_bind, if_pos absent]
  rcases allocation_fails exhausted queue .ptab pid noVpn with ⟨hand, ran⟩ | ⟨gca, final, ran⟩
  · left
    have made : newPageTable pid s = .ok sysErrPtr { s with fifoNextframe := hand } := by
      unfold newPageTable
      rw [bind_ok ran, if_pos rfl]
      rfl
    refine ⟨sysErrPtr, _, (bind_ok made _).trans rfl, List.suffix_cons _ _, exhausted, ?_⟩
    exact queue_of_view queue rfl
  · right
    exact ⟨gca, final, bind_error (bind_error ran _) _⟩

/-- With directories and tables only the clock looks at no entry. -/
theorem gca_scan_returns (noPage : ∀ x < nframes, (s.ipt x).status ≠ .page) (fuel : Nat) :
    ∃ choice hand, gcaScan fuel s = .ok choice { s with gcaNextframe := hand } := by
  have positive : 0 < nframes := by
    have boot := Config.bootFrames
    omega
  induction fuel generalizing s with
  | zero => exact ⟨.victim empty, s.gcaNextframe, rfl⟩
  | succ fuel induction =>
      have bound : s.gcaNextframe % nframes < nframes := Nat.mod_lt _ positive
      obtain ⟨choice, hand, ran⟩ :=
        induction (s := { s with gcaNextframe := s.gcaNextframe % nframes + 1 }) noPage
      unfold gcaScan
      rw [modify_bind, get_bind, bind_ok (read_frame_ok bound), if_neg (noPage _ bound)]
      split
      · exact ⟨_, _, rfl⟩
      · exact ⟨choice, hand, ran⟩

/-- An unused frame is taken without another one having to leave. -/
theorem spare_returns (tables : Tables s empty []) (queue : QueueKept s)
    (noPage : ∀ x < nframes, (s.ipt x).status ≠ .page) (spare : ¬Exhausted s) (type : FrameStatus)
    (pid vpn : Int) : ∃ addr final, getNewFrame type pid vpn s = .ok addr final := by
  unfold getNewFrame
  rcases fifo_or_gca s.ker.currpolicy with fifo | gca
  · obtain ⟨nodes, frameQueue⟩ := queue fifo
    obtain ⟨hand, found, scanned, usable, nothing⟩ := fifo_scan_ok (s := s) nframes
    unfold getNewFrameFIFO
    rw [get_bind, if_pos fifo, bind_ok scanned]
    cases found with
    | none =>
        have full : AllUsed s := scan_finds_all (nothing rfl)
        exact absurd (fun x bound => ⟨full x bound, noPage x bound⟩) spare
    | some fr =>
        obtain ⟨bound, free⟩ := usable fr rfl
        have looked : FrameQueue { s with fifoNextframe := hand } empty nodes :=
          frame_queue_congr frameQueue rfl rfl rfl
        have absent : fr ∉ nodes := fun member =>
          noPage fr bound ((frameQueue.members fr).mp member).1.2
        obtain ⟨ipt, head, tail, ran, _⟩ :=
          init_frame_ok looked fifo bound absent (Or.inr empty_not_frame) type pid vpn
        exact ⟨_, _, (bind_ok ran _).trans rfl⟩
  · obtain ⟨fr, found, bound, usable⟩ := clock_finds tables gca spare
    obtain ⟨choice, hand, scanned⟩ := gca_scan_returns noPage (3 * nframes + 1)
    obtain ⟨_, chosen⟩ := ends_ok (gca_scan_ends (apart_of_tables tables) (3 * nframes + 1)) scanned
    have free : (s.ipt fr).status = .notUsed := by
      rcases usable with free | ⟨fifo, _⟩ | ⟨_, page, _⟩
      · exact free
      · rw [gca] at fifo
        cases fifo
      · exact absurd page (noPage fr bound)
    obtain ⟨final, ran, _⟩ := init_frame_gca (s := { s with gcaNextframe := hand }) type pid vpn
      bound gca
    unfold getNewFrameGCA
    rw [get_bind, if_neg (by rw [gca]; decide), if_pos gca, bind_ok scanned, chosen, found,
      choiceOf, if_pos free]
    exact ⟨_, _, (bind_ok ran _).trans rfl⟩

/-- The new table takes the only frame. -/
theorem table_takes_last {pdi : Nat} (tables : Tables s empty []) (queue : QueueKept s)
    (live : HeapLive s pid) (own : Private pdi) (absent : pres (pdeOf s pid pdi) = false)
    (spare : ¬Exhausted s) (few : ¬Enough s) :
    ∃ pt middle, pfTable pid (s.ker.proctab pid).pd pdi s = .ok pt middle ∧ Longer s middle ∧
      Exhausted middle ∧ QueueKept middle := by
  have noPage : ∀ x < nframes, (s.ipt x).status ≠ .page := fun x bound page =>
    few (Or.inl ⟨x, bound, page⟩)
  have returns : ∃ pt middle, pfTable pid (s.ker.proctab pid).pd pdi s = .ok pt middle := by
    obtain ⟨addr, opened, ran⟩ := spare_returns tables queue noPage spare .ptab pid noVpn
    obtain ⟨fr, bound, rfl, _⟩ := ends_ok (get_new_frame_ends _ _ _ tables queue spare) ran
    have made : ∃ blanked, newPageTable pid s = .ok (frameNum2ptr fr) blanked := by
      unfold newPageTable
      rw [bind_ok ran, if_neg (frame_ptr_ne_syserr fr bound)]
      exact ⟨_, rfl⟩
    obtain ⟨blanked, made⟩ := made
    have isAbsent : pres (s.entry (s.ker.proctab pid).pd pdi) = false := absent
    unfold pfTable
    rw [get_bind, if_pos isAbsent, bind_ok made]
    exact ⟨_, _, rfl⟩
  obtain ⟨pt, middle, ran⟩ := returns
  obtain ⟨table, tableBound, rfl, made, ⟨effects, trace, _⟩, middleQueue⟩ :=
    ends_ok (pf_table_ends tables queue live own fun _ => spare) ran
  refine ⟨_, middle, ran, ⟨effects, trace.symm⟩, ?_, middleQueue⟩
  cases made with
  | found same present address =>
      rw [absent] at present
      cases present
  | made opened d words entry _ dirBound directory bound taken blank present address same =>
      have frames : middle.ipt = opened.ipt := by
        rw [same]
        rfl
      cases taken with
      | evicted chosen gone owner page d table looked picks mapping out inited =>
          exact absurd ((core_status (looked.frames _)).symm.trans mapping.page.2.1)
            (noPage _ bound)
      | unused chosen looked free inited =>
          intro x inside
          rw [frames]
          by_cases new : x = table
          · subst new
            have status : (opened.ipt x).status = .ptab :=
              core_status (new_frame_core (.unused chosen looked free inited))
            rw [status]
            exact ⟨by decide, by decide⟩
          · have status : (opened.ipt x).status = (s.ipt x).status :=
              (core_status (inited_other inited new)).trans (core_status (looked.frames x))
            rw [status]
            exact ⟨fun unused => few (Or.inr ⟨x, table, inside, bound, new, unused, free⟩),
              noPage x inside⟩

/-- The handler goes on in a state without a frame for the page. -/
theorem table_short {pdi : Nat} (tables : Tables s empty []) (queue : QueueKept s)
    (live : HeapLive s pid) (own : Private pdi) (short : ¬Fits s pid pdi) :
    (∃ pt middle, pfTable pid (s.ker.proctab pid).pd pdi s = .ok pt middle ∧ Longer s middle ∧
      Exhausted middle ∧ QueueKept middle) ∨
      s.ker.currpolicy = .gca ∧
        ∃ final, pfTable pid (s.ker.proctab pid).pd pdi s = .error (.badIndex empty) final := by
  by_cases absent : pres (pdeOf s pid pdi) = false
  · by_cases exhausted : Exhausted s
    · exact table_fails pid absent exhausted queue
    · have few : ¬Enough s := fun enough => short ⟨exhausted, fun _ => enough⟩
      exact Or.inl (table_takes_last tables queue live own absent exhausted few)
  · have exhausted : Exhausted s := by
      by_contra spare
      exact short ⟨spare, fun missing => absurd missing absent⟩
    have present : ¬pres (s.entry (s.ker.proctab pid).pd pdi) = false := absent
    refine Or.inl ⟨pdi2pt s (s.ker.proctab pid).pd pdi, s, ?_, longer_of_trace _ _ rfl, exhausted,
      queue⟩
    unfold pfTable
    rw [get_bind, if_neg present]
    rfl

/-- A fault that does not get its frames goes on without them. -/
theorem service_fails {vpn : Nat} (tables : Tables s empty []) (queue : QueueKept s)
    (heapPage : HeapPage s pid vpn) (index : vaddr2pdi a = vpn / 1024)
    (short : ¬Fits s pid (vpn / 1024)) : ¬Fine s (pfService pid a s) := by
  obtain ⟨live, low, high⟩ := heapPage
  unfold pfService
  rw [get_bind, index]
  rcases table_short tables queue live (private_of_heap tables live low high) short with
    ⟨pt, middle, ran, longer, exhausted, middleQueue⟩ | ⟨_, final, ran⟩
  · rw [bind_ok ran]
    exact page_fails longer exhausted middleQueue pt _
  · rw [bind_error ran]
    exact not_fine_bad

end Failure

section Handler

variable [Config] {s : St} {a : Nat}

/-- Each address that the handler takes for that of a frame is one, also when it does not return,
and it looks at no entry behind the frame table. -/
def UsesFrames (s : St) (a : Nat) : Prop := Fine s (pfHandler a s)

/-- The frame table is worked on between `wait(pf_sem)` and `signal(pf_sem)`. -/
theorem handler_fine (valid : isInvalidAddr s.ker a s.ker.currpid = false) (free : 1 ≤ pfCount s) :
    UsesFrames s a ↔
      Fine { s with ker := taken (counted s).ker .pfSem }
        (pfService s.ker.currpid a { s with ker := taken (counted s).ker .pfSem }) := by
  let held : St := { s with ker := taken (counted s).ker .pfSem }
  have opened : wait .pfSem (counted s) = .ok () held := wait_free free
  have validHeld : ¬isInvalidAddr held.ker a held.ker.currpid = true := by
    have same : isInvalidAddr held.ker a held.ker.currpid = false := valid
    rw [same]
    decide
  unfold UsesFrames pfHandler
  rw [modifyKer, modify_bind]
  change Fine s ((wait .pfSem >>= _) (counted s)) ↔ _
  rw [bind_ok opened, get_bind, if_neg validHeld]
  cases outcome : pfService held.ker.currpid a held with
  | error stop final =>
      rw [bind_error outcome]
      change _ ↔ Fine held (pfService held.ker.currpid a held)
      rw [outcome]
      rfl
  | ok value served =>
      have ker : served.ker = held.ker := pf_service_ker _ _ _ _ _ outcome
      have given : signal .pfSem served = .ok () { served with ker := (counted s).ker } :=
        signal_taken free ker
      rw [bind_ok outcome, given]
      change _ ↔ Fine held (pfService held.ker.currpid a held)
      rw [outcome]
      rfl

theorem uses_frames_iff (sound : Sound s) (free : 1 ≤ pfCount s) (live : Live s s.ker.currpid)
    (faults : Faults s a) (valid : isInvalidAddr s.ker a s.ker.currpid = false) :
    UsesFrames s a ↔ Fits s s.ker.currpid (vaddr2pdi a) := by
  have index : vaddr2pdi a = vaddr2vpn a / 1024 := by
    rw [page_directory_index a faults.1, page_number]
    omega
  obtain ⟨heapLive, inside⟩ := fault_in_heap sound live faults valid
  obtain ⟨heapPage, _⟩ := heap_page_of_address sound.stores heapLive inside
  obtain ⟨heldSound, _⟩ := held_sound sound
  rw [handler_fine valid free, index]
  constructor
  · intro fine
    by_contra short
    exact service_fails heldSound.tables heldSound.queue heapPage index short fine
  · intro fits
    exact ends_weaken (pf_service_ends heldSound.tables heldSound.queue heapPage faults.1 rfl fits)
      (fun _ _ _ ⟨⟨_, _, outcome⟩, _⟩ => outcome.adds) fun _ _ clean => clean

/-- In every run whose faults get the frames that they need and keep the table that they work on, a
fault on the heap uses addresses of frames only, if and only if it gets its frames, too. -/
theorem faults_use_frames {policy : Int} (run : Run (Started policy) Orderly s)
    (running : Running s) (faults : Faults s a)
    (valid : isInvalidAddr s.ker a s.ker.currpid = false) :
    UsesFrames s a ↔ Fits s s.ker.currpid (vaddr2pdi a) :=
  uses_frames_iff (run_orderly run) (run_rests run) (live_of_running running) faults valid

end Handler

section Example

/-- Process 2 of the three faults on its second page. -/
theorem faults_use_frames_second :
    ∃ s, @Run thirteen (@Started thirteen fifo) (@Orderly thirteen) s ∧ Running s ∧
      Faults s 0x1001000 ∧ (@UsesFrames thirteen s 0x1001000 ↔
        @Fits thirteen s s.ker.currpid (vaddr2pdi 0x1001000)) := by
  have facts : ∃ s, s = @afterEvents (@ServesFifo thirteen) (@decideServes thirteen) threeHeaps ∧
      Running s ∧ Faults s 0x1001000 ∧ isInvalidAddr s.ker 0x1001000 s.ker.currpid = false :=
    ⟨_, rfl, by decide +kernel⟩
  obtain ⟨s, same, running, faults, valid⟩ := facts
  have run := @run_orderly_of_serves thirteen _ _ three_heaps_run
  rw [← same] at run
  exact ⟨s, run, running, faults, @faults_use_frames thirteen _ _ _ run running faults valid⟩

theorem seven_enough : 6 ≤ 7 := by decide

theorem seven_fit : 7 ≤ 3072 := by decide

abbrev seven : Config := smallConfig 7 seven_enough seven_fit

/-- One process has the last frame for its directory. -/
def lastFrame : List Event := [.vcreate 1024 1 20, .resume 1, .resched 1]

def withoutFrames : St :=
  finalState (@bootAndRun seven fifo (@ServesFifo seven) (@decideServes seven) lastFrame
    blankMachine)

theorem without_frames_run : @Run seven (@Started seven fifo) (@Serves seven) withoutFrames := by
  have ran : returned (@bootAndRun seven fifo (@ServesFifo seven) (@decideServes seven) lastFrame
      blankMachine) = true := by decide +kernel
  exact @run_mono seven _ _ _ _ (fun _ _ => @serves_of_fifo seven _ _)
    (@start_and_run _ seven _ _ _ _ _ power_on_blank stores_off_blank (returned_unit ran))

/-- The run has stored the result of a `newPageTable` that failed. -/
def Stored (s : St) : Prop := Effect.setPDEAddr sysErrPtr ∈ s.trace

instance (s : St) : Decidable (Stored s) := inferInstanceAs (Decidable (_ ∈ _))

/-- The directory is the only frame that the process gets. -/
theorem failure_reaches_tables : ∃ s, @Run seven (@Started seven fifo) (@Orderly seven) s ∧
    Running s ∧ Faults s 0x1000000 ∧ isInvalidAddr s.ker 0x1000000 s.ker.currpid = false ∧
    ¬@UsesFrames seven s 0x1000000 := by
  have facts : ∃ s, s = withoutFrames ∧ Running s ∧ Faults s 0x1000000 ∧
      isInvalidAddr s.ker 0x1000000 s.ker.currpid = false ∧ ¬Stored s ∧
      Stored (finalState (@pfHandler seven 0x1000000 s)) := ⟨_, rfl, by decide +kernel⟩
  obtain ⟨s, same, running, faults, valid, before, stored⟩ := facts
  have run := @run_orderly_of_serves seven _ _ without_frames_run
  rw [← same] at run
  refine ⟨s, run, running, faults, valid, fun uses => ?_⟩
  obtain ⟨effects, trace, proper⟩ := @fine_adds seven s _ uses
  rw [Stored, trace] at stored
  rcases List.mem_append.mp stored with added | old
  · exact @syserr_not_frame seven (proper _ added sysErrPtr rfl)
  · exact before old

end Example

end Xinu.Space.RealFrames
