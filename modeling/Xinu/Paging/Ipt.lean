import Xinu.Paging.BackingStore

/-!
# The inverted page table

`ipt.c`: the frame table, the FIFO queue threaded through it, the two
replacement policies and eviction. Every access to `ipt` is checked against
`NFRAMES`; an access outside of the table stops the run with its index.

`evictFrame` is cut in front of the disk write, where the caller can lose the
processor: `evictBegin` is what happens before, `evictWrite` the write and the
two assignments after it.
-/

namespace Xinu.Paging.Ipt

open Xinu.Kernel.State Xinu.Kernel.Entry Xinu.Paging.Address Xinu.Paging.BackingStore
open Xinu.Lib.StateError

set_option autoImplicit false

def setFrame (s : St) (fr : Nat) (frame : Frame) : St :=
  { s with ipt := Function.update s.ipt fr frame }

section Frames

variable (s : St) (fr x : Nat) (frame : Frame)

@[simp] theorem set_frame_ker : (setFrame s fr frame).ker = s.ker := rfl

@[simp] theorem set_frame_mem : (setFrame s fr frame).mem = s.mem := rfl

@[simp] theorem set_frame_self : (setFrame s fr frame).ipt fr = frame := Function.update_self ..

theorem set_frame_other (different : x ≠ fr) : (setFrame s fr frame).ipt x = s.ipt x :=
  Function.update_of_ne different ..

end Frames

variable [Config]

def readFrame (fr : Nat) : Call Frame := do
  let s ← get
  if fr < nframes then pure (s.ipt fr) else throw (.badIndex fr)

def modifyFrame (fr : Nat) (change : Frame → Frame) : Call Unit := do
  if fr < nframes then modify fun s => setFrame s fr (change (s.ipt fr))
  else throw (.badIndex fr)

def clearedFrame : Frame where
  nextFrame := empty
  prevFrame := empty
  status := .notUsed
  pid := noProcess
  vpn := noVpn
  refCount := 0

def clearFrame (fr : Nat) : Call Unit := modifyFrame fr fun _ => clearedFrame

theorem read_frame_ok {s : St} {fr : Nat} (bound : fr < nframes) :
    readFrame fr s = .ok (s.ipt fr) s := by
  rw [readFrame, get_bind, if_pos bound, pure_apply]

theorem read_frame_bad {s : St} {fr : Nat} (outside : ¬fr < nframes) :
    readFrame fr s = .error (.badIndex fr) s := by
  rw [readFrame, get_bind, if_neg outside, throw_apply]

theorem modify_frame_ok {s : St} {fr : Nat} (bound : fr < nframes) (change : Frame → Frame) :
    modifyFrame fr change s = .ok () (setFrame s fr (change (s.ipt fr))) := by
  rw [modifyFrame, if_pos bound, modify_apply]

theorem modify_frame_bad {s : St} {fr : Nat} (outside : ¬fr < nframes) (change : Frame → Frame) :
    modifyFrame fr change s = .error (.badIndex fr) s := by
  rw [modifyFrame, if_neg outside, throw_apply]

/-- An access that came back had an index inside of the table. -/
theorem read_frame_inv {s final : St} {fr : Nat} {frame : Frame}
    (ran : readFrame fr s = .ok frame final) : fr < nframes ∧ frame = s.ipt fr ∧ final = s := by
  by_cases bound : fr < nframes
  · rw [read_frame_ok bound] at ran
    cases ran
    exact ⟨bound, rfl, rfl⟩
  · rw [read_frame_bad bound] at ran
    cases ran

theorem modify_frame_inv {s final : St} {fr : Nat} {change : Frame → Frame}
    (ran : modifyFrame fr change s = .ok () final) :
    fr < nframes ∧ final = setFrame s fr (change (s.ipt fr)) := by
  by_cases bound : fr < nframes
  · rw [modify_frame_ok bound] at ran
    cases ran
    exact ⟨bound, rfl⟩
  · rw [modify_frame_bad bound] at ran
    cases ran

def freeFrameFIFO (fr : Nat) : Call Unit := do
  let frame ← readFrame fr
  let prev := frame.prevFrame
  let next := frame.nextFrame
  let s ← get
  if fr = s.flistHead ∧ fr = s.flistTail then
    modify fun s => { s with flistHead := empty, flistTail := empty }
  else if fr = s.flistHead then do
    modifyFrame next fun frame => { frame with prevFrame := empty }
    modify fun s => { s with flistHead := next }
  else if fr = s.flistTail then do
    modifyFrame prev fun frame => { frame with nextFrame := empty }
    modify fun s => { s with flistTail := prev }
  else do
    modifyFrame prev fun frame => { frame with nextFrame := next }
    modifyFrame next fun frame => { frame with prevFrame := prev }

def freeFrameGCA (_fr : Nat) : Call Unit := pure ()

def freeFrame (fr : Nat) : Call Unit := do
  let frame ← readFrame fr
  let s ← get
  if s.ker.currpolicy = .fifo ∧ frame.status = .page then freeFrameFIFO fr
  else if s.ker.currpolicy = .gca ∧ frame.status = .page then freeFrameGCA fr
  clearFrame fr

/-- The loop of `freeProcFrames` over `fuel` frames from frame `i` on. -/
def freeProcFramesFrom (pid : Int) : Nat → Nat → Call Unit
  | 0, _ => pure ()
  | fuel + 1, i => do
      let frame ← readFrame i
      if frame.pid = pid then freeFrame i
      freeProcFramesFrom pid fuel (i + 1)

def freeProcFrames (pid : Int) : Call Unit := do
  let s ← get
  if (s.ker.proctab pid).vh = false then pure ()
  else freeProcFramesFrom pid nframes 0

def initFrameFIFO (fr : Nat) : Call Unit := do
  let s ← get
  if s.flistHead = empty ∧ s.flistTail = empty then
    modify fun s => { s with flistHead := fr, flistTail := fr }
  else do
    modifyFrame fr fun frame => { frame with nextFrame := s.flistHead, prevFrame := empty }
    modifyFrame s.flistHead fun frame => { frame with prevFrame := fr }
    modify fun s => { s with flistHead := fr }

def initFrameGCA (_fr : Nat) : Call Unit := pure ()

def newFrame (type : FrameStatus) (pid vpn : Int) : Frame where
  nextFrame := empty
  prevFrame := empty
  status := type
  pid := pid
  vpn := vpn
  refCount := 0

def initFrame (fr : Nat) (type : FrameStatus) (pid vpn : Int) : Call Unit := do
  modifyFrame fr fun _ => newFrame type pid vpn
  let s ← get
  if type = .page ∧ s.ker.currpolicy = .fifo then initFrameFIFO fr
  if type = .page ∧ s.ker.currpolicy = .gca then initFrameGCA fr

def pickFrameFIFO : Call Nat := do
  let s ← get
  if s.flistTail = empty ∧ s.flistHead = empty then pure sysErrPtr
  else if s.flistTail = s.flistHead then do
    modify fun s => { s with flistTail := empty, flistHead := empty }
    if s.flistTail = empty then throw (.panic "empty frame returned!!\n")
    else pure s.flistTail
  else do
    let fr := s.flistTail
    let frame ← readFrame fr
    modify fun s => { s with flistTail := frame.prevFrame }
    modifyFrame frame.prevFrame fun frame => { frame with nextFrame := empty }
    if fr = empty then throw (.panic "empty frame returned!!\n")
    else pure fr

def pickFrameGCA : Call Nat := throw (.panic "PANIC: pickFrameGCA called\n")

def pickFrame : Call Nat := do
  let s ← get
  if s.ker.currpolicy = .fifo then pickFrameFIFO else pickFrameGCA

section Frames

/-- Everything but the frame table and the list heads. -/
def outsideView (s : St) : Ker × (Nat → Nat → Word) × (Nat → Nat → Word) × List Effect :=
  (s.ker, s.mem, s.disk, s.trace)

theorem keeps_read_frame (fr : Nat) : Keeps outsideView (readFrame fr) :=
  keeps_bind keeps_get fun _ => keeps_ite (keeps_pure _) (keeps_throw _)

theorem keeps_modify_frame (fr : Nat) (change : Frame → Frame) :
    Keeps outsideView (modifyFrame fr change) :=
  keeps_ite (keeps_modify fun _ => rfl) (keeps_throw _)

theorem keeps_free_frame_fifo (fr : Nat) : Keeps outsideView (freeFrameFIFO fr) := by
  apply keeps_bind (keeps_read_frame _)
  intro frame
  apply keeps_bind keeps_get
  intro s
  apply keeps_ite
  · exact keeps_modify fun _ => rfl
  apply keeps_ite
  · exact keeps_bind (keeps_modify_frame _ _) fun _ => keeps_modify fun _ => rfl
  · apply keeps_ite
    · exact keeps_bind (keeps_modify_frame _ _) fun _ => keeps_modify fun _ => rfl
    · exact keeps_bind (keeps_modify_frame _ _) fun _ => keeps_modify_frame _ _

theorem keeps_free_frame (fr : Nat) : Keeps outsideView (freeFrame fr) := by
  apply keeps_bind (keeps_read_frame _)
  intro frame
  apply keeps_bind keeps_get
  intro s
  apply keeps_ite
  · exact keeps_bind (keeps_free_frame_fifo _) fun _ => keeps_modify_frame _ _
  · apply keeps_ite
    · exact keeps_bind (keeps_pure _) fun _ => keeps_modify_frame _ _
    · exact keeps_modify_frame _ _

theorem keeps_free_proc_frames (pid : Int) : Keeps outsideView (freeProcFrames pid) := by
  have loop : ∀ fuel i, Keeps outsideView (freeProcFramesFrom pid fuel i) := by
    intro fuel
    induction fuel with
    | zero =>
        intro i
        exact keeps_pure _
    | succ fuel induction =>
        intro i
        apply keeps_bind (keeps_read_frame _)
        intro frame
        apply keeps_ite
        · exact keeps_bind (keeps_free_frame _) fun _ => induction _
        · exact induction _
  apply keeps_bind keeps_get
  intro s
  exact keeps_ite (keeps_pure _) (loop _ _)

theorem keeps_init_frame (fr : Nat) (type : FrameStatus) (pid vpn : Int) :
    Keeps outsideView (initFrame fr type pid vpn) := by
  have enqueue : Keeps outsideView (initFrameFIFO fr) := by
    apply keeps_bind keeps_get
    intro s
    apply keeps_ite
    · exact keeps_modify fun _ => rfl
    apply keeps_bind (keeps_modify_frame _ _)
    intro _
    exact keeps_bind (keeps_modify_frame _ _) fun _ => keeps_modify fun _ => rfl
  have gca : ∀ {condition : Prop} [Decidable condition],
      Keeps outsideView (if condition then initFrameGCA fr else pure ()) :=
    keeps_ite (keeps_pure _) (keeps_pure _)
  apply keeps_bind (keeps_modify_frame _ _)
  intro _
  apply keeps_bind keeps_get
  intro s
  exact keeps_ite (keeps_bind enqueue fun _ => gca) gca

theorem keeps_pick_frame : Keeps outsideView pickFrame := by
  apply keeps_bind keeps_get
  intro s
  apply keeps_ite
  · apply keeps_bind keeps_get
    intro s
    apply keeps_ite (keeps_pure _)
    apply keeps_ite
    · apply keeps_bind
      · exact keeps_modify fun _ => rfl
      intro _
      exact keeps_ite (keeps_throw _) (keeps_pure _)
    · apply keeps_bind (keeps_read_frame _)
      intro frame
      apply keeps_bind
      · exact keeps_modify fun _ => rfl
      intro _
      apply keeps_bind (keeps_modify_frame _ _)
      intro _
      exact keeps_ite (keeps_throw _) (keeps_pure _)
  · exact keeps_throw _

end Frames

def decRefCount (pt pd pdi : Nat) : Call Unit := do
  let fr ← faddr2frameNum pt
  modifyFrame fr fun frame =>
    { frame with refCount := (frame.refCount + word32 - 1) % word32 }
  let frame ← readFrame fr
  if frame.refCount = 0 then do
    freeFrame fr
    setEntry pd pdi fun entry => setPres entry false
    log (.hookPtableDelete (fr + frame0))

def incRefCount (pt : Nat) : Call Unit := do
  log (.incRefCount pt)
  modifyFrame (frameNumOf pt) fun frame =>
    { frame with refCount := (frame.refCount + 1) % word32 }

/-- What `evictFrame` has in its local variables when it reaches the write. -/
structure Evicted where
  fr : Nat
  vp : Int
  pid : Int
  a : Nat
  pt : Nat
  pti : Nat

def evictBegin (fr : Nat) : Call Evicted := do
  let frame ← readFrame fr
  let vp := frame.vpn
  let pid := frame.pid
  let s ← get
  let pd := (s.ker.proctab pid).pd
  let a := pageAddr vp
  let pdi := vaddr2pdi a
  let pti := vaddr2pti a
  let pt := pdi2pt s pd pdi
  setEntry pt pti fun entry => setPres entry false
  if s.ker.currpid = pid then log (.invalPage a)
  decRefCount pt pd pdi
  pure { fr := fr, vp := vp, pid := pid, a := a, pt := pt, pti := pti }

/-- The test in front of the write. `pt_avail` keeps a dirty bit that the clock
has cleared. -/
def needsWrite (s : St) (e : Evicted) : Bool :=
  dirty (s.entry e.pt e.pti) || avail (s.entry e.pt e.pti) == 1

/-- `get_bs_info` returns `OK` or panics, so the branch of the source that kills
the current process cannot be taken. -/
def evictWrite (e : Evicted) : Call Unit := do
  let (bsd, offset) ← getBsInfo e.pid e.a
  let status ← writeBs (frameNum2ptr e.fr) bsd offset
  if status = sysErr then throw (.panic "PANIC: write_bs failed\n")
  else do
    setEntry e.pt e.pti fun entry => setDirty entry false
    setEntry e.pt e.pti fun entry => setAvail entry 0

def evictFrame (fr : Nat) : Call Unit := do
  let e ← evictBegin fr
  let s ← get
  if needsWrite s e then evictWrite e
  log (.hookPswapOut e.pid e.vp (fr + frame0))

/-- The loop of `getNewFrameFIFO` over at most `fuel` frame slots: the first
unused frame from the hand on. -/
def fifoScan : Nat → Call (Option Nat)
  | 0 => pure none
  | fuel + 1 => do
      modify fun s => { s with fifoNextframe := s.fifoNextframe % nframes }
      let s ← get
      let hand := s.fifoNextframe
      let frame ← readFrame hand
      modify fun s => { s with fifoNextframe := hand + 1 }
      if frame.status = .notUsed then pure (some hand) else fifoScan fuel

def getNewFrameFIFO (type : FrameStatus) (pid vpn : Int) : Call Nat := do
  match ← fifoScan nframes with
  | some fr => do
      initFrame fr type pid vpn
      pure (frameNum2ptr fr)
  | none => do
      let fr ← pickFrame
      if fr = sysErrPtr then pure sysErrPtr
      else do
        evictFrame fr
        initFrame fr type pid vpn
        pure (frameNum2ptr fr)

/-- The frames that `getAndSetUM` never lets be chosen. -/
def Skipped (frame : Frame) : Prop :=
  frame.pid = global ∨ frame.pid = noProcess ∨ frame.vpn = noVpn

instance (frame : Frame) : Decidable (Skipped frame) := inferInstanceAs (Decidable (_ ∨ _ ∨ _))

def getAndSetUM (fr : Nat) : Call UseModify := do
  let frame ← readFrame fr
  if Skipped frame then pure .skipFrame
  else do
    let s ← get
    let pd := (s.ker.proctab frame.pid).pd
    let a := pageAddr frame.vpn
    let pti := vaddr2pti a
    let pt := pdi2pt s pd (vaddr2pdi a)
    let use := acc (s.entry pt pti)
    let mod := dirty (s.entry pt pti)
    if use && mod then do
      setEntry pt pti fun entry => setDirty entry false
      setEntry pt pti fun entry => setAvail entry 1
      pure .um11
    else if use && !mod then do
      setEntry pt pti fun entry => setAcc entry false
      pure .um10
    else if !use && !mod then pure .um00
    else throw (.panic "getAndSetUM: invalid bit state\n")

inductive Choice where
  | unused (fr : Nat)
  | victim (fr : Nat)
  deriving DecidableEq

/-- The loop of `getNewFrameGCA`, at most `fuel` turns. When it ends without a
choice, `fr` still has its initial value `(uint32) -1`. -/
def gcaScan : Nat → Call Choice
  | 0 => pure (.victim empty)
  | fuel + 1 => do
      modify fun s => { s with gcaNextframe := s.gcaNextframe % nframes }
      let s ← get
      let hand := s.gcaNextframe
      let frame ← readFrame hand
      if frame.status = .notUsed then do
        modify fun s => { s with gcaNextframe := hand + 1 }
        pure (.unused hand)
      else if frame.status = .page then do
        let bits ← getAndSetUM hand
        modify fun s => { s with gcaNextframe := hand + 1 }
        if bits = .um00 then pure (.victim hand) else gcaScan fuel
      else do
        modify fun s => { s with gcaNextframe := hand + 1 }
        gcaScan fuel

def getNewFrameGCA (type : FrameStatus) (pid vpn : Int) : Call Nat := do
  match ← gcaScan (3 * nframes + 1) with
  | .unused fr => do
      initFrame fr type pid vpn
      pure (frameNum2ptr fr)
  | .victim fr => do
      evictFrame fr
      initFrame fr type pid vpn
      pure (frameNum2ptr fr)

def getNewFrame (type : FrameStatus) (pid vpn : Int) : Call Nat := do
  let s ← get
  if s.ker.currpolicy = .fifo then getNewFrameFIFO type pid vpn
  else if s.ker.currpolicy = .gca then getNewFrameGCA type pid vpn
  else pure sysErrPtr

/-- The loop of `init_ipt`. -/
def initIptFrom : Nat → Nat → Call Unit
  | 0, _ => pure ()
  | fuel + 1, i => do
      clearFrame i
      initIptFrom fuel (i + 1)

def initIpt : Call Unit := initIptFrom nframes 0

end Xinu.Paging.Ipt
