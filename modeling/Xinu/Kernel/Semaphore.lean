import Xinu.Kernel.State
import Mathlib.Logic.Function.Basic

/-!
# wait and signal

`wait` takes the count down and blocks the caller when it falls below zero;
`signal` puts it up and, when somebody was waiting, makes the first process of
the queue ready. Interrupts are disabled inside both, so each is one step.
-/

namespace Xinu.Kernel.Semaphore

open Xinu.Kernel.State Xinu.Lib.StateError

set_option autoImplicit false

def wait (sem : Sem) : Call Unit := do
  modifyKer fun ker => ker.setSem sem fun sentry => { sentry with scount := sentry.scount - 1 }
  let s ← get
  if (s.ker.semtab sem).scount < 0 then do
    modifyKer fun ker => (ker.setProc ker.currpid fun proc =>
        { proc with prstate := .wait, prsem := some sem }).setSem sem fun sentry =>
      { sentry with squeue := sentry.squeue ++ [ker.currpid] }
    throw (.blocked sem)
  else pure ()

/-- `ready`: the process enters the ready list. -/
def ready (ker : Ker) (pid : Int) : Ker :=
  ker.setProc pid fun proc => { proc with prstate := .ready }

def signal (sem : Sem) : Call Unit := do
  let s ← get
  modifyKer fun ker => ker.setSem sem fun sentry => { sentry with scount := sentry.scount + 1 }
  if (s.ker.semtab sem).scount < 0 then
    match (s.ker.semtab sem).squeue with
    | [] => pure ()
    | first :: rest =>
        modifyKer fun ker =>
          ready (ker.setSem sem fun sentry => { sentry with squeue := rest }) first
  else pure ()

/-- The kernel variables while one caller holds `sem`. -/
def taken (ker : Ker) (sem : Sem) : Ker :=
  ker.setSem sem fun sentry => { sentry with scount := sentry.scount - 1 }

theorem wait_free {s : St} {sem : Sem} (free : 1 ≤ (s.ker.semtab sem).scount) :
    wait sem s = .ok () { s with ker := taken s.ker sem } := by
  have count : ((taken s.ker sem).semtab sem).scount = (s.ker.semtab sem).scount - 1 := by
    simp [taken, Ker.setSem]
  have notBlocked : ¬((taken s.ker sem).semtab sem).scount < 0 := by omega
  unfold wait
  simp only [modifyKer, modify_bind, get_bind]
  change (if ((taken s.ker sem).semtab sem).scount < 0 then _ else _ : Call Unit) _ = _
  rw [if_neg notBlocked]
  rfl

theorem wait_held {s : St} (sem : Sem) (held : (s.ker.semtab sem).scount ≤ 0) :
    ∃ final, wait sem s = .error (.blocked sem) final ∧
      final.ker = ((taken s.ker sem).setProc s.ker.currpid fun proc =>
        { proc with prstate := .wait, prsem := some sem }).setSem sem fun sentry =>
          { sentry with squeue := sentry.squeue ++ [s.ker.currpid] } := by
  have count : ((taken s.ker sem).semtab sem).scount = (s.ker.semtab sem).scount - 1 := by
    simp [taken, Ker.setSem]
  have blocked : ((taken s.ker sem).semtab sem).scount < 0 := by omega
  unfold wait
  simp only [modifyKer, modify_bind, get_bind]
  change ∃ final, (if ((taken s.ker sem).semtab sem).scount < 0 then _ else _ : Call Unit) _ = _ ∧ _
  rw [if_pos blocked]
  exact ⟨_, rfl, rfl⟩

/-- Releasing a semaphore on which nobody waits undoes taking it. -/
theorem signal_taken {s : St} {ker : Ker} {sem : Sem} (free : 1 ≤ (ker.semtab sem).scount)
    (holding : s.ker = taken ker sem) : signal sem s = .ok () { s with ker := ker } := by
  have count : (s.ker.semtab sem).scount = (ker.semtab sem).scount - 1 := by
    simp [holding, taken, Ker.setSem]
  have nobody : ¬(s.ker.semtab sem).scount < 0 := by omega
  have restored : (taken ker sem).setSem sem
      (fun sentry => { sentry with scount := sentry.scount + 1 }) = ker := by
    simp [taken, Ker.setSem]
  unfold signal
  simp only [modifyKer, get_bind, modify_bind]
  rw [if_neg nobody, holding, restored]
  rfl

/-- `signal` on a semaphore that nobody waits for. -/
theorem signal_nobody {s : St} {sem : Sem} (nobody : 0 ≤ (s.ker.semtab sem).scount) :
    signal sem s = .ok () { s with ker := s.ker.setSem sem fun sentry =>
      { sentry with scount := sentry.scount + 1 } } := by
  unfold signal
  simp only [modifyKer, get_bind, modify_bind]
  rw [if_neg (by omega)]
  rfl

/-- `wait` returns only to a caller that got the semaphore. -/
theorem wait_returned {s final : St} {sem : Sem} (ran : wait sem s = .ok () final) :
    1 ≤ (s.ker.semtab sem).scount ∧ final = { s with ker := taken s.ker sem } := by
  by_cases free : 1 ≤ (s.ker.semtab sem).scount
  · rw [wait_free free] at ran
    cases ran
    exact ⟨free, rfl⟩
  · obtain ⟨stopped, blocked, _⟩ := wait_held (s := s) sem (by omega)
    rw [blocked] at ran
    cases ran

/-- `signal` always returns and changes no kernel variable but the count, the
queue and the state of a process it wakes. -/
theorem signal_returned (s : St) (sem : Sem) :
    ∃ ker, signal sem s = .ok () { s with ker := ker } ∧ ker.currpolicy = s.ker.currpolicy ∧
      (ker.semtab sem).scount = (s.ker.semtab sem).scount + 1 := by
  unfold signal
  simp only [modifyKer, get_bind, modify_bind]
  split
  · cases (s.ker.semtab sem).squeue with
    | nil => exact ⟨_, rfl, rfl, by simp [Ker.setSem]⟩
    | cons first rest => exact ⟨_, rfl, rfl, by simp [ready, Ker.setProc, Ker.setSem]⟩
  · exact ⟨_, rfl, rfl, by simp [Ker.setSem]⟩

section Views

variable {γ : Type} {view : St → γ}

/-- The semaphore operations change nothing but the process and semaphore tables. -/
theorem wait_keeps (sem : Sem)
    (kept : ∀ (s : St) (proctab : Int → Procent) (semtab : Sem → Sentry),
      view { s with ker := { s.ker with proctab := proctab, semtab := semtab } } = view s) :
    Keeps view (wait sem) := by
  apply keeps_bind
  · exact keeps_modify fun s => kept s s.ker.proctab _
  intro _
  apply keeps_bind keeps_get
  intro s
  apply keeps_ite
  · apply keeps_bind
    · exact keeps_modify fun s => kept s _ _
    intro _
    exact keeps_throw _
  · exact keeps_pure _

theorem signal_keeps (sem : Sem)
    (kept : ∀ (s : St) (proctab : Int → Procent) (semtab : Sem → Sentry),
      view { s with ker := { s.ker with proctab := proctab, semtab := semtab } } = view s) :
    Keeps view (signal sem) := by
  apply keeps_bind keeps_get
  intro s
  apply keeps_bind
  · exact keeps_modify fun s => kept s s.ker.proctab _
  intro _
  apply keeps_ite
  · split
    · exact keeps_pure _
    · exact keeps_modify fun s => kept s _ _
  · exact keeps_pure _

end Views

end Xinu.Kernel.Semaphore
