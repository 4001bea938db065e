import Xinu.Space.Runs

/-!
# Runs that change the replacement policy

`srpolicy` converts nothing. The tables do not depend on the policy, and neither do the links of the
frames that hold no page. A change to FIFO goes well when the list that it finds is the one that
FIFO would have built.
-/

namespace Xinu.Space.PolicyChanges

open Xinu.Kernel.State Xinu.Lib.StateError Xinu.Paging.Address Xinu.Paging.System
open Xinu.Replacement.SystemCalls Xinu.Replacement.Fifo Xinu.Replacement.FifoRuns
open Xinu.Space.Allocate
open Xinu.Space.Agreement Xinu.Space.Runs Xinu.Swap.Conservation Xinu.Swap.Places

set_option autoImplicit false

variable [Config]

/-- The list from `flist_head` holds the pages, each once. -/
def Listed (s : St) : Prop := ∃ nodes, FrameQueue s empty nodes

/-- FIFO is chosen over a list of the pages. -/
def FindsList (s : St) : Event → Prop
  | .srpolicy policy => policy = fifo → Listed s
  | _ => True

/-- The steps of `Completes` and changes of the policy. -/
def Orderly (s : St) (event : Event) : Prop :=
  Fitting s event ∧ KeepsTable s event ∧ FindsList s event

theorem orderly_of_serves {s : St} {event : Event} (serves : Serves s event) :
    Orderly s event := by
  have completes := completes_of_serves serves
  refine ⟨completes.2.1, completes.2.2, ?_⟩
  cases event with
  | srpolicy policy => exact absurd completes.1 id
  | _ => trivial

variable {s final : St}

theorem policy_sound {policy status : Int} (sound : Sound s)
    (found : policy = fifo → Listed s) (ran : srpolicy policy s = .ok status final) :
    Sound final := by
  have same := srpolicy_returned ran
  have stores : StoresKept final := by
    rw [same]
    exact kept_of_ker sound.stores rfl rfl rfl rfl
  have queue : QueueKept final := by
    intro isFifo
    have listed : Listed s := by
      by_cases chosen : policy = fifo
      · exact found chosen
      · apply sound.queue
        rw [same] at isFifo
        simp only [if_neg chosen] at isFifo
        split at isFifo
        · cases isFifo
        · exact isFifo
    obtain ⟨nodes, frames⟩ := listed
    rw [same]
    exact ⟨nodes, frame_queue_congr frames rfl rfl rfl⟩
  have alike : Alike s final := by
    rw [same]
    exact ⟨fun _ => rfl, fun _ => rfl, fun _ _ _ _ => ⟨rfl, rfl⟩⟩
  have roots : final.ker.gpt = s.ker.gpt ∧ final.ker.dpt = s.ker.dpt ∧
      final.ker.gpd = s.ker.gpd := by
    rw [same]
    exact ⟨rfl, rfl, rfl⟩
  exact (sound_of_alike sound alike roots queue stores).1

/-- A step changes the policy, or it is a step of a run with one policy. -/
theorem changed_or_fixed {event : Event} {reply : Reply} (ran : exec event s = .ok reply final) :
    Fixed s event ∨ ∃ policy status, event = .srpolicy policy ∧
      srpolicy policy s = .ok status final := by
  cases event with
  | srpolicy policy =>
      unfold exec at ran
      rw [get_bind] at ran
      dsimp only at ran
      split at ran
      · obtain ⟨status, middle, changed, ran⟩ := bind_ok_inv ran
        cases ran
        exact Or.inr ⟨policy, status, rfl, changed⟩
      · cases ran
  | _ => exact Or.inl trivial

theorem exec_orderly {event : Event} {reply : Reply} (sound : Sound s)
    (orderly : Orderly s event) (ran : exec event s = .ok reply final) : Sound final := by
  obtain ⟨fitting, keeps, finds⟩ := orderly
  rcases changed_or_fixed ran with fixed | ⟨policy, status, rfl, changed⟩
  · exact (exec_completed sound ⟨fixed, fitting, keeps⟩ ran).1
  · exact policy_sound sound finds changed

section Reached

variable {policy : Int}

/-- The tables and the list in every run whose changes to FIFO find the list. -/
theorem run_orderly (run : Run (Started policy) Orderly s) : Sound s := by
  induction run with
  | start started => exact started_sound started
  | step _ orderly ran induction => exact exec_orderly induction orderly ran

theorem run_orderly_of_serves (run : Run (Started policy) Serves s) :
    Run (Started policy) Orderly s := run_mono (fun _ _ => orderly_of_serves) run

/-- Between two steps `pf_sem` is free. -/
theorem run_rests {allowed : St → Event → Prop} (run : Run (Started policy) allowed s) :
    1 ≤ pfCount s := by
  induction run with
  | start started => exact (system_run_rests (.start started.1)).2
  | step _ _ ran induction =>
      rcases changed_or_fixed ran with fixed | ⟨policy, status, rfl, changed⟩
      · obtain ⟨_, _, grown⟩ := calls_exec fixed ⟨_, fun _ => 0, 0⟩ _ _ ran
        simp only at grown
        omega
      · rw [srpolicy_returned changed]
        exact induction

end Reached

end Xinu.Space.PolicyChanges
