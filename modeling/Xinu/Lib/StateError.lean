import Mathlib.Tactic.Common

/-!
# Running state-and-error programs

Evaluation rules for `EStateM`: a run either returns a value or stops with an
error, and in both cases it has a final state. `bind_ok` steps a run forward
through a first action whose result is known; `bind_ok_inv` takes a finished run
apart; `Keeps` says that an action leaves some view of the state as it was,
whether it returns or stops, and `Moves` that it goes to a state in some relation
to the one before; `Ends` bounds both ways a run can end, and `Stops` the errors of
all runs of an action.
-/

namespace Xinu.Lib.StateError

set_option autoImplicit false

universe u

variable {ε σ α β : Type u}

theorem pure_apply (value : α) (state : σ) :
    (pure value : EStateM ε σ α) state = .ok value state := rfl

theorem modify_apply (change : σ → σ) (state : σ) :
    (modify change : EStateM ε σ PUnit) state = .ok PUnit.unit (change state) := rfl

theorem throw_apply (error : ε) (state : σ) :
    (throw error : EStateM ε σ α) state = .error error state := rfl

theorem bind_apply (first : EStateM ε σ α) (next : α → EStateM ε σ β) (state : σ) :
    (first >>= next) state =
      match first state with
      | .ok value middle => next value middle
      | .error error middle => .error error middle := rfl

theorem bind_ok {first : EStateM ε σ α} {state middle : σ} {value : α}
    (ran : first state = .ok value middle) (next : α → EStateM ε σ β) :
    (first >>= next) state = next value middle := by
  rw [bind_apply, ran]

theorem bind_error {first : EStateM ε σ α} {state middle : σ} {error : ε}
    (ran : first state = .error error middle) (next : α → EStateM ε σ β) :
    (first >>= next) state = .error error middle := by
  rw [bind_apply, ran]

/-- A run of a sequence that returned: both parts returned. -/
theorem bind_ok_inv {first : EStateM ε σ α} {next : α → EStateM ε σ β} {state final : σ}
    {result : β} (ran : (first >>= next) state = .ok result final) :
    ∃ value middle, first state = .ok value middle ∧ next value middle = .ok result final := by
  rw [bind_apply] at ran
  cases outcome : first state with
  | ok value middle =>
      rw [outcome] at ran
      exact ⟨value, middle, rfl, ran⟩
  | error error middle =>
      rw [outcome] at ran
      cases ran

theorem get_bind (next : σ → EStateM ε σ β) (state : σ) :
    (get >>= next) state = next state state := rfl

theorem modify_bind (change : σ → σ) (next : PUnit → EStateM ε σ β) (state : σ) :
    (modify change >>= next) state = next PUnit.unit (change state) := rfl

/-- The final state of a run, returned or stopped. -/
def finalState (outcome : EStateM.Result ε σ α) : σ :=
  match outcome with
  | .ok _ state => state
  | .error _ state => state

/-- Whether a run returned. -/
def returned (outcome : EStateM.Result ε σ α) : Bool :=
  match outcome with
  | .ok _ _ => true
  | .error _ _ => false

theorem returned_ok {outcome : EStateM.Result ε σ α} (came : returned outcome = true) :
    ∃ value, outcome = .ok value (finalState outcome) := by
  cases outcome with
  | ok value state => exact ⟨value, rfl⟩
  | error error state => cases came

theorem returned_unit {outcome : EStateM.Result ε σ PUnit} (came : returned outcome = true) :
    outcome = .ok PUnit.unit (finalState outcome) := by
  obtain ⟨_, ran⟩ := returned_ok came
  exact ran

/-- Whether a run returned a given value. -/
def returnedWith [DecidableEq α] (value : α) (outcome : EStateM.Result ε σ α) : Bool :=
  match outcome with
  | .ok result _ => decide (result = value)
  | .error _ _ => false

theorem returned_with [DecidableEq α] {value : α} {outcome : EStateM.Result ε σ α}
    (came : returnedWith value outcome = true) : outcome = .ok value (finalState outcome) := by
  cases outcome with
  | ok result state => rw [of_decide_eq_true came, finalState]
  | error error state => cases came

/-- `action` leaves `view` of the state unchanged on every run. -/
def Keeps {γ : Type*} (view : σ → γ) (action : EStateM ε σ α) : Prop :=
  ∀ state, view (finalState (action state)) = view state

section Keeps

variable {γ : Type*} {view : σ → γ}

theorem keeps_ok {action : EStateM ε σ α} (keeps : Keeps view action) {state final : σ} {value : α}
    (ran : action state = .ok value final) : view final = view state := by
  have kept := keeps state
  rw [ran] at kept
  exact kept

theorem keeps_error {action : EStateM ε σ α} (keeps : Keeps view action) {state final : σ}
    {error : ε} (ran : action state = .error error final) : view final = view state := by
  have kept := keeps state
  rw [ran] at kept
  exact kept

/-- A coarser view is kept as well. -/
theorem keeps_map {δ : Type*} {action : EStateM ε σ α} (keeps : Keeps view action) (coarser : γ → δ) :
    Keeps (fun state => coarser (view state)) action :=
  fun state => congrArg coarser (keeps state)

theorem keeps_pure (value : α) : Keeps view (pure value : EStateM ε σ α) := by
  intro state
  rfl

theorem keeps_throw (error : ε) : Keeps view (throw error : EStateM ε σ α) := by
  intro state
  rfl

theorem keeps_get : Keeps view (get : EStateM ε σ σ) := by
  intro state
  rfl

theorem keeps_modify {change : σ → σ} (kept : ∀ state, view (change state) = view state) :
    Keeps view (modify change : EStateM ε σ PUnit) := by
  intro state
  exact kept state

theorem keeps_bind {first : EStateM ε σ α} {next : α → EStateM ε σ β}
    (keepsFirst : Keeps view first) (keepsNext : ∀ value, Keeps view (next value)) :
    Keeps view (first >>= next) := by
  intro state
  rw [bind_apply]
  cases outcome : first state with
  | ok value middle => exact (keepsNext value middle).trans (keeps_ok keepsFirst outcome)
  | error error middle => exact keeps_error keepsFirst outcome

theorem keeps_ite {condition : Prop} [Decidable condition] {yes no : EStateM ε σ α}
    (keepsYes : Keeps view yes) (keepsNo : Keeps view no) :
    Keeps view (if condition then yes else no) := by
  split
  · exact keepsYes
  · exact keepsNo

end Keeps

/-- Every run of `action` that returns leaves `view` of the state unchanged. -/
def Returns {γ : Type*} (view : σ → γ) (action : EStateM ε σ α) : Prop :=
  ∀ state value final, action state = .ok value final → view final = view state

section Returns

variable {γ : Type*} {view : σ → γ}

theorem returns_of_keeps {action : EStateM ε σ α} (keeps : Keeps view action) :
    Returns view action := fun _ _ _ ran => keeps_ok keeps ran

theorem returns_map {δ : Type*} {action : EStateM ε σ α} (returns : Returns view action)
    (coarser : γ → δ) : Returns (fun state => coarser (view state)) action :=
  fun state value final ran => congrArg coarser (returns state value final ran)

theorem returns_pure (value : α) : Returns view (pure value : EStateM ε σ α) :=
  returns_of_keeps (keeps_pure value)

theorem returns_throw (error : ε) : Returns view (throw error : EStateM ε σ α) :=
  returns_of_keeps (keeps_throw error)

theorem returns_get : Returns view (get : EStateM ε σ σ) := returns_of_keeps keeps_get

theorem returns_modify {change : σ → σ} (kept : ∀ state, view (change state) = view state) :
    Returns view (modify change : EStateM ε σ PUnit) := returns_of_keeps (keeps_modify kept)

theorem returns_bind {first : EStateM ε σ α} {next : α → EStateM ε σ β}
    (returnsFirst : Returns view first) (returnsNext : ∀ value, Returns view (next value)) :
    Returns view (first >>= next) := by
  intro state result final ran
  obtain ⟨value, middle, firstRan, ran⟩ := bind_ok_inv ran
  exact (returnsNext value middle result final ran).trans (returnsFirst state value middle firstRan)

theorem returns_ite {condition : Prop} [Decidable condition] {yes no : EStateM ε σ α}
    (returnsYes : Returns view yes) (returnsNo : Returns view no) :
    Returns view (if condition then yes else no) := by
  split
  · exact returnsYes
  · exact returnsNo

end Returns

/-- Every run of `action` leads from a state to one in relation to it. -/
def Moves (relation : σ → σ → Prop) (action : EStateM ε σ α) : Prop :=
  ∀ state, relation state (finalState (action state))

section Moves

variable {relation : σ → σ → Prop}

theorem moves_of_keeps {γ : Type*} {view : σ → γ} {action : EStateM ε σ α}
    (coarser : ∀ state final, view final = view state → relation state final)
    (keeps : Keeps view action) : Moves relation action :=
  fun state => coarser state _ (keeps state)

theorem moves_modify {change : σ → σ} (related : ∀ state, relation state (change state)) :
    Moves relation (modify change : EStateM ε σ PUnit) := related

theorem moves_bind [IsTrans σ relation] {first : EStateM ε σ α} {next : α → EStateM ε σ β}
    (movesFirst : Moves relation first) (movesNext : ∀ value, Moves relation (next value)) :
    Moves relation (first >>= next) := by
  intro state
  have start := movesFirst state
  rw [bind_apply]
  cases outcome : first state with
  | ok value middle =>
      rw [outcome] at start
      exact IsTrans.trans _ _ _ start (movesNext value middle)
  | error error middle =>
      rw [outcome] at start
      exact start

theorem moves_ite {condition : Prop} [Decidable condition] {yes no : EStateM ε σ α}
    (movesYes : Moves relation yes) (movesNo : Moves relation no) :
    Moves relation (if condition then yes else no) := by
  split
  · exact movesYes
  · exact movesNo

end Moves

/-- A run ends as asked: it returns a result that meets `post`, or it stops in a
way that `stop` allows. -/
def Ends (outcome : EStateM.Result ε σ α) (post : α → σ → Prop) (stop : ε → σ → Prop) : Prop :=
  match outcome with
  | .ok value state => post value state
  | .error error state => stop error state

section Ends

variable {post : α → σ → Prop} {stop : ε → σ → Prop}

theorem ends_ok {outcome : EStateM.Result ε σ α} {value : α} {state : σ}
    (ends : Ends outcome post stop) (ran : outcome = .ok value state) : post value state := by
  rw [ran] at ends
  exact ends

theorem ends_weaken {outcome : EStateM.Result ε σ α} {post' : α → σ → Prop}
    {stop' : ε → σ → Prop} (ends : Ends outcome post' stop')
    (returns : ∀ value state, outcome = .ok value state → post' value state → post value state)
    (stops : ∀ error state, stop' error state → stop error state) : Ends outcome post stop := by
  cases outcome with
  | ok value state => exact returns value state rfl ends
  | error error state => exact stops error state ends

theorem ends_stop {outcome : EStateM.Result ε σ α} {stop' : ε → σ → Prop}
    (ends : Ends outcome post stop') (stops : ∀ error state, stop' error state → stop error state) :
    Ends outcome post stop := ends_weaken ends (fun _ _ _ met => met) stops

theorem ends_bind {first : EStateM ε σ α} {next : α → EStateM ε σ β} {state : σ}
    {middle : α → σ → Prop} {post : β → σ → Prop}
    (ends : Ends (first state) middle stop)
    (continues : ∀ value between, first state = .ok value between → middle value between →
      Ends (next value between) post stop) :
    Ends ((first >>= next) state) post stop := by
  rw [bind_apply]
  cases outcome : first state with
  | ok value between =>
      rw [outcome] at ends
      exact continues value between outcome ends
  | error error between =>
      rw [outcome] at ends
      exact ends

end Ends

/-- Every run of `action` that stops does so with an `allowed` error. -/
def Stops (allowed : ε → Prop) (action : EStateM ε σ α) : Prop :=
  ∀ state, Ends (action state) (fun _ _ => True) fun error _ => allowed error

section Stops

variable {allowed : ε → Prop}

theorem stops_pure (value : α) : Stops allowed (pure value : EStateM ε σ α) := fun _ => trivial

theorem stops_throw {error : ε} (may : allowed error) :
    Stops allowed (throw error : EStateM ε σ α) := fun _ => may

theorem stops_get : Stops allowed (get : EStateM ε σ σ) := fun _ => trivial

theorem stops_modify (change : σ → σ) : Stops allowed (modify change : EStateM ε σ PUnit) :=
  fun _ => trivial

theorem stops_bind {first : EStateM ε σ α} {next : α → EStateM ε σ β}
    (stopsFirst : Stops allowed first) (stopsNext : ∀ value, Stops allowed (next value)) :
    Stops allowed (first >>= next) :=
  fun state => ends_bind (stopsFirst state) fun value between _ _ => stopsNext value between

theorem stops_ite {condition : Prop} [Decidable condition] {yes no : EStateM ε σ α}
    (stopsYes : Stops allowed yes) (stopsNo : Stops allowed no) :
    Stops allowed (if condition then yes else no) := by
  split
  · exact stopsYes
  · exact stopsNo

end Stops

end Xinu.Lib.StateError
