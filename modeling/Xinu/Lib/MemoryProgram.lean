import Mathlib.Init

/-!
# Programs over a memory

A program asks for loads and stores and ends with a result. `eval` runs it on a function.
`Runs` runs it on a system that does other things in between, and `runs_eval` says when the
two agree: when the system keeps, for one of its clients, a view that looks like a memory.
-/

namespace Xinu.Lib.MemoryProgram

set_option autoImplicit false

inductive Program (A V α : Type) where
  | done (result : α)
  | load (a : A) (next : V → Program A V α)
  | store (a : A) (value : V) (next : Program A V α)

variable {A V α β S : Type}

def Program.bind : Program A V α → (α → Program A V β) → Program A V β
  | .done result, rest => rest result
  | .load a next, rest => .load a fun value => (next value).bind rest
  | .store a value next, rest => .store a value (next.bind rest)

instance : Monad (Program A V) where
  pure := .done
  bind := .bind

/-- The result of a program on a memory. -/
def Program.eval [DecidableEq A] : Program A V α → (A → V) → α
  | .done result, _ => result
  | .load a next, memory => (next (memory a)).eval memory
  | .store a value next, memory => next.eval fun b => if b = a then value else memory b

/-- The steps of a system as one of its clients sees them. -/
structure System (S A V : Type) where
  idle : S → S → Prop
  load : S → A → V → S → Prop
  store : S → A → V → S → Prop

/-- The client executes a program while the system goes on. -/
inductive Runs (system : System S A V) : Program A V α → S → α → S → Prop
  | done (result : α) (s : S) : Runs system (.done result) s result s
  | load {a : A} {value : V} {next : V → Program A V α} {s middle final : S} {result : α}
      (step : system.load s a value middle) (rest : Runs system (next value) middle result final) :
      Runs system (.load a next) s result final
  | store {a : A} {value : V} {next : Program A V α} {s middle final : S} {result : α}
      (step : system.store s a value middle) (rest : Runs system next middle result final) :
      Runs system (.store a value next) s result final
  | idle {program : Program A V α} {s middle final : S} {result : α} (step : system.idle s middle)
      (rest : Runs system program middle result final) : Runs system program s result final

/-- The system shows its client a memory on the addresses `inside`. -/
structure Shows [DecidableEq A] (system : System S A V) (holds : S → Prop) (inside : A → Prop)
    (view : S → A → V) : Prop where
  idle : ∀ {s final}, holds s → system.idle s final →
    holds final ∧ ∀ a, inside a → view final a = view s a
  load : ∀ {s a value final}, holds s → system.load s a value final →
    holds final ∧ inside a ∧ value = view s a ∧ ∀ b, inside b → view final b = view s b
  store : ∀ {s a value final}, holds s → system.store s a value final →
    holds final ∧ ∀ b, inside b → view final b = if b = a then value else view s b

theorem runs_eval [DecidableEq A] {system : System S A V} {holds : S → Prop} {inside : A → Prop}
    {view : S → A → V} (shows : Shows system holds inside view) {program : Program A V α}
    {s final : S} {result : α} (runs : Runs system program s result final) (start : holds s)
    {memory : A → V} (same : ∀ a, inside a → view s a = memory a) :
    result = program.eval memory := by
  induction runs generalizing memory with
  | done result s => rfl
  | load step _ induction =>
      obtain ⟨kept, within, read, others⟩ := shows.load start step
      rw [Program.eval, ← same _ within, ← read]
      exact induction kept fun b isInside => (others b isInside).trans (same b isInside)
  | store step _ induction =>
      obtain ⟨kept, others⟩ := shows.store start step
      refine induction kept fun b isInside => ?_
      rw [others b isInside, same b isInside]
  | idle step _ induction =>
      obtain ⟨kept, others⟩ := shows.idle start step
      exact induction kept fun b isInside => (others b isInside).trans (same b isInside)

end Xinu.Lib.MemoryProgram
