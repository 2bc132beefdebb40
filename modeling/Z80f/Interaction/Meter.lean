import Z80f.Interaction.Program
import Mathlib.Algebra.BigOperators.Group.List.Basic

/-! # Meters

A meter is a running total in the state of an environment: every exchange adds
its charge to it.  After a run the meter has grown by the charges of the log,
and a note that shows the meter shows the charges so far. -/

set_option autoImplicit false

namespace Interaction

section Meter
variable {Request : Type} {Answer : Request → Type} {State Note Total α : Type}

def Environment.exchange (env : Environment Request Answer State Note) (request : Request)
    (state : State) : Exchange Request Answer Note :=
  ⟨request, (env.serve request state).1, (env.serve request state).2.2⟩

def Environment.Metered [Add Total] (env : Environment Request Answer State Note)
    (meter : State → Total) (charge : Exchange Request Answer Note → Total) : Prop :=
  ∀ request state,
    meter (env.serve request state).2.1 = meter state + charge (env.exchange request state)

/-- The note of every exchange shows the meter before the request is served. -/
def Environment.Shows (env : Environment Request Answer State Note) (meter : State → Total)
    (view : Note → Total) : Prop :=
  ∀ request state, view (env.serve request state).2.2 = meter state

variable [AddMonoid Total] {env : Environment Request Answer State Note} {meter : State → Total}
  {charge : Exchange Request Answer Note → Total}

theorem Environment.Metered.run (metered : env.Metered meter charge)
    (program : Program Request Answer α) (state : State) :
    meter (program.run env state).final =
      meter state + ((program.run env state).log.map charge).sum := by
  induction program generalizing state with
  | done value => simp
  | ask request next ih =>
      simp only [Program.run, ih, List.map_cons, List.sum_cons]
      rw [metered request state, add_assoc]
      rfl

theorem Environment.Metered.observed (metered : env.Metered meter charge) {view : Note → Total}
    (shows : env.Shows meter view) (program : Program Request Answer α) (state : State)
    {before after : List (Exchange Request Answer Note)} {call : Exchange Request Answer Note}
    (split : (program.run env state).log = before ++ call :: after) :
    view call.note = meter state + (before.map charge).sum := by
  induction program generalizing state before with
  | done value => simp at split
  | ask request next ih =>
      cases before with
      | nil =>
          simp only [Program.run, List.nil_append, List.cons.injEq] at split
          rw [← split.1, List.map_nil, List.sum_nil, add_zero]
          exact shows request state
      | cons first before =>
          simp only [Program.run, List.cons_append, List.cons.injEq] at split
          rw [ih _ _ split.2, metered request state, List.map_cons, List.sum_cons, add_assoc,
            ← split.1]
          rfl

end Meter

/-- A property of every exchange the environment can make holds along a run. -/
theorem Program.run_log {Request : Type} {Answer : Request → Type} {State Note α : Type}
    {env : Environment Request Answer State Note} {holds : Exchange Request Answer Note → Prop}
    (served : ∀ request state, holds (env.exchange request state))
    (program : Program Request Answer α) (state : State) :
    ∀ call ∈ (program.run env state).log, holds call := by
  induction program generalizing state with
  | done value => simp
  | ask request next ih =>
      intro call member
      simp only [Program.run, List.mem_cons] at member
      rcases member with first | later
      · rw [first]
        exact served request state
      · exact ih _ _ call later

end Interaction
