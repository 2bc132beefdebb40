import Z80f.Interaction.Program

/-! # Environments that agree on a footprint

Two environments may differ outside the requests that a run makes.  As long as
it stays within requests that they serve alike, it cannot tell them apart; what
they hold elsewhere is never looked at. -/

set_option autoImplicit false

namespace Interaction

section Footprint
variable {Request : Type} {Answer : Request → Type} {State State' Note α : Type}

/-- On `allowed` requests related states give the same answer and note, and
related states again. -/
def Environment.AgreesOn (env : Environment Request Answer State Note)
    (env' : Environment Request Answer State' Note) (allowed : Request → Prop)
    (related : State → State' → Prop) : Prop :=
  ∀ request state state', allowed request → related state state' → ∃ answer next next' note,
    env.serve request state = (answer, next, note) ∧
      env'.serve request state' = (answer, next', note) ∧ related next next'

/-- Every request of the log is allowed. -/
def Within (allowed : Request → Prop) (log : List (Exchange Request Answer Note)) : Prop :=
  ∀ exchange ∈ log, allowed exchange.request

variable {env : Environment Request Answer State Note}
  {env' : Environment Request Answer State' Note} {allowed : Request → Prop}
  {related : State → State' → Prop}

theorem Environment.AgreesOn.run (agrees : env.AgreesOn env' allowed related)
    (program : Program Request Answer α) {state : State} {state' : State'}
    (start : related state state') (within : Within allowed (program.run env state).log) :
    (program.run env' state').value = (program.run env state).value ∧
      (program.run env' state').log = (program.run env state).log ∧
      related (program.run env state).final (program.run env' state').final := by
  induction program generalizing state state' with
  | done value => exact ⟨rfl, rfl, start⟩
  | ask request next ih =>
      obtain ⟨first, rest⟩ := List.forall_mem_cons.mp within
      obtain ⟨answer, mid, mid', note, served, served', later⟩ :=
        agrees request state state' first start
      simp only [Program.run, served, served'] at rest ⊢
      obtain ⟨values, logs, finals⟩ := ih answer later rest
      exact ⟨values, congrArg _ logs, finals⟩

end Footprint
end Interaction
