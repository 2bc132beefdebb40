import Z80f.Interaction.Stateful

/-! # Programs with fuel

A program that returns `none` ran out of fuel.  `Extends less more` says that
`more` is `less` with more fuel: they agree on every path where `less` has a
result. -/

set_option autoImplicit false

namespace Interaction

section Fuel
variable {Core Request : Type} {Answer : Request → Type} {State Note α β : Type}

namespace Program

inductive Extends : Program Request Answer (Option α × Core) →
    Program Request Answer (Option α × Core) → Prop where
  | same (program : Program Request Answer (Option α × Core)) : Extends program program
  | stopped (core : Core) (more : Program Request Answer (Option α × Core)) :
      Extends (.done (none, core)) more
  | ask (request : Request)
      {less more : Answer request → Program Request Answer (Option α × Core)}
      (next : ∀ answer, Extends (less answer) (more answer)) :
      Extends (.ask request less) (.ask request more)

theorem Extends.bind (program : Program Request Answer β)
    {less more : β → Program Request Answer (Option α × Core)}
    (next : ∀ value, Extends (less value) (more value)) :
    Extends (program >>= less) (program >>= more) := by
  induction program with
  | done value => exact next value
  | ask request _ ih => exact .ask request ih

/-- A common last part that stops where the first part stopped. -/
theorem Extends.bindOption {less more : Program Request Answer (Option β × Core)}
    (extended : Extends less more)
    (last : Option β × Core → Program Request Answer (Option α × Core))
    (stops : ∀ core, ∃ core', last (none, core) = .done (none, core')) :
    Extends (less >>= last) (more >>= last) := by
  induction extended with
  | same program => exact .same _
  | stopped core more =>
      obtain ⟨core', eq⟩ := stops core
      rw [done_bind, eq]
      exact .stopped core' _
  | ask request _ ih => exact .ask request ih

theorem Extends.run {less more : Program Request Answer (Option α × Core)}
    (extended : Extends less more) (env : Environment Request Answer State Note) (state : State)
    {value : α} (result : (less.run env state).value.1 = some value) :
    more.run env state = less.run env state := by
  induction extended generalizing state with
  | same program => rfl
  | stopped core more => cases result
  | ask request _ ih =>
      simp only [Program.run] at result ⊢
      rw [ih _ _ result]

end Program

namespace Stateful

def Extends (less more : Stateful Core Request Answer (Option α)) : Prop :=
  ∀ core, Program.Extends (less.run core) (more.run core)

theorem Extends.same (m : Stateful Core Request Answer (Option α)) : m.Extends m :=
  fun _ => .same _

theorem Extends.stopped (more : Stateful Core Request Answer (Option α)) :
    Extends (pure none) more :=
  fun core => .stopped core _

theorem Extends.bind (m : Stateful Core Request Answer β)
    {less more : β → Stateful Core Request Answer (Option α)}
    (next : ∀ value, (less value).Extends (more value)) : (m >>= less).Extends (m >>= more) :=
  fun core => Program.Extends.bind (m.run core) fun result => next result.1 result.2

theorem Extends.bindOption {less more : Stateful Core Request Answer (Option β)}
    (extended : less.Extends more) {last : Option β → Stateful Core Request Answer (Option α)}
    (stops : last none = pure none) : (less >>= last).Extends (more >>= last) := by
  intro core
  refine (extended core).bindOption (fun result => (last result.1).run result.2) ?_
  intro core'
  exact ⟨core', by rw [stops]; rfl⟩

theorem Extends.ite (condition : Prop) [Decidable condition]
    {less more less' more' : Stateful Core Request Answer (Option α)}
    (yes : less.Extends more) (no : less'.Extends more') :
    (if condition then less else less').Extends (if condition then more else more') := by
  split
  · exact yes
  · exact no

end Stateful
end Fuel
end Interaction
