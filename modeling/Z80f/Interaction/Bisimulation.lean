import Mathlib.Data.Option.Basic

/-! # Systems that nobody can tell apart

A `System` performs operations that may not return, and shows a view of its
state.  Two systems in bisimilar states give the same trace: the same views and
replies, up to the first operation that does not return. -/

set_option autoImplicit false

namespace Interaction

structure System (Op Reply View State : Type) where
  perform : Op → State → Option (Reply × State)
  view : State → View

namespace System

section Trace
variable {Op Reply View State State' : Type}

/-- Every view with the reply of the operation after it. -/
def trace (system : System Op Reply View State) : List Op → State → List (View × Option Reply)
  | [], state => [(system.view state, none)]
  | op :: ops, state =>
      match system.perform op state with
      | none => [(system.view state, none)]
      | some (reply, next) => (system.view state, some reply) :: system.trace ops next

structure Bisimilar (left : System Op Reply View State) (right : System Op Reply View State')
    (related : State → State' → Prop) : Prop where
  view : ∀ state state', related state state' → left.view state = right.view state'
  perform : ∀ op state state', related state state' →
    Option.Rel (fun result result' => result.1 = result'.1 ∧ related result.2 result'.2)
      (left.perform op state) (right.perform op state')

theorem Bisimilar.trace_eq {left : System Op Reply View State} {right : System Op Reply View State'}
    {related : State → State' → Prop} (bisimilar : left.Bisimilar right related) (ops : List Op)
    {state : State} {state' : State'} (start : related state state') :
    left.trace ops state = right.trace ops state' := by
  induction ops generalizing state state' with
  | nil => rw [trace, trace, bisimilar.view state state' start]
  | cons op ops ih =>
      have performed := bisimilar.perform op state state' start
      rw [trace, trace, bisimilar.view state state' start]
      revert performed
      cases left.perform op state with
      | none =>
          cases right.perform op state' with
          | none => exact fun _ => rfl
          | some result' => exact nofun
      | some result =>
          cases right.perform op state' with
          | none => exact nofun
          | some result' =>
              rintro ⟨replies, nexts⟩
              simp only [replies, ih nexts]

end Trace
end System
end Interaction
