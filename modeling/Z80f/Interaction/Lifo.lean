import Mathlib.Logic.Basic

/-! # Stacks

What a run of pushes and pops on a list pops, leaves and needs at most.  An
implementation that represents each list up to a capacity, step by step, does
the same along every run that stays within it. -/

set_option autoImplicit false

namespace Interaction

inductive StackCall (α : Type) where
  | push (value : α)
  | pop

structure Lifo (α : Type) where
  popped : List α
  stack : List α
  /-- The greatest depth on the way. -/
  peak : Nat

/-- `none` if a pop meets the empty stack. -/
def lifo {α : Type} : List (StackCall α) → List α → Option (Lifo α)
  | [], stack => some ⟨[], stack, stack.length⟩
  | .push value :: rest, stack =>
      (lifo rest (value :: stack)).map fun run => { run with peak := max stack.length run.peak }
  | .pop :: rest, value :: stack =>
      (lifo rest stack).map fun run =>
        { run with popped := value :: run.popped, peak := max (stack.length + 1) run.peak }
  | .pop :: _, [] => none

section Refines
variable {α State : Type} (push : α → State → State) (pop : State → α × State)

/-- What the pops return, and the last state. -/
def stackCalls : List (StackCall α) → State → List α × State
  | [], state => ([], state)
  | .push value :: rest, state => stackCalls rest (push value state)
  | .pop :: rest, state =>
      let (value, next) := pop state
      let (popped, last) := stackCalls rest next
      (value :: popped, last)

theorem lifo_peak {calls : List (StackCall α)} {stack : List α} {run : Lifo α}
    (balanced : lifo calls stack = some run) : stack.length ≤ run.peak := by
  cases calls with
  | nil =>
      cases balanced
      exact Nat.le_refl _
  | cons call rest =>
      cases call with
      | push value =>
          obtain ⟨later, -, rfl⟩ := Option.map_eq_some_iff.mp balanced
          exact Nat.le_max_left _ _
      | pop =>
          cases stack with
          | nil => cases balanced
          | cons value stack =>
              obtain ⟨later, -, rfl⟩ := Option.map_eq_some_iff.mp balanced
              exact Nat.le_max_left _ _

variable {push pop} {capacity : Nat} (represents : List α → State → Prop)
  (pushes : ∀ value stack state, stack.length < capacity → represents stack state →
    represents (value :: stack) (push value state))
  (pops : ∀ value stack state, represents (value :: stack) state →
    (pop state).1 = value ∧ represents stack (pop state).2)
include pushes pops

theorem stackCalls_lifo {calls : List (StackCall α)} {stack : List α} {state : State}
    {run : Lifo α} (balanced : lifo calls stack = some run) (fits : run.peak ≤ capacity)
    (start : represents stack state) :
    (stackCalls push pop calls state).1 = run.popped ∧
      represents run.stack (stackCalls push pop calls state).2 := by
  induction calls generalizing stack state run with
  | nil =>
      cases balanced
      exact ⟨rfl, start⟩
  | cons call rest ih =>
      cases call with
      | push value =>
          obtain ⟨later, behind, rfl⟩ := Option.map_eq_some_iff.mp balanced
          have room : stack.length < capacity := by
            have deeper := lifo_peak behind
            have within := Nat.le_trans (Nat.le_max_right stack.length later.peak) fits
            rw [List.length_cons] at deeper
            omega
          have simulated := ih behind (Nat.le_trans (Nat.le_max_right _ _) fits)
            (pushes value stack state room start)
          exact simulated
      | pop =>
          cases stack with
          | nil => cases balanced
          | cons value stack =>
              obtain ⟨later, behind, rfl⟩ := Option.map_eq_some_iff.mp balanced
              obtain ⟨top, below⟩ := pops value stack state start
              obtain ⟨same, last⟩ := ih behind (Nat.le_trans (Nat.le_max_right _ _) fits) below
              exact ⟨congrArg₂ List.cons top same, last⟩

end Refines
end Interaction
