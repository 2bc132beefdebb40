import Mathlib.Algebra.BigOperators.Group.Finset.Basic

/-! # Code that runs to a postcondition

A machine takes one step at a time, at a cost, and may get stuck.  `Leads` is
the total correctness of what it runs from a state on: after some steps, at this
cost, it is in a state with the postcondition. -/

set_option autoImplicit false

namespace Interaction

section Leads
variable {State Cost : Type} [AddMonoid Cost] (next : State → Option (State × Cost))

/-- From the first state to the last, with the sum of the costs. -/
inductive Follows : State → Cost → State → Prop where
  | here (s : State) : Follows s 0 s
  | step {s t u : State} {c d : Cost} (taken : next s = some (t, c)) (rest : Follows t d u) :
      Follows s (c + d) u

variable {next} {s t u : State} {c d : Cost}

theorem Follows.trans (before : Follows next s c t) (after : Follows next t d u) :
    Follows next s (c + d) u := by
  induction before with
  | here => rwa [zero_add]
  | step taken _ ih =>
      rw [add_assoc]
      exact .step taken (ih after)

theorem Follows.invariant (inv : State → Prop)
    (keeps : ∀ s t c, inv s → next s = some (t, c) → inv t) (follows : Follows next s c t)
    (start : inv s) : inv t := by
  induction follows with
  | here => exact start
  | step taken _ ih => exact ih (keeps _ _ _ start taken)

variable (next) in
def Leads (cost : Cost) (post : State → Prop) (s : State) : Prop :=
  ∃ t, Follows next s cost t ∧ post t

variable {post mid : State → Prop}

theorem Leads.here (holds : post s) : Leads next 0 post s := ⟨s, .here s, holds⟩

variable (next) in
def Steps (cost : Cost) (post : State → Prop) (s : State) : Prop :=
  ∃ t, next s = some (t, cost) ∧ post t

theorem Steps.leads (steps : Steps next c post s) : Leads next c post s := by
  obtain ⟨t, taken, holds⟩ := steps
  refine ⟨t, ?_, holds⟩
  have follows := Follows.step taken (.here t)
  rwa [add_zero] at follows

omit [AddMonoid Cost] in
theorem Steps.taken (steps : Steps next c post s) (taken : next s = some (t, d)) : post t := by
  obtain ⟨u, moved, holds⟩ := steps
  obtain ⟨rfl, -⟩ := Prod.mk.inj (Option.some.inj (moved.symm.trans taken))
  exact holds

theorem Leads.mono {post' : State → Prop} (leads : Leads next c post s)
    (weaker : ∀ t, post t → post' t) : Leads next c post' s := by
  obtain ⟨t, follows, holds⟩ := leads
  exact ⟨t, follows, weaker t holds⟩

theorem Leads.seq (first : Leads next c mid s) (second : ∀ t, mid t → Leads next d post t) :
    Leads next (c + d) post s := by
  obtain ⟨t, before, reached⟩ := first
  obtain ⟨u, after, holds⟩ := second t reached
  exact ⟨u, before.trans after, holds⟩

end Leads

section Watch
variable {State Cost Event : Type} (stop : State → Bool) (emit : State → Option (List Event))
  (next : State → Option (State × Cost))

/-- Each state but the last adds what `emit` says of it to the output. -/
def watch (watched : State × List Event) : Option ((State × List Event) × Cost) :=
  if stop watched.1 then none
  else (emit watched.1).bind fun text =>
    (next watched.1).map fun taken => ((taken.1, watched.2 ++ text), taken.2)

variable {stop emit next} {s t : State} {c : Cost} {post : State → Prop} {text out : List Event}

theorem watch_some (going : stop s = false) (emits : emit s = some text)
    (taken : next s = some (t, c)) (out : List Event) :
    watch stop emit next (s, out) = some ((t, out ++ text), c) := by
  rw [watch, going, emits, taken]
  rfl

theorem watch_taken {watched : State × List Event}
    (taken : watch stop emit next (s, out) = some (watched, c)) :
    stop s = false ∧ ∃ text t, emit s = some text ∧ next s = some (t, c) ∧
      watched = (t, out ++ text) := by
  obtain ⟨going, moved⟩ := Option.ite_none_left_eq_some.mp taken
  obtain ⟨text, emits, moved⟩ := Option.bind_eq_some_iff.mp moved
  obtain ⟨⟨t, cost⟩, stepped, same⟩ := Option.map_eq_some_iff.mp moved
  obtain ⟨rfl, rfl⟩ := Prod.mk.inj same
  exact ⟨Bool.eq_false_iff.mpr going, text, t, emits, stepped, rfl⟩

theorem Steps.watched (steps : Steps next c post s) (going : stop s = false)
    (emits : emit s = some text) (out : List Event) :
    Steps (watch stop emit next) c (fun watched => post watched.1 ∧ watched.2 = out ++ text)
      (s, out) := by
  obtain ⟨t, taken, holds⟩ := steps
  exact ⟨_, watch_some going emits taken out, holds, rfl⟩

end Watch

/-- Rounds of a loop, each from the invariant to the next one. -/
theorem Leads.rounds {State Cost : Type} [AddCommMonoid Cost]
    {next : State → Option (State × Cost)} (inv : Nat → State → Prop) (cost : Nat → Cost)
    {n : Nat} (round : ∀ k s, k < n → inv k s → Leads next (cost k) (inv (k + 1)) s) {s : State}
    (start : inv 0 s) : Leads next (∑ k ∈ Finset.range n, cost k) (inv n) s := by
  induction n with
  | zero => exact .here start
  | succ n ih =>
      rw [Finset.sum_range_succ]
      apply (ih fun k s before => round k s (Nat.lt_succ_of_lt before)).seq
      exact fun t holds => round n t (Nat.lt_succ_self n) holds

end Interaction
