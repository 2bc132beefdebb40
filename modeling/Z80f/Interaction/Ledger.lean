import Z80f.Interaction.Program

/-! # What an environment remembers

A part of the environment that every answered request updates in a way of its
own is the fold of the log.  A register that some requests load and the others
leave alone holds what the latest of them loaded. -/

set_option autoImplicit false

namespace Interaction

section Keeps
variable {Request : Type} {Answer : Request → Type} {State Note Part α : Type}

/-- `part` of the state changes by `update`, whatever the rest of it is. -/
def Environment.Keeps (env : Environment Request Answer State Note) (part : State → Part)
    (update : Part → Sigma Answer → Part) : Prop :=
  ∀ request state, part (env.serve request state).2.1 =
    update (part state) ⟨request, (env.serve request state).1⟩

/-- `part` alone decides how `asked` is answered. -/
def Environment.Tells (env : Environment Request Answer State Note) (part : State → Part)
    (asked : Request) (answer : Part → Answer asked) : Prop :=
  ∀ state, (env.serve asked state).1 = answer (part state)

variable {env : Environment Request Answer State Note} {part : State → Part}
  {update : Part → Sigma Answer → Part}

theorem Environment.Keeps.run (keeps : env.Keeps part update)
    (program : Program Request Answer α) (state : State) :
    part (program.run env state).final =
      ((program.run env state).log.map Exchange.answered).foldl update (part state) := by
  induction program generalizing state with
  | done value => rfl
  | ask request next ih =>
      rw [Program.run, List.map_cons, List.foldl_cons, Exchange.answered, ← keeps]
      exact ih _ _

theorem Environment.Keeps.tells (keeps : env.Keeps part update) {asked : Request}
    {answer : Part → Answer asked} (tells : env.Tells part asked answer)
    (program : Program Request Answer α) (state : State) {earlier later : List (Sigma Answer)}
    {value : Answer asked} (split : (program.run env state).log.map Exchange.answered =
      earlier ++ ⟨asked, value⟩ :: later) :
    value = answer (earlier.foldl update (part state)) := by
  induction program generalizing state earlier with
  | done value =>
      rw [Program.run_done] at split
      exact absurd split.symm (by simp)
  | ask request next ih =>
      rw [Program.run, List.map_cons] at split
      cases earlier with
      | nil =>
          obtain ⟨head, -⟩ := List.cons.inj split
          cases head
          exact tells state
      | cons first earlier =>
          obtain ⟨rfl, rest⟩ := List.cons.inj split
          rw [List.foldl_cons, Exchange.answered, ← keeps]
          exact ih _ _ rest

end Keeps

section Fold
variable {Event Value : Type} (load : Event → Option Value)

/-- What the latest event loads, the events being in order. -/
def latest : List Event → Option Value
  | [] => none
  | event :: later => (latest later).or (load event)

theorem foldl_latest (events : List Event) (start : Value) :
    events.foldl (fun value event => (load event).getD value) start =
      (latest load events).getD start := by
  induction events generalizing start with
  | nil => rfl
  | cons event later ih =>
      rw [List.foldl_cons, ih, latest]
      cases latest load later <;> rfl

theorem latest_map {Value' : Type} (f : Value → Value') (events : List Event) :
    latest (fun event => (load event).map f) events = (latest load events).map f := by
  induction events with
  | nil => rfl
  | cons event later ih =>
      rw [latest, latest, ih]
      cases latest load later <;> rfl

theorem foldl_loads {Held : Type} (f : Held → Value → Held) (events : List Event) (start : Held) :
    events.foldl (fun held event => (load event).elim held (f held)) start =
      (events.filterMap load).foldl f start := by
  induction events generalizing start with
  | nil => rfl
  | cons event later ih =>
      rw [List.foldl_cons, ih, List.filterMap_cons]
      cases load event <;> rfl

theorem foldl_count (counted : Event → Bool) {width : Nat} (events : List Event)
    (start : BitVec width) :
    events.foldl (fun count event => if counted event then count + 1 else count) start =
      start + BitVec.ofNat width (events.countP counted) := by
  induction events generalizing start with
  | nil => simp
  | cons event later ih =>
      rw [List.foldl_cons, ih, List.countP_cons]
      cases counted event with
      | false => rfl
      | true =>
          simp only [if_true]
          rw [BitVec.ofNat_add, BitVec.add_assoc, BitVec.add_comm 1]
          rfl

end Fold
end Interaction
