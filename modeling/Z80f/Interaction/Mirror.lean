import Z80f.Interaction.Stateful

/-! # Mirrored programs

`Mirrors φ m m'` says that `m'`, started in the image of a state under `φ`,
does what `m` does: the same requests, the same value, and the image of the
state in the end.  The class carries the mirror image of single calls; `bind`
carries it through a `do` block. -/

set_option autoImplicit false

namespace Interaction

section Mirror
variable {Core Request : Type} {Answer : Request → Type} {State Note α β : Type}

namespace Program

theorem run_map (env : Environment Request Answer State Note) (program : Program Request Answer α)
    (f : α → β) (state : State) :
    (f <$> program).run env state =
      let outcome := program.run env state
      ⟨f outcome.value, outcome.final, outcome.log⟩ := by
  rw [map_eq_pure_bind, run_bind]
  simp

end Program

namespace Stateful

class Mirrors (φ : Core → Core) (m m' : Stateful Core Request Answer α) : Prop where
  mirror : ∀ core, m'.run (φ core) = (fun result => (result.1, φ result.2)) <$> m.run core

variable {φ : Core → Core}

instance (value : α) : Mirrors φ (pure value : Stateful Core Request Answer α) (pure value) :=
  ⟨fun _ => rfl⟩

instance (r : Request) :
    Mirrors φ (request r : Stateful Core Request Answer (Answer r)) (request r) := ⟨fun _ => rfl⟩

theorem Mirrors.bind {m m' : Stateful Core Request Answer α}
    {f f' : α → Stateful Core Request Answer β} [first : Mirrors φ m m']
    (rest : ∀ value, Mirrors φ (f value) (f' value)) : Mirrors φ (m >>= f) (m' >>= f') := by
  constructor
  intro core
  rw [StateT.run_bind, StateT.run_bind, first.mirror core, map_bind, bind_map_left]
  congr 1
  funext result
  exact (rest result.1).mirror result.2

theorem Mirrors.get {f f' : Core → Stateful Core Request Answer β}
    (rest : ∀ core, Mirrors φ (f core) (f' (φ core))) :
    Mirrors φ (MonadState.get >>= f) (MonadState.get >>= f') :=
  ⟨fun core => (rest core).mirror core⟩

theorem Mirrors.modify {f f' : Core → Core} (image : ∀ core, f' (φ core) = φ (f core)) :
    Mirrors φ (modify f : Stateful Core Request Answer PUnit) (modify f') := by
  constructor
  intro core
  change (Program.done (⟨⟩, f' (φ core)) : Program Request Answer (PUnit × Core)) =
    Program.done (⟨⟩, φ (f core))
  rw [image]

theorem Mirrors.ite (condition : Prop) [Decidable condition]
    {yes yes' no no' : Stateful Core Request Answer α} (left : Mirrors φ yes yes')
    (right : Mirrors φ no no') :
    Mirrors φ (if condition then yes else no) (if condition then yes' else no') := by
  split
  · exact left
  · exact right

theorem Mirrors.run {m m' : Stateful Core Request Answer α} (mirrors : Mirrors φ m m')
    (env : Environment Request Answer State Note) (core : Core) (state : State) :
    (m'.run (φ core)).run env state =
      let outcome := (m.run core).run env state
      ⟨(outcome.value.1, φ outcome.value.2), outcome.final, outcome.log⟩ := by
  rw [mirrors.mirror core, Program.run_map]

end Stateful
end Mirror
end Interaction
