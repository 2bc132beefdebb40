import Z80f.Interaction.Stateful

/-! # Graded effects

An `Effect` is a family of relations between the state before a computation,
the state after it and its path; its grades add up along a sequence.  The
grades of single calls are instances of `HasEffect`.  `After` carries a grade
through a `do` block, one call at a time. -/

set_option autoImplicit false

namespace Interaction

structure Effect (Core Request : Type) (Answer : Request → Type) (Grade : Type)
    [Zero Grade] [Add Grade] where
  rel : Grade → Core → Core → List (Sigma Answer) → Prop
  unit : ∀ core, rel 0 core core []
  comp : ∀ {first second : Grade} {core mid last : Core} {path tail : List (Sigma Answer)},
    rel first core mid path → rel second mid last tail →
      rel (first + second) core last (path ++ tail)

section Effect
variable {Core Request : Type} {Answer : Request → Type} {Grade α β : Type}
  [Zero Grade] [Add Grade]

class HasEffect (effect : Effect Core Request Answer Grade) (m : Stateful Core Request Answer α)
    (grade : outParam Grade) : Prop where
  holds : ∀ core, m.Holds (fun _ next path => effect.rel grade core next path) core

/-- `m` completes what was `spent` before it to `post`. -/
def After (effect : Effect Core Request Answer Grade) (spent : Grade)
    (m : Stateful Core Request Answer α)
    (post : α → Core → Core → List (Sigma Answer) → Prop) : Prop :=
  ∀ core mid path, effect.rel spent core mid path →
    m.Holds (fun value last tail => post value core last (path ++ tail)) mid

variable {effect : Effect Core Request Answer Grade} {spent grade : Grade}

theorem After.bind {m : Stateful Core Request Answer α} {f : α → Stateful Core Request Answer β}
    {post : β → Core → Core → List (Sigma Answer) → Prop} [first : HasEffect effect m grade]
    (rest : ∀ value, After effect (spent + grade) (f value) post) :
    After effect spent (m >>= f) post := by
  intro core mid path before
  rw [Stateful.holds_bind]
  refine (first.holds mid).mono ?_
  intro value next tail rel
  have last := rest value core next (path ++ tail) (effect.comp before rel)
  simpa only [List.append_assoc] using last

theorem After.pure {value : α} {post : α → Core → Core → List (Sigma Answer) → Prop}
    (imp : ∀ core mid path, effect.rel spent core mid path → post value core mid path) :
    After effect spent (pure value) post := by
  intro core mid path before
  rw [Stateful.holds_pure, List.append_nil]
  exact imp core mid path before

theorem After.last {m : Stateful Core Request Answer α}
    {post : α → Core → Core → List (Sigma Answer) → Prop} [last : HasEffect effect m grade]
    (imp : ∀ value core mid path, effect.rel (spent + grade) core mid path →
      post value core mid path) :
    After effect spent m post := by
  intro core mid path before
  refine (last.holds mid).mono ?_
  intro value next tail rel
  exact imp value core next (path ++ tail) (effect.comp before rel)

/-- The effect of a block, from the grade carried to its end. -/
theorem HasEffect.of_after {m : Stateful Core Request Answer α} {total : Grade}
    (after : After effect 0 m fun _ core last path => effect.rel total core last path) :
    HasEffect effect m total :=
  ⟨fun core => after core core [] (effect.unit core)⟩

theorem After.holds {m : Stateful Core Request Answer α}
    {post : α → Core → Core → List (Sigma Answer) → Prop} (after : After effect 0 m post)
    (core : Core) : m.Holds (fun value last path => post value core last path) core :=
  after core core [] (effect.unit core)

theorem HasEffect.ite (condition : Prop) [Decidable condition]
    {yes no : Stateful Core Request Answer α} (left : HasEffect effect yes grade)
    (right : HasEffect effect no grade) :
    HasEffect effect (if condition then yes else no) grade := by
  split
  · exact left
  · exact right

end Effect
end Interaction
