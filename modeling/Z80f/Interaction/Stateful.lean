import Z80f.Interaction.Program

/-! # Programs with a private state

`Stateful` adds a state that the environment does not see.  `Holds` is its
weakest precondition; the `simp` rules below execute a `do` block symbolically,
one rule for each way it is put together. -/

set_option autoImplicit false

namespace Interaction

abbrev Stateful (Core Request : Type) (Answer : Request → Type) (α : Type) : Type :=
  StateT Core (Program Request Answer) α

namespace Stateful

section Rules
variable {Core Request : Type} {Answer : Request → Type} {α β : Type}

/-- Sends one request and leaves the private state alone. -/
def request (r : Request) : Stateful Core Request Answer (Answer r) :=
  fun core => .ask r fun answer => .done (answer, core)

/-- Every path of `m` from `core` ends in a value, a state and a list of
answered requests with `post`. -/
def Holds (m : Stateful Core Request Answer α) (post : α → Core → List (Sigma Answer) → Prop)
    (core : Core) : Prop :=
  (m.run core).All fun result path => post result.1 result.2 path

theorem Holds.mono {m : Stateful Core Request Answer α}
    {post post' : α → Core → List (Sigma Answer) → Prop} {core : Core}
    (holds : m.Holds post core)
    (imp : ∀ value next path, post value next path → post' value next path) :
    m.Holds post' core := by
  refine Program.All.mono ?_ holds
  intro result path
  exact imp result.1 result.2 path

theorem Holds.intro (m : Stateful Core Request Answer α)
    {post : α → Core → List (Sigma Answer) → Prop}
    (always : ∀ value next path, post value next path) (core : Core) :
    m.Holds post core := by
  unfold Holds
  exact Program.All.intro (fun result path => always result.1 result.2 path) (m.run core)

theorem Holds.and {m : Stateful Core Request Answer α}
    {post post' : α → Core → List (Sigma Answer) → Prop} {core : Core}
    (left : m.Holds post core) (right : m.Holds post' core) :
    m.Holds (fun value next path => post value next path ∧ post' value next path) core :=
  Program.all_and left right

variable {post : β → Core → List (Sigma Answer) → Prop} (core : Core)

@[simp] theorem holds_pure (value : β) :
    (pure value : Stateful Core Request Answer β).Holds post core ↔ post value core [] := Iff.rfl

@[simp] theorem holds_bind (m : Stateful Core Request Answer α)
    (f : α → Stateful Core Request Answer β) :
    (m >>= f).Holds post core ↔
      m.Holds (fun value next path => (f value).Holds
        (fun result final tail => post result final (path ++ tail)) next) core := by
  simp only [Holds, StateT.run_bind, Program.all_bind]

@[simp] theorem holds_map (m : Stateful Core Request Answer α) (f : α → β) :
    (f <$> m).Holds post core ↔
      m.Holds (fun value next path => post (f value) next path) core := by
  rw [map_eq_pure_bind, holds_bind]
  simp only [holds_pure, List.append_nil]

@[simp] theorem holds_request (r : Request)
    {post : Answer r → Core → List (Sigma Answer) → Prop} :
    (request r : Stateful Core Request Answer (Answer r)).Holds post core ↔
      ∀ answer, post answer core [⟨r, answer⟩] := Iff.rfl

@[simp] theorem holds_get {post : Core → Core → List (Sigma Answer) → Prop} :
    (get : Stateful Core Request Answer Core).Holds post core ↔ post core core [] := Iff.rfl

@[simp] theorem holds_modify (f : Core → Core) {post : PUnit → Core → List (Sigma Answer) → Prop} :
    (modify f : Stateful Core Request Answer PUnit).Holds post core ↔
      post ⟨⟩ (f core) [] := Iff.rfl

@[simp] theorem holds_ite (condition : Prop) [Decidable condition]
    (yes no : Stateful Core Request Answer β) :
    (if condition then yes else no).Holds post core ↔
      (condition → yes.Holds post core) ∧ (¬ condition → no.Holds post core) := by
  by_cases h : condition <;> simp [h]

end Rules
end Stateful
end Interaction
