import Mathlib.Logic.Basic
import Mathlib.Data.List.Basic

/-! # Programs that ask requests of an environment

A `Program` is a finite tree: it stops with a value, or asks one request and
continues on the answer.  `All` is its weakest precondition over every possible
answer, so a fact proved with it holds in every environment.  An `Environment`
serves requests from a state of its own; `run` executes a program in it and
logs every exchange. -/

set_option autoImplicit false

namespace Interaction

inductive Program (Request : Type) (Answer : Request → Type) (α : Type) : Type where
  | done (value : α)
  | ask (request : Request) (next : Answer request → Program Request Answer α)

namespace Program

section Monad
variable {Request : Type} {Answer : Request → Type} {α β γ : Type}

def bind : Program Request Answer α → (α → Program Request Answer β) → Program Request Answer β
  | .done value, f => f value
  | .ask request next, f => .ask request fun answer => (next answer).bind f

instance : Monad (Program Request Answer) where
  pure := .done
  bind := .bind

@[simp] theorem pure_eq (value : α) : (pure value : Program Request Answer α) = .done value := rfl

@[simp] theorem done_bind (value : α) (f : α → Program Request Answer β) :
    (Program.done value >>= f) = f value := rfl

@[simp] theorem ask_bind (request : Request) (next : Answer request → Program Request Answer α)
    (f : α → Program Request Answer β) :
    (Program.ask request next >>= f) = .ask request fun answer => next answer >>= f := rfl

theorem bind_done (program : Program Request Answer α) : (program >>= .done) = program := by
  induction program with
  | done value => rfl
  | ask request next ih =>
      rw [ask_bind]
      congr 1
      funext answer
      exact ih answer

theorem bind_bind (program : Program Request Answer α) (f : α → Program Request Answer β)
    (g : β → Program Request Answer γ) :
    (program >>= f >>= g) = program >>= fun value => f value >>= g := by
  induction program with
  | done value => rfl
  | ask request next ih =>
      simp only [ask_bind]
      congr 1
      funext answer
      exact ih answer

instance : LawfulMonad (Program Request Answer) :=
  LawfulMonad.mk' (Program Request Answer) bind_done (fun _ _ => rfl) bind_bind

end Monad

section All
variable {Request : Type} {Answer : Request → Type} {α β : Type}

/-- `post` holds of the value and of the answered requests on every path. -/
def All (post : α → List (Sigma Answer) → Prop) : Program Request Answer α → Prop
  | .done value => post value []
  | .ask request next =>
      ∀ answer, (next answer).All fun value path => post value (⟨request, answer⟩ :: path)

theorem All.mono {post post' : α → List (Sigma Answer) → Prop}
    (imp : ∀ value path, post value path → post' value path) :
    ∀ {program : Program Request Answer α}, program.All post → program.All post' := by
  intro program
  induction program generalizing post post' with
  | done value => exact imp value []
  | ask request next ih =>
      intro all answer
      exact ih answer (fun value path => imp value (⟨request, answer⟩ :: path)) (all answer)

theorem All.intro {post : α → List (Sigma Answer) → Prop} (always : ∀ value path, post value path)
    (program : Program Request Answer α) : program.All post := by
  induction program generalizing post with
  | done value => exact always value []
  | ask request next ih => exact fun answer => ih answer fun value path => always value _

theorem all_and {post post' : α → List (Sigma Answer) → Prop}
    {program : Program Request Answer α} (left : program.All post) (right : program.All post') :
    program.All fun value path => post value path ∧ post' value path := by
  induction program generalizing post post' with
  | done value => exact ⟨left, right⟩
  | ask request next ih => exact fun answer => ih answer (left answer) (right answer)

theorem all_bind (program : Program Request Answer α) (f : α → Program Request Answer β)
    (post : β → List (Sigma Answer) → Prop) :
    (program >>= f).All post ↔
      program.All fun value path => (f value).All fun result tail => post result (path ++ tail) := by
  induction program generalizing post with
  | done value => exact Iff.rfl
  | ask request next ih =>
      simp only [ask_bind, All, ih, List.cons_append]

end All
end Program

/-- Serves a request: the answer, the next state, and a note for the log. -/
structure Environment (Request : Type) (Answer : Request → Type) (State Note : Type) where
  serve : (request : Request) → State → Answer request × State × Note

structure Exchange (Request : Type) (Answer : Request → Type) (Note : Type) where
  request : Request
  answer : Answer request
  note : Note

structure Outcome (Request : Type) (Answer : Request → Type) (State Note α : Type) where
  value : α
  final : State
  log : List (Exchange Request Answer Note)

def Exchange.answered {Request : Type} {Answer : Request → Type} {Note : Type}
    (exchange : Exchange Request Answer Note) : Sigma Answer :=
  ⟨exchange.request, exchange.answer⟩

namespace Program

section Run
variable {Request : Type} {Answer : Request → Type} {State Note α β : Type}

def run (env : Environment Request Answer State Note) :
    Program Request Answer α → State → Outcome Request Answer State Note α
  | .done value, state => ⟨value, state, []⟩
  | .ask request next, state =>
      let served := env.serve request state
      let rest := (next served.1).run env served.2.1
      ⟨rest.value, rest.final, ⟨request, served.1, served.2.2⟩ :: rest.log⟩

@[simp] theorem run_done (env : Environment Request Answer State Note) (value : α)
    (state : State) : (Program.done value).run env state = ⟨value, state, []⟩ := rfl

theorem run_bind (env : Environment Request Answer State Note)
    (program : Program Request Answer α) (f : α → Program Request Answer β) (state : State) :
    (program >>= f).run env state =
      let first := program.run env state
      let rest := (f first.value).run env first.final
      ⟨rest.value, rest.final, first.log ++ rest.log⟩ := by
  induction program generalizing state with
  | done value => rfl
  | ask request next ih =>
      simp only [ask_bind, run, ih, List.cons_append]

/-- What holds on every path holds of the run in any environment. -/
theorem All.run {post : α → List (Sigma Answer) → Prop} {program : Program Request Answer α}
    (all : program.All post) (env : Environment Request Answer State Note) (state : State) :
    post (program.run env state).value ((program.run env state).log.map Exchange.answered) := by
  induction program generalizing post state with
  | done value => exact all
  | ask request next ih =>
      exact ih (env.serve request state).1 (all (env.serve request state).1)
        (env.serve request state).2.1

end Run
end Program

section Agreement
variable {Request : Type} {Answer : Request → Type} {State State' Note Note' α : Type}

/-- Related states give equal answers and related successor states. -/
def Environment.Agrees (env : Environment Request Answer State Note)
    (env' : Environment Request Answer State' Note') (related : State → State' → Prop) : Prop :=
  ∀ request state state', related state state' →
    (env.serve request state).1 = (env'.serve request state').1 ∧
      related (env.serve request state).2.1 (env'.serve request state').2.1

theorem Environment.Agrees.run {env : Environment Request Answer State Note}
    {env' : Environment Request Answer State' Note'} {related : State → State' → Prop}
    (agrees : env.Agrees env' related) (program : Program Request Answer α)
    (state : State) (state' : State') (start : related state state') :
    (program.run env state).value = (program.run env' state').value ∧
      related (program.run env state).final (program.run env' state').final ∧
      (program.run env state).log.map Exchange.answered =
        (program.run env' state').log.map Exchange.answered := by
  induction program generalizing state state' with
  | done value => exact ⟨rfl, start, rfl⟩
  | ask request next ih =>
      obtain ⟨answerEq, nextRelated⟩ := agrees request state state' start
      obtain ⟨valueEq, finalRelated, logEq⟩ := ih (env.serve request state).1
        (env.serve request state).2.1 (env'.serve request state').2.1 nextRelated
      simp only [Program.run, List.map_cons, Exchange.answered]
      rw [← answerEq]
      exact ⟨valueEq, finalRelated, congrArg _ logEq⟩

end Agreement
end Interaction
