/-! # Runs and their histories

A run of a labelled step relation keeps its labels, the newest first, so that a
property of the history is a recursion on it.  What one step preserves holds
along every run. -/

set_option autoImplicit false

namespace Interaction

inductive Run {State Label : Type} (step : State → Label → State → Prop) (start : State) :
    List Label → State → Prop where
  | start : Run step start [] start
  | next {history : List Label} {state last : State} {label : Label}
      (run : Run step start history state) (taken : step state label last) :
      Run step start (label :: history) last

section Run
variable {State Label : Type} {step : State → Label → State → Prop} {start : State}

theorem Run.invariant (inv : List Label → State → Prop) (init : inv [] start)
    (preserved : ∀ history state label last, inv history state → step state label last →
      inv (label :: history) last)
    {history : List Label} {state : State} (run : Run step start history state) :
    inv history state := by
  induction run with
  | start => exact init
  | next run taken ih => exact preserved _ _ _ _ ih taken

/-- A property of the history alone, from what a run knows at each of its labels. -/
theorem Run.history {inv : List Label → State → Prop} (holds : List Label → Prop)
    (always : ∀ history state, Run step start history state → inv history state)
    (init : holds [])
    (preserved : ∀ history state label last, inv history state → step state label last →
      holds history → holds (label :: history))
    {history : List Label} {state : State} (run : Run step start history state) :
    holds history := by
  induction run with
  | start => exact init
  | next run taken ih => exact preserved _ _ _ _ (always _ _ run) taken ih

theorem Run.previous {history : List Label} {label : Label} {last : State}
    (run : Run step start (label :: history) last) :
    ∃ state, Run step start history state ∧ step state label last := by
  cases run with
  | next run taken => exact ⟨_, run, taken⟩

theorem Run.split {later earlier : List Label} {state : State}
    (run : Run step start (later ++ earlier) state) :
    ∃ mid, Run step start earlier mid ∧ Run step mid later state := by
  induction later generalizing state with
  | nil => exact ⟨state, run, .start⟩
  | cons label later ih =>
      obtain ⟨_, shorter, taken⟩ := run.previous
      obtain ⟨mid, before, after⟩ := ih shorter
      exact ⟨mid, before, after.next taken⟩

/-- `stop` holds at no earlier point of the run. -/
def NotBefore (step : State → Label → State → Prop) (start : State)
    (stop : List Label → State → Prop) (history : List Label) : Prop :=
  ∀ earlier state, earlier <:+ history → earlier ≠ history → Run step start earlier state →
    ¬ stop earlier state

section Until
variable {stop : List Label → State → Prop} {label : Label} {history : List Label} {state : State}

theorem NotBefore.previous (notBefore : NotBefore step start stop (label :: history))
    (run : Run step start history state) : ¬ stop history state := by
  apply notBefore history state (List.suffix_cons label history) _ run
  intro same
  have longer := congrArg List.length same
  rw [List.length_cons] at longer
  omega

theorem NotBefore.shorter (notBefore : NotBefore step start stop (label :: history)) :
    NotBefore step start stop history := by
  intro earlier state suffix _ run
  apply notBefore earlier state (suffix.trans (List.suffix_cons label history)) _ run
  intro same
  have shorter := suffix.length_le
  rw [same, List.length_cons] at shorter
  omega

theorem NotBefore.nil : NotBefore step start stop [] :=
  fun _ _ suffix other _ => absurd (List.suffix_nil.mp suffix) other

theorem NotBefore.cons (notBefore : NotBefore step start stop history)
    (going : ∀ state, Run step start history state → ¬ stop history state) (label : Label) :
    NotBefore step start stop (label :: history) := by
  intro earlier state suffix other run
  rcases List.suffix_cons_iff.mp suffix with same | shorter
  · exact absurd same other
  · by_cases whole : earlier = history
    · subst whole
      exact going state run
    · exact notBefore earlier state shorter whole run

/-- An invariant that has to be preserved only before the event, by an allowed history. -/
theorem Run.until (inv : List Label → State → Prop) (allowed : List Label → Prop)
    (hereditary : ∀ label history, allowed (label :: history) → allowed history)
    (init : inv [] start)
    (preserved : ∀ history state label last, allowed (label :: history) → ¬ stop history state →
      inv history state → step state label last → inv (label :: history) last)
    (run : Run step start history state) (isAllowed : allowed history)
    (notBefore : NotBefore step start stop history) : inv history state := by
  induction run with
  | start => exact init
  | next run taken ih =>
      have before := ih (hereditary _ _ isAllowed) notBefore.shorter
      exact preserved _ _ _ _ isAllowed (notBefore.previous run) before taken

end Until
end Run
end Interaction
