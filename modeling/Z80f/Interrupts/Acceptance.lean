import Z80f.Interrupts.Latches

/-! # When an interrupt is serviced

The maskable interrupt and the NMI, each in terms of what the host did and
which steps ran since the reset. -/

set_option autoImplicit false

namespace Z80f

open Interaction Stateful

section Pulse
variable {Host : Type}

theorem pulsed_later {later : List (Action Host)} {result : Stepped Host}
    (noPulse : ∀ action ∈ later, action ≠ .pulseIntLine) (other : result.kind ≠ .nmi)
    (history : List (Action Host)) : pulsed (later ++ .stepped result :: history) = false := by
  induction later with
  | nil => simp [pulsed, servicesNmi, other]
  | cons action later ih =>
      have forgotten := ih fun action member => noPulse action (List.mem_cons_of_mem _ member)
      cases action with
      | setNmiLine | setIntLine => exact forgotten
      | pulseIntLine => exact absurd rfl (noPulse _ List.mem_cons_self)
      | stepped later =>
          rw [List.cons_append, pulsed, forgotten, Bool.and_false]

end Pulse

/-- A step accepts the maskable interrupt exactly if it services no NMI, IFF1 is
set, the last step that serviced no NMI did not execute EI, and the line is high
or was pulsed since that step.  A pulse does not outlive the first step that
services no NMI. -/
theorem int_accepted_iff {Host : Type} (bus : Bus Host) (initial : Z80) (host : Host)
    (history : List (Action Host)) (s : Machine Host) (fuel : Nat) (result : Stepped Host)
    (run : FromReset bus initial host history s) (returns : step bus fuel s = some result) :
    (result.kind = .int ↔
      result.kind ≠ .nmi ∧ s.z80.regs.iff1 = true ∧
        (∀ earlier, lastOther history = some earlier → executedEi earlier = false) ∧
        (intLevel initial.intLine history = true ∨ pulsed history = true)) ∧
    (result.kind ≠ .nmi → ∀ later, (∀ action ∈ later, action ≠ .pulseIntLine) →
      pulsed (later ++ .stepped result :: history) = false) := by
  have latched := run_latched run
  have latching := (step_case returns).latching
  refine ⟨?_, fun other later noPulse => pulsed_later noPulse other history⟩
  have shadow : s.z80.regs.eiPending = false ↔
      ∀ earlier, lastOther history = some earlier → executedEi earlier = false := by
    rw [latched.ei, Option.any_eq_false]
  rw [latching.int, Cpu.acceptsInt, ← shadow, ← latched.intLine, ← latched.pulse]
  simp only [Bool.and_eq_true, Bool.or_eq_true, Bool.not_eq_true']
  tauto

/-- EI, a NOP in its shadow, then a pulse. -/
theorem int_accepted_iff_pulse : ∃ history s result,
    FromReset flatRam.toBus {} (programAt 0 [0xFB] 0) history s ∧
      step flatRam.toBus 0 s = some result ∧ result.kind = .int := by
  have run := Run.next (Run.next (Run.next (@Run.start _ _ (Act flatRam.toBus)
    { z80 := Z80.reset {}, host := programAt 0 [0xFB] 0 })
    (@Act.stepped _ _ _ 0 _ rfl)) (@Act.stepped _ _ _ 0 _ rfl)) (.pulseIntLine _)
  refine ⟨_, _, _, run, rfl, ?_⟩
  refine (int_accepted_iff flatRam.toBus {} _ _ _ 0 _ run rfl).1.mpr ⟨by decide, rfl, ?_, .inr rfl⟩
  rintro earlier ⟨rfl⟩
  rfl

section Edges
variable {Host : Type}

def nmiServices : List (Action Host) → Nat
  | [] => 0
  | .stepped result :: earlier => (if servicesNmi result then 1 else 0) + nmiServices earlier
  | _ :: earlier => nmiServices earlier

/-- Intervals between steps with a rising edge and a step after them. -/
def edgeIntervals (initial : Bool) : List (Action Host) → Nat
  | [] => 0
  | .stepped _ :: earlier => (if nmiEdge initial earlier then 1 else 0) + edgeIntervals initial earlier
  | _ :: earlier => edgeIntervals initial earlier

/-- The line did not fall since a step that left it high. -/
def heldHigh (initial : Bool) : List (Action Host) → Prop
  | [] => False
  | .stepped _ :: earlier => nmiLevel initial earlier = true
  | .setNmiLine active :: earlier => active = true ∧ heldHigh initial earlier
  | _ :: earlier => heldHigh initial earlier

theorem heldHigh_level {initial : Bool} {history : List (Action Host)}
    (held : heldHigh initial history) : nmiLevel initial history = true := by
  induction history with
  | nil => cases held
  | cons action earlier ih =>
      cases action with
      | setNmiLine active => exact held.1
      | setIntLine | pulseIntLine => exact ih held
      | stepped => exact held

theorem heldHigh_noEdge {initial : Bool} {history : List (Action Host)}
    (held : heldHigh initial history) : nmiEdge initial history = false := by
  induction history with
  | nil => cases held
  | cons action earlier ih =>
      cases action with
      | setNmiLine active => simp [nmiEdge, heldHigh_level held.2, ih held.2]
      | setIntLine | pulseIntLine => exact ih held
      | stepped => rfl

variable {bus : Bus Host} {initial : Z80} {host : Host} {history : List (Action Host)}
  {s : Machine Host}

theorem services_counted (run : FromReset bus initial host history s) :
    nmiServices history = edgeIntervals initial.nmiLine history := by
  refine run.history
    (fun history => nmiServices history = edgeIntervals initial.nmiLine history)
    (fun _ _ => run_latched) rfl ?_
  intro history s action last latched act ih
  cases act with
  | setNmiLine | setIntLine | pulseIntLine => exact ih
  | stepped returns =>
      have service := (step_case returns).latching.nmi
      rw [nmiServices, edgeIntervals, ih, servicesNmi, service, latched.nmiPending]

theorem step_nmi (fuel : Nat) (pending : s.z80.nmiPending = true) :
    ∃ result, step bus fuel s = some result ∧ result.kind = .nmi := by
  have holds : (stepBody fuel).Holds (fun found _ _ => found = some .nmi) s.started.z80.toCpu := by
    rw [holds_stepBody]
    have isPending : s.started.z80.nmiPending = true := pending
    simp [isPending]
  have value := Holds.exec bus s.started holds
  simp only [step, value, Option.map_some, Option.some.injEq]
  exact ⟨_, rfl, rfl⟩

end Edges

/-- A step services an NMI exactly if the line rose since the last step, and
then it returns whatever the CPU and the program are.  Hence every interval with
an edge before a step is served once, a line held high triggers nothing, and a
service keeps IFF2, the INT line and a pending pulse. -/
theorem nmi_serviced_iff {Host : Type} (bus : Bus Host) (initial : Z80) (host : Host)
    (history : List (Action Host)) (s : Machine Host)
    (run : FromReset bus initial host history s) (fuel : Nat) :
    (nmiEdge initial.nmiLine history = true →
      ∃ result, step bus fuel s = some result ∧ result.kind = .nmi) ∧
    (∀ result, step bus fuel s = some result →
      (result.kind = .nmi ↔ nmiEdge initial.nmiLine history = true) ∧
      (result.kind = .nmi → result.machine.z80.regs.iff2 = s.z80.regs.iff2 ∧
        result.machine.z80.intLine = s.z80.intLine ∧
        result.machine.z80.intPulsePending = s.z80.intPulsePending)) ∧
    nmiServices history = edgeIntervals initial.nmiLine history ∧
    (heldHigh initial.nmiLine history → nmiEdge initial.nmiLine history = false) := by
  have latched := run_latched run
  refine ⟨fun edge => step_nmi fuel (latched.nmiPending.trans edge), fun result returns => ?_,
    services_counted run, heldHigh_noEdge⟩
  have latching := (step_case returns).latching
  refine ⟨?_, fun isNmi => ⟨latching.iff2 isNmi, latching.intLine, ?_⟩⟩
  · rw [← latched.nmiPending, ← latching.nmi, beq_iff_eq]
  · rw [latching.pulse, isNmi]
    rfl

/-- The line rises right after the reset. -/
theorem nmi_serviced_iff_raised :
    let s : Machine Memory := { z80 := Z80.reset {}, host := fun _ => 0 }
    ∃ result, step flatRam.toBus 0 (s.onZ80 (Z80.setNmiLine true)) = some result ∧
      result.kind = .nmi :=
  (nmi_serviced_iff flatRam.toBus {} (fun _ => 0) _ _ (.next .start (.setNmiLine _ true)) 0).1 rfl

end Z80f
