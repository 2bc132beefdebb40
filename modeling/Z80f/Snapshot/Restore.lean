import Z80f.Interaction.Bisimulation
import Z80f.Cpu.StepRules

/-! # A snapshot is the whole state

`Snapshot` leaves out `instruction_t_states_` and `flags_modified_`.  Every step
overwrites both before it uses them, so two CPUs with equal snapshots cannot be
told apart by any sequence of calls. -/

set_option autoImplicit false

namespace Z80f

open Interaction Stateful

inductive Op where
  | step (fuel : Nat)
  | runFor (fuel steps : Nat) (tStates : Int)
  | setNmiLine (active : Bool)
  | setIntLine (active : Bool)
  | pulseIntLine
  | resetCycleCounter
  | reset
  | saveSnapshot

/-- The return value, if there is one, and the calls made to the host. -/
structure Reply where
  returned : Option Int := none
  saved : Option Snapshot := none
  calls : List BusCall := []

/-- What the accessors and the bus show between two operations. -/
structure View (Host : Type) where
  registers : Registers
  snapshot : Snapshot
  cycleCounter : BitVec 64
  cyclesSinceReset : BitVec 64
  host : Host

section System
variable {Host : Type} (bus : Bus Host)

def perform : Op → Machine Host → Option (Reply × Machine Host)
  | .step fuel, s => (step bus fuel s).map fun stepped =>
      ({ returned := some stepped.returned, calls := stepped.calls }, stepped.machine)
  | .runFor fuel steps tStates, s => (runFor bus fuel steps tStates s).toOption.map fun ran =>
      ({ returned := some ran.value, calls := ran.calls }, ran.machine)
  | .setNmiLine active, s => some ({}, s.onZ80 (Z80.setNmiLine active))
  | .setIntLine active, s => some ({}, s.onZ80 (Z80.setIntLine active))
  | .pulseIntLine, s => some ({}, s.onZ80 Z80.pulseIntLine)
  | .resetCycleCounter, s => some ({}, s.onZ80 Z80.resetCycleCounter)
  | .reset, s => some ({}, s.onZ80 Z80.reset)
  | .saveSnapshot, s => some ({ saved := some s.z80.saveSnapshot }, s)

def publicSystem : System Op Reply (View Host) (Machine Host) where
  perform := perform bus
  view s :=
    { registers := s.z80.regs
      snapshot := s.z80.saveSnapshot
      cycleCounter := s.z80.cycles
      cyclesSinceReset := s.z80.cyclesSinceReset
      host := s.host }

end System

/-- Equal but for the two members that a snapshot leaves out. -/
structure Alike {Host : Type} (s s' : Machine Host) : Prop where
  saved : s.z80.saveSnapshot = s'.z80.saveSnapshot
  host : s.host = s'.host

section Alike
variable {Host : Type} {bus : Bus Host} {s s' : Machine Host}

def Machine.scratched (tStates : Int) (modified : Bool) (s : Machine Host) : Machine Host :=
  { s with z80 := { s.z80 with instructionTStates := tStates, flagsModified := modified } }

theorem Alike.scratched (alike : Alike s s') : ∃ tStates modified,
    s' = s.scratched tStates modified := by
  obtain ⟨⟨⟨regs, nmiLine, nmiPending, intLine, pulse, modified⟩, ⟨cycles, tStates⟩, base⟩, host⟩ := s
  obtain ⟨⟨⟨regs', nmiLine', nmiPending', intLine', pulse', modified'⟩, ⟨cycles', tStates'⟩, base'⟩,
    host'⟩ := s'
  obtain ⟨saved, rfl⟩ := alike
  obtain ⟨rfl, rfl, rfl, rfl, rfl, rfl, rfl⟩ := Snapshot.mk.inj saved
  exact ⟨_, _, rfl⟩

theorem step_scratched (fuel : Nat) (tStates : Int) (modified : Bool) :
    step bus fuel (s.scratched tStates modified) = step bus fuel s := rfl

theorem Alike.step (alike : Alike s s') (fuel : Nat) : step bus fuel s = step bus fuel s' := by
  obtain ⟨tStates, modified, rfl⟩ := alike.scratched
  rw [step_scratched]

/-- Results that agree, in machines that agree. -/
abbrev AlikeRan (ran ran' : Ran Host Int) : Prop :=
  ran.value = ran'.value ∧ ran.calls = ran'.calls ∧ Alike ran.machine ran'.machine

theorem AlikeRan.refl (found : Option (Ran Host Int)) : Option.Rel AlikeRan found found := by
  cases found with
  | none => exact .none
  | some ran => exact .some ⟨rfl, rfl, rfl, rfl⟩

theorem Alike.runFor (alike : Alike s s') (bus : Bus Host) (fuel steps : Nat) (tStates : Int) :
    Option.Rel AlikeRan (runFor bus fuel steps tStates s).toOption
      (runFor bus fuel steps tStates s').toOption := by
  unfold Z80f.runFor
  cases steps with
  | zero =>
      rw [runForLoop, runForLoop]
      split
      · exact .none
      · exact .some ⟨rfl, rfl, alike⟩
  | succ steps =>
      rw [runForLoop, runForLoop, alike.step]
      split
      · exact AlikeRan.refl _
      · exact .some ⟨rfl, rfl, alike⟩

end Alike

theorem publicSystem_bisimilar {Host : Type} (bus : Bus Host) :
    (publicSystem bus).Bisimilar (publicSystem bus) Alike where
  view s s' alike := by
    obtain ⟨tStates, modified, rfl⟩ := alike.scratched
    rfl
  perform op s s' alike := by
    cases op with
    | step fuel =>
        simp only [publicSystem, perform, alike.step]
        cases step bus fuel s' with
        | none => exact .none
        | some stepped => exact .some ⟨rfl, rfl, rfl⟩
    | runFor fuel steps tStates =>
        have ran := alike.runFor bus fuel steps tStates
        simp only [publicSystem, perform]
        generalize (Z80f.runFor bus fuel steps tStates s).toOption = left at ran ⊢
        generalize (Z80f.runFor bus fuel steps tStates s').toOption = right at ran ⊢
        cases ran with
        | none => exact .none
        | some agree =>
            obtain ⟨value, calls, machine⟩ := agree
            exact .some ⟨by simp only [value, calls], machine⟩
    | setNmiLine | setIntLine | pulseIntLine | resetCycleCounter | reset | saveSnapshot =>
        obtain ⟨tStates, modified, rfl⟩ := alike.scratched
        exact .some ⟨rfl, rfl, rfl⟩

/-- After `load_snapshot` of a snapshot of `s`, with the same host, no sequence
of public operations tells the two CPUs apart. -/
theorem snapshot_restores {Host : Type} (bus : Bus Host) (s : Machine Host) (y : Z80)
    (ops : List Op) :
    (publicSystem bus).trace ops { z80 := y.loadSnapshot s.z80.saveSnapshot, host := s.host } =
      (publicSystem bus).trace ops s :=
  (publicSystem_bisimilar bus).trace_eq ops ⟨rfl, rfl⟩

end Z80f
