import Z80f.Interaction.Run
import Z80f.Invariant.WellFormed

/-! # Reachable states are well formed

Sessions of every public call, where a snapshot is restored together with the
RAM it was saved with. -/

set_option autoImplicit false

namespace Z80f

open Interaction

inductive Call where
  | step
  | runFor (tStates : Int)
  | setNmiLine (active : Bool)
  | setIntLine (active : Bool)
  | pulseIntLine
  | reset
  | saveSnapshot
  | loadSnapshot

/-- A machine with the snapshots saved so far and the RAM of each. -/
structure Saving (Host : Type) where
  machine : Machine Host
  saved : List (Snapshot × Memory) := []

def Saving.onZ80 {Host : Type} (f : Z80 → Z80) (x : Saving Host) : Saving Host :=
  { x with machine := x.machine.onZ80 f }

/-- Loading restores the RAM as well; the rest of the host is free. -/
inductive Called {Host : Type} (bus : RamBus Host) : Saving Host → Call → Saving Host → Prop where
  | step {x : Saving Host} {fuel : Nat} {stepped : Stepped Host}
      (returns : step bus.toBus fuel x.machine = some stepped) :
      Called bus x .step { x with machine := stepped.machine }
  | runFor {x : Saving Host} {fuel steps : Nat} {tStates : Int} {ran : Ran Host Int}
      (returns : runFor bus.toBus fuel steps tStates x.machine = .ok ran) :
      Called bus x (.runFor tStates) { x with machine := ran.machine }
  | setNmiLine (x : Saving Host) (active : Bool) :
      Called bus x (.setNmiLine active) (x.onZ80 (Z80.setNmiLine active))
  | setIntLine (x : Saving Host) (active : Bool) :
      Called bus x (.setIntLine active) (x.onZ80 (Z80.setIntLine active))
  | pulseIntLine (x : Saving Host) : Called bus x .pulseIntLine (x.onZ80 Z80.pulseIntLine)
  | reset (x : Saving Host) : Called bus x .reset (x.onZ80 Z80.reset)
  | saveSnapshot (x : Saving Host) :
      Called bus x .saveSnapshot
        { x with saved := (x.machine.z80.saveSnapshot, bus.memory x.machine.host) :: x.saved }
  | loadSnapshot {x : Saving Host} {snapshot : Snapshot} {image : Memory} {host : Host}
      (earlier : (snapshot, image) ∈ x.saved) (restored : bus.memory host = image) :
      Called bus x .loadSnapshot
        { x with machine := { z80 := x.machine.z80.loadSnapshot snapshot, host := host } }

section Reachable
variable {Host : Type} {bus : RamBus Host}

/-- The machine and every snapshot are well formed over their own RAM. -/
structure AllWellFormed (bus : RamBus Host) (x : Saving Host) : Prop where
  machine : WellFormed (bus.memory x.machine.host) x.machine.z80.regs
  saved : ∀ entry ∈ x.saved, WellFormed entry.2 entry.1.registers

theorem step_wellFormed {fuel : Nat} {s : Machine Host} {stepped : Stepped Host}
    (returns : step bus.toBus fuel s = some stepped)
    (formed : WellFormed (bus.memory s.host) s.z80.regs) :
    WellFormed (bus.memory stepped.machine.host) stepped.machine.z80.regs := by
  obtain ⟨reads, memory⟩ := bus.step_replays returns
  rw [memory]
  exact (step_case returns).wellFormed reads formed

theorem runForLoop_invariant (inv : Machine Host → Prop) {fuel : Nat}
    (preserved : ∀ s stepped, inv s → step bus.toBus fuel s = some stepped → inv stepped.machine)
    {tStates : Int} {steps : Nat} {total : Int} {s : Machine Host} {ran : Ran Host Int}
    (returns : runForLoop bus.toBus fuel tStates steps total s = .ok ran) (start : inv s) :
    inv ran.machine := by
  revert start
  refine runForLoop_induction (motive := fun _ s ran => inv s → inv ran.machine) ?_ ?_ returns
  · intro total s _ start
    exact start
  · intro total s stepped later _ stepReturns _ ih start
    exact ih (preserved s stepped start stepReturns)

theorem Called.wellFormed {x y : Saving Host} {call : Call} (called : Called bus x call y)
    (formed : AllWellFormed bus x) : AllWellFormed bus y := by
  obtain ⟨machine, saved⟩ := formed
  cases called with
  | step returns => exact ⟨step_wellFormed returns machine, saved⟩
  | runFor returns =>
      refine ⟨?_, saved⟩
      exact runForLoop_invariant (fun s => WellFormed (bus.memory s.host) s.z80.regs)
        (fun _ _ formed returns => step_wellFormed returns formed) returns machine
  | setNmiLine | setIntLine | pulseIntLine => exact ⟨machine, saved⟩
  | reset => exact ⟨wellFormed_atReset _, saved⟩
  | saveSnapshot => exact ⟨machine, List.forall_mem_cons.mpr ⟨machine, saved⟩⟩
  | loadSnapshot earlier restored => exact ⟨restored ▸ saved _ earlier, saved⟩

end Reachable

/-- In every state that a session from a reset reaches: IFF1 implies IFF2, a
pending EI implies IFF2, the mode is 0, 1 or 2, Q is 0 or F, and a halted CPU has
no pending EI and its PC on a HALT. -/
theorem reachable_wellFormed {Host : Type} (bus : RamBus Host) (initial : Z80) (host : Host)
    (history : List Call) (x : Saving Host)
    (run : Run (Called bus) { machine := { z80 := initial.reset, host := host } } history x) :
    let r := x.machine.z80.regs
    (r.iff1 = true → r.iff2 = true) ∧ (r.eiPending = true → r.iff2 = true) ∧
      (r.im = 0 ∨ r.im = 1 ∨ r.im = 2) ∧ (r.q = 0 ∨ r.q = r.flags) ∧
      (r.halted = true → r.eiPending = false ∧ bus.memory x.machine.host r.pc = 0x76) := by
  have start : AllWellFormed bus { machine := { z80 := initial.reset, host := host } } :=
    ⟨wellFormed_atReset _, by simp⟩
  obtain ⟨⟨sound, q, halted⟩, -⟩ := run.invariant (fun _ x => AllWellFormed bus x) start
    fun _ _ _ _ formed called => called.wellFormed formed
  exact ⟨sound.iff1, sound.ei, sound.im, q, halted⟩

/-- A prefixed HALT, two steps long. -/
theorem reachable_wellFormed_halt :
    ∃ x : Saving Memory, x.machine.z80.regs.halted = true ∧
      flatRam.memory x.machine.host x.machine.z80.regs.pc = 0x76 := by
  have run := Run.next (Run.next (@Run.start _ _ (Called flatRam)
    { machine := { z80 := Z80.reset {}, host := programAt 0 [0xDD, 0x76] 0 } })
    (@Called.step _ _ _ 1 _ rfl)) (@Called.step _ _ _ 0 _ rfl)
  obtain ⟨-, -, -, -, halted⟩ := reachable_wellFormed flatRam {} _ _ _ run
  exact ⟨_, rfl, (halted rfl).2⟩

end Z80f
