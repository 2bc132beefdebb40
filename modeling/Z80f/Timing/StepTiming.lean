import Z80f.Interaction.Meter
import Z80f.Encoding.Execution
import Mathlib.Data.BitVec
import Mathlib.Algebra.Order.BigOperators.Group.List

/-! # The time one step takes

An instruction costs what its dispatcher returns, by its signature; the two
counters of the clock are meters of the bus. -/

set_option autoImplicit false

namespace Z80f

open Interaction Stateful Z80M

/-- The bus is well formed and an instruction's own cost is what it spent. -/
def StepAccounted (found : Option StepKind) (_ : Cpu) (path : Path) : Prop :=
  ∀ kind, found = some kind →
    Disciplined none path ∧ ∀ t, kind = .instruction t → nominal path = t

theorem executeInstruction_accounted (fuel : Nat) (cpu : Cpu) :
    (executeInstruction fuel).Holds StepAccounted cpu := by
  refine (executeInstruction_conforms fuel cpu).mono ?_
  intro found next path conforms kind eq
  obtain ⟨t, settled, rfl, -, s, meets, cost⟩ := conforms kind eq
  refine ⟨meets.signed.disciplined, ?_⟩
  rintro _ ⟨rfl⟩
  rw [meets.signed.cost, ← cost, add_zero]

theorem disciplined_push (sp value : Word) : Disciplined none (pushPath sp value) := by
  simp [pushPath]

theorem vectorInt_disciplined (databus : Byte) (cpu : Cpu) :
    (vectorInt databus).Holds (fun _ _ path => Disciplined none path) cpu := by
  simp [holds_vectorInt]

theorem stepBody_accounted (fuel : Nat) (cpu : Cpu) :
    (stepBody fuel).Holds StepAccounted cpu := by
  rw [holds_stepBody]
  refine ⟨fun _ => ?_, fun _ _ databus => ?_, fun _ _ => ?_⟩
  · simp [StepAccounted, nmiPath, (disciplined_push _ _).afterCycle]
  · refine (vectorInt_disciplined databus _).mono ?_
    intro _ next path disciplined
    have pushed := (disciplined_push cpu.regs.wake.sp cpu.regs.wake.pc).append disciplined
    simpa [StepAccounted, intPath] using pushed
  · rw [holds_haltOrExecute]
    refine ⟨fun _ => ?_, fun _ => executeInstruction_accounted fuel _⟩
    simp [StepAccounted]

/-- The cost of a call with its waits, `t_j + wait_j`. -/
def spentBy (call : BusCall) : Int := tStatesOf call.request + call.note.waits

def spentOn (calls : List BusCall) : Int := (calls.map spentBy).sum

section Clock
variable {Host α : Type} {bus : Bus Host}

theorem metered_cycles :
    (environment bus).Metered (fun state => state.1.cycles)
      (fun call => BitVec.ofInt 64 (spentBy call)) := by
  intro request state
  cases request <;>
    simp [environment, serve, runMachineCycle, Environment.exchange, spentBy, BitVec.ofInt_add]

theorem metered_instructionTStates (bus : Bus Host) :
    (environment bus).Metered (fun state => state.1.instructionTStates)
      (fun call => tStatesOf call.request) := by
  intro request state
  cases request <;> simp [environment, serve, runMachineCycle, Environment.exchange]

theorem shows_cycles :
    (environment bus).Shows (fun state => state.1.cycles) Observation.cycles := by
  intro request state
  cases request <;> rfl

theorem ofInt_spentOn (calls : List BusCall) :
    (calls.map fun call => BitVec.ofInt 64 (spentBy call)).sum =
      BitVec.ofInt 64 (spentOn calls) := by
  induction calls with
  | nil => rfl
  | cons call calls ih =>
      simp only [List.map_cons, List.sum_cons, ih, spentOn, BitVec.ofInt_add]

theorem exec_cycles (m : Z80M α) (s : Machine Host) :
    (exec bus m s).machine.z80.cycles =
      s.z80.cycles + BitVec.ofInt 64 (spentOn (exec bus m s).calls) := by
  rw [← ofInt_spentOn]
  exact metered_cycles.run _ _

theorem exec_instructionTStates (m : Z80M α) (s : Machine Host) :
    (exec bus m s).machine.z80.instructionTStates =
      s.z80.instructionTStates + nominal ((exec bus m s).calls.map Exchange.answered) := by
  have meter := (metered_instructionTStates bus).run (m.run s.z80.toCpu)
    (s.z80.toClock, s.host)
  simp only [nominal, List.map_map]
  exact meter

/-- Every callback sees the counter with all earlier calls already in it. -/
theorem exec_observed (m : Z80M α) (s : Machine Host) {before after : List BusCall}
    {call : BusCall} (split : (exec bus m s).calls = before ++ call :: after) :
    call.note.cycles = s.z80.cycles + BitVec.ofInt 64 (spentOn before) := by
  rw [← ofInt_spentOn]
  exact metered_cycles.observed shows_cycles _ _ split

theorem exec_waits (waitsNonneg : ∀ cycles address tStates host,
      0 ≤ (bus.onMCycle cycles address tStates host).1) (m : Z80M α) (s : Machine Host) :
    ∀ call ∈ (exec bus m s).calls, 0 ≤ call.note.waits := by
  refine Program.run_log ?_ _ _
  intro request state
  cases request with
  | machineCycle address tStates => exact waitsNonneg _ _ _ _
  | readMemory | writeMemory | readIo | writeIo | acknowledgeInterrupt => exact le_refl 0

end Clock

theorem Disciplined.access {opened : Option Word} {before after : Path} {answered : Sigma Answer}
    {address : Word} (disciplined : Disciplined opened (before ++ answered :: after))
    (access : accessAddress answered.1 = some address) :
    (before = [] ∧ opened = some address) ∨
      ∃ earlier tStates, before = earlier ++ [cycle address tStates] := by
  induction before generalizing opened with
  | nil =>
      obtain ⟨request, answer⟩ := answered
      cases request <;> simp_all [Disciplined, accessAddress]
  | cons first before ih =>
      right
      obtain ⟨request, answer⟩ := first
      cases request with
      | machineCycle cycleAddress tStates =>
          rcases ih disciplined.2 with ⟨none, same⟩ | ⟨earlier, tStates', split⟩
          · refine ⟨[], tStates, ?_⟩
            rw [none, Option.some.inj same]
            rfl
          · exact ⟨_ :: earlier, tStates', by rw [split]; rfl⟩
      | readMemory | writeMemory | readIo | writeIo | acknowledgeInterrupt =>
          rcases ih disciplined.2 with ⟨_, same⟩ | ⟨earlier, tStates, split⟩
          · cases same
          · exact ⟨_ :: earlier, tStates, by rw [split]; rfl⟩

theorem Disciplined.nonneg {opened : Option Word} {path : Path}
    (disciplined : Disciplined opened path) : ∀ answered ∈ path, 0 ≤ tStatesOf answered.1 := by
  induction path generalizing opened with
  | nil => simp
  | cons first rest ih =>
      obtain ⟨request, answer⟩ := first
      intro answered member
      rcases List.mem_cons.mp member with rfl | later
      · cases request with
        | machineCycle address tStates => exact disciplined.1.le
        | readMemory | writeMemory | readIo | writeIo | acknowledgeInterrupt => exact le_refl 0
      · cases request <;> exact ih disciplined.2 answered later

theorem spentOn_nonneg {calls : List BusCall}
    (costs : ∀ call ∈ calls, 0 ≤ tStatesOf call.request)
    (waits : ∀ call ∈ calls, 0 ≤ call.note.waits) : 0 ≤ spentOn calls := by
  refine List.sum_nonneg ?_
  intro spent member
  obtain ⟨call, present, rfl⟩ := List.mem_map.mp member
  exact add_nonneg (costs call present) (waits call present)

theorem toInt32_ofInt {n : Int} (nonneg : 0 ≤ n) (fits : n < 2 ^ 31) :
    toInt32 (BitVec.ofInt 64 n) = n := by
  have low : (BitVec.ofInt 64 n).setWidth 32 = BitVec.ofInt 32 n := by
    apply BitVec.eq_of_toNat_eq
    simp only [BitVec.toNat_setWidth, BitVec.toNat_ofInt]
    omega
  rw [toInt32, low, BitVec.toInt_ofInt]
  simp only [Int.bmod_def]
  omega

theorem stepBody_begins (fuel : Nat) (cpu : Cpu) :
    (stepBody fuel).Holds (fun _ _ path => ∃ address tStates rest,
      path = cycle address tStates :: rest) cpu := by
  rw [holds_stepBody]
  refine ⟨fun _ => ⟨_, _, _, rfl⟩, fun _ _ databus => ?_, fun _ _ => ?_⟩
  · exact Holds.intro _ (fun _ _ _ => ⟨_, _, _, rfl⟩) _
  · rw [holds_haltOrExecute]
    refine ⟨fun _ v => ⟨_, _, _, rfl⟩, fun _ => ?_⟩
    rw [holds_executeInstruction]
    intro op
    apply Holds.intro
    intro found next path
    cases found <;> exact ⟨_, _, _, rfl⟩

theorem step_takes_time {Host : Type} {bus : Bus Host} {fuel : Nat} {s : Machine Host}
    {stepped : Stepped Host} (waitsNonneg : ∀ cycles address tStates host,
      0 ≤ (bus.onMCycle cycles address tStates host).1)
    (returns : step bus fuel s = some stepped) : 0 < spentOn stepped.calls := by
  obtain ⟨disciplined, -⟩ := Holds.step (stepBody_accounted fuel s.z80.toCpu) returns _ rfl
  obtain ⟨address, tStates, rest, begins⟩ := Holds.step (stepBody_begins fuel s.z80.toCpu) returns
  have waits : ∀ call ∈ stepped.calls, 0 ≤ call.note.waits := by
    rw [(step_returns returns).2.2.1]
    exact exec_waits waitsNonneg _ _
  obtain ⟨opening, later, calls, openingEq, laterEq⟩ := List.map_eq_cons_iff.mp begins
  rw [begins] at disciplined
  have costs : ∀ call ∈ later, 0 ≤ tStatesOf call.request := by
    intro call member
    refine disciplined.2.nonneg call.answered ?_
    rw [← laterEq]
    exact List.mem_map_of_mem member
  rw [calls] at waits ⊢
  have rest_nonneg : 0 ≤ spentOn later :=
    spentOn_nonneg costs fun call member => waits call (List.mem_cons_of_mem _ member)
  have request : opening.request = .machineCycle address tStates := congrArg Sigma.fst openingEq
  have first : 0 < spentBy opening := by
    have wait := waits opening List.mem_cons_self
    simp only [spentBy, request, tStatesOf]
    have positive : 0 < tStates := disciplined.1
    omega
  simp only [spentOn, List.map_cons, List.sum_cons] at rest_nonneg ⊢
  omega

theorem step_returned {Host : Type} {bus : Bus Host} {fuel : Nat} {s : Machine Host}
    {stepped : Stepped Host} (returns : step bus fuel s = some stepped) :
    stepped.returned = toInt32 (BitVec.ofInt 64 (spentOn stepped.calls)) := by
  obtain ⟨-, -, calls, returned⟩ := step_returns returns
  rw [returned, exec_cycles, calls]
  change toInt32 (s.z80.cycles + _ - s.z80.cycles) = _
  rw [add_sub_cancel_left]

/-- On every host with nonnegative waits: the cycles of an instruction add up to
the cost its dispatcher computed, every callback sees the counter with all
earlier cycles in it, an access directly follows its own cycle, and the step
returns the sum. -/
theorem step_accounts_time {Host : Type} (bus : Bus Host) (fuel : Nat) (s : Machine Host)
    (stepped : Stepped Host)
    (waitsNonneg : ∀ cycles address tStates host,
      0 ≤ (bus.onMCycle cycles address tStates host).1)
    (returns : step bus fuel s = some stepped) :
    (∀ t, stepped.kind = .instruction t →
      (stepped.calls.map fun call => tStatesOf call.request).sum = t ∧
        stepped.machine.z80.instructionTStates = t) ∧
    (∀ before call after, stepped.calls = before ++ call :: after →
      call.note.cycles = s.z80.cycles + BitVec.ofInt 64 (spentOn before) ∧
        ∀ address, accessAddress call.request = some address →
          ∃ earlier opening tStates, before = earlier ++ [opening] ∧
            opening.request = .machineCycle address tStates ∧
            call.note.cycles =
              opening.note.cycles + BitVec.ofInt 64 (tStates + opening.note.waits)) ∧
    (spentOn stepped.calls < 2 ^ 31 → stepped.returned = spentOn stepped.calls) := by
  obtain ⟨disciplined, cost⟩ := Holds.step (stepBody_accounted fuel s.z80.toCpu) returns _ rfl
  obtain ⟨value, machine, calls, returned⟩ := step_returns returns
  set ran := exec bus (stepBody fuel) s.started with ran_eq
  have observed {before after : List BusCall} {call : BusCall}
      (split : stepped.calls = before ++ call :: after) :
      call.note.cycles = s.z80.cycles + BitVec.ofInt 64 (spentOn before) := by
    rw [calls, ran_eq] at split
    exact exec_observed _ s.started split
  refine ⟨fun t isInstruction => ?_, fun before call after split => ⟨observed split, ?_⟩, ?_⟩
  · have total := cost t isInstruction
    rw [nominal, List.map_map] at total
    refine ⟨total, ?_⟩
    rw [machine, ran_eq, exec_instructionTStates, ← ran_eq, ← calls, nominal, List.map_map]
    exact (zero_add _).trans total
  · intro address access
    rw [split, List.map_append, List.map_cons] at disciplined
    rcases disciplined.access access with ⟨-, none⟩ | ⟨earlier, tStates, last⟩
    · cases none
    · obtain ⟨earlier', tail, rfl, -, tailEq⟩ := List.map_eq_append_iff.mp last
      obtain ⟨opening, rfl, openingEq⟩ := List.map_eq_singleton_iff.mp tailEq
      have request : opening.request = .machineCycle address tStates :=
        congrArg Sigma.fst openingEq
      refine ⟨earlier', opening, tStates, rfl, request, ?_⟩
      have openingSees : opening.note.cycles = s.z80.cycles + BitVec.ofInt 64 (spentOn earlier') := by
        have earlier : stepped.calls = earlier' ++ opening :: (call :: after) := by
          rw [split, List.append_assoc]
          rfl
        exact observed earlier
      rw [observed split, openingSees, add_assoc, ← BitVec.ofInt_add]
      simp [spentOn, spentBy, request]
  · intro fits
    rw [step_returned returns]
    exact toInt32_ofInt (step_takes_time waitsNonneg returns).le fits

/-- INC (HL) has four machine cycles, each with three waits. -/
theorem step_accounts_time_incHl : ∃ stepped,
    step slowRam 0 { z80 := { regs := { h := 0x80 } }, host := programAt 0 [0x34] 0 } =
      some stepped ∧
    (stepped.calls.map fun call => tStatesOf call.request).sum = 11 ∧
    stepped.machine.z80.instructionTStates = 11 ∧ stepped.returned = 23 := by
  obtain ⟨cost, -, total⟩ := step_accounts_time slowRam 0
    { z80 := { regs := { h := 0x80 } }, host := programAt 0 [0x34] 0 } _
    (fun _ _ _ _ => show (0 : Int) ≤ 3 by decide) rfl
  exact ⟨_, rfl, (cost 11 rfl).1, (cost 11 rfl).2, total (by decide)⟩

end Z80f
