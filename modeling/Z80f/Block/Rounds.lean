import Z80f.Encoding.Stepping
import Z80f.Timing.Waits
import Mathlib.Algebra.BigOperators.Group.Finset.Basic

/-! # Instructions that run for many steps

A repeating instruction is a step taken again and again.  One round is executed
by the rule for a two-byte instruction behind ED; `stepTimes_rounds` is the
induction over the rounds. -/

set_option autoImplicit false

namespace Z80f

open Interaction Stateful Z80M

/-- `count` calls of `step`, with the sum of what they return. -/
def stepTimes {Host : Type} (bus : Bus Host) (fuel : Nat) :
    Nat → Machine Host → Option (Ran Host Int)
  | 0, s => some ⟨0, s, []⟩
  | count + 1, s =>
      (step bus fuel s).bind fun stepped =>
        (stepTimes bus fuel count stepped.machine).map fun ran =>
          ⟨stepped.returned + ran.value, ran.machine, stepped.calls ++ ran.calls⟩

section Times
variable {Host : Type} {bus : Bus Host} {fuel : Nat}

theorem stepTimes_succ {count : Nat} {s : Machine Host} {ran : Ran Host Int}
    {stepped : Stepped Host} (before : stepTimes bus fuel count s = some ran)
    (returns : step bus fuel ran.machine = some stepped) :
    stepTimes bus fuel (count + 1) s =
      some ⟨ran.value + stepped.returned, stepped.machine, ran.calls ++ stepped.calls⟩ := by
  induction count generalizing s ran with
  | zero =>
      obtain rfl := Option.some.inj before
      rw [stepTimes, returns, Option.bind_some, stepTimes, Option.map_some, List.append_nil]
      simp only [Int.add_zero, Int.zero_add, List.nil_append]
  | succ count ih =>
      rw [stepTimes] at before
      obtain ⟨head, headReturns, rest⟩ := Option.bind_eq_some_iff.mp before
      obtain ⟨tail, tailReturns, rfl⟩ := Option.map_eq_some_iff.mp rest
      rw [stepTimes, headReturns, Option.bind_some, ih tailReturns returns, Option.map_some]
      simp only [Int.add_assoc, List.append_assoc]

/-- From what each of `total` steps does to what a number of them does. -/
theorem stepTimes_run {total : Nat} {s : Machine Host} (inv : Nat → Ran Host Int → Prop)
    (start : inv 0 ⟨0, s, []⟩)
    (round : ∀ k ran, k < total → inv k ran → ∃ stepped,
      step bus fuel ran.machine = some stepped ∧
      inv (k + 1) ⟨ran.value + stepped.returned, stepped.machine, ran.calls ++ stepped.calls⟩)
    {count : Nat} (enough : count ≤ total) :
    ∃ ran, stepTimes bus fuel count s = some ran ∧ inv count ran := by
  induction count with
  | zero => exact ⟨_, rfl, start⟩
  | succ count ih =>
      obtain ⟨ran, returns, holds⟩ := ih (Nat.le_of_succ_le enough)
      obtain ⟨stepped, stepReturns, later⟩ := round count ran enough holds
      exact ⟨_, stepTimes_succ returns stepReturns, later⟩

/-- `stepTimes_run` for an invariant of the machine, with the sum of the costs. -/
theorem stepTimes_rounds {total : Nat} {s : Machine Host} (inv : Nat → Machine Host → Prop)
    {cost : Nat → Int} (start : inv 0 s)
    (round : ∀ k s, k < total → inv k s → ∃ stepped, step bus fuel s = some stepped ∧
      stepped.returned = cost k ∧ inv (k + 1) stepped.machine)
    {count : Nat} (enough : count ≤ total) :
    ∃ ran, stepTimes bus fuel count s = some ran ∧
      ran.value = ∑ i ∈ Finset.range count, cost i ∧ inv count ran.machine := by
  refine stepTimes_run
    (fun k ran => ran.value = ∑ i ∈ Finset.range k, cost i ∧ inv k ran.machine)
    ⟨rfl, start⟩ ?_ enough
  intro k ran before holds
  obtain ⟨stepped, returns, returned, later⟩ := round k ran.machine before holds.2
  refine ⟨stepped, returns, ?_, later⟩
  rw [Finset.sum_range_succ, holds.1, returned]

end Times

theorem rounds_cost {n : Nat} (positive : 1 ≤ n) :
    ∑ i ∈ Finset.range n, (if i + 1 = n then (16 : Int) else 21) = 21 * (n - 1) + 16 := by
  obtain ⟨m, rfl⟩ : ∃ m, n = m + 1 := ⟨n - 1, by omega⟩
  have repeated : ∀ i ∈ Finset.range m, (if i + 1 = m + 1 then (16 : Int) else 21) = 21 := by
    intro i member
    have before := Finset.mem_range.mp member
    rw [if_neg (by omega)]
  rw [Finset.sum_range_succ, Finset.sum_congr rfl repeated, Finset.sum_const, Finset.card_range,
    if_pos rfl]
  simp
  omega

/-- No NMI is pending and no maskable interrupt can be accepted. -/
def Cpu.undisturbed (cpu : Cpu) : Prop :=
  cpu.nmiPending = false ∧ ((cpu.intLine || cpu.intPulsePending) && cpu.regs.iff1) = false

theorem Cpu.undisturbed.noInt {cpu : Cpu} (undisturbed : cpu.undisturbed) :
    cpu.acceptsInt = false := by
  rw [Cpu.acceptsInt, undisturbed.2, Bool.false_and]

def Cpu.edFetched (cpu : Cpu) : Cpu := cpu.shadowLeft.opcodeFetched.opcodeFetched

section Fetched
variable (cpu : Cpu)

theorem edFetched_regs : cpu.edFetched.regs = { cpu.regs with
    pc := cpu.regs.pc + 1 + 1, r := advanceR 2 cpu.regs.r, eiPending := false } := rfl

@[simp] theorem edFetched_pc : cpu.edFetched.regs.pc = cpu.regs.pc + 2 :=
  BitVec.add_assoc _ _ _

@[simp] theorem edFetched_hl : cpu.edFetched.regs.hl = cpu.regs.hl := by
  simp only [edFetched_regs, Registers.hl]

@[simp] theorem edFetched_de : cpu.edFetched.regs.de = cpu.regs.de := by
  simp only [edFetched_regs, Registers.de]

@[simp] theorem edFetched_bc : cpu.edFetched.regs.bc = cpu.regs.bc := by
  simp only [edFetched_regs, Registers.bc]

@[simp] theorem edFetched_sp : cpu.edFetched.regs.sp = cpu.regs.sp := by
  simp only [edFetched_regs]

@[simp] theorem edFetched_b : cpu.edFetched.regs.b = cpu.regs.b := by
  simp only [edFetched_regs]

@[simp] theorem edFetched_c : cpu.edFetched.regs.c = cpu.regs.c := by
  simp only [edFetched_regs]

@[simp] theorem edFetched_d : cpu.edFetched.regs.d = cpu.regs.d := by
  simp only [edFetched_regs]

@[simp] theorem edFetched_e : cpu.edFetched.regs.e = cpu.regs.e := by
  simp only [edFetched_regs]

@[simp] theorem edFetched_a : cpu.edFetched.regs.a = cpu.regs.a := by
  simp only [edFetched_regs]

@[simp] theorem edFetched_flags : cpu.edFetched.regs.flags = cpu.regs.flags := by
  simp only [edFetched_regs]

@[simp] theorem edFetched_halted : cpu.edFetched.regs.halted = cpu.regs.halted := by
  simp only [edFetched_regs]

theorem Cpu.undisturbed.edFetched {cpu : Cpu} (undisturbed : cpu.undisturbed) :
    cpu.edFetched.undisturbed := by
  refine ⟨undisturbed.1, ?_⟩
  have noInt := undisturbed.2
  change ((cpu.intLine || false) && cpu.regs.iff1) = false
  revert noInt
  cases cpu.intLine <;> cases cpu.regs.iff1 <;> simp

end Fetched

def edPath (pc : Word) (op : Byte) : Path :=
  [cycle pc 4, readOf .fetch pc 0xED, cycle (pc + 1) 4, readOf .fetch (pc + 1) op]

theorem Cpu.undisturbed.executes {cpu : Cpu} (undisturbed : cpu.undisturbed)
    (running : cpu.regs.halted = false) : cpu.Executes :=
  ⟨undisturbed.1, undisturbed.noInt, running⟩

/-- A step over a memory with `ED op` at PC is `edArm op`. -/
theorem holds_stepBody_ed {cpu : Cpu} {memory : Memory} {op : Byte} (fuel : Nat)
    (undisturbed : cpu.undisturbed) (running : cpu.regs.halted = false)
    (first : memory cpu.regs.pc = 0xED) (second : memory (cpu.regs.pc + 1) = op)
    {post : Option StepKind → Cpu → Path → Prop}
    (arm : (edArm op).Holds (fun t next tail => ReadsFrom memory tail →
      post (some (.instruction t)) next.settleQ (edPath cpu.regs.pc op ++ tail))
      cpu.edFetched) :
    (stepBody fuel).Holds (fun found next path => ReadsFrom memory path → post found next path)
      cpu :=
  holds_stepBody_extended fuel (undisturbed.executes running) first second arm

section Bus
variable {Host : Type}

/-- One step with `ED op` at PC, from a rule about the arm of `op`. -/
theorem RamBus.step_ed (bus : RamBus Host) (fuel : Nat) {s : Machine Host} {op : Byte}
    (post : Int → Cpu → Path → Prop)
    (running : s.z80.regs.halted = false) (undisturbed : s.z80.undisturbed)
    (first : bus.memory s.host s.z80.regs.pc = 0xED)
    (second : bus.memory s.host (s.z80.regs.pc + 1) = op)
    (arm : (edArm op).Holds (fun t next tail => ReadsFrom (bus.memory s.host) tail →
      post t next.settleQ tail) s.z80.toCpu.edFetched) :
    ∃ stepped t tail, step bus.toBus fuel s = some stepped ∧ stepped.kind = .instruction t ∧
      stepped.calls.map Exchange.answered = edPath s.z80.regs.pc op ++ tail ∧
      post t stepped.machine.z80.toCpu tail ∧
      bus.memory stepped.machine.host = memoryAfter (bus.memory s.host) tail :=
  bus.step_extended fuel (undisturbed.executes running) post first second arm

/-- The machine cycles of a step cost what its instruction returns. -/
theorem step_nominal {bus : Bus Host} {fuel : Nat} {s : Machine Host} {stepped : Stepped Host}
    {t : Int} (returns : step bus fuel s = some stepped)
    (isInstruction : stepped.kind = .instruction t) :
    nominal (stepped.calls.map Exchange.answered) = t :=
  (Holds.step (stepBody_accounted fuel s.z80.toCpu) returns _ rfl).2 t isInstruction

theorem step_spent_noWaits {bus : Bus Host} (noWaits : ∀ cycles address tStates host,
      (bus.onMCycle cycles address tStates host).1 = 0) {fuel : Nat} {s : Machine Host}
    {stepped : Stepped Host} {t : Int} (returns : step bus fuel s = some stepped)
    (isInstruction : stepped.kind = .instruction t) : spentOn stepped.calls = t := by
  have still : ∀ call ∈ stepped.calls, call.note.waits = 0 := by
    rw [(step_returns returns).2.2.1]
    refine Program.run_log ?_ _ _
    intro request state
    cases request with
    | machineCycle address tStates => exact noWaits _ _ _ _
    | readMemory | writeMemory | readIo | writeIo | acknowledgeInterrupt => rfl
  have waits : waitsOn stepped.calls = 0 := by
    refine List.sum_eq_zero ?_
    intro wait member
    obtain ⟨call, present, rfl⟩ := List.mem_map.mp member
    exact still call present
  rw [spentOn_eq, step_nominal returns isInstruction, waits, add_zero]

theorem step_returned_noWaits {bus : Bus Host} (noWaits : ∀ cycles address tStates host,
      (bus.onMCycle cycles address tStates host).1 = 0) {fuel : Nat} {s : Machine Host}
    {stepped : Stepped Host} {t : Int} (returns : step bus fuel s = some stepped)
    (isInstruction : stepped.kind = .instruction t) (nonneg : 0 ≤ t) (fits : t < 2 ^ 31) :
    stepped.returned = t := by
  rw [step_returned returns, step_spent_noWaits noWaits returns isInstruction]
  exact toInt32_ofInt nonneg fits

end Bus
end Z80f
