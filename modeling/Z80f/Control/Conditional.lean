import Z80f.Encoding.Instruction
import Z80f.Encoding.Stepping
import Z80f.Host.Stack
import Z80f.Timing.StepTiming

/-! # Conditional jumps, calls and returns

A taken branch lands where the unconditional one does, an untaken one behind
its operands.  Both are compared with one description of the four kinds. -/

set_option autoImplicit false

namespace Z80f

open Interaction Stateful Z80M Flags

inductive Branch where
  | jp | call | ret | jr
deriving DecidableEq

namespace Branch

def unconditional : Branch → Byte
  | .jp => 0xC3
  | .call => 0xCD
  | .ret => 0xC9
  | .jr => 0x18

def isConditional (op : Byte) : Branch → Bool
  | .jp => op &&& 0xC7#8 == 0xC2#8
  | .call => op &&& 0xC7#8 == 0xC4#8
  | .ret => op &&& 0xC7#8 == 0xC0#8
  | .jr => op &&& 0xE7#8 == 0x20#8

/-- Bits 5..3 of the opcode, of JR bits 4..3. -/
def conditionOf (op : Byte) : Branch → Nat
  | .jr => midField op % 4
  | .jp | .call | .ret => midField op

def operands : Branch → Nat
  | .jp | .call => 2
  | .ret => 0
  | .jr => 1

def cost : Branch → Int
  | .jp | .ret => 10
  | .call => 17
  | .jr => 12

/-- The idle cycle before RET cc looks at its condition. -/
def delay : Branch → Nat
  | .ret => 1
  | .jp | .call | .jr => 0

/-- Where a branch goes; `r` has PC behind the opcode. -/
def target (memory : Memory) (r : Registers) : Branch → Word
  | .jp | .call => wordAt memory r.pc
  | .ret => wordAt memory r.sp
  | .jr => r.pc + 1 + BitVec.ofInt 16 (memory r.pc).toInt

def landing (memory : Memory) (r : Registers) (b : Branch) : Registers :=
  let landed := { r with pc := b.target memory r, wz := b.target memory r }
  match b with
  | .jp | .jr => landed
  | .call => { landed with sp := r.sp - 1 - 1 }
  | .ret => { landed with sp := r.sp + 1 + 1 }

/-- The registers of an untaken one; RET cc and JR cc keep WZ. -/
def passing (memory : Memory) (r : Registers) (b : Branch) : Registers :=
  { r with
    pc := r.pc + BitVec.ofNat 16 b.operands
    wz := match b with
      | .jp | .call => b.target memory r
      | .ret | .jr => r.wz }

def operandPath (memory : Memory) (pc : Word) : Path :=
  [cycle pc 3, readOf .fetch pc (memory pc), cycle (pc + 1) 3,
    readOf .fetch (pc + 1) (memory (pc + 1))]

def takenPath (memory : Memory) (r : Registers) : Branch → Path
  | .jp => operandPath memory r.pc
  | .call => operandPath memory r.pc ++ cycle (r.pc + 1) 1 :: pushPath r.sp (r.pc + 1 + 1)
  | .ret => [cycle r.sp 3, readOf .data r.sp (memory r.sp), cycle (r.sp + 1) 3,
      readOf .data (r.sp + 1) (memory (r.sp + 1))]
  | .jr => [cycle r.pc 3, readOf .fetch r.pc (memory r.pc)] ++ idleCycles r.pc 5

def arm (cond : Byte → Bool) : Branch → Z80M Int
  | .jp => do jpCond (cond (← getRegs).flags); return 10
  | .call => callArm cond
  | .ret => retArm cond
  | .jr => jrArm cond

end Branch

section Code
variable (b : Branch) (memory : Memory) (cpu : Cpu)

def Branch.Takes (t : Int) (next : Cpu) (tail : Path) : Prop :=
  t = b.cost ∧ next = { cpu with regs := b.landing memory cpu.regs } ∧
    tail = b.takenPath memory cpu.regs

theorem unconditional_takes : (dispatchOpcode b.unconditional).Holds (fun t next tail =>
    ReadsFrom memory tail → b.Takes memory cpu t next tail) cpu := by
  cases b with
  | jp =>
      have code : dispatchOpcode 0xC3 = (do
          opcodePrelude 0xC3; jp (← fetchImmediate16); return 10) := rfl
      rw [Branch.unconditional, code]
      simp only [jp, holds_bind, holds_opcodePrelude, holds_fetchImmediate16, holds_modifyRegs,
        holds_pure]
      rintro low high ⟨lowRead, highRead, -⟩
      rw [lowRead, highRead]
      exact ⟨rfl, rfl, rfl⟩
  | call =>
      have code : dispatchOpcode 0xCD = (do opcodePrelude 0xCD; call; return 17) := rfl
      rw [Branch.unconditional, code]
      simp only [call, holds_bind, holds_opcodePrelude, holds_fetchImmediate16, holds_modifyRegs,
        holds_getRegs, holds_idle, holds_push16, holds_pure]
      rintro low high ⟨lowRead, highRead, -⟩
      rw [lowRead, highRead]
      refine ⟨rfl, rfl, ?_⟩
      rw [BitVec.add_sub_cancel]
      rfl
  | ret =>
      have code : dispatchOpcode 0xC9 = (do opcodePrelude 0xC9; jp (← pop16); return 10) := rfl
      rw [Branch.unconditional, code]
      simp only [jp, holds_bind, holds_opcodePrelude, holds_pop16, holds_modifyRegs, holds_pure]
      rintro low high ⟨lowRead, highRead, -⟩
      rw [lowRead, highRead]
      exact ⟨rfl, rfl, rfl⟩
  | jr =>
      have code : dispatchOpcode 0x18 = (do opcodePrelude 0x18; jr; return 12) := rfl
      rw [Branch.unconditional, code]
      simp only [jr, holds_bind, holds_opcodePrelude, holds_fetchImmediate, holds_modifyRegs,
        holds_getRegs, holds_idle, holds_pure]
      rintro d ⟨read, -⟩
      rw [read]
      refine ⟨rfl, rfl, ?_⟩
      rw [BitVec.add_sub_cancel]
      rfl

theorem conditional_ops : ∀ op : Byte, b.isConditional op = true → op ∈
    ((match b with
      | .jp => [0xC2, 0xCA, 0xD2, 0xDA, 0xE2, 0xEA, 0xF2, 0xFA]
      | .call => [0xC4, 0xCC, 0xD4, 0xDC, 0xE4, 0xEC, 0xF4, 0xFC]
      | .ret => [0xC0, 0xC8, 0xD0, 0xD8, 0xE0, 0xE8, 0xF0, 0xF8]
      | .jr => [0x20, 0x28, 0x30, 0x38]) : List Byte) := by
  cases b <;> decide

theorem conditional_arm {op : Byte} (conditional : b.isConditional op = true) :
    dispatchOpcode op = (do opcodePrelude op; b.arm (condition (b.conditionOf op))) := by
  have listed := conditional_ops b op conditional
  cases b
  all_goals
    simp only [List.mem_cons, List.not_mem_nil, or_false] at listed
    rcases listed with rfl | rfl | rfl | rfl | rfl | rfl | rfl | rfl <;> rfl

theorem conditional_delay {op : Byte} (conditional : b.isConditional op = true) :
    preludeLength op = b.delay := by
  revert op
  cases b <;> decide

/-- `next` and `tail` are those of an untaken branch, which writes nothing. -/
def Branch.Passes (next : Cpu) (tail : Path) : Prop :=
  next = { cpu with regs := b.passing memory cpu.regs } ∧ writesOf tail = []

section Arm
variable {cond : Byte → Bool}

theorem arm_takes (taken : cond cpu.regs.flags = true) :
    (b.arm cond).Holds (fun t next tail => ReadsFrom memory tail →
      b.Takes memory cpu (t - b.delay) next tail) cpu := by
  cases b with
  | jp =>
      simp only [Branch.arm, jpCond, taken, holds_bind, holds_getRegs, holds_fetchImmediate16,
        holds_modifyRegs, if_true, holds_pure]
      rintro low high ⟨lowRead, highRead, -⟩
      rw [lowRead, highRead]
      exact ⟨rfl, rfl, rfl⟩
  | call =>
      simp only [Branch.arm, callArm, callCond, taken, holds_bind, holds_getRegs, if_true,
        holds_fetchImmediate16, holds_modifyRegs, holds_idle, holds_push16, holds_pure]
      rintro low high ⟨lowRead, highRead, -⟩
      rw [lowRead, highRead]
      refine ⟨rfl, rfl, ?_⟩
      rw [BitVec.add_sub_cancel]
      rfl
  | ret =>
      simp only [Branch.arm, retArm, jp, taken, holds_bind, holds_getRegs, if_true, holds_pop16,
        holds_modifyRegs, holds_pure]
      rintro low high ⟨lowRead, highRead, -⟩
      rw [lowRead, highRead]
      exact ⟨rfl, rfl, rfl⟩
  | jr =>
      simp only [Branch.arm, jrArm, taken, holds_bind, holds_getRegs, if_true, holds_fetchImmediate,
        holds_modifyRegs, holds_idle, holds_pure]
      rintro d ⟨read, -⟩
      rw [read]
      refine ⟨rfl, rfl, ?_⟩
      rw [BitVec.add_sub_cancel]
      rfl

theorem arm_passes (untaken : cond cpu.regs.flags = false) :
    (b.arm cond).Holds (fun _ next tail => ReadsFrom memory tail →
      b.Passes memory cpu next tail) cpu := by
  have two : cpu.regs.pc + 1 + 1 = cpu.regs.pc + BitVec.ofNat 16 2 := BitVec.add_assoc _ _ _
  cases b with
  | jp =>
      simp only [Branch.arm, jpCond, untaken, holds_bind, holds_getRegs, holds_fetchImmediate16,
        holds_modifyRegs, Bool.false_eq_true, if_false, holds_pure]
      rintro low high ⟨lowRead, highRead, -⟩
      rw [lowRead, highRead]
      refine ⟨?_, rfl⟩
      rw [two]
      rfl
  | call =>
      simp only [Branch.arm, callArm, callCond, untaken, holds_bind, holds_getRegs,
        Bool.false_eq_true, if_false, holds_fetchImmediate16, holds_modifyRegs, holds_pure]
      rintro low high ⟨lowRead, highRead, -⟩
      rw [lowRead, highRead]
      refine ⟨?_, rfl⟩
      rw [two]
      rfl
  | ret =>
      simp only [Branch.arm, retArm, untaken, holds_bind, holds_getRegs, Bool.false_eq_true,
        if_false, holds_pure]
      intro _
      refine ⟨?_, rfl⟩
      simp [Branch.passing, Branch.operands]
  | jr =>
      simp only [Branch.arm, jrArm, untaken, holds_bind, holds_getRegs, Bool.false_eq_true,
        if_false, holds_fetchImmediate, holds_pure]
      rintro d ⟨read, -⟩
      exact ⟨rfl, rfl⟩

end Arm

variable {op : Byte} (conditional : b.isConditional op = true)
include conditional

theorem conditional_takes (taken : condition (b.conditionOf op) cpu.regs.flags = true) :
    (dispatchOpcode op).Holds (fun t next tail => ReadsFrom memory tail →
      ∃ later, b.Takes memory cpu (t - b.delay) next later ∧
        tail = idleCycles cpu.regs.refreshAddress b.delay ++ later) cpu := by
  rw [conditional_arm b conditional, holds_bind, holds_opcodePrelude,
    conditional_delay b conditional]
  apply (arm_takes b memory cpu taken).mono
  intro t next tail takes reads
  rw [readsFrom_append, memoryAfter_idle] at reads
  exact ⟨tail, takes reads.2, rfl⟩

theorem conditional_passes (untaken : condition (b.conditionOf op) cpu.regs.flags = false) :
    (dispatchOpcode op).Holds (fun _ next tail => ReadsFrom memory tail →
      b.Passes memory cpu next tail) cpu := by
  rw [conditional_arm b conditional, holds_bind, holds_opcodePrelude]
  apply (arm_passes b memory cpu untaken).mono
  intro t next tail passes reads
  rw [readsFrom_append, memoryAfter_idle] at reads
  obtain ⟨final, quiet⟩ := passes reads.2
  refine ⟨final, ?_⟩
  rw [writesOf_append, writesOf_idle, quiet, List.nil_append]

end Code

/-! ## Two steps -/

/-- `s` and `t` agree but for the opcode at PC. -/
structure SameButOpcode {Host : Type} (bus : RamBus Host) (op op' : Byte) (s t : Machine Host) :
    Prop where
  cpu : t.z80.toCpu = s.z80.toCpu
  opcode : bus.memory s.host s.z80.regs.pc = op
  memory : bus.memory t.host = Function.update (bus.memory s.host) s.z80.regs.pc op'

theorem conditional_single {b : Branch} {op : Byte} (conditional : b.isConditional op = true) :
    isIndexPrefix op = false := by
  revert op
  cases b <;> decide

/-- A step that takes the branch, after `delay` idle cycles. -/
structure StepTakes {Host : Type} (bus : RamBus Host) (b : Branch) (op : Byte) (delay : Nat)
    (s : Machine Host) (stepped : Stepped Host) : Prop where
  kind : stepped.kind = .instruction (b.cost + delay)
  calls : stepped.calls.map Exchange.answered =
    cycle s.z80.regs.pc 4 :: readOf .fetch s.z80.regs.pc op ::
      (idleCycles s.z80.toCpu.opened.regs.refreshAddress delay ++
        b.takenPath (bus.memory s.host) s.z80.toCpu.opened.regs)
  regs : stepped.machine.z80.regs =
    { b.landing (bus.memory s.host) s.z80.toCpu.opened.regs with q := 0 }
  memory : bus.memory stepped.machine.host = memoryAfter (bus.memory s.host)
    (b.takenPath (bus.memory s.host) s.z80.toCpu.opened.regs)

theorem StepTakes.popped {Host : Type} {bus : RamBus Host} {op : Byte} {delay : Nat}
    {s : Machine Host} {stepped : Stepped Host} (takes : StepTakes bus .ret op delay s stepped) :
    stepped.machine.z80.regs.pc = wordAt (bus.memory s.host) s.z80.regs.sp ∧
      stepped.machine.z80.regs.wz = wordAt (bus.memory s.host) s.z80.regs.sp := by
  rw [takes.regs]
  exact ⟨rfl, rfl⟩

section Steps
variable {Host : Type} (bus : RamBus Host) (fuel : Nat) {b : Branch} {op : Byte} {s : Machine Host}
  (executes : s.z80.Executes)
include executes

theorem step_unconditional (here : bus.memory s.host s.z80.regs.pc = b.unconditional) :
    ∃ stepped, step bus.toBus fuel s = some stepped ∧
      StepTakes bus b b.unconditional 0 s stepped := by
  have single : isIndexPrefix b.unconditional = false := by cases b <;> rfl
  let opened := s.z80.toCpu.opened
  have arm : (dispatchOpcode b.unconditional).Holds (fun t next tail =>
      ReadsFrom (bus.memory s.host) tail → t = b.cost ∧
        tail = b.takenPath (bus.memory s.host) opened.regs ∧
        next.settleQ.regs = { b.landing (bus.memory s.host) opened.regs with q := 0 }) opened := by
    apply (unconditional_takes b (bus.memory s.host) opened).mono
    intro t next tail takes reads
    obtain ⟨cost, rfl, path⟩ := takes reads
    exact ⟨cost, path, rfl⟩
  obtain ⟨stepped, t, tail, returns, kind, path, ⟨rfl, rfl, cpu⟩, memory⟩ :=
    bus.step_opcode fuel executes here (fun t next tail => t = b.cost ∧
      tail = b.takenPath (bus.memory s.host) opened.regs ∧
      next.regs = { b.landing (bus.memory s.host) opened.regs with q := 0 }) single arm
  refine ⟨stepped, returns, ?_, path, cpu, memory⟩
  rw [kind]
  simp

theorem step_taken (here : bus.memory s.host s.z80.regs.pc = op)
    (conditional : b.isConditional op = true)
    (taken : condition (b.conditionOf op) s.z80.regs.flags = true) :
    ∃ stepped, step bus.toBus fuel s = some stepped ∧ StepTakes bus b op b.delay s stepped := by
  let opened := s.z80.toCpu.opened
  let path := idleCycles opened.regs.refreshAddress b.delay ++
    b.takenPath (bus.memory s.host) opened.regs
  have arm : (dispatchOpcode op).Holds (fun t next tail =>
      ReadsFrom (bus.memory s.host) tail → t = b.cost + b.delay ∧ tail = path ∧
        next.settleQ.regs = { b.landing (bus.memory s.host) opened.regs with q := 0 }) opened := by
    apply (conditional_takes b (bus.memory s.host) opened conditional taken).mono
    intro t next tail takes reads
    obtain ⟨later, ⟨cost, rfl, rfl⟩, path⟩ := takes reads
    exact ⟨by omega, path, rfl⟩
  obtain ⟨stepped, t, tail, returns, kind, path, ⟨cost, rfl, cpu⟩, memory⟩ :=
    bus.step_opcode fuel executes here (fun t next tail => t = b.cost + b.delay ∧ tail = path ∧
      next.regs = { b.landing (bus.memory s.host) opened.regs with q := 0 })
      (conditional_single conditional) arm
  refine ⟨stepped, returns, ?_, path, cpu, ?_⟩
  · rw [kind, cost]
  · rw [memory, memoryAfter_append, memoryAfter_idle]

/-- Nothing is written, and only PC, R, WZ, Q and the shadow of EI change. -/
theorem step_untaken (here : bus.memory s.host s.z80.regs.pc = op)
    (conditional : b.isConditional op = true)
    (untaken : condition (b.conditionOf op) s.z80.regs.flags = false) :
    ∃ stepped, step bus.toBus fuel s = some stepped ∧
      stepped.machine.z80.regs =
        { b.passing (bus.memory s.host) s.z80.toCpu.opened.regs with q := 0 } ∧
      bus.memory stepped.machine.host = bus.memory s.host := by
  let opened := s.z80.toCpu.opened
  have arm : (dispatchOpcode op).Holds (fun _ next tail =>
      ReadsFrom (bus.memory s.host) tail → writesOf tail = [] ∧
        next.settleQ.regs = { b.passing (bus.memory s.host) opened.regs with q := 0 }) opened := by
    apply (conditional_passes b (bus.memory s.host) opened conditional untaken).mono
    intro t next tail passes reads
    obtain ⟨rfl, quiet⟩ := passes reads
    exact ⟨quiet, rfl⟩
  obtain ⟨stepped, t, tail, returns, kind, path, ⟨quiet, cpu⟩, memory⟩ :=
    bus.step_opcode fuel executes here (fun _ next tail => writesOf tail = [] ∧
      next.regs = { b.passing (bus.memory s.host) opened.regs with q := 0 })
      (conditional_single conditional) arm
  refine ⟨stepped, returns, cpu, ?_⟩
  rw [memory, memoryAfter_writes, quiet]
  rfl

end Steps

section Memories
variable (memory memory' : Memory)

theorem writes_agree {address : Word} (writes : List (Word × Byte))
    (same : memory address = memory' address) :
    writes.foldl (fun memory write => Function.update memory write.1 write.2) memory address =
      writes.foldl (fun memory write => Function.update memory write.1 write.2) memory'
        address := by
  induction writes generalizing memory memory' with
  | nil => exact same
  | cons write writes ih =>
      apply ih
      dsimp only
      by_cases here : address = write.1
      · rw [here, Function.update_self, Function.update_self]
      · rw [Function.update_of_ne here, Function.update_of_ne here]
        exact same

variable (r : Registers) (b : Branch)

theorem takenPath_requests :
    (b.takenPath memory r).map Sigma.fst = (b.takenPath memory' r).map Sigma.fst := by
  cases b <;> rfl

theorem takenPath_writes : writesOf (b.takenPath memory r) = writesOf (b.takenPath memory' r) := by
  cases b <;> rfl

/-- PC and WZ are the target; nothing else depends on the memory. -/
theorem landing_target : b.landing memory r =
    { b.landing memory' r with pc := b.target memory r, wz := b.target memory r } := by
  cases b <;> rfl

/-- The opcode lies outside the operands, and RET pops it only where SP points to it. -/
theorem target_apart (v : Byte) (apart : b = .ret → r.sp ≠ r.pc - 1 ∧ r.sp + 1 ≠ r.pc - 1) :
    b.target (Function.update memory (r.pc - 1) v) r = b.target memory r := by
  have first : r.pc ≠ r.pc - 1 := by bv_omega
  have second : r.pc + 1 ≠ r.pc - 1 := by bv_omega
  cases b with
  | jp | call => simp only [Branch.target, wordAt, Function.update_of_ne first,
      Function.update_of_ne second]
  | ret =>
      obtain ⟨low, high⟩ := apart rfl
      simp only [Branch.target, wordAt, Function.update_of_ne low, Function.update_of_ne high]
  | jr => simp only [Branch.target, Function.update_of_ne first]

end Memories

section Agree
variable {Host : Type} {bus : RamBus Host} {b : Branch} {op : Byte} {s t : Machine Host}
  {cond uncond : Stepped Host} (same : SameButOpcode bus op b.unconditional s t)
  (takes : StepTakes bus b op b.delay s cond) (jumps : StepTakes bus b b.unconditional 0 t uncond)
include same takes jumps

theorem taken_registers :
    cond.machine.z80.regs = { uncond.machine.z80.regs with
      pc := cond.machine.z80.regs.pc, wz := cond.machine.z80.regs.wz } := by
  rw [takes.regs, jumps.regs, same.cpu, landing_target (bus.memory s.host) (bus.memory t.host)]

theorem taken_target (apart : b = .ret → s.z80.regs.sp ≠ s.z80.regs.pc ∧
      s.z80.regs.sp + 1 ≠ s.z80.regs.pc) :
    cond.machine.z80.regs = uncond.machine.z80.regs := by
  have behind : s.z80.toCpu.opened.regs.pc - 1 = s.z80.regs.pc := BitVec.add_sub_cancel _ _
  have target := target_apart (bus.memory s.host) s.z80.toCpu.opened.regs b b.unconditional
    (by rw [behind]; exact apart)
  rw [behind, ← same.memory] at target
  rw [takes.regs, jumps.regs, same.cpu]
  simp only [Branch.landing, target]

theorem taken_memory (address : Word) (other : address ≠ s.z80.regs.pc) :
    bus.memory cond.machine.host address = bus.memory uncond.machine.host address := by
  rw [takes.memory, jumps.memory, memoryAfter_writes, memoryAfter_writes, same.cpu,
    takenPath_writes (bus.memory s.host) (bus.memory t.host)]
  apply writes_agree
  rw [same.memory, Function.update_of_ne other]

theorem taken_requests (noDelay : b ≠ .ret) :
    cond.calls.map Exchange.request = uncond.calls.map Exchange.request := by
  have requests (calls : List BusCall) : calls.map Exchange.request =
      (calls.map Exchange.answered).map Sigma.fst := by
    rw [List.map_map]
    rfl
  have none : b.delay = 0 := by
    cases b with
    | ret => exact absurd rfl noDelay
    | jp | call | jr => rfl
  rw [requests, requests, takes.calls, jumps.calls, none, same.cpu]
  simp only [List.map_cons, List.map_append,
    takenPath_requests (bus.memory s.host) (bus.memory t.host)]

end Agree

theorem passing_opened (memory : Memory) (b : Branch) (cpu : Cpu) :
    { b.passing memory cpu.opened.regs with q := 0 } =
      { cpu.regs with
        pc := cpu.regs.pc + 1 + BitVec.ofNat 16 b.operands, r := advanceR 1 cpu.regs.r, q := 0
        eiPending := false
        wz := if b = .jp ∨ b = .call then wordAt memory (cpu.regs.pc + 1) else cpu.regs.wz } := by
  have opened : cpu.opened.regs = { cpu.regs with
      pc := cpu.regs.pc + 1, r := advanceR 1 cpu.regs.r, eiPending := false } := rfl
  rw [opened]
  cases b with
  | jp | call => simp only [Branch.passing, Branch.target, reduceCtorEq, true_or, or_true, if_true]
  | ret | jr => simp only [Branch.passing, reduceCtorEq, or_self, if_false]

theorem complementary (cc : Nat) (flags : Byte) (bound : cc < 8) :
    condition (cc ^^^ 1) flags = !condition cc flags := by
  interval_cases cc <;> simp [condition]

/-- A taken branch does what the unconditional one does, over a memory that
differs in the opcode; where RET cc pops that opcode, each form goes to the word
it pops from its own memory.  An untaken branch only moves on. -/
theorem conditional_flow {Host : Type} (bus : RamBus Host) (fuel fuel' : Nat) (b : Branch)
    (op : Byte) (s t : Machine Host) (conditional : b.isConditional op = true)
    (executes : s.z80.Executes) (same : SameButOpcode bus op b.unconditional s t) :
    let r := s.z80.regs
    let memory := bus.memory s.host
    ∃ cond uncond, step bus.toBus fuel s = some cond ∧ step bus.toBus fuel' t = some uncond ∧
      (condition (b.conditionOf op) r.flags = true →
        (b = .ret → r.sp ≠ r.pc ∧ r.sp + 1 ≠ r.pc) →
          cond.machine.z80.regs = uncond.machine.z80.regs) ∧
      (condition (b.conditionOf op) r.flags = true →
        cond.machine.z80.regs = { uncond.machine.z80.regs with
          pc := cond.machine.z80.regs.pc, wz := cond.machine.z80.regs.wz } ∧
        (∀ address, address ≠ r.pc → bus.memory cond.machine.host address =
          bus.memory uncond.machine.host address) ∧
        cond.kind = .instruction (b.cost + b.delay) ∧ uncond.kind = .instruction b.cost ∧
        (b ≠ .ret → cond.calls.map Exchange.request = uncond.calls.map Exchange.request) ∧
        (b = .ret →
          (cond.machine.z80.regs.pc = wordAt memory r.sp ∧
            cond.machine.z80.regs.wz = wordAt memory r.sp) ∧
          uncond.machine.z80.regs.pc = wordAt (bus.memory t.host) r.sp ∧
            uncond.machine.z80.regs.wz = wordAt (bus.memory t.host) r.sp)) ∧
      (condition (b.conditionOf op) r.flags = false →
        cond.machine.z80.regs = { r with
          pc := r.pc + 1 + BitVec.ofNat 16 b.operands, r := advanceR 1 r.r, q := 0
          eiPending := false
          wz := if b = .jp ∨ b = .call then wordAt memory (r.pc + 1) else r.wz } ∧
        bus.memory cond.machine.host = memory) ∧
      ∀ cc flags, cc < 8 → condition (cc ^^^ 1) flags = !condition cc flags := by
  intro r memory
  have sameExecutes : t.z80.Executes := by
    rw [same.cpu]
    exact executes
  have there : bus.memory t.host t.z80.regs.pc = b.unconditional := by
    rw [same.memory, same.cpu, Function.update_self]
  obtain ⟨uncond, uncondReturns, jumps⟩ := step_unconditional bus fuel' sameExecutes there
  cases decided : condition (b.conditionOf op) r.flags with
  | true =>
      obtain ⟨cond, condReturns, takes⟩ :=
        step_taken bus fuel executes same.opcode conditional decided
      refine ⟨cond, uncond, condReturns, uncondReturns, fun _ apart => ?_,
        fun _ => ⟨?_, ?_, ?_, ?_, ?_, ?_⟩, fun never => absurd never (by decide), complementary⟩
      · exact taken_target same takes jumps apart
      · exact taken_registers same takes jumps
      · exact taken_memory same takes jumps
      · exact takes.kind
      · rw [jumps.kind]
        simp
      · exact taken_requests same takes jumps
      · rintro rfl
        have popped := jumps.popped
        rw [same.cpu] at popped
        exact ⟨takes.popped, popped⟩
  | false =>
      obtain ⟨cond, condReturns, regs, written⟩ :=
        step_untaken bus fuel executes same.opcode conditional decided
      refine ⟨cond, uncond, condReturns, uncondReturns, fun never => absurd never (by decide),
        fun never => absurd never (by decide), fun _ => ⟨?_, written⟩, complementary⟩
      rw [regs, passing_opened]

/-- JP NZ and JP over a memory that differs in the opcode. -/
theorem conditional_flow_jp : ∃ cond uncond,
    step flatRam.toBus 0 { z80 := {}, host := programAt 0 [0xC2, 0x34, 0x12] 0 } = some cond ∧
    step flatRam.toBus 0 { z80 := {}, host := Function.update (programAt 0 [0xC2, 0x34, 0x12] 0) 0 0xC3 } =
      some uncond ∧ cond.machine.z80.regs = uncond.machine.z80.regs := by
  obtain ⟨cond, uncond, condReturns, uncondReturns, agree, -⟩ := conditional_flow flatRam 0 0 .jp 0xC2
    { z80 := {}, host := programAt 0 [0xC2, 0x34, 0x12] 0 }
    { z80 := {}, host := Function.update (programAt 0 [0xC2, 0x34, 0x12] 0) 0 0xC3 }
    rfl ⟨rfl, rfl, rfl⟩ ⟨rfl, rfl, rfl⟩
  exact ⟨cond, uncond, condReturns, uncondReturns, agree (by decide) (by decide)⟩

/-- RET NZ with SP at its own opcode: the two forms pop different words. -/
theorem conditional_ret_overlap : ∃ cond uncond,
    let memory := programAt 0 [0xC0] 0
    SameButOpcode flatRam 0xC0 0xC9 { z80 := {}, host := memory }
      { z80 := {}, host := Function.update memory 0 0xC9 } ∧
    condition 0 0 = true ∧
    step flatRam.toBus 0 { z80 := {}, host := memory } = some cond ∧
    step flatRam.toBus 0 { z80 := {}, host := Function.update memory 0 0xC9 } = some uncond ∧
    cond.machine.z80.regs.pc = 0x00C0 ∧ uncond.machine.z80.regs.pc = 0x00C9 :=
  ⟨_, _, ⟨rfl, rfl, rfl⟩, rfl, rfl, rfl, rfl, rfl⟩

end Z80f
