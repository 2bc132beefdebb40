import Z80f.Encoding.StepCase

/-! # One instruction over RAM

A step that neither services an interrupt nor repeats HALT fetches the opcode
at PC.  What it does then follows from a rule about the dispatcher of that
opcode, or of the opcode behind one prefix. -/

set_option autoImplicit false

namespace Z80f

open Interaction Stateful Z80M

/-- The next step executes an instruction. -/
structure Cpu.Executes (cpu : Cpu) : Prop where
  noNmi : cpu.nmiPending = false
  noInt : cpu.acceptsInt = false
  running : cpu.regs.halted = false

theorem Cpu.Executes.next {cpu later : Cpu} (executes : cpu.Executes)
    (noNmi : later.nmiPending = cpu.nmiPending)
    (noLine : (later.intLine && later.regs.iff1) = false)
    (noPulse : later.intPulsePending = false) (running : later.regs.halted = cpu.regs.halted) :
    later.Executes := by
  constructor
  · exact noNmi.trans executes.noNmi
  · rw [Cpu.acceptsInt, noPulse, Bool.or_false, noLine, Bool.false_and]
  · exact running.trans executes.running

def Cpu.opened (cpu : Cpu) : Cpu := cpu.shadowLeft.opcodeFetched

theorem Cpu.opened_settleQ (cpu : Cpu) : cpu.opened.settleQ =
    { cpu with
      flagsModified := false
      intPulsePending := false
      regs := { cpu.regs with
        pc := cpu.regs.pc + 1, r := advanceR 1 cpu.regs.r, eiPending := false, q := 0 } } := rfl

def Cpu.openedIndexed (cpu : Cpu) : Cpu :=
  { cpu.opened.opcodeFetched with regs := { cpu.opened.opcodeFetched.regs with q := 0 } }

section Body
variable {cpu : Cpu} {memory : Memory} {op : Byte} (fuel : Nat) (executes : cpu.Executes)
  {post : Option StepKind → Cpu → Path → Prop}
include executes

theorem holds_stepBody_executes (body : (executeInstruction fuel).Holds post cpu.shadowLeft) :
    (stepBody fuel).Holds post cpu := by
  rw [holds_stepBody]
  refine ⟨fun nmi => ?_, fun _ accepts => ?_, fun _ _ => ?_⟩
  · exact absurd (nmi.symm.trans executes.noNmi) (by decide)
  · exact absurd (accepts.symm.trans executes.noInt) (by decide)
  · rw [holds_haltOrExecute]
    exact ⟨fun halted => absurd (halted.symm.trans executes.running) (by decide), fun _ => body⟩

variable (here : memory cpu.regs.pc = op)
include here

theorem holds_stepBody_fetched
    (dispatched : (dispatchUnprefixed fuel op).Holds (fun found next tail =>
      ReadsFrom memory tail → ∃ t, found = some t ∧ post (some (.instruction t)) next.settleQ
        (cycle cpu.regs.pc 4 :: readOf .fetch cpu.regs.pc op :: tail)) cpu.opened) :
    (stepBody fuel).Holds (fun found next path => ReadsFrom memory path → post found next path)
      cpu := by
  apply holds_stepBody_executes fuel executes
  rw [holds_executeInstruction]
  intro byte
  by_cases same : byte = op
  · subst same
    apply dispatched.mono
    intro found next tail done
    cases found with
    | none =>
        intro reads
        obtain ⟨_, none, -⟩ := done reads.2
        cases none
    | some t =>
        intro reads
        obtain ⟨_, ⟨rfl⟩, holds⟩ := done reads.2
        exact holds
  · apply Holds.intro
    intro found next path
    have wrong : ¬ byte = memory cpu.regs.pc := fun eq => same (eq.trans here)
    cases found <;> exact fun reads => absurd reads.1 wrong

theorem holds_stepBody_opcode (last : isIndexPrefix op = false)
    (arm : (dispatchOpcode op).Holds (fun t next tail => ReadsFrom memory tail →
      post (some (.instruction t)) next.settleQ
        (cycle cpu.regs.pc 4 :: readOf .fetch cpu.regs.pc op :: tail)) cpu.opened) :
    (stepBody fuel).Holds (fun found next path => ReadsFrom memory path → post found next path)
      cpu := by
  apply holds_stepBody_fetched fuel executes here
  rw [dispatchUnprefixed, if_neg (Bool.eq_false_iff.mp last)]
  simp only [holds_bind, holds_pure, List.append_nil]
  apply arm.mono
  exact fun t next tail done reads => ⟨t, rfl, done reads⟩

theorem holds_stepBody_prefixed {behind : Byte} (isPrefix : isIndexPrefix op = true)
    (second : memory (cpu.regs.pc + 1) = behind) (last : isIndexPrefix behind = false)
    (arm : (indexArm (prefixReg op) behind 4).Holds (fun t next tail => ReadsFrom memory tail →
      post (some (.instruction t)) next.settleQ
        (cycle cpu.regs.pc 4 :: readOf .fetch cpu.regs.pc op ::
          cycle (cpu.regs.pc + 1) 4 :: readOf .fetch (cpu.regs.pc + 1) behind :: tail))
      cpu.openedIndexed) :
    (stepBody fuel).Holds (fun found next path => ReadsFrom memory path → post found next path)
      cpu := by
  apply holds_stepBody_fetched fuel executes here
  rw [dispatchUnprefixed, if_pos isPrefix, dispatchIndex]
  simp only [holds_bind, holds_modifyRegs, holds_fetchOpcode]
  intro byte
  by_cases same : byte = behind
  · subst same
    rw [consumePrefixes_stops last]
    simp only [holds_bind, holds_pure, List.append_nil, List.nil_append]
    apply arm.mono
    exact fun t next tail done reads => ⟨t, rfl, done reads.2⟩
  · apply Holds.intro
    intro found mid path
    apply Holds.intro
    exact fun _ _ _ reads => absurd (reads.1.trans second) same

omit here in
theorem holds_stepBody_extended {behind : Byte} (ed : memory cpu.regs.pc = 0xED)
    (second : memory (cpu.regs.pc + 1) = behind)
    (arm : (edArm behind).Holds (fun t next tail => ReadsFrom memory tail →
      post (some (.instruction t)) next.settleQ
        (cycle cpu.regs.pc 4 :: readOf .fetch cpu.regs.pc 0xED ::
          cycle (cpu.regs.pc + 1) 4 :: readOf .fetch (cpu.regs.pc + 1) behind :: tail))
      cpu.opened.opcodeFetched) :
    (stepBody fuel).Holds (fun found next path => ReadsFrom memory path → post found next path)
      cpu := by
  apply holds_stepBody_opcode fuel executes ed rfl
  have dispatched : dispatchOpcode 0xED = dispatchEd := rfl
  rw [dispatched, dispatchEd]
  simp only [holds_bind, holds_fetchOpcode]
  intro byte
  by_cases same : byte = behind
  · subst same
    apply arm.mono
    exact fun t next tail done reads => done reads.2
  · apply Holds.intro
    exact fun _ _ _ reads => absurd (reads.1.trans second) same

end Body

/-- A rule about `stepBody` over the RAM makes the step return. -/
theorem RamBus.step_executes {Host : Type} (bus : RamBus Host) {fuel : Nat} {s : Machine Host}
    {post : StepKind → Cpu → Path → Prop}
    (holds : (stepBody fuel).Holds (fun found next path => ReadsFrom (bus.memory s.host) path →
      ∃ kind, found = some kind ∧ post kind next path) s.z80.toCpu) :
    ∃ stepped, step bus.toBus fuel s = some stepped ∧
      post stepped.kind stepped.machine.z80.toCpu (stepped.calls.map Exchange.answered) ∧
      bus.memory stepped.machine.host =
        memoryAfter (bus.memory s.host) (stepped.calls.map Exchange.answered) := by
  obtain ⟨reads, memory⟩ := bus.exec_replays (stepBody fuel) s.started
  obtain ⟨kind, value, done⟩ := Holds.exec bus.toBus s.started holds reads
  have returns : step bus.toBus fuel s = some
      { returned := toInt32
          ((exec bus.toBus (stepBody fuel) s.started).machine.z80.cycles - s.z80.cycles)
        kind := kind
        machine := (exec bus.toBus (stepBody fuel) s.started).machine
        calls := (exec bus.toBus (stepBody fuel) s.started).calls } := by
    simp only [step, value, Option.map_some]
  exact ⟨_, returns, done, memory⟩

section Ram
variable {Host : Type} (bus : RamBus Host) (fuel : Nat) {s : Machine Host} {op : Byte}
  (executes : s.z80.Executes) (here : bus.memory s.host s.z80.regs.pc = op)
  (post : Int → Cpu → Path → Prop)

theorem RamBus.step_behind (fetches : Path)
    (noWrites : ∀ memory tail, memoryAfter memory (fetches ++ tail) = memoryAfter memory tail)
    (body : (stepBody fuel).Holds (fun found next path => ReadsFrom (bus.memory s.host) path →
      ∃ t tail, found = some (.instruction t) ∧ path = fetches ++ tail ∧ post t next tail)
      s.z80.toCpu) :
    ∃ stepped t tail, step bus.toBus fuel s = some stepped ∧ stepped.kind = .instruction t ∧
      stepped.calls.map Exchange.answered = fetches ++ tail ∧
      post t stepped.machine.z80.toCpu tail ∧
      bus.memory stepped.machine.host = memoryAfter (bus.memory s.host) tail := by
  have kinds : (stepBody fuel).Holds (fun found next path => ReadsFrom (bus.memory s.host) path →
      ∃ kind, found = some kind ∧ ∃ t tail, kind = .instruction t ∧ path = fetches ++ tail ∧
        post t next tail) s.z80.toCpu := by
    apply body.mono
    intro found next path done reads
    obtain ⟨t, tail, rfl, split, holds⟩ := done reads
    exact ⟨_, rfl, t, tail, rfl, split, holds⟩
  obtain ⟨stepped, returns, ⟨t, tail, kind, path, done⟩, memory⟩ := bus.step_executes kinds
  rw [path, noWrites] at memory
  exact ⟨stepped, t, tail, returns, kind, path, done, memory⟩

include executes here

theorem RamBus.step_opcode (last : isIndexPrefix op = false)
    (arm : (dispatchOpcode op).Holds (fun t next tail => ReadsFrom (bus.memory s.host) tail →
      post t next.settleQ tail) s.z80.toCpu.opened) :
    ∃ stepped t tail, step bus.toBus fuel s = some stepped ∧ stepped.kind = .instruction t ∧
      stepped.calls.map Exchange.answered =
        cycle s.z80.regs.pc 4 :: readOf .fetch s.z80.regs.pc op :: tail ∧
      post t stepped.machine.z80.toCpu tail ∧
      bus.memory stepped.machine.host = memoryAfter (bus.memory s.host) tail := by
  apply bus.step_behind fuel post
    [cycle s.z80.regs.pc 4, readOf .fetch s.z80.regs.pc op] (fun _ _ => rfl)
  apply holds_stepBody_opcode fuel executes here last
  apply arm.mono
  exact fun t next tail done reads => ⟨t, tail, rfl, rfl, done reads⟩

theorem RamBus.step_prefixed {behind : Byte} (isPrefix : isIndexPrefix op = true)
    (second : bus.memory s.host (s.z80.regs.pc + 1) = behind)
    (last : isIndexPrefix behind = false)
    (arm : (indexArm (prefixReg op) behind 4).Holds (fun t next tail =>
      ReadsFrom (bus.memory s.host) tail → post t next.settleQ tail) s.z80.toCpu.openedIndexed) :
    ∃ stepped t tail, step bus.toBus fuel s = some stepped ∧ stepped.kind = .instruction t ∧
      stepped.calls.map Exchange.answered =
        cycle s.z80.regs.pc 4 :: readOf .fetch s.z80.regs.pc op ::
          cycle (s.z80.regs.pc + 1) 4 :: readOf .fetch (s.z80.regs.pc + 1) behind :: tail ∧
      post t stepped.machine.z80.toCpu tail ∧
      bus.memory stepped.machine.host = memoryAfter (bus.memory s.host) tail := by
  apply bus.step_behind fuel post [cycle s.z80.regs.pc 4, readOf .fetch s.z80.regs.pc op,
    cycle (s.z80.regs.pc + 1) 4, readOf .fetch (s.z80.regs.pc + 1) behind] (fun _ _ => rfl)
  apply holds_stepBody_prefixed fuel executes here isPrefix second last
  apply arm.mono
  exact fun t next tail done reads => ⟨t, tail, rfl, rfl, done reads⟩

omit here in
theorem RamBus.step_extended {behind : Byte} (ed : bus.memory s.host s.z80.regs.pc = 0xED)
    (second : bus.memory s.host (s.z80.regs.pc + 1) = behind)
    (arm : (edArm behind).Holds (fun t next tail => ReadsFrom (bus.memory s.host) tail →
      post t next.settleQ tail) s.z80.toCpu.opened.opcodeFetched) :
    ∃ stepped t tail, step bus.toBus fuel s = some stepped ∧ stepped.kind = .instruction t ∧
      stepped.calls.map Exchange.answered =
        cycle s.z80.regs.pc 4 :: readOf .fetch s.z80.regs.pc 0xED ::
          cycle (s.z80.regs.pc + 1) 4 :: readOf .fetch (s.z80.regs.pc + 1) behind :: tail ∧
      post t stepped.machine.z80.toCpu tail ∧
      bus.memory stepped.machine.host = memoryAfter (bus.memory s.host) tail := by
  apply bus.step_behind fuel post [cycle s.z80.regs.pc 4, readOf .fetch s.z80.regs.pc 0xED,
    cycle (s.z80.regs.pc + 1) 4, readOf .fetch (s.z80.regs.pc + 1) behind] (fun _ _ => rfl)
  apply holds_stepBody_extended fuel executes ed second
  apply arm.mono
  exact fun t next tail done reads => ⟨t, tail, rfl, rfl, done reads⟩

end Ram
end Z80f
