import Z80f.Cpu.DispatchIndex

/-! # The Z80 object: stepping, lines, snapshots

A step that never leaves the prefix loop runs out of every fuel, so `none` for
all fuels is the model of a call that does not return. -/

set_option autoImplicit false

namespace Z80f

open Interaction Z80M

def leaveHalt : Z80M Unit := do
  if (← getRegs).halted then
    modifyRegs fun r => { r with pc := r.pc + 1 }
    modifyRegs fun r => { r with halted := false }

def handleNmi : Z80M Bool := do
  if !(← get).nmiPending then
    return false
  else
    modify fun cpu => { cpu with nmiPending := false }
    leaveHalt
    modifyRegs fun r => { r with q := 0 }
    modifyRegs fun r => { r with iff1 := false }
    incR
    machineCycle (← getRegs).pc 5
    push16 (← getRegs).pc
    modifyRegs fun r => { r with pc := 0x0066 }
    modifyRegs fun r => { r with wz := 0x0066 }
    return true

/-- The vectoring at the end of `handle_int`; an `im` out of range does nothing. -/
def vectorInt (databus : Byte) : Z80M Unit := do
  let r ← getRegs
  if r.im = 0 then
    let target : Word :=
      if databus &&& 0xC7#8 = 0xC7#8 then (databus &&& 0x38#8).setWidth 16 else 0x38
    modifyRegs fun r => { r with pc := target }
    modifyRegs fun r => { r with wz := target }
  else if r.im = 1 then
    modifyRegs fun r => { r with pc := 0x0038 }
    modifyRegs fun r => { r with wz := 0x0038 }
  else if r.im = 2 then
    let vectorAddr := word r.i databus
    let low ← read8 vectorAddr
    let high ← read8 (vectorAddr + 1)
    modifyRegs fun r => { r with pc := word high low }
    modifyRegs fun r => { r with wz := r.pc }

def handleInt (intActive : Bool) : Z80M Bool := do
  if !(← getRegs).iff1 || !intActive then
    return false
  else
    leaveHalt
    modifyRegs fun r => { r with q := 0 }
    modifyRegs fun r => { r with iff1 := false }
    modifyRegs fun r => { r with iff2 := false }
    incR
    machineCycle (← getRegs).pc 7
    let databus ← busAcknowledge
    push16 (← getRegs).pc
    vectorInt databus
    return true

/-- How a step ended; an instruction carries the cost its dispatcher computed. -/
inductive StepKind where
  | nmi
  | int
  | halted
  | instruction (t : Int)
deriving DecidableEq

/-- A 4 T cycle at PC that discards what it reads. -/
def haltedCycle : Z80M Unit := do
  machineCycle (← getRegs).pc 4
  let _ ← busRead .data (← getRegs).pc
  incR
  modifyRegs fun r => { r with q := 0 }

def executeInstruction (fuel : Nat) : Z80M (Option StepKind) := do
  let op ← fetchOpcode
  match ← dispatchUnprefixed fuel op with
  | none => return none
  | some t =>
      let cpu ← get
      modifyRegs fun r => { r with q := if cpu.flagsModified then r.flags else 0 }
      return some (.instruction t)

/-- The end of `Z80::step`, after the interrupts. -/
def haltOrExecute (fuel : Nat) : Z80M (Option StepKind) := do
  modifyRegs fun r => { r with eiPending := false }
  if (← getRegs).halted then
    haltedCycle
    return some .halted
  else
    executeInstruction fuel

/-- The body of `Z80::step` between the two reads of the cycle counter. -/
def stepBody (fuel : Nat) : Z80M (Option StepKind) := do
  modify fun cpu => { cpu with flagsModified := false }
  if (← get).nmiPending then
    let _ ← handleNmi
    return some .nmi
  else
    let cpu ← get
    let intActive := cpu.intLine || cpu.intPulsePending
    modify fun cpu => { cpu with intPulsePending := false }
    if intActive && cpu.regs.iff1 && !cpu.regs.eiPending then
      if ← handleInt intActive then
        return some .int
      else
        haltOrExecute fuel
    else
      haltOrExecute fuel

/-! ## The object -/

structure Z80 extends Cpu, Clock where
  baseCycleCounter : BitVec 64 := 0

structure Machine (Host : Type) where
  z80 : Z80
  host : Host

/-- What a call into the CPU gave back, with the bus calls it made. -/
structure Ran (Host α : Type) where
  value : α
  machine : Machine Host
  calls : List BusCall

def exec {Host α : Type} (bus : Bus Host) (m : Z80M α) (s : Machine Host) : Ran Host α :=
  let outcome := (m.run s.z80.toCpu).run (environment bus) (s.z80.toClock, s.host)
  { value := outcome.value.1
    machine :=
      { z80 := { s.z80 with toCpu := outcome.value.2, toClock := outcome.final.1 }
        host := outcome.final.2 }
    calls := outcome.log }

/-- `static_cast<int>` of a 64-bit difference. -/
def toInt32 (x : BitVec 64) : Int := (x.setWidth 32).toInt

structure Stepped (Host : Type) where
  returned : Int
  kind : StepKind
  machine : Machine Host
  calls : List BusCall

def Machine.started {Host : Type} (s : Machine Host) : Machine Host :=
  { s with z80 := { s.z80 with instructionTStates := 0 } }

def Machine.onZ80 {Host : Type} (f : Z80 → Z80) (s : Machine Host) : Machine Host :=
  { s with z80 := f s.z80 }

def step {Host : Type} (bus : Bus Host) (fuel : Nat) (s : Machine Host) : Option (Stepped Host) :=
  let start := s.z80.cycles
  let ran := exec bus (stepBody fuel) s.started
  ran.value.map fun kind =>
    { returned := toInt32 (ran.machine.z80.cycles - start)
      kind := kind
      machine := ran.machine
      calls := ran.calls }

def fitsInt (n : Int) : Bool := decide (-2147483648 ≤ n) && decide (n ≤ 2147483647)

/-- Why the loop of `run_for` gives no value: `total += step()` has none where
the sum leaves the range of `int`. -/
inductive Stuck where
  | outOfFuel
  | overflow
deriving DecidableEq

/-- The loop of `run_for`, one unit of `steps` a round; `total` is its `int`. -/
def runForLoop {Host : Type} (bus : Bus Host) (fuel : Nat) (tStates : Int) :
    Nat → Int → Machine Host → Except Stuck (Ran Host Int)
  | 0, total, s => if total < tStates then .error .outOfFuel else .ok ⟨total, s, []⟩
  | steps + 1, total, s =>
      if total < tStates then
        match step bus fuel s with
        | none => .error .outOfFuel
        | some stepped =>
            if fitsInt (total + stepped.returned) then
              (runForLoop bus fuel tStates steps (total + stepped.returned) stepped.machine).map
                fun ran => { ran with calls := stepped.calls ++ ran.calls }
            else .error .overflow
      else .ok ⟨total, s, []⟩

def runFor {Host : Type} (bus : Bus Host) (fuel steps : Nat) (tStates : Int) (s : Machine Host) :
    Except Stuck (Ran Host Int) :=
  runForLoop bus fuel tStates steps 0 s

namespace Z80

def reset (z : Z80) : Z80 :=
  { z with
    regs := Registers.atReset
    cycles := 0
    baseCycleCounter := 0
    nmiPending := false
    intPulsePending := false }

def setNmiLine (active : Bool) (z : Z80) : Z80 :=
  { z with nmiPending := if active && !z.nmiLine then true else z.nmiPending, nmiLine := active }

def setIntLine (active : Bool) (z : Z80) : Z80 := { z with intLine := active }

def pulseIntLine (z : Z80) : Z80 := { z with intPulsePending := true }

def cyclesSinceReset (z : Z80) : BitVec 64 := z.cycles - z.baseCycleCounter

def resetCycleCounter (z : Z80) : Z80 := { z with baseCycleCounter := z.cycles }

end Z80

structure Snapshot where
  registers : Registers
  cycleCounter : BitVec 64
  nmiLine : Bool
  nmiPending : Bool
  intLine : Bool
  intPulsePending : Bool
  baseCycleCounter : BitVec 64

namespace Z80

def saveSnapshot (z : Z80) : Snapshot :=
  { registers := z.regs
    cycleCounter := z.cycles
    nmiLine := z.nmiLine
    nmiPending := z.nmiPending
    intLine := z.intLine
    intPulsePending := z.intPulsePending
    baseCycleCounter := z.baseCycleCounter }

def loadSnapshot (snapshot : Snapshot) (z : Z80) : Z80 :=
  { z with
    regs := snapshot.registers
    cycles := snapshot.cycleCounter
    nmiLine := snapshot.nmiLine
    nmiPending := snapshot.nmiPending
    intLine := snapshot.intLine
    intPulsePending := snapshot.intPulsePending
    baseCycleCounter := snapshot.baseCycleCounter }

end Z80
end Z80f
