import Z80f.Interaction.Stateful
import Z80f.Cpu.Registers

/-! # The bus, the clock and the CPU state

A host implements `Bus`.  A callback may read `cycle_counter()`, so every one
of them gets the counter; it may change the host in any way, but it does not
call back into the CPU.

The CPU code is a program over `Request`: `Request.machineCycle` stands for a
call of `Z80::machine_cycle`, the other requests are the virtual calls
themselves.  `serve` plays the requests against a host and keeps the counters. -/

set_option autoImplicit false

namespace Z80f

open Interaction

/-- Marks the reads that consume a program byte (`fetch_opcode`,
`fetch_immediate`); the host cannot see the mark. -/
inductive ReadKind where
  | fetch
  | data
deriving DecidableEq

inductive Request where
  | machineCycle (address : Word) (tStates : Int)
  | readMemory (kind : ReadKind) (address : Word)
  | writeMemory (address : Word) (value : Byte)
  | readIo (port : Word)
  | writeIo (port : Word) (value : Byte)
  | acknowledgeInterrupt
deriving DecidableEq

def Answer : Request → Type
  | .machineCycle _ _ => Unit
  | .readMemory _ _ => Byte
  | .writeMemory _ _ => Unit
  | .readIo _ => Byte
  | .writeIo _ _ => Unit
  | .acknowledgeInterrupt => Byte

/-- `z80f::Bus` over the host's own state. -/
structure Bus (Host : Type) where
  onMCycle : BitVec 64 → Word → Int → Host → Int × Host
  readMemory : BitVec 64 → Word → Host → Byte × Host
  writeMemory : BitVec 64 → Word → Byte → Host → Host
  readIo : BitVec 64 → Word → Host → Byte × Host
  writeIo : BitVec 64 → Word → Byte → Host → Host
  acknowledgeInterrupt : BitVec 64 → Host → Byte × Host

/-- The members that only `machine_cycle` and `step` touch. -/
structure Clock where
  cycles : BitVec 64 := 0
  instructionTStates : Int := 0

/-- What a callback saw of `cycle_counter()`, and the waits it returned. -/
structure Observation where
  cycles : BitVec 64
  waits : Int

abbrev BusCall : Type := Exchange Request Answer Observation

/-- The body of `Z80::machine_cycle`. -/
def runMachineCycle {Host : Type} (bus : Bus Host) (address : Word) (tStates : Int)
    (clock : Clock) (host : Host) : Int × Clock × Host :=
  let (waits, host) := bus.onMCycle clock.cycles address tStates host
  (waits,
    { cycles := clock.cycles + (BitVec.ofInt 64 tStates + BitVec.ofInt 64 waits)
      instructionTStates := clock.instructionTStates + tStates },
    host)

def serve {Host : Type} (bus : Bus Host) :
    (request : Request) → Clock × Host → Answer request × (Clock × Host) × Observation
  | .machineCycle address tStates, (clock, host) =>
      let (waits, next) := runMachineCycle bus address tStates clock host
      ((), next, ⟨clock.cycles, waits⟩)
  | .readMemory _ address, (clock, host) =>
      let (value, host) := bus.readMemory clock.cycles address host
      (value, (clock, host), ⟨clock.cycles, 0⟩)
  | .writeMemory address value, (clock, host) =>
      ((), (clock, bus.writeMemory clock.cycles address value host), ⟨clock.cycles, 0⟩)
  | .readIo port, (clock, host) =>
      let (value, host) := bus.readIo clock.cycles port host
      (value, (clock, host), ⟨clock.cycles, 0⟩)
  | .writeIo port value, (clock, host) =>
      ((), (clock, bus.writeIo clock.cycles port value host), ⟨clock.cycles, 0⟩)
  | .acknowledgeInterrupt, (clock, host) =>
      let (value, host) := bus.acknowledgeInterrupt clock.cycles host
      (value, (clock, host), ⟨clock.cycles, 0⟩)

def environment {Host : Type} (bus : Bus Host) :
    Environment Request Answer (Clock × Host) Observation := ⟨serve bus⟩

/-- The members the instruction code works on. -/
structure Cpu where
  regs : Registers := {}
  nmiLine : Bool := false
  nmiPending : Bool := false
  intLine : Bool := false
  intPulsePending : Bool := false
  flagsModified : Bool := false

abbrev Z80M (α : Type) : Type := Stateful Cpu Request Answer α

namespace Z80M

def getRegs : Z80M Registers := do return (← get).regs

def modifyRegs (f : Registers → Registers) : Z80M Unit :=
  modify fun cpu => { cpu with regs := f cpu.regs }

end Z80M

open Z80M

def machineCycle (address : Word) (tStates : Int) : Z80M Unit :=
  Stateful.request (Request.machineCycle address tStates)

def idle (address : Word) : Nat → Z80M Unit
  | 0 => return ()
  | tStates + 1 => do
      machineCycle address 1
      idle address tStates

def incR : Z80M Unit := modifyRegs Registers.incR

def writeFlags (flags : Byte) : Z80M Unit :=
  modify fun cpu => { cpu with regs := { cpu.regs with flags := flags }, flagsModified := true }

def busRead (kind : ReadKind) (address : Word) : Z80M Byte :=
  Stateful.request (Request.readMemory kind address)

def busWrite (address : Word) (value : Byte) : Z80M Unit :=
  Stateful.request (Request.writeMemory address value)

def busReadIo (port : Word) : Z80M Byte := Stateful.request (Request.readIo port)

def busWriteIo (port : Word) (value : Byte) : Z80M Unit :=
  Stateful.request (Request.writeIo port value)

def busAcknowledge : Z80M Byte := Stateful.request Request.acknowledgeInterrupt

def read8Of (kind : ReadKind) (address : Word) : Z80M Byte := do
  machineCycle address 3
  busRead kind address

def read8 (address : Word) : Z80M Byte := read8Of .data address

def write8 (address : Word) (value : Byte) : Z80M Unit := do
  machineCycle address 3
  busWrite address value

def fetchOpcode : Z80M Byte := do
  let pc := (← getRegs).pc
  machineCycle pc 4
  let op ← busRead .fetch pc
  modifyRegs fun r => { r with pc := pc + 1 }
  incR
  return op

def fetchImmediate : Z80M Byte := do
  let v ← read8Of .fetch (← getRegs).pc
  modifyRegs fun r => { r with pc := r.pc + 1 }
  return v

def fetchImmediate16 : Z80M Word := do
  let low ← fetchImmediate
  let high ← fetchImmediate
  return word high low

def ioIn (port : Word) : Z80M Byte := do
  machineCycle port 4
  busReadIo port

def ioOut (port : Word) (value : Byte) : Z80M Unit := do
  machineCycle port 4
  busWriteIo port value

def push16 (value : Word) : Z80M Unit := do
  modifyRegs fun r => { r with sp := r.sp - 1 }
  write8 (← getRegs).sp (hi value)
  modifyRegs fun r => { r with sp := r.sp - 1 }
  write8 (← getRegs).sp (lo value)

def pop16 : Z80M Word := do
  let low ← read8 (← getRegs).sp
  modifyRegs fun r => { r with sp := r.sp + 1 }
  let high ← read8 (← getRegs).sp
  modifyRegs fun r => { r with sp := r.sp + 1 }
  return word high low

end Z80f
