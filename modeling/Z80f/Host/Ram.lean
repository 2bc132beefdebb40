import Z80f.Cpu.StepRules
import Mathlib.Logic.Function.Basic

/-! # RAM hosts

A `RamBus` serves memory from 64 KiB of RAM that only the CPU writes; its
ports, its data bus and its nonnegative waits are arbitrary.  Its behaviour
towards the CPU is a replay: every read answers with the contents left by the
earlier writes. -/

set_option autoImplicit false

namespace Z80f

open Interaction Stateful

abbrev Memory : Type := Word → Byte

structure RamBus (Host : Type) extends Bus Host where
  memory : Host → Memory
  waits_nonneg : ∀ cycles address tStates host,
    0 ≤ (toBus.onMCycle cycles address tStates host).1
  onMCycle_memory : ∀ cycles address tStates host,
    memory (toBus.onMCycle cycles address tStates host).2 = memory host
  readMemory_answer : ∀ cycles address host,
    (toBus.readMemory cycles address host).1 = memory host address
  readMemory_memory : ∀ cycles address host,
    memory (toBus.readMemory cycles address host).2 = memory host
  writeMemory_memory : ∀ cycles address value host,
    memory (toBus.writeMemory cycles address value host) =
      Function.update (memory host) address value
  readIo_memory : ∀ cycles port host,
    memory (toBus.readIo cycles port host).2 = memory host
  writeIo_memory : ∀ cycles port value host,
    memory (toBus.writeIo cycles port value host) = memory host
  acknowledge_memory : ∀ cycles host,
    memory (toBus.acknowledgeInterrupt cycles host).2 = memory host

/-- The flat RAM of the tests: no waits, and 0xFF on ports and data bus. -/
def flatRam : RamBus Memory where
  onMCycle _ _ _ host := (0, host)
  readMemory _ address host := (host address, host)
  writeMemory _ address value host := Function.update host address value
  readIo _ _ host := (0xFF, host)
  writeIo _ _ _ host := host
  acknowledgeInterrupt _ host := (0xFF, host)
  memory host := host
  waits_nonneg _ _ _ _ := le_refl 0
  onMCycle_memory _ _ _ _ := rfl
  readMemory_answer _ _ _ := rfl
  readMemory_memory _ _ _ := rfl
  writeMemory_memory _ _ _ _ := rfl
  readIo_memory _ _ _ := rfl
  writeIo_memory _ _ _ _ := rfl
  acknowledge_memory _ _ := rfl

/-- `flatRam` with three waits on every machine cycle. -/
def slowRam : Bus Memory := { flatRam.toBus with onMCycle := fun _ _ _ host => (3, host) }

/-- RAM that starts with a program and is filled with one byte after it. -/
def programAt (origin : Word) (program : List Byte) (fill : Byte) : Memory :=
  fun address => program.getD (address - origin).toNat fill

def storeOf (memory : Memory) (answered : Sigma Answer) : Memory :=
  match answered.1 with
  | .writeMemory address value => Function.update memory address value
  | _ => memory

def memoryAfter (memory : Memory) (path : Path) : Memory := path.foldl storeOf memory

/-- Every read answers with the contents at its time. -/
def ReadsFrom (memory : Memory) : Path → Prop
  | [] => True
  | ⟨.readMemory _ address, value⟩ :: rest => value = memory address ∧ ReadsFrom memory rest
  | answered :: rest => ReadsFrom (storeOf memory answered) rest

section Replay
variable (memory : Memory) (a : Word) (v : Byte) (rest : Path)

@[simp] theorem memoryAfter_nil : memoryAfter memory [] = memory := rfl
@[simp] theorem memoryAfter_cycle (t : Int) :
    memoryAfter memory (cycle a t :: rest) = memoryAfter memory rest := rfl
@[simp] theorem memoryAfter_read (kind : ReadKind) :
    memoryAfter memory (readOf kind a v :: rest) = memoryAfter memory rest := rfl
@[simp] theorem memoryAfter_write :
    memoryAfter memory (writeOf a v :: rest) = memoryAfter (Function.update memory a v) rest := rfl
@[simp] theorem memoryAfter_ioRead :
    memoryAfter memory (ioReadOf a v :: rest) = memoryAfter memory rest := rfl
@[simp] theorem memoryAfter_ioWrite :
    memoryAfter memory (ioWriteOf a v :: rest) = memoryAfter memory rest := rfl
@[simp] theorem memoryAfter_acknowledge :
    memoryAfter memory (acknowledgeOf v :: rest) = memoryAfter memory rest := rfl

@[simp] theorem memoryAfter_append (path : Path) :
    memoryAfter memory (path ++ rest) = memoryAfter (memoryAfter memory path) rest :=
  List.foldl_append

@[simp] theorem memoryAfter_idle (count : Nat) : memoryAfter memory (idleCycles a count) = memory := by
  induction count with
  | zero => rfl
  | succ count ih => rw [idleCycles, List.replicate_succ, memoryAfter_cycle, ih]

@[simp] theorem readsFrom_nil : ReadsFrom memory [] := trivial
@[simp] theorem readsFrom_cycle (t : Int) :
    ReadsFrom memory (cycle a t :: rest) ↔ ReadsFrom memory rest := Iff.rfl
@[simp] theorem readsFrom_read (kind : ReadKind) :
    ReadsFrom memory (readOf kind a v :: rest) ↔ v = memory a ∧ ReadsFrom memory rest := Iff.rfl
@[simp] theorem readsFrom_write :
    ReadsFrom memory (writeOf a v :: rest) ↔ ReadsFrom (Function.update memory a v) rest := Iff.rfl
@[simp] theorem readsFrom_ioRead :
    ReadsFrom memory (ioReadOf a v :: rest) ↔ ReadsFrom memory rest := Iff.rfl
@[simp] theorem readsFrom_ioWrite :
    ReadsFrom memory (ioWriteOf a v :: rest) ↔ ReadsFrom memory rest := Iff.rfl
@[simp] theorem readsFrom_acknowledge :
    ReadsFrom memory (acknowledgeOf v :: rest) ↔ ReadsFrom memory rest := Iff.rfl

@[simp] theorem readsFrom_append (path : Path) :
    ReadsFrom memory (path ++ rest) ↔
      ReadsFrom memory path ∧ ReadsFrom (memoryAfter memory path) rest := by
  induction path generalizing memory with
  | nil => simp
  | cons answered path ih =>
      obtain ⟨request, answer⟩ := answered
      cases request with
      | readMemory kind address =>
          exact (and_congr_right fun _ => ih memory).trans and_assoc.symm
      | machineCycle | writeMemory | readIo | writeIo | acknowledgeInterrupt => exact ih _

@[simp] theorem readsFrom_idle (count : Nat) : ReadsFrom memory (idleCycles a count) := by
  induction count with
  | zero => trivial
  | succ count ih => rwa [idleCycles, List.replicate_succ, readsFrom_cycle]

end Replay

def writesOf : Path → List (Word × Byte)
  | [] => []
  | ⟨.writeMemory address value, _⟩ :: rest => (address, value) :: writesOf rest
  | _ :: rest => writesOf rest

section Writes
variable (a : Word) (v : Byte) (rest : Path)

@[simp] theorem writesOf_nil : writesOf [] = [] := rfl
@[simp] theorem writesOf_cycle (t : Int) : writesOf (cycle a t :: rest) = writesOf rest := rfl
@[simp] theorem writesOf_read (kind : ReadKind) :
    writesOf (readOf kind a v :: rest) = writesOf rest := rfl
@[simp] theorem writesOf_write : writesOf (writeOf a v :: rest) = (a, v) :: writesOf rest := rfl
@[simp] theorem writesOf_acknowledge : writesOf (acknowledgeOf v :: rest) = writesOf rest := rfl

@[simp] theorem writesOf_append (path : Path) :
    writesOf (path ++ rest) = writesOf path ++ writesOf rest := by
  induction path with
  | nil => rfl
  | cons answered path ih =>
      obtain ⟨request, answer⟩ := answered
      cases request with
      | writeMemory address value => exact congrArg ((address, value) :: ·) ih
      | machineCycle | readMemory | readIo | writeIo | acknowledgeInterrupt => exact ih

@[simp] theorem writesOf_idle (count : Nat) : writesOf (idleCycles a count) = [] := by
  induction count with
  | zero => rfl
  | succ count ih => rw [idleCycles, List.replicate_succ, writesOf_cycle, ih]

theorem memoryAfter_writes (memory : Memory) (path : Path) : memoryAfter memory path =
    (writesOf path).foldl (fun memory write => Function.update memory write.1 write.2) memory := by
  induction path generalizing memory with
  | nil => rfl
  | cons answered path ih =>
      obtain ⟨request, answer⟩ := answered
      cases request <;> exact ih _

end Writes

section RamBus
variable {Host α : Type} (bus : RamBus Host)

theorem RamBus.run_replays (program : Program Request Answer α) (state : Clock × Host) :
    let outcome := program.run (environment bus.toBus) state
    ReadsFrom (bus.memory state.2) (outcome.log.map Exchange.answered) ∧
      bus.memory outcome.final.2 =
        memoryAfter (bus.memory state.2) (outcome.log.map Exchange.answered) := by
  induction program generalizing state with
  | done value => exact ⟨trivial, rfl⟩
  | ask request next ih =>
      obtain ⟨clock, host⟩ := state
      obtain ⟨reads, writes⟩ := ih (serve bus.toBus request (clock, host)).1
        (serve bus.toBus request (clock, host)).2.1
      cases request with
      | machineCycle address tStates =>
          simp only [serve, runMachineCycle, bus.onMCycle_memory] at reads writes
          exact ⟨reads, writes⟩
      | readMemory kind address =>
          simp only [serve, bus.readMemory_memory] at reads writes
          exact ⟨⟨bus.readMemory_answer _ _ _, reads⟩, writes⟩
      | writeMemory address value =>
          simp only [serve, bus.writeMemory_memory] at reads writes
          exact ⟨reads, writes⟩
      | readIo port =>
          simp only [serve, bus.readIo_memory] at reads writes
          exact ⟨reads, writes⟩
      | writeIo port value =>
          simp only [serve, bus.writeIo_memory] at reads writes
          exact ⟨reads, writes⟩
      | acknowledgeInterrupt =>
          simp only [serve, bus.acknowledge_memory] at reads writes
          exact ⟨reads, writes⟩

theorem RamBus.exec_replays (m : Z80M α) (s : Machine Host) :
    let ran := exec bus.toBus m s
    ReadsFrom (bus.memory s.host) (ran.calls.map Exchange.answered) ∧
      bus.memory ran.machine.host =
        memoryAfter (bus.memory s.host) (ran.calls.map Exchange.answered) :=
  bus.run_replays (m.run s.z80.toCpu) (s.z80.toClock, s.host)

theorem RamBus.step_replays {fuel : Nat} {s : Machine Host} {stepped : Stepped Host}
    (returns : step bus.toBus fuel s = some stepped) :
    ReadsFrom (bus.memory s.host) (stepped.calls.map Exchange.answered) ∧
      bus.memory stepped.machine.host =
        memoryAfter (bus.memory s.host) (stepped.calls.map Exchange.answered) := by
  obtain ⟨-, machine, calls, -⟩ := step_returns returns
  rw [machine, calls]
  exact bus.exec_replays _ s.started

end RamBus
end Z80f
