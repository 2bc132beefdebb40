import Z80f.Encoding.Consumption
import Z80f.Encoding.Stepping
import Z80f.Host.Stack

/-! # Absolute sixteen-bit stores and loads

`LD (nn),rr` and `LD rr,(nn)` have three forms, in three dispatchers.  One rule
for each side says what a form does; that a load undoes a store follows for
all pairs of forms. -/

set_option autoImplicit false

namespace Z80f

open Interaction Stateful Z80M

inductive Pair where
  | bc | de | hl | sp

namespace Pair

def get : Pair → Registers → Word
  | .bc => Registers.bc
  | .de => Registers.de
  | .hl => Registers.hl
  | .sp => fun r => r.sp

def set : Pair → Word → Registers → Registers
  | .bc => Registers.setBc
  | .de => Registers.setDe
  | .hl => Registers.setHl
  | .sp => fun v r => { r with sp := v }

def storeOpcode : Pair → Byte
  | .bc => 0x43
  | .de => 0x53
  | .hl => 0x63
  | .sp => 0x73

def loadOpcode : Pair → Byte
  | .bc => 0x4B
  | .de => 0x5B
  | .hl => 0x6B
  | .sp => 0x7B

end Pair

/-- The forms of both instructions: short for HL, behind ED, behind DD or FD. -/
inductive Absolute where
  | short
  | extended (pair : Pair)
  | indexed (x : IndexReg)

namespace Absolute

def get : Absolute → Registers → Word
  | .short => Registers.hl
  | .extended pair => pair.get
  | .indexed x => Registers.index x

def set : Absolute → Word → Registers → Registers
  | .short => Registers.setHl
  | .extended pair => pair.set
  | .indexed x => Registers.setIndex x

def storeCode : Absolute → List Byte
  | .short => [0x22]
  | .extended pair => [0xED, pair.storeOpcode]
  | .indexed .ix => [0xDD, 0x22]
  | .indexed .iy => [0xFD, 0x22]

def loadCode : Absolute → List Byte
  | .short => [0x2A]
  | .extended pair => [0xED, pair.loadOpcode]
  | .indexed .ix => [0xDD, 0x2A]
  | .indexed .iy => [0xFD, 0x2A]

def opcodes : Absolute → Nat
  | .short => 1
  | .extended _ | .indexed _ => 2

def cost : Absolute → Int
  | .short => 16
  | .extended _ | .indexed _ => 20

variable (form : Absolute)

theorem set_get (v : Word) (r : Registers) : form.get (form.set v r) = v := by
  cases form with
  | short => exact word_hi_lo v
  | extended pair =>
      cases pair with
      | bc | de | hl => exact word_hi_lo v
      | sp => rfl
  | indexed x => cases x <;> rfl

/-- The members that the instructions change on their way are none of a pair. -/
theorem get_moved (r : Registers) (pc wz : Word) (refresh q : Byte) (pending : Bool) :
    form.get { r with pc := pc, wz := wz, r := refresh, q := q, eiPending := pending } =
      form.get r := by
  cases form with
  | short => rfl
  | extended pair => cases pair <;> rfl
  | indexed x => cases x <;> rfl

end Absolute

/-- Low byte first; the address wraps. -/
def storedWord (memory : Memory) (address value : Word) : Memory :=
  Function.update (Function.update memory address (lo value)) (address + 1) (hi value)

section Words
variable (memory : Memory) (address value : Word)

theorem next_ne : address ≠ address + 1 := by bv_omega

theorem wordAt_storedWord : wordAt (storedWord memory address value) address = value := by
  rw [wordAt, storedWord, Function.update_self, Function.update_of_ne (next_ne address),
    Function.update_self, word_hi_lo]

theorem storedWord_apart {other : Word} (low : other ≠ address) (high : other ≠ address + 1) :
    storedWord memory address value other = memory other := by
  rw [storedWord, Function.update_of_ne high, Function.update_of_ne low]

end Words

def storeArm (get : Registers → Word) (t : Int) : Z80M Int := do
  store16 (← fetchImmediate16) (get (← getRegs))
  return t

def loadArm (set : Word → Registers → Registers) (t : Int) : Z80M Int := do
  load16 (← fetchImmediate16) set
  return t

section Arms
variable {memory : Memory} {cpu : Cpu} {nn : Word} (t : Int)
  (low : memory cpu.regs.pc = lo nn) (high : memory (cpu.regs.pc + 1) = hi nn)
include low high

theorem storeArm_stores (get : Registers → Word) :
    (storeArm get t).Holds (fun cost next tail => ReadsFrom memory tail →
      let r := { cpu.regs with pc := cpu.regs.pc + 1 + 1 }
      cost = t ∧ next = { cpu with regs := { r with wz := nn + 1 } } ∧
        memoryAfter memory tail = storedWord memory nn (get r)) cpu := by
  simp only [storeArm, store16, holds_bind, holds_fetchImmediate16, holds_getRegs, holds_write8,
    holds_modifyRegs, holds_pure]
  intro lowByte highByte reads
  have first : lowByte = memory cpu.regs.pc := reads.1
  have second : highByte = memory (cpu.regs.pc + 1) := reads.2.1
  rw [first, second, low, high, word_hi_lo]
  exact ⟨trivial, rfl, rfl⟩

theorem loadArm_loads (set : Word → Registers → Registers) :
    (loadArm set t).Holds (fun cost next tail => ReadsFrom memory tail →
      let r := { cpu.regs with pc := cpu.regs.pc + 1 + 1 }
      cost = t ∧ next = { cpu with regs := { set (wordAt memory nn) r with wz := nn + 1 } } ∧
        memoryAfter memory tail = memory) cpu := by
  simp only [loadArm, load16, holds_bind, holds_fetchImmediate16, holds_read8,
    holds_modifyRegs, holds_pure]
  intro lowByte highByte lowValue highValue reads
  have first : lowByte = memory cpu.regs.pc := reads.1
  have second : highByte = memory (cpu.regs.pc + 1) := reads.2.1
  rw [first, second, low, high, word_hi_lo] at reads ⊢
  have third : lowValue = memory nn := reads.2.2.1
  have fourth : highValue = memory (nn + 1) := reads.2.2.2.1
  rw [third, fourth]
  exact ⟨trivial, rfl, rfl⟩

end Arms

/-! ## The three dispatchers -/

/-- The code of a form leads to an arm. -/
inductive Leads : Absolute → List Byte → Z80M Int → Prop where
  | short (op : Byte) (last : isIndexPrefix op = false) :
      Leads .short [op] (dispatchOpcode op)
  | extended (pair : Pair) (op : Byte) : Leads (.extended pair) [0xED, op] (edArm op)
  | indexed (p op : Byte) (isPrefix : isIndexPrefix p = true) (last : isIndexPrefix op = false) :
      Leads (.indexed (prefixReg p)) [p, op] (indexArm (prefixReg p) op 4)

namespace Absolute

theorem leads_store (form : Absolute) :
    Leads form form.storeCode (storeArm form.get form.cost) := by
  cases form with
  | short => exact .short 0x22 rfl
  | extended pair =>
      cases pair with
      | bc => exact .extended .bc 0x43
      | de => exact .extended .de 0x53
      | hl => exact .extended .hl 0x63
      | sp => exact .extended .sp 0x73
  | indexed x =>
      cases x with
      | ix => exact .indexed 0xDD 0x22 rfl rfl
      | iy => exact .indexed 0xFD 0x22 rfl rfl

theorem leads_load (form : Absolute) :
    Leads form form.loadCode (loadArm form.set form.cost) := by
  cases form with
  | short => exact .short 0x2A rfl
  | extended pair =>
      cases pair with
      | bc => exact .extended .bc 0x4B
      | de => exact .extended .de 0x5B
      | hl => exact .extended .hl 0x6B
      | sp => exact .extended .sp 0x7B
  | indexed x =>
      cases x with
      | ix => exact .indexed 0xDD 0x2A rfl rfl
      | iy => exact .indexed 0xFD 0x2A rfl rfl

def entered : Absolute → Cpu → Cpu
  | .short, cpu => cpu.opened
  | .extended _, cpu => cpu.opened.opcodeFetched
  | .indexed _, cpu => cpu.openedIndexed

end Absolute

theorem bytes_two {memory : Memory} {pc : Word} {first second : Byte}
    (placed : bytesAt memory pc 2 = [first, second]) :
    memory pc = first ∧ memory (pc + 1) = second := by
  rw [bytesAt_succ, bytesAt_succ] at placed
  obtain ⟨here, next⟩ := List.cons.inj placed
  exact ⟨here, (List.cons.inj next).1⟩

section Ram
variable {Host : Type} (bus : RamBus Host) (fuel : Nat) {s : Machine Host}
  (executes : s.z80.Executes)
include executes

theorem RamBus.step_leads {form : Absolute} {code : List Byte} {arm : Z80M Int} {cost : Int}
    {settled : Cpu} {after : Memory} (leads : Leads form code arm)
    (placed : bytesAt (bus.memory s.host) s.z80.regs.pc code.length = code)
    (body : arm.Holds (fun t next tail => ReadsFrom (bus.memory s.host) tail →
      t = cost ∧ next.settleQ = settled ∧ memoryAfter (bus.memory s.host) tail = after)
      (form.entered s.z80.toCpu)) :
    ∃ stepped, step bus.toBus fuel s = some stepped ∧ stepped.kind = .instruction cost ∧
      stepped.machine.z80.toCpu = settled ∧ bus.memory stepped.machine.host = after := by
  let post (t : Int) (next : Cpu) (tail : Path) : Prop :=
    t = cost ∧ next = settled ∧ memoryAfter (bus.memory s.host) tail = after
  cases leads with
  | short op last =>
      rw [List.length_singleton, bytesAt_succ] at placed
      obtain ⟨here, -⟩ := List.cons.inj placed
      obtain ⟨stepped, t, tail, returns, kind, -, ⟨rfl, cpu, written⟩, memory⟩ :=
        bus.step_opcode fuel executes here post last body
      exact ⟨stepped, returns, kind, cpu, memory.trans written⟩
  | extended pair op =>
      obtain ⟨ed, second⟩ := bytes_two placed
      obtain ⟨stepped, t, tail, returns, kind, -, ⟨rfl, cpu, written⟩, memory⟩ :=
        bus.step_extended fuel executes post ed second body
      exact ⟨stepped, returns, kind, cpu, memory.trans written⟩
  | indexed p op isPrefix last =>
      obtain ⟨here, second⟩ := bytes_two placed
      obtain ⟨stepped, t, tail, returns, kind, -, ⟨rfl, cpu, written⟩, memory⟩ :=
        bus.step_prefixed fuel executes here post isPrefix second last body
      exact ⟨stepped, returns, kind, cpu, memory.trans written⟩

end Ram

/-! ## One instruction -/

def Registers.passed (opcodes : Nat) (nn : Word) (r : Registers) : Registers :=
  { r with
    pc := r.pc + BitVec.ofNat 16 (opcodes + 2), r := advanceR opcodes r.r, wz := nn + 1, q := 0
    eiPending := false }

def Cpu.passedWith (cpu : Cpu) (regs : Registers) : Cpu :=
  { cpu with flagsModified := false, intPulsePending := false, regs := regs }

theorem behind_address (pc : Word) (opcodes : Nat) :
    pc + BitVec.ofNat 16 (opcodes + 2) = pc + BitVec.ofNat 16 opcodes + 1 + 1 := by
  bv_omega

section Fetched
variable (cpu : Cpu) (regs : Registers)

theorem Cpu.opened_passedWith : cpu.opened = cpu.passedWith { cpu.regs with
    pc := cpu.regs.pc + 1, r := advanceR 1 cpu.regs.r, eiPending := false } := rfl

theorem Cpu.passedWith_opcodeFetched : (cpu.passedWith regs).opcodeFetched =
    cpu.passedWith { regs with pc := regs.pc + 1, r := advanceR 1 regs.r } := rfl

end Fetched

namespace Absolute
variable (form : Absolute) (cpu : Cpu) (nn : Word)

theorem entered_regs : ∃ q, form.entered cpu = cpu.passedWith { cpu.regs with
    pc := cpu.regs.pc + BitVec.ofNat 16 form.opcodes, r := advanceR form.opcodes cpu.regs.r
    q := q, eiPending := false } := by
  have two : cpu.regs.pc + BitVec.ofNat 16 2 = cpu.regs.pc + 1 + 1 :=
    (BitVec.add_assoc cpu.regs.pc 1 1).symm
  cases form with
  | short => exact ⟨_, cpu.opened_passedWith⟩
  | extended pair =>
      refine ⟨cpu.regs.q, ?_⟩
      rw [opcodes, two, entered, Cpu.opened_passedWith, Cpu.passedWith_opcodeFetched]
      rfl
  | indexed x =>
      refine ⟨0, ?_⟩
      rw [opcodes, two, entered, Cpu.openedIndexed, Cpu.opened_passedWith,
        Cpu.passedWith_opcodeFetched]
      rfl

theorem stored_settled :
    let mid := form.entered cpu
    let moved := { mid.regs with pc := mid.regs.pc + 1 + 1 }
    form.get moved = form.get cpu.regs ∧
      Cpu.settleQ { mid with regs := { moved with wz := nn + 1 } } =
        cpu.passedWith (cpu.regs.passed form.opcodes nn) := by
  obtain ⟨q, entered⟩ := form.entered_regs cpu
  dsimp only
  rw [entered]
  refine ⟨form.get_moved cpu.regs (cpu.regs.pc + BitVec.ofNat 16 form.opcodes + 1 + 1)
    cpu.regs.wz (advanceR form.opcodes cpu.regs.r) q false, ?_⟩
  rw [Registers.passed, behind_address]
  rfl

theorem loaded_settled (v : Word) :
    let mid := form.entered cpu
    let moved := { mid.regs with pc := mid.regs.pc + 1 + 1 }
    Cpu.settleQ { mid with regs := { form.set v moved with wz := nn + 1 } } =
      cpu.passedWith (form.set v (cpu.regs.passed form.opcodes nn)) := by
  obtain ⟨q, entered⟩ := form.entered_regs cpu
  dsimp only
  rw [entered]
  rw [Registers.passed, behind_address]
  cases form with
  | short => rfl
  | extended pair => cases pair <;> rfl
  | indexed x => cases x <;> rfl

end Absolute

/-- The opcode bytes and behind them the address `nn` are at `pc`. -/
def Placed (memory : Memory) (pc : Word) (code : List Byte) (nn : Word) : Prop :=
  bytesAt memory pc (code.length + 2) = code ++ [lo nn, hi nn]

section Bytes
variable {memory : Memory} {pc nn : Word} {bytes : List Byte}

theorem Placed.parts (placed : Placed memory pc bytes nn) :
    bytesAt memory pc bytes.length = bytes ∧
      memory (pc + BitVec.ofNat 16 bytes.length) = lo nn ∧
      memory (pc + BitVec.ofNat 16 bytes.length + 1) = hi nn := by
  have next : pc + BitVec.ofNat 16 (bytes.length + 1) =
      pc + BitVec.ofNat 16 bytes.length + 1 := by
    bv_omega
  have whole : bytesAt memory pc bytes.length ++
      [memory (pc + BitVec.ofNat 16 bytes.length),
        memory (pc + BitVec.ofNat 16 bytes.length + 1)] = bytes ++ [lo nn, hi nn] := by
    rw [← next, ← placed, bytesAt_last, bytesAt_last, List.append_assoc]
    rfl
  have sameLength : (bytesAt memory pc bytes.length).length = bytes.length := by
    rw [bytesAt, List.length_map, List.length_range]
  obtain ⟨front, back⟩ := List.append_inj whole sameLength
  obtain ⟨low, rest⟩ := List.cons.inj back
  exact ⟨front, low, (List.cons.inj rest).1⟩

theorem Placed.stored (placed : Placed memory pc bytes nn) {address : Word} (value : Word)
    (apart : ∀ k < bytes.length + 2, pc + BitVec.ofNat 16 k ≠ address ∧
      pc + BitVec.ofNat 16 k ≠ address + 1) :
    Placed (storedWord memory address value) pc bytes nn := by
  rw [Placed, ← placed]
  apply List.map_congr_left
  intro k within
  obtain ⟨low, high⟩ := apart k (List.mem_range.mp within)
  exact storedWord_apart memory address value low high

end Bytes

namespace Absolute
variable (form : Absolute)

theorem storeCode_length : form.storeCode.length = form.opcodes := by
  cases form with
  | short | extended => rfl
  | indexed x => cases x <;> rfl

theorem loadCode_length : form.loadCode.length = form.opcodes := by
  cases form with
  | short | extended => rfl
  | indexed x => cases x <;> rfl

theorem entered_pc (cpu : Cpu) :
    (form.entered cpu).regs.pc = cpu.regs.pc + BitVec.ofNat 16 form.opcodes := by
  obtain ⟨q, entered⟩ := form.entered_regs cpu
  rw [entered]
  rfl

end Absolute

section Steps
variable {Host : Type} (bus : RamBus Host) (fuel : Nat) {s : Machine Host} (form : Absolute)
  {nn : Word} (executes : s.z80.Executes)
include executes

theorem RamBus.step_store (placed : Placed (bus.memory s.host) s.z80.regs.pc form.storeCode nn) :
    ∃ stepped, step bus.toBus fuel s = some stepped ∧ stepped.kind = .instruction form.cost ∧
      stepped.machine.z80.toCpu = s.z80.toCpu.passedWith (s.z80.regs.passed form.opcodes nn) ∧
      bus.memory stepped.machine.host =
        storedWord (bus.memory s.host) nn (form.get s.z80.regs) := by
  obtain ⟨opcodes, low, high⟩ := placed.parts
  rw [form.storeCode_length, ← form.entered_pc] at low high
  obtain ⟨value, settled⟩ := form.stored_settled s.z80.toCpu nn
  apply bus.step_leads fuel executes form.leads_store opcodes
  apply (storeArm_stores form.cost low high form.get).mono
  intro t next tail done reads
  obtain ⟨cost, rfl, stored⟩ := done reads
  rw [value] at stored
  exact ⟨cost, settled, stored⟩

theorem RamBus.step_load (placed : Placed (bus.memory s.host) s.z80.regs.pc form.loadCode nn) :
    ∃ stepped, step bus.toBus fuel s = some stepped ∧ stepped.kind = .instruction form.cost ∧
      stepped.machine.z80.toCpu = s.z80.toCpu.passedWith
        (form.set (wordAt (bus.memory s.host) nn) (s.z80.regs.passed form.opcodes nn)) ∧
      bus.memory stepped.machine.host = bus.memory s.host := by
  obtain ⟨opcodes, low, high⟩ := placed.parts
  rw [form.loadCode_length, ← form.entered_pc] at low high
  have settled := form.loaded_settled s.z80.toCpu nn (wordAt (bus.memory s.host) nn)
  apply bus.step_leads fuel executes form.leads_load opcodes
  apply (loadArm_loads form.cost low high form.set).mono
  intro t next tail done reads
  obtain ⟨cost, rfl, same⟩ := done reads
  exact ⟨cost, settled, same⟩

end Steps

section Inverse
variable {Host : Type} (bus : RamBus Host) (store load : Absolute) (nn : Word) (s : Machine Host)

/-- The store and the load behind it are the next two instructions; the word is
not in the bytes of the load. -/
structure StoreThenLoad : Prop where
  executes : s.z80.Executes
  noLine : (s.z80.intLine && s.z80.regs.iff1) = false
  stores : Placed (bus.memory s.host) s.z80.regs.pc store.storeCode nn
  loads : Placed (bus.memory s.host) (s.z80.regs.pc + BitVec.ofNat 16 (store.opcodes + 2))
    load.loadCode nn
  apart : ∀ k < load.opcodes + 2,
    s.z80.regs.pc + BitVec.ofNat 16 (store.opcodes + 2) + BitVec.ofNat 16 k ≠ nn ∧
      s.z80.regs.pc + BitVec.ofNat 16 (store.opcodes + 2) + BitVec.ofNat 16 k ≠ nn + 1

/-- The pair of the load has the word of the other pair; what else changed. -/
structure Copied (t : Machine Host) : Prop where
  value : load.get t.z80.regs = store.get s.z80.regs
  wz : t.z80.regs.wz = nn + 1
  low : bus.memory t.host nn = lo (store.get s.z80.regs)
  high : bus.memory t.host (nn + 1) = hi (store.get s.z80.regs)
  elsewhere : ∀ address, address ≠ nn → address ≠ nn + 1 →
    bus.memory t.host address = bus.memory s.host address
  others : t.z80.regs = load.set (store.get s.z80.regs) { s.z80.regs with
    wz := t.z80.regs.wz, pc := t.z80.regs.pc, r := t.z80.regs.r, q := t.z80.regs.q
    eiPending := t.z80.regs.eiPending }

/-- Apart from PC and R these are the same. -/
def Cpu.SameButPcR (cpu other : Cpu) : Prop :=
  other = { cpu with regs := { cpu.regs with pc := other.regs.pc, r := other.regs.r } }

variable {bus store load nn s}

theorem StoreThenLoad.executes_load (site : StoreThenLoad bus store load nn s) {t : Machine Host}
    (cpu : t.z80.toCpu =
      s.z80.toCpu.passedWith (s.z80.regs.passed store.opcodes nn)) : t.z80.Executes := by
  rw [cpu]
  exact site.executes.next rfl site.noLine rfl rfl

theorem store_load_copied {t u : Machine Host}
    (storedCpu : t.z80.toCpu = s.z80.toCpu.passedWith (s.z80.regs.passed store.opcodes nn))
    (stored : bus.memory t.host = storedWord (bus.memory s.host) nn (store.get s.z80.regs))
    (loadedCpu : u.z80.toCpu = t.z80.toCpu.passedWith
      (load.set (wordAt (bus.memory t.host) nn) (t.z80.regs.passed load.opcodes nn)))
    (same : bus.memory u.host = bus.memory t.host) : Copied bus store load nn s u := by
  rw [stored, wordAt_storedWord, storedCpu] at loadedCpu
  have regs : u.z80.regs = load.set (store.get s.z80.regs)
      ((s.z80.regs.passed store.opcodes nn).passed load.opcodes nn) :=
    congrArg Cpu.regs loadedCpu
  have memory := same.trans stored
  have moved : load.get u.z80.regs = store.get s.z80.regs := by
    rw [regs, load.set_get]
  constructor
  · exact moved
  · rw [regs]
    cases load with
    | short => rfl
    | extended pair => cases pair <;> rfl
    | indexed x => cases x <;> rfl
  · rw [memory, storedWord, Function.update_of_ne (next_ne nn), Function.update_self]
  · rw [memory, storedWord, Function.update_self]
  · intro address low high
    rw [memory]
    exact storedWord_apart (bus.memory s.host) nn (store.get s.z80.regs) low high
  · rw [regs]
    cases load with
    | short => rfl
    | extended pair => cases pair <;> rfl
    | indexed x => cases x <;> rfl

theorem Cpu.SameButPcR.executes {cpu other : Cpu} (alike : cpu.SameButPcR other)
    (executes : cpu.Executes) : other.Executes := by
  rw [Cpu.SameButPcR] at alike
  rw [alike]
  exact ⟨executes.noNmi, executes.noInt, executes.running⟩

end Inverse

/-- Two steps leave the same but PC and R; the second takes 4 T-states more. -/
structure SameTransfer {Host : Type} (short long : Stepped Host) : Prop where
  cpu : short.machine.z80.toCpu.SameButPcR long.machine.z80.toCpu
  cost : ∃ t, short.kind = .instruction t ∧ long.kind = .instruction (t + 4)

section Short
variable {Host : Type} (bus : RamBus Host) (fuel : Nat) {nn : Word} {s t : Machine Host}
  (executes : s.z80.Executes) (alike : s.z80.toCpu.SameButPcR t.z80.toCpu)
include executes alike

theorem short_extended_store
    (here : Placed (bus.memory s.host) s.z80.regs.pc [0x22] nn)
    (there : Placed (bus.memory t.host) t.z80.regs.pc [0xED, 0x63] nn) :
    ∃ short long, step bus.toBus fuel s = some short ∧ step bus.toBus fuel t = some long ∧
      SameTransfer short long ∧
      bus.memory short.machine.host = storedWord (bus.memory s.host) nn s.z80.regs.hl ∧
      bus.memory long.machine.host = storedWord (bus.memory t.host) nn s.z80.regs.hl := by
  obtain ⟨short, returns, kind, cpu, stored⟩ := bus.step_store fuel .short executes here
  obtain ⟨long, longReturns, longKind, longCpu, longStored⟩ :=
    bus.step_store fuel (.extended .hl) (alike.executes executes) there
  rw [Cpu.SameButPcR] at alike
  have sameHl : (Absolute.extended .hl).get t.z80.regs = s.z80.regs.hl := by
    rw [alike]
    rfl
  have same : short.machine.z80.toCpu.SameButPcR long.machine.z80.toCpu := by
    rw [Cpu.SameButPcR, longCpu, cpu, alike]
    rfl
  rw [sameHl] at longStored
  exact ⟨short, long, returns, longReturns, ⟨same, 16, kind, longKind⟩, stored, longStored⟩

theorem short_extended_load
    (here : Placed (bus.memory s.host) s.z80.regs.pc [0x2A] nn)
    (there : Placed (bus.memory t.host) t.z80.regs.pc [0xED, 0x6B] nn)
    (sameWord : wordAt (bus.memory s.host) nn = wordAt (bus.memory t.host) nn) :
    ∃ short long, step bus.toBus fuel s = some short ∧ step bus.toBus fuel t = some long ∧
      SameTransfer short long ∧
      bus.memory short.machine.host = bus.memory s.host ∧
      bus.memory long.machine.host = bus.memory t.host := by
  obtain ⟨short, returns, kind, cpu, kept⟩ := bus.step_load fuel .short executes here
  obtain ⟨long, longReturns, longKind, longCpu, longKept⟩ :=
    bus.step_load fuel (.extended .hl) (alike.executes executes) there
  have same : short.machine.z80.toCpu.SameButPcR long.machine.z80.toCpu := by
    rw [Cpu.SameButPcR] at alike
    rw [Cpu.SameButPcR, longCpu, cpu, sameWord, alike]
    rfl
  exact ⟨short, long, returns, longReturns, ⟨same, 16, kind, longKind⟩, kept, longKept⟩

end Short

/-- Every store undone by every load, and the two codes for HL. -/
theorem absolute_store_load {Host : Type} (bus : RamBus Host) (fuel : Nat) (nn : Word) :
    (∀ (store load : Absolute) (s : Machine Host), StoreThenLoad bus store load nn s →
      ∃ first second, step bus.toBus fuel s = some first ∧
        step bus.toBus fuel first.machine = some second ∧
        first.kind = .instruction store.cost ∧ second.kind = .instruction load.cost ∧
        Copied bus store load nn s second.machine) ∧
    (∀ s t : Machine Host, s.z80.Executes → s.z80.toCpu.SameButPcR t.z80.toCpu →
      Placed (bus.memory s.host) s.z80.regs.pc [0x22] nn →
      Placed (bus.memory t.host) t.z80.regs.pc [0xED, 0x63] nn →
      ∃ short long, step bus.toBus fuel s = some short ∧ step bus.toBus fuel t = some long ∧
        SameTransfer short long ∧
        bus.memory short.machine.host = storedWord (bus.memory s.host) nn s.z80.regs.hl ∧
        bus.memory long.machine.host = storedWord (bus.memory t.host) nn s.z80.regs.hl) ∧
    ∀ s t : Machine Host, s.z80.Executes → s.z80.toCpu.SameButPcR t.z80.toCpu →
      Placed (bus.memory s.host) s.z80.regs.pc [0x2A] nn →
      Placed (bus.memory t.host) t.z80.regs.pc [0xED, 0x6B] nn →
      wordAt (bus.memory s.host) nn = wordAt (bus.memory t.host) nn →
      ∃ short long, step bus.toBus fuel s = some short ∧ step bus.toBus fuel t = some long ∧
        SameTransfer short long ∧
        bus.memory short.machine.host = bus.memory s.host ∧
        bus.memory long.machine.host = bus.memory t.host := by
  constructor
  · intro store load s site
    obtain ⟨first, stores, storeKind, storedCpu, stored⟩ :=
      bus.step_store fuel store site.executes site.stores
    have firstPc : first.machine.z80.regs.pc =
        s.z80.regs.pc + BitVec.ofNat 16 (store.opcodes + 2) :=
      congrArg (fun cpu => cpu.regs.pc) storedCpu
    have loads : Placed (bus.memory first.machine.host) first.machine.z80.regs.pc
        load.loadCode nn := by
      rw [stored, firstPc]
      apply site.loads.stored
      rw [load.loadCode_length]
      exact site.apart
    obtain ⟨second, returns, loadKind, loadedCpu, same⟩ :=
      bus.step_load fuel load (site.executes_load storedCpu) loads
    exact ⟨first, second, stores, returns, storeKind, loadKind,
      store_load_copied storedCpu stored loadedCpu same⟩
  · constructor
    · intro s t executes alike here there
      exact short_extended_store bus fuel executes alike here there
    · intro s t executes alike here there sameWord
      exact short_extended_load bus fuel executes alike here there sameWord

/-- LD (FFFFh),BC and LD IY,(FFFFh): the high byte goes to address 0. -/
theorem absolute_store_load_wrapped :
    let s : Machine Memory :=
      { z80 := { regs := { b := 0x12, c := 0x34, pc := 0x100 } }
        host := programAt 0x100 [0xED, 0x43, 0xFF, 0xFF, 0xFD, 0x2A, 0xFF, 0xFF] 0 }
    ∃ first second, step flatRam.toBus 0 s = some first ∧
      step flatRam.toBus 0 first.machine = some second ∧
      second.machine.z80.regs.index .iy = 0x1234 ∧
      flatRam.memory second.machine.host 0 = 0x12 := by
  intro s
  have stores : bytesAt s.host 0x100 4 = [0xED, 0x43, 0xFF, 0xFF] := by decide
  have loads : bytesAt s.host 0x104 4 = [0xFD, 0x2A, 0xFF, 0xFF] := by decide
  have apart : ∀ k < 4, (0x104 : Word) + BitVec.ofNat 16 k ≠ 0xFFFF ∧
      (0x104 : Word) + BitVec.ofNat 16 k ≠ 0 := by
    decide
  obtain ⟨first, second, returns, next, -, -, copied⟩ :=
    (absolute_store_load flatRam 0 0xFFFF).1 (.extended .bc) (.indexed .iy) s
      ⟨⟨rfl, rfl, rfl⟩, rfl, stores, loads, apart⟩
  have bc : s.z80.regs.bc = 0x1234 := by decide
  have high : hi s.z80.regs.bc = 0x12 := by decide
  exact ⟨first, second, returns, next, copied.value.trans bc, copied.high.trans high⟩

end Z80f
