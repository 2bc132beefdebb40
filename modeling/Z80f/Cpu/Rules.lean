import Z80f.Cpu.Step
import Mathlib.Tactic.IntervalCases

/-! # Symbolic execution of the CPU code

One rule for each function: what it does to the registers, which requests it
makes and what it returns.  Later proofs execute an opcode with these rules and
never unfold a function again. -/

set_option autoImplicit false

namespace Z80f

open Interaction Stateful Z80M Flags

/-- The answered requests of one path through the CPU code. -/
abbrev Path : Type := List (Sigma Answer)

abbrev cycle (address : Word) (tStates : Int) : Sigma Answer := ⟨.machineCycle address tStates, ()⟩

abbrev readOf (kind : ReadKind) (address : Word) (value : Byte) : Sigma Answer :=
  ⟨.readMemory kind address, value⟩

abbrev writeOf (address : Word) (value : Byte) : Sigma Answer := ⟨.writeMemory address value, ()⟩

abbrev ioReadOf (port : Word) (value : Byte) : Sigma Answer := ⟨.readIo port, value⟩

abbrev ioWriteOf (port : Word) (value : Byte) : Sigma Answer := ⟨.writeIo port value, ()⟩

abbrev acknowledgeOf (value : Byte) : Sigma Answer := ⟨.acknowledgeInterrupt, value⟩

abbrev idleCycles (address : Word) (tStates : Nat) : Path := List.replicate tStates (cycle address 1)

@[simp] def Cpu.flagged (cpu : Cpu) (regs : Registers) : Cpu :=
  { cpu with regs := regs, flagsModified := true }

section Rules
variable (cpu : Cpu)

@[simp] theorem holds_getRegs {post : Registers → Cpu → Path → Prop} :
    getRegs.Holds post cpu ↔ post cpu.regs cpu [] := Iff.rfl

@[simp] theorem holds_modifyRegs (f : Registers → Registers) {post : Unit → Cpu → Path → Prop} :
    (modifyRegs f).Holds post cpu ↔ post () { cpu with regs := f cpu.regs } [] := Iff.rfl

@[simp] theorem holds_incR {post : Unit → Cpu → Path → Prop} :
    incR.Holds post cpu ↔ post () { cpu with regs := cpu.regs.incR } [] := Iff.rfl

@[simp] theorem holds_writeFlags (f : Byte) {post : Unit → Cpu → Path → Prop} :
    (writeFlags f).Holds post cpu ↔
      post () { cpu with regs := { cpu.regs with flags := f }, flagsModified := true } [] := Iff.rfl

@[simp] theorem holds_machineCycle (a : Word) (t : Int) {post : Unit → Cpu → Path → Prop} :
    (machineCycle a t).Holds post cpu ↔ post () cpu [cycle a t] :=
  ⟨fun holds => holds (), fun holds _ => holds⟩

@[simp] theorem holds_busRead (kind : ReadKind) (a : Word) {post : Byte → Cpu → Path → Prop} :
    (busRead kind a).Holds post cpu ↔ ∀ v : Byte, post v cpu [readOf kind a v] := Iff.rfl

@[simp] theorem holds_busWrite (a : Word) (v : Byte) {post : Unit → Cpu → Path → Prop} :
    (busWrite a v).Holds post cpu ↔ post () cpu [writeOf a v] :=
  ⟨fun holds => holds (), fun holds _ => holds⟩

@[simp] theorem holds_busReadIo (port : Word) {post : Byte → Cpu → Path → Prop} :
    (busReadIo port).Holds post cpu ↔ ∀ v : Byte, post v cpu [ioReadOf port v] := Iff.rfl

@[simp] theorem holds_busWriteIo (port : Word) (v : Byte) {post : Unit → Cpu → Path → Prop} :
    (busWriteIo port v).Holds post cpu ↔ post () cpu [ioWriteOf port v] :=
  ⟨fun holds => holds (), fun holds _ => holds⟩

@[simp] theorem holds_busAcknowledge {post : Byte → Cpu → Path → Prop} :
    busAcknowledge.Holds post cpu ↔ ∀ v : Byte, post v cpu [acknowledgeOf v] := Iff.rfl

@[simp] theorem holds_idle (a : Word) (t : Nat) {post : Unit → Cpu → Path → Prop} :
    (idle a t).Holds post cpu ↔ post () cpu (idleCycles a t) := by
  induction t generalizing post with
  | zero => exact Iff.rfl
  | succ t ih => simp [idle, ih, List.replicate_succ]

@[simp] theorem holds_read8Of (kind : ReadKind) (a : Word) {post : Byte → Cpu → Path → Prop} :
    (read8Of kind a).Holds post cpu ↔ ∀ v : Byte, post v cpu [cycle a 3, readOf kind a v] := by
  simp [read8Of]

@[simp] theorem holds_read8 (a : Word) {post : Byte → Cpu → Path → Prop} :
    (read8 a).Holds post cpu ↔ ∀ v : Byte, post v cpu [cycle a 3, readOf .data a v] := by
  simp [read8]

@[simp] theorem holds_write8 (a : Word) (v : Byte) {post : Unit → Cpu → Path → Prop} :
    (write8 a v).Holds post cpu ↔ post () cpu [cycle a 3, writeOf a v] := by
  simp [write8]

@[simp] theorem holds_fetchOpcode {post : Byte → Cpu → Path → Prop} :
    fetchOpcode.Holds post cpu ↔
      ∀ v : Byte, post v { cpu with regs := Registers.incR { cpu.regs with pc := cpu.regs.pc + 1 } }
        [cycle cpu.regs.pc 4, readOf .fetch cpu.regs.pc v] := by
  simp [fetchOpcode]

@[simp] theorem holds_fetchImmediate {post : Byte → Cpu → Path → Prop} :
    fetchImmediate.Holds post cpu ↔
      ∀ v : Byte, post v { cpu with regs := { cpu.regs with pc := cpu.regs.pc + 1 } }
        [cycle cpu.regs.pc 3, readOf .fetch cpu.regs.pc v] := by
  simp [fetchImmediate]

@[simp] theorem holds_fetchImmediate16 {post : Word → Cpu → Path → Prop} :
    fetchImmediate16.Holds post cpu ↔
      ∀ low high : Byte,
        post (word high low) { cpu with regs := { cpu.regs with pc := cpu.regs.pc + 1 + 1 } }
          [cycle cpu.regs.pc 3, readOf .fetch cpu.regs.pc low,
            cycle (cpu.regs.pc + 1) 3, readOf .fetch (cpu.regs.pc + 1) high] := by
  simp [fetchImmediate16]

@[simp] theorem holds_ioIn (port : Word) {post : Byte → Cpu → Path → Prop} :
    (ioIn port).Holds post cpu ↔ ∀ v : Byte, post v cpu [cycle port 4, ioReadOf port v] := by
  simp [ioIn]

@[simp] theorem holds_ioOut (port : Word) (v : Byte) {post : Unit → Cpu → Path → Prop} :
    (ioOut port v).Holds post cpu ↔ post () cpu [cycle port 4, ioWriteOf port v] := by
  simp [ioOut]

@[simp] theorem holds_push16 (v : Word) {post : Unit → Cpu → Path → Prop} :
    (push16 v).Holds post cpu ↔
      post () { cpu with regs := { cpu.regs with sp := cpu.regs.sp - 1 - 1 } }
        [cycle (cpu.regs.sp - 1) 3, writeOf (cpu.regs.sp - 1) (hi v),
          cycle (cpu.regs.sp - 1 - 1) 3, writeOf (cpu.regs.sp - 1 - 1) (lo v)] := by
  simp [push16]

@[simp] theorem holds_pop16 {post : Word → Cpu → Path → Prop} :
    pop16.Holds post cpu ↔
      ∀ low high : Byte,
        post (word high low) { cpu with regs := { cpu.regs with sp := cpu.regs.sp + 1 + 1 } }
          [cycle cpu.regs.sp 3, readOf .data cpu.regs.sp low,
            cycle (cpu.regs.sp + 1) 3, readOf .data (cpu.regs.sp + 1) high] := by
  simp [pop16]

@[simp] theorem holds_aluAdd (v : Byte) (withCarry : Bool) {post : Unit → Cpu → Path → Prop} :
    (aluAdd v withCarry).Holds post cpu ↔
      post () (cpu.flagged { cpu.regs with
          a := lo (addSum cpu.regs.a v (carryIn withCarry cpu.regs.flags))
          flags := addFlags cpu.regs.a v (carryIn withCarry cpu.regs.flags) }) [] := Iff.rfl

@[simp] theorem holds_aluSub (v : Byte) (withCarry : Bool) {post : Unit → Cpu → Path → Prop} :
    (aluSub v withCarry).Holds post cpu ↔
      post () (cpu.flagged { cpu.regs with
          a := lo (subDiff cpu.regs.a v (carryIn withCarry cpu.regs.flags))
          flags := subFlags cpu.regs.a v (carryIn withCarry cpu.regs.flags) }) [] := Iff.rfl

@[simp] theorem holds_aluCp (v : Byte) {post : Unit → Cpu → Path → Prop} :
    (aluCp v).Holds post cpu ↔
      post () (cpu.flagged { cpu.regs with flags := cpFlags cpu.regs.a v }) [] := Iff.rfl

@[simp] theorem holds_aluAnd (v : Byte) {post : Unit → Cpu → Path → Prop} :
    (aluAnd v).Holds post cpu ↔
      post () (cpu.flagged { cpu.regs with
          a := cpu.regs.a &&& v
          flags := sz53pOf (cpu.regs.a &&& v) ||| hf }) [] := Iff.rfl

@[simp] theorem holds_aluOr (v : Byte) {post : Unit → Cpu → Path → Prop} :
    (aluOr v).Holds post cpu ↔
      post () (cpu.flagged { cpu.regs with
          a := cpu.regs.a ||| v
          flags := sz53pOf (cpu.regs.a ||| v) }) [] := Iff.rfl

@[simp] theorem holds_aluXor (v : Byte) {post : Unit → Cpu → Path → Prop} :
    (aluXor v).Holds post cpu ↔
      post () (cpu.flagged { cpu.regs with
          a := cpu.regs.a ^^^ v
          flags := sz53pOf (cpu.regs.a ^^^ v) }) [] := Iff.rfl

@[simp] theorem holds_aluInc (v : Byte) {post : Byte → Cpu → Path → Prop} :
    (aluInc v).Holds post cpu ↔
      post (v + 1) (cpu.flagged { cpu.regs with
          flags := incFlags cpu.regs.flags (v + 1) }) [] := Iff.rfl

@[simp] theorem holds_aluDec (v : Byte) {post : Byte → Cpu → Path → Prop} :
    (aluDec v).Holds post cpu ↔
      post (v - 1) (cpu.flagged { cpu.regs with
          flags := decFlags cpu.regs.flags (v - 1) }) [] := Iff.rfl

@[simp] theorem holds_aluDaa {post : Unit → Cpu → Path → Prop} :
    aluDaa.Holds post cpu ↔
      post () (cpu.flagged { cpu.regs with
          a := daaResult cpu.regs.a cpu.regs.flags
          flags := daaFlags cpu.regs.a cpu.regs.flags }) [] := Iff.rfl

@[simp] theorem holds_aluAdd16 (dest v : Word) {post : Word → Cpu → Path → Prop} :
    (aluAdd16 dest v).Holds post cpu ↔
      post ((add16Sum dest v).setWidth 16)
        (cpu.flagged { cpu.regs with flags := add16Flags cpu.regs.flags dest v, wz := dest + 1 })
        (idleCycles cpu.regs.refreshAddress 7) := by
  simp [aluAdd16]

@[simp] theorem holds_aluAdc16 (v : Word) {post : Unit → Cpu → Path → Prop} :
    (aluAdc16 v).Holds post cpu ↔
      post () (cpu.flagged (Registers.setHl
          ((adc16Sum cpu.regs.flags cpu.regs.hl v).setWidth 16)
          { cpu.regs with flags := adc16Flags cpu.regs.flags cpu.regs.hl v, wz := cpu.regs.hl + 1 }))
        (idleCycles cpu.regs.refreshAddress 7) := by
  simp [aluAdc16]

@[simp] theorem holds_aluSbc16 (v : Word) {post : Unit → Cpu → Path → Prop} :
    (aluSbc16 v).Holds post cpu ↔
      post () (cpu.flagged (Registers.setHl
          ((sbc16Diff cpu.regs.flags cpu.regs.hl v).setWidth 16)
          { cpu.regs with flags := sbc16Flags cpu.regs.flags cpu.regs.hl v, wz := cpu.regs.hl + 1 }))
        (idleCycles cpu.regs.refreshAddress 7) := by
  simp [aluSbc16]

@[simp] theorem holds_storeRotatedA (a c : Byte) {post : Unit → Cpu → Path → Prop} :
    (storeRotatedA a c).Holds post cpu ↔
      post () (cpu.flagged { cpu.regs with
        a := a
        flags := orIf (c != 0) cf (cpu.regs.flags &&& (sf ||| zf ||| pf)) |||
          (a &&& (yf ||| xf)) }) [] := Iff.rfl

@[simp] theorem holds_shifted (r c : Byte) {post : Byte → Cpu → Path → Prop} :
    (shifted r c).Holds post cpu ↔
      post r (cpu.flagged { cpu.regs with flags := orIf (c != 0) cf (sz53pOf r) }) [] := Iff.rfl

@[simp] theorem midField_lt (op : Byte) : midField op < 8 := by
  have bound := BitVec.toNat_and (op >>> 3) 7#8
  rw [midField, bound]
  exact Nat.lt_succ_of_le Nat.and_le_right

/-- The result and the carry of the shift that bits 5..3 select. -/
def shiftOutcome (operation : Nat) (flags v : Byte) : Byte × Byte :=
  match operation with
  | 0 => ((v <<< 1) ||| ((v >>> 7) &&& 1#8), (v >>> 7) &&& 1#8)
  | 1 => ((v >>> 1) ||| ((v &&& 1#8) <<< 7), v &&& 1#8)
  | 2 => ((v <<< 1) ||| oldCarry flags, (v >>> 7) &&& 1#8)
  | 3 => ((v >>> 1) ||| (oldCarry flags <<< 7), v &&& 1#8)
  | 4 => (v <<< 1, (v >>> 7) &&& 1#8)
  | 5 => ((v >>> 1) ||| (v &&& 0x80#8), v &&& 1#8)
  | 6 => ((v <<< 1) ||| 1#8, (v >>> 7) &&& 1#8)
  | _ => (v >>> 1, v &&& 1#8)

@[simp] theorem holds_shiftOp (operation : Nat) (bound : operation < 8) (v : Byte)
    {post : Byte → Cpu → Path → Prop} :
    (shiftOp operation v).Holds post cpu ↔
      post (shiftOutcome operation cpu.regs.flags v).1 (cpu.flagged { cpu.regs with
        flags := orIf ((shiftOutcome operation cpu.regs.flags v).2 != 0) cf
          (sz53pOf (shiftOutcome operation cpu.regs.flags v).1) }) [] := by
  interval_cases operation <;> exact Iff.rfl

@[simp] theorem holds_cbBit (bit : Nat) (v flagSource : Byte) {post : Unit → Cpu → Path → Prop} :
    (cbBit bit v flagSource).Holds post cpu ↔
      post () (cpu.flagged { cpu.regs with
        flags := bitFlags cpu.regs.flags bit v flagSource }) [] := Iff.rfl

/-- A and the flags after the operation that bits 5..3 select. -/
def aluOutcome (operation : Nat) (a flags v : Byte) : Byte × Byte :=
  match operation with
  | 0 => (lo (addSum a v 0), addFlags a v 0)
  | 1 => (lo (addSum a v (carryIn true flags)), addFlags a v (carryIn true flags))
  | 2 => (lo (subDiff a v 0), subFlags a v 0)
  | 3 => (lo (subDiff a v (carryIn true flags)), subFlags a v (carryIn true flags))
  | 4 => (a &&& v, sz53pOf (a &&& v) ||| hf)
  | 5 => (a ^^^ v, sz53pOf (a ^^^ v))
  | 6 => (a ||| v, sz53pOf (a ||| v))
  | _ => (a, cpFlags a v)

@[simp] theorem holds_aluOp (operation : Nat) (bound : operation < 8) (v : Byte)
    {post : Unit → Cpu → Path → Prop} :
    (aluOp operation v).Holds post cpu ↔
      post () (cpu.flagged { cpu.regs with
        a := (aluOutcome operation cpu.regs.a cpu.regs.flags v).1
        flags := (aluOutcome operation cpu.regs.a cpu.regs.flags v).2 }) [] := by
  interval_cases operation <;> exact Iff.rfl

def preludeLength (op : Byte) : Nat :=
  (if op &&& 0xCF#8 = 0x03#8 ∨ op &&& 0xCF#8 = 0x0B#8 ∨ op = 0xF9#8 then 2 else 0) +
    (if op &&& 0xC7#8 = 0xC0#8 ∨ op &&& 0xCF#8 = 0xC5#8 then 1 else 0)

@[simp] theorem holds_opcodePrelude (op : Byte) {post : Unit → Cpu → Path → Prop} :
    (opcodePrelude op).Holds post cpu ↔
      post () cpu (idleCycles cpu.regs.refreshAddress (preludeLength op)) := by
  unfold opcodePrelude preludeLength
  split <;> split <;> simp [List.replicate]

end Rules
end Z80f
