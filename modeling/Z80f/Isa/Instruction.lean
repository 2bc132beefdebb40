import Z80f.Block.InputOutput
import Z80f.Isa.Status

/-! # Instructions and what they mean

The instruction set as a program sees it: no machine cycles and no opcodes, but
operands and their effect on registers, memory and ports.  WZ and Q belong to
it, because BIT, SCF and CCF show them in F. -/

set_option autoImplicit false

namespace Z80f.Isa

open Flags

inductive Reg8 where
  | b
  | c
  | d
  | e
  | h
  | l
  | a
  | high (x : IndexReg)
  | low (x : IndexReg)

inductive Reg16 where
  | bc
  | de
  | hl
  | sp
  | af
  | index (x : IndexReg)

/-- `(HL)`, `(IX+d)` and `(IY+d)`. -/
inductive Place where
  | hl
  | indexed (x : IndexReg) (d : Byte)

inductive Operand where
  | reg (r : Reg8)
  | mem (place : Place)

inductive Source where
  | from (operand : Operand)
  | imm (n : Byte)

/-- Where `LD A` and its inverse find the address. -/
inductive Pointer where
  | bc
  | de
  | at (nn : Word)

inductive Condition where
  | nz
  | z
  | nc
  | c
  | po
  | pe
  | p
  | m

inductive AluOp where
  | add
  | adc
  | sub
  | sbc
  | and
  | xor
  | or
  | cp

inductive BlockOp where
  | move
  | search
  | input
  | output

inductive Instruction where
  | nop
  | halt
  | di
  | ei
  | im (mode : Byte)
  | ld (dst : Operand) (src : Source)
  | loadA (pointer : Pointer)
  | storeA (pointer : Pointer)
  | ld16 (dst : Reg16) (nn : Word)
  | load16 (dst : Reg16) (nn : Word)
  | store16 (nn : Word) (src : Reg16)
  | ldSp (src : Reg16)
  | ldIA
  | ldRA
  | ldAI
  | ldAR
  | push (src : Reg16)
  | pop (dst : Reg16)
  | exAf
  | exx
  | exDeHl
  | exSp (reg : Reg16)
  | alu (op : AluOp) (src : Source)
  | inc (operand : Operand)
  | dec (operand : Operand)
  | inc16 (reg : Reg16)
  | dec16 (reg : Reg16)
  | add16 (dst src : Reg16)
  | adc16 (src : Reg16)
  | sbc16 (src : Reg16)
  | rotateA (op : ShiftOp)
  | daa
  | cpl
  | scf
  | ccf
  | neg
  | rrd
  | rld
  | shift (op : ShiftOp) (operand : Operand) (copy : Option Reg8)
  | bit (n : Nat) (operand : Operand)
  | res (n : Nat) (operand : Operand) (copy : Option Reg8)
  | set (n : Nat) (operand : Operand) (copy : Option Reg8)
  | jp (condition : Option Condition) (nn : Word)
  | jpReg (reg : Reg16)
  | jr (condition : Option Condition) (d : Byte)
  | djnz (d : Byte)
  | call (condition : Option Condition) (nn : Word)
  | ret (condition : Option Condition)
  | rst (target : Word)
  | retn
  | inA (n : Byte)
  | outA (n : Byte)
  | inC (dst : Option Reg8)
  | outC (src : Option Reg8)
  | block (op : BlockOp) (direction : Direction) (repeats : Bool)

/-! ## The state of a program -/

structure State where
  regs : Registers
  memory : Memory
  /-- The latest access first. -/
  ports : Path

namespace State

def onRegs (f : Registers → Registers) (s : State) : State := { s with regs := f s.regs }

def store (address : Word) (value : Byte) (s : State) : State :=
  { s with memory := Function.update s.memory address value }

def record (access : Sigma Answer) (s : State) : State := { s with ports := access :: s.ports }

/-- Flags that are computed stay in Q. -/
def setFlags (f : Byte) (s : State) : State := s.onRegs fun r => { r with flags := f, q := f }

def push (v : Word) (s : State) : State :=
  let s := (s.store (s.regs.sp - 1) (hi v)).store (s.regs.sp - 1 - 1) (lo v)
  s.onRegs fun r => { r with sp := r.sp - 1 - 1 }

def top (s : State) : Word := word (s.memory (s.regs.sp + 1)) (s.memory s.regs.sp)

def pop (s : State) : State := s.onRegs fun r => { r with sp := r.sp + 1 + 1 }

def jump (target : Word) (s : State) : State :=
  s.onRegs fun r => { r with pc := target, wz := target }

end State

namespace Reg8

def get (r : Registers) : Reg8 → Byte
  | .b => r.b
  | .c => r.c
  | .d => r.d
  | .e => r.e
  | .h => r.h
  | .l => r.l
  | .a => r.a
  | .high x => hi (r.index x)
  | .low x => lo (r.index x)

def set (v : Byte) (reg : Reg8) (r : Registers) : Registers :=
  match reg with
  | .b => { r with b := v }
  | .c => { r with c := v }
  | .d => { r with d := v }
  | .e => { r with e := v }
  | .h => { r with h := v }
  | .l => { r with l := v }
  | .a => { r with a := v }
  | .high x => r.setIndex x (word v (lo (r.index x)))
  | .low x => r.setIndex x (word (hi (r.index x)) v)

end Reg8

namespace Reg16

def get (r : Registers) : Reg16 → Word
  | .bc => r.bc
  | .de => r.de
  | .hl => r.hl
  | .sp => r.sp
  | .af => r.af
  | .index x => r.index x

def set (v : Word) (reg : Reg16) (r : Registers) : Registers :=
  match reg with
  | .bc => r.setBc v
  | .de => r.setDe v
  | .hl => r.setHl v
  | .sp => { r with sp := v }
  | .af => r.setAf v
  | .index x => r.setIndex x v

end Reg16

namespace Place

def address (r : Registers) : Place → Word
  | .hl => r.hl
  | .indexed x d => r.index x + BitVec.ofInt 16 d.toInt

/-- An indexed address stays in WZ. -/
def enter (r : Registers) : Place → Registers
  | .hl => r
  | .indexed x d => { r with wz := r.index x + BitVec.ofInt 16 d.toInt }

end Place

namespace Operand

def enter (s : State) : Operand → State
  | .reg _ => s
  | .mem place => s.onRegs place.enter

def get (s : State) : Operand → Byte
  | .reg r => r.get s.regs
  | .mem place => s.memory (place.address s.regs)

def put (v : Byte) (operand : Operand) (s : State) : State :=
  match operand with
  | .reg r => s.onRegs (r.set v)
  | .mem place => s.store (place.address s.regs) v

/-- What BIT shows in Y and X. -/
def shown (s : State) : Operand → Byte
  | .reg r => r.get s.regs
  | .mem _ => hi s.regs.wz

end Operand

namespace Source

def enter (s : State) : Source → State
  | .from operand => operand.enter s
  | .imm _ => s

def get (s : State) : Source → Byte
  | .from operand => operand.get s
  | .imm n => n

end Source

def Pointer.address (r : Registers) : Pointer → Word
  | .bc => r.bc
  | .de => r.de
  | .at nn => nn

def Condition.holds (f : Byte) : Condition → Bool
  | .nz => !zero f
  | .z => zero f
  | .nc => !carry f
  | .c => carry f
  | .po => !parityOverflow f
  | .pe => parityOverflow f
  | .p => !sign f
  | .m => sign f

/-- No condition always holds. -/
def met (f : Byte) (condition : Option Condition) : Bool := condition.all (Condition.holds f)

/-- A copy of the result, for the undocumented forms behind DDCB and FDCB. -/
def copyTo (v : Byte) (s : State) : Option Reg8 → State
  | none => s
  | some reg => s.onRegs (reg.set v)

/-! ## Instructions -/

def AluOp.apply (f a v : Byte) : AluOp → Byte × Byte
  | .add => (sum a v false, sumFlags a v false)
  | .adc => (sum a v (carry f), sumFlags a v (carry f))
  | .sub => (difference a v false, differenceFlags a v false)
  | .sbc => (difference a v (carry f), differenceFlags a v (carry f))
  | .and => (a &&& v, logicFlags (a &&& v) true)
  | .xor => (a ^^^ v, logicFlags (a ^^^ v) false)
  | .or => (a ||| v, logicFlags (a ||| v) false)
  | .cp => (a, comparisonFlags a v)

/-- The next address, or the next value of a counter. -/
def stepped {w : Nat} : Direction → BitVec w → BitVec w
  | .up, v => v + 1
  | .down, v => v - 1

def nibbles (high low : BitVec 4) : Byte := high ++ low

def lowNibbleOf (v : Byte) : BitVec 4 := v.extractLsb' 0 4
def highNibbleOf (v : Byte) : BitVec 4 := v.extractLsb' 4 4

def State.again (s : State) : State := s.onRegs fun r => { r with pc := r.pc - 2 }

def BlockOp.exec (input : Byte) (direction : Direction) (repeats : Bool) (s : State) :
    BlockOp → State
  | .move =>
      let r := s.regs
      let byte := s.memory r.hl
      let left := r.bc - 1
      let s := (s.store r.de byte).onRegs fun r =>
        ((r.setHl (stepped direction r.hl)).setDe (stepped direction r.de)).setBc left
      let s := s.setFlags (moveFlags r.flags r.a byte left)
      if repeats && left != 0 then s.again.onRegs fun r => { r with wz := r.pc + 1 } else s
  | .search =>
      let r := s.regs
      let byte := s.memory r.hl
      let left := r.bc - 1
      let s := s.onRegs fun r =>
        { (r.setHl (stepped direction r.hl)).setBc left with wz := stepped direction r.wz }
      let s := s.setFlags (searchFlags r.flags r.a byte left)
      if repeats && left != 0 && difference r.a byte false != 0 then
        s.again.onRegs fun r => { r with wz := r.pc + 1 }
      else s
  | .input =>
      let r := s.regs
      let left := r.b - 1
      let s := ((s.record (ioReadOf r.bc input)).store r.hl input).onRegs fun r =>
        { r.setHl (stepped direction r.hl) with b := left, wz := stepped direction r.bc }
      let s := s.setFlags (transferFlags left input (input.toNat + (stepped direction r.c).toNat))
      if repeats && left != 0 then s.again else s
  | .output =>
      let r := s.regs
      let byte := s.memory r.hl
      let left := r.b - 1
      let port := word left r.c
      let s := (s.record (ioWriteOf port byte)).onRegs fun r =>
        { r.setHl (stepped direction r.hl) with b := left, wz := stepped direction port }
      let s := s.setFlags (transferFlags left byte (byte.toNat + s.regs.l.toNat))
      if repeats && left != 0 then s.again else s

/-- `q` is what the instruction before left in Q, and `input` the answer of a port. -/
def Instruction.exec (q input : Byte) (s : State) : Instruction → State
  | .nop => s
  | .halt => s.onRegs fun r => { r with halted := true, pc := r.pc - 1 }
  | .di => s.onRegs fun r => { r with iff1 := false, iff2 := false }
  | .ei => s.onRegs fun r => { r with iff1 := true, iff2 := true, eiPending := true }
  | .im mode => s.onRegs fun r => { r with im := mode }
  | .ld dst src =>
      let s := dst.enter (src.enter s)
      dst.put (src.get s) s
  | .loadA pointer =>
      let address := pointer.address s.regs
      s.onRegs fun r => { r with a := s.memory address, wz := address + 1 }
  | .storeA pointer =>
      let address := pointer.address s.regs
      (s.store address s.regs.a).onRegs fun r => { r with wz := word r.a (lo (address + 1)) }
  | .ld16 dst nn => s.onRegs (dst.set nn)
  | .load16 dst nn =>
      let value := word (s.memory (nn + 1)) (s.memory nn)
      s.onRegs fun r => { dst.set value r with wz := nn + 1 }
  | .store16 nn src =>
      let value := src.get s.regs
      ((s.store nn (lo value)).store (nn + 1) (hi value)).onRegs fun r => { r with wz := nn + 1 }
  | .ldSp src => s.onRegs fun r => { r with sp := src.get r }
  | .ldIA => s.onRegs fun r => { r with i := r.a }
  | .ldRA => s.onRegs fun r => { r with r := r.a }
  | .ldAI =>
      let v := s.regs.i
      (s.onRegs fun r => { r with a := v }).setFlags (shownFlags s.regs.flags v s.regs.iff2)
  | .ldAR =>
      let v := s.regs.r
      (s.onRegs fun r => { r with a := v }).setFlags (shownFlags s.regs.flags v s.regs.iff2)
  | .push src => s.push (src.get s.regs)
  | .pop dst => s.pop.onRegs (dst.set s.top)
  | .exAf => s.onRegs fun r => { r with a := r.aAlt, flags := r.fAlt, aAlt := r.a, fAlt := r.flags }
  | .exx => s.onRegs fun r =>
      { r with
        b := r.bAlt, c := r.cAlt, d := r.dAlt, e := r.eAlt, h := r.hAlt, l := r.lAlt
        bAlt := r.b, cAlt := r.c, dAlt := r.d, eAlt := r.e, hAlt := r.h, lAlt := r.l }
  | .exDeHl => s.onRegs fun r => (r.setDe r.hl).setHl r.de
  | .exSp reg =>
      let value := reg.get s.regs
      let s' := (s.store (s.regs.sp + 1) (hi value)).store s.regs.sp (lo value)
      s'.onRegs fun r => { reg.set s.top r with wz := s.top }
  | .alu op src =>
      let s := src.enter s
      let (a, f) := op.apply s.regs.flags s.regs.a (src.get s)
      (s.onRegs fun r => { r with a := a }).setFlags f
  | .inc operand =>
      let s := operand.enter s
      let v := operand.get s
      (operand.put (v + 1) s).setFlags (incrementFlags s.regs.flags v)
  | .dec operand =>
      let s := operand.enter s
      let v := operand.get s
      (operand.put (v - 1) s).setFlags (decrementFlags s.regs.flags v)
  | .inc16 reg => s.onRegs fun r => reg.set (reg.get r + 1) r
  | .dec16 reg => s.onRegs fun r => reg.set (reg.get r - 1) r
  | .add16 dst src =>
      let x := dst.get s.regs
      let y := src.get s.regs
      (s.onRegs fun r => { dst.set (sum x y false) r with wz := x + 1 }).setFlags
        (keptFlags s.regs.flags (sum x y false) (carries x y false 12) false
          (carries x y false 16))
  | .adc16 src =>
      let x := s.regs.hl
      let y := src.get s.regs
      let c := carry s.regs.flags
      (s.onRegs fun r => { r.setHl (sum x y c) with wz := x + 1 }).setFlags (sumFlags x y c)
  | .sbc16 src =>
      let x := s.regs.hl
      let y := src.get s.regs
      let c := carry s.regs.flags
      (s.onRegs fun r => { r.setHl (difference x y c) with wz := x + 1 }).setFlags
        (differenceFlags x y c)
  | .rotateA op =>
      let (a, c) := op.apply (carry s.regs.flags) s.regs.a
      (s.onRegs fun r => { r with a := a }).setFlags (keptFlags s.regs.flags a false false c)
  | .daa =>
      let r := s.regs
      (s.onRegs fun r => { r with a := adjusted r.flags r.a }).setFlags (adjustedFlags r.flags r.a)
  | .cpl =>
      let a := ~~~s.regs.a
      (s.onRegs fun r => { r with a := a }).setFlags
        (keptFlags s.regs.flags a true true (carry s.regs.flags))
  | .scf =>
      let r := s.regs
      s.setFlags (keptFlags r.flags ((r.flags ^^^ q) ||| r.a) false false true)
  | .ccf =>
      let r := s.regs
      s.setFlags (keptFlags r.flags ((r.flags ^^^ q) ||| r.a) (carry r.flags) false
        (!carry r.flags))
  | .neg =>
      let a := s.regs.a
      (s.onRegs fun r => { r with a := 0 - a }).setFlags (differenceFlags 0 a false)
  | .rrd =>
      let r := s.regs
      let m := s.memory r.hl
      let a := nibbles (highNibbleOf r.a) (lowNibbleOf m)
      let s := s.store r.hl (nibbles (lowNibbleOf r.a) (highNibbleOf m))
      (s.onRegs fun r => { r with a := a, wz := r.hl + 1 }).setFlags
        (shownFlags r.flags a (evenParity a))
  | .rld =>
      let r := s.regs
      let m := s.memory r.hl
      let a := nibbles (highNibbleOf r.a) (highNibbleOf m)
      let s := s.store r.hl (nibbles (lowNibbleOf m) (lowNibbleOf r.a))
      (s.onRegs fun r => { r with a := a, wz := r.hl + 1 }).setFlags
        (shownFlags r.flags a (evenParity a))
  | .shift op operand copy =>
      let s := operand.enter s
      let (v, c) := op.apply (carry s.regs.flags) (operand.get s)
      (copyTo v (operand.put v s) copy).setFlags (resultFlags v false (evenParity v) false c)
  | .bit n operand =>
      let s := operand.enter s
      s.setFlags (testFlags s.regs.flags n (operand.get s) (operand.shown s))
  | .res n operand copy =>
      let s := operand.enter s
      let v := operand.get s &&& ~~~BitVec.twoPow 8 n
      copyTo v (operand.put v s) copy
  | .set n operand copy =>
      let s := operand.enter s
      let v := operand.get s ||| BitVec.twoPow 8 n
      copyTo v (operand.put v s) copy
  | .jp condition nn =>
      if met s.regs.flags condition then s.jump nn else s.onRegs fun r => { r with wz := nn }
  | .jpReg reg => s.onRegs fun r => { r with pc := reg.get r }
  | .jr condition d =>
      if met s.regs.flags condition then s.jump (s.regs.pc + BitVec.ofInt 16 d.toInt) else s
  | .djnz d =>
      let s := s.onRegs fun r => { r with b := r.b - 1 }
      if s.regs.b != 0 then s.jump (s.regs.pc + BitVec.ofInt 16 d.toInt) else s
  | .call condition nn =>
      if met s.regs.flags condition then (s.push s.regs.pc).jump nn
      else s.onRegs fun r => { r with wz := nn }
  | .ret condition => if met s.regs.flags condition then s.pop.jump s.top else s
  | .rst target => (s.push s.regs.pc).jump target
  | .retn => (s.pop.jump s.top).onRegs fun r => { r with iff1 := r.iff2 }
  | .inA n =>
      let port := word s.regs.a n
      (s.record (ioReadOf port input)).onRegs fun r => { r with a := input, wz := port + 1 }
  | .outA n =>
      let port := word s.regs.a n
      (s.record (ioWriteOf port s.regs.a)).onRegs fun r =>
        { r with wz := word r.a (lo (port + 1)) }
  | .inC dst =>
      let s' := (s.record (ioReadOf s.regs.bc input)).onRegs fun r => { r with wz := r.bc + 1 }
      copyTo input (s'.setFlags (shownFlags s.regs.flags input (evenParity input))) dst
  | .outC src =>
      let v := src.elim 0 (Reg8.get s.regs)
      (s.record (ioWriteOf s.regs.bc v)).onRegs fun r => { r with wz := r.bc + 1 }
  | .block op direction repeats => op.exec input direction repeats s

end Z80f.Isa
