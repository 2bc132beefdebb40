import Z80f.Encoding.Instruction
import Z80f.Isa.Instruction

/-! # From bytes to instructions

An opcode is a row and a column of a table: bits 7 and 6 choose the table, 5 to
3 the row and 2 to 0 the column.  Behind an index prefix the same tables are
read with IX or IY for HL, and with the halves of it for H and L unless there is
an operand in memory. -/

set_option autoImplicit false

namespace Z80f.Isa

/-- What the table entries that say HL, H, L and (HL) stand for. -/
structure Names where
  wide : Reg16 := .hl
  high : Reg8 := .h
  low : Reg8 := .l
  place : Place := .hl

namespace Names

def reg8 (names : Names) : Nat → Reg8
  | 0 => .b
  | 1 => .c
  | 2 => .d
  | 3 => .e
  | 4 => names.high
  | 5 => names.low
  | _ => .a

def operand (names : Names) : Nat → Operand
  | 6 => .mem names.place
  | row => .reg (names.reg8 row)

def reg16 (names : Names) : Nat → Reg16
  | 0 => .bc
  | 1 => .de
  | 2 => names.wide
  | _ => .sp

/-- PUSH and POP have AF in the place of SP. -/
def stacked (names : Names) : Nat → Reg16
  | 3 => .af
  | row => names.reg16 row

end Names

def conditionOf : Nat → Condition
  | 0 => .nz
  | 1 => .z
  | 2 => .nc
  | 3 => .c
  | 4 => .po
  | 5 => .pe
  | 6 => .p
  | _ => .m

def aluOf : Nat → AluOp
  | 0 => .add
  | 1 => .adc
  | 2 => .sub
  | 3 => .sbc
  | 4 => .and
  | 5 => .xor
  | 6 => .or
  | _ => .cp

def shiftOf : Nat → ShiftOp
  | 0 => .rlc
  | 1 => .rrc
  | 2 => .rl
  | 3 => .rr
  | 4 => .sla
  | 5 => .sra
  | 6 => .sll
  | _ => .srl

/-- The bytes behind an opcode; what they lack or have too much makes them no instruction. -/
abbrev Grammar : Type := List Byte → Option Instruction

def alone (instruction : Instruction) : Grammar
  | [] => some instruction
  | _ => none

def withByte (make : Byte → Instruction) : Grammar
  | [n] => some (make n)
  | _ => none

def withWord (make : Word → Instruction) : Grammar
  | [low, high] => some (make (word high low))
  | _ => none

/-- What comes after the first byte depends on it. -/
def headed (rest : Byte → Grammar) : Grammar
  | [] => none
  | n :: bytes => rest n bytes

/-! ## The tables -/

section Tables
variable (names : Names) (row : Nat)

/-- The columns of 0x00 to 0x3F. -/
def firstTable : Nat → Grammar
  | 0 =>
      match row with
      | 0 => alone .nop
      | 1 => alone .exAf
      | 2 => withByte .djnz
      | 3 => withByte (.jr none)
      | _ => withByte (.jr (some (conditionOf (row - 4))))
  | 1 =>
      if row % 2 = 0 then withWord (.ld16 (names.reg16 (row / 2)))
      else alone (.add16 names.wide (names.reg16 (row / 2)))
  | 2 =>
      match row with
      | 0 => alone (.storeA .bc)
      | 1 => alone (.loadA .bc)
      | 2 => alone (.storeA .de)
      | 3 => alone (.loadA .de)
      | 4 => withWord fun nn => .store16 nn names.wide
      | 5 => withWord fun nn => .load16 names.wide nn
      | 6 => withWord fun nn => .storeA (.at nn)
      | _ => withWord fun nn => .loadA (.at nn)
  | 3 =>
      alone (if row % 2 = 0 then .inc16 (names.reg16 (row / 2)) else .dec16 (names.reg16 (row / 2)))
  | 4 => alone (.inc (names.operand row))
  | 5 => alone (.dec (names.operand row))
  | 6 => withByte fun n => .ld (names.operand row) (.imm n)
  | _ =>
      match row with
      | 0 => alone (.rotateA .rlc)
      | 1 => alone (.rotateA .rrc)
      | 2 => alone (.rotateA .rl)
      | 3 => alone (.rotateA .rr)
      | 4 => alone .daa
      | 5 => alone .cpl
      | 6 => alone .scf
      | _ => alone .ccf

/-- 0x40 to 0x7F: the place of `LD (HL),(HL)` is taken by HALT. -/
def loadTable (column : Nat) : Grammar :=
  if row = 6 ∧ column = 6 then alone .halt
  else alone (.ld (names.operand row) (.from (names.operand column)))

/-- 0x80 to 0xBF. -/
def aluTable (column : Nat) : Grammar :=
  alone (.alu (aluOf row) (.from (names.operand column)))

/-- The columns of 0xC0 to 0xFF; the four prefixes stand for no instruction here. -/
def lastTable : Nat → Grammar
  | 0 => alone (.ret (some (conditionOf row)))
  | 1 =>
      match row with
      | 1 => alone (.ret none)
      | 3 => alone .exx
      | 5 => alone (.jpReg names.wide)
      | 7 => alone (.ldSp names.wide)
      | _ => alone (.pop (names.stacked (row / 2)))
  | 2 => withWord (.jp (some (conditionOf row)))
  | 3 =>
      match row with
      | 0 => withWord (.jp none)
      | 2 => withByte .outA
      | 3 => withByte .inA
      | 4 => alone (.exSp names.wide)
      | 5 => alone .exDeHl
      | 6 => alone .di
      | 7 => alone .ei
      | _ => fun _ => none
  | 4 => withWord (.call (some (conditionOf row)))
  | 5 =>
      match row with
      | 1 => withWord (.call none)
      | 3 | 5 | 7 => fun _ => none
      | _ => alone (.push (names.stacked (row / 2)))
  | 6 => withByte fun n => .alu (aluOf row) (.imm n)
  | _ => alone (.rst (BitVec.ofNat 16 (8 * row)))

def mainTable (op : Byte) : Grammar :=
  match kindField op with
  | 0 => firstTable names (midField op) (regField op)
  | 1 => loadTable names (midField op) (regField op)
  | 2 => aluTable names (midField op) (regField op)
  | _ => lastTable names (midField op) (regField op)

end Tables

/-- Row 6 of the registers, which no IN or OUT has. -/
def portReg (row : Nat) : Option Reg8 := if row = 6 then none else some (Names.reg8 {} row)

def blockOf : Nat → BlockOp
  | 0 => .move
  | 1 => .search
  | 2 => .input
  | _ => .output

/-- Behind ED: what the table has no entry for does nothing. -/
def extendedTable (op : Byte) : Grammar :=
  let row := midField op
  match kindField op with
  | 1 =>
      match regField op with
      | 0 => alone (.inC (portReg row))
      | 1 => alone (.outC (portReg row))
      | 2 =>
          if row % 2 = 0 then alone (.sbc16 (Names.reg16 {} (row / 2)))
          else alone (.adc16 (Names.reg16 {} (row / 2)))
      | 3 =>
          if row % 2 = 0 then withWord fun nn => .store16 nn (Names.reg16 {} (row / 2))
          else withWord (.load16 (Names.reg16 {} (row / 2)))
      | 4 => alone .neg
      | 5 => alone .retn
      | 6 => alone (.im (if row % 4 = 2 then 1 else if row % 4 = 3 then 2 else 0))
      | _ =>
          match row with
          | 0 => alone .ldIA
          | 1 => alone .ldRA
          | 2 => alone .ldAI
          | 3 => alone .ldAR
          | 4 => alone .rrd
          | 5 => alone .rld
          | _ => alone .nop
  | 2 =>
      if regField op < 4 ∧ 4 ≤ row then
        let direction := if row % 2 = 0 then .up else .down
        alone (.block (blockOf (regField op)) direction (decide (6 ≤ row)))
      else alone .nop
  | _ => alone .nop

def bitTable (operand : Operand) (copy : Option Reg8) (op : Byte) : Instruction :=
  match kindField op with
  | 0 => .shift (shiftOf (midField op)) operand copy
  | 1 => .bit (midField op) operand
  | 2 => .res (midField op) operand copy
  | _ => .set (midField op) operand copy

/-- An opcode behind an index prefix: a displacement comes before the other operands. -/
def indexedTable (x : IndexReg) (op : Byte) : Grammar :=
  if hasHlOperand op then headed fun d => mainTable { wide := .index x, place := .indexed x d } op
  else mainTable { wide := .index x, high := .high x, low := .low x } op

structure Decoded where
  instruction : Instruction
  /-- How many of the bytes are opcodes, prefixes included. -/
  opcodes : Nat
  prefixed : Bool

def Decoded.behindOpcode (decoded : Decoded) : Decoded :=
  { decoded with opcodes := decoded.opcodes + 1 }

def Decoded.behindPrefix (decoded : Decoded) : Decoded := { decoded with prefixed := true }

def decoded (opcodes : Nat) (found : Option Instruction) : Option Decoded :=
  found.map fun instruction => { instruction := instruction, opcodes := opcodes, prefixed := false }

def decodePlain (op : Byte) (rest : List Byte) : Option Decoded :=
  if op = 0xCB#8 then
    decoded 1 <| (headed fun code =>
      alone (bitTable (Names.operand {} (regField code)) none code)) rest
  else if op = 0xED#8 then decoded 1 (headed extendedTable rest)
  else decoded 0 (mainTable {} op rest)

/-- The same behind the prefix of `x`; the opcode behind DDCB and FDCB is not fetched as one. -/
def decodeIndexed (x : IndexReg) (op : Byte) (rest : List Byte) : Option Decoded :=
  if op = 0xED#8 then decodePlain op rest
  else if op = 0xCB#8 then
    decoded 0 <| (headed fun d => headed fun code =>
      alone (bitTable (.mem (.indexed x d)) (portReg (regField code)) code)) rest
  else decoded 0 (indexedTable x op rest)

/-- Of several prefixes the last one counts. -/
def decodePrefixed (x : IndexReg) : List Byte → Option Decoded
  | [] => none
  | op :: rest =>
      Option.map Decoded.behindOpcode <|
        if isIndexPrefix op then decodePrefixed (prefixReg op) rest else decodeIndexed x op rest

def decodeBehind (op : Byte) (rest : List Byte) : Option Decoded :=
  if isIndexPrefix op then (decodePrefixed (prefixReg op) rest).map Decoded.behindPrefix
  else decodePlain op rest

/-- The instruction that these bytes are, no fewer and no more. -/
def decode : List Byte → Option Decoded
  | [] => none
  | op :: rest => (decodeBehind op rest).map Decoded.behindOpcode

/-- `LD (IY+5),7` behind a prefix that does not count. -/
example : (decode [0xDD, 0xFD, 0x36, 5, 7]).map Decoded.instruction =
    some (.ld (.mem (.indexed .iy 5)) (.imm 7)) := rfl

/-- The registers once the bytes of an instruction are fetched. -/
def Decoded.fetched (decoded : Decoded) (bytes : List Byte) (r : Registers) : Registers :=
  { r with
    pc := r.pc + BitVec.ofNat 16 bytes.length
    r := advanceR decoded.opcodes r.r
    eiPending := false
    q := 0 }

/-- The state after the instruction `bytes`; a prefix forgets what the last one left in Q. -/
def interpret (bytes : List Byte) (input : Byte) (s : State) : Option State :=
  (decode bytes).map fun decoded =>
    decoded.instruction.exec (if decoded.prefixed then 0 else s.regs.q) input
      (s.onRegs (decoded.fetched bytes))

end Z80f.Isa
