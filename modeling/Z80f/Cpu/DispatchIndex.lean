import Z80f.Cpu.Dispatch

/-! # The DD/FD and DDCB/FDCB dispatchers

The index register is a parameter `x` where the source holds a reference. -/

set_option autoImplicit false

namespace Z80f

open Z80M Flags

def ixh (x : IndexReg) : Z80M Byte := do return hi ((← getRegs).index x)

def ixl (x : IndexReg) : Z80M Byte := do return lo ((← getRegs).index x)

/-- `idx = (v << 8) | (idx & 0xFF)`. -/
def setIxh (x : IndexReg) (v : Byte) : Z80M Unit :=
  modifyRegs fun r => r.setIndex x (word v (lo (r.index x)))

/-- `idx = (idx & 0xFF00) | v`. -/
def setIxl (x : IndexReg) (v : Byte) : Z80M Unit :=
  modifyRegs fun r => r.setIndex x ((r.index x &&& 0xFF00#16) ||| v.setWidth 16)

/-- Fetches the displacement; WZ becomes the effective address. -/
def idxAddr (x : IndexReg) : Z80M Word := do
  let d := displacement (← fetchImmediate)
  let a := (← getRegs).index x + d
  modifyRegs fun r => { r with wz := a }
  idle ((← getRegs).pc - 1) 5
  return a

def addIndex (x : IndexReg) (value : Word) : Z80M Unit := do
  let result ← aluAdd16 ((← getRegs).index x) value
  modifyRegs (Registers.setIndex x result)

def incIndex (x : IndexReg) : Z80M Unit := do
  idle (← getRegs).refreshAddress 2
  modifyRegs fun r => r.setIndex x (r.index x + 1)

def decIndex (x : IndexReg) : Z80M Unit := do
  idle (← getRegs).refreshAddress 2
  modifyRegs fun r => r.setIndex x (r.index x - 1)

/-- `case 0x36`: both operand bytes come before the address. -/
def ldIdxImm (x : IndexReg) : Z80M Unit := do
  let d := displacement (← fetchImmediate)
  let n ← fetchImmediate
  let a := (← getRegs).index x + d
  modifyRegs fun r => { r with wz := a }
  idle ((← getRegs).pc - 1) 2
  write8 a n

/-- `LD r,(IX+d)`: 0x66 and 0x6E load the real H and L. -/
def ldRegIdx (x : IndexReg) (dst : Nat) : Z80M Unit := do
  let a ← idxAddr x
  let v ← read8 a
  modifyRegs (Registers.setReg8 dst v)

/-- `LD (IX+d),r`, again with the real H and L. -/
def ldIdxReg (x : IndexReg) (src : Nat) : Z80M Unit := do
  let a ← idxAddr x
  write8 a ((← getRegs).reg8 src)

def pushIndex (x : IndexReg) : Z80M Unit := do
  idle (← getRegs).refreshAddress 1
  push16 ((← getRegs).index x)

def exSpIndex (x : IndexReg) : Z80M Unit := do
  let low ← read8 (← getRegs).sp
  let high ← read8 ((← getRegs).sp + 1)
  idle ((← getRegs).sp + 1) 1
  write8 ((← getRegs).sp + 1) (hi ((← getRegs).index x))
  write8 (← getRegs).sp (lo ((← getRegs).index x))
  idle (← getRegs).sp 2
  modifyRegs (Registers.setIndex x (word high low))
  modifyRegs fun r => { r with wz := r.index x }

def ldSpIndex (x : IndexReg) : Z80M Unit := do
  idle (← getRegs).refreshAddress 2
  modifyRegs fun r => { r with sp := r.index x }

/-- Writes the result to memory and, undocumented, to the named register. -/
def storeIndexCb (a : Word) (reg : Nat) (value : Byte) : Z80M Unit := do
  write8 a value
  if reg ≠ 6 then
    modifyRegs (Registers.setReg8 reg value)

def dispatchIndexCb (x : IndexReg) : Z80M Int := do
  let d := displacement (← fetchImmediate)
  -- not an opcode fetch: R does not move
  let op ← fetchImmediate
  let a := (← getRegs).index x + d
  modifyRegs fun r => { r with wz := a }
  idle ((← getRegs).pc - 1) 2
  let reg := regField op
  let bitOrOp := midField op
  let value ← read8 a
  idle a 1
  if kindField op = 0 then
    storeIndexCb a reg (← shiftOp bitOrOp value)
    return 19
  else if kindField op = 1 then
    cbBit bitOrOp value (hi a)
    return 16
  else if kindField op = 2 then
    storeIndexCb a reg (cbRes bitOrOp value)
    return 19
  else
    storeIndexCb a reg (cbSet bitOrOp value)
    return 19

/-- The switch of `dispatch_index`; `t` is the cost of the prefixes. -/
def indexArm (x : IndexReg) (op : Byte) (t : Int) : Z80M Int :=
  match op with
  | 0x09 => do addIndex x (← getRegs).bc; return t + 11
  | 0x19 => do addIndex x (← getRegs).de; return t + 11
  | 0x29 => do addIndex x ((← getRegs).index x); return t + 11
  | 0x39 => do addIndex x (← getRegs).sp; return t + 11
  | 0x21 => do modifyRegs (Registers.setIndex x (← fetchImmediate16)); return t + 10
  | 0x22 => do store16 (← fetchImmediate16) ((← getRegs).index x); return t + 16
  | 0x2A => do load16 (← fetchImmediate16) (Registers.setIndex x); return t + 16
  | 0x23 => do incIndex x; return t + 6
  | 0x2B => do decIndex x; return t + 6
  | 0x24 => do setIxh x (← aluInc (← ixh x)); return t + 4
  | 0x25 => do setIxh x (← aluDec (← ixh x)); return t + 4
  | 0x26 => do setIxh x (← fetchImmediate); return t + 7
  | 0x2C => do setIxl x (← aluInc (← ixl x)); return t + 4
  | 0x2D => do setIxl x (← aluDec (← ixl x)); return t + 4
  | 0x2E => do setIxl x (← fetchImmediate); return t + 7
  | 0x34 => do updateMem aluInc (← idxAddr x); return t + 19
  | 0x35 => do updateMem aluDec (← idxAddr x); return t + 19
  | 0x36 => do ldIdxImm x; return t + 15
  | 0x46 | 0x4E | 0x56 | 0x5E | 0x66 | 0x6E | 0x7E => do ldRegIdx x (midField op); return t + 15
  | 0x70 | 0x71 | 0x72 | 0x73 | 0x74 | 0x75 | 0x77 => do ldIdxReg x (regField op); return t + 15
  | 0x86 => do aluAdd (← read8 (← idxAddr x)) false; return t + 15
  | 0x8E => do aluAdd (← read8 (← idxAddr x)) true; return t + 15
  | 0x96 => do aluSub (← read8 (← idxAddr x)) false; return t + 15
  | 0x9E => do aluSub (← read8 (← idxAddr x)) true; return t + 15
  | 0xA6 => do aluAnd (← read8 (← idxAddr x)); return t + 15
  | 0xAE => do aluXor (← read8 (← idxAddr x)); return t + 15
  | 0xB6 => do aluOr (← read8 (← idxAddr x)); return t + 15
  | 0xBE => do aluCp (← read8 (← idxAddr x)); return t + 15
  | 0xCB => do let cost ← dispatchIndexCb x; return t + cost
  | 0xE1 => do modifyRegs (Registers.setIndex x (← pop16)); return t + 10
  | 0xE5 => do pushIndex x; return t + 11
  | 0xE3 => do exSpIndex x; return t + 19
  | 0xE9 => do modifyRegs (fun r => { r with pc := r.index x }); return t + 4
  | 0xF9 => do ldSpIndex x; return t + 6
  | 0x60 => do setIxh x (← getRegs).b; return t + 4
  | 0x61 => do setIxh x (← getRegs).c; return t + 4
  | 0x62 => do setIxh x (← getRegs).d; return t + 4
  | 0x63 => do setIxh x (← getRegs).e; return t + 4
  | 0x64 => do setIxh x (← ixh x); return t + 4
  | 0x65 => do setIxh x (← ixl x); return t + 4
  | 0x67 => do setIxh x (← getRegs).a; return t + 4
  | 0x68 => do setIxl x (← getRegs).b; return t + 4
  | 0x69 => do setIxl x (← getRegs).c; return t + 4
  | 0x6A => do setIxl x (← getRegs).d; return t + 4
  | 0x6B => do setIxl x (← getRegs).e; return t + 4
  | 0x6C => do setIxl x (← ixh x); return t + 4
  | 0x6D => do setIxl x (← ixl x); return t + 4
  | 0x6F => do setIxl x (← getRegs).a; return t + 4
  | 0x44 => do let v ← ixh x; modifyRegs fun r => { r with b := v }; return t + 4
  | 0x45 => do let v ← ixl x; modifyRegs fun r => { r with b := v }; return t + 4
  | 0x4C => do let v ← ixh x; modifyRegs fun r => { r with c := v }; return t + 4
  | 0x4D => do let v ← ixl x; modifyRegs fun r => { r with c := v }; return t + 4
  | 0x54 => do let v ← ixh x; modifyRegs fun r => { r with d := v }; return t + 4
  | 0x55 => do let v ← ixl x; modifyRegs fun r => { r with d := v }; return t + 4
  | 0x5C => do let v ← ixh x; modifyRegs fun r => { r with e := v }; return t + 4
  | 0x5D => do let v ← ixl x; modifyRegs fun r => { r with e := v }; return t + 4
  | 0x7C => do let v ← ixh x; modifyRegs fun r => { r with a := v }; return t + 4
  | 0x7D => do let v ← ixl x; modifyRegs fun r => { r with a := v }; return t + 4
  | 0x84 => do aluAdd (← ixh x) false; return t + 4
  | 0x85 => do aluAdd (← ixl x) false; return t + 4
  | 0x8C => do aluAdd (← ixh x) true; return t + 4
  | 0x8D => do aluAdd (← ixl x) true; return t + 4
  | 0x94 => do aluSub (← ixh x) false; return t + 4
  | 0x95 => do aluSub (← ixl x) false; return t + 4
  | 0x9C => do aluSub (← ixh x) true; return t + 4
  | 0x9D => do aluSub (← ixl x) true; return t + 4
  | 0xA4 => do aluAnd (← ixh x); return t + 4
  | 0xA5 => do aluAnd (← ixl x); return t + 4
  | 0xAC => do aluXor (← ixh x); return t + 4
  | 0xAD => do aluXor (← ixl x); return t + 4
  | 0xB4 => do aluOr (← ixh x); return t + 4
  | 0xB5 => do aluOr (← ixl x); return t + 4
  | 0xBC => do aluCp (← ixh x); return t + 4
  | 0xBD => do aluCp (← ixl x); return t + 4
  | _ => do let cost ← dispatchOpcode op; return t + cost

def isIndexPrefix (op : Byte) : Bool := op == 0xDD#8 || op == 0xFD#8

def prefixReg (op : Byte) : IndexReg := if op = 0xDD#8 then .ix else .iy

/-- The `while` loop over consecutive prefixes: one unit of fuel a round,
`none` when it runs out. -/
def consumePrefixes : Nat → IndexReg → Byte → Int → Z80M (Option (IndexReg × Byte × Int))
  | 0, x, op, t => if isIndexPrefix op then return none else return some (x, op, t)
  | fuel + 1, x, op, t => do
      if isIndexPrefix op then
        let next ← fetchOpcode
        consumePrefixes fuel (prefixReg op) next (t + 4)
      else
        return some (x, op, t)

/-- The default case of the switch calls `dispatch_unprefixed` on a byte that is
no prefix, hence `dispatchOpcode`. -/
def dispatchIndex (fuel : Nat) (x : IndexReg) : Z80M (Option Int) := do
  modifyRegs fun r => { r with q := 0 }
  let op ← fetchOpcode
  match ← consumePrefixes fuel x op 4 with
  | none => return none
  | some (x, op, t) => return some (← indexArm x op t)

def dispatchUnprefixed (fuel : Nat) (op : Byte) : Z80M (Option Int) := do
  if isIndexPrefix op then
    dispatchIndex fuel (prefixReg op)
  else
    return some (← dispatchOpcode op)

end Z80f
