import Z80f.Cpu.Instructions
import Z80f.Cpu.Timing

/-! # The unprefixed, CB and ED dispatchers

`dispatchOpcode` is `dispatch_unprefixed` without its two recursive cases, DD
and FD, which can fail to return; `dispatchUnprefixed` adds them in the next
module.  Every dispatcher returns its own cost `t`. -/

set_option autoImplicit false

namespace Z80f

open Z80M Flags

/-- `regs_.pc = target; regs_.wz = regs_.pc;`, the end of JP nn, RET and RETN. -/
def jp (target : Word) : Z80M Unit := do
  modifyRegs fun r => { r with pc := target }
  modifyRegs fun r => { r with wz := r.pc }

/-- `JR cc,e`. -/
def jrArm (cond : Byte → Bool) : Z80M Int := do
  let d := displacement (← fetchImmediate)
  if cond (← getRegs).flags then
    idle ((← getRegs).pc - 1) 5
    modifyRegs fun r => { r with pc := r.pc + d }
    modifyRegs fun r => { r with wz := r.pc }
    return 12
  else
    return 7

def retArm (cond : Byte → Bool) : Z80M Int := do
  if cond (← getRegs).flags then
    jp (← pop16)
    return 11
  else
    return 5

def callArm (cond : Byte → Bool) : Z80M Int := do
  if cond (← getRegs).flags then
    callCond true
    return 17
  else
    callCond false
    return 10

def jr : Z80M Unit := do
  let d := displacement (← fetchImmediate)
  idle ((← getRegs).pc - 1) 5
  modifyRegs fun r => { r with pc := r.pc + d }
  modifyRegs fun r => { r with wz := r.pc }

def call : Z80M Unit := do
  let target ← fetchImmediate16
  modifyRegs fun r => { r with wz := target }
  idle ((← getRegs).pc - 1) 1
  push16 (← getRegs).pc
  modifyRegs fun r => { r with pc := target }

def djnz : Z80M Int := do
  idle (← getRegs).refreshAddress 1
  let d := displacement (← fetchImmediate)
  modifyRegs fun r => { r with b := r.b - 1 }
  if (← getRegs).b != 0 then
    idle ((← getRegs).pc - 1) 5
    modifyRegs fun r => { r with pc := r.pc + d }
    modifyRegs fun r => { r with wz := r.pc }
    return 13
  else
    return 8

def halt : Z80M Unit := do
  modifyRegs fun r => { r with halted := true }
  modifyRegs fun r => { r with pc := r.pc - 1 }

def di : Z80M Unit := modifyRegs fun r => { r with iff1 := false, iff2 := false }

def ei : Z80M Unit := modifyRegs fun r => { r with iff1 := true, iff2 := true, eiPending := true }

def exAf : Z80M Unit := modifyRegs fun r =>
  let af := r.af
  let r := r.setAf (word r.aAlt r.fAlt)
  { r with aAlt := hi af, fAlt := lo af }

def exx : Z80M Unit := modifyRegs fun r =>
  { r with
    b := r.bAlt, c := r.cAlt, d := r.dAlt, e := r.eAlt, h := r.hAlt, l := r.lAlt
    bAlt := r.b, cAlt := r.c, dAlt := r.d, eAlt := r.e, hAlt := r.h, lAlt := r.l }

def exDeHl : Z80M Unit := modifyRegs fun r => { r with d := r.h, e := r.l, h := r.d, l := r.e }

def exSpHl : Z80M Unit := do
  let low ← read8 (← getRegs).sp
  let high ← read8 ((← getRegs).sp + 1)
  idle ((← getRegs).sp + 1) 1
  write8 ((← getRegs).sp + 1) (← getRegs).h
  write8 (← getRegs).sp (← getRegs).l
  idle (← getRegs).sp 2
  modifyRegs fun r => { r with l := low }
  modifyRegs fun r => { r with h := high }
  modifyRegs fun r => { r with wz := r.hl }

def cpl : Z80M Unit := do
  modifyRegs fun r => { r with a := ~~~r.a }
  let r ← getRegs
  let f := r.flags &&& (sf ||| zf ||| pf ||| cf)
  let f := f ||| (hf ||| nf)
  writeFlags (f ||| (r.a &&& (yf ||| xf)))

def scf : Z80M Unit := do
  let r ← getRegs
  let f := r.flags &&& (sf ||| zf ||| pf)
  let f := f ||| cf
  writeFlags (f ||| (((r.flags ^^^ r.q) ||| r.a) &&& (yf ||| xf)))

def ccf : Z80M Unit := do
  let r ← getRegs
  let oldC := carry r.flags
  let f := r.flags &&& (sf ||| zf ||| pf)
  let f := orIf oldC hf f
  let f := orIf (!oldC) cf f
  writeFlags (f ||| (((r.flags ^^^ r.q) ||| r.a) &&& (yf ||| xf)))

/-- `LD (addr),A` through BC, DE or an immediate address. -/
def storeA (addr : Word) : Z80M Unit := do
  write8 addr (← getRegs).a
  modifyRegs fun r => { r with wz := ((addr + 1) &&& 0xFF#16) ||| (r.a.setWidth 16 <<< 8) }

def loadA (addr : Word) : Z80M Unit := do
  let v ← read8 addr
  modifyRegs fun r => { r with a := v }
  modifyRegs fun r => { r with wz := addr + 1 }

def store16 (addr value : Word) : Z80M Unit := do
  write8 addr (lo value)
  write8 (addr + 1) (hi value)
  modifyRegs fun r => { r with wz := addr + 1 }

def load16 (addr : Word) (store : Word → Registers → Registers) : Z80M Unit := do
  let low ← read8 addr
  let high ← read8 (addr + 1)
  modifyRegs (store (word high low))
  modifyRegs fun r => { r with wz := addr + 1 }

def updateMem (operation : Byte → Z80M Byte) (addr : Word) : Z80M Unit := do
  let v ← read8 addr
  let v ← operation v
  idle addr 1
  write8 addr v

/-- `alu_add16(hl, value)` on a copy of HL that is stored back. -/
def addHl (value : Word) : Z80M Unit := do
  let hl ← aluAdd16 (← getRegs).hl value
  modifyRegs (Registers.setHl hl)

def outA : Z80M Unit := do
  let n ← fetchImmediate
  let port := word (← getRegs).a n
  ioOut port (← getRegs).a
  modifyRegs fun r => { r with wz := ((port + 1) &&& 0xFF#16) ||| (r.a.setWidth 16 <<< 8) }

def inA : Z80M Unit := do
  let n ← fetchImmediate
  let port := word (← getRegs).a n
  let v ← ioIn port
  modifyRegs fun r => { r with a := v }
  modifyRegs fun r => { r with wz := port + 1 }

/-! ## The CB dispatcher -/

def shiftOp (bitOrOp : Nat) (value : Byte) : Z80M Byte :=
  match bitOrOp with
  | 0 => cbRlc value
  | 1 => cbRrc value
  | 2 => cbRl value
  | 3 => cbRr value
  | 4 => cbSla value
  | 5 => cbSra value
  | 6 => cbSll value
  | 7 => cbSrl value
  | _ => return value

def regField (op : Byte) : Nat := (op &&& 7#8).toNat

def midField (op : Byte) : Nat := ((op >>> 3) &&& 7#8).toNat

def kindField (op : Byte) : Nat := ((op >>> 6) &&& 3#8).toNat

def storeCb (reg : Nat) (value : Byte) : Z80M Int := do
  if reg = 6 then
    write8 (← getRegs).hl value
    return 15
  else
    modifyRegs (Registers.setReg8 reg value)
    return 8

def dispatchCb : Z80M Int := do
  let op ← fetchOpcode
  let reg := regField op
  let bitOrOp := midField op
  let value ←
    if reg = 6 then do
      let v ← read8 (← getRegs).hl
      idle (← getRegs).hl 1
      pure v
    else do
      pure ((← getRegs).reg8 reg)
  if kindField op = 0 then
    storeCb reg (← shiftOp bitOrOp value)
  else if kindField op = 1 then
    let r ← getRegs
    cbBit bitOrOp value (if reg = 6 then hi r.wz else value)
    return (if reg = 6 then 12 else 8)
  else if kindField op = 2 then
    storeCb reg (cbRes bitOrOp value)
  else
    storeCb reg (cbSet bitOrOp value)

/-! ## The ED dispatcher -/

/-- `IN r,(C)`; `dst` 6 drops the value. -/
def inC (dst : Nat) : Z80M Unit := do
  let v ← ioIn (← getRegs).bc
  modifyRegs fun r => { r with wz := r.bc + 1 }
  let f := sz53pOf v
  writeFlags (f ||| ((← getRegs).flags &&& cf))
  if dst ≠ 6 then
    modifyRegs (Registers.setReg8 dst v)

/-- `OUT (C),r`; `src` 6 sends 0. -/
def outC (src : Nat) : Z80M Unit := do
  let r ← getRegs
  let v := if src = 6 then 0 else r.reg8 src
  ioOut (← getRegs).bc v
  modifyRegs fun r => { r with wz := r.bc + 1 }

def negFlags (a : Byte) : Byte :=
  let f := nf
  let f := f ||| sz53Of (0 - a)
  let f := orIf (a != 0) cf f
  let f := orIf (a &&& 0x0F#8 != 0) hf f
  orIf (a == 0x80#8) pf f

def neg : Z80M Unit := do
  let a := (← getRegs).a
  modifyRegs fun r => { r with a := 0 - a }
  writeFlags (negFlags a)

def retn : Z80M Unit := do
  jp (← pop16)
  modifyRegs fun r => { r with iff1 := r.iff2 }

def setIm (mode : Byte) : Z80M Unit := modifyRegs fun r => { r with im := mode }

def ldIA : Z80M Unit := do
  idle (← getRegs).refreshAddress 1
  modifyRegs fun r => { r with i := r.a }

def ldRA : Z80M Unit := do
  idle (← getRegs).refreshAddress 1
  modifyRegs fun r => { r with r := r.a }

/-- `LD A,I` and `LD A,R`. -/
def ldAFrom (source : Registers → Byte) : Z80M Unit := do
  modifyRegs fun r => { r with a := source r }
  let r ← getRegs
  let f := r.flags &&& cf
  let f := f ||| sz53Of r.a
  writeFlags (orIf r.iff2 pf f)
  idle (← getRegs).refreshAddress 1

/-- RRD and RLD, from the new memory byte and the new A. -/
def rotateDigit (newM newA : Byte → Byte → Byte) : Z80M Unit := do
  let m ← read8 (← getRegs).hl
  let a := (← getRegs).a
  idle (← getRegs).hl 4
  write8 (← getRegs).hl (newM a m)
  modifyRegs fun r => { r with a := newA a m }
  modifyRegs fun r => { r with wz := r.hl + 1 }
  let r ← getRegs
  let f := r.flags &&& cf
  writeFlags (f ||| sz53pOf r.a)

def rrd : Z80M Unit :=
  rotateDigit (fun a m => ((a &&& 0x0F#8) <<< 4) ||| (m >>> 4))
    (fun a m => (a &&& 0xF0#8) ||| (m &&& 0x0F#8))

def rld : Z80M Unit :=
  rotateDigit (fun a m => ((m &&& 0x0F#8) <<< 4) ||| (a &&& 0x0F#8))
    (fun a m => (a &&& 0xF0#8) ||| (m >>> 4))

def edArm (op : Byte) : Z80M Int :=
  match op with
  | 0x40 | 0x48 | 0x50 | 0x58 | 0x60 | 0x68 | 0x70 | 0x78 => do inC (midField op); return 12
  | 0x41 | 0x49 | 0x51 | 0x59 | 0x61 | 0x69 | 0x71 | 0x79 => do outC (midField op); return 12
  | 0x42 => do aluSbc16 (← getRegs).bc; return 15
  | 0x52 => do aluSbc16 (← getRegs).de; return 15
  | 0x62 => do aluSbc16 (← getRegs).hl; return 15
  | 0x72 => do aluSbc16 (← getRegs).sp; return 15
  | 0x4A => do aluAdc16 (← getRegs).bc; return 15
  | 0x5A => do aluAdc16 (← getRegs).de; return 15
  | 0x6A => do aluAdc16 (← getRegs).hl; return 15
  | 0x7A => do aluAdc16 (← getRegs).sp; return 15
  | 0x43 => do store16 (← fetchImmediate16) (← getRegs).bc; return 20
  | 0x53 => do store16 (← fetchImmediate16) (← getRegs).de; return 20
  | 0x63 => do store16 (← fetchImmediate16) (← getRegs).hl; return 20
  | 0x73 => do store16 (← fetchImmediate16) (← getRegs).sp; return 20
  | 0x4B => do load16 (← fetchImmediate16) Registers.setBc; return 20
  | 0x5B => do load16 (← fetchImmediate16) Registers.setDe; return 20
  | 0x6B => do load16 (← fetchImmediate16) Registers.setHl; return 20
  | 0x7B => do load16 (← fetchImmediate16) fun v r => { r with sp := v }; return 20
  | 0x44 | 0x4C | 0x54 | 0x5C | 0x64 | 0x6C | 0x74 | 0x7C => do neg; return 8
  | 0x45 | 0x55 | 0x65 | 0x75 | 0x4D | 0x5D | 0x6D | 0x7D => do retn; return 14
  | 0x46 | 0x4E | 0x66 | 0x6E => do setIm 0; return 8
  | 0x56 | 0x76 => do setIm 1; return 8
  | 0x5E | 0x7E => do setIm 2; return 8
  | 0x47 => do ldIA; return 9
  | 0x4F => do ldRA; return 9
  | 0x57 => do ldAFrom fun r => r.i; return 9
  | 0x5F => do ldAFrom fun r => r.r; return 9
  | 0x67 => do rrd; return 18
  | 0x6F => do rld; return 18
  | 0xA0 => blockLd 1 false
  | 0xA8 => blockLd (-1) false
  | 0xB0 => blockLd 1 true
  | 0xB8 => blockLd (-1) true
  | 0xA1 => blockCp 1 false
  | 0xA9 => blockCp (-1) false
  | 0xB1 => blockCp 1 true
  | 0xB9 => blockCp (-1) true
  | 0xA2 => blockIn 1 false
  | 0xAA => blockIn (-1) false
  | 0xB2 => blockIn 1 true
  | 0xBA => blockIn (-1) true
  | 0xA3 => blockOut 1 false
  | 0xAB => blockOut (-1) false
  | 0xB3 => blockOut 1 true
  | 0xBB => blockOut (-1) true
  | _ => return 8

def dispatchEd : Z80M Int := do
  let op ← fetchOpcode
  edArm op

/-! ## The unprefixed dispatcher -/

/-- `case 0x40..0x7F` but HALT: `LD r,r'`, `LD r,(HL)` and `LD (HL),r`. -/
def ldArm (op : Byte) : Z80M Unit := do
  let dst := midField op
  let src := regField op
  let value ← if src = 6 then do read8 (← getRegs).hl else do pure ((← getRegs).reg8 src)
  if dst = 6 then
    write8 (← getRegs).hl value
  else
    modifyRegs (Registers.setReg8 dst value)

def aluOp (alu : Nat) (v : Byte) : Z80M Unit :=
  match alu with
  | 0 => aluAdd v false
  | 1 => aluAdd v true
  | 2 => aluSub v false
  | 3 => aluSub v true
  | 4 => aluAnd v
  | 5 => aluXor v
  | 6 => aluOr v
  | 7 => aluCp v
  | _ => return ()

/-- `case 0x80..0xBF`. -/
def aluArm (op : Byte) : Z80M Unit := do
  let src := regField op
  let v ← if src = 6 then do read8 (← getRegs).hl else do pure ((← getRegs).reg8 src)
  aluOp (midField op) v

/-- The inner switch, `case 0xC0..0xFF`. -/
def highArm (op : Byte) (t : Int) : Z80M Int :=
  match op with
  | 0xC0 => retArm fun f => !zero f
  | 0xC1 => do modifyRegs (Registers.setBc (← pop16)); return t
  | 0xC2 => do jpCond (!zero (← getRegs).flags); return t
  | 0xC3 => do jp (← fetchImmediate16); return t
  | 0xC4 => callArm fun f => !zero f
  | 0xC5 => do push16 (← getRegs).bc; return t
  | 0xC6 => do aluAdd (← fetchImmediate) false; return t
  | 0xC7 => do rst 0x00; return t
  | 0xC8 => retArm zero
  | 0xC9 => do jp (← pop16); return t
  | 0xCA => do jpCond (zero (← getRegs).flags); return t
  | 0xCB => dispatchCb
  | 0xCC => callArm zero
  | 0xCD => do call; return t
  | 0xCE => do aluAdd (← fetchImmediate) true; return t
  | 0xCF => do rst 0x08; return t
  | 0xD0 => retArm fun f => !carry f
  | 0xD1 => do modifyRegs (Registers.setDe (← pop16)); return t
  | 0xD2 => do jpCond (!carry (← getRegs).flags); return t
  | 0xD3 => do outA; return t
  | 0xD4 => callArm fun f => !carry f
  | 0xD5 => do push16 (← getRegs).de; return t
  | 0xD6 => do aluSub (← fetchImmediate) false; return t
  | 0xD7 => do rst 0x10; return t
  | 0xD8 => retArm carry
  | 0xD9 => do exx; return t
  | 0xDA => do jpCond (carry (← getRegs).flags); return t
  | 0xDB => do inA; return t
  | 0xDC => callArm carry
  | 0xDE => do aluSub (← fetchImmediate) true; return t
  | 0xDF => do rst 0x18; return t
  | 0xE0 => retArm fun f => !parityOverflow f
  | 0xE1 => do modifyRegs (Registers.setHl (← pop16)); return t
  | 0xE2 => do jpCond (!parityOverflow (← getRegs).flags); return t
  | 0xE3 => do exSpHl; return t
  | 0xE4 => callArm fun f => !parityOverflow f
  | 0xE5 => do push16 (← getRegs).hl; return t
  | 0xE6 => do aluAnd (← fetchImmediate); return t
  | 0xE7 => do rst 0x20; return t
  | 0xE8 => retArm parityOverflow
  | 0xE9 => do modifyRegs (fun r => { r with pc := r.hl }); return t
  | 0xEA => do jpCond (parityOverflow (← getRegs).flags); return t
  | 0xEB => do exDeHl; return t
  | 0xEC => callArm parityOverflow
  | 0xED => dispatchEd
  | 0xEE => do aluXor (← fetchImmediate); return t
  | 0xEF => do rst 0x28; return t
  | 0xF0 => retArm fun f => !sign f
  | 0xF1 => do modifyRegs (Registers.setAf (← pop16)); return t
  | 0xF2 => do jpCond (!sign (← getRegs).flags); return t
  | 0xF3 => do di; return t
  | 0xF4 => callArm fun f => !sign f
  | 0xF5 => do push16 (← getRegs).af; return t
  | 0xF6 => do aluOr (← fetchImmediate); return t
  | 0xF7 => do rst 0x30; return t
  | 0xF8 => retArm sign
  | 0xF9 => do modifyRegs (fun r => { r with sp := r.hl }); return t
  | 0xFA => do jpCond (sign (← getRegs).flags); return t
  | 0xFB => do ei; return t
  | 0xFC => callArm sign
  | 0xFE => do aluCp (← fetchImmediate); return t
  | 0xFF => do rst 0x38; return t
  | _ => return t

/-- The switch of `dispatch_unprefixed`; `t` is the base cost. -/
def opcodeArm (op : Byte) (t : Int) : Z80M Int :=
  match op with
  | 0x00 => return t
  | 0x01 => do modifyRegs (Registers.setBc (← fetchImmediate16)); return t
  | 0x02 => do storeA (← getRegs).bc; return t
  | 0x03 => do modifyRegs (fun r => r.setBc (r.bc + 1)); return t
  | 0x04 => do let v ← aluInc (← getRegs).b; modifyRegs fun r => { r with b := v }; return t
  | 0x05 => do let v ← aluDec (← getRegs).b; modifyRegs fun r => { r with b := v }; return t
  | 0x06 => do let v ← fetchImmediate; modifyRegs fun r => { r with b := v }; return t
  | 0x07 => do aluRlca; return t
  | 0x08 => do exAf; return t
  | 0x09 => do addHl (← getRegs).bc; return t
  | 0x0A => do loadA (← getRegs).bc; return t
  | 0x0B => do modifyRegs (fun r => r.setBc (r.bc - 1)); return t
  | 0x0C => do let v ← aluInc (← getRegs).c; modifyRegs fun r => { r with c := v }; return t
  | 0x0D => do let v ← aluDec (← getRegs).c; modifyRegs fun r => { r with c := v }; return t
  | 0x0E => do let v ← fetchImmediate; modifyRegs fun r => { r with c := v }; return t
  | 0x0F => do aluRrca; return t
  | 0x10 => djnz
  | 0x11 => do modifyRegs (Registers.setDe (← fetchImmediate16)); return t
  | 0x12 => do storeA (← getRegs).de; return t
  | 0x13 => do modifyRegs (fun r => r.setDe (r.de + 1)); return t
  | 0x14 => do let v ← aluInc (← getRegs).d; modifyRegs fun r => { r with d := v }; return t
  | 0x15 => do let v ← aluDec (← getRegs).d; modifyRegs fun r => { r with d := v }; return t
  | 0x16 => do let v ← fetchImmediate; modifyRegs fun r => { r with d := v }; return t
  | 0x17 => do aluRla; return t
  | 0x18 => do jr; return t
  | 0x19 => do addHl (← getRegs).de; return t
  | 0x1A => do loadA (← getRegs).de; return t
  | 0x1B => do modifyRegs (fun r => r.setDe (r.de - 1)); return t
  | 0x1C => do let v ← aluInc (← getRegs).e; modifyRegs fun r => { r with e := v }; return t
  | 0x1D => do let v ← aluDec (← getRegs).e; modifyRegs fun r => { r with e := v }; return t
  | 0x1E => do let v ← fetchImmediate; modifyRegs fun r => { r with e := v }; return t
  | 0x1F => do aluRra; return t
  | 0x20 => jrArm fun f => !zero f
  | 0x21 => do modifyRegs (Registers.setHl (← fetchImmediate16)); return t
  | 0x22 => do store16 (← fetchImmediate16) (← getRegs).hl; return t
  | 0x23 => do modifyRegs (fun r => r.setHl (r.hl + 1)); return t
  | 0x24 => do let v ← aluInc (← getRegs).h; modifyRegs fun r => { r with h := v }; return t
  | 0x25 => do let v ← aluDec (← getRegs).h; modifyRegs fun r => { r with h := v }; return t
  | 0x26 => do let v ← fetchImmediate; modifyRegs fun r => { r with h := v }; return t
  | 0x27 => do aluDaa; return t
  | 0x28 => jrArm zero
  | 0x29 => do addHl (← getRegs).hl; return t
  | 0x2A => do load16 (← fetchImmediate16) Registers.setHl; return t
  | 0x2B => do modifyRegs (fun r => r.setHl (r.hl - 1)); return t
  | 0x2C => do let v ← aluInc (← getRegs).l; modifyRegs fun r => { r with l := v }; return t
  | 0x2D => do let v ← aluDec (← getRegs).l; modifyRegs fun r => { r with l := v }; return t
  | 0x2E => do let v ← fetchImmediate; modifyRegs fun r => { r with l := v }; return t
  | 0x2F => do cpl; return t
  | 0x30 => jrArm fun f => !carry f
  | 0x31 => do let v ← fetchImmediate16; modifyRegs fun r => { r with sp := v }; return t
  | 0x32 => do storeA (← fetchImmediate16); return t
  | 0x33 => do modifyRegs (fun r => { r with sp := r.sp + 1 }); return t
  | 0x34 => do updateMem aluInc (← getRegs).hl; return t
  | 0x35 => do updateMem aluDec (← getRegs).hl; return t
  | 0x36 => do let n ← fetchImmediate; write8 (← getRegs).hl n; return t
  | 0x37 => do scf; return t
  | 0x38 => jrArm carry
  | 0x39 => do addHl (← getRegs).sp; return t
  | 0x3A => do loadA (← fetchImmediate16); return t
  | 0x3B => do modifyRegs (fun r => { r with sp := r.sp - 1 }); return t
  | 0x3C => do let v ← aluInc (← getRegs).a; modifyRegs fun r => { r with a := v }; return t
  | 0x3D => do let v ← aluDec (← getRegs).a; modifyRegs fun r => { r with a := v }; return t
  | 0x3E => do let v ← fetchImmediate; modifyRegs fun r => { r with a := v }; return t
  | 0x3F => do ccf; return t
  | 0x76 => do halt; return t
  | _ =>
      if 0x40 ≤ op.toNat ∧ op.toNat ≤ 0x7F then do ldArm op; return t
      else if 0x80 ≤ op.toNat ∧ op.toNat ≤ 0xBF then do aluArm op; return t
      else highArm op t

/-- The idle cycles that come before the switch. -/
def opcodePrelude (op : Byte) : Z80M Unit := do
  if op &&& 0xCF#8 = 0x03#8 ∨ op &&& 0xCF#8 = 0x0B#8 ∨ op = 0xF9#8 then
    idle (← getRegs).refreshAddress 2
  if op &&& 0xC7#8 = 0xC0#8 ∨ op &&& 0xCF#8 = 0xC5#8 then
    idle (← getRegs).refreshAddress 1

def dispatchOpcode (op : Byte) : Z80M Int := do
  opcodePrelude op
  opcodeArm op (baseTFor op)

end Z80f
