import Z80f.Cpu.Bus

/-! # Arithmetic, shifts and block operations

The functions of `instructions.cpp`.  Each flag computation is a pure function
of its inputs; the member function around it reads the registers, writes the
flags through `writeFlags` and stores the result. -/

set_option autoImplicit false

namespace Z80f

open Z80M Flags

def carryIn (withCarry : Bool) (flags : Byte) : Word := if withCarry && carry flags then 1 else 0

def addSum (a value : Byte) (c : Word) : Word := a.setWidth 16 + value.setWidth 16 + c

def addFlags (a value : Byte) (c : Word) : Byte :=
  let x : Word := a.setWidth 16
  let v : Word := value.setWidth 16
  let sum := addSum a value c
  let f := sz53Of (lo sum)
  let f := orIf (sum &&& 0x100#16 != 0) cf f
  let f := orIf ((x ^^^ v ^^^ sum) &&& 0x10#16 != 0) hf f
  orIf (~~~(x ^^^ v) &&& (x ^^^ sum) &&& 0x80#16 != 0) pf f

def aluAdd (value : Byte) (withCarry : Bool) : Z80M Unit := do
  let r ← getRegs
  let c := carryIn withCarry r.flags
  writeFlags (addFlags r.a value c)
  modifyRegs fun r' => { r' with a := lo (addSum r.a value c) }

def subDiff (a value : Byte) (c : Word) : Word := a.setWidth 16 - value.setWidth 16 - c

def subFlags (a value : Byte) (c : Word) : Byte :=
  let x : Word := a.setWidth 16
  let v : Word := value.setWidth 16
  let diff := subDiff a value c
  let f := sz53Of (lo diff) ||| nf
  let f := orIf (diff &&& 0x100#16 != 0) cf f
  let f := orIf ((x ^^^ v ^^^ diff) &&& 0x10#16 != 0) hf f
  orIf ((x ^^^ v) &&& (x ^^^ diff) &&& 0x80#16 != 0) pf f

def aluSub (value : Byte) (withCarry : Bool) : Z80M Unit := do
  let r ← getRegs
  let c := carryIn withCarry r.flags
  writeFlags (subFlags r.a value c)
  modifyRegs fun r' => { r' with a := lo (subDiff r.a value c) }

/-- CP uses operand bits (not result) for X/Y. -/
def cpFlags (a value : Byte) : Byte :=
  let x : Word := a.setWidth 16
  let v : Word := value.setWidth 16
  let diff := subDiff a value 0
  let result := lo diff
  let f := nf
  let f := orIf (result &&& 0x80#8 != 0) sf f
  let f := orIf (result == 0) zf f
  let f := f ||| (value &&& (yf ||| xf))
  let f := orIf (diff &&& 0x100#16 != 0) cf f
  let f := orIf ((x ^^^ v ^^^ diff) &&& 0x10#16 != 0) hf f
  orIf ((x ^^^ v) &&& (x ^^^ diff) &&& 0x80#16 != 0) pf f

def aluCp (value : Byte) : Z80M Unit := do
  writeFlags (cpFlags (← getRegs).a value)

def aluAnd (value : Byte) : Z80M Unit := do
  modifyRegs fun r => { r with a := r.a &&& value }
  writeFlags (sz53pOf (← getRegs).a ||| hf)

def aluOr (value : Byte) : Z80M Unit := do
  modifyRegs fun r => { r with a := r.a ||| value }
  writeFlags (sz53pOf (← getRegs).a)

def aluXor (value : Byte) : Z80M Unit := do
  modifyRegs fun r => { r with a := r.a ^^^ value }
  writeFlags (sz53pOf (← getRegs).a)

def incFlags (flags result : Byte) : Byte :=
  let f := flags &&& cf
  let f := f ||| sz53Of result
  let f := orIf (result &&& 0x0F#8 == 0) hf f
  orIf (result == 0x80#8) pf f

def aluInc (value : Byte) : Z80M Byte := do
  let result := value + 1
  writeFlags (incFlags (← getRegs).flags result)
  return result

def decFlags (flags result : Byte) : Byte :=
  let f := flags &&& cf
  let f := f ||| (sz53Of result ||| nf)
  let f := orIf (result &&& 0x0F#8 == 0x0F#8) hf f
  orIf (result == 0x7F#8) pf f

def aluDec (value : Byte) : Z80M Byte := do
  let result := value - 1
  writeFlags (decFlags (← getRegs).flags result)
  return result

def add16Sum (dest value : Word) : BitVec 32 := dest.setWidth 32 + value.setWidth 32

def add16Flags (flags : Byte) (dest value : Word) : Byte :=
  let a : BitVec 32 := dest.setWidth 32
  let sum := add16Sum dest value
  let result : Word := sum.setWidth 16
  let f := flags &&& (sf ||| zf ||| pf)
  let f := orIf (((a ^^^ value.setWidth 32 ^^^ sum) >>> 8) &&& 0x10#32 != 0) hf f
  let f := orIf (sum &&& 0x10000#32 != 0) cf f
  f ||| (hi result &&& (yf ||| xf))

/-- The caller stores the result in `dest`. -/
def aluAdd16 (dest value : Word) : Z80M Word := do
  idle (← getRegs).refreshAddress 7
  writeFlags (add16Flags (← getRegs).flags dest value)
  modifyRegs fun r => { r with wz := dest + 1 }
  return (add16Sum dest value).setWidth 16

def carry32 (flags : Byte) : BitVec 32 := if carry flags then 1 else 0

def adc16Sum (flags : Byte) (hl value : Word) : BitVec 32 :=
  hl.setWidth 32 + value.setWidth 32 + carry32 flags

def adc16Flags (flags : Byte) (hl value : Word) : Byte :=
  let x : BitVec 32 := hl.setWidth 32
  let v : BitVec 32 := value.setWidth 32
  let sum := adc16Sum flags hl value
  let result : Word := sum.setWidth 16
  let f : Byte := 0
  let f := orIf (result &&& 0x8000#16 != 0) sf f
  let f := orIf (result == 0) zf f
  let f := orIf (((x ^^^ v ^^^ sum) >>> 8) &&& 0x10#32 != 0) hf f
  let f := orIf (~~~(x ^^^ v) &&& (x ^^^ sum) &&& 0x8000#32 != 0) pf f
  let f := orIf (sum &&& 0x10000#32 != 0) cf f
  f ||| (hi result &&& (yf ||| xf))

def aluAdc16 (value : Word) : Z80M Unit := do
  idle (← getRegs).refreshAddress 7
  let r ← getRegs
  writeFlags (adc16Flags r.flags r.hl value)
  modifyRegs fun r' => { r' with wz := r.hl + 1 }
  modifyRegs (Registers.setHl ((adc16Sum r.flags r.hl value).setWidth 16))

def sbc16Diff (flags : Byte) (hl value : Word) : BitVec 32 :=
  hl.setWidth 32 - value.setWidth 32 - carry32 flags

def sbc16Flags (flags : Byte) (hl value : Word) : Byte :=
  let x : BitVec 32 := hl.setWidth 32
  let v : BitVec 32 := value.setWidth 32
  let diff := sbc16Diff flags hl value
  let result : Word := diff.setWidth 16
  let f := nf
  let f := orIf (result &&& 0x8000#16 != 0) sf f
  let f := orIf (result == 0) zf f
  let f := orIf (((x ^^^ v ^^^ diff) >>> 8) &&& 0x10#32 != 0) hf f
  let f := orIf ((x ^^^ v) &&& (x ^^^ diff) &&& 0x8000#32 != 0) pf f
  let f := orIf (diff &&& 0x10000#32 != 0) cf f
  f ||| (hi result &&& (yf ||| xf))

def aluSbc16 (value : Word) : Z80M Unit := do
  idle (← getRegs).refreshAddress 7
  let r ← getRegs
  writeFlags (sbc16Flags r.flags r.hl value)
  modifyRegs fun r' => { r' with wz := r.hl + 1 }
  modifyRegs (Registers.setHl ((sbc16Diff r.flags r.hl value).setWidth 16))

def daaCorrection (a flags : Byte) : Byte :=
  let correction : Byte := 0
  let correction := orIf (halfCarry flags || decide (9 < (a &&& 0x0F#8).toNat)) 0x06#8 correction
  orIf (carry flags || decide (0x99 < a.toNat)) 0x60#8 correction

def daaResult (a flags : Byte) : Byte :=
  if addSub flags then a - daaCorrection a flags else a + daaCorrection a flags

def daaFlags (a flags : Byte) : Byte :=
  let newA := daaResult a flags
  let f := sz53pOf newA
  let f := orIf (addSub flags) nf f
  let f := orIf (carry flags || decide (0x99 < a.toNat)) cf f
  orIf ((a ^^^ newA) &&& 0x10#8 != 0) hf f

def aluDaa : Z80M Unit := do
  let r ← getRegs
  writeFlags (daaFlags r.a r.flags)
  modifyRegs fun r' => { r' with a := daaResult r.a r.flags }

/-- The common end of the four: store A, keep S, Z and P, set C from `c` and
X/Y from the result. -/
def storeRotatedA (a c : Byte) : Z80M Unit := do
  modifyRegs fun r => { r with a := a }
  let f := (← getRegs).flags &&& (sf ||| zf ||| pf)
  writeFlags (orIf (c != 0) cf f ||| (a &&& (yf ||| xf)))

def oldCarry (flags : Byte) : Byte := if carry flags then 1 else 0

def aluRlca : Z80M Unit := do
  let a := (← getRegs).a
  let c := (a >>> 7) &&& 1#8
  storeRotatedA ((a <<< 1) ||| c) c

def aluRrca : Z80M Unit := do
  let a := (← getRegs).a
  let c := a &&& 1#8
  storeRotatedA ((a >>> 1) ||| (c <<< 7)) c

def aluRla : Z80M Unit := do
  let r ← getRegs
  storeRotatedA ((r.a <<< 1) ||| oldCarry r.flags) ((r.a >>> 7) &&& 1#8)

def aluRra : Z80M Unit := do
  let r ← getRegs
  storeRotatedA ((r.a >>> 1) ||| (oldCarry r.flags <<< 7)) (r.a &&& 1#8)

/-- The common end of the eight: flags from the result, C from `c`. -/
def shifted (r c : Byte) : Z80M Byte := do
  writeFlags (orIf (c != 0) cf (sz53pOf r))
  return r

def cbRlc (v : Byte) : Z80M Byte :=
  let c := (v >>> 7) &&& 1#8
  shifted ((v <<< 1) ||| c) c

def cbRrc (v : Byte) : Z80M Byte :=
  let c := v &&& 1#8
  shifted ((v >>> 1) ||| (c <<< 7)) c

def cbRl (v : Byte) : Z80M Byte := do
  let oldC := oldCarry (← getRegs).flags
  shifted ((v <<< 1) ||| oldC) ((v >>> 7) &&& 1#8)

def cbRr (v : Byte) : Z80M Byte := do
  let oldC := oldCarry (← getRegs).flags
  shifted ((v >>> 1) ||| (oldC <<< 7)) (v &&& 1#8)

def cbSla (v : Byte) : Z80M Byte := shifted (v <<< 1) ((v >>> 7) &&& 1#8)

def cbSra (v : Byte) : Z80M Byte := shifted ((v >>> 1) ||| (v &&& 0x80#8)) (v &&& 1#8)

/-- Undocumented SLL/SL1: like SLA but sets bit 0. -/
def cbSll (v : Byte) : Z80M Byte := shifted ((v <<< 1) ||| 1#8) ((v >>> 7) &&& 1#8)

def cbSrl (v : Byte) : Z80M Byte := shifted (v >>> 1) (v &&& 1#8)

def bitFlags (flags : Byte) (bit : Nat) (v flagSource : Byte) : Byte :=
  let result := v &&& (1#8 <<< bit)
  let f := flags &&& cf
  let f := f ||| hf
  let f := orIf (result == 0) (zf ||| pf) f
  let f := orIf (bit == 7 && result &&& 0x80#8 != 0) sf f
  f ||| (flagSource &&& (yf ||| xf))

def cbBit (bit : Nat) (v flagSource : Byte) : Z80M Unit := do
  writeFlags (bitFlags (← getRegs).flags bit v flagSource)

def cbSet (bit : Nat) (v : Byte) : Byte := v ||| (1#8 <<< bit)

def cbRes (bit : Nat) (v : Byte) : Byte := v &&& ~~~(1#8 <<< bit)

/-! ## Block instructions -/

def blockLdFlags (flags a byte : Byte) (bc : Word) : Byte :=
  let n := byte + a
  let f := flags &&& (sf ||| zf ||| cf)
  let f := orIf (n &&& 0x02#8 != 0) yf f
  let f := orIf (n &&& 0x08#8 != 0) xf f
  orIf (bc != 0) pf f

def blockLd (delta : Int) (repeats : Bool) : Z80M Int := do
  let byte ← read8 (← getRegs).hl
  let destination := (← getRegs).de
  write8 destination byte
  idle (← getRegs).de 2
  modifyRegs fun r => r.setHl (r.hl + BitVec.ofInt 16 delta)
  modifyRegs fun r => r.setDe (r.de + BitVec.ofInt 16 delta)
  modifyRegs fun r => r.setBc (r.bc - 1)
  let r ← getRegs
  writeFlags (blockLdFlags r.flags r.a byte r.bc)
  if repeats && (← getRegs).bc != 0 then
    modifyRegs fun r => { r with pc := r.pc - 2 }
    modifyRegs fun r => { r with wz := r.pc + 1 }
    idle destination 5
    return 21
  else
    return 16

def blockCpHalf (a byte : Byte) : Bool :=
  (a.setWidth 16 ^^^ byte.setWidth 16 ^^^ subDiff a byte 0) &&& 0x10#16 != 0

def blockCpFlags (flags a byte : Byte) (bc : Word) : Byte :=
  let result := lo (subDiff a byte 0)
  let half := blockCpHalf a byte
  let f := nf
  let f := f ||| (flags &&& cf)
  let f := orIf (result &&& 0x80#8 != 0) sf f
  let f := orIf (result == 0) zf f
  let f := orIf half hf f
  let f := orIf (bc != 0) pf f
  let n := result - (if half then 1 else 0)
  let f := orIf (n &&& 0x02#8 != 0) yf f
  orIf (n &&& 0x08#8 != 0) xf f

def blockCp (delta : Int) (repeats : Bool) : Z80M Int := do
  let byte ← read8 (← getRegs).hl
  let source := (← getRegs).hl
  idle source 5
  modifyRegs fun r => { r with wz := r.wz + BitVec.ofInt 16 delta }
  modifyRegs fun r => r.setHl (r.hl + BitVec.ofInt 16 delta)
  modifyRegs fun r => r.setBc (r.bc - 1)
  let r ← getRegs
  writeFlags (blockCpFlags r.flags r.a byte r.bc)
  if repeats && r.bc != 0 && lo (subDiff r.a byte 0) != 0 then
    modifyRegs fun r => { r with pc := r.pc - 2 }
    modifyRegs fun r => { r with wz := r.pc + 1 }
    idle source 5
    return 21
  else
    return 16

def blockIoFlags (b byte : Byte) (sum : Word) : Byte :=
  let f := sz53Of b ||| parityOf (lo (sum &&& 7#16) ^^^ b)
  let f := orIf (byte &&& 0x80#8 != 0) nf f
  orIf (decide (0xFF < sum.toNat)) (hf ||| cf) f

def blockIn (delta : Int) (repeats : Bool) : Z80M Int := do
  idle (← getRegs).refreshAddress 1
  let port := (← getRegs).bc
  let address := (← getRegs).hl
  let byte ← ioIn port
  modifyRegs fun r => { r with wz := port + BitVec.ofInt 16 delta }
  modifyRegs fun r => { r with b := r.b - 1 }
  write8 address byte
  modifyRegs (Registers.setHl (address + BitVec.ofInt 16 delta))
  let r ← getRegs
  let sum : Word := byte.setWidth 16 + (r.c + BitVec.ofInt 8 delta).setWidth 16
  writeFlags (blockIoFlags r.b byte sum)
  if repeats && r.b != 0 then
    modifyRegs fun r => { r with pc := r.pc - 2 }
    idle address 5
    return 21
  else
    return 16

def blockOut (delta : Int) (repeats : Bool) : Z80M Int := do
  idle (← getRegs).refreshAddress 1
  let byte ← read8 (← getRegs).hl
  modifyRegs fun r => { r with b := r.b - 1 }
  let port := (← getRegs).bc
  ioOut port byte
  modifyRegs fun r => { r with wz := port + BitVec.ofInt 16 delta }
  modifyRegs fun r => r.setHl (r.hl + BitVec.ofInt 16 delta)
  let r ← getRegs
  let sum : Word := byte.setWidth 16 + r.l.setWidth 16
  writeFlags (blockIoFlags r.b byte sum)
  if repeats && r.b != 0 then
    modifyRegs fun r => { r with pc := r.pc - 2 }
    idle port 5
    return 21
  else
    return 16

def jpCond (cond : Bool) : Z80M Unit := do
  let target ← fetchImmediate16
  modifyRegs fun r => { r with wz := target }
  if cond then
    modifyRegs fun r => { r with pc := target }

def callCond (cond : Bool) : Z80M Unit := do
  let target ← fetchImmediate16
  modifyRegs fun r => { r with wz := target }
  if cond then
    idle ((← getRegs).pc - 1) 1
    push16 (← getRegs).pc
    modifyRegs fun r => { r with pc := target }

def rst (target : Word) : Z80M Unit := do
  idle (← getRegs).refreshAddress 1
  push16 (← getRegs).pc
  modifyRegs fun r => { r with pc := target }
  modifyRegs fun r => { r with wz := target }

end Z80f
