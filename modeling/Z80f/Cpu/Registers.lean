import Z80f.Cpu.Word

/-! # Flags and registers -/

set_option autoImplicit false

namespace Z80f

namespace Flags

def sf : Byte := 0x80#8
def zf : Byte := 0x40#8
def yf : Byte := 0x20#8
def hf : Byte := 0x10#8
def xf : Byte := 0x08#8
def pf : Byte := 0x04#8
def nf : Byte := 0x02#8
def cf : Byte := 0x01#8

def sign (bits : Byte) : Bool := bits &&& sf != 0
def zero (bits : Byte) : Bool := bits &&& zf != 0
def halfCarry (bits : Byte) : Bool := bits &&& hf != 0
def parityOverflow (bits : Byte) : Bool := bits &&& pf != 0
def addSub (bits : Byte) : Bool := bits &&& nf != 0
def carry (bits : Byte) : Bool := bits &&& cf != 0

/-- `if (condition) f |= mask;` -/
def orIf (condition : Bool) (mask : Byte) (f : Byte) : Byte := if condition then f ||| mask else f

def parityOf (v : Byte) : Byte :=
  if (List.range 8).foldl (fun p b => if v &&& (1#8 <<< b) != 0 then !p else p) true then pf else 0

def sz53Of (v : Byte) : Byte :=
  orIf (v == 0) zf 0 ||| orIf (v &&& 0x80#8 != 0) sf 0 ||| (v &&& (yf ||| xf))

def sz53pOf (v : Byte) : Byte := sz53Of v ||| parityOf v

end Flags

structure Registers where
  a : Byte := 0
  flags : Byte := 0
  b : Byte := 0
  c : Byte := 0
  d : Byte := 0
  e : Byte := 0
  h : Byte := 0
  l : Byte := 0
  aAlt : Byte := 0
  fAlt : Byte := 0
  bAlt : Byte := 0
  cAlt : Byte := 0
  dAlt : Byte := 0
  eAlt : Byte := 0
  hAlt : Byte := 0
  lAlt : Byte := 0
  ix : Word := 0
  iy : Word := 0
  sp : Word := 0
  pc : Word := 0
  wz : Word := 0
  i : Byte := 0
  r : Byte := 0
  iff1 : Bool := false
  iff2 : Bool := false
  im : Byte := 0
  halted : Bool := false
  eiPending : Bool := false
  q : Byte := 0

inductive IndexReg where
  | ix
  | iy
deriving DecidableEq

namespace Registers

def af (r : Registers) : Word := word r.a r.flags
def bc (r : Registers) : Word := word r.b r.c
def de (r : Registers) : Word := word r.d r.e
def hl (r : Registers) : Word := word r.h r.l

def setAf (v : Word) (r : Registers) : Registers := { r with a := hi v, flags := lo v }
def setBc (v : Word) (r : Registers) : Registers := { r with b := hi v, c := lo v }
def setDe (v : Word) (r : Registers) : Registers := { r with d := hi v, e := lo v }
def setHl (v : Word) (r : Registers) : Registers := { r with h := hi v, l := lo v }

def index (x : IndexReg) (r : Registers) : Word :=
  match x with
  | .ix => r.ix
  | .iy => r.iy

def setIndex (x : IndexReg) (v : Word) (r : Registers) : Registers :=
  match x with
  | .ix => { r with ix := v }
  | .iy => { r with iy := v }

/-- `*reg8_ptr(r, idx)`.  Index 6 is `(HL)`, which every caller handles itself. -/
def reg8 (idx : Nat) (r : Registers) : Byte :=
  match idx with
  | 0 => r.b
  | 1 => r.c
  | 2 => r.d
  | 3 => r.e
  | 4 => r.h
  | 5 => r.l
  | 7 => r.a
  | _ => 0

/-- `*reg8_ptr(r, idx) = v`. -/
def setReg8 (idx : Nat) (v : Byte) (r : Registers) : Registers :=
  match idx with
  | 0 => { r with b := v }
  | 1 => { r with c := v }
  | 2 => { r with d := v }
  | 3 => { r with e := v }
  | 4 => { r with h := v }
  | 5 => { r with l := v }
  | 7 => { r with a := v }
  | _ => r

def refreshAddress (r : Registers) : Word := word r.i r.r

/-- R bit 7 is preserved; only bits 0..6 increment. -/
def incR (r : Registers) : Registers :=
  { r with r := (r.r &&& 0x80#8) ||| ((r.r + 1) &&& 0x7F#8) }

/-- `Z80::reset` assigns these registers. -/
def atReset : Registers :=
  let r : Registers :=
    { pc := 0x0000, sp := 0xFFFF, a := 0xFF, flags := 0xFF, ix := 0xFFFF, iy := 0xFFFF, i := 0,
      r := 0, iff1 := false, iff2 := false, im := 0, halted := false, eiPending := false, wz := 0 }
  setHl 0xFFFF (setDe 0xFFFF (setBc 0xFFFF r))

end Registers
end Z80f
