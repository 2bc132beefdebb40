import Z80f.Block.Direction
import Z80f.Cpu.Registers
import Z80f.Positional.Signed

/-! # Results and flags, in numbers

What the flags say of a result, whatever the way it was computed: a carry is a
sum that does not fit, an overflow a signed one that does not, and the half
carry a carry out of all digits but the last hexadecimal one.  The width is a
parameter, as ADC and ADC HL differ in nothing else. -/

set_option autoImplicit false

namespace Z80f.Isa

open Flags Positional

/-- F from its bits, S first. -/
def pack (s z y h x p n c : Bool) : Byte :=
  orIf s sf (orIf z zf (orIf y yf (orIf h hf (orIf x xf (orIf p pf (orIf n nf (orIf c cf 0)))))))

section Result
variable {w : Nat}

/-- S, Z, Y and X come from the result; Y and X from its highest byte. -/
def resultFlags (result : BitVec w) (h p n c : Bool) : Byte :=
  pack result.msb (result == 0) (result.getLsbD (w - 3)) h (result.getLsbD (w - 5)) p n c

/-- As `resultFlags`, but S, Z and P/V stay what they are in `f`. -/
def keptFlags (f : Byte) (source : BitVec w) (h n c : Bool) : Byte :=
  pack (sign f) (zero f) (source.getLsbD (w - 3)) h (source.getLsbD (w - 5)) (parityOverflow f) n c

end Result

def evenParity (v : Byte) : Bool := (List.range 8).countP v.getLsbD % 2 == 0

section Width
variable {w : Nat} (x y : BitVec w) (c : Bool)

def carries (k : Nat) : Bool := decide (2 ^ k ≤ x.toNat % 2 ^ k + y.toNat % 2 ^ k + c.toNat)

def borrows (k : Nat) : Bool := decide (x.toNat % 2 ^ k < y.toNat % 2 ^ k + c.toNat)

def sum : BitVec w := x + y + BitVec.ofNat w c.toNat

def difference : BitVec w := x - y - BitVec.ofNat w c.toNat

def sumOverflows : Bool := overflows (2 ^ w) (x.toInt + y.toInt + c.toNat)

def differenceOverflows : Bool := overflows (2 ^ w) (x.toInt - y.toInt - c.toNat)

def sumFlags : Byte :=
  resultFlags (sum x y c) (carries x y c (w - 4)) (sumOverflows x y c) false (carries x y c w)

def differenceFlags : Byte :=
  resultFlags (difference x y c) (borrows x y c (w - 4)) (differenceOverflows x y c) true
    (borrows x y c w)

end Width

/-- CP shows Y and X of the operand. -/
def comparisonFlags (x y : Byte) : Byte :=
  pack (difference x y false).msb (difference x y false == 0) (y.getLsbD 5)
    (borrows x y false 4) (y.getLsbD 3) (differenceOverflows x y false) true (borrows x y false 8)

/-- INC and DEC leave C alone. -/
def incrementFlags (f v : Byte) : Byte :=
  resultFlags (v + 1) (carries v 1 false 4) (sumOverflows v 1 false) false (carry f)

def decrementFlags (f v : Byte) : Byte :=
  resultFlags (v - 1) (borrows v 1 false 4) (differenceOverflows v 1 false) true (carry f)

def logicFlags (result : Byte) (h : Bool) : Byte :=
  resultFlags result h (evenParity result) false false

/-- An input, and what else shows a byte and leaves C alone. -/
def shownFlags (f result : Byte) (p : Bool) : Byte := resultFlags result false p false (carry f)

/-- What DAA adds, or subtracts after a subtraction. -/
def adjustment (f a : Byte) : Byte :=
  (if halfCarry f || decide (9 < a.toNat % 16) then 0x06 else 0) +
    (if carry f || decide (0x99 < a.toNat) then 0x60 else 0)

def adjusted (f a : Byte) : Byte := if addSub f then a - adjustment f a else a + adjustment f a

def adjustedFlags (f a : Byte) : Byte :=
  resultFlags (adjusted f a) (a.getLsbD 4 != (adjusted f a).getLsbD 4) (evenParity (adjusted f a))
    (addSub f) (carry f || decide (0x99 < a.toNat))

inductive ShiftOp where
  | rlc
  | rrc
  | rl
  | rr
  | sla
  | sra
  | sll
  | srl

/-- The byte shifted, and the bit that went out. -/
def ShiftOp.apply (c : Bool) (v : Byte) : ShiftOp → Byte × Bool
  | .rlc => (v.rotateLeft 1, v.msb)
  | .rrc => (v.rotateRight 1, v.getLsbD 0)
  | .rl => (BitVec.setWidth 8 (v.concat c), v.msb)
  | .rr => (BitVec.setWidth 8 ((BitVec.cons c v) >>> 1), v.getLsbD 0)
  | .sla => (v <<< 1, v.msb)
  | .sra => (v.sshiftRight 1, v.getLsbD 0)
  | .sll => (BitVec.setWidth 8 (v.concat true), v.msb)
  | .srl => (v >>> 1, v.getLsbD 0)

def testFlags (f : Byte) (bit : Nat) (v shown : Byte) : Byte :=
  pack (bit == 7 && v.getLsbD 7) (!v.getLsbD bit) (shown.getLsbD 5) true (shown.getLsbD 3)
    (!v.getLsbD bit) false (carry f)

/-- LDI and LDD: Y and X from the byte moved plus A. -/
def moveFlags (f a byte : Byte) (left : Word) : Byte :=
  pack (sign f) (zero f) ((byte + a).getLsbD 1) false ((byte + a).getLsbD 3) (left != 0) false
    (carry f)

/-- CPI and CPD: Y and X from the difference without the half borrow. -/
def searchFlags (f a byte : Byte) (left : Word) : Byte :=
  let half := borrows a byte false 4
  let rest := difference a byte half
  pack (difference a byte false).msb (difference a byte false == 0) (rest.getLsbD 1) half
    (rest.getLsbD 3) (left != 0) true (carry f)

/-- Input and output blocks: `k` is the byte plus what C or L has become. -/
def transferFlags (b byte : Byte) (k : Nat) : Byte :=
  resultFlags b (decide (255 < k)) (evenParity (BitVec.ofNat 8 (k % 8) ^^^ b)) byte.msb
    (decide (255 < k))

end Z80f.Isa
