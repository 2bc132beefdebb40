import Z80f.Cpu.FlagBits
import Z80f.Host.Ram
import Z80f.Positional.Ripple

/-! # Multi-byte packed decimals

`alu_daa` reads H, C and N as `alu_add` and `alu_sub` left them.  One byte of
the chain is a digit in base 100; the rest is carried by `ripple`. -/

set_option autoImplicit false

namespace Z80f

open Interaction Stateful Z80M Flags Positional

def isPacked (b : Byte) : Prop := b.toNat / 16 ≤ 9 ∧ b.toNat % 16 ≤ 9

def packedValue (b : Byte) : Nat := 10 * (b.toNat / 16) + b.toNat % 16

instance (b : Byte) : Decidable (isPacked b) := inferInstanceAs (Decidable (_ ∧ _))

theorem packed_digits : IsDigits 100 packedValue isPacked where
  big := by decide
  small := by
    rintro b ⟨tens, ones⟩
    unfold packedValue
    omega

def correction (low high : Bool) : Nat := (if low then 6 else 0) + (if high then 0x60 else 0)

theorem daaCorrection_toNat (a flags : Byte) : (daaCorrection a flags).toNat =
    correction (halfCarry flags || decide (9 < a.toNat % 16))
      (carry flags || decide (0x99 < a.toNat)) := by
  have nibble : (a &&& 0x0F#8).toNat = a.toNat % 16 := by
    rw [BitVec.toNat_and]
    exact Nat.and_two_pow_sub_one_eq_mod _ 4
  rw [daaCorrection, nibble]
  generalize (halfCarry flags || decide (9 < a.toNat % 16)) = low
  generalize (carry flags || decide (0x99 < a.toNat)) = high
  revert low high
  decide

theorem carry_daaFlags (a flags : Byte) :
    carry (daaFlags a flags) = (carry flags || decide (0x99 < a.toNat)) := by
  simp [daaFlags, carry_bit, sz53pOf]

theorem daaResult_toNat_add {a flags : Byte} (add : addSub flags = false) :
    (daaResult a flags).toNat = (a.toNat + (daaCorrection a flags).toNat) % 256 := by
  rw [daaResult, add]
  exact BitVec.toNat_add _ _

theorem daaResult_toNat_sub {a flags : Byte} (sub : addSub flags = true) :
    (daaResult a flags).toNat = (256 - (daaCorrection a flags).toNat + a.toNat) % 256 := by
  rw [daaResult, sub]
  exact BitVec.toNat_sub _ _

section Numbers
variable {x y c : Nat} (xTens : x / 16 ≤ 9) (xOnes : x % 16 ≤ 9) (yTens : y / 16 ≤ 9)
  (yOnes : y % 16 ≤ 9) (cBound : c ≤ 1)
include xTens xOnes yTens yOnes cBound

/-- Six is added to a nibble that reached ten, and it carries then. -/
theorem add_adjust :
    let a := (x + y + c) % 256
    let high := decide (256 ≤ x + y + c) || decide (0x99 < a)
    let r := (a + correction (decide (16 ≤ x % 16 + y % 16 + c) || decide (9 < a % 16)) high) % 256
    (r / 16 ≤ 9 ∧ r % 16 ≤ 9) ∧
      10 * (r / 16) + r % 16 + 100 * high.toNat =
        10 * (x / 16) + x % 16 + (10 * (y / 16) + y % 16) + c := by
  have lowIff : (decide (16 ≤ x % 16 + y % 16 + c) || decide (9 < (x + y + c) % 256 % 16)) =
      decide (10 ≤ x % 16 + y % 16 + c) := by
    rw [← Bool.decide_or, decide_eq_decide]
    omega
  have highIff : (decide (256 ≤ x + y + c) || decide (0x99 < (x + y + c) % 256)) =
      decide (0x99 < x + y + c) := by
    rw [← Bool.decide_or, decide_eq_decide]
    omega
  simp only [lowIff, highIff]
  by_cases low : 10 ≤ x % 16 + y % 16 + c <;> by_cases high : 0x99 < x + y + c <;>
    simp only [low, high, correction, decide_true, decide_false, if_true, if_false,
      Bool.toNat_true, Bool.toNat_false, Bool.false_eq_true] <;> omega

theorem sub_adjust :
    let a := (256 + x - y - c) % 256
    let high := decide (x < y + c) || decide (0x99 < a)
    let r := (256 - correction (decide (x % 16 < y % 16 + c) || decide (9 < a % 16)) high + a) % 256
    (r / 16 ≤ 9 ∧ r % 16 ≤ 9) ∧
      10 * (r / 16) + r % 16 + (10 * (y / 16) + y % 16) + c =
        10 * (x / 16) + x % 16 + 100 * high.toNat := by
  have lowIff : (decide (x % 16 < y % 16 + c) || decide (9 < (256 + x - y - c) % 256 % 16)) =
      decide (x % 16 < y % 16 + c) := by
    rw [← Bool.decide_or, decide_eq_decide]
    omega
  have highIff : (decide (x < y + c) || decide (0x99 < (256 + x - y - c) % 256)) =
      decide (x < y + c) := by
    rw [← Bool.decide_or, decide_eq_decide]
    omega
  simp only [lowIff, highIff]
  by_cases low : x % 16 < y % 16 + c <;> by_cases high : x < y + c <;>
    simp only [low, high, correction, decide_true, decide_false, if_true, if_false,
      Bool.toNat_true, Bool.toNat_false, Bool.false_eq_true] <;> omega

end Numbers

def adcDaa (x y : Byte) (c : Bool) : Byte × Bool :=
  let flags := addFlags x y (carryWord c)
  let a := lo (addSum x y (carryWord c))
  (daaResult a flags, carry (daaFlags a flags))

def sbcDaa (x y : Byte) (c : Bool) : Byte × Bool :=
  let flags := subFlags x y (carryWord c)
  let a := lo (subDiff x y (carryWord c))
  (daaResult a flags, carry (daaFlags a flags))

theorem adcDaa_toNat (x y : Byte) (c : Bool) :
    let a := (x.toNat + y.toNat + c.toNat) % 256
    let high := decide (256 ≤ x.toNat + y.toNat + c.toNat) || decide (0x99 < a)
    (adcDaa x y c).2 = high ∧ (adcDaa x y c).1.toNat =
      (a + correction (decide (16 ≤ x.toNat % 16 + y.toNat % 16 + c.toNat) ||
        decide (9 < a % 16)) high) % 256 := by
  obtain ⟨carryOf, half, add⟩ := addFlags_bits x y (carryWord_le c)
  have sum : (lo (addSum x y (carryWord c))).toNat = (x.toNat + y.toNat + c.toNat) % 256 := by
    rw [toNat_lo, toNat_addSum x y (carryWord_le c), carryWord_toNat]
  rw [carryWord_toNat] at carryOf half
  constructor
  · rw [adcDaa, carry_daaFlags, carryOf, sum]
  · rw [adcDaa, daaResult_toNat_add add, daaCorrection_toNat, carryOf, half, sum]

theorem sbcDaa_toNat (x y : Byte) (c : Bool) :
    let a := (256 + x.toNat - y.toNat - c.toNat) % 256
    let high := decide (x.toNat < y.toNat + c.toNat) || decide (0x99 < a)
    (sbcDaa x y c).2 = high ∧ (sbcDaa x y c).1.toNat =
      (256 - correction (decide (x.toNat % 16 < y.toNat % 16 + c.toNat) ||
        decide (9 < a % 16)) high + a) % 256 := by
  obtain ⟨carryOf, half, sub⟩ := subFlags_bits x y (carryWord_le c)
  have difference : (lo (subDiff x y (carryWord c))).toNat =
      (256 + x.toNat - y.toNat - c.toNat) % 256 := by
    have xBound := x.isLt
    have yBound := y.isLt
    have cBound := carryWord_le c
    rw [toNat_lo, toNat_subDiff x y (carryWord_le c), ← carryWord_toNat]
    omega
  rw [carryWord_toNat] at carryOf half
  constructor
  · rw [sbcDaa, carry_daaFlags, carryOf, difference]
  · rw [sbcDaa, daaResult_toNat_sub sub, daaCorrection_toNat, carryOf, half, difference]

theorem adcDaa_adds : AddsDigit 100 packedValue isPacked adcDaa where
  toIsDigits := packed_digits
  valid_out := by
    rintro x y c ⟨xTens, xOnes⟩ ⟨yTens, yOnes⟩
    have packed := (add_adjust xTens xOnes yTens yOnes (Bool.toNat_le c)).1
    rw [← (adcDaa_toNat x y c).2] at packed
    exact packed
  sum := by
    rintro x y c ⟨xTens, xOnes⟩ ⟨yTens, yOnes⟩
    have value := (add_adjust xTens xOnes yTens yOnes (Bool.toNat_le c)).2
    rw [← (adcDaa_toNat x y c).2, ← (adcDaa_toNat x y c).1] at value
    exact value

theorem sbcDaa_subtracts : SubtractsDigit 100 packedValue isPacked sbcDaa where
  toIsDigits := packed_digits
  valid_out := by
    rintro x y c ⟨xTens, xOnes⟩ ⟨yTens, yOnes⟩
    have packed := (sub_adjust xTens xOnes yTens yOnes (Bool.toNat_le c)).1
    rw [← (sbcDaa_toNat x y c).2] at packed
    exact packed
  difference := by
    rintro x y c ⟨xTens, xOnes⟩ ⟨yTens, yOnes⟩
    have value := (sub_adjust xTens xOnes yTens yOnes (Bool.toNat_le c)).2
    rw [← (sbcDaa_toNat x y c).2, ← (sbcDaa_toNat x y c).1] at value
    exact value

/-! ## The chain -/

/-- `A = x`, the operation with `y`, DAA; the byte is left in A. -/
def decimalByte (operation : Byte → Z80M Unit) (x y : Byte) : Z80M Byte := do
  modifyRegs fun r => { r with a := x }
  operation y
  aluDaa
  return (← getRegs).a

/-- From the least significant byte on. -/
def decimalChain (operation : Byte → Z80M Unit) : List (Byte × Byte) → Z80M (List Byte)
  | [] => return []
  | (x, y) :: rest => do
      let byte ← decimalByte operation x y
      let bytes ← decimalChain operation rest
      return byte :: bytes

theorem decimalByte_adc (x y : Byte) (cpu : Cpu) :
    (decimalByte (aluAdd · true) x y).Holds (fun byte next _ =>
      (byte, carry next.regs.flags) = adcDaa x y (carry cpu.regs.flags)) cpu := by
  have carryIs : carryIn true cpu.regs.flags = carryWord (carry cpu.regs.flags) := rfl
  simp [decimalByte, carryIs, adcDaa]

theorem decimalByte_sbc (x y : Byte) (cpu : Cpu) :
    (decimalByte (aluSub · true) x y).Holds (fun byte next _ =>
      (byte, carry next.regs.flags) = sbcDaa x y (carry cpu.regs.flags)) cpu := by
  have carryIs : carryIn true cpu.regs.flags = carryWord (carry cpu.regs.flags) := rfl
  simp [decimalByte, carryIs, sbcDaa]

theorem decimalChain_ripples {operation : Byte → Z80M Unit}
    {cell : Byte → Byte → Bool → Byte × Bool}
    (byte : ∀ x y cpu, (decimalByte operation x y).Holds (fun byte next _ =>
      (byte, carry next.regs.flags) = cell x y (carry cpu.regs.flags)) cpu)
    (pairs : List (Byte × Byte)) (cpu : Cpu) :
    (decimalChain operation pairs).Holds (fun bytes next _ =>
      (bytes, carry next.regs.flags) = ripple cell pairs (carry cpu.regs.flags)) cpu := by
  induction pairs generalizing cpu with
  | nil => rfl
  | cons pair rest ih =>
      rw [decimalChain, holds_bind]
      refine (byte pair.1 pair.2 cpu).mono ?_
      intro first middle _ cellOut
      rw [holds_bind]
      refine (ih middle).mono ?_
      intro bytes last _ rippleOut
      rw [holds_pure, ripple, ← cellOut]
      dsimp only
      rw [← rippleOut]

/-- Addition and subtraction of packed decimals of any length, with ADC or SBC
and DAA on each byte. -/
theorem decimal_chain {Host : Type} (bus : Bus Host) (xs ys : List Byte)
    (sameLength : xs.length = ys.length) (xsPacked : ∀ b ∈ xs, isPacked b)
    (ysPacked : ∀ b ∈ ys, isPacked b) (s : Machine Host) :
    let n := xs.length
    let x := number 100 packedValue xs
    let y := number 100 packedValue ys
    let c := (carry s.z80.regs.flags).toNat
    let added := exec bus (decimalChain (aluAdd · true) (xs.zip ys)) s
    let subtracted := exec bus (decimalChain (aluSub · true) (xs.zip ys)) s
    (added.value.length = n ∧ (∀ b ∈ added.value, isPacked b) ∧
      number 100 packedValue added.value = (x + y + c) % 100 ^ n ∧
      carry added.machine.z80.regs.flags = decide (100 ^ n ≤ x + y + c)) ∧
    (subtracted.value.length = n ∧ (∀ b ∈ subtracted.value, isPacked b) ∧
      (number 100 packedValue subtracted.value : Int) = ((x : Int) - y - c) % 100 ^ n ∧
      carry subtracted.machine.z80.regs.flags = decide (x < y + c)) := by
  intro n x y c added subtracted
  have packed : ∀ p ∈ xs.zip ys, isPacked p.1 ∧ isPacked p.2 := fun p member =>
    ⟨xsPacked _ (List.of_mem_zip member).1, ysPacked _ (List.of_mem_zip member).2⟩
  have length : (xs.zip ys).length = n := by rw [List.length_zip, ← sameLength, Nat.min_self]
  have firsts : (xs.zip ys).map Prod.fst = xs := List.map_fst_zip sameLength.le
  have seconds : (xs.zip ys).map Prod.snd = ys := List.map_snd_zip sameLength.ge
  have sum := Prod.mk.inj
    (Holds.exec bus s (decimalChain_ripples decimalByte_adc (xs.zip ys) s.z80.toCpu))
  have difference := Prod.mk.inj
    (Holds.exec bus s (decimalChain_ripples decimalByte_sbc (xs.zip ys) s.z80.toCpu))
  obtain ⟨sumIs, carryIs⟩ := adcDaa_adds.ripple_mod packed (carry s.z80.regs.flags)
  obtain ⟨differenceIs, borrowIs⟩ := sbcDaa_subtracts.ripple_mod packed (carry s.z80.regs.flags)
  rw [firsts, seconds, length] at sumIs carryIs
  rw [firsts, seconds, length] at differenceIs
  rw [firsts, seconds] at borrowIs
  simp only [added, subtracted, sum.1, sum.2, difference.1, difference.2]
  refine ⟨⟨?_, ?_, sumIs, carryIs⟩, ?_, ?_, differenceIs, borrowIs⟩
  · rw [ripple_length, length]
  · exact ripple_valid adcDaa_adds.valid_out packed _
  · rw [ripple_length, length]
  · exact ripple_valid sbcDaa_subtracts.valid_out packed _

theorem decimal_chain_thousands :
    let s : Machine Memory := { z80 := {}, host := programAt 0 [] 0 }
    carry (exec flatRam.toBus (decimalChain (aluAdd · true) ([0x99, 0x19].zip [0x01, 0x00]))
      s).machine.z80.regs.flags = decide (100 ^ 2 ≤ 2000) :=
  (decimal_chain flatRam.toBus [0x99, 0x19] [0x01, 0x00] rfl (by decide) (by decide)
    { z80 := {}, host := programAt 0 [] 0 }).1.2.2.2

end Z80f
