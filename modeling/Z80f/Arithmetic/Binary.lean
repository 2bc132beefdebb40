import Z80f.Cpu.FlagBits
import Z80f.Host.Ram
import Z80f.Positional.Signed

/-! # Multi-byte binary numbers

One byte of an ADC or SBC chain is a digit in base 256.  The last byte leaves C,
S and V of the whole number in F, since the top digit carries the sign. -/

set_option autoImplicit false

namespace Z80f

open Interaction Stateful Z80M Flags Positional

def byteChain {Input : Type} (byte : Input → Z80M Byte) : List Input → Z80M (List Byte)
  | [] => return []
  | input :: rest => do
      let result ← byte input
      let results ← byteChain byte rest
      return result :: results

/-- A chain whose bytes depend on part of the CPU state scans with that part. -/
theorem byteChain_scans {Input State : Type} {byte : Input → Z80M Byte} (state : Cpu → State)
    {cell : Input → State → Byte × State}
    (step : ∀ input cpu, (byte input).Holds (fun result next _ =>
      (result, state next) = cell input (state cpu)) cpu)
    (inputs : List Input) (cpu : Cpu) :
    (byteChain byte inputs).Holds (fun results next _ =>
      (results, state next) = scan cell inputs (state cpu)) cpu := by
  induction inputs generalizing cpu with
  | nil => rfl
  | cons input rest ih =>
      rw [byteChain, holds_bind]
      apply (step input cpu).mono
      intro result middle _ cellOut
      rw [holds_bind]
      apply (ih middle).mono
      intro results last _ scanOut
      rw [holds_pure, scan, ← cellOut]
      dsimp only
      rw [← scanOut]

def binaryByte (operation : Byte → Z80M Unit) (pair : Byte × Byte) : Z80M Byte := do
  modifyRegs fun r => { r with a := pair.1 }
  operation pair.2
  return (← getRegs).a

/-- ADC A,y on A = x, with the flags that come out. -/
def adcByte (pair : Byte × Byte) (flags : Byte) : Byte × Byte :=
  (lo (addSum pair.1 pair.2 (carryIn true flags)), addFlags pair.1 pair.2 (carryIn true flags))

def sbcByte (pair : Byte × Byte) (flags : Byte) : Byte × Byte :=
  (lo (subDiff pair.1 pair.2 (carryIn true flags)), subFlags pair.1 pair.2 (carryIn true flags))

theorem binaryByte_adc (pair : Byte × Byte) (cpu : Cpu) :
    (binaryByte (aluAdd · true) pair).Holds (fun result next _ =>
      (result, next.regs.flags) = adcByte pair cpu.regs.flags) cpu := by
  simp [binaryByte, adcByte]

theorem binaryByte_sbc (pair : Byte × Byte) (cpu : Cpu) :
    (binaryByte (aluSub · true) pair).Holds (fun result next _ =>
      (result, next.regs.flags) = sbcByte pair cpu.regs.flags) cpu := by
  simp [binaryByte, sbcByte]

def adcDigit (x y : Byte) (c : Bool) : Byte × Bool :=
  (lo (addSum x y (carryWord c)), carry (addFlags x y (carryWord c)))

def sbcDigit (x y : Byte) (c : Bool) : Byte × Bool :=
  (lo (subDiff x y (carryWord c)), carry (subFlags x y (carryWord c)))

theorem byte_digits : IsDigits 256 BitVec.toNat fun _ : Byte => True where
  big := by decide
  small := fun d _ => d.isLt

abbrev littleEndian (bytes : List Byte) : Nat := number 256 BitVec.toNat bytes

def twosComplement (bytes : List Byte) : Int := Int.bmod (littleEndian bytes) (256 ^ bytes.length)

theorem littleEndian_lt (bytes : List Byte) : littleEndian bytes < 256 ^ bytes.length :=
  number_lt 256 BitVec.toNat (by decide) fun d _ => d.isLt

theorem adcDigit_adds : AddsDigit 256 BitVec.toNat (fun _ => True) adcDigit where
  toIsDigits := byte_digits
  valid_out := fun _ _ _ _ _ => trivial
  sum := by
    intro x y c _ _
    have xBound := x.isLt
    have yBound := y.isLt
    have cBound := Bool.toNat_le c
    obtain ⟨carryOf, -, -⟩ := addFlags_bits x y (carryWord_le c)
    rw [adcDigit, carryOf, toNat_lo, toNat_addSum x y (carryWord_le c), carryWord_toNat]
    by_cases out : 256 ≤ x.toNat + y.toNat + c.toNat
    · rw [decide_eq_true out, Bool.toNat_true]
      omega
    · rw [decide_eq_false out, Bool.toNat_false]
      omega

theorem sbcDigit_subtracts : SubtractsDigit 256 BitVec.toNat (fun _ => True) sbcDigit where
  toIsDigits := byte_digits
  valid_out := fun _ _ _ _ _ => trivial
  difference := by
    intro x y c _ _
    have xBound := x.isLt
    have yBound := y.isLt
    have cBound := Bool.toNat_le c
    obtain ⟨borrowOf, -, -⟩ := subFlags_bits x y (carryWord_le c)
    rw [sbcDigit, borrowOf, toNat_lo, toNat_subDiff x y (carryWord_le c), carryWord_toNat]
    by_cases out : x.toNat < y.toNat + c.toNat
    · rw [decide_eq_true out, Bool.toNat_true]
      omega
    · rw [decide_eq_false out, Bool.toNat_false]
      omega

theorem scan_adcByte (pairs : List (Byte × Byte)) (flags : Byte) :
    ripple adcDigit pairs (carry flags) =
      ((scan adcByte pairs flags).1, carry (scan adcByte pairs flags).2) := by
  rw [← scan_ripple]
  apply scan_abstract adcByte carry
  intro pair flags
  rfl

theorem scan_sbcByte (pairs : List (Byte × Byte)) (flags : Byte) :
    ripple sbcDigit pairs (carry flags) =
      ((scan sbcByte pairs flags).1, carry (scan sbcByte pairs flags).2) := by
  rw [← scan_ripple]
  apply scan_abstract sbcByte carry
  intro pair flags
  rfl

theorem modulus_even (k : Nat) : 256 ^ (k + 1) = 2 * (128 * 256 ^ k) := by
  rw [pow_succ]
  omega

section TopByte
variable {xs ys rs : List Byte} (x y r : Byte) {k : Nat} {c out : Bool} (xLength : xs.length = k)
  (yLength : ys.length = k) (rLength : rs.length = k)

section Numeral
include xLength

theorem top_bit : x.msb = decide (128 * 256 ^ k ≤ littleEndian (xs ++ [x])) := by
  rw [BitVec.msb_eq_decide, decide_eq_decide, ← xLength]
  exact (@number_negative Byte 128 BitVec.toNat xs x (by decide) fun d _ => d.isLt).symm

theorem top_bound : littleEndian (xs ++ [x]) < 2 * (128 * 256 ^ k) := by
  have bound := littleEndian_lt (xs ++ [x])
  rwa [List.length_append, List.length_singleton, xLength, modulus_even] at bound

theorem top_signed : twosComplement (xs ++ [x]) =
    Int.bmod (littleEndian (xs ++ [x])) (2 * (128 * 256 ^ k)) := by
  rw [twosComplement, List.length_append, List.length_singleton, xLength, modulus_even]

theorem top_negative : x.msb = decide (twosComplement (xs ++ [x]) < 0) := by
  rw [top_signed x xLength, bmod_negative (top_bound x xLength), top_bit x xLength]

end Numeral

include xLength yLength rLength

theorem top_sum (balance : littleEndian (rs ++ [r]) + 256 ^ (k + 1) * out.toNat =
      littleEndian (xs ++ [x]) + littleEndian (ys ++ [y]) + c.toNat) :
    ((x.msb == y.msb) && (x.msb != r.msb)) = overflows (256 ^ (k + 1))
      (twosComplement (xs ++ [x]) + twosComplement (ys ++ [y]) + c.toNat) := by
  rw [modulus_even] at balance
  rw [top_bit x xLength, top_bit y yLength, top_bit r rLength, top_signed x xLength,
    top_signed y yLength, modulus_even]
  exact sum_overflow (top_bound x xLength) (top_bound y yLength) (top_bound r rLength) balance

theorem top_difference (balance : littleEndian (rs ++ [r]) + littleEndian (ys ++ [y]) + c.toNat =
      littleEndian (xs ++ [x]) + 256 ^ (k + 1) * out.toNat) :
    let difference := twosComplement (xs ++ [x]) - twosComplement (ys ++ [y]) - c.toNat
    ((x.msb != y.msb) && (x.msb != r.msb)) = overflows (256 ^ (k + 1)) difference ∧
      (r.msb ^^ ((x.msb != y.msb) && (x.msb != r.msb))) = decide (difference < 0) := by
  rw [modulus_even] at balance
  have overflow := difference_overflow (top_bound x xLength) (top_bound y yLength)
    (top_bound r rLength) balance
  have less := difference_less (top_bound x xLength) (top_bound y yLength)
    (top_bound r rLength) balance
  dsimp only at overflow less ⊢
  rw [← overflow] at less
  rw [top_bit x xLength, top_bit y yLength, top_bit r rLength, top_signed x xLength,
    top_signed y yLength, modulus_even]
  exact ⟨overflow, less⟩

end TopByte

section LastByte
variable (below : List (Byte × Byte)) (pair : Byte × Byte) (flags : Byte)

theorem adc_last :
    let out := scan adcByte (below ++ [pair]) flags
    ∃ low top, low.length = below.length ∧ out.1 = low ++ [top] ∧ sign out.2 = top.msb ∧
      parityOverflow out.2 = ((pair.1.msb == pair.2.msb) && (pair.1.msb != top.msb)) := by
  intro out
  have parts : out = _ := scan_append adcByte below [pair] flags
  refine ⟨(scan adcByte below flags).1, (adcByte pair (scan adcByte below flags).2).1,
    scan_length adcByte below flags, ?_, ?_, ?_⟩
  · rw [parts]
    rfl
  · rw [parts]
    exact sign_addFlags pair.1 pair.2 _
  · rw [parts]
    exact overflow_addFlags pair.1 pair.2 _

theorem sbc_last :
    let out := scan sbcByte (below ++ [pair]) flags
    ∃ low top, low.length = below.length ∧ out.1 = low ++ [top] ∧ sign out.2 = top.msb ∧
      parityOverflow out.2 = ((pair.1.msb != pair.2.msb) && (pair.1.msb != top.msb)) := by
  intro out
  have parts : out = _ := scan_append sbcByte below [pair] flags
  refine ⟨(scan sbcByte below flags).1, (sbcByte pair (scan sbcByte below flags).2).1,
    scan_length sbcByte below flags, ?_, ?_, ?_⟩
  · rw [parts]
    rfl
  · rw [parts]
    exact sign_subFlags pair.1 pair.2 _
  · rw [parts]
    exact overflow_subFlags pair.1 pair.2 _

end LastByte

section Signed
variable (below : List (Byte × Byte)) (pair : Byte × Byte) (flags : Byte)

/-- V is the overflow of the signed sum, S the sign of what is stored. -/
theorem adc_signed :
    let pairs := below ++ [pair]
    let out := scan adcByte pairs flags
    parityOverflow out.2 = overflows (256 ^ pairs.length) (twosComplement (pairs.map Prod.fst) +
        twosComplement (pairs.map Prod.snd) + (carry flags).toNat) ∧
      sign out.2 = decide (twosComplement out.1 < 0) := by
  have balance := @AddsDigit.balance _ 256 BitVec.toNat _ _ (below ++ [pair])
    (fun _ _ => ⟨trivial, trivial⟩) (carry flags) adcDigit_adds
  obtain ⟨low, top, length, bytes, signIs, overflowIs⟩ := adc_last below pair flags
  rw [scan_adcByte, bytes] at balance
  dsimp only
  rw [signIs, overflowIs, bytes]
  simp only [List.map_append, List.length_append, List.length_singleton] at balance ⊢
  exact ⟨top_sum pair.1 pair.2 top (List.length_map _) (List.length_map _) length balance,
    top_negative top length⟩

/-- V is the overflow of the signed difference, and S with V compares. -/
theorem sbc_signed :
    let pairs := below ++ [pair]
    let out := scan sbcByte pairs flags
    let difference := twosComplement (pairs.map Prod.fst) - twosComplement (pairs.map Prod.snd) -
      (carry flags).toNat
    parityOverflow out.2 = overflows (256 ^ pairs.length) difference ∧
      (sign out.2 ^^ parityOverflow out.2) = decide (difference < 0) := by
  have balance := @SubtractsDigit.balance _ 256 BitVec.toNat _ _ (below ++ [pair])
    (fun _ _ => ⟨trivial, trivial⟩) (carry flags) sbcDigit_subtracts
  obtain ⟨low, top, length, bytes, signIs, overflowIs⟩ := sbc_last below pair flags
  rw [scan_sbcByte, bytes] at balance
  dsimp only
  rw [signIs, overflowIs]
  simp only [List.map_append, List.length_append, List.length_singleton] at balance ⊢
  exact top_difference pair.1 pair.2 top (List.length_map _) (List.length_map _) length balance

end Signed

/-! ## Numbers of any length -/

theorem binary_chain {Host : Type} (bus : Bus Host) (xs ys : List Byte) (nonempty : xs ≠ [])
    (sameLength : xs.length = ys.length) (s : Machine Host) :
    let n := xs.length
    let c := (carry s.z80.regs.flags).toNat
    let added := exec bus (byteChain (binaryByte (aluAdd · true)) (xs.zip ys)) s
    let subtracted := exec bus (byteChain (binaryByte (aluSub · true)) (xs.zip ys)) s
    let sum := littleEndian xs + littleEndian ys + c
    let difference : Int := littleEndian xs - littleEndian ys - c
    (added.value.length = n ∧ littleEndian added.value = sum % 256 ^ n ∧
      carry added.machine.z80.regs.flags = decide (256 ^ n ≤ sum) ∧
      parityOverflow added.machine.z80.regs.flags =
        overflows (256 ^ n) (twosComplement xs + twosComplement ys + c) ∧
      sign added.machine.z80.regs.flags = decide (twosComplement added.value < 0)) ∧
    (subtracted.value.length = n ∧ (littleEndian subtracted.value : Int) = difference % 256 ^ n ∧
      carry subtracted.machine.z80.regs.flags =
        decide (littleEndian xs < littleEndian ys + c) ∧
      parityOverflow subtracted.machine.z80.regs.flags =
        overflows (256 ^ n) (twosComplement xs - twosComplement ys - c) ∧
      (sign subtracted.machine.z80.regs.flags ^^
          parityOverflow subtracted.machine.z80.regs.flags) =
        decide (twosComplement xs < twosComplement ys + c)) := by
  intro n c added subtracted sum difference
  have length : (xs.zip ys).length = n := by rw [List.length_zip, ← sameLength, Nat.min_self]
  have firsts : (xs.zip ys).map Prod.fst = xs := List.map_fst_zip sameLength.le
  have seconds : (xs.zip ys).map Prod.snd = ys := List.map_snd_zip sameLength.ge
  obtain ⟨below, pair, pairs⟩ : ∃ below pair, xs.zip ys = below ++ [pair] := by
    rcases List.eq_nil_or_concat' (xs.zip ys) with none | some
    · rw [none] at firsts
      exact absurd firsts.symm nonempty
    · exact some
  have digits : ∀ p ∈ xs.zip ys, True ∧ True := fun _ _ => ⟨trivial, trivial⟩
  have addScan := Prod.mk.inj (Holds.exec bus s (byteChain_scans (fun cpu => cpu.regs.flags)
    binaryByte_adc (xs.zip ys) s.z80.toCpu))
  have subScan := Prod.mk.inj (Holds.exec bus s (byteChain_scans (fun cpu => cpu.regs.flags)
    binaryByte_sbc (xs.zip ys) s.z80.toCpu))
  obtain ⟨sumIs, carryIs⟩ := adcDigit_adds.ripple_mod digits (carry s.z80.regs.flags)
  obtain ⟨differenceIs, borrowIs⟩ := sbcDigit_subtracts.ripple_mod digits
    (carry s.z80.regs.flags)
  rw [scan_adcByte] at sumIs carryIs
  rw [scan_sbcByte] at differenceIs borrowIs
  have addSigned := adc_signed below pair s.z80.regs.flags
  have subSigned := sbc_signed below pair s.z80.regs.flags
  rw [← pairs] at addSigned subSigned
  dsimp only at addSigned subSigned
  rw [firsts, seconds, length] at sumIs carryIs differenceIs addSigned subSigned
  rw [firsts, seconds] at borrowIs
  have compares : decide (twosComplement xs - twosComplement ys - c < 0) =
      decide (twosComplement xs < twosComplement ys + c) := by
    rw [decide_eq_decide]
    omega
  simp only [added, subtracted, addScan.1, addScan.2, subScan.1, subScan.2]
  refine ⟨⟨?_, sumIs, carryIs, addSigned⟩, ?_, differenceIs, borrowIs, subSigned.1, ?_⟩
  · rw [scan_length, length]
  · rw [scan_length, length]
  · exact subSigned.2.trans compares

/-- 0x7FFF + 1 overflows. -/
theorem binary_chain_top :
    let s : Machine Memory := { z80 := {}, host := programAt 0 [] 0 }
    parityOverflow (exec flatRam.toBus (byteChain (binaryByte (aluAdd · true))
      ([0xFF, 0x7F].zip [0x01, 0x00])) s).machine.z80.regs.flags = true :=
  (binary_chain flatRam.toBus [0xFF, 0x7F] [0x01, 0x00] (by decide) rfl
    { z80 := {}, host := programAt 0 [] 0 }).1.2.2.2.1.trans (by decide)

end Z80f
