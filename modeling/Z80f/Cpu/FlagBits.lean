import Z80f.Cpu.Instructions

/-! # The bits of F

Every flag is one bit of F, and `orIf`, `&` and `|` act on it bit by bit. -/

set_option autoImplicit false

namespace Z80f.Flags

theorem sign_bit : ∀ f : Byte, sign f = f[7] := by decide
theorem zero_bit : ∀ f : Byte, zero f = f[6] := by decide
theorem halfCarry_bit : ∀ f : Byte, halfCarry f = f[4] := by decide
theorem parityOverflow_bit : ∀ f : Byte, parityOverflow f = f[2] := by decide
theorem addSub_bit : ∀ f : Byte, addSub f = f[1] := by decide
theorem carry_bit : ∀ f : Byte, carry f = f[0] := by decide

section Bits
variable (i : Nat) (inside : i < 8)

@[simp] theorem getElem_orIf (condition : Bool) (mask f : Byte) :
    (orIf condition mask f)[i] = (f[i] || condition && mask[i]) := by
  cases condition <;> simp [orIf]

@[simp] theorem getElem_sf : sf[i] = decide (i = 7) := by
  revert i
  decide
@[simp] theorem getElem_zf : zf[i] = decide (i = 6) := by
  revert i
  decide
@[simp] theorem getElem_yf : yf[i] = decide (i = 5) := by
  revert i
  decide
@[simp] theorem getElem_hf : hf[i] = decide (i = 4) := by
  revert i
  decide
@[simp] theorem getElem_xf : xf[i] = decide (i = 3) := by
  revert i
  decide
@[simp] theorem getElem_pf : pf[i] = decide (i = 2) := by
  revert i
  decide
@[simp] theorem getElem_nf : nf[i] = decide (i = 1) := by
  revert i
  decide
@[simp] theorem getElem_cf : cf[i] = decide (i = 0) := by
  revert i
  decide

@[simp] theorem getElem_parityOf (v : Byte) (other : i ≠ 2) : (parityOf v)[i] = false := by
  unfold parityOf
  split <;> simp [other]

end Bits

section Sz53
variable (v : Byte)

@[simp] theorem sign_sz53Of : (sz53Of v)[7] = v[7] := by
  have top : (v &&& 0x80#8 != 0#8) = v[7] := sign_bit v
  simp [sz53Of, top]
@[simp] theorem zero_sz53Of : (sz53Of v)[6] = (v == 0) := by simp [sz53Of]
@[simp] theorem halfCarry_sz53Of : (sz53Of v)[4] = false := by simp [sz53Of]
@[simp] theorem parityOverflow_sz53Of : (sz53Of v)[2] = false := by simp [sz53Of]
@[simp] theorem addSub_sz53Of : (sz53Of v)[1] = false := by simp [sz53Of]
@[simp] theorem carry_sz53Of : (sz53Of v)[0] = false := by simp [sz53Of]

end Sz53

/-- `(x & mask) != 0` for a mask of one bit. -/
theorem and_bit {w : Nat} (x mask : BitVec w) (i : Nat) (isBit : mask = BitVec.twoPow w i)
    (inside : i < w) : (x &&& mask != 0#w) = x.getLsbD i := by
  rw [isBit, BitVec.and_twoPow]
  cases x.getLsbD i with
  | false => simp
  | true =>
      have nonzero : BitVec.twoPow w i ≠ 0#w := by
        intro zero
        have bit := congrArg (BitVec.getLsbD · i) zero
        simp [inside] at bit
      simpa using nonzero

theorem bit_toNat {w : Nat} (x : BitVec w) (i weight : Nat) (shifted : 1 <<< i = weight) :
    x.getLsbD i = decide (x.toNat / weight % 2 = 1) := by
  rw [← shifted, Nat.one_shiftLeft]
  exact Nat.testBit_eq_decide_div_mod_eq

theorem xor_parity (x y z : Nat) :
    ((decide (x % 2 = 1) ^^ decide (y % 2 = 1)) ^^ decide (z % 2 = 1)) =
      decide ((x + y + z) % 2 = 1) := by
  rcases Nat.mod_two_eq_zero_or_one x with even | odd <;>
    rcases Nat.mod_two_eq_zero_or_one y with even' | odd' <;>
      rcases Nat.mod_two_eq_zero_or_one z with even'' | odd'' <;>
        simp [*, Nat.add_mod]

section Overflow
variable {w : Nat} (x y z mask : BitVec w) (i : Nat) (isBit : mask = BitVec.twoPow w i)
  (inside : i < w)
include isBit inside

/-- `(~(x ^ y) & (x ^ z) & mask) != 0`. -/
theorem sum_overflow_bit : (~~~(x ^^^ y) &&& (x ^^^ z) &&& mask != 0#w) =
    ((x.getLsbD i == y.getLsbD i) && (x.getLsbD i != z.getLsbD i)) := by
  rw [and_bit _ mask i isBit inside, BitVec.getLsbD_and, BitVec.getLsbD_not, BitVec.getLsbD_xor,
    BitVec.getLsbD_xor, decide_eq_true inside]
  cases x.getLsbD i <;> cases y.getLsbD i <;> rfl

/-- `((x ^ y) & (x ^ z) & mask) != 0`. -/
theorem difference_overflow_bit : ((x ^^^ y) &&& (x ^^^ z) &&& mask != 0#w) =
    ((x.getLsbD i != y.getLsbD i) && (x.getLsbD i != z.getLsbD i)) := by
  rw [and_bit _ mask i isBit inside, BitVec.getLsbD_and, BitVec.getLsbD_xor, BitVec.getLsbD_xor]

end Overflow

/-- Bit 4 of `x ^ y ^ z` is the carry between the nibbles. -/
theorem half_bit (x y z : Word) : ((x ^^^ y ^^^ z) &&& 0x10#16 != 0#16) =
    decide ((x.toNat / 16 + y.toNat / 16 + z.toNat / 16) % 2 = 1) := by
  rw [and_bit _ 0x10#16 4 rfl (by decide), BitVec.getLsbD_xor, BitVec.getLsbD_xor,
    bit_toNat _ 4 16 rfl, bit_toNat _ 4 16 rfl, bit_toNat _ 4 16 rfl, xor_parity]

section Sums
variable (a v : Byte) {c : Word} (carry : c.toNat ≤ 1)
include carry

theorem toNat_addSum : (addSum a v c).toNat = a.toNat + v.toNat + c.toNat := by
  have aBound := a.isLt
  have vBound := v.isLt
  simp only [addSum, BitVec.toNat_add, BitVec.toNat_setWidth]
  omega

theorem toNat_subDiff : (subDiff a v c).toNat = (65536 + a.toNat - v.toNat - c.toNat) % 65536 := by
  have aBound := a.isLt
  have vBound := v.isLt
  simp only [subDiff, BitVec.toNat_sub, BitVec.toNat_setWidth]
  omega

theorem half_add : ((a.setWidth 16 ^^^ v.setWidth 16 ^^^ addSum a v c) &&& 0x10#16 != 0#16) =
    decide (16 ≤ a.toNat % 16 + v.toNat % 16 + c.toNat) := by
  have aBound := a.isLt
  have vBound := v.isLt
  rw [half_bit, toNat_addSum a v carry, decide_eq_decide]
  simp only [BitVec.toNat_setWidth]
  omega

theorem half_sub : ((a.setWidth 16 ^^^ v.setWidth 16 ^^^ subDiff a v c) &&& 0x10#16 != 0#16) =
    decide (a.toNat % 16 < v.toNat % 16 + c.toNat) := by
  have aBound := a.isLt
  have vBound := v.isLt
  rw [half_bit, toNat_subDiff a v carry, decide_eq_decide]
  simp only [BitVec.toNat_setWidth]
  omega

theorem carry_add :
    (addSum a v c &&& 0x100#16 != 0#16) = decide (256 ≤ a.toNat + v.toNat + c.toNat) := by
  have aBound := a.isLt
  have vBound := v.isLt
  rw [and_bit _ 0x100#16 8 rfl (by decide), bit_toNat _ 8 256 rfl, toNat_addSum a v carry,
    decide_eq_decide]
  omega

theorem carry_sub :
    (subDiff a v c &&& 0x100#16 != 0#16) = decide (a.toNat < v.toNat + c.toNat) := by
  have aBound := a.isLt
  have vBound := v.isLt
  rw [and_bit _ 0x100#16 8 rfl (by decide), bit_toNat _ 8 256 rfl, toNat_subDiff a v carry,
    decide_eq_decide]
  omega

end Sums

section Signs
variable (a v : Byte) (c : Word)

theorem sign_addFlags : sign (addFlags a v c) = (lo (addSum a v c)).msb := by
  rw [sign_bit]
  simp [addFlags, BitVec.msb_eq_getLsbD_last]

theorem sign_subFlags : sign (subFlags a v c) = (lo (subDiff a v c)).msb := by
  rw [sign_bit]
  simp [subFlags, BitVec.msb_eq_getLsbD_last]

theorem overflow_addFlags : parityOverflow (addFlags a v c) =
    ((a.msb == v.msb) && (a.msb != (lo (addSum a v c)).msb)) := by
  have overflow := sum_overflow_bit (a.setWidth 16) (v.setWidth 16) (addSum a v c) 0x80#16 7 rfl
    (by decide)
  rw [parityOverflow_bit]
  simp [addFlags, overflow, lo, BitVec.msb_eq_getLsbD_last]

theorem overflow_subFlags : parityOverflow (subFlags a v c) =
    ((a.msb != v.msb) && (a.msb != (lo (subDiff a v c)).msb)) := by
  have overflow := difference_overflow_bit (a.setWidth 16) (v.setWidth 16) (subDiff a v c)
    0x80#16 7 rfl (by decide)
  rw [parityOverflow_bit]
  simp [subFlags, overflow, lo, BitVec.msb_eq_getLsbD_last]

end Signs

end Z80f.Flags

namespace Z80f

open Flags

section Flags
variable (x y : Byte) {c : Word} (carryBit : c.toNat ≤ 1)
include carryBit

theorem addFlags_bits : carry (addFlags x y c) = decide (256 ≤ x.toNat + y.toNat + c.toNat) ∧
    halfCarry (addFlags x y c) = decide (16 ≤ x.toNat % 16 + y.toNat % 16 + c.toNat) ∧
    addSub (addFlags x y c) = false := by
  refine ⟨?_, ?_, ?_⟩
  · simp [addFlags, carry_bit, carry_add x y carryBit]
  · simp [addFlags, halfCarry_bit, half_add x y carryBit]
  · simp [addFlags, addSub_bit]

theorem subFlags_bits : carry (subFlags x y c) = decide (x.toNat < y.toNat + c.toNat) ∧
    halfCarry (subFlags x y c) = decide (x.toNat % 16 < y.toNat % 16 + c.toNat) ∧
    addSub (subFlags x y c) = true := by
  refine ⟨?_, ?_, ?_⟩
  · simp [subFlags, carry_bit, carry_sub x y carryBit]
  · simp [subFlags, halfCarry_bit, half_sub x y carryBit]
  · simp [subFlags, addSub_bit]

end Flags

def carryWord (c : Bool) : Word := if c then 1 else 0

theorem carryWord_toNat (c : Bool) : (carryWord c).toNat = c.toNat := by cases c <;> rfl

theorem carryWord_le (c : Bool) : (carryWord c).toNat ≤ 1 := by cases c <;> decide

end Z80f
