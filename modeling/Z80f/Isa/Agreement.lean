import Z80f.Arithmetic.Sixteen
import Z80f.Cpu.BlockRules
import Z80f.Isa.Decode

/-! # The functions of the CPU compute the numbers

Each flag byte of the CPU code, put together with masks and exclusive ors, is
the one that the numbers say. -/

set_option autoImplicit false

namespace Z80f.Isa

open Flags Positional

theorem getElem_pack (s z y h x p n c : Bool) (i : Nat) (inside : i < 8) :
    (pack s z y h x p n c)[i] = [c, n, p, x, h, y, z, s].getD i false := by
  interval_cases i <;> simp [pack]

theorem parity_even : ∀ v : Byte, (parityOf v).getLsbD 2 = evenParity v := by decide +kernel

theorem parityOf_bit (v : Byte) (i : Nat) (inside : i < 8) (two : i = 2) :
    (parityOf v)[i] = evenParity v := by
  subst two
  exact (BitVec.getLsbD_eq_getElem inside).symm.trans (parity_even v)

theorem sz53Of_bit (v : Byte) (i : Nat) (inside : i < 8) (shown : i = 5 ∨ i = 3) :
    (sz53Of v)[i] = v[i] := by
  obtain rfl | rfl := shown <;> simp [sz53Of]

section Width
variable {w : Nat} (x y : BitVec w) (c : Bool)

theorem carries_all : carries x y c w = decide (2 ^ w ≤ x.toNat + y.toNat + c.toNat) := by
  rw [carries, Nat.mod_eq_of_lt x.isLt, Nat.mod_eq_of_lt y.isLt]

theorem borrows_all : borrows x y c w = decide (x.toNat < y.toNat + c.toNat) := by
  rw [borrows, Nat.mod_eq_of_lt x.isLt, Nat.mod_eq_of_lt y.isLt]

theorem toNat_sum : (sum x y c).toNat = (x.toNat + y.toNat + c.toNat) % 2 ^ w := by
  rw [sum, BitVec.toNat_add, BitVec.toNat_add, BitVec.toNat_ofNat, Nat.add_mod_mod, Nat.mod_add_mod]

theorem toNat_difference : (difference x y c).toNat =
    (2 * 2 ^ w + x.toNat - y.toNat - c.toNat) % 2 ^ w := by
  have xBound := x.isLt
  have yBound := y.isLt
  have cBound := Bool.toNat_le c
  rw [difference, BitVec.toNat_sub, BitVec.toNat_sub, BitVec.toNat_ofNat]
  generalize 2 ^ w = size at *
  by_cases one : size = 1
  · subst one
    omega
  · rw [Nat.mod_eq_of_lt (by omega : c.toNat < size), Nat.add_mod_mod]
    congr 1
    omega

section Balance
variable (wide : 0 < w)
include wide

omit x y c in
theorem two_halves : 2 ^ w = 2 * 2 ^ (w - 1) := by
  rw [← Nat.pow_succ', Nat.succ_eq_add_one, Nat.sub_add_cancel wide]

theorem sum_balance :
    (sum x y c).toNat + 2 ^ w * (carries x y c w).toNat = x.toNat + y.toNat + c.toNat := by
  have xBound := x.isLt
  have yBound := y.isLt
  have cBound := Bool.toNat_le c
  have large : 2 ≤ 2 ^ w := Nat.pow_le_pow_right (n := 2) (by omega) wide
  rw [carries_all, toNat_sum]
  generalize 2 ^ w = size at *
  by_cases out : size ≤ x.toNat + y.toNat + c.toNat
  · rw [decide_eq_true out, Bool.toNat_true, Nat.mod_eq_sub_mod out, Nat.mod_eq_of_lt (by omega)]
    omega
  · rw [decide_eq_false out, Bool.toNat_false, Nat.mod_eq_of_lt (by omega)]
    omega

theorem difference_balance : (difference x y c).toNat + y.toNat + c.toNat =
    x.toNat + 2 ^ w * (borrows x y c w).toNat := by
  have xBound := x.isLt
  have yBound := y.isLt
  have cBound := Bool.toNat_le c
  have large : 2 ≤ 2 ^ w := Nat.pow_le_pow_right (n := 2) (by omega) wide
  rw [borrows_all, toNat_difference]
  generalize 2 ^ w = size at *
  by_cases out : x.toNat < y.toNat + c.toNat
  · rw [decide_eq_true out, Bool.toNat_true, Nat.mod_eq_sub_mod (by omega),
      Nat.mod_eq_of_lt (by omega)]
    omega
  · rw [decide_eq_false out, Bool.toNat_false, Nat.mod_eq_sub_mod (by omega),
      Nat.mod_eq_sub_mod (by omega), Nat.mod_eq_of_lt (by omega)]
    omega

theorem sum_signs :
    ((x.msb == y.msb) && (x.msb != (sum x y c).msb)) = sumOverflows x y c := by
  have size := two_halves wide
  have balance := sum_balance x y c wide
  have xBound := x.isLt
  have yBound := y.isLt
  have rBound := (sum x y c).isLt
  rw [size] at balance xBound yBound rBound
  rw [sumOverflows, BitVec.toInt_eq_toNat_bmod, BitVec.toInt_eq_toNat_bmod, BitVec.msb_eq_decide,
    BitVec.msb_eq_decide, BitVec.msb_eq_decide, size]
  exact sum_overflow xBound yBound rBound balance

theorem difference_signs :
    ((x.msb != y.msb) && (x.msb != (difference x y c).msb)) = differenceOverflows x y c := by
  have size := two_halves wide
  have balance := difference_balance x y c wide
  have xBound := x.isLt
  have yBound := y.isLt
  have rBound := (difference x y c).isLt
  rw [size] at balance xBound yBound rBound
  rw [differenceOverflows, BitVec.toInt_eq_toNat_bmod, BitVec.toInt_eq_toNat_bmod,
    BitVec.msb_eq_decide, BitVec.msb_eq_decide, BitVec.msb_eq_decide, size]
  exact difference_overflow xBound yBound rBound balance

end Balance
end Width

/-! ## Eight bits -/

section Bytes
variable (a v : Byte) (c : Bool)

theorem lo_addSum : lo (addSum a v (carryWord c)) = sum a v c := by
  apply BitVec.eq_of_toNat_eq
  rw [toNat_lo, toNat_addSum a v (carryWord_le c), carryWord_toNat, toNat_sum]
  rfl

theorem lo_subDiff : lo (subDiff a v (carryWord c)) = difference a v c := by
  apply BitVec.eq_of_toNat_eq
  have bound := Bool.toNat_le c
  have aBound := a.isLt
  have vBound := v.isLt
  rw [toNat_lo, toNat_subDiff a v (carryWord_le c), carryWord_toNat, toNat_difference]
  omega

theorem half_sum : ((a.setWidth 16 ^^^ v.setWidth 16 ^^^ addSum a v (carryWord c)) &&& 0x10#16 !=
    0#16) = carries a v c 4 := by
  rw [half_add a v (carryWord_le c), carryWord_toNat]
  rfl

theorem carry_sum : (addSum a v (carryWord c) &&& 0x100#16 != 0#16) = carries a v c 8 := by
  rw [carry_add a v (carryWord_le c), carryWord_toNat, carries_all]
  rfl

theorem overflow_sum : (~~~(a.setWidth 16 ^^^ v.setWidth 16) &&& (a.setWidth 16 ^^^
    addSum a v (carryWord c)) &&& 0x80#16 != 0#16) = sumOverflows a v c := by
  rw [sum_overflow_bit _ _ _ 0x80#16 7 rfl (by decide), ← sum_signs a v c (by decide), ← lo_addSum,
    BitVec.msb_eq_getLsbD_last, BitVec.msb_eq_getLsbD_last, BitVec.msb_eq_getLsbD_last,
    getLsbD_lo _ 7 (by decide)]
  rfl

theorem addFlags_eq : addFlags a v (carryWord c) = sumFlags a v c := by
  apply BitVec.eq_of_getElem_eq
  intro i inside
  interval_cases i <;>
    simp [getElem_pack, addFlags, sumFlags, resultFlags, lo_addSum, half_sum, carry_sum,
      overflow_sum, sz53Of_bit, BitVec.msb_eq_getLsbD_last]

theorem half_difference : ((a.setWidth 16 ^^^ v.setWidth 16 ^^^ subDiff a v (carryWord c)) &&&
    0x10#16 != 0#16) = borrows a v c 4 := by
  rw [half_sub a v (carryWord_le c), carryWord_toNat]
  rfl

theorem borrow_difference : (subDiff a v (carryWord c) &&& 0x100#16 != 0#16) =
    borrows a v c 8 := by
  rw [carry_sub a v (carryWord_le c), carryWord_toNat, borrows_all]

theorem overflow_difference : ((a.setWidth 16 ^^^ v.setWidth 16) &&& (a.setWidth 16 ^^^
    subDiff a v (carryWord c)) &&& 0x80#16 != 0#16) = differenceOverflows a v c := by
  rw [difference_overflow_bit _ _ _ 0x80#16 7 rfl (by decide),
    ← difference_signs a v c (by decide), ← lo_subDiff, BitVec.msb_eq_getLsbD_last,
    BitVec.msb_eq_getLsbD_last, BitVec.msb_eq_getLsbD_last, getLsbD_lo _ 7 (by decide)]
  rfl

theorem subFlags_eq : subFlags a v (carryWord c) = differenceFlags a v c := by
  apply BitVec.eq_of_getElem_eq
  intro i inside
  interval_cases i <;>
    simp [getElem_pack, subFlags, differenceFlags, resultFlags, lo_subDiff, half_difference,
      borrow_difference, overflow_difference, sz53Of_bit, BitVec.msb_eq_getLsbD_last]

theorem cpFlags_eq : cpFlags a v = comparisonFlags a v := by
  have noCarry : subDiff a v 0#16 = subDiff a v (carryWord false) := rfl
  have sign : (difference a v false &&& 0x80#8 != 0#8) = (difference a v false)[7] :=
    sign_bit (difference a v false)
  apply BitVec.eq_of_getElem_eq
  intro i inside
  interval_cases i <;>
    simp [getElem_pack, cpFlags, comparisonFlags, noCarry, sign, lo_subDiff, half_difference,
      borrow_difference, overflow_difference, BitVec.msb_eq_getLsbD_last]

theorem sz53pOf_eq : sz53pOf v = logicFlags v false := by
  apply BitVec.eq_of_getElem_eq
  intro i inside
  interval_cases i <;>
    simp [getElem_pack, sz53pOf, logicFlags, resultFlags, sz53Of_bit, parityOf_bit,
      BitVec.msb_eq_getLsbD_last]

theorem andFlags_eq : sz53pOf v ||| hf = logicFlags v true := by
  apply BitVec.eq_of_getElem_eq
  intro i inside
  interval_cases i <;>
    simp [getElem_pack, sz53pOf, logicFlags, resultFlags, sz53Of_bit, parityOf_bit,
      BitVec.msb_eq_getLsbD_last]

theorem increment_half : ∀ v : Byte, (v + 1#8 &&& 0x0F#8 == 0#8) = carries v 1#8 false 4 := by
  decide +kernel

theorem increment_overflow : ∀ v : Byte, (v + 1#8 == 0x80#8) = sumOverflows v 1#8 false := by
  decide +kernel

theorem decrement_half : ∀ v : Byte, (v - 1#8 &&& 0x0F#8 == 0x0F#8) = borrows v 1#8 false 4 := by
  decide +kernel

theorem decrement_overflow : ∀ v : Byte, (v - 1#8 == 0x7F#8) = differenceOverflows v 1#8 false := by
  decide +kernel

end Bytes

section Flags
variable (f v : Byte)

theorem incFlags_result (h p : Bool) (half : (v &&& 0x0F#8 == 0#8) = h)
    (overflow : (v == 0x80#8) = p) : incFlags f v = resultFlags v h p false (carry f) := by
  apply BitVec.eq_of_getElem_eq
  intro i inside
  interval_cases i <;>
    simp [getElem_pack, incFlags, resultFlags, half, overflow, sz53Of_bit, carry_bit,
      BitVec.msb_eq_getLsbD_last]

theorem incFlags_eq : incFlags f (v + 1) = incrementFlags f v :=
  incFlags_result f (v + 1) _ _ (increment_half v) (increment_overflow v)

theorem decFlags_result (h p : Bool) (half : (v &&& 0x0F#8 == 0x0F#8) = h)
    (overflow : (v == 0x7F#8) = p) : decFlags f v = resultFlags v h p true (carry f) := by
  apply BitVec.eq_of_getElem_eq
  intro i inside
  interval_cases i <;>
    simp [getElem_pack, decFlags, resultFlags, half, overflow, sz53Of_bit, carry_bit,
      BitVec.msb_eq_getLsbD_last]

theorem decFlags_eq : decFlags f (v - 1) = decrementFlags f v :=
  decFlags_result f (v - 1) _ _ (decrement_half v) (decrement_overflow v)

theorem negFlags_eq : ∀ a : Byte, negFlags a = differenceFlags 0 a false := by decide +kernel

theorem shownFlags_eq (p : Bool) : orIf p pf (f &&& cf ||| sz53Of v) = shownFlags f v p := by
  apply BitVec.eq_of_getElem_eq
  intro i inside
  interval_cases i <;>
    simp [getElem_pack, shownFlags, resultFlags, sz53Of_bit, carry_bit, BitVec.msb_eq_getLsbD_last]

theorem shownParity_eq : f &&& cf ||| sz53pOf v = shownFlags f v (evenParity v) := by
  apply BitVec.eq_of_getElem_eq
  intro i inside
  interval_cases i <;>
    simp [getElem_pack, sz53pOf, shownFlags, resultFlags, sz53Of_bit, parityOf_bit, carry_bit,
      BitVec.msb_eq_getLsbD_last]

theorem daaCorrection_eq : daaCorrection v f = adjustment f v := by
  have nibble : (v &&& 0x0F#8).toNat = v.toNat % 16 := by
    rw [BitVec.toNat_and]
    exact Nat.and_two_pow_sub_one_eq_mod v.toNat 4
  rw [daaCorrection, adjustment, nibble]
  cases halfCarry f || decide (9 < v.toNat % 16) <;>
    cases carry f || decide (0x99 < v.toNat) <;>
    rfl

theorem daaResult_eq : daaResult v f = adjusted f v := by
  rw [daaResult, daaCorrection_eq, adjusted]

theorem daaFlags_eq : daaFlags v f = adjustedFlags f v := by
  have half : ((v ^^^ adjusted f v) &&& 0x10#8 != 0#8) =
      (v.getLsbD 4 != (adjusted f v).getLsbD 4) :=
    (and_bit _ 0x10#8 4 rfl (by decide)).trans (BitVec.getLsbD_xor ..)
  rw [daaFlags, daaResult_eq, adjustedFlags]
  generalize adjusted f v = a at half ⊢
  apply BitVec.eq_of_getElem_eq
  intro i inside
  interval_cases i <;>
    simp [getElem_pack, sz53pOf, resultFlags, half, sz53Of_bit, parityOf_bit,
      BitVec.msb_eq_getLsbD_last]

theorem keptFlags_eq (h n c : Bool) :
    orIf n nf (orIf h hf (orIf c cf (f &&& (sf ||| zf ||| pf)))) ||| (v &&& (yf ||| xf)) =
      keptFlags f v h n c := by
  apply BitVec.eq_of_getElem_eq
  intro i inside
  interval_cases i <;> simp [getElem_pack, keptFlags, sign_bit, zero_bit, parityOverflow_bit]

theorem shiftFlags_eq (c : Bool) :
    orIf c cf (sz53pOf v) = resultFlags v false (evenParity v) false c := by
  apply BitVec.eq_of_getElem_eq
  intro i inside
  interval_cases i <;>
    simp [getElem_pack, sz53pOf, resultFlags, sz53Of_bit, parityOf_bit, BitVec.msb_eq_getLsbD_last]

theorem bitFlags_eq (source : Byte) {n : Nat} (inside : n < 8) :
    bitFlags f n v source = testFlags f n v source := by
  have tested : (v &&& (1#8 <<< n) == 0) = !v.getLsbD n := by
    rw [← and_bit v (1#8 <<< n) n rfl inside]
    exact (Bool.not_not _).symm
  have top : (n == 7 && (v &&& (1#8 <<< n)) &&& 0x80#8 != 0) = (n == 7 && v.getLsbD 7) := by
    by_cases seven : n = 7
    · subst seven
      rw [BitVec.and_assoc]
      exact congrArg (true && ·) (and_bit v _ 7 rfl (by decide))
    · rw [beq_false_of_ne seven, Bool.false_and, Bool.false_and]
  rw [bitFlags, tested, top]
  apply BitVec.eq_of_getElem_eq
  intro i inside
  interval_cases i <;> simp [getElem_pack, testFlags, carry_bit]

end Flags

theorem shift_carry : ∀ (c : Bool) (v : Byte),
    ShiftOp.apply c v .rl = ((v <<< 1) ||| (if c then 1#8 else 0), (v >>> 7) &&& 1#8 != 0) ∧
      ShiftOp.apply c v .rr = ((v >>> 1) ||| ((if c then 1#8 else 0) <<< 7), v &&& 1#8 != 0) := by
  decide +kernel

theorem shift_plain : ∀ (row : Fin 8), row ≠ 2 → row ≠ 3 → ∀ v : Byte,
    (shiftOf row).apply false v =
      ((shiftOutcome row 0 v).1, (shiftOutcome row 0 v).2 != 0) := by
  decide +kernel

theorem shiftOutcome_eq (row : Nat) (inside : row < 8) (f v : Byte) :
    (shiftOf row).apply (carry f) v =
      ((shiftOutcome row f v).1, (shiftOutcome row f v).2 != 0) := by
  by_cases left : row = 2
  · subst left
    exact (shift_carry (carry f) v).1
  · by_cases right : row = 3
    · subst right
      exact (shift_carry (carry f) v).2
    · have plain := shift_plain ⟨row, inside⟩ (by simpa [Fin.ext_iff] using left)
        (by simpa [Fin.ext_iff] using right) v
      interval_cases row <;> first | exact plain | contradiction

/-! ## Sixteen bits -/

section Words
variable (f : Byte) (x v : Word)

theorem adc16Sum_eq : (adc16Sum f x v).setWidth 16 = sum x v (carry f) := by
  apply BitVec.eq_of_toNat_eq
  rw [BitVec.toNat_setWidth, adc16_toNat, toNat_sum]

theorem sbc16Diff_eq : (sbc16Diff f x v).setWidth 16 = difference x v (carry f) := by
  apply BitVec.eq_of_toNat_eq
  have xBound := x.isLt
  have vBound := v.isLt
  have cBound := Bool.toNat_le (carry f)
  rw [BitVec.toNat_setWidth, sbc16_toNat, toNat_difference]
  omega

/-- Bit 12 of `x ^ v ^ wide` is the carry out of the lower twelve bits. -/
theorem half_wide (wide : BitVec 32) :
    (((x.setWidth 32 ^^^ v.setWidth 32 ^^^ wide) >>> 8) &&& 0x10#32 != 0#32) =
      decide ((x.toNat / 4096 + v.toNat / 4096 + wide.toNat / 4096) % 2 = 1) := by
  have xFits : x.toNat % 2 ^ 32 = x.toNat := Nat.mod_eq_of_lt (x.isLt.trans (by decide))
  have vFits : v.toNat % 2 ^ 32 = v.toNat := Nat.mod_eq_of_lt (v.isLt.trans (by decide))
  rw [and_bit _ 0x10#32 4 rfl (by decide), BitVec.getLsbD_ushiftRight, BitVec.getLsbD_xor,
    BitVec.getLsbD_xor, bit_toNat _ 12 4096 rfl, bit_toNat _ 12 4096 rfl, bit_toNat _ 12 4096 rfl,
    xor_parity, BitVec.toNat_setWidth, BitVec.toNat_setWidth, xFits, vFits]

theorem half_adc16 : (((x.setWidth 32 ^^^ v.setWidth 32 ^^^ adc16Sum f x v) >>> 8) &&& 0x10#32 !=
    0#32) = carries x v (carry f) 12 := by
  have cBound := Bool.toNat_le (carry f)
  rw [half_wide, adc16_toNat, carries, decide_eq_decide]
  omega

theorem half_sbc16 : (((x.setWidth 32 ^^^ v.setWidth 32 ^^^ sbc16Diff f x v) >>> 8) &&& 0x10#32 !=
    0#32) = borrows x v (carry f) 12 := by
  have xBound := x.isLt
  have vBound := v.isLt
  have cBound := Bool.toNat_le (carry f)
  rw [half_wide, sbc16_toNat, borrows, decide_eq_decide]
  omega

theorem carry_adc16 : (adc16Sum f x v &&& 0x10000#32 != 0#32) = carries x v (carry f) 16 := by
  have xBound := x.isLt
  have vBound := v.isLt
  have cBound := Bool.toNat_le (carry f)
  rw [and_bit _ 0x10000#32 16 rfl (by decide), bit_toNat _ 16 65536 rfl, adc16_toNat, carries_all,
    decide_eq_decide]
  omega

theorem borrow_sbc16 : (sbc16Diff f x v &&& 0x10000#32 != 0#32) = borrows x v (carry f) 16 := by
  have xBound := x.isLt
  have vBound := v.isLt
  have cBound := Bool.toNat_le (carry f)
  rw [and_bit _ 0x10000#32 16 rfl (by decide), bit_toNat _ 16 65536 rfl, sbc16_toNat, borrows_all,
    decide_eq_decide]
  omega

theorem overflow_adc16 : (~~~(x.setWidth 32 ^^^ v.setWidth 32) &&& (x.setWidth 32 ^^^
    adc16Sum f x v) &&& 0x8000#32 != 0#32) = sumOverflows x v (carry f) := by
  rw [sum_overflow_bit _ _ _ 0x8000#32 15 rfl (by decide), ← sum_signs x v _ (by decide),
    ← adc16Sum_eq, BitVec.msb_eq_getLsbD_last, BitVec.msb_eq_getLsbD_last,
    BitVec.msb_eq_getLsbD_last]
  simp

theorem overflow_sbc16 : ((x.setWidth 32 ^^^ v.setWidth 32) &&& (x.setWidth 32 ^^^
    sbc16Diff f x v) &&& 0x8000#32 != 0#32) = differenceOverflows x v (carry f) := by
  rw [difference_overflow_bit _ _ _ 0x8000#32 15 rfl (by decide),
    ← difference_signs x v _ (by decide), ← sbc16Diff_eq, BitVec.msb_eq_getLsbD_last,
    BitVec.msb_eq_getLsbD_last, BitVec.msb_eq_getLsbD_last]
  simp

theorem word_sign : (x &&& 0x8000#16 != 0#16) = x.getLsbD 15 := and_bit x _ 15 rfl (by decide)

theorem getElem_hi (i : Nat) (inside : i < 8) : (hi x)[i] = x.getLsbD (8 + i) :=
  (BitVec.getLsbD_eq_getElem inside).symm.trans (getLsbD_hi x i inside)

theorem adc16Flags_eq : adc16Flags f x v = sumFlags x v (carry f) := by
  apply BitVec.eq_of_getElem_eq
  intro i inside
  interval_cases i <;>
    simp [getElem_pack, adc16Flags, sumFlags, resultFlags, adc16Sum_eq, half_adc16, carry_adc16,
      overflow_adc16, word_sign, getElem_hi, BitVec.msb_eq_getLsbD_last]

theorem sbc16Flags_eq : sbc16Flags f x v = differenceFlags x v (carry f) := by
  apply BitVec.eq_of_getElem_eq
  intro i inside
  interval_cases i <;>
    simp [getElem_pack, sbc16Flags, differenceFlags, resultFlags, sbc16Diff_eq, half_sbc16,
      borrow_sbc16, overflow_sbc16, word_sign, getElem_hi, BitVec.msb_eq_getLsbD_last]

theorem add16Sum_eq : (add16Sum x v).setWidth 16 = sum x v false := by
  have zero : carry 0 = false := rfl
  rw [add16_sum x v zero]
  exact adc16Sum_eq 0 x v

theorem add16Flags_eq : add16Flags f x v =
    keptFlags f (sum x v false) (carries x v false 12) false (carries x v false 16) := by
  have zero : carry 0 = false := rfl
  have half := half_adc16 0 x v
  have carried := carry_adc16 0 x v
  rw [← add16_sum x v zero, zero] at half carried
  apply BitVec.eq_of_getElem_eq
  intro i inside
  interval_cases i <;>
    simp [getElem_pack, add16Flags, keptFlags, add16Sum_eq, half, carried, getElem_hi, sign_bit,
      zero_bit, parityOverflow_bit]

end Words

section Kept
variable (f a : Byte)

theorem rotateFlags_eq (c : Bool) :
    orIf c cf (f &&& (sf ||| zf ||| pf)) ||| (a &&& (yf ||| xf)) = keptFlags f a false false c :=
  keptFlags_eq f a false false c

theorem cplFlags_eq : f &&& (sf ||| zf ||| pf ||| cf) ||| (hf ||| nf) ||| (a &&& (yf ||| xf)) =
    keptFlags f a true true (carry f) := by
  apply BitVec.eq_of_getElem_eq
  intro i inside
  interval_cases i <;>
    simp [getElem_pack, keptFlags, sign_bit, zero_bit, parityOverflow_bit, carry_bit]

theorem scfFlags_eq : f &&& (sf ||| zf ||| pf) ||| cf ||| (a &&& (yf ||| xf)) =
    keptFlags f a false false true :=
  keptFlags_eq f a false false true

theorem ccfFlags_eq : orIf (!carry f) cf (orIf (carry f) hf (f &&& (sf ||| zf ||| pf))) |||
    (a &&& (yf ||| xf)) = keptFlags f a (carry f) false (!carry f) := by
  rw [← keptFlags_eq]
  cases carry f <;> rfl

end Kept

section Blocks
variable (f a byte : Byte) (left : Word)

theorem moveFlags_eq : blockLdFlags f a byte left = moveFlags f a byte left := by
  apply BitVec.eq_of_getElem_eq
  intro i inside
  interval_cases i <;>
    simp [getElem_pack, blockLdFlags, moveFlags, and_bit _ 0x02#8 1 rfl (by decide),
      and_bit _ 0x08#8 3 rfl (by decide), sign_bit, zero_bit, carry_bit]

theorem searchFlags_eq : blockCpFlags f a byte left = searchFlags f a byte left := by
  have half : blockCpHalf a byte = borrows a byte false 4 := half_difference a byte false
  have result : lo (subDiff a byte 0) = difference a byte false := lo_subDiff a byte false
  have rest (c : Bool) : difference a byte false - (if c then 1 else 0) = difference a byte c := by
    cases c <;> simp [difference]
  rw [blockCpFlags, half, result, rest]
  apply BitVec.eq_of_getElem_eq
  intro i inside
  interval_cases i <;>
    simp [getElem_pack, searchFlags, and_bit _ 0x02#8 1 rfl (by decide),
      and_bit _ 0x08#8 3 rfl (by decide), and_bit _ 0x80#8 7 rfl (by decide), carry_bit,
      BitVec.msb_eq_getLsbD_last]

theorem transferFlags_eq (b : Byte) (k : Word) :
    blockIoFlags b byte k = transferFlags b byte k.toNat := by
  have low : lo (k &&& 7#16) = BitVec.ofNat 8 (k.toNat % 8) := by
    apply BitVec.eq_of_toNat_eq
    rw [toNat_lo, BitVec.toNat_and, BitVec.toNat_ofNat]
    exact congrArg (· % 256) (Nat.and_two_pow_sub_one_eq_mod k.toNat 3)
  apply BitVec.eq_of_getElem_eq
  intro i inside
  interval_cases i <;>
    simp [getElem_pack, blockIoFlags, transferFlags, resultFlags, low, parityOf_bit,
      and_bit _ 0x80#8 7 rfl (by decide), sz53Of_bit, BitVec.msb_eq_getLsbD_last]

end Blocks

theorem stepped_eq {w : Nat} (direction : Direction) (v : BitVec w) :
    v + BitVec.ofInt w direction.delta = stepped direction v := by
  cases direction with
  | up => exact congrArg (v + ·) (BitVec.ofInt_natCast w 1)
  | down =>
      have back : BitVec.ofInt w (-1) = -1#w := by
        rw [BitVec.ofInt_neg]
        exact congrArg (-·) (BitVec.ofInt_natCast w 1)
      exact (congrArg (v + ·) back).trans (BitVec.sub_eq_add_neg v 1#w).symm

theorem wz_store (a : Byte) (address : Word) :
    (address &&& 0xFF#16) ||| (a.setWidth 16 <<< 8) = word a (lo address) := by
  have low : address &&& 0xFF#16 = (lo address).setWidth 16 := by
    apply BitVec.eq_of_toNat_eq
    rw [BitVec.toNat_and, BitVec.toNat_setWidth, toNat_lo]
    have masked : address.toNat &&& 255 = address.toNat % 256 :=
      Nat.and_two_pow_sub_one_eq_mod address.toNat 8
    have small := Nat.mod_lt address.toNat (by decide : 0 < 256)
    exact masked.trans (Nat.mod_eq_of_lt (small.trans (by decide))).symm
  rw [word, low, BitVec.or_comm]

section Nibbles
variable (x y : Byte)

theorem getElem_nibbles (high low : BitVec 4) (i : Nat) (inside : i < 8) :
    (nibbles high low)[i] = if i < 4 then low.getLsbD i else high.getLsbD (i - 4) :=
  (BitVec.getLsbD_eq_getElem inside).symm.trans BitVec.getLsbD_append

theorem low_low : ((x &&& 0x0F#8) <<< 4) ||| (y &&& 0x0F#8) =
    nibbles (lowNibbleOf x) (lowNibbleOf y) := by
  apply BitVec.eq_of_getElem_eq
  intro i inside
  interval_cases i <;> simp [getElem_nibbles, lowNibbleOf]

theorem low_high : ((x &&& 0x0F#8) <<< 4) ||| (y >>> 4) =
    nibbles (lowNibbleOf x) (highNibbleOf y) := by
  apply BitVec.eq_of_getElem_eq
  intro i inside
  interval_cases i <;> simp [getElem_nibbles, lowNibbleOf, highNibbleOf]

theorem high_low : (x &&& 0xF0#8) ||| (y &&& 0x0F#8) =
    nibbles (highNibbleOf x) (lowNibbleOf y) := by
  apply BitVec.eq_of_getElem_eq
  intro i inside
  interval_cases i <;> simp [getElem_nibbles, lowNibbleOf, highNibbleOf]

theorem high_high : (x &&& 0xF0#8) ||| (y >>> 4) = nibbles (highNibbleOf x) (highNibbleOf y) := by
  apply BitVec.eq_of_getElem_eq
  intro i inside
  interval_cases i <;> simp [getElem_nibbles, highNibbleOf]

end Nibbles
end Z80f.Isa
