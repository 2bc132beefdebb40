import Z80f.Arithmetic.Binary

/-! # Sixteen-bit arithmetic through bytes

ADC HL and SBC HL compute in 32 bits what two eight-bit operations compute on L
and H.  Everything but C follows from one fact, that the high byte of the wide
result is the second narrow one. -/

set_option autoImplicit false

namespace Z80f

open Interaction Stateful Z80M Flags Positional

theorem getLsbD_hi (x : Word) (i : Nat) (inside : i < 8) :
    (hi x).getLsbD i = x.getLsbD (8 + i) := by
  rw [hi, BitVec.getLsbD_setWidth, BitVec.getLsbD_ushiftRight, decide_eq_true inside,
    Bool.true_and]

theorem getLsbD_lo (x : Word) (i : Nat) (inside : i < 8) : (lo x).getLsbD i = x.getLsbD i := by
  rw [lo, BitVec.getLsbD_setWidth, decide_eq_true inside, Bool.true_and]

section HighByte
variable (x v : Word) {wide : BitVec 32} {narrow : Word}
  (high : hi (wide.setWidth 16) = lo narrow)
include high

theorem high_bit (i : Nat) (inside : i < 8) : wide.getLsbD (8 + i) = narrow.getLsbD i := by
  have same := congrArg (BitVec.getLsbD · i) high
  have within : 8 + i < 16 := by omega
  simp only [getLsbD_hi _ i inside, getLsbD_lo _ i inside, BitVec.getLsbD_setWidth,
    decide_eq_true within, Bool.true_and] at same
  exact same

theorem high_sign : ((wide.setWidth 16 : Word) &&& 0x8000#16 != 0) = (lo narrow).msb := by
  apply (and_bit _ 0x8000#16 15 rfl (by decide)).trans
  rw [BitVec.msb_eq_getLsbD_last, getLsbD_lo _ 7 (by decide), BitVec.getLsbD_setWidth]
  exact high_bit high 7 (by decide)

theorem high_half : (((x.setWidth 32 ^^^ v.setWidth 32 ^^^ wide) >>> 8) &&& 0x10#32 != 0) =
    (((hi x).setWidth 16 ^^^ (hi v).setWidth 16 ^^^ narrow) &&& 0x10#16 != 0) := by
  apply (and_bit _ 0x10#32 4 rfl (by decide)).trans
  apply Eq.trans _ (and_bit _ 0x10#16 4 rfl (by decide)).symm
  simp only [BitVec.getLsbD_ushiftRight, BitVec.getLsbD_xor, BitVec.getLsbD_setWidth,
    getLsbD_hi _ 4 (by decide), high_bit high 4 (by decide)]
  rfl

theorem high_sum_overflow :
    (~~~(x.setWidth 32 ^^^ v.setWidth 32) &&& (x.setWidth 32 ^^^ wide) &&& 0x8000#32 != 0) =
      (~~~((hi x).setWidth 16 ^^^ (hi v).setWidth 16) &&& ((hi x).setWidth 16 ^^^ narrow) &&&
        0x80#16 != 0) := by
  apply (sum_overflow_bit _ _ _ 0x8000#32 15 rfl (by decide)).trans
  apply Eq.trans _ (sum_overflow_bit _ _ _ 0x80#16 7 rfl (by decide)).symm
  simp only [BitVec.getLsbD_setWidth, getLsbD_hi _ 7 (by decide)]
  rw [high_bit high 7 (by decide)]
  rfl

theorem high_difference_overflow :
    ((x.setWidth 32 ^^^ v.setWidth 32) &&& (x.setWidth 32 ^^^ wide) &&& 0x8000#32 != 0) =
      (((hi x).setWidth 16 ^^^ (hi v).setWidth 16) &&& ((hi x).setWidth 16 ^^^ narrow) &&&
        0x80#16 != 0) := by
  apply (difference_overflow_bit _ _ _ 0x8000#32 15 rfl (by decide)).trans
  apply Eq.trans _ (difference_overflow_bit _ _ _ 0x80#16 7 rfl (by decide)).symm
  simp only [BitVec.getLsbD_setWidth, getLsbD_hi _ 7 (by decide)]
  rw [high_bit high 7 (by decide)]
  rfl

end HighByte

theorem carry32_toNat (flags : Byte) : (carry32 flags).toNat = (carry flags).toNat := by
  rw [carry32]
  cases carry flags <;> rfl

section Carries
variable (flags : Byte) (x v : Word)

theorem adc16_toNat : (adc16Sum flags x v).toNat = x.toNat + v.toNat + (carry flags).toNat := by
  have xBound := x.isLt
  have vBound := v.isLt
  have cBound := Bool.toNat_le (carry flags)
  simp only [adc16Sum, BitVec.toNat_add, BitVec.toNat_setWidth, carry32_toNat]
  omega

theorem sbc16_toNat : (sbc16Diff flags x v).toNat =
    (4294967296 + x.toNat - v.toNat - (carry flags).toNat) % 4294967296 := by
  have xBound := x.isLt
  have vBound := v.isLt
  have cBound := Bool.toNat_le (carry flags)
  simp only [sbc16Diff, BitVec.toNat_sub, BitVec.toNat_setWidth, carry32_toNat]
  omega

theorem adcByte_carry : (carryIn true (adcByte (lo x, lo v) flags).2).toNat =
    (x.toNat % 256 + v.toNat % 256 + (carry flags).toNat) / 256 := by
  have cBound := Bool.toNat_le (carry flags)
  have step : carryIn true (adcByte (lo x, lo v) flags).2 =
    carryWord (carry (addFlags (lo x) (lo v) (carryWord (carry flags)))) := rfl
  rw [step, carryWord_toNat, (addFlags_bits (lo x) (lo v) (carryWord_le _)).1, toNat_lo, toNat_lo,
    carryWord_toNat]
  by_cases out : 256 ≤ x.toNat % 256 + v.toNat % 256 + (carry flags).toNat
  · rw [decide_eq_true out, Bool.toNat_true]
    omega
  · rw [decide_eq_false out, Bool.toNat_false]
    omega

theorem sbcByte_carry : (carryIn true (sbcByte (lo x, lo v) flags).2).toNat =
    if x.toNat % 256 < v.toNat % 256 + (carry flags).toNat then 1 else 0 := by
  have step : carryIn true (sbcByte (lo x, lo v) flags).2 =
    carryWord (carry (subFlags (lo x) (lo v) (carryWord (carry flags)))) := rfl
  rw [step, carryWord_toNat, (subFlags_bits (lo x) (lo v) (carryWord_le _)).1, toNat_lo, toNat_lo,
    carryWord_toNat]
  exact (apply_ite Bool.toNat _ true false).trans rfl

theorem adc16_bytes :
    let low := adcByte (lo x, lo v) flags
    let high := addSum (hi x) (hi v) (carryIn true low.2)
    lo ((adc16Sum flags x v).setWidth 16) = low.1 ∧
      hi ((adc16Sum flags x v).setWidth 16) = lo high ∧
      (adc16Sum flags x v &&& 0x10000#32 != 0) = (high &&& 0x100#16 != 0) := by
  intro low high
  have cBound := Bool.toNat_le (carry flags)
  have wide := adc16_toNat flags x v
  have lowIs : low.1.toNat = (x.toNat % 256 + v.toNat % 256 + (carry flags).toNat) % 256 := by
    rw [← toNat_lo x, ← toNat_lo v, ← carryWord_toNat, ← toNat_addSum _ _ (carryWord_le _)]
    exact toNat_lo _
  have highIs : high.toNat = x.toNat / 256 + v.toNat / 256 +
      (x.toNat % 256 + v.toNat % 256 + (carry flags).toNat) / 256 := by
    rw [← toNat_hi x, ← toNat_hi v, ← adcByte_carry]
    exact toNat_addSum _ _ (carryWord_le _)
  refine ⟨?_, ?_, ?_⟩
  · apply BitVec.eq_of_toNat_eq
    rw [toNat_lo, BitVec.toNat_setWidth, wide, lowIs]
    omega
  · apply BitVec.eq_of_toNat_eq
    rw [toNat_hi, toNat_lo, BitVec.toNat_setWidth, wide, highIs]
    omega
  · apply (and_bit _ 0x10000#32 16 rfl (by decide)).trans
    apply Eq.trans _ (and_bit _ 0x100#16 8 rfl (by decide)).symm
    rw [bit_toNat _ 16 65536 rfl, bit_toNat _ 8 256 rfl, wide, highIs, decide_eq_decide]
    omega

theorem sbc16_bytes :
    let low := sbcByte (lo x, lo v) flags
    let high := subDiff (hi x) (hi v) (carryIn true low.2)
    lo ((sbc16Diff flags x v).setWidth 16) = low.1 ∧
      hi ((sbc16Diff flags x v).setWidth 16) = lo high ∧
      (sbc16Diff flags x v &&& 0x10000#32 != 0) = (high &&& 0x100#16 != 0) := by
  intro low high
  have cBound := Bool.toNat_le (carry flags)
  have xBound := x.isLt
  have vBound := v.isLt
  have wide := sbc16_toNat flags x v
  have lowIs : low.1.toNat =
      (65536 + x.toNat % 256 - v.toNat % 256 - (carry flags).toNat) % 65536 % 256 := by
    rw [← toNat_lo x, ← toNat_lo v, ← carryWord_toNat, ← toNat_subDiff _ _ (carryWord_le _)]
    exact toNat_lo _
  have highIs : high.toNat = (65536 + x.toNat / 256 - v.toNat / 256 -
      if x.toNat % 256 < v.toNat % 256 + (carry flags).toNat then 1 else 0) % 65536 := by
    rw [← toNat_hi x, ← toNat_hi v, ← sbcByte_carry]
    exact toNat_subDiff _ _ (carryWord_le _)
  refine ⟨?_, ?_, ?_⟩
  · apply BitVec.eq_of_toNat_eq
    rw [toNat_lo, BitVec.toNat_setWidth, wide, lowIs]
    omega
  · apply BitVec.eq_of_toNat_eq
    rw [toNat_hi, toNat_lo, BitVec.toNat_setWidth, wide, highIs]
    split <;> omega
  · apply (and_bit _ 0x10000#32 16 rfl (by decide)).trans
    apply Eq.trans _ (and_bit _ 0x100#16 8 rfl (by decide)).symm
    rw [bit_toNat _ 16 65536 rfl, bit_toNat _ 8 256 rfl, wide, highIs, decide_eq_decide]
    split <;> omega

end Carries

theorem word_zero (x : Word) : (x == 0) = (lo x == 0 && hi x == 0) := by
  rw [Bool.eq_iff_iff, Bool.and_eq_true, beq_iff_eq, beq_iff_eq, beq_iff_eq]
  constructor
  · rintro rfl
    exact ⟨rfl, rfl⟩
  · rintro ⟨low, high⟩
    rw [← word_hi_lo x, low, high]
    rfl

/-- The flags in the order of `alu_adc16`, with the conditions left open. -/
def wideFlags (start r : Byte) (s z h p c : Bool) : Byte :=
  orIf c cf (orIf p pf (orIf h hf (orIf z zf (orIf s sf start)))) ||| (r &&& (yf ||| xf))

def narrowFlags (base : Byte) (h p c : Bool) : Byte := orIf p pf (orIf h hf (orIf c cf base))

section Shapes
variable (start r : Byte) (s z h p c : Bool)

theorem wideFlags_narrow : wideFlags start r r.msb z h p c &&& ~~~zf =
    narrowFlags (sz53Of r ||| start) h p c &&& ~~~zf := by
  have top : (r &&& 0x80#8 != 0#8) = r.msb := by
    rw [and_bit r 0x80#8 7 rfl (by decide), BitVec.msb_eq_getLsbD_last]
  apply BitVec.eq_of_getElem_eq
  intro i inside
  interval_cases i <;> simp [wideFlags, narrowFlags, sz53Of, top, Bool.or_comm]

theorem zero_wideFlags (clear : zero start = false) : zero (wideFlags start r s z h p c) = z := by
  rw [zero_bit] at clear
  simp [zero_bit, wideFlags, clear]

end Shapes

section WideFlags
variable (flags : Byte) (x v : Word)

theorem adc16_shape :
    let low := adcByte (lo x, lo v) flags
    let high := adcByte (hi x, hi v) low.2
    ∃ h p c, adc16Flags flags x v =
        wideFlags 0 high.1 high.1.msb (low.1 == 0 && high.1 == 0) h p c ∧
      high.2 = narrowFlags (sz53Of high.1) h p c := by
  intro low high
  obtain ⟨lowIs, highIs, carryIs⟩ := adc16_bytes flags x v
  refine ⟨_, _, _, ?_, rfl⟩
  rw [adc16Flags, high_sign highIs, word_zero, lowIs, highIs, carryIs, high_half x v highIs,
    high_sum_overflow x v highIs]
  rfl

theorem sbc16_shape :
    let low := sbcByte (lo x, lo v) flags
    let high := sbcByte (hi x, hi v) low.2
    ∃ h p c, sbc16Flags flags x v =
        wideFlags nf high.1 high.1.msb (low.1 == 0 && high.1 == 0) h p c ∧
      high.2 = narrowFlags (sz53Of high.1 ||| nf) h p c := by
  intro low high
  obtain ⟨lowIs, highIs, carryIs⟩ := sbc16_bytes flags x v
  refine ⟨_, _, _, ?_, rfl⟩
  rw [sbc16Flags, high_sign highIs, word_zero, lowIs, highIs, carryIs, high_half x v highIs,
    high_difference_overflow x v highIs]
  rfl

theorem adc16_flags :
    let low := adcByte (lo x, lo v) flags
    let high := adcByte (hi x, hi v) low.2
    adc16Flags flags x v &&& ~~~zf = high.2 &&& ~~~zf ∧
      zero (adc16Flags flags x v) = (low.1 == 0 && high.1 == 0) := by
  intro low high
  obtain ⟨h, p, c, wide, narrow⟩ := adc16_shape flags x v
  rw [wide, narrow, zero_wideFlags _ _ _ _ _ _ _ rfl]
  refine ⟨?_, rfl⟩
  rw [wideFlags_narrow]
  exact congrArg (narrowFlags · h p c &&& ~~~zf) BitVec.or_zero

theorem sbc16_flags :
    let low := sbcByte (lo x, lo v) flags
    let high := sbcByte (hi x, hi v) low.2
    sbc16Flags flags x v &&& ~~~zf = high.2 &&& ~~~zf ∧
      zero (sbc16Flags flags x v) = (low.1 == 0 && high.1 == 0) := by
  intro low high
  obtain ⟨h, p, c, wide, narrow⟩ := sbc16_shape flags x v
  rw [wide, narrow, zero_wideFlags _ _ _ _ _ _ _ rfl]
  exact ⟨wideFlags_narrow _ _ _ _ _ _, rfl⟩

variable {clear : Byte} (noCarry : carry clear = false)
include noCarry

theorem add16_sum : add16Sum x v = adc16Sum clear x v := by
  rw [adc16Sum, carry32, noCarry]
  exact (BitVec.add_zero _).symm

theorem add16_shape :
    let low := adcByte (lo x, lo v) clear
    let high := adcByte (hi x, hi v) low.2
    ∃ h p c, add16Flags flags x v = orIf c cf (orIf h hf (flags &&& (sf ||| zf ||| pf))) |||
        (high.1 &&& (yf ||| xf)) ∧
      high.2 = narrowFlags (sz53Of high.1) h p c := by
  intro low high
  obtain ⟨-, highIs, carryIs⟩ := adc16_bytes clear x v
  refine ⟨_, _, _, ?_, rfl⟩
  rw [add16Flags, add16_sum x v noCarry, high_half x v highIs, carryIs, highIs]
  rfl

/-- ADD keeps S, Z and P/V, and takes the rest from the bytes added without a carry. -/
theorem add16_flags :
    let low := adcByte (lo x, lo v) clear
    let high := adcByte (hi x, hi v) low.2
    add16Flags flags x v &&& (cf ||| hf ||| yf ||| xf) = high.2 &&& (cf ||| hf ||| yf ||| xf) ∧
      addSub (add16Flags flags x v) = false ∧
      add16Flags flags x v &&& (sf ||| zf ||| pf) = flags &&& (sf ||| zf ||| pf) := by
  intro low high
  obtain ⟨h, p, c, wide, narrow⟩ := add16_shape flags x v noCarry
  rw [narrow, wide, addSub_bit]
  refine ⟨?_, ?_, ?_⟩
  · apply BitVec.eq_of_getElem_eq
    intro i inside
    interval_cases i <;> simp [narrowFlags, sz53Of]
  · simp
  · apply BitVec.eq_of_getElem_eq
    intro i inside
    interval_cases i <;> simp

end WideFlags

/-! ## On the machine -/

def halves (x v : Word) : List (Byte × Byte) := [(lo x, lo v), (hi x, hi v)]

/-- The relation of ADC HL and SBC HL to the narrow operations. -/
structure Widens (old new : Registers) (bytes : List Byte) (flags : Byte) : Prop where
  stored : bytes = [new.l, new.h]
  shared : new.flags &&& ~~~zf = flags &&& ~~~zf
  bothZero : zero new.flags = bytes.all (· == 0)
  wz : new.wz = old.hl + 1

/-- The relation of ADD to them; `flags` is what they leave. -/
structure WidensAdd (old new : Registers) (dest result : Word) (bytes : List Byte)
    (flags : Byte) : Prop where
  stored : bytes = [lo result, hi result]
  shared : new.flags &&& (cf ||| hf ||| yf ||| xf) = flags &&& (cf ||| hf ||| yf ||| xf)
  noSub : addSub new.flags = false
  kept : new.flags &&& (sf ||| zf ||| pf) = old.flags &&& (sf ||| zf ||| pf)
  wz : new.wz = dest + 1

section Operations
variable (x v : Word) (cpu : Cpu)

theorem adc16_widens :
    let low := adcByte (lo cpu.regs.hl, lo v) cpu.regs.flags
    let high := adcByte (hi cpu.regs.hl, hi v) low.2
    (aluAdc16 v).Holds (fun _ next _ => Widens cpu.regs next.regs [low.1, high.1] high.2) cpu := by
  intro low high
  obtain ⟨lowIs, highIs, -⟩ := adc16_bytes cpu.regs.flags cpu.regs.hl v
  obtain ⟨shared, bothZero⟩ := adc16_flags cpu.regs.flags cpu.regs.hl v
  rw [holds_aluAdc16]
  refine ⟨?_, shared, ?_, rfl⟩
  · exact (congrArg₂ (fun l h => [l, h]) lowIs highIs).symm
  · rw [List.all_cons, List.all_cons, List.all_nil, Bool.and_true]
    exact bothZero

theorem sbc16_widens :
    let low := sbcByte (lo cpu.regs.hl, lo v) cpu.regs.flags
    let high := sbcByte (hi cpu.regs.hl, hi v) low.2
    (aluSbc16 v).Holds (fun _ next _ => Widens cpu.regs next.regs [low.1, high.1] high.2) cpu := by
  intro low high
  obtain ⟨lowIs, highIs, -⟩ := sbc16_bytes cpu.regs.flags cpu.regs.hl v
  obtain ⟨shared, bothZero⟩ := sbc16_flags cpu.regs.flags cpu.regs.hl v
  rw [holds_aluSbc16]
  refine ⟨?_, shared, ?_, rfl⟩
  · exact (congrArg₂ (fun l h => [l, h]) lowIs highIs).symm
  · rw [List.all_cons, List.all_cons, List.all_nil, Bool.and_true]
    exact bothZero

variable {clear : Byte} (noCarry : carry clear = false)
include noCarry

theorem add16_widens {old new : Registers} {result : Word}
    (flagsAre : new.flags = add16Flags old.flags x v) (wzIs : new.wz = x + 1)
    (resultIs : result = (add16Sum x v).setWidth 16) :
    let low := adcByte (lo x, lo v) clear
    let high := adcByte (hi x, hi v) low.2
    WidensAdd old new x result [low.1, high.1] high.2 := by
  intro low high
  obtain ⟨lowIs, highIs, -⟩ := adc16_bytes clear x v
  obtain ⟨shared, noSub, kept⟩ := add16_flags old.flags x v noCarry
  rw [← flagsAre] at shared noSub kept
  refine ⟨?_, shared, noSub, kept, wzIs⟩
  rw [resultIs, add16_sum x v noCarry, lowIs, highIs]
  rfl

theorem addHl_widens :
    let low := adcByte (lo cpu.regs.hl, lo v) clear
    let high := adcByte (hi cpu.regs.hl, hi v) low.2
    (addHl v).Holds (fun _ next _ => WidensAdd cpu.regs next.regs cpu.regs.hl next.regs.hl
      [low.1, high.1] high.2) cpu := by
  intro low high
  simp only [addHl, holds_bind, holds_getRegs, holds_aluAdd16, holds_modifyRegs]
  exact add16_widens cpu.regs.hl v noCarry rfl rfl (word_hi_lo _)

theorem addIndex_widens (i : IndexReg) :
    let low := adcByte (lo (cpu.regs.index i), lo v) clear
    let high := adcByte (hi (cpu.regs.index i), hi v) low.2
    (addIndex i v).Holds (fun _ next _ => WidensAdd cpu.regs next.regs (cpu.regs.index i)
      (next.regs.index i) [low.1, high.1] high.2) cpu := by
  intro low high
  simp only [addIndex, holds_bind, holds_getRegs, holds_aluAdd16, holds_modifyRegs]
  cases i with
  | ix => exact add16_widens cpu.regs.ix v noCarry rfl rfl rfl
  | iy => exact add16_widens cpu.regs.iy v noCarry rfl rfl rfl

end Operations

section Machine
variable {Host : Type} (bus : Bus Host) (x v : Word) (s : Machine Host)

theorem halves_adc :
    let low := adcByte (lo x, lo v) s.z80.regs.flags
    let high := adcByte (hi x, hi v) low.2
    let ran := exec bus (byteChain (binaryByte (aluAdd · true)) (halves x v)) s
    ran.value = [low.1, high.1] ∧ ran.machine.z80.regs.flags = high.2 :=
  Prod.mk.inj (Holds.exec bus s (byteChain_scans (fun cpu => cpu.regs.flags) binaryByte_adc
    (halves x v) s.z80.toCpu))

theorem halves_sbc :
    let low := sbcByte (lo x, lo v) s.z80.regs.flags
    let high := sbcByte (hi x, hi v) low.2
    let ran := exec bus (byteChain (binaryByte (aluSub · true)) (halves x v)) s
    ran.value = [low.1, high.1] ∧ ran.machine.z80.regs.flags = high.2 :=
  Prod.mk.inj (Holds.exec bus s (byteChain_scans (fun cpu => cpu.regs.flags) binaryByte_sbc
    (halves x v) s.z80.toCpu))

end Machine

/-- The sixteen-bit operations against pairs of eight-bit ones. -/
theorem sixteen_bit {Host : Type} (bus : Bus Host) (v : Word) (s : Machine Host) :
    let regs := s.z80.regs
    let withoutCarry := s.onZ80 fun z =>
      { z with regs := { z.regs with flags := z.regs.flags &&& ~~~cf } }
    let adc := exec bus (aluAdc16 v) s
    let adcBytes := exec bus (byteChain (binaryByte (aluAdd · true)) (halves regs.hl v)) s
    let sbc := exec bus (aluSbc16 v) s
    let sbcBytes := exec bus (byteChain (binaryByte (aluSub · true)) (halves regs.hl v)) s
    let add := exec bus (addHl v) s
    let addBytes := exec bus (byteChain (binaryByte (aluAdd · true)) (halves regs.hl v)) withoutCarry
    Widens regs adc.machine.z80.regs adcBytes.value adcBytes.machine.z80.regs.flags ∧
    Widens regs sbc.machine.z80.regs sbcBytes.value sbcBytes.machine.z80.regs.flags ∧
    WidensAdd regs add.machine.z80.regs regs.hl add.machine.z80.regs.hl addBytes.value
      addBytes.machine.z80.regs.flags ∧
    ∀ i : IndexReg,
      let addI := exec bus (addIndex i v) s
      let bytesI := exec bus (byteChain (binaryByte (aluAdd · true)) (halves (regs.index i) v))
        withoutCarry
      WidensAdd regs addI.machine.z80.regs (regs.index i) (addI.machine.z80.regs.index i)
        bytesI.value bytesI.machine.z80.regs.flags := by
  intro regs withoutCarry adc adcBytes sbc sbcBytes add addBytes
  have noCarry : carry (regs.flags &&& ~~~cf) = false := by
    rw [carry_bit]
    simp
  refine ⟨?_, ?_, ?_, ?_⟩
  · obtain ⟨values, flags⟩ := halves_adc bus regs.hl v s
    rw [values, flags]
    exact Holds.exec bus s (adc16_widens v s.z80.toCpu)
  · obtain ⟨values, flags⟩ := halves_sbc bus regs.hl v s
    rw [values, flags]
    exact Holds.exec bus s (sbc16_widens v s.z80.toCpu)
  · obtain ⟨values, flags⟩ := halves_adc bus regs.hl v withoutCarry
    rw [values, flags]
    exact Holds.exec bus s (addHl_widens v s.z80.toCpu noCarry)
  · intro i addI bytesI
    obtain ⟨values, flags⟩ := halves_adc bus (regs.index i) v withoutCarry
    rw [values, flags]
    exact Holds.exec bus s (addIndex_widens v s.z80.toCpu noCarry i)

end Z80f
