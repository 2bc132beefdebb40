import Mathlib.Logic.Basic
import Mathlib.Tactic.Common

/-! # Bytes, 16-bit words and their halves -/

set_option autoImplicit false

namespace Z80f

abbrev Byte : Type := BitVec 8
abbrev Word : Type := BitVec 16

def hi (value : Word) : Byte := (value >>> 8).setWidth 8

def lo (value : Word) : Byte := value.setWidth 8

def word (high low : Byte) : Word := (high.setWidth 16 <<< 8) ||| low.setWidth 16

/-- A displacement byte, read as a signed number. -/
def displacement (value : Byte) : Word := value.signExtend 16

/-- `static_cast<int8_t>` of the byte, modulo `2 ^ 16`. -/
theorem displacement_eq (value : Byte) : displacement value = BitVec.ofInt 16 value.toInt := rfl

theorem toNat_hi (value : Word) : (hi value).toNat = value.toNat / 256 := by
  have bound := value.isLt
  simp only [hi, BitVec.toNat_setWidth, BitVec.toNat_ushiftRight, Nat.shiftRight_eq_div_pow]
  omega

theorem toNat_lo (value : Word) : (lo value).toNat = value.toNat % 256 := by
  simp [lo]

theorem toNat_word (high low : Byte) : (word high low).toNat = high.toNat * 256 + low.toNat := by
  have highBound := high.isLt
  have lowBound := low.isLt
  simp only [word, BitVec.toNat_or, BitVec.toNat_shiftLeft, BitVec.toNat_setWidth]
  have highFits : (high.toNat % 2 ^ 16) <<< 8 % 2 ^ 16 = high.toNat <<< 8 := by
    simp only [Nat.shiftLeft_eq]
    omega
  rw [highFits, Nat.mod_eq_of_lt (by omega : low.toNat < 2 ^ 16),
    ← Nat.shiftLeft_add_eq_or_of_lt lowBound, Nat.shiftLeft_eq]

@[simp] theorem hi_word (high low : Byte) : hi (word high low) = high := by
  apply BitVec.eq_of_toNat_eq
  have lowBound := low.isLt
  rw [toNat_hi, toNat_word]
  omega

@[simp] theorem lo_word (high low : Byte) : lo (word high low) = low := by
  apply BitVec.eq_of_toNat_eq
  have lowBound := low.isLt
  rw [toNat_lo, toNat_word]
  omega

@[simp] theorem word_hi_lo (value : Word) : word (hi value) (lo value) = value := by
  apply BitVec.eq_of_toNat_eq
  rw [toNat_word, toNat_hi, toNat_lo]
  omega

theorem next_address (pc : Word) (k : Nat) :
    pc + BitVec.ofNat 16 (k + 1) = pc + 1 + BitVec.ofNat 16 k := by
  rw [BitVec.ofNat_add, BitVec.add_assoc, BitVec.add_comm 1]
  rfl

theorem mask_high_or (value : Word) (low : Byte) :
    (value &&& 0xFF00#16) ||| low.setWidth 16 = word (hi value) low := by
  have highHalf : value &&& 0xFF00#16 = (hi value).setWidth 16 <<< 8 := by
    apply BitVec.eq_of_getLsbD_eq
    intro i bound
    have mask : ∀ i < 16, (0xFF00#16).getLsbD i = !decide (i < 8) := by decide
    simp only [BitVec.getLsbD_and, BitVec.getLsbD_shiftLeft, BitVec.getLsbD_setWidth, hi,
      BitVec.getLsbD_ushiftRight, mask i bound]
    by_cases low8 : i < 8
    · simp [low8]
    · have back : 8 + (i - 8) = i := by omega
      have inHigh : i - 8 < 8 := by omega
      have inWord : i - 8 < 16 := by omega
      simp only [low8, bound, inHigh, inWord, back, decide_true, decide_false, Bool.not_false,
        Bool.and_true, Bool.true_and]
  rw [highHalf, word]

end Z80f
