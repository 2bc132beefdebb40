import Z80f.Positional.Scan
import Mathlib.Data.Int.Init

/-! # Signed numbers

`Int.bmod` reads a number below an even modulus as a signed one.  Its sign is
the sign of the top digit, and a sum or a difference overflows exactly when the
signs say so. -/

set_option autoImplicit false

namespace Positional

/-- The number has no signed form modulo `modulus`. -/
def overflows (modulus : Nat) (v : Int) : Bool :=
  decide (2 * v < -modulus ∨ (modulus : Int) ≤ 2 * v)

theorem bmod_half {half x : Nat} (bound : x < 2 * half) :
    Int.bmod x (2 * half) = if half ≤ x then (x : Int) - 2 * half else x := by
  have fits : (x : Int) % (2 * half : Nat) = x :=
    Int.emod_eq_of_lt (Int.natCast_nonneg x) (by exact_mod_cast bound)
  rw [Int.bmod_def, fits]
  split <;> split <;> omega

theorem bmod_negative {half x : Nat} (bound : x < 2 * half) :
    decide (Int.bmod x (2 * half) < 0) = decide (half ≤ x) := by
  rw [bmod_half bound, decide_eq_decide]
  split <;> omega

section TopDigit
variable {Digit : Type} {half : Nat} {value : Digit → Nat} {digits : List Digit} {top : Digit}
  (big : 1 < 2 * half) (small : ∀ d ∈ digits, value d < 2 * half)
include big small

theorem number_negative :
    half * (2 * half) ^ digits.length ≤ number (2 * half) value (digits ++ [top]) ↔
      half ≤ value top := by
  have rest := number_lt (2 * half) value big small
  rw [number_concat]
  generalize number (2 * half) value digits = low at rest ⊢
  generalize (2 * half) ^ digits.length = weight at rest ⊢
  constructor
  · intro above
    by_contra below
    have next : value top + 1 ≤ half := by omega
    have grown : weight * (value top + 1) ≤ weight * half := Nat.mul_le_mul_left weight next
    rw [Nat.mul_add, Nat.mul_one, Nat.mul_comm weight half] at grown
    omega
  · intro above
    have grown : weight * half ≤ weight * value top := Nat.mul_le_mul_left weight above
    rw [Nat.mul_comm weight half] at grown
    omega

end TopDigit

section Overflow
variable {half x y r : Nat} {c out : Bool} (xBound : x < 2 * half) (yBound : y < 2 * half)
  (rBound : r < 2 * half)
include xBound yBound rBound

theorem sum_overflow (balance : r + 2 * half * out.toNat = x + y + c.toNat) :
    let total := Int.bmod x (2 * half) + Int.bmod y (2 * half) + c.toNat
    ((decide (half ≤ x) == decide (half ≤ y)) && (decide (half ≤ x) != decide (half ≤ r))) =
      overflows (2 * half) total := by
  simp only [overflows, bmod_half xBound, bmod_half yBound]
  rw [Bool.eq_iff_iff, Bool.and_eq_true, beq_iff_eq, bne_iff_ne, Ne, decide_eq_decide,
    decide_eq_decide, decide_eq_true_eq]
  have cBound := Bool.toNat_le c
  cases out with
  | false =>
      rw [Bool.toNat_false] at balance
      split <;> split <;> omega
  | true =>
      rw [Bool.toNat_true] at balance
      split <;> split <;> omega

/-- Two numbers of different signs have a difference of the second one's sign. -/
theorem difference_overflow (balance : r + y + c.toNat = x + 2 * half * out.toNat) :
    let total := Int.bmod x (2 * half) - Int.bmod y (2 * half) - c.toNat
    ((decide (half ≤ x) != decide (half ≤ y)) && (decide (half ≤ x) != decide (half ≤ r))) =
      overflows (2 * half) total := by
  simp only [overflows, bmod_half xBound, bmod_half yBound]
  rw [Bool.eq_iff_iff, Bool.and_eq_true, bne_iff_ne, bne_iff_ne, Ne, Ne, decide_eq_decide,
    decide_eq_decide, decide_eq_true_eq]
  have cBound := Bool.toNat_le c
  cases out with
  | false =>
      rw [Bool.toNat_false] at balance
      split <;> split <;> omega
  | true =>
      rw [Bool.toNat_true] at balance
      split <;> split <;> omega

/-- The sign of a difference, corrected by the overflow, compares. -/
theorem difference_less (balance : r + y + c.toNat = x + 2 * half * out.toNat) :
    let total := Int.bmod x (2 * half) - Int.bmod y (2 * half) - c.toNat
    (decide (half ≤ r) ^^ overflows (2 * half) total) = decide (total < 0) := by
  simp only [overflows, bmod_half xBound, bmod_half yBound]
  have cBound := Bool.toNat_le c
  rw [Bool.eq_iff_iff, Bool.xor_iff_ne, Ne, decide_eq_decide, decide_eq_true_eq]
  cases out with
  | false =>
      rw [Bool.toNat_false] at balance
      split <;> split <;> omega
  | true =>
      rw [Bool.toNat_true] at balance
      split <;> split <;> omega

end Overflow
end Positional
