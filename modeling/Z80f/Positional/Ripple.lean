import Mathlib.Data.Nat.Digits.Defs
import Mathlib.Tactic.Ring
import Mathlib.Tactic.LinearCombination

/-! # Carries through a number

`ripple` applies a cell to pairs of digits from the least significant on and
passes the carry along.  What a cell does to one digit in a base, the chain does
to numbers of any length modulo the power of that base. -/

set_option autoImplicit false

namespace Positional

section Ripple
variable {Digit : Type}

def ripple (cell : Digit → Digit → Bool → Digit × Bool) :
    List (Digit × Digit) → Bool → List Digit × Bool
  | [], carry => ([], carry)
  | (x, y) :: rest, carry =>
      let (digit, next) := cell x y carry
      let (digits, last) := ripple cell rest next
      (digit :: digits, last)

variable (base : Nat) (value : Digit → Nat)

def number (digits : List Digit) : Nat := Nat.ofDigits base (digits.map value)

@[simp] theorem number_nil : number base value [] = 0 := rfl

theorem number_cons (digit : Digit) (digits : List Digit) :
    number base value (digit :: digits) = value digit + base * number base value digits :=
  Nat.ofDigits_cons

theorem number_lt (big : 1 < base) {digits : List Digit} (small : ∀ d ∈ digits, value d < base) :
    number base value digits < base ^ digits.length := by
  have bound := Nat.ofDigits_lt_base_pow_length big (l := digits.map value) (by
    intro d member
    obtain ⟨digit, present, rfl⟩ := List.mem_map.mp member
    exact small digit present)
  rwa [List.length_map] at bound

/-- A digit that stands for a number below the base. -/
structure IsDigits (base : Nat) (value : Digit → Nat) (valid : Digit → Prop) : Prop where
  big : 1 < base
  small : ∀ d, valid d → value d < base

variable (valid : Digit → Prop) (cell : Digit → Digit → Bool → Digit × Bool)

/-- One digit of an addition. -/
structure AddsDigit : Prop extends IsDigits base value valid where
  valid_out : ∀ x y c, valid x → valid y → valid (cell x y c).1
  sum : ∀ x y c, valid x → valid y →
    value (cell x y c).1 + base * (cell x y c).2.toNat = value x + value y + c.toNat

/-- One digit of a subtraction; the carry is a borrow. -/
structure SubtractsDigit : Prop extends IsDigits base value valid where
  valid_out : ∀ x y c, valid x → valid y → valid (cell x y c).1
  difference : ∀ x y c, valid x → valid y →
    value (cell x y c).1 + value y + c.toNat = value x + base * (cell x y c).2.toNat

variable {base value valid cell}

theorem ripple_length (pairs : List (Digit × Digit)) (c : Bool) :
    (ripple cell pairs c).1.length = pairs.length := by
  induction pairs generalizing c with
  | nil => rfl
  | cons pair rest ih => exact congrArg (· + 1) (ih _)

theorem ripple_valid (valid_out : ∀ x y c, valid x → valid y → valid (cell x y c).1)
    {pairs : List (Digit × Digit)} (allValid : ∀ p ∈ pairs, valid p.1 ∧ valid p.2) (c : Bool) :
    ∀ d ∈ (ripple cell pairs c).1, valid d := by
  induction pairs generalizing c with
  | nil =>
      intro d member
      cases member
  | cons pair rest ih =>
      obtain ⟨head, tail⟩ := List.forall_mem_cons.mp allValid
      exact List.forall_mem_cons.mpr ⟨valid_out _ _ c head.1 head.2, ih tail _⟩

variable {pairs : List (Digit × Digit)} (allValid : ∀ p ∈ pairs, valid p.1 ∧ valid p.2) (c : Bool)
include allValid

/-- Nothing is lost: the last carry is the missing power of the base. -/
theorem AddsDigit.balance (adds : AddsDigit base value valid cell) :
    number base value (ripple cell pairs c).1 +
        base ^ pairs.length * (ripple cell pairs c).2.toNat =
      number base value (pairs.map Prod.fst) + number base value (pairs.map Prod.snd) +
        c.toNat := by
  induction pairs generalizing c with
  | nil => simp [ripple]
  | cons pair rest ih =>
      obtain ⟨head, tail⟩ := List.forall_mem_cons.mp allValid
      have digit := adds.sum pair.1 pair.2 c head.1 head.2
      have later := ih tail (cell pair.1 pair.2 c).2
      simp only [ripple, number_cons, List.map_cons, List.length_cons, pow_succ']
      linear_combination digit + base * later

theorem SubtractsDigit.balance (subtracts : SubtractsDigit base value valid cell) :
    number base value (ripple cell pairs c).1 + number base value (pairs.map Prod.snd) +
        c.toNat =
      number base value (pairs.map Prod.fst) +
        base ^ pairs.length * (ripple cell pairs c).2.toNat := by
  induction pairs generalizing c with
  | nil => simp [ripple]
  | cons pair rest ih =>
      obtain ⟨head, tail⟩ := List.forall_mem_cons.mp allValid
      have digit := subtracts.difference pair.1 pair.2 c head.1 head.2
      have later := ih tail (cell pair.1 pair.2 c).2
      simp only [ripple, number_cons, List.map_cons, List.length_cons, pow_succ']
      linear_combination digit + base * later

theorem AddsDigit.ripple_mod (adds : AddsDigit base value valid cell) :
    let sum := number base value (pairs.map Prod.fst) + number base value (pairs.map Prod.snd) +
      c.toNat
    number base value (ripple cell pairs c).1 = sum % base ^ pairs.length ∧
      (ripple cell pairs c).2 = decide (base ^ pairs.length ≤ sum) := by
  intro sum
  have balance : _ = sum := adds.balance allValid c
  have small := number_lt base value adds.big fun d member =>
    adds.small d (ripple_valid adds.valid_out allValid c d member)
  rw [ripple_length] at small
  cases carry : (ripple cell pairs c).2 with
  | false =>
      rw [carry, Bool.toNat_false, Nat.mul_zero, Nat.add_zero] at balance
      constructor
      · rw [← balance, Nat.mod_eq_of_lt small]
      · exact (decide_eq_false (by omega)).symm
  | true =>
      rw [carry, Bool.toNat_true, Nat.mul_one] at balance
      constructor
      · rw [← balance, Nat.add_mod_right, Nat.mod_eq_of_lt small]
      · exact (decide_eq_true (by omega)).symm

theorem SubtractsDigit.ripple_mod (subtracts : SubtractsDigit base value valid cell) :
    let x := number base value (pairs.map Prod.fst)
    let y := number base value (pairs.map Prod.snd)
    (number base value (ripple cell pairs c).1 : Int) =
        ((x : Int) - y - c.toNat) % (base : Int) ^ pairs.length ∧
      (ripple cell pairs c).2 = decide (x < y + c.toNat) := by
  intro x y
  have balance : number base value (ripple cell pairs c).1 + y + c.toNat =
    x + base ^ pairs.length * (ripple cell pairs c).2.toNat := subtracts.balance allValid c
  have small := number_lt base value subtracts.big fun d member =>
    subtracts.small d (ripple_valid subtracts.valid_out allValid c d member)
  rw [ripple_length] at small
  have balanceInt : (x : Int) - y - c.toNat = number base value (ripple cell pairs c).1 -
      (base : Int) ^ pairs.length * (ripple cell pairs c).2.toNat := by
    have cast := congrArg (Nat.cast : Nat → Int) balance
    push_cast at cast
    linear_combination -cast
  have smallInt : (number base value (ripple cell pairs c).1 : Int) <
      (base : Int) ^ pairs.length := by exact_mod_cast small
  constructor
  · rw [balanceInt, Int.sub_mul_emod_self_left,
      Int.emod_eq_of_lt (Int.natCast_nonneg _) smallInt]
  · cases borrow : (ripple cell pairs c).2 with
    | false =>
        rw [borrow, Bool.toNat_false, Nat.mul_zero, Nat.add_zero] at balance
        exact (decide_eq_false (by omega)).symm
    | true =>
        rw [borrow, Bool.toNat_true, Nat.mul_one] at balance
        exact (decide_eq_true (by omega)).symm

end Ripple
end Positional
