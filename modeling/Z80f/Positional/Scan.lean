import Z80f.Positional.Ripple

/-! # A state handed from digit to digit

`scan` applies a cell to the digits in order.  A cell that multiplies or divides
one digit, with the rest of it in the state, multiplies or divides the number:
the product is built from the least significant digit on, the quotient from the
most significant one. -/

set_option autoImplicit false

namespace Positional

section Scan
variable {Input Digit State : Type}

def scan (cell : Input → State → Digit × State) : List Input → State → List Digit × State
  | [], state => ([], state)
  | input :: rest, state =>
      let (digit, next) := cell input state
      let (digits, last) := scan cell rest next
      (digit :: digits, last)

variable (cell : Input → State → Digit × State)

theorem scan_length (inputs : List Input) (state : State) :
    (scan cell inputs state).1.length = inputs.length := by
  induction inputs generalizing state with
  | nil => rfl
  | cons input rest ih => exact congrArg (· + 1) (ih _)

theorem scan_append (inputs rest : List Input) (state : State) :
    scan cell (inputs ++ rest) state =
      ((scan cell inputs state).1 ++ (scan cell rest (scan cell inputs state).2).1,
        (scan cell rest (scan cell inputs state).2).2) := by
  induction inputs generalizing state with
  | nil => rfl
  | cons input inputs ih => simp only [List.cons_append, scan, ih]

theorem scan_abstract {State' : Type} {cell' : Input → State' → Digit × State'}
    (keep : State → State')
    (agree : ∀ input state, cell' input (keep state) =
      ((cell input state).1, keep (cell input state).2))
    (inputs : List Input) (state : State) :
    scan cell' inputs (keep state) =
      ((scan cell inputs state).1, keep (scan cell inputs state).2) := by
  induction inputs generalizing state with
  | nil => rfl
  | cons input rest ih => simp only [scan, agree, ih]

/-- A scan with the inverse of each step, in the other direction, undoes a scan. -/
theorem scan_undo {back : Digit → State → Input × State}
    (undoes : ∀ input state, back (cell input state).1 (cell input state).2 = (input, state))
    (inputs : List Input) (state : State) :
    scan back (scan cell inputs state).1.reverse (scan cell inputs state).2 =
      (inputs.reverse, state) := by
  induction inputs generalizing state with
  | nil => rfl
  | cons input rest ih =>
      simp only [scan, List.reverse_cons]
      rw [scan_append, ih]
      simp only [scan, undoes]

theorem scan_ripple (adder : Digit → Digit → Bool → Digit × Bool) (pairs : List (Digit × Digit))
    (carry : Bool) : scan (fun p => adder p.1 p.2) pairs carry = ripple adder pairs carry := by
  induction pairs generalizing carry with
  | nil => rfl
  | cons pair rest ih => simp only [scan, ripple, ih]

end Scan

section Factor
variable {Digit State : Type} (base factor : Nat) (value : Digit → Nat) (held : State → Nat)

theorem number_concat (digits : List Digit) (top : Digit) :
    number base value (digits ++ [top]) =
      number base value digits + base ^ digits.length * value top := by
  rw [number, number, List.map_append, Nat.ofDigits_append, List.length_map]
  simp

/-- One digit of a multiplication; the state holds what goes to the next digit. -/
def MultipliesDigit (cell : Digit → State → Digit × State) : Prop :=
  ∀ digit state, value (cell digit state).1 + base * held (cell digit state).2 =
    factor * value digit + held state

/-- One digit of a division; the state holds the remainder. -/
def DividesDigit (cell : Digit → State → Digit × State) : Prop :=
  ∀ digit state, factor * value (cell digit state).1 + held (cell digit state).2 =
    value digit + base * held state

variable {base factor value held} {cell : Digit → State → Digit × State}

theorem MultipliesDigit.balance (multiplies : MultipliesDigit base factor value held cell)
    (digits : List Digit) (state : State) :
    number base value (scan cell digits state).1 +
        base ^ digits.length * held (scan cell digits state).2 =
      factor * number base value digits + held state := by
  induction digits generalizing state with
  | nil => simp [scan]
  | cons digit rest ih =>
      have first := multiplies digit state
      have later := ih (cell digit state).2
      simp only [scan, number_cons, List.length_cons, pow_succ']
      linear_combination first + base * later

theorem DividesDigit.balance (divides : DividesDigit base factor value held cell)
    (digits : List Digit) (state : State) :
    factor * number base value (scan cell digits state).1.reverse +
        held (scan cell digits state).2 =
      number base value digits.reverse + base ^ digits.length * held state := by
  induction digits generalizing state with
  | nil => simp [scan]
  | cons digit rest ih =>
      have first := divides digit state
      have later := ih (cell digit state).2
      simp only [scan, List.reverse_cons, number_concat, List.length_reverse, scan_length,
        List.length_cons, pow_succ]
      linear_combination later + base ^ rest.length * first

variable (big : 1 < base) (small : ∀ d, value d < base)
include big small

theorem MultipliesDigit.scan_mod (multiplies : MultipliesDigit base factor value held cell)
    (digits : List Digit) (state : State) :
    let product := factor * number base value digits + held state
    number base value (scan cell digits state).1 = product % base ^ digits.length ∧
      held (scan cell digits state).2 = product / base ^ digits.length := by
  intro product
  have balance : _ = product := multiplies.balance digits state
  have fits : number base value (scan cell digits state).1 <
      base ^ (scan cell digits state).1.length := number_lt base value big fun d _ => small d
  rw [scan_length] at fits
  constructor
  · rw [← balance, Nat.add_mul_mod_self_left, Nat.mod_eq_of_lt fits]
  · rw [← balance, Nat.add_mul_div_left _ _ (Nat.zero_lt_of_lt fits), Nat.div_eq_of_lt fits,
      Nat.zero_add]

end Factor
end Positional
