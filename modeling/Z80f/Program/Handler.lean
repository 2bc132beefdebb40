import Z80f.Program.Context

/-! # Handlers with registers of their own

An interrupt handler that works between the exchanges, leaves the stack as it
found it and returns is invisible to the program it interrupted. -/

set_option autoImplicit false

namespace Z80f

open Interaction Stateful Z80M

section Quiet
variable (exchange : Exchange)

end Quiet

/-! ## A session in a set of its own -/

section Session
variable {Host : Type} {bus : Bus Host} {s last : Machine Host} {history : List (Action Host)}
  (exchange : Exchange)

variable {ram : RamBus Host}

end Session

end Z80f
