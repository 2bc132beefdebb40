import Mathlib.Logic.Function.Basic

/-! # Copying cell by cell

`copy` moves the cells at `src 0`, `src 1`, … to `dst 0`, `dst 1`, …, one after
the other, in a memory that may hold both.  Where the source runs behind the
destination by a fixed lag, the copy repeats the cells before it. -/

set_option autoImplicit false

namespace Interaction

section Copy
variable {Address Value : Type} [DecidableEq Address] (src dst : Nat → Address)

def copyCell (source target : Address) (memory : Address → Value) : Address → Value :=
  Function.update memory target (memory source)

def copy (memory : Address → Value) : Nat → Address → Value
  | 0 => memory
  | count + 1 => copyCell (src count) (dst count) (copy memory count)

variable {src dst} {memory : Address → Value} {count : Nat}

/-- Memories that agree at the source still agree where they did. -/
theorem copyCell_agree {memory' : Address → Value} {source target address : Address}
    (sources : memory source = memory' source) (there : memory address = memory' address) :
    copyCell source target memory address = copyCell source target memory' address := by
  simp only [copyCell, Function.update_apply, sources, there]

theorem copy_outside {address : Address} (outside : ∀ i < count, address ≠ dst i) :
    copy src dst memory count address = memory address := by
  induction count with
  | zero => rfl
  | succ count ih =>
      rw [copy, copyCell, Function.update_of_ne (outside count (Nat.lt_succ_self count))]
      exact ih fun i lt => outside i (Nat.lt_succ_of_lt lt)

theorem copy_stored (distinct : ∀ i < count, ∀ j < count, dst i = dst j → i = j) {i : Nat}
    (lt : i < count) :
    copy src dst memory count (dst i) = copy src dst memory i (src i) := by
  induction count with
  | zero => cases lt
  | succ count ih =>
      have earlier : ∀ i < count, ∀ j < count, dst i = dst j → i = j := fun i ilt j jlt =>
        distinct i (Nat.lt_succ_of_lt ilt) j (Nat.lt_succ_of_lt jlt)
      rcases Nat.lt_succ_iff_lt_or_eq.mp lt with before | rfl
      · have apart : dst i ≠ dst count := fun same =>
          Nat.ne_of_lt before (distinct i lt count (Nat.lt_succ_self count) same)
        rw [copy, copyCell, Function.update_of_ne apart]
        exact ih earlier before
      · rw [copy, copyCell, Function.update_self]

/-- The source is `lag` cells behind the destination. -/
theorem copy_lag {lag : Nat} (positive : 0 < lag)
    (distinct : ∀ i < count, ∀ j < count, dst i = dst j → i = j)
    (behind : ∀ i < count, lag ≤ i → src i = dst (i - lag))
    (ahead : ∀ i < count, i < lag → ∀ j < i, src i ≠ dst j) {i : Nat} (lt : i < count) :
    copy src dst memory count (dst i) = memory (src (i % lag)) := by
  induction i using Nat.strongRecOn with
  | ind i ih =>
      rw [copy_stored distinct lt]
      rcases Nat.lt_or_ge i lag with first | later
      · rw [Nat.mod_eq_of_lt first]
        exact copy_outside fun j before => ahead i lt first j before
      · -- the cell `lag` places before is already stored, and is not stored again
        have before : i - lag < i := by omega
        have earlier := ih (i - lag) before (by omega)
        rw [Nat.mod_eq_sub_mod later, ← earlier, behind i lt later]
        rw [copy_stored distinct (by omega : i - lag < count)]
        refine copy_stored ?_ before
        exact fun a alt b blt => distinct a (by omega) b (by omega)

theorem copy_self (same : ∀ i < count, src i = dst i) : copy src dst memory count = memory := by
  induction count with
  | zero => rfl
  | succ count ih =>
      rw [copy, ih fun i lt => same i (Nat.lt_succ_of_lt lt), copyCell,
        same count (Nat.lt_succ_self count)]
      exact Function.update_eq_self _ _

end Copy
end Interaction
