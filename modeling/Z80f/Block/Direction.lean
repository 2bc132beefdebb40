import Z80f.Cpu.Word

/-! # Directions

A block instruction walks up or down through memory, modulo 2^16. -/

set_option autoImplicit false

namespace Z80f

inductive Direction where
  | up
  | down
deriving DecidableEq

namespace Direction

def delta : Direction → Int
  | .up => 1
  | .down => -1

def move (direction : Direction) (address : Word) (i : Nat) : Word :=
  match direction with
  | .up => address + BitVec.ofNat 16 i
  | .down => address - BitVec.ofNat 16 i

def distance (direction : Direction) (source target : Word) : Nat :=
  match direction with
  | .up => (target - source).toNat
  | .down => (source - target).toNat

variable (direction : Direction) (address source target : Word)

@[simp] theorem move_zero : direction.move address 0 = address := by
  cases direction <;> simp [move]

theorem move_succ (i : Nat) : direction.move address (i + 1) =
    direction.move address i + BitVec.ofInt 16 direction.delta := by
  cases direction with
  | up =>
      rw [move, move, BitVec.ofNat_add, BitVec.add_assoc]
      rfl
  | down =>
      simp only [move, delta]
      bv_omega

theorem move_move (i j : Nat) :
    direction.move (direction.move address i) j = direction.move address (i + j) := by
  cases direction with
  | up => rw [move, move, move, BitVec.ofNat_add, BitVec.add_assoc]
  | down =>
      simp only [move]
      bv_omega

theorem move_eq_iff {i j : Nat} (iBound : i < 65536) (jBound : j < 65536) :
    direction.move address i = direction.move address j ↔ i = j := by
  cases direction <;> simp only [move] <;> bv_omega

theorem move_distance : direction.move source (direction.distance source target) = target := by
  cases direction <;> simp only [move, distance, BitVec.ofNat_toNat] <;> bv_omega

theorem distance_lt : direction.distance source target < 65536 := by
  cases direction <;> exact BitVec.isLt _

end Direction

end Z80f
