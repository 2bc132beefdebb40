import Z80f.Interaction.Mirror
import Z80f.Cpu.StepRules

/-! # The exchange of HL and an index register

`swapHl x` exchanges HL with the register `x`.  A helper that names neither
mirrors itself; a helper of the DD/FD dispatcher mirrors the one it was
written after. -/

set_option autoImplicit false

namespace Z80f

open Interaction Stateful Z80M Flags

def Registers.swapHl (x : IndexReg) (r : Registers) : Registers :=
  { r with
    h := hi (r.index x)
    l := lo (r.index x)
    ix := match x with | .ix => r.hl | .iy => r.ix
    iy := match x with | .ix => r.iy | .iy => r.hl }

def Cpu.swapHl (x : IndexReg) (cpu : Cpu) : Cpu := { cpu with regs := cpu.regs.swapHl x }

section Swap
variable (x : IndexReg) (r : Registers)

@[simp] theorem swapHl_hl : (r.swapHl x).hl = r.index x := word_hi_lo _
@[simp] theorem swapHl_index : (r.swapHl x).index x = r.hl := by cases x <;> rfl
@[simp] theorem swapHl_h : (r.swapHl x).h = hi (r.index x) := rfl
@[simp] theorem swapHl_l : (r.swapHl x).l = lo (r.index x) := rfl
@[simp] theorem swapHl_a : (r.swapHl x).a = r.a := rfl
@[simp] theorem swapHl_flags : (r.swapHl x).flags = r.flags := rfl
@[simp] theorem swapHl_b : (r.swapHl x).b = r.b := rfl
@[simp] theorem swapHl_c : (r.swapHl x).c = r.c := rfl
@[simp] theorem swapHl_d : (r.swapHl x).d = r.d := rfl
@[simp] theorem swapHl_e : (r.swapHl x).e = r.e := rfl
@[simp] theorem swapHl_af : (r.swapHl x).af = r.af := rfl
@[simp] theorem swapHl_bc : (r.swapHl x).bc = r.bc := rfl
@[simp] theorem swapHl_de : (r.swapHl x).de = r.de := rfl
@[simp] theorem swapHl_sp : (r.swapHl x).sp = r.sp := rfl
@[simp] theorem swapHl_pc : (r.swapHl x).pc = r.pc := rfl
@[simp] theorem swapHl_q : (r.swapHl x).q = r.q := rfl
@[simp] theorem swapHl_refreshAddress : (r.swapHl x).refreshAddress = r.refreshAddress := rfl

theorem swapHl_swapHl : (r.swapHl x).swapHl x = r := by
  cases x <;> simp [Registers.swapHl, Registers.index, Registers.hl]

end Swap

section Rules
variable {x : IndexReg} {α : Type}

theorem mirrors_getRegs {f f' : Registers → Z80M α}
    (rest : ∀ r, Mirrors (Cpu.swapHl x) (f r) (f' (r.swapHl x))) :
    Mirrors (Cpu.swapHl x) (getRegs >>= f) (getRegs >>= f') :=
  ⟨fun cpu => (rest cpu.regs).mirror cpu⟩

theorem mirrors_modifyRegs {f f' : Registers → Registers}
    (image : ∀ r, f' (r.swapHl x) = (f r).swapHl x) :
    Mirrors (Cpu.swapHl x) (modifyRegs f) (modifyRegs f') := by
  refine Mirrors.modify ?_
  intro cpu
  simp only [Cpu.swapHl, image]

instance (address : Word) (tStates : Int) : Mirrors (Cpu.swapHl x) (machineCycle address tStates)
    (machineCycle address tStates) := ⟨fun _ => rfl⟩

end Rules

/-! ## The calls -/

section Leaves
variable {x : IndexReg} (a v : Word) (byte : Byte)

instance (n : Nat) : Mirrors (Cpu.swapHl x) (idle a n) (idle a n) := by
  induction n with
  | zero => exact ⟨fun _ => rfl⟩
  | succ n ih => exact Mirrors.bind fun _ => ih

instance : Mirrors (Cpu.swapHl x) fetchOpcode fetchOpcode := ⟨fun _ => rfl⟩
instance : Mirrors (Cpu.swapHl x) fetchImmediate fetchImmediate := ⟨fun _ => rfl⟩
instance : Mirrors (Cpu.swapHl x) fetchImmediate16 fetchImmediate16 := ⟨fun _ => rfl⟩
instance : Mirrors (Cpu.swapHl x) (read8 a) (read8 a) := ⟨fun _ => rfl⟩
instance : Mirrors (Cpu.swapHl x) (write8 a byte) (write8 a byte) := ⟨fun _ => rfl⟩
instance : Mirrors (Cpu.swapHl x) (push16 v) (push16 v) := ⟨fun _ => rfl⟩
instance : Mirrors (Cpu.swapHl x) pop16 pop16 := ⟨fun _ => rfl⟩
instance (operation : Nat) : Mirrors (Cpu.swapHl x) (aluOp operation byte)
    (aluOp operation byte) := by
  unfold aluOp
  split <;> exact ⟨fun _ => rfl⟩

instance : Mirrors (Cpu.swapHl x) (aluInc byte) (aluInc byte) := ⟨fun _ => rfl⟩
instance : Mirrors (Cpu.swapHl x) (aluDec byte) (aluDec byte) := ⟨fun _ => rfl⟩
instance : Mirrors (Cpu.swapHl x) (aluAdd16 a v) (aluAdd16 a v) := ⟨fun _ => rfl⟩
instance : Mirrors (Cpu.swapHl x) (store16 a v) (store16 a v) := ⟨fun _ => rfl⟩
instance : Mirrors (Cpu.swapHl x) (modifyRegs fun r => { r with wz := v })
    (modifyRegs fun r => { r with wz := v }) := ⟨fun _ => rfl⟩

instance : Mirrors (Cpu.swapHl x) (modifyRegs (Registers.setIndex x v))
    (modifyRegs (Registers.setHl v)) := by
  cases x <;> exact mirrors_modifyRegs fun r => by
    simp [Registers.swapHl, Registers.setIndex, Registers.setHl, Registers.index, Registers.hl]

instance : Mirrors (Cpu.swapHl x) (setIxh x byte) (modifyRegs (Registers.setReg8 4 byte)) := by
  cases x <;> exact mirrors_modifyRegs fun r => by
    simp [Registers.swapHl, Registers.setIndex, Registers.setReg8, Registers.index, Registers.hl]

instance : Mirrors (Cpu.swapHl x) (setIxl x byte) (modifyRegs (Registers.setReg8 5 byte)) := by
  cases x <;> exact mirrors_modifyRegs fun r => by
    simp [Registers.swapHl, Registers.setIndex, Registers.setReg8, Registers.index, Registers.hl,
      mask_high_or]

instance : Mirrors (Cpu.swapHl x) (setIxh x byte) (modifyRegs fun r => { r with h := byte }) :=
  inferInstanceAs (Mirrors (Cpu.swapHl x) (setIxh x byte) (modifyRegs (Registers.setReg8 4 byte)))
instance : Mirrors (Cpu.swapHl x) (setIxl x byte) (modifyRegs fun r => { r with l := byte }) :=
  inferInstanceAs (Mirrors (Cpu.swapHl x) (setIxl x byte) (modifyRegs (Registers.setReg8 5 byte)))

instance : Mirrors (Cpu.swapHl x) (addIndex x v) (addHl v) := by
  refine mirrors_getRegs fun r => ?_
  simp only [swapHl_hl]
  refine Mirrors.bind fun _ => ?_
  infer_instance

instance : Mirrors (Cpu.swapHl x) (load16 a (Registers.setIndex x)) (load16 a Registers.setHl) := by
  unfold load16
  repeat refine Mirrors.bind fun _ => ?_
  infer_instance

def isHalf (field : Nat) : Bool := field == 4 || field == 5

theorem isHalf_whole {field : Nat} (h : field ≠ 4) (l : field ≠ 5) : isHalf field = false := by
  simp [isHalf, h, l]

theorem reg8_swapHl (r : Registers) {field : Nat} (whole : isHalf field = false) :
    (r.swapHl x).reg8 field = r.reg8 field := by
  unfold Registers.reg8
  split <;> first | rfl | exact Bool.noConfusion whole

theorem setReg8_mirrors {field : Nat} (whole : isHalf field = false) :
    Mirrors (Cpu.swapHl x) (modifyRegs (Registers.setReg8 field byte))
      (modifyRegs (Registers.setReg8 field byte)) := by
  refine mirrors_modifyRegs fun r => ?_
  unfold Registers.setReg8
  split <;> first | rfl | exact Bool.noConfusion whole

/-- What the field of an opcode names under a prefix. -/
def readHalf (x : IndexReg) (field : Nat) : Z80M Byte :=
  match field with
  | 4 => ixh x
  | 5 => ixl x
  | _ => do return (← getRegs).reg8 field

def writeHalf (x : IndexReg) (field : Nat) (v : Byte) : Z80M Unit :=
  match field with
  | 4 => setIxh x v
  | 5 => setIxl x v
  | _ => modifyRegs (Registers.setReg8 field v)

instance (field : Nat) : Mirrors (Cpu.swapHl x) (readHalf x field)
    (do return (← getRegs).reg8 field) := by
  unfold readHalf
  split
  · exact ⟨fun _ => rfl⟩
  · exact ⟨fun _ => rfl⟩
  · refine mirrors_getRegs fun r => ?_
    rw [reg8_swapHl r (isHalf_whole ‹_› ‹_›)]
    infer_instance

instance (field : Nat) : Mirrors (Cpu.swapHl x) (writeHalf x field byte)
    (modifyRegs (Registers.setReg8 field byte)) := by
  unfold writeHalf
  split
  · infer_instance
  · infer_instance
  · exact setReg8_mirrors byte (isHalf_whole ‹_› ‹_›)

theorem modifyIndex_mirrors (g : Word → Word) :
    Mirrors (Cpu.swapHl x) (modifyRegs fun r => r.setIndex x (g (r.index x)))
      (modifyRegs fun r => r.setHl (g r.hl)) := by
  cases x <;> exact mirrors_modifyRegs fun r => by
    simp [Registers.swapHl, Registers.setIndex, Registers.setHl, Registers.index, Registers.hl]

instance : Mirrors (Cpu.swapHl x) (modifyRegs fun r => r.setIndex x (r.index x + 1))
    (modifyRegs fun r => r.setHl (r.hl + 1)) := modifyIndex_mirrors (· + 1)
instance : Mirrors (Cpu.swapHl x) (modifyRegs fun r => r.setIndex x (r.index x - 1))
    (modifyRegs fun r => r.setHl (r.hl - 1)) := modifyIndex_mirrors (· - 1)
instance : Mirrors (Cpu.swapHl x) (modifyRegs fun r => { r with pc := r.index x })
    (modifyRegs fun r => { r with pc := r.hl }) :=
  mirrors_modifyRegs fun r => by rw [swapHl_hl]; rfl
instance : Mirrors (Cpu.swapHl x) (modifyRegs fun r => { r with sp := r.index x })
    (modifyRegs fun r => { r with sp := r.hl }) :=
  mirrors_modifyRegs fun r => by rw [swapHl_hl]; rfl

theorem modifyRegs_then (f g : Registers → Registers) :
    (do modifyRegs f; modifyRegs g) = modifyRegs fun r => g (f r) := rfl

/-- HL is stored in two halves, the index register in one piece. -/
instance : Mirrors (Cpu.swapHl x) (exSpIndex x) exSpHl := by
  unfold exSpIndex exSpHl
  repeat
    first
    | refine mirrors_getRegs fun r => ?_
      try simp only [swapHl_sp, swapHl_h, swapHl_l]
    | refine Mirrors.bind fun _ => ?_
  simp only [modifyRegs_then]
  refine mirrors_modifyRegs fun r => ?_
  cases x <;> simp [Registers.swapHl, Registers.setIndex, Registers.index, Registers.hl]

end Leaves
end Z80f
