import Z80f.Cpu.DispatchIndex

/-! # Which opcodes have a case

The two top bits of an opcode say which part of `dispatch_unprefixed` it is for.
The other two switches list the opcodes that they have a case for. -/

set_option autoImplicit false

namespace Z80f

theorem kindField_eq : ∀ op : Byte, kindField op = op.toNat / 64 := by decide

/-- HALT has its case in the middle of the loads. -/
theorem opcode_blocks : ∀ op : Byte,
    (kindField op = 1 ∧ op ≠ 0x76#8) ∨ kindField op = 2 ∨ kindField op = 3 ∨
      (op.toNat < 0x40 ∨ op = 0x76#8) := by
  decide

section Blocks
variable {op : Byte} (t : Int)

theorem opcodeArm_ld (block : kindField op = 1) (notHalt : op ≠ 0x76#8) :
    opcodeArm op t = do ldArm op; return t := by
  have range : 0x40 ≤ op.toNat ∧ op.toNat ≤ 0x7F := by
    rw [kindField_eq] at block
    omega
  fun_cases opcodeArm op t
  all_goals first
    | exact absurd block (by decide)
    | exact absurd rfl notHalt
    | exact if_pos range

theorem opcodeArm_alu (block : kindField op = 2) :
    opcodeArm op t = do aluArm op; return t := by
  have range : 0x80 ≤ op.toNat ∧ op.toNat ≤ 0xBF := by
    rw [kindField_eq] at block
    omega
  have notLd : ¬ (0x40 ≤ op.toNat ∧ op.toNat ≤ 0x7F) := by omega
  fun_cases opcodeArm op t
  all_goals first
    | exact absurd block (by decide)
    | exact (if_neg notLd).trans (if_pos range)

theorem opcodeArm_high (block : kindField op = 3) : opcodeArm op t = highArm op t := by
  rw [kindField_eq] at block
  have notLd : ¬ (0x40 ≤ op.toNat ∧ op.toNat ≤ 0x7F) := by omega
  have notAlu : ¬ (0x80 ≤ op.toNat ∧ op.toNat ≤ 0xBF) := by omega
  fun_cases opcodeArm op t
  all_goals first
    | exact absurd block (by decide)
    | exact (if_neg notLd).trans (if_neg notAlu)

end Blocks

/-- The opcodes that `dispatch_ed` has a case for. -/
def edOpcodes : List Byte :=
  [0x40#8, 0x41#8, 0x42#8, 0x43#8, 0x44#8, 0x45#8, 0x46#8, 0x47#8, 0x48#8, 0x49#8, 0x4A#8, 0x4B#8,
    0x4C#8, 0x4D#8, 0x4E#8, 0x4F#8, 0x50#8, 0x51#8, 0x52#8, 0x53#8, 0x54#8, 0x55#8, 0x56#8, 0x57#8,
    0x58#8, 0x59#8, 0x5A#8, 0x5B#8, 0x5C#8, 0x5D#8, 0x5E#8, 0x5F#8, 0x60#8, 0x61#8, 0x62#8, 0x63#8,
    0x64#8, 0x65#8, 0x66#8, 0x67#8, 0x68#8, 0x69#8, 0x6A#8, 0x6B#8, 0x6C#8, 0x6D#8, 0x6E#8, 0x6F#8,
    0x70#8, 0x71#8, 0x72#8, 0x73#8, 0x74#8, 0x75#8, 0x76#8, 0x78#8, 0x79#8, 0x7A#8, 0x7B#8, 0x7C#8,
    0x7D#8, 0x7E#8, 0xA0#8, 0xA1#8, 0xA2#8, 0xA3#8, 0xA8#8, 0xA9#8, 0xAA#8, 0xAB#8, 0xB0#8, 0xB1#8,
    0xB2#8, 0xB3#8, 0xB8#8, 0xB9#8, 0xBA#8, 0xBB#8]

def indexOpcodes : List Byte :=
  [0x09#8, 0x19#8, 0x21#8, 0x22#8, 0x23#8, 0x24#8, 0x25#8, 0x26#8, 0x29#8, 0x2A#8, 0x2B#8, 0x2C#8,
    0x2D#8, 0x2E#8, 0x34#8, 0x35#8, 0x36#8, 0x39#8, 0x44#8, 0x45#8, 0x46#8, 0x4C#8, 0x4D#8, 0x4E#8,
    0x54#8, 0x55#8, 0x56#8, 0x5C#8, 0x5D#8, 0x5E#8, 0x60#8, 0x61#8, 0x62#8, 0x63#8, 0x64#8, 0x65#8,
    0x66#8, 0x67#8, 0x68#8, 0x69#8, 0x6A#8, 0x6B#8, 0x6C#8, 0x6D#8, 0x6E#8, 0x6F#8, 0x70#8, 0x71#8,
    0x72#8, 0x73#8, 0x74#8, 0x75#8, 0x77#8, 0x7C#8, 0x7D#8, 0x7E#8, 0x84#8, 0x85#8, 0x86#8, 0x8C#8,
    0x8D#8, 0x8E#8, 0x94#8, 0x95#8, 0x96#8, 0x9C#8, 0x9D#8, 0x9E#8, 0xA4#8, 0xA5#8, 0xA6#8, 0xAC#8,
    0xAD#8, 0xAE#8, 0xB4#8, 0xB5#8, 0xB6#8, 0xBC#8, 0xBD#8, 0xBE#8, 0xCB#8, 0xE1#8, 0xE3#8, 0xE5#8,
    0xE9#8, 0xF9#8]

section Listed
variable {op : Byte}

theorem edArm_unlisted (unlisted : op ∉ edOpcodes) : edArm op = return 8 := by
  fun_cases edArm op
  all_goals first
    | exact absurd (by decide) unlisted
    | rfl

theorem indexArm_unlisted (x : IndexReg) (t : Int) (unlisted : op ∉ indexOpcodes) :
    indexArm x op t = do let cost ← dispatchOpcode op; return t + cost := by
  fun_cases indexArm x op t
  all_goals first
    | exact absurd (by decide) unlisted
    | rfl

theorem indexArm_cb (x : IndexReg) (t : Int) :
    indexArm x 0xCB#8 t = do let cost ← dispatchIndexCb x; return t + cost := rfl

end Listed

end Z80f
