import Z80f.Cpu.Rules

/-! # One round of a block instruction

The registers after one round, and the rules that execute it.  A round that
repeats moves PC back over the instruction. -/

set_option autoImplicit false

namespace Z80f

open Interaction Stateful Z80M Flags

namespace Registers

/-- LDI, LDD and a last round of LDIR, LDDR. -/
def blockLdDone (delta : Int) (byte : Byte) (r : Registers) : Registers :=
  { r with
    h := hi (r.hl + BitVec.ofInt 16 delta), l := lo (r.hl + BitVec.ofInt 16 delta)
    d := hi (r.de + BitVec.ofInt 16 delta), e := lo (r.de + BitVec.ofInt 16 delta)
    b := hi (r.bc - 1), c := lo (r.bc - 1)
    flags := blockLdFlags r.flags r.a byte (r.bc - 1) }

def blockCpDone (delta : Int) (byte : Byte) (r : Registers) : Registers :=
  { r with
    h := hi (r.hl + BitVec.ofInt 16 delta), l := lo (r.hl + BitVec.ofInt 16 delta)
    b := hi (r.bc - 1), c := lo (r.bc - 1)
    wz := r.wz + BitVec.ofInt 16 delta
    flags := blockCpFlags r.flags r.a byte (r.bc - 1) }

def blockInDone (delta : Int) (byte : Byte) (r : Registers) : Registers :=
  { r with
    h := hi (r.hl + BitVec.ofInt 16 delta), l := lo (r.hl + BitVec.ofInt 16 delta)
    b := r.b - 1
    wz := r.bc + BitVec.ofInt 16 delta
    flags := blockIoFlags (r.b - 1) byte
      (byte.setWidth 16 + (r.c + BitVec.ofInt 8 delta).setWidth 16) }

/-- The port of OUTI and its kin: B has been decremented. -/
def blockOutPort (r : Registers) : Word := word (r.b - 1) r.c

def blockOutDone (delta : Int) (byte : Byte) (r : Registers) : Registers :=
  { r with
    h := hi (r.hl + BitVec.ofInt 16 delta), l := lo (r.hl + BitVec.ofInt 16 delta)
    b := r.b - 1
    wz := r.blockOutPort + BitVec.ofInt 16 delta
    flags := blockIoFlags (r.b - 1) byte
      (byte.setWidth 16 + (lo (r.hl + BitVec.ofInt 16 delta)).setWidth 16) }

/-- A repeating LDIR or CPIR. -/
def rewound (r : Registers) : Registers := { r with pc := r.pc - 2, wz := r.pc - 2 + 1 }

def rewoundPc (r : Registers) : Registers := { r with pc := r.pc - 2 }

end Registers

section Rules
variable (cpu : Cpu) (delta : Int) (repeats : Bool) {post : Int → Cpu → Path → Prop}

theorem holds_blockLd :
    (blockLd delta repeats).Holds post cpu ↔ ∀ v : Byte,
      let again := repeats && cpu.regs.bc - 1 != 0
      let done := cpu.regs.blockLdDone delta v
      let path := [cycle cpu.regs.hl 3, readOf .data cpu.regs.hl v,
        cycle cpu.regs.de 3, writeOf cpu.regs.de v] ++ idleCycles cpu.regs.de 2
      (again = false → post 16 (cpu.flagged done) path) ∧
      (again = true → post 21 (cpu.flagged done.rewound) (path ++ idleCycles cpu.regs.de 5)) := by
  cases repeats <;>
    simp [blockLd, Registers.blockLdDone, Registers.rewound, Registers.setHl, Registers.setDe,
      Registers.setBc, Registers.hl, Registers.de, Registers.bc]

theorem holds_blockCp :
    (blockCp delta repeats).Holds post cpu ↔ ∀ v : Byte,
      let again := repeats && cpu.regs.bc - 1 != 0 && lo (subDiff cpu.regs.a v 0) != 0
      let done := cpu.regs.blockCpDone delta v
      let path := [cycle cpu.regs.hl 3, readOf .data cpu.regs.hl v] ++ idleCycles cpu.regs.hl 5
      (again = false → post 16 (cpu.flagged done) path) ∧
      (again = true → post 21 (cpu.flagged done.rewound) (path ++ idleCycles cpu.regs.hl 5)) := by
  cases repeats with
  | false =>
      simp [blockCp, Registers.blockCpDone, Registers.setHl, Registers.setBc, Registers.hl,
        Registers.bc]
  | true =>
      simp [blockCp, Registers.blockCpDone, Registers.rewound, Registers.setHl, Registers.setBc,
        Registers.hl, Registers.bc]
      exact forall_congr' fun _ => and_comm

theorem holds_blockIn :
    (blockIn delta repeats).Holds post cpu ↔ ∀ v : Byte,
      let again := repeats && cpu.regs.b - 1 != 0
      let done := cpu.regs.blockInDone delta v
      let path := [cycle cpu.regs.refreshAddress 1, cycle cpu.regs.bc 4, ioReadOf cpu.regs.bc v,
        cycle cpu.regs.hl 3, writeOf cpu.regs.hl v]
      (again = false → post 16 (cpu.flagged done) path) ∧
      (again = true →
        post 21 (cpu.flagged done.rewoundPc) (path ++ idleCycles cpu.regs.hl 5)) := by
  cases repeats <;>
    simp [blockIn, Registers.blockInDone, Registers.rewoundPc, Registers.setHl, Registers.hl,
      Registers.bc]

theorem holds_blockOut :
    (blockOut delta repeats).Holds post cpu ↔ ∀ v : Byte,
      let again := repeats && cpu.regs.b - 1 != 0
      let done := cpu.regs.blockOutDone delta v
      let port := cpu.regs.blockOutPort
      let path := [cycle cpu.regs.refreshAddress 1, cycle cpu.regs.hl 3,
        readOf .data cpu.regs.hl v, cycle port 4, ioWriteOf port v]
      (again = false → post 16 (cpu.flagged done) path) ∧
      (again = true → post 21 (cpu.flagged done.rewoundPc) (path ++ idleCycles port 5)) := by
  cases repeats <;>
    simp [blockOut, Registers.blockOutDone, Registers.blockOutPort, Registers.rewoundPc,
      Registers.setHl, Registers.hl, Registers.bc]

end Rules
end Z80f
