import Z80f.Encoding.StepCase
import Z80f.Host.Stack

/-! # Interrupt entry

What NMI and INT have in common: they wake the CPU and push the PC it then has,
and nothing else is written. -/

set_option autoImplicit false

namespace Z80f

open Interaction Stateful Z80M

section Entry
variable {cpu next : Cpu} {kind : StepKind} {path : Path}

theorem Vectored.writes {r : Registers} {databus : Byte} {pc wz : Word} {tail : Path}
    (vectored : Vectored r databus pc wz tail) : writesOf tail = [] := by
  cases vectored <;> rfl

/-- An accepted interrupt wakes the CPU and pushes the PC it then has. -/
theorem StepCase.pushes (case : StepCase cpu kind next path)
    (accepted : kind = .nmi ∨ kind = .int) :
    next.regs.halted = false ∧ next.regs.sp = cpu.regs.sp - 1 - 1 ∧
      writesOf path = [(cpu.regs.sp - 1, hi cpu.regs.wake.pc),
        (cpu.regs.sp - 1 - 1, lo cpu.regs.wake.pc)] := by
  have wakeSp : cpu.regs.wake.sp = cpu.regs.sp := by rw [Registers.wake_eq]
  cases case with
  | nmi pending =>
      refine ⟨?_, ?_, ?_⟩
      · rw [Registers.nmiEntry_eq]
      · rw [Registers.nmiEntry_eq]
      · rw [nmiPath, writesOf_cycle, writesOf_push, wakeSp]
  | int noNmi accepts databus pc wz tail vectored =>
      refine ⟨?_, ?_, ?_⟩
      · rw [Registers.intEntry_eq]
      · rw [Registers.intEntry_eq]
      · rw [writesOf_append, vectored.writes, List.append_nil, intPath, writesOf_cycle,
          writesOf_acknowledge, writesOf_push, wakeSp]
  | halted | instruction => rcases accepted with never | never <;> cases never

end Entry

end Z80f
