import Z80f.Cpu.Session
import Z80f.Encoding.Consumption
import Z80f.Interrupts.Entry

/-! # HALT

HALT leaves PC on its own opcode and every later step reads it again, until an
interrupt moves PC past it.  That is an invariant of the sessions that accept no
interrupt. -/

set_option autoImplicit false

namespace Z80f

open Interaction Stateful Z80M

theorem StepCase.halts {cpu next : Cpu} {t : Int} {path : Path} {prefixes : List Byte}
    (case : StepCase cpu (.instruction t) next path)
    (allPrefixes : ∀ p ∈ prefixes, isIndexPrefix p = true)
    (fetched : fetchedBytes path = prefixes ++ [0x76#8]) :
    next.regs.halted = true ∧ next.regs.pc = cpu.regs.pc + BitVec.ofNat 16 prefixes.length ∧
      readOf .fetch (cpu.regs.pc + BitVec.ofNat 16 prefixes.length) 0x76 ∈ path := by
  obtain ⟨settled, s, rfl, running, meets⟩ := case.executed
  have consumes : Consumes cpu.regs.pc s.fetched path := meets.signed.consumes meets.inOrder
  have control := meets.control
  have code : (prefixes ++ [0x76#8]).dropWhile isIndexPrefix = [0x76#8] := by
    rw [List.dropWhile_append_of_pos allPrefixes]
    rfl
  rw [instructionProfile_control, fetched, code] at control
  have halted : settled.regs.halted = true := congrArg Control.halted control
  obtain ⟨-, pc⟩ := meets.halts running halted
  have count : s.fetched = prefixes.length + 1 := by
    rw [← consumes.length, fetched, List.length_append, List.length_singleton]
  refine ⟨halted, ?_, consumes.fetchedAt fetched⟩
  change settled.regs.pc = _
  rw [pc, count, BitVec.ofNat_add, ← BitVec.add_assoc]
  exact BitVec.add_sub_cancel _ _

section Halted
variable {Host : Type} {bus : Bus Host} {s : Machine Host}

theorem step_halted_returns (fuel : Nat) (halted : s.z80.regs.halted = true) :
    ∃ next, step bus fuel s = some next := by
  have holds : (stepBody fuel).Holds (fun found _ _ => found ≠ none) s.started.z80.toCpu := by
    rw [holds_stepBody]
    refine ⟨fun _ => Option.some_ne_none _, fun _ _ databus => ?_, fun _ _ => ?_⟩
    · exact Holds.intro _ (fun _ _ _ => Option.some_ne_none _) _
    · rw [holds_haltOrExecute]
      refine ⟨fun _ _ => Option.some_ne_none _, fun running => ?_⟩
      exact absurd (halted.symm.trans running) (by decide)
  obtain ⟨kind, value⟩ := Option.ne_none_iff_exists'.mp (Holds.exec bus s.started holds)
  simp only [step, value, Option.map_some]
  exact ⟨_, rfl⟩

def HaltedAt (a : Word) (s : Machine Host) : Prop :=
  s.z80.regs.halted = true ∧ s.z80.regs.pc = a

def NoService (history : List (Action Host)) : Prop :=
  ∀ result, .stepped result ∈ history → result.kind ≠ .nmi ∧ result.kind ≠ .int

theorem StepCase.stays {cpu next : Cpu} {kind : StepKind} {path : Path}
    (case : StepCase cpu kind next path) (halted : cpu.regs.halted = true) (noNmi : kind ≠ .nmi)
    (noInt : kind ≠ .int) :
    (∃ v, path = [cycle cpu.regs.pc 4, readOf .data cpu.regs.pc v]) ∧
      next.regs = { cpu.regs with r := cpu.regs.incR.r, q := 0, eiPending := false } := by
  cases case with
  | nmi => exact absurd rfl noNmi
  | int => exact absurd rfl noInt
  | halted _ _ _ v => exact ⟨⟨v, rfl⟩, rfl⟩
  | instruction _ _ running => exact absurd (halted.symm.trans running) (by decide)

theorem Act.haltedAt {a : Word} {action : Action Host} {last : Machine Host}
    (act : Act bus s action last) (halted : HaltedAt a s) (noService : NoService [action]) :
    HaltedAt a last := by
  cases act with
  | setNmiLine | setIntLine | pulseIntLine => exact halted
  | stepped returns =>
      obtain ⟨noNmi, noInt⟩ := noService _ List.mem_cons_self
      obtain ⟨-, regs⟩ := (step_case returns).stays halted.1 noNmi noInt
      rw [HaltedAt, regs]
      exact halted

theorem run_haltedAt {a : Word} {history : List (Action Host)} {last : Machine Host}
    (run : Run (Act bus) s history last) (halted : HaltedAt a s) (noService : NoService history) :
    HaltedAt a last := by
  induction run with
  | start => exact halted
  | next run act ih =>
      have earlier := ih fun result member => noService result (List.mem_cons_of_mem _ member)
      refine act.haltedAt earlier fun result member => noService result ?_
      rw [List.mem_singleton.mp member]
      exact List.mem_cons_self

end Halted

/-- After a HALT at `a`, and as long as no interrupt is accepted, every step is
one 4 T cycle that reads `a` and leaves PC there; the first interrupt that is
accepted wakes the CPU and pushes `a + 1`, where a return resumes. -/
theorem halt_persists {Host : Type} (bus : Bus Host) (fuel : Nat) (s : Machine Host)
    (halting : Stepped Host) (t : Int) (prefixes : List Byte)
    (returns : step bus fuel s = some halting) (isInstruction : halting.kind = .instruction t)
    (allPrefixes : ∀ p ∈ prefixes, isIndexPrefix p = true)
    (fetched : fetchedBytes (halting.calls.map Exchange.answered) = prefixes ++ [0x76#8]) :
    let a := s.z80.regs.pc + BitVec.ofNat 16 prefixes.length
    readOf .fetch a 0x76 ∈ halting.calls.map Exchange.answered ∧
    ∀ history later, Run (Act bus) halting.machine history later → NoService history →
      ∀ fuel, ∃ next, step bus fuel later = some next ∧
        let path := next.calls.map Exchange.answered
        let before := later.z80.regs
        let after := next.machine.z80.regs
        (next.kind ≠ .nmi → next.kind ≠ .int →
          (∃ v, path = [cycle a 4, readOf .data a v]) ∧
          after = { before with r := before.incR.r, q := 0, eiPending := false }) ∧
        (next.kind = .nmi ∨ next.kind = .int →
          after.halted = false ∧ after.sp = before.sp - 1 - 1 ∧
          writesOf path = [(before.sp - 1, hi (a + 1)), (before.sp - 1 - 1, lo (a + 1))] ∧
          ∀ memory, word (memoryAfter memory path (after.sp + 1))
            (memoryAfter memory path after.sp) = a + 1) := by
  intro a
  have case := step_case returns
  rw [isInstruction] at case
  obtain ⟨halted, pc, fetch⟩ := case.halts allPrefixes fetched
  refine ⟨fetch, fun history later run noService fuel => ?_⟩
  obtain ⟨laterHalted, laterPc⟩ := run_haltedAt run ⟨halted, pc⟩ noService
  obtain ⟨next, nextReturns⟩ : ∃ next, step bus fuel later = some next :=
    step_halted_returns fuel laterHalted
  have nextCase := step_case nextReturns
  refine ⟨next, nextReturns, fun noNmi noInt => ?_, fun accepted => ?_⟩
  · obtain ⟨path, regs⟩ := nextCase.stays laterHalted noNmi noInt
    rw [laterPc] at path
    exact ⟨path, regs⟩
  · obtain ⟨awake, sp, writes⟩ := nextCase.pushes accepted
    have wake : later.z80.regs.wake.pc = a + 1 := by
      rw [Registers.wake_eq, laterHalted, laterPc]
      rfl
    rw [wake] at writes
    refine ⟨awake, sp, writes, fun memory => ?_⟩
    rw [sp]
    exact pushed_word _ _ writes memory

/-- DD 76, and an NMI that wakes the CPU. -/
theorem halt_persists_nmi :
    ∃ halting next : Stepped Memory,
      step flatRam.toBus 0 { z80 := {}, host := programAt 0 [0xDD, 0x76] 0 } = some halting ∧
      step flatRam.toBus 0 (halting.machine.onZ80 (Z80.setNmiLine true)) = some next ∧
      writesOf (next.calls.map Exchange.answered) = [(0xFFFF, 0), (0xFFFE, 2)] := by
  obtain ⟨-, later⟩ := halt_persists flatRam.toBus 0
    { z80 := {}, host := programAt 0 [0xDD, 0x76] 0 } _ 8 [0xDD] rfl rfl (by decide) rfl
  obtain ⟨next, returns, -, accepted⟩ := later _ _ (.next .start (.setNmiLine _ true))
    (fun result member => by cases List.mem_singleton.mp member) 0
  have isNmi : next.kind = .nmi := by
    cases returns
    rfl
  exact ⟨_, next, rfl, returns, (accepted (.inl isNmi)).2.2.1⟩

end Z80f
