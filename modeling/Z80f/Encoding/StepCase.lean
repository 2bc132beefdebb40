import Z80f.Encoding.Execution

/-! # The four ends of a step

A step services an NMI, accepts an interrupt, repeats HALT or executes an
instruction.  `StepCase` says all that each of them can do; what is invariant
along a run is proved from it. -/

set_option autoImplicit false

namespace Z80f

open Interaction Stateful Z80M

/-- PC, WZ and the reads of the vectoring after an acknowledge with `databus`. -/
inductive Vectored (r : Registers) (databus : Byte) : Word → Word → Path → Prop where
  | mode0 (im : r.im = 0) : Vectored r databus (rstTarget databus) (rstTarget databus) []
  | mode1 (im : r.im = 1) : Vectored r databus 0x0038 0x0038 []
  | mode2 (im : r.im = 2) (low high : Byte) : Vectored r databus (word high low) (word high low)
      [cycle (word r.i databus) 3, readOf .data (word r.i databus) low,
        cycle (word r.i databus + 1) 3, readOf .data (word r.i databus + 1) high]
  | other (not0 : r.im ≠ 0) (not1 : r.im ≠ 1) (not2 : r.im ≠ 2) :
      Vectored r databus r.wake.pc r.wz []

def Cpu.shadowLeft (cpu : Cpu) : Cpu :=
  { cpu.pulseTaken with regs := { cpu.regs with eiPending := false } }

inductive StepCase (cpu : Cpu) : StepKind → Cpu → Path → Prop where
  | nmi (pending : cpu.nmiPending = true) :
      StepCase cpu .nmi
        { cpu with flagsModified := false, regs := cpu.regs.nmiEntry, nmiPending := false }
        (nmiPath cpu.regs)
  | int (noNmi : cpu.nmiPending = false) (accepts : cpu.acceptsInt = true) (databus : Byte)
      (pc wz : Word) (tail : Path) (vectored : Vectored cpu.regs databus pc wz tail) :
      StepCase cpu .int { cpu.pulseTaken with regs := { cpu.regs.intEntry with pc := pc, wz := wz } }
        (intPath cpu.regs databus ++ tail)
  | halted (noNmi : cpu.nmiPending = false) (noInt : cpu.acceptsInt = false)
      (halted : cpu.regs.halted = true) (v : Byte) :
      StepCase cpu .halted { cpu.shadowLeft with regs := cpu.shadowLeft.regs.haltCycle }
        [cycle cpu.regs.pc 4, readOf .data cpu.regs.pc v]
  | instruction (noNmi : cpu.nmiPending = false) (noInt : cpu.acceptsInt = false)
      (running : cpu.regs.halted = false) (t : Int) (settled : Cpu) (path : Path)
      (met : Met (instructionProfile (fetchedBytes path)) 0 cpu.shadowLeft t settled path) :
      StepCase cpu (.instruction t) settled.settleQ path

theorem Registers.wake_eq (r : Registers) :
    r.wake = { r with pc := if r.halted then r.pc + 1 else r.pc, halted := false } := by
  unfold Registers.wake
  by_cases halted : r.halted = true
  · rw [if_pos halted, if_pos halted]
  · rw [if_neg halted, if_neg halted]
    have running : false = r.halted := (Bool.eq_false_iff.mpr halted).symm
    rw [running]

theorem Registers.nmiEntry_eq (r : Registers) :
    r.nmiEntry = { r with
      r := r.incR.r, q := 0, iff1 := false, halted := false, sp := r.sp - 1 - 1, pc := 0x0066,
      wz := 0x0066 } := by
  rw [Registers.nmiEntry, r.wake_eq]
  rfl

theorem Registers.intEntry_eq (r : Registers) :
    r.intEntry = { r with
      r := r.incR.r, q := 0, iff1 := false, iff2 := false, halted := false, sp := r.sp - 1 - 1,
      pc := r.wake.pc } := by
  rw [Registers.intEntry, r.wake_eq]
  rfl

theorem vectorInt_vectored (databus : Byte) (cpu : Cpu) (r : Registers)
    (regs : cpu.regs = r.intEntry) :
    (vectorInt databus).Holds (fun _ next tail => ∃ pc wz, Vectored r databus pc wz tail ∧
      next = { cpu with regs := { cpu.regs with pc := pc, wz := wz } }) cpu := by
  have entryPc : cpu.regs.pc = r.wake.pc := regs ▸ rfl
  have keeps {β : Type} (member : Registers → β) (same : member r.intEntry = member r) :
      member cpu.regs = member r := regs ▸ same
  have entryIm : cpu.regs.im = r.im := keeps Registers.im (by rw [Registers.intEntry_eq])
  have entryI : cpu.regs.i = r.i := keeps Registers.i (by rw [Registers.intEntry_eq])
  have entryWz : cpu.regs.wz = r.wz := keeps Registers.wz (by rw [Registers.intEntry_eq])
  rw [holds_vectorInt, entryIm, entryI]
  refine ⟨fun mode => ?_, fun mode => ?_, fun mode low high => ?_, fun not0 not1 not2 => ?_⟩
  · exact ⟨_, _, .mode0 mode, rfl⟩
  · exact ⟨_, _, .mode1 mode, rfl⟩
  · exact ⟨_, _, .mode2 mode low high, rfl⟩
  · refine ⟨cpu.regs.pc, cpu.regs.wz, ?_, rfl⟩
    rw [entryPc, entryWz]
    exact .other not0 not1 not2

theorem StepCase.executed {cpu next : Cpu} {t : Int} {path : Path}
    (case : StepCase cpu (.instruction t) next path) :
    ∃ settled s, next = settled.settleQ ∧ cpu.regs.halted = false ∧
      Meets (instructionProfile (fetchedBytes path)) s cpu.shadowLeft settled path := by
  cases case with
  | instruction noNmi noInt running t settled path met =>
      obtain ⟨s, meets, -⟩ := met
      exact ⟨settled, s, rfl, running, meets⟩

theorem stepBody_case (fuel : Nat) (cpu : Cpu) :
    (stepBody fuel).Holds (fun found next path => ∀ kind, found = some kind →
      StepCase cpu kind next path) cpu := by
  rw [holds_stepBody]
  refine ⟨fun pending => ?_, fun noNmi accepts databus => ?_, fun noNmi noInt => ?_⟩
  · rintro _ ⟨rfl⟩
    exact .nmi pending
  · refine (vectorInt_vectored databus _ cpu.regs rfl).mono ?_
    rintro _ _ tail ⟨pc, wz, vectored, rfl⟩ _ ⟨rfl⟩
    exact .int noNmi accepts databus pc wz tail vectored
  · rw [holds_haltOrExecute]
    refine ⟨fun halted v => ?_, fun running => ?_⟩
    · rintro _ ⟨rfl⟩
      exact .halted noNmi noInt halted v
    · refine (executeInstruction_conforms fuel _).mono ?_
      intro found next path conforms kind eq
      obtain ⟨t, settled, rfl, rfl, met⟩ := conforms kind eq
      exact .instruction noNmi noInt running t settled path met

theorem stepBody_instructs {rel : List Byte → Cpu → Prop} (fuel : Nat) (cpu : Cpu)
    (noBytes : ∀ next, rel [] next)
    (executed : (executeInstruction fuel).Holds (fun found next path => ∀ kind, found = some kind →
      rel (fetchedBytes path) next) cpu.shadowLeft) :
    (stepBody fuel).Holds (fun found next path => ∀ kind, found = some kind →
      rel (fetchedBytes path) next) cpu := by
  rw [holds_stepBody]
  refine ⟨fun _ => ?_, fun _ _ databus => ?_, fun _ _ => ?_⟩
  · intro _ _
    exact noBytes _
  · apply (vectorInt_vectored databus _ cpu.regs rfl).mono
    rintro _ _ tail ⟨pc, wz, vectored, rfl⟩ _ _
    have none : fetchedBytes tail = [] := by cases vectored <;> rfl
    rw [fetchedBytes_append, none]
    exact noBytes _
  · rw [holds_haltOrExecute]
    refine ⟨fun _ v => ?_, fun _ => executed⟩
    intro _ _
    exact noBytes _

theorem step_case {Host : Type} {bus : Bus Host} {fuel : Nat} {s : Machine Host}
    {stepped : Stepped Host} (returns : step bus fuel s = some stepped) :
    StepCase s.z80.toCpu stepped.kind stepped.machine.z80.toCpu
      (stepped.calls.map Exchange.answered) :=
  Holds.step (stepBody_case fuel s.z80.toCpu) returns _ rfl

end Z80f
