import Z80f.Interrupts.Latches

/-! # Interrupts from the history alone

IFF1, IFF2 and the mode are what the executed instructions and the services
since the reset left.  So the history says whether the next step accepts the
maskable interrupt and where that leads. -/

set_option autoImplicit false

namespace Z80f

open Interaction Stateful

inductive Masking where
  | keeps
  | arms
  /-- DI, and the acceptance of an INT. -/
  | disarms
  /-- The service of an NMI. -/
  | hides
  /-- RETN and RETI. -/
  | uncovers
deriving DecidableEq

def opMasking (op : Byte) : Masking :=
  match op with
  | 0xF3 => .disarms
  | 0xFB => .arms
  | _ => .keeps

def edMasking (op : Byte) : Masking :=
  match op with
  | 0x45 | 0x55 | 0x65 | 0x75 | 0x4D | 0x5D | 0x6D | 0x7D => .uncovers
  | _ => .keeps

/-- The bytes from the opcode on. -/
def codeMasking : List Byte → Masking
  | [] => .keeps
  | op :: rest => if op = 0xED#8 then edMasking (rest.headD 0) else opMasking op

def edMode (op : Byte) : Option Byte :=
  match op with
  | 0x46 | 0x4E | 0x66 | 0x6E => some 0
  | 0x56 | 0x76 => some 1
  | 0x5E | 0x7E => some 2
  | _ => none

def codeMode : List Byte → Option Byte
  | [] => none
  | op :: rest => if op = 0xED#8 then edMode (rest.headD 0) else none

def kindMasking (code : List Byte) : StepKind → Masking
  | .nmi => .hides
  | .int => .disarms
  | .halted => .keeps
  | .instruction _ => codeMasking code

def kindMode (code : List Byte) : StepKind → Option Byte
  | .nmi | .int | .halted => none
  | .instruction _ => codeMode code

section History
variable {Host : Type}

def executedCode (result : Stepped Host) : List Byte :=
  codeOf (fetchedBytes (result.calls.map Exchange.answered))

def masking (result : Stepped Host) : Masking := kindMasking (executedCode result) result.kind

def mode (result : Stepped Host) : Option Byte := kindMode (executedCode result) result.kind

/-- EI was executed, and since then no DI and no acceptance. -/
def armed : List (Action Host) → Bool
  | [] => false
  | .stepped result :: earlier =>
      match masking result with
      | .arms => true
      | .disarms => false
      | .keeps | .hides | .uncovers => armed earlier
  | _ :: earlier => armed earlier

/-- An NMI was serviced, and since then none of EI, DI, RETN, RETI and no acceptance. -/
def hidden : List (Action Host) → Bool
  | [] => false
  | .stepped result :: earlier =>
      match masking result with
      | .hides => true
      | .arms | .disarms | .uncovers => false
      | .keeps => hidden earlier
  | _ :: earlier => hidden earlier

def lastMode : List (Action Host) → Byte
  | [] => 0
  | .stepped result :: earlier => (mode result).getD (lastMode earlier)
  | _ :: earlier => lastMode earlier

end History

def Masking.iffs : Masking → Bool × Bool → Bool × Bool
  | .keeps, iffs => iffs
  | .arms, _ => (true, true)
  | .disarms, _ => (false, false)
  | .hides, (_, iff2) => (false, iff2)
  | .uncovers, (_, iff2) => (iff2, iff2)

def Control.iffs (control : Control) : Bool × Bool := (control.iff1, control.iff2)

theorem controlAfter_iffs (op : Byte) (control : Control) :
    (controlAfter op control).iffs = (opMasking op).iffs control.iffs ∧
      (controlAfter op control).im = control.im := by
  unfold controlAfter opMasking
  split
  · exact ⟨rfl, rfl⟩
  · exact ⟨rfl, rfl⟩
  · exact ⟨rfl, rfl⟩
  · rename_i halt di ei
    simp only [Masking.iffs]
    exact ⟨trivial, trivial⟩

theorem edControlAfter_iffs (op : Byte) (control : Control) :
    (edControlAfter op control).iffs = (edMasking op).iffs control.iffs ∧
      (edControlAfter op control).im = (edMode op).getD control.im := by
  unfold edControlAfter edMasking edMode
  split
  all_goals first
    | exact ⟨rfl, rfl⟩
    | simp only [Masking.iffs]
      exact ⟨trivial, rfl⟩

theorem controlOf_iffs (code : List Byte) (control : Control) :
    (controlOf code control).iffs = (codeMasking code).iffs control.iffs ∧
      (controlOf code control).im = (codeMode code).getD control.im := by
  cases code with
  | nil => exact ⟨rfl, rfl⟩
  | cons op rest =>
      by_cases ed : op = 0xED#8
      · rw [controlOf, codeMasking, codeMode, if_pos ed, if_pos ed, if_pos ed]
        exact edControlAfter_iffs _ control
      · rw [controlOf, codeMasking, codeMode, if_neg ed, if_neg ed, if_neg ed]
        exact controlAfter_iffs op control

theorem StepCase.masks {cpu next : Cpu} {kind : StepKind} {path : Path}
    (case : StepCase cpu kind next path) :
    next.regs.control.iffs =
        (kindMasking (codeOf (fetchedBytes path)) kind).iffs cpu.regs.control.iffs ∧
      next.regs.im = (kindMode (codeOf (fetchedBytes path)) kind).getD cpu.regs.im := by
  cases case with
  | nmi pending =>
      rw [Registers.nmiEntry_eq]
      exact ⟨rfl, rfl⟩
  | int noNmi accepts databus pc wz tail vectored =>
      rw [Registers.intEntry_eq]
      exact ⟨rfl, rfl⟩
  | halted noNmi noInt halted v => exact ⟨rfl, rfl⟩
  | instruction noNmi noInt running t settled path met =>
      obtain ⟨s, meets, -⟩ := met
      have control := meets.control
      rw [instructionProfile_control] at control
      obtain ⟨iffs, im⟩ := controlOf_iffs (codeOf (fetchedBytes path)) cpu.shadowLeft.regs.control
      constructor
      · exact (congrArg Control.iffs control).trans iffs
      · exact (congrArg Control.im control).trans im

section Runs
variable {Host : Type} {bus : Bus Host} {initial : Z80} {host : Host}
  {history : List (Action Host)} {s : Machine Host}

structure Masked (history : List (Action Host)) (s : Machine Host) : Prop where
  iffs : s.z80.regs.control.iffs = (armed history && !hidden history, armed history)
  mode : s.z80.regs.im = lastMode history

theorem Masked.step {fuel : Nat} {result : Stepped Host} (masked : Masked history s)
    (returns : step bus fuel s = some result) :
    Masked (.stepped result :: history) result.machine := by
  obtain ⟨iffs, im⟩ := (step_case returns).masks
  constructor
  · change _ = (masking result).iffs _ at iffs
    rw [iffs, masked.iffs, armed, hidden]
    cases masking result with
    | keeps | arms | disarms => rfl
    | hides => simp only [Masking.iffs, Bool.not_true, Bool.and_false]
    | uncovers => simp only [Masking.iffs, Bool.not_false, Bool.and_true]
  · rw [im, masked.mode]
    rfl

theorem run_masked (run : FromReset bus initial host history s) : Masked history s := by
  induction run with
  | start => exact ⟨rfl, rfl⟩
  | next run act ih =>
      cases act with
      | setNmiLine | setIntLine | pulseIntLine => exact ⟨ih.iffs, ih.mode⟩
      | stepped returns => exact ih.step returns

theorem StepCase.vectors {cpu next : Cpu} {path : Path} (case : StepCase cpu .int next path) :
    ∃ databus tail, path = intPath cpu.regs databus ++ tail ∧
      Vectored cpu.regs databus next.regs.pc next.regs.wz tail := by
  cases case with
  | int noNmi accepts databus pc wz tail vectored => exact ⟨databus, tail, rfl, vectored⟩

theorem edMode_valid {op m : Byte} (mode : edMode op = some m) : m = 0 ∨ m = 1 ∨ m = 2 := by
  unfold edMode at mode
  split at mode
  all_goals
    cases mode
    try decide

theorem mode_valid {result : Stepped Host} {m : Byte} (found : mode result = some m) :
    m = 0 ∨ m = 1 ∨ m = 2 := by
  unfold mode kindMode at found
  split at found
  · cases found
  · cases found
  · cases found
  · unfold codeMode at found
    split at found
    · cases found
    · split at found
      · exact edMode_valid found
      · cases found

theorem lastMode_valid (history : List (Action Host)) :
    lastMode history = 0 ∨ lastMode history = 1 ∨ lastMode history = 2 := by
  induction history with
  | nil => exact .inl rfl
  | cons action earlier ih =>
      cases action with
      | setNmiLine | setIntLine | pulseIntLine => exact ih
      | stepped result =>
          rw [lastMode]
          cases found : mode result with
          | none => exact ih
          | some m => exact mode_valid found

end Runs

/-- Whether a step accepts the maskable interrupt, from the history since the
reset alone: no NMI edge is due, EI was executed after the last DI and the last
acceptance, no NMI was serviced since then but for those that RETN or RETI ended,
the last step but NMI services was no EI, and the line is high or was pulsed
since that step.  The mode of the last IM says where the step leads. -/
theorem int_accepted_history {Host : Type} (bus : Bus Host) (initial : Z80) (host : Host)
    (history : List (Action Host)) (s : Machine Host)
    (run : FromReset bus initial host history s) (fuel : Nat) (result : Stepped Host)
    (returns : step bus fuel s = some result) :
    (result.kind = .int ↔
      nmiEdge initial.nmiLine history = false ∧ armed history = true ∧ hidden history = false ∧
        (lastOther history).any executedEi = false ∧
        (intLevel initial.intLine history = true ∨ pulsed history = true)) ∧
    (result.kind = .int → ∃ databus tail,
      result.calls.map Exchange.answered = intPath s.z80.regs databus ++ tail ∧
      let vector := word s.z80.regs.i databus
      lastMode history = 0 ∧ tail = [] ∧ result.machine.z80.regs.pc = rstTarget databus ∨
      lastMode history = 1 ∧ tail = [] ∧ result.machine.z80.regs.pc = 0x0038 ∨
      lastMode history = 2 ∧ ∃ low high, tail = [cycle vector 3, readOf .data vector low,
          cycle (vector + 1) 3, readOf .data (vector + 1) high] ∧
        result.machine.z80.regs.pc = word high low) := by
  have latched := run_latched run
  have masked := run_masked run
  have case := step_case returns
  have latching := case.latching
  constructor
  · have iff1 : s.z80.regs.iff1 = (armed history && !hidden history) :=
      congrArg Prod.fst masked.iffs
    have other : result.kind ≠ .nmi ↔ nmiEdge initial.nmiLine history = false := by
      rw [← latched.nmiPending, ← latching.nmi]
      simp
    rw [latching.int, other, Cpu.acceptsInt, iff1, latched.intLine, latched.pulse, latched.ei]
    simp only [Bool.and_eq_true, Bool.or_eq_true, Bool.not_eq_true']
    tauto
  · intro accepted
    rw [accepted] at case
    obtain ⟨databus, tail, path, vectored⟩ := case.vectors
    refine ⟨databus, tail, path, ?_⟩
    have mode := masked.mode
    have valid := lastMode_valid history
    rw [← mode] at valid ⊢
    generalize result.machine.z80.regs.pc = pc at vectored ⊢
    generalize result.machine.z80.regs.wz = wz at vectored
    cases vectored with
    | mode0 im => exact .inl ⟨im, rfl, rfl⟩
    | mode1 im => exact .inr (.inl ⟨im, rfl, rfl⟩)
    | mode2 im low high => exact .inr (.inr ⟨im, low, high, rfl, rfl⟩)
    | other not0 not1 not2 =>
        rcases valid with zero | one | two
        · exact absurd zero not0
        · exact absurd one not1
        · exact absurd two not2

theorem int_accepted_history_pulse : ∃ history s result,
    FromReset flatRam.toBus {} (programAt 0 [0xFB] 0) history s ∧
      step flatRam.toBus 0 s = some result ∧ result.kind = .int ∧ lastMode history = 0 := by
  have run := Run.next (Run.next (Run.next (@Run.start _ _ (Act flatRam.toBus)
    { z80 := Z80.reset {}, host := programAt 0 [0xFB] 0 })
    (@Act.stepped _ _ _ 0 _ rfl)) (@Act.stepped _ _ _ 0 _ rfl)) (.pulseIntLine _)
  refine ⟨_, _, _, run, rfl, ?_, rfl⟩
  apply (int_accepted_history flatRam.toBus {} _ _ _ run 0 _ rfl).1.mpr
  exact ⟨rfl, rfl, rfl, rfl, .inr rfl⟩

end Z80f
