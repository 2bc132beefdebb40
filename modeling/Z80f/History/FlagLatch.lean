import Z80f.Cpu.FlagBits
import Z80f.Cpu.Session
import Z80f.Encoding.FlagMarker
import Z80f.Encoding.StepCase

/-! # Q and the history of the flags

Q holds F exactly if the last step computed it.  SCF and CCF read Q, so that
bits 5 and 3 of F tell whether the step before them was a flag computation. -/

set_option autoImplicit false

namespace Z80f

open Interaction Stateful Z80M Flags

def executesFlags (kind : StepKind) (path : Path) : Bool :=
  match kind with
  | .instruction _ => instructionComputesFlags (fetchedBytes path)
  | .nmi | .int | .halted => false

section History
variable {Host : Type}

/-- The last step executed an instruction that computes flags; the newest
action is the head. -/
def computedFlags : List (Action Host) → Bool
  | [] => false
  | .stepped result :: _ => executesFlags result.kind (result.calls.map Exchange.answered)
  | _ :: earlier => computedFlags earlier

end History

def LatchesF (computed : Bool) (cpu : Cpu) : Prop :=
  cpu.regs.q = if computed then cpu.regs.flags else 0

theorem executeInstruction_latches (fuel : Nat) (cpu : Cpu) (unmarked : cpu.flagsModified = false) :
    (executeInstruction fuel).Holds (fun found next path => ∀ kind, found = some kind →
      LatchesF (executesFlags kind path) next) cpu := by
  apply ((executeInstruction_conforms fuel cpu).and (executeInstruction_marks fuel cpu)).mono
  rintro found next path ⟨conforms, marks⟩ kind eq
  obtain ⟨t, -, rfl, -⟩ := conforms kind eq
  obtain ⟨settled, rfl, marked⟩ := marks _ eq
  rw [unmarked, Bool.false_or] at marked
  simp only [LatchesF, Cpu.settleQ, executesFlags, marked]

theorem stepBody_latches (fuel : Nat) (cpu : Cpu) :
    (stepBody fuel).Holds (fun found next path => ∀ kind, found = some kind →
      LatchesF (executesFlags kind path) next) cpu := by
  rw [holds_stepBody]
  refine ⟨fun _ => ?_, fun _ _ databus => ?_, fun _ _ => ?_⟩
  · rintro _ ⟨rfl⟩
    rw [Registers.nmiEntry_eq]
    rfl
  · apply (vectorInt_vectored databus _ cpu.regs rfl).mono
    rintro _ _ tail ⟨pc, wz, _, rfl⟩ _ ⟨rfl⟩
    rw [Registers.intEntry_eq]
    rfl
  · rw [holds_haltOrExecute]
    refine ⟨fun _ v => ?_, fun _ => executeInstruction_latches fuel _ rfl⟩
    rintro _ ⟨rfl⟩
    rfl

section Runs
variable {Host : Type} {bus : Bus Host} {initial : Z80} {host : Host}
  {history : List (Action Host)} {s : Machine Host}

theorem run_latches (run : FromReset bus initial host history s) :
    LatchesF (computedFlags history) s.z80.toCpu := by
  apply run.invariant fun history s => LatchesF (computedFlags history) s.z80.toCpu
  · rfl
  · intro history state action last latches act
    cases act with
    | setNmiLine | setIntLine | pulseIntLine => exact latches
    | stepped returns => exact Holds.step (stepBody_latches _ _) returns _ rfl

end Runs

def undocumented : Byte := yf ||| xf

def documented : Byte := sf ||| zf ||| pf

/-- What SCF and CCF make of F, from A, F and Q. -/
structure Recarries (op a flags q f : Byte) : Prop where
  undocumented : f &&& undocumented = ((flags ^^^ q) ||| a) &&& undocumented
  documented : f &&& documented = flags &&& documented
  halfCarry : op = 0x3F#8 → halfCarry f = carry flags

theorem composed_bits (f w : Byte) (half c : Bool) :
    let composed := orIf c cf (orIf half hf (f &&& documented)) ||| (w &&& undocumented)
    composed &&& undocumented = w &&& undocumented ∧ composed &&& documented = f &&& documented ∧
      halfCarry composed = half := by
  dsimp only [undocumented, documented]
  refine ⟨?_, ?_, ?_⟩
  · ext i bound
    interval_cases i <;> simp
  · ext i bound
    interval_cases i <;> simp
  · simp [halfCarry_bit]

theorem scf_recarries (cpu : Cpu) :
    (dispatchOpcode 0x37).Holds (fun _ next _ =>
      Recarries 0x37 cpu.regs.a cpu.regs.flags cpu.regs.q next.regs.flags) cpu := by
  obtain ⟨low, high, -⟩ := composed_bits cpu.regs.flags
    ((cpu.regs.flags ^^^ cpu.regs.q) ||| cpu.regs.a) false true
  simp only [dispatchOpcode, opcodeArm, scf, holds_bind, holds_opcodePrelude]
  exact ⟨low, high, fun ccf => absurd ccf (by decide)⟩

theorem ccf_recarries (cpu : Cpu) :
    (dispatchOpcode 0x3F).Holds (fun _ next _ =>
      Recarries 0x3F cpu.regs.a cpu.regs.flags cpu.regs.q next.regs.flags) cpu := by
  obtain ⟨low, high, half⟩ := composed_bits cpu.regs.flags
    ((cpu.regs.flags ^^^ cpu.regs.q) ||| cpu.regs.a) (carry cpu.regs.flags) (!carry cpu.regs.flags)
  simp only [dispatchOpcode, opcodeArm, ccf, holds_bind, holds_opcodePrelude]
  exact ⟨low, high, fun _ => half⟩

def RecarriesCode (code : List Byte) (mid next : Cpu) : Prop :=
  ∀ op, code.head? = some op → op = 0x37#8 ∨ op = 0x3F#8 →
    Recarries op mid.regs.a mid.regs.flags mid.regs.q next.regs.flags

theorem dispatchOpcode_recarries (op : Byte) (cpu : Cpu) :
    (dispatchOpcode op).Holds (fun _ next path =>
      RecarriesCode (op :: fetchedBytes path) cpu next) cpu := by
  by_cases scf : op = 0x37#8
  · subst scf
    apply (scf_recarries cpu).mono
    rintro _ next path recarries _ ⟨rfl⟩ _
    exact recarries
  · by_cases ccf : op = 0x3F#8
    · subst ccf
      apply (ccf_recarries cpu).mono
      rintro _ next path recarries _ ⟨rfl⟩ _
      exact recarries
    · apply Holds.intro
      rintro _ next path _ ⟨rfl⟩ (same | same)
      · exact absurd same scf
      · exact absurd same ccf

theorem indexArm_recarries (x : IndexReg) (op : Byte) (t : Int) (cpu : Cpu) :
    (indexArm x op t).Holds (fun _ next path =>
      RecarriesCode (op :: fetchedBytes path) cpu next) cpu := by
  by_cases either : op = 0x37#8 ∨ op = 0x3F#8
  · have same : indexArm x op t = (do let cost ← dispatchOpcode op; return t + cost) := by
      rcases either with rfl | rfl <;> rfl
    rw [same]
    simp only [holds_bind, holds_pure, List.append_nil]
    exact dispatchOpcode_recarries op cpu
  · apply Holds.intro
    rintro _ next path _ ⟨rfl⟩ same
    exact absurd same either

/-- `Recarries` for SCF and CCF behind prefixes, with Q as these leave it. -/
def BytesRecarry (cpu : Cpu) (bytes : List Byte) (next : Cpu) : Prop :=
  ∀ prefixes op, bytes = prefixes ++ [op] → (∀ p ∈ prefixes, isIndexPrefix p = true) →
    op = 0x37#8 ∨ op = 0x3F#8 →
    Recarries op cpu.regs.a cpu.regs.flags (if prefixes = [] then cpu.regs.q else 0)
      next.regs.flags

theorem executeInstruction_recarries (fuel : Nat) (cpu : Cpu) :
    (executeInstruction fuel).Holds (fun found next path => ∀ kind, found = some kind →
      BytesRecarry cpu (fetchedBytes path) next) cpu := by
  apply (executeInstruction_instructs (fun _ code mid next => RecarriesCode code mid next)
    (fun op _ => dispatchOpcode_recarries op) (fun x op t _ => indexArm_recarries x op t)
    fuel cpu).mono
  intro found next path instructs kind eq prefixes op bytes arePrefixes either
  obtain ⟨settled, rfl, mid, ⟨pc, r, rfl⟩, recarries⟩ := instructs kind eq
  have last : isIndexPrefix op = false := by
    rcases either with rfl | rfl <;> rfl
  have code : codeOf (fetchedBytes path) = [op] := by
    rw [bytes, codeOf, List.dropWhile_append_of_pos arePrefixes]
    exact List.dropWhile_cons_of_neg (Bool.not_eq_true _ ▸ last)
  have cleared : (if (lastPrefix (fetchedBytes path)).isSome then 0 else cpu.regs.q) =
      if prefixes = [] then cpu.regs.q else 0 := by
    rw [bytes]
    cases prefixes with
    | nil =>
        rw [List.nil_append, lastPrefix_isSome, last]
        rfl
    | cons p rest =>
        rw [List.cons_append, lastPrefix_isSome, arePrefixes p List.mem_cons_self]
        rfl
  have composed := recarries op (by rw [code]; rfl) either
  rw [← cleared]
  exact composed

theorem stepBody_recarries (fuel : Nat) (cpu : Cpu) :
    (stepBody fuel).Holds (fun found next path => ∀ kind, found = some kind →
      BytesRecarry cpu (fetchedBytes path) next) cpu := by
  apply stepBody_instructs fuel cpu _ (executeInstruction_recarries fuel cpu.shadowLeft)
  intro next prefixes op bytes
  cases prefixes <;> cases bytes

/-- SCF and CCF take bits 5 and 3 of F from A alone if the step before them
computed the flags and no prefix cleared Q; otherwise from `A | F`. -/
theorem flag_history {Host : Type} (bus : Bus Host) (initial : Z80) (host : Host)
    (history : List (Action Host)) (s : Machine Host) (fuel : Nat) (stepped : Stepped Host)
    (prefixes : List Byte) (op : Byte) (run : FromReset bus initial host history s)
    (returns : step bus fuel s = some stepped)
    (bytes : fetchedBytes (stepped.calls.map Exchange.answered) = prefixes ++ [op])
    (arePrefixes : ∀ p ∈ prefixes, isIndexPrefix p = true)
    (either : op = 0x37#8 ∨ op = 0x3F#8) :
    let r := s.z80.regs
    let f := stepped.machine.z80.regs.flags
    f &&& (yf ||| xf) =
      (if prefixes = [] ∧ computedFlags history = true then r.a else r.a ||| r.flags) &&&
        (yf ||| xf) ∧
    f &&& (sf ||| zf ||| pf) = r.flags &&& (sf ||| zf ||| pf) ∧
    (op = 0x3F#8 → halfCarry f = carry r.flags) := by
  have latches := run_latches run
  have recarries := Holds.step (stepBody_recarries fuel s.z80.toCpu) returns _ rfl prefixes op bytes
    arePrefixes either
  refine ⟨recarries.undocumented.trans ?_, recarries.documented, recarries.halfCarry⟩
  rw [LatchesF] at latches
  dsimp only [undocumented]
  by_cases none : prefixes = []
  · cases computed : computedFlags history with
    | false =>
        rw [computed] at latches
        simp [none, latches, BitVec.or_comm]
    | true =>
        rw [computed] at latches
        simp [none, latches]
  · simp [none, BitVec.or_comm]

theorem flag_history_xor : ∃ history s stepped,
    FromReset flatRam.toBus {} (programAt 0 [0xAF, 0x37] 0) history s ∧
      step flatRam.toBus 0 s = some stepped ∧
      stepped.machine.z80.regs.flags &&& (yf ||| xf) = 0 := by
  have run := Run.next (@Run.start _ _ (Act flatRam.toBus)
    { z80 := Z80.reset {}, host := programAt 0 [0xAF, 0x37] 0 })
    (@Act.stepped _ _ _ 0 _ rfl)
  refine ⟨_, _, _, run, rfl, ?_⟩
  exact (flag_history flatRam.toBus {} _ _ _ 0 _ [] 0x37 run rfl rfl (by simp) (.inl rfl)).1.trans
    (by decide)

end Z80f
