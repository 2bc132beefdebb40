import Z80f.Cpu.Session
import Z80f.Encoding.StepCase

/-! # Interrupt latches over whole runs

A history has its newest action at the head.  What the host did since the reset
determines the latches: the lines have the level of their last call, an NMI is
pending after a rising edge since the last step, and a pulse or an EI is
remembered until the next step that services no NMI. -/

set_option autoImplicit false

namespace Z80f

open Interaction Stateful

section History
variable {Host : Type}

def nmiLevel (initial : Bool) : List (Action Host) → Bool
  | [] => initial
  | .setNmiLine active :: _ => active
  | _ :: earlier => nmiLevel initial earlier

def intLevel (initial : Bool) : List (Action Host) → Bool
  | [] => initial
  | .setIntLine active :: _ => active
  | _ :: earlier => intLevel initial earlier

/-- The NMI line rose since the last step. -/
def nmiEdge (initial : Bool) : List (Action Host) → Bool
  | [] => false
  | .stepped _ :: _ => false
  | .setNmiLine active :: earlier => active && !nmiLevel initial earlier || nmiEdge initial earlier
  | _ :: earlier => nmiEdge initial earlier

def servicesNmi (result : Stepped Host) : Bool := result.kind == .nmi

/-- `pulse_int_line` was called since the last step that was no NMI service. -/
def pulsed : List (Action Host) → Bool
  | [] => false
  | .pulseIntLine :: _ => true
  | .stepped result :: earlier => servicesNmi result && pulsed earlier
  | _ :: earlier => pulsed earlier

def lastOther : List (Action Host) → Option (Stepped Host)
  | [] => none
  | .stepped result :: earlier => if servicesNmi result then lastOther earlier else some result
  | _ :: earlier => lastOther earlier

/-- EI was fetched, behind any number of DD and FD. -/
def fetchesEi (path : Path) : Bool :=
  ((fetchedBytes path).dropWhile isIndexPrefix).head? == some 0xFB#8

def executedEi (result : Stepped Host) : Bool := fetchesEi (result.calls.map Exchange.answered)

end History

def latches : List Field := [.nmiLine, .nmiPending, .intLine, .intPulsePending]

def sparesLatches (p : Profile) : Bool := p.stores.all fun field => !latches.contains field

theorem guardedStores_spare (op : Byte) :
    (guardedStores op).all (fun field => !latches.contains field) = true := by
  unfold guardedStores
  split
  · rfl
  · rfl
  · split <;> rfl

theorem edGuardedStores_spare (op : Byte) :
    (edGuardedStores op).all (fun field => !latches.contains field) = true := by
  unfold edGuardedStores
  split <;> rfl

theorem instructionProfile_spares (bytes : List Byte) :
    sparesLatches (instructionProfile bytes) = true := by
  refine instructionProfile_all (fun p => sparesLatches p = true)
    (fun _ spares => spares) rfl guardedStores_spare edGuardedStores_spare ?_ bytes
  intro x op
  cases x <;> exact guardedStores_spare op

theorem latches_guarded : ∀ field ∈ latches, field ∈ guarded := by decide

theorem Meets.sameLatch {bytes : List Byte} {s : Signature} {core next : Cpu} {path : Path}
    (meets : Meets (instructionProfile bytes) s core next path) (field : Field)
    (latch : field ∈ latches) : SameField core next field := by
  refine meets.signed.same field fun touched => ?_
  have spared := List.all_eq_true.mp (instructionProfile_spares bytes) field
    (meets.stores field touched (latches_guarded field latch))
  simp [latch] at spared

theorem controlOf_eiPending (bytes : List Byte) (control : Control) :
    (controlOf bytes control).eiPending = (control.eiPending || bytes.head? == some 0xFB#8) := by
  cases bytes with
  | nil => simp [controlOf]
  | cons op rest =>
      by_cases ed : op = 0xED#8
      · rw [controlOf, if_pos ed, ed]
        unfold edControlAfter
        split <;> simp
      · rw [controlOf, if_neg ed]
        unfold controlAfter
        split
        · simp
        · simp
        · simp
        · rename_i halt di ei
          simpa using fun same => absurd same ei

/-- What a step does to the latches. -/
structure Latching (cpu : Cpu) (kind : StepKind) (next : Cpu) (path : Path) : Prop where
  nmiLine : next.nmiLine = cpu.nmiLine
  nmi : (kind == .nmi) = cpu.nmiPending
  nmiPending : next.nmiPending = false
  intLine : next.intLine = cpu.intLine
  pulse : next.intPulsePending = (kind == .nmi && cpu.intPulsePending)
  ei : next.regs.eiPending = if kind == .nmi then cpu.regs.eiPending else fetchesEi path
  int : kind = .int ↔ kind ≠ .nmi ∧ cpu.acceptsInt = true
  iff2 : kind = .nmi → next.regs.iff2 = cpu.regs.iff2

theorem StepCase.latching {cpu next : Cpu} {kind : StepKind} {path : Path}
    (case : StepCase cpu kind next path) : Latching cpu kind next path := by
  cases case with
  | nmi pending =>
      refine ⟨rfl, pending.symm, rfl, rfl, rfl, ?_, by simp, fun _ => ?_⟩
      · rw [Registers.nmiEntry_eq]
        rfl
      · rw [Registers.nmiEntry_eq]
  | int noNmi accepts databus pc wz tail vectored =>
      refine ⟨rfl, noNmi.symm, noNmi, rfl, rfl, ?_, by simp [accepts], StepKind.noConfusion⟩
      have noShadow : cpu.regs.eiPending = false := by
        simp only [Cpu.acceptsInt, Bool.and_eq_true, Bool.not_eq_true'] at accepts
        exact accepts.2
      rw [Registers.intEntry_eq, noShadow]
      cases vectored <;> rfl
  | halted noNmi noInt halted v =>
      exact ⟨rfl, noNmi.symm, noNmi, rfl, rfl, rfl, by simp [noInt], StepKind.noConfusion⟩
  | instruction noNmi noInt running t settled path met =>
      obtain ⟨s, meets, -⟩ := met
      have ei : settled.regs.eiPending = fetchesEi path := by
        have control := congrArg Control.eiPending meets.control
        rw [instructionProfile_control, controlOf_eiPending] at control
        exact control
      have pending : settled.nmiPending = cpu.nmiPending :=
        meets.sameLatch .nmiPending (by decide)
      exact ⟨meets.sameLatch .nmiLine (by decide), noNmi.symm, pending.trans noNmi,
        meets.sameLatch .intLine (by decide),
        meets.sameLatch .intPulsePending (by decide), ei, by simp [noInt],
        StepKind.noConfusion⟩

/-- `initial` is the object that was reset. -/
structure Latched {Host : Type} (initial : Z80) (history : List (Action Host))
    (s : Machine Host) : Prop where
  nmiLine : s.z80.nmiLine = nmiLevel initial.nmiLine history
  nmiPending : s.z80.nmiPending = nmiEdge initial.nmiLine history
  intLine : s.z80.intLine = intLevel initial.intLine history
  pulse : s.z80.intPulsePending = pulsed history
  ei : s.z80.regs.eiPending = (lastOther history).any executedEi

section Runs
variable {Host : Type} {bus : Bus Host} {initial : Z80}

theorem latched_reset (host : Host) :
    Latched initial [] { z80 := initial.reset, host := host } where
  nmiLine := rfl
  nmiPending := rfl
  intLine := rfl
  pulse := rfl
  ei := rfl

theorem Act.latched {history : List (Action Host)} {s last : Machine Host} {action : Action Host}
    (latched : Latched initial history s) (act : Act bus s action last) :
    Latched initial (action :: history) last := by
  obtain ⟨nmiLine, nmiPending, intLine, pulse, ei⟩ := latched
  cases act with
  | setNmiLine active =>
      refine ⟨rfl, ?_, intLine, pulse, ei⟩
      change (if active && !s.z80.nmiLine then true else s.z80.nmiPending) =
        (active && !nmiLevel initial.nmiLine history || nmiEdge initial.nmiLine history)
      rw [nmiLine, nmiPending]
      split
      · simp [*]
      · simp_all
  | setIntLine active => exact ⟨nmiLine, nmiPending, rfl, pulse, ei⟩
  | pulseIntLine => exact ⟨nmiLine, nmiPending, intLine, rfl, ei⟩
  | stepped returns =>
      have latching := (step_case returns).latching
      refine ⟨latching.nmiLine.trans nmiLine, latching.nmiPending, latching.intLine.trans intLine,
        ?_, ?_⟩
      · rw [latching.pulse, pulse]
        rfl
      · rw [latching.ei, ei, lastOther, servicesNmi]
        split <;> rfl

theorem run_latched {host : Host} {history : List (Action Host)} {s : Machine Host}
    (run : FromReset bus initial host history s) : Latched initial history s :=
  run.invariant (Latched initial) (latched_reset host) fun _ _ _ _ latched act => act.latched latched

end Runs

end Z80f
