import Z80f.Cpu.Session
import Z80f.Isa.Execution
import Z80f.Isa.Machine

/-! # Sessions are runs of the machine

Over RAM, what the CPU does between the changes of its lines is what the machine
does at the same events. -/

set_option autoImplicit false

namespace Z80f.Isa

open Interaction Stateful Z80M Flags

def acknowledged : Path → Byte
  | [] => 0
  | ⟨.acknowledgeInterrupt, value⟩ :: _ => value
  | _ :: rest => acknowledged rest

def eventOf (kind : StepKind) (path : Path) : Event :=
  match kind with
  | .nmi => .nmi
  | .int => .int (acknowledged path)
  | .halted => .halted
  | .instruction _ => .instruction (fetchedBytes path) (inputOf path)

/-- The path of a step; the lines have none. -/
def pathOf {Host : Type} : Action Host → Path
  | .stepped result => result.calls.map Exchange.answered
  | _ => []

def eventsOf {Host : Type} : List (Action Host) → List Event
  | [] => []
  | .stepped result :: earlier =>
      eventOf result.kind (result.calls.map Exchange.answered) :: eventsOf earlier
  | _ :: earlier => eventsOf earlier

/-- The port accesses, the latest first. -/
def portLog {Host : Type} (history : List (Action Host)) : Path :=
  history.flatMap fun action => (portsOf (pathOf action)).reverse

theorem portLog_cons {Host : Type} (action : Action Host) (history : List (Action Host)) :
    portLog (action :: history) = (portsOf (pathOf action)).reverse ++ portLog history :=
  List.flatMap_cons

theorem rstTarget_eq : ∀ databus : Byte, rstTarget databus = restart databus := by
  decide +kernel

theorem stepBody_interprets (fuel : Nat) (cpu : Cpu) :
    (stepBody fuel).Holds (fun found next path => ∀ t, found = some (.instruction t) →
      ∀ memory ports, ReadsFrom memory path →
        interpret (fetchedBytes path) (inputOf path)
          { regs := cpu.regs, memory := memory, ports := ports } =
        some { regs := next.regs
               memory := memoryAfter memory path
               ports := (portsOf path).reverse ++ ports }) cpu := by
  rw [holds_stepBody]
  refine ⟨fun _ => ?_, fun _ _ databus => ?_, fun _ _ => ?_⟩
  · intro t other
    cases other
  · apply Holds.intro
    intro _ _ _ t other
    cases other
  · rw [holds_haltOrExecute]
    refine ⟨fun _ v => ?_, fun _ => ?_⟩
    · intro t other
      cases other
    · have clean : cpu.pulseTaken.flagsModified = false := rfl
      apply (executeInstruction_interprets fuel cpu.pulseTaken clean).mono
      intro found next path interprets t eq
      exact interprets _ eq

theorem vectored_eq {r entry : Registers} {databus : Byte} {pc wz : Word} {tail : Path}
    {memory : Memory} (ports : Path) (vectored : Vectored r databus pc wz tail)
    (im : entry.im = r.im) (i : entry.i = r.i) (keepsPc : entry.pc = r.wake.pc)
    (keepsWz : entry.wz = r.wz) (reads : ReadsFrom memory tail) :
    State.vectored databus { regs := entry, memory := memory, ports := ports } =
      { regs := { entry with pc := pc, wz := wz }, memory := memory, ports := ports } := by
  unfold State.vectored
  cases vectored with
  | mode0 mode =>
      rw [if_pos (im.trans mode), rstTarget_eq]
      rfl
  | mode1 mode =>
      have not0 : entry.im ≠ 0 := im.trans mode ▸ by decide
      rw [if_neg not0, if_pos (im.trans mode)]
      rfl
  | mode2 mode low high =>
      have not0 : entry.im ≠ 0 := im.trans mode ▸ by decide
      have not1 : entry.im ≠ 1 := im.trans mode ▸ by decide
      obtain ⟨rfl, rfl, -⟩ := reads
      rw [if_neg not0, if_neg not1, if_pos (im.trans mode), ← i]
      rfl
  | other not0 not1 not2 =>
      rw [← im] at not0 not1 not2
      rw [if_neg not0, if_neg not1, if_neg not2, ← keepsPc, ← keepsWz]

theorem vectored_quiet {r : Registers} {databus : Byte} {pc wz : Word} {tail : Path}
    (vectored : Vectored r databus pc wz tail) (memory : Memory) :
    memoryAfter memory tail = memory ∧ portsOf tail = [] := by
  cases vectored <;> exact ⟨rfl, rfl⟩

section Step
variable {cpu next : Cpu} {kind : StepKind} {path : Path} {memory : Memory} (ports : Path)

theorem after_case (case : StepCase cpu kind next path) (reads : ReadsFrom memory path)
    (executed : ∀ t, kind = .instruction t →
      interpret (fetchedBytes path) (inputOf path)
        { regs := cpu.regs, memory := memory, ports := ports } =
      some { regs := next.regs
             memory := memoryAfter memory path
             ports := (portsOf path).reverse ++ ports }) :
    State.after { regs := cpu.regs, memory := memory, ports := ports } (eventOf kind path) =
      some { regs := next.regs
             memory := memoryAfter memory path
             ports := (portsOf path).reverse ++ ports } := by
  cases case with
  | nmi pending =>
      rw [Registers.nmiEntry_eq, nmiPath, pushPath, Registers.wake_eq]
      rfl
  | int noNmi accepts databus pc wz tail vectored =>
      have enabled : (cpu.regs.iff1 && !cpu.regs.eiPending) = true := by
        simp only [Cpu.acceptsInt, Bool.and_eq_true] at accepts ⊢
        exact ⟨accepts.1.2, accepts.2⟩
      have entry := readsFrom_append memory tail (intPath cpu.regs databus)
      have vectors := @vectored_eq cpu.regs cpu.regs.intEntry _ _ _ _ _ ports vectored
        (by rw [Registers.intEntry_eq]) (by rw [Registers.intEntry_eq])
        (by rw [Registers.intEntry_eq]) (by rw [Registers.intEntry_eq]) (entry.mp reads).2
      obtain ⟨sameMemory, noPorts⟩ := vectored_quiet vectored
        (memoryAfter memory (intPath cpu.regs databus))
      rw [memoryAfter_append, sameMemory, portsOf_append, noPorts]
      refine (if_pos enabled).trans (congrArg some ?_)
      refine Eq.trans ?_ vectors
      rw [Registers.intEntry_eq, intPath, pushPath, Registers.wake_eq]
      rfl
  | halted noNmi noInt halted v =>
      exact if_pos halted
  | instruction noNmi noInt running t settled path met =>
      obtain ⟨signature, meets, -⟩ := met
      have consumes := meets.signed.consumes meets.inOrder
      have bytes := (consumes.fetchesFirst reads).1
      have length := consumes.length
      have fetched : fetchedBytes path =
          bytesAt memory cpu.regs.pc (fetchedBytes path).length := by
        rw [length]
        exact bytes
      exact (if_pos ⟨running, fetched⟩).trans (executed t rfl)

end Step

section Session
variable {Host : Type} (bus : RamBus Host)

def view (ports : Path) (s : Machine Host) : State :=
  { regs := s.z80.regs, memory := bus.memory s.host, ports := ports }

theorem step_after {fuel : Nat} {s : Machine Host} {stepped : Stepped Host}
    (returns : step bus.toBus fuel s = some stepped) (ports : Path) :
    (view bus ports s).after (eventOf stepped.kind (stepped.calls.map Exchange.answered)) =
      some (view bus ((portsOf (stepped.calls.map Exchange.answered)).reverse ++ ports)
        stepped.machine) := by
  obtain ⟨reads, memory⟩ := bus.step_replays returns
  have interprets := Holds.step (stepBody_interprets fuel s.z80.toCpu) returns
  rw [view, view, memory]
  apply after_case ports (step_case returns) reads
  intro t kind
  exact interprets t (congrArg some kind) _ _ reads

/-- Every session is a run of the machine with the same events. -/
theorem session_replays {s last : Machine Host} {history : List (Action Host)}
    (run : Run (Act bus.toBus) s history last) (ports : Path) :
    (view bus ports s).replay (eventsOf history) =
      some (view bus (portLog history ++ ports) last) := by
  induction run with
  | start => rfl
  | next run taken ih =>
      cases taken with
      | stepped returns =>
          rw [eventsOf, State.replay, ih, portLog_cons, List.append_assoc]
          exact step_after bus returns _
      | setNmiLine | setIntLine | pulseIntLine => exact ih

end Session

/-- EI, INT going active, the instruction in the shadow of EI, and the acknowledge. -/
theorem session_replays_interrupt :
    let start : Machine Memory := { z80 := {}, host := programAt 0 [0xFB, 0x00] 0 }
    ∃ history last, Run (Act flatRam.toBus) start history last ∧
      eventsOf history = [.int 0xFF, .instruction [0x00] 0, .instruction [0xFB] 0] ∧
      (view flatRam [] start).replay (eventsOf history) =
        some (view flatRam (portLog history ++ []) last) := by
  have run := Run.next (Run.next (Run.next (Run.next (@Run.start _ _ (Act flatRam.toBus)
    { z80 := {}, host := programAt 0 [0xFB, 0x00] 0 }) (@Act.stepped _ _ _ 0 _ rfl))
    (.setIntLine _ true)) (@Act.stepped _ _ _ 0 _ rfl)) (@Act.stepped _ _ _ 0 _ rfl)
  exact ⟨_, _, run, rfl, session_replays flatRam run []⟩

end Z80f.Isa
