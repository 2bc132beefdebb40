import Z80f.Block.Rounds
import Z80f.Interrupts.Acceptance
import Z80f.Interrupts.Entry

/-! # Nested NMIs

An NMI pushes PC and RETN pops it.  Where the handler is a RETN, a run of NMIs
and RETNs climbs up and down the stack, and `Nested` says what holds at each
depth, whatever was interrupted. -/

set_option autoImplicit false

namespace Z80f

open Interaction Stateful Z80M

section History
variable {Host : Type}

def executedRetn (result : Stepped Host) : Bool :=
  fetchedBytes (result.calls.map Exchange.answered) == [0xED#8, 0x45#8]

def retns : List (Action Host) → Nat
  | [] => 0
  | .stepped result :: earlier => (if executedRetn result then 1 else 0) + retns earlier
  | _ :: earlier => retns earlier

/-- INT is left inactive. -/
def Action.sparesInt : Action Host → Prop
  | .setIntLine active => active = false
  | .pulseIntLine => False
  | .setNmiLine _ | .stepped _ => True

/-- Between the steps the host only moves the NMI line, and at most `k` NMIs are
outstanding at once. -/
def NmiSchedule (k : Nat) (history : List (Action Host)) : Prop :=
  (∀ action ∈ history, action.sparesInt) ∧
    ∀ earlier, earlier <:+ history → nmiServices earlier ≤ retns earlier + k

theorem NmiSchedule.shorter {k : Nat} (action : Action Host) (history : List (Action Host))
    (schedule : NmiSchedule k (action :: history)) : NmiSchedule k history := by
  obtain ⟨spares, bounded⟩ := schedule
  constructor
  · intro earlier member
    exact spares earlier (List.mem_cons_of_mem _ member)
  · intro earlier suffix
    exact bounded earlier (suffix.trans (List.suffix_cons action history))

theorem NmiSchedule.start (k : Nat) : NmiSchedule k ([] : List (Action Host)) := by
  constructor
  · intro action none
    cases none
  · intro earlier suffix
    rw [List.suffix_nil.mp suffix]
    exact Nat.zero_le _

theorem NmiSchedule.next {k : Nat} {action : Action Host} {history : List (Action Host)}
    (schedule : NmiSchedule k history) (spares : action.sparesInt)
    (bounded : nmiServices (action :: history) ≤ retns (action :: history) + k) :
    NmiSchedule k (action :: history) := by
  obtain ⟨allSpare, allBounded⟩ := schedule
  constructor
  · exact List.forall_mem_cons.mpr ⟨spares, allSpare⟩
  · intro earlier suffix
    rcases List.suffix_cons_iff.mp suffix with rfl | shorter
    · exact bounded
    · exact allBounded earlier shorter

theorem NmiSchedule.last {k : Nat} {history : List (Action Host)}
    (schedule : NmiSchedule k history) : nmiServices history ≤ retns history + k :=
  schedule.2 history List.suffix_rfl

end History

namespace Registers

/-- All but R, Q, WZ and the shadow of EI. -/
def steady (r : Registers) : Registers :=
  { r with r := 0, q := 0, wz := 0, eiPending := false }

theorem of_steady {r next : Registers} (same : next.steady = r.steady) :
    next = { r with r := next.r, q := next.q, wz := next.wz, eiPending := next.eiPending } := by
  calc next = { next.steady with
          r := next.r, q := next.q, wz := next.wz, eiPending := next.eiPending } := rfl
    _ = { r.steady with
          r := next.r, q := next.q, wz := next.wz, eiPending := next.eiPending } := by rw [same]

/-- What agrees outside R, Q, WZ and the shadow agrees in each other register. -/
theorem agree {β : Type} {r next : Registers} (same : next.steady = r.steady)
    (member : Registers → β) (keeps : ∀ r : Registers, member r.steady = member r) :
    member next = member r :=
  (keeps next).symm.trans ((congrArg member same).trans (keeps r))

def returned (target : Word) (r : Registers) : Registers :=
  { r with pc := target, sp := r.sp + 1 + 1, iff1 := r.iff2 }

end Registers

/-- Where the RETN goes that undoes the service at this depth. -/
def returnTo (pc : Word) : Nat → Word
  | 0 => pc
  | _ + 1 => 0x0066

/-- `depth` services deep, the interrupted program had these registers. -/
def Registers.nested (depth : Nat) (iff1 : Bool) (r : Registers) : Registers :=
  { r with
    pc := returnTo r.pc depth, sp := r.sp - BitVec.ofNat 16 (2 * depth), iff1 := iff1 }

section Climb
variable {r next : Registers} {depth : Nat} {iff1 : Bool}

theorem nmiEntry_nested (running : r.halted = false)
    (same : next.steady = (r.nested depth iff1).steady) :
    next.nmiEntry.steady = (r.nested (depth + 1) false).steady := by
  have sp : next.sp = r.sp - BitVec.ofNat 16 (2 * depth) := congrArg Registers.sp same
  calc next.nmiEntry.steady
    _ = { next.steady with
          iff1 := false, halted := r.halted, sp := next.sp - 1 - 1, pc := 0x0066 } := by
      rw [Registers.nmiEntry_eq, running]
      rfl
    _ = { (r.nested depth iff1).steady with
          iff1 := false, halted := r.halted, sp := frame r.sp depth, pc := 0x0066 } := by
      rw [same, sp, frame_low]
    _ = (r.nested (depth + 1) false).steady := rfl

theorem returned_nested (same : next.steady = (r.nested (depth + 1) iff1).steady) :
    (next.returned (returnTo r.pc depth)).steady = (r.nested depth r.iff2).steady := by
  have sp : next.sp = frame r.sp depth := congrArg Registers.sp same
  have raised : frame r.sp depth + 1 + 1 = r.sp - BitVec.ofNat 16 (2 * depth) := by
    rw [frame_low, BitVec.sub_add_cancel, BitVec.sub_add_cancel]
  calc (next.returned (returnTo r.pc depth)).steady
    _ = { next.steady with
          pc := returnTo r.pc depth, sp := next.sp + 1 + 1, iff1 := next.steady.iff2 } := rfl
    _ = { (r.nested (depth + 1) iff1).steady with
          pc := returnTo r.pc depth, sp := r.sp - BitVec.ofNat 16 (2 * depth)
          iff1 := r.iff2 } := by
      rw [same, sp, raised]
      rfl
    _ = (r.nested depth r.iff2).steady := rfl

end Climb

section Push
variable {path : Path} {sp pc : Word} {depth k : Nat}
  (writes : writesOf path = [(sp - BitVec.ofNat 16 (2 * depth) - 1, hi (returnTo pc depth)),
    (sp - BitVec.ofNat 16 (2 * depth) - 1 - 1, lo (returnTo pc depth))])
  (enough : depth + 1 ≤ k) (memory : Memory)
include writes enough

theorem pushed_frames (small : 2 * k < 65536)
    (frames : ∀ i < depth, wordAt memory (frame sp i) = returnTo pc i) :
    ∀ i < depth + 1, wordAt (memoryAfter memory path) (frame sp i) = returnTo pc i := by
  intro i lt
  by_cases last : i = depth
  · subst last
    rw [wordAt, frame_low]
    exact pushed_word _ _ writes _
  · have above : i < depth := by omega
    rw [wordAt, pushed_apart _ _ writes, pushed_apart _ _ writes]
    · exact frames i above
    all_goals
      simp only [frame]
      bv_omega

theorem pushed_outside {address : Word} (apart : ¬ Below sp (2 * k) address) :
    memoryAfter memory path address = memory address := by
  apply pushed_apart _ _ writes
  · rintro rfl
    exact apart ⟨2 * depth, by omega, by bv_omega⟩
  · rintro rfl
    exact apart ⟨2 * depth + 1, by omega, by bv_omega⟩

end Push

/-- `depth` services deep into a program that was interrupted with the registers
`r` and this memory, `2 * k` bytes of which are for the stack. -/
structure Nested {Host : Type} (bus : RamBus Host) (r : Registers) (memory : Memory)
    (k depth : Nat) (s : Machine Host) : Prop where
  bound : depth ≤ k
  regs : ∃ iff1, (depth = 0 → iff1 = r.iff1) ∧
    s.z80.regs.steady = (r.nested depth iff1).steady
  frames : ∀ i < depth, wordAt (bus.memory s.host) (frame r.sp i) = returnTo r.pc i
  outside : ∀ address, ¬ Below r.sp (2 * k) address → bus.memory s.host address = memory address
  intLine : s.z80.intLine = false
  pulse : s.z80.intPulsePending = false

/-- RETN is the NMI handler, out of reach of the stack. -/
structure Handled (memory : Memory) (sp : Word) (k : Nat) : Prop where
  first : memory 0x0066 = 0xED
  second : memory 0x0067 = 0x45
  firstApart : ¬ Below sp (2 * k) 0x0066
  secondApart : ¬ Below sp (2 * k) 0x0067

/-! ## One service -/

theorem StepCase.services {cpu next : Cpu} {kind : StepKind} {path : Path}
    (case : StepCase cpu kind next path) (pending : cpu.nmiPending = true) :
    kind = .nmi ∧ path = nmiPath cpu.regs ∧ next = { cpu with
      flagsModified := false, regs := cpu.regs.nmiEntry, nmiPending := false } := by
  cases case with
  | nmi => exact ⟨rfl, rfl, rfl⟩
  | int idle | halted idle | instruction idle =>
      exact absurd (pending.symm.trans idle) (by decide)

section Steps
variable {Host : Type} {bus : RamBus Host} {r : Registers} {memory : Memory} {k depth fuel : Nat}
  {s : Machine Host} {result : Stepped Host}

theorem Nested.pc (nested : Nested bus r memory k depth s) :
    s.z80.regs.pc = returnTo r.pc depth := by
  obtain ⟨iff1, -, regs⟩ := nested.regs
  exact congrArg Registers.pc regs

theorem Nested.sp (nested : Nested bus r memory k depth s) :
    s.z80.regs.sp = r.sp - BitVec.ofNat 16 (2 * depth) := by
  obtain ⟨iff1, -, regs⟩ := nested.regs
  exact congrArg Registers.sp regs

theorem Nested.running (nested : Nested bus r memory k depth s) (running : r.halted = false) :
    s.z80.regs.halted = false := by
  obtain ⟨iff1, -, regs⟩ := nested.regs
  exact (congrArg Registers.halted regs).trans running

theorem Nested.iff2 (nested : Nested bus r memory k depth s) : s.z80.regs.iff2 = r.iff2 := by
  obtain ⟨iff1, -, regs⟩ := nested.regs
  have same := congrArg Registers.iff2 regs
  exact same

theorem Nested.undisturbed (nested : Nested bus r memory k depth s)
    (idle : s.z80.nmiPending = false) : s.z80.undisturbed := by
  refine ⟨idle, ?_⟩
  rw [nested.intLine, nested.pulse]
  rfl

theorem nested_zero (r : Registers) : r.nested 0 r.iff1 = r := by
  rw [Registers.nested, returnTo, Nat.mul_zero, BitVec.sub_zero]

/-- With nothing outstanding the program goes on as if nothing had happened. -/
theorem Nested.resumed (nested : Nested bus r memory k 0 s) :
    s.z80.regs.steady = r.steady := by
  obtain ⟨iff1, same, regs⟩ := nested.regs
  rw [regs, same rfl, nested_zero]

theorem step_service (pending : s.z80.nmiPending = true)
    (returns : step bus.toBus fuel s = some result) :
    result.kind = .nmi ∧ executedRetn result = false ∧
      nominal (result.calls.map Exchange.answered) = 11 := by
  obtain ⟨kind, path, -⟩ := (step_case returns).services pending
  refine ⟨kind, ?_, ?_⟩
  · rw [executedRetn, path]
    rfl
  · rw [path]
    rfl

theorem Nested.start (noInt : s.z80.intLine = false ∧ s.z80.intPulsePending = false) :
    Nested bus s.z80.regs (bus.memory s.host) k 0 s where
  bound := Nat.zero_le k
  regs := ⟨s.z80.regs.iff1, fun _ => rfl, by rw [nested_zero]⟩
  frames := fun i lt => absurd lt (Nat.not_lt_zero i)
  outside := fun _ _ => rfl
  intLine := noInt.1
  pulse := noInt.2

theorem Nested.service (nested : Nested bus r memory k depth s) (running : r.halted = false)
    (small : 2 * k < 65536) (enough : depth + 1 ≤ k) (pending : s.z80.nmiPending = true)
    (returns : step bus.toBus fuel s = some result) :
    Nested bus r memory k (depth + 1) result.machine := by
  obtain ⟨-, path, next⟩ := (step_case returns).services pending
  have after := (bus.step_replays returns).2
  have wakePc : s.z80.regs.wake.pc = returnTo r.pc depth := by
    rw [Registers.wake_eq, nested.running running]
    exact nested.pc
  have wakeSp : s.z80.regs.wake.sp = r.sp - BitVec.ofNat 16 (2 * depth) := by
    rw [Registers.wake_eq]
    exact nested.sp
  rw [nmiPath, wakePc, wakeSp] at path
  have writes : writesOf (result.calls.map Exchange.answered) =
      [(r.sp - BitVec.ofNat 16 (2 * depth) - 1, hi (returnTo r.pc depth)),
        (r.sp - BitVec.ofNat 16 (2 * depth) - 1 - 1, lo (returnTo r.pc depth))] := by
    rw [path, writesOf_cycle, writesOf_push]
  exact
    { bound := enough
      regs := by
        obtain ⟨iff1, -, regs⟩ := nested.regs
        refine ⟨false, fun none => absurd none (Nat.succ_ne_zero depth), ?_⟩
        have entered : result.machine.z80.regs = s.z80.regs.nmiEntry := congrArg Cpu.regs next
        rw [entered]
        exact nmiEntry_nested running regs
      frames := by
        rw [after]
        exact pushed_frames writes enough _ small nested.frames
      outside := by
        intro address apart
        rw [after, pushed_outside writes enough _ apart]
        exact nested.outside address apart
      intLine := (congrArg Cpu.intLine next).trans nested.intLine
      pulse := (congrArg Cpu.intPulsePending next).trans nested.pulse }

/-- What RETN does behind its two opcode bytes. -/
structure RetnDone (memory : Memory) (cpu : Cpu) (t : Int) (next : Cpu) (tail : Path) : Prop where
  cost : t = 14
  regs : next.regs.steady = (cpu.regs.returned (wordAt memory cpu.regs.sp)).steady
  unwritten : memoryAfter memory tail = memory
  fetched : fetchedBytes tail = []

theorem edFetched_returned (cpu : Cpu) (target : Word) :
    (cpu.edFetched.regs.returned target).steady = (cpu.regs.returned target).steady := by
  rw [edFetched_regs]
  rfl

theorem retn_done (memory : Memory) (cpu : Cpu) :
    (edArm 0x45#8).Holds (fun t next tail => ReadsFrom memory tail →
      RetnDone memory cpu t next.settleQ tail) cpu := by
  have arm : edArm 0x45#8 = (do retn; return 14) := rfl
  rw [arm]
  simp only [retn, jp, holds_bind, holds_pop16, holds_modifyRegs, holds_pure, List.append_nil]
  intro low high reads
  obtain ⟨rfl, rfl⟩ : low = memory cpu.regs.sp ∧ high = memory (cpu.regs.sp + 1) :=
    ⟨reads.1, reads.2.1⟩
  exact ⟨rfl, rfl, rfl, rfl⟩

theorem Nested.retn (nested : Nested bus r memory k (depth + 1) s) (handled : Handled memory r.sp k)
    (running : r.halted = false) (equal : r.iff1 = r.iff2) (idle : s.z80.nmiPending = false)
    (fuel : Nat) :
    ∃ result, step bus.toBus fuel s = some result ∧ result.kind = .instruction 14 ∧
      executedRetn result = true ∧ nominal (result.calls.map Exchange.answered) = 14 ∧
      Nested bus r memory k depth result.machine := by
  have pc : s.z80.regs.pc = 0x0066 := nested.pc
  have first : bus.memory s.host s.z80.regs.pc = 0xED := by
    rw [pc, nested.outside _ handled.firstApart]
    exact handled.first
  have second : bus.memory s.host (s.z80.regs.pc + 1) = 0x45#8 := by
    rw [pc]
    exact (nested.outside _ handled.secondApart).trans handled.second
  obtain ⟨result, t, tail, returns, kind, path, ⟨rfl, regs, unwritten, fetched⟩, after⟩ :=
    bus.step_ed fuel (RetnDone (bus.memory s.host) s.z80.toCpu.edFetched)
      (nested.running running) (nested.undisturbed idle) first second (retn_done _ _)
  have latching := (step_case returns).latching
  have top : wordAt (bus.memory s.host) s.z80.regs.sp = returnTo r.pc depth := by
    rw [nested.sp]
    exact nested.frames depth (Nat.lt_succ_self depth)
  obtain ⟨iff1, -, same⟩ := nested.regs
  refine ⟨result, returns, kind, ?_, ?_, ?_⟩
  · rw [executedRetn, path, fetchedBytes_append, fetched]
    rfl
  · rw [step_nominal returns kind]
  · exact
      { bound := Nat.le_of_succ_le nested.bound
        regs := by
          refine ⟨r.iff2, fun _ => equal.symm, ?_⟩
          rw [regs, edFetched_returned, edFetched_sp, top]
          exact returned_nested same
        frames := by
          intro i lt
          rw [after, unwritten]
          exact nested.frames i (Nat.lt_succ_of_lt lt)
        outside := by
          intro address apart
          rw [after, unwritten]
          exact nested.outside address apart
        intLine := latching.intLine.trans nested.intLine
        pulse := by
          rw [latching.pulse, kind]
          rfl }

/-! ## Schedules -/

/-- An NMI service of 11 T-states, or a RETN of 14. -/
def ServiceOrRetn (result : Stepped Host) : Prop :=
  let cost := nominal (result.calls.map Exchange.answered)
  result.kind = .nmi ∧ executedRetn result = false ∧ cost = 11 ∨
    result.kind = .instruction 14 ∧ executedRetn result = true ∧ cost = 14

theorem Nested.setNmiLine (nested : Nested bus r memory k depth s) (active : Bool) :
    Nested bus r memory k depth (s.onZ80 (Z80.setNmiLine active)) := by
  obtain ⟨bound, regs, frames, outside, intLine, pulse⟩ := nested
  exact ⟨bound, regs, frames, outside, intLine, pulse⟩

theorem Nested.setIntLine (nested : Nested bus r memory k depth s) {active : Bool}
    (inactive : active = false) :
    Nested bus r memory k depth (s.onZ80 (Z80.setIntLine active)) := by
  obtain ⟨bound, regs, frames, outside, -, pulse⟩ := nested
  exact ⟨bound, regs, frames, outside, inactive, pulse⟩

theorem setNmiLine_pending (active : Bool) (pending : s.z80.nmiPending = true) :
    (s.onZ80 (Z80.setNmiLine active)).z80.nmiPending = true := by
  simp [Machine.onZ80, Z80.setNmiLine, pending]

theorem due_cases {pending : Bool} (due : pending = true ∨ 0 < depth) :
    pending = true ∨ pending = false ∧ ∃ less, depth = less + 1 := by
  cases pending with
  | true => exact .inl rfl
  | false =>
      have positive := due.resolve_left Bool.false_ne_true
      exact .inr ⟨rfl, depth - 1, by omega⟩

section Due
variable (nested : Nested bus r memory k depth s) (handled : Handled memory r.sp k)
  (running : r.halted = false) (equal : r.iff1 = r.iff2)
  (due : s.z80.nmiPending = true ∨ 0 < depth)
include nested handled running equal due

/-- Where an NMI is pending or outstanding, a step services one or undoes one. -/
theorem Nested.step {history : List (Action Host)}
    (schedule : NmiSchedule k (.stepped result :: history))
    (count : nmiServices history = retns history + depth)
    (returns : Z80f.step bus.toBus fuel s = some result) :
    ServiceOrRetn result ∧ ∃ depth',
      nmiServices (.stepped result :: history) = retns (.stepped result :: history) + depth' ∧
        Nested bus r memory k depth' result.machine := by
  have bounded := schedule.last
  rcases due_cases due with pending | ⟨idle, less, rfl⟩
  · obtain ⟨kind, fetched, cost⟩ := step_service pending returns
    have one : nmiServices (.stepped result :: history) =
        retns (.stepped result :: history) + (depth + 1) := by
      simp [nmiServices, retns, servicesNmi, kind, fetched]
      omega
    have enough : depth + 1 ≤ k := by omega
    refine ⟨.inl ⟨kind, fetched, cost⟩, depth + 1, one, ?_⟩
    exact nested.service running (small_of_apart handled.firstApart) enough pending returns
  · obtain ⟨found, foundReturns, kind, fetched, cost, higher⟩ :=
      nested.retn handled running equal idle fuel
    obtain rfl := Option.some.inj (foundReturns.symm.trans returns)
    refine ⟨.inr ⟨kind, fetched, cost⟩, less, ?_, higher⟩
    simp [nmiServices, retns, servicesNmi, kind, fetched]
    omega

theorem Nested.returns (fuel : Nat) : ∃ result, Z80f.step bus.toBus fuel s = some result := by
  rcases due_cases due with pending | ⟨idle, less, rfl⟩
  · obtain ⟨result, returns, -⟩ : ∃ result, Z80f.step bus.toBus fuel s = some result ∧
        result.kind = .nmi := step_nmi fuel pending
    exact ⟨result, returns⟩
  · obtain ⟨result, returns, -⟩ := nested.retn handled running equal idle fuel
    exact ⟨result, returns⟩

end Due
end Steps

/-- NMIs were serviced, and as many RETNs executed. -/
def Unwound {Host : Type} (history : List (Action Host)) : Prop :=
  0 < nmiServices history ∧ nmiServices history = retns history

instance {Host : Type} (history : List (Action Host)) : Decidable (Unwound history) :=
  inferInstanceAs (Decidable (_ ∧ _))

/-- On the way from the first NMI at `start` to the last RETN. -/
structure Unwinding {Host : Type} (bus : RamBus Host) (start : Machine Host) (k : Nat)
    (history : List (Action Host)) (s : Machine Host) : Prop where
  nested : ∃ depth, nmiServices history = retns history + depth ∧
    Nested bus start.z80.regs (bus.memory start.host) k depth s
  waiting : nmiServices history = 0 → s.z80.nmiPending = true
  steps : ∀ result, .stepped result ∈ history → ServiceOrRetn result

section Unwinding
variable {Host : Type} {bus : RamBus Host} {start s : Machine Host} {k depth : Nat}
  {history : List (Action Host)}

theorem Unwinding.due (unwinding : Unwinding bus start k history s) (notYet : ¬ Unwound history)
    (count : nmiServices history = retns history + depth) :
    s.z80.nmiPending = true ∨ 0 < depth := by
  by_cases none : nmiServices history = 0
  · exact .inl (unwinding.waiting none)
  · right
    by_contra zero
    apply notYet
    constructor <;> omega

theorem Unwinding.act (unwinding : Unwinding bus start k history s)
    (running : start.z80.regs.halted = false) (equal : start.z80.regs.iff1 = start.z80.regs.iff2)
    (handled : Handled (bus.memory start.host) start.z80.regs.sp k) {action : Action Host}
    {last : Machine Host} (schedule : NmiSchedule k (action :: history))
    (notYet : ¬ Unwound history) (act : Act bus.toBus s action last) :
    Unwinding bus start k (action :: history) last := by
  obtain ⟨depth, count, nested⟩ := unwinding.nested
  have spares := schedule.1 action List.mem_cons_self
  have due := unwinding.due notYet count
  cases act with
  | setNmiLine active =>
      refine ⟨⟨depth, count, nested.setNmiLine active⟩, fun none => ?_, fun result member => ?_⟩
      · exact setNmiLine_pending active (unwinding.waiting none)
      · exact unwinding.steps result (List.mem_of_ne_of_mem (by simp) member)
  | setIntLine active =>
      refine ⟨⟨depth, count, nested.setIntLine spares⟩, unwinding.waiting, fun result member => ?_⟩
      exact unwinding.steps result (List.mem_of_ne_of_mem (by simp) member)
  | pulseIntLine => exact spares.elim
  | stepped returns =>
      obtain ⟨step, later⟩ := nested.step handled running equal due schedule count returns
      refine ⟨later, fun none => ?_, fun result member => ?_⟩
      · rw [nmiServices, Nat.add_eq_zero_iff] at none
        have kind := (step_service (unwinding.waiting none.2) returns).1
        simp [servicesNmi, kind] at none
      · rcases List.mem_cons.mp member with same | earlier
        · cases same
          exact step
        · exact unwinding.steps result earlier

end Unwinding

/-- Nested NMIs unwind.  Before the first of them at `s` until as many RETNs as
services have executed, IFF2 stays, every step is a service or a RETN, and every
step returns; then all registers but R, Q, WZ and the shadow of EI have come back. -/
theorem nested_nmis_unwind {Host : Type} (bus : RamBus Host) (k : Nat) (s : Machine Host)
    (running : s.z80.regs.halted = false) (equal : s.z80.regs.iff1 = s.z80.regs.iff2)
    (first : s.z80.nmiPending = true)
    (noInt : s.z80.intLine = false ∧ s.z80.intPulsePending = false)
    (handled : Handled (bus.memory s.host) s.z80.regs.sp k)
    (history : List (Action Host)) (later : Machine Host)
    (run : Run (Act bus.toBus) s history later) (schedule : NmiSchedule k history)
    (notBefore : NotBefore (Act bus.toBus) s (fun earlier _ => Unwound earlier) history) :
    let r := s.z80.regs
    let next := later.z80.regs
    next.iff2 = r.iff2 ∧
    (∀ result, .stepped result ∈ history → ServiceOrRetn result) ∧
    (¬ Unwound history → ∀ fuel, ∃ result, step bus.toBus fuel later = some result) ∧
    (Unwound history →
      next = { r with r := next.r, q := next.q, wz := next.wz, eiPending := next.eiPending } ∧
      ∀ address, ¬ Below r.sp (2 * k) address →
        bus.memory later.host address = bus.memory s.host address) := by
  have init : Unwinding bus s k [] s :=
    ⟨⟨0, rfl, .start noInt⟩, fun _ => first, fun result none => absurd none List.not_mem_nil⟩
  have unwinding : Unwinding bus s k history later :=
    run.until (Unwinding bus s k) (NmiSchedule k) NmiSchedule.shorter init
      (fun _ _ _ _ schedule notYet before act =>
        before.act running equal handled schedule notYet act) schedule notBefore
  obtain ⟨depth, count, nested⟩ := unwinding.nested
  refine ⟨nested.iff2, unwinding.steps, fun notYet fuel => ?_, fun unwound => ?_⟩
  · exact nested.returns handled running equal (unwinding.due notYet count) fuel
  · obtain rfl : depth = 0 := by
      have same := unwound.2
      omega
    exact ⟨Registers.of_steady nested.resumed, nested.outside⟩

/-- The line rises again while the first NMI is serviced: two NMIs and two RETNs on
a stack that wraps around address 0. -/
theorem nested_nmis_unwind_twice :
    let s : Machine Memory :=
      { z80 := { regs := { sp := 0x0001, pc := 0x1234 }, nmiPending := true }
        host := programAt 0x0066 [0xED, 0x45] 0 }
    ∃ history later, Run (Act flatRam.toBus) s history later ∧ nmiServices history = 2 ∧
      later.z80.regs.pc = 0x1234 ∧ later.z80.regs.sp = 0x0001 ∧
      later.host 0x0001 = s.host 0x0001 := by
  intro s
  have run := Run.next (Run.next (Run.next (Run.next (Run.next (@Run.start _ _ (Act flatRam.toBus)
    { z80 := { regs := { sp := 0x0001, pc := 0x1234 }, nmiPending := true }
      host := programAt 0x0066 [0xED, 0x45] 0 })
    (@Act.stepped _ _ _ 0 _ rfl)) (.setNmiLine _ true)) (@Act.stepped _ _ _ 0 _ rfl))
    (@Act.stepped _ _ _ 0 _ rfl)) (@Act.stepped _ _ _ 0 _ rfl)
  have handled : Handled s.host s.z80.regs.sp 2 :=
    ⟨rfl, rfl, by rw [below_iff]; decide, by rw [below_iff]; decide⟩
  have unwound := (nested_nmis_unwind flatRam 2 s rfl rfl rfl ⟨rfl, rfl⟩ handled _ _ run
    (.next (.next (.next (.next (.next (.start 2) trivial (by decide)) trivial (by decide)) trivial
      (by decide)) trivial (by decide)) trivial (by decide))
    (.cons (.cons (.cons (.cons (.cons .nil (fun _ _ => by decide) _) (fun _ _ => by decide) _)
      (fun _ _ => by decide) _) (fun _ _ => by decide) _) (fun _ _ => by decide) _)).2.2.2
    (by decide)
  refine ⟨_, _, run, by decide, congrArg Registers.pc unwound.1, congrArg Registers.sp unwound.1,
    unwound.2 0x0001 ?_⟩
  rw [below_iff]
  decide

end Z80f
