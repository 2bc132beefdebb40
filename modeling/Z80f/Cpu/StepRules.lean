import Z80f.Cpu.Rules

/-! # What one step can do

The three ends of a step, each with its registers and its requests, and the
way from a rule about `stepBody` to a fact about `step`. -/

set_option autoImplicit false

namespace Z80f

open Interaction Stateful Z80M

namespace Registers

def wake (r : Registers) : Registers :=
  if r.halted then { r with pc := r.pc + 1, halted := false } else r

def nmiEntry (r : Registers) : Registers :=
  let entry := Registers.incR { r.wake with q := 0, iff1 := false }
  { entry with sp := entry.sp - 1 - 1, pc := 0x0066, wz := 0x0066 }

def intEntry (r : Registers) : Registers :=
  let entry := Registers.incR { r.wake with q := 0, iff1 := false, iff2 := false }
  { entry with sp := entry.sp - 1 - 1 }

end Registers

def pushPath (sp value : Word) : Path :=
  [cycle (sp - 1) 3, writeOf (sp - 1) (hi value),
    cycle (sp - 1 - 1) 3, writeOf (sp - 1 - 1) (lo value)]

def nmiPath (r : Registers) : Path := cycle r.wake.pc 5 :: pushPath r.wake.sp r.wake.pc

def intPath (r : Registers) (databus : Byte) : Path :=
  cycle r.wake.pc 7 :: acknowledgeOf databus :: pushPath r.wake.sp r.wake.pc

def rstTarget (databus : Byte) : Word :=
  if databus &&& 0xC7#8 = 0xC7#8 then (databus &&& 0x38#8).setWidth 16 else 0x38

section Rules
variable (cpu : Cpu)

@[simp] theorem holds_leaveHalt {post : Unit → Cpu → Path → Prop} :
    leaveHalt.Holds post cpu ↔ post () { cpu with regs := cpu.regs.wake } [] := by
  unfold leaveHalt Registers.wake
  by_cases halted : cpu.regs.halted = true <;> simp [halted]

theorem holds_handleNmi (pending : cpu.nmiPending = true) {post : Bool → Cpu → Path → Prop} :
    handleNmi.Holds post cpu ↔
      post true { cpu with regs := cpu.regs.nmiEntry, nmiPending := false }
        (nmiPath cpu.regs) := by
  simp [handleNmi, pending, Registers.nmiEntry, nmiPath, pushPath, Registers.incR]

theorem holds_vectorInt (databus : Byte) {post : Unit → Cpu → Path → Prop} :
    (vectorInt databus).Holds post cpu ↔
      (cpu.regs.im = 0 → post () { cpu with regs := { cpu.regs with
        pc := rstTarget databus, wz := rstTarget databus } } []) ∧
      (cpu.regs.im = 1 → post () { cpu with regs := { cpu.regs with
        pc := 0x0038, wz := 0x0038 } } []) ∧
      (cpu.regs.im = 2 → ∀ low high : Byte, post () { cpu with regs := { cpu.regs with
        pc := word high low, wz := word high low } }
          [cycle (word cpu.regs.i databus) 3, readOf .data (word cpu.regs.i databus) low,
            cycle (word cpu.regs.i databus + 1) 3,
            readOf .data (word cpu.regs.i databus + 1) high]) ∧
      (cpu.regs.im ≠ 0 → cpu.regs.im ≠ 1 → cpu.regs.im ≠ 2 → post () cpu []) := by
  by_cases im0 : cpu.regs.im = 0#8
  · simp [vectorInt, im0, rstTarget]
  · by_cases im1 : cpu.regs.im = 1#8
    · simp [vectorInt, im1]
    · by_cases im2 : cpu.regs.im = 2#8
      · simp [vectorInt, im2]
      · simp [vectorInt, im0, im1, im2]

theorem holds_handleInt (enabled : cpu.regs.iff1 = true) {post : Bool → Cpu → Path → Prop} :
    (handleInt true).Holds post cpu ↔
      ∀ databus : Byte, (vectorInt databus).Holds
        (fun _ next tail => post true next (intPath cpu.regs databus ++ tail))
        { cpu with regs := cpu.regs.intEntry } := by
  simp [handleInt, enabled, Registers.intEntry, intPath, pushPath, Registers.incR]

def Registers.haltCycle (r : Registers) : Registers := { r.incR with q := 0 }

@[simp] theorem holds_haltedCycle {post : Unit → Cpu → Path → Prop} :
    haltedCycle.Holds post cpu ↔
      ∀ v : Byte, post () { cpu with regs := cpu.regs.haltCycle }
        [cycle cpu.regs.pc 4, readOf .data cpu.regs.pc v] := by
  simp [haltedCycle, Registers.haltCycle]

/-- The store of Q at the end of an instruction. -/
def Cpu.settleQ (cpu : Cpu) : Cpu :=
  { cpu with regs := { cpu.regs with q := if cpu.flagsModified then cpu.regs.flags else 0 } }

/-- What `dispatch_unprefixed` gets: PC and R past the first opcode byte. -/
def Cpu.opcodeFetched (cpu : Cpu) : Cpu :=
  { cpu with regs := Registers.incR { cpu.regs with pc := cpu.regs.pc + 1 } }

theorem holds_executeInstruction (fuel : Nat) {post : Option StepKind → Cpu → Path → Prop} :
    (executeInstruction fuel).Holds post cpu ↔
      ∀ op : Byte, (dispatchUnprefixed fuel op).Holds
        (fun found next path =>
          match found with
          | none => post none next (cycle cpu.regs.pc 4 :: readOf .fetch cpu.regs.pc op :: path)
          | some t => post (some (.instruction t)) next.settleQ
              (cycle cpu.regs.pc 4 :: readOf .fetch cpu.regs.pc op :: path))
        cpu.opcodeFetched := by
  simp only [executeInstruction, holds_bind, holds_fetchOpcode]
  refine forall_congr' fun op => ?_
  have same {post post' : Option Int → Cpu → Path → Prop} (eq : post = post') :
      (dispatchUnprefixed fuel op).Holds post cpu.opcodeFetched ↔
        (dispatchUnprefixed fuel op).Holds post' cpu.opcodeFetched := by rw [eq]
  apply same
  funext found next path
  cases found with
  | none => simp
  | some t => simp [Cpu.settleQ]

theorem holds_haltOrExecute (fuel : Nat) {post : Option StepKind → Cpu → Path → Prop} :
    (haltOrExecute fuel).Holds post cpu ↔
      (cpu.regs.halted = true → ∀ v : Byte,
        post (some .halted)
          { cpu with regs := Registers.haltCycle { cpu.regs with eiPending := false } }
          [cycle cpu.regs.pc 4, readOf .data cpu.regs.pc v]) ∧
      (cpu.regs.halted = false → (executeInstruction fuel).Holds post
        { cpu with regs := { cpu.regs with eiPending := false } }) := by
  simp [haltOrExecute]

def Cpu.acceptsInt (cpu : Cpu) : Bool :=
  (cpu.intLine || cpu.intPulsePending) && cpu.regs.iff1 && !cpu.regs.eiPending

def Cpu.pulseTaken (cpu : Cpu) : Cpu := { cpu with flagsModified := false, intPulsePending := false }

theorem holds_stepBody (fuel : Nat) {post : Option StepKind → Cpu → Path → Prop} :
    (stepBody fuel).Holds post cpu ↔
      (cpu.nmiPending = true →
        post (some .nmi)
          { cpu with flagsModified := false, regs := cpu.regs.nmiEntry, nmiPending := false }
          (nmiPath cpu.regs)) ∧
      (cpu.nmiPending = false → cpu.acceptsInt = true → ∀ databus : Byte,
        (vectorInt databus).Holds
          (fun _ next tail => post (some .int) next (intPath cpu.regs databus ++ tail))
          { cpu.pulseTaken with regs := cpu.regs.intEntry }) ∧
      (cpu.nmiPending = false → cpu.acceptsInt = false →
        (haltOrExecute fuel).Holds post cpu.pulseTaken) := by
  by_cases nmi : cpu.nmiPending = true
  · simp [stepBody, nmi, holds_handleNmi]
  · cases line : cpu.intLine <;> cases pulse : cpu.intPulsePending <;>
      cases enabled : cpu.regs.iff1 <;> cases shadow : cpu.regs.eiPending <;>
      simp [stepBody, nmi, Cpu.acceptsInt, line, pulse, enabled, shadow, holds_handleInt,
        Cpu.pulseTaken]

end Rules

section Step
variable {Host α : Type} {bus : Bus Host}

theorem exec_bind {β : Type} (m : Z80M α) (f : α → Z80M β) (s : Machine Host) :
    exec bus (m >>= f) s =
      let first := exec bus m s
      let rest := exec bus (f first.value) first.machine
      ⟨rest.value, rest.machine, first.calls ++ rest.calls⟩ := by
  simp only [exec, StateT.run_bind, Program.run_bind]

theorem exec_then {β : Type} {m : Z80M α} (f : α → Z80M β) {s : Machine Host} {value : α}
    (known : (exec bus m s).value = value) :
    exec bus (m >>= f) s =
      let rest := exec bus (f value) (exec bus m s).machine
      ⟨rest.value, rest.machine, (exec bus m s).calls ++ rest.calls⟩ := by
  rw [exec_bind]
  simp only [known]

theorem exec_return {β : Type} (m : Z80M α) (f : α → β) (s : Machine Host) :
    exec bus (do let v ← m; return f v) s =
      let ran := exec bus m s
      ⟨f ran.value, ran.machine, ran.calls⟩ := by
  rw [exec_bind]
  simp only [exec, StateT.run_pure, Program.pure_eq, Program.run_done, List.append_nil]

theorem Holds.exec {m : Z80M α} {post : α → Cpu → Path → Prop} (bus : Bus Host) (s : Machine Host)
    (holds : m.Holds post s.z80.toCpu) :
    post (exec bus m s).value (exec bus m s).machine.z80.toCpu
      ((exec bus m s).calls.map Exchange.answered) :=
  Program.All.run holds (environment bus) (s.z80.toClock, s.host)

theorem step_returns {fuel : Nat} {s : Machine Host} {stepped : Stepped Host}
    (returns : step bus fuel s = some stepped) :
    let ran := exec bus (stepBody fuel) s.started
    ran.value = some stepped.kind ∧ stepped.machine = ran.machine ∧ stepped.calls = ran.calls ∧
      stepped.returned = toInt32 (ran.machine.z80.cycles - s.z80.cycles) := by
  unfold step at returns
  obtain ⟨kind, value, rfl⟩ := Option.map_eq_some_iff.mp returns
  exact ⟨value, rfl, rfl, rfl⟩

theorem step_base {fuel : Nat} {s : Machine Host} {stepped : Stepped Host}
    (returns : step bus fuel s = some stepped) :
    stepped.machine.z80.baseCycleCounter = s.z80.baseCycleCounter := by
  obtain ⟨-, machine, -⟩ := step_returns returns
  rw [machine]
  rfl

theorem Holds.step {fuel : Nat} {s : Machine Host} {stepped : Stepped Host}
    {post : Option StepKind → Cpu → Path → Prop}
    (holds : (stepBody fuel).Holds post s.z80.toCpu)
    (returns : step bus fuel s = some stepped) :
    post (some stepped.kind) stepped.machine.z80.toCpu
      (stepped.calls.map Exchange.answered) := by
  obtain ⟨value, machine, calls, -⟩ := step_returns returns
  rw [← value, machine, calls]
  exact Holds.exec bus s.started holds

end Step

theorem fitsInt_iff {n : Int} : fitsInt n = true ↔ -2147483648 ≤ n ∧ n ≤ 2147483647 := by
  simp only [fitsInt, Bool.and_eq_true, decide_eq_true_eq]

section RunFor
variable {Host : Type} {bus : Bus Host} {fuel steps : Nat} {s : Machine Host}
  {tStates total : Int}

theorem runForLoop_done (reached : ¬ total < tStates) :
    runForLoop bus fuel tStates steps total s = .ok ⟨total, s, []⟩ := by
  cases steps with
  | zero => rw [runForLoop, if_neg reached]
  | succ steps => rw [runForLoop, if_neg reached]

theorem runForLoop_round (short : total < tStates) {found : Ran Host Int} :
    runForLoop bus fuel tStates (steps + 1) total s = .ok found ↔
      ∃ stepped later, step bus fuel s = some stepped ∧ fitsInt (total + stepped.returned) = true ∧
        runForLoop bus fuel tStates steps (total + stepped.returned) stepped.machine =
          .ok later ∧
        found = { later with calls := stepped.calls ++ later.calls } := by
  rw [runForLoop, if_pos short]
  constructor
  · intro returns
    cases stepReturns : step bus fuel s with
    | none =>
        rw [stepReturns] at returns
        cases returns
    | some stepped =>
        rw [stepReturns] at returns
        dsimp only at returns
        split at returns
        · cases loop : runForLoop bus fuel tStates steps (total + stepped.returned)
            stepped.machine with
          | error stuck =>
              rw [loop] at returns
              cases returns
          | ok later =>
              rw [loop] at returns
              cases returns
              exact ⟨stepped, later, rfl, ‹_›, loop, rfl⟩
        · cases returns
  · rintro ⟨stepped, later, stepReturns, fits, loop, rfl⟩
    rw [stepReturns]
    dsimp only
    rw [if_pos fits, loop]
    rfl

/-- What the end of the loop has, and every round hands back, a returned loop has. -/
theorem runForLoop_induction {motive : Int → Machine Host → Ran Host Int → Prop}
    (done : ∀ total s, ¬ total < tStates → motive total s ⟨total, s, []⟩)
    (round : ∀ total s stepped later, total < tStates → step bus fuel s = some stepped →
      fitsInt (total + stepped.returned) = true →
      motive (total + stepped.returned) stepped.machine later →
      motive total s { later with calls := stepped.calls ++ later.calls })
    {found : Ran Host Int} (returns : runForLoop bus fuel tStates steps total s = .ok found) :
    motive total s found := by
  induction steps generalizing total s found with
  | zero =>
      by_cases short : total < tStates
      · rw [runForLoop, if_pos short] at returns
        cases returns
      · rw [runForLoop_done short] at returns
        cases returns
        exact done total s short
  | succ steps ih =>
      by_cases short : total < tStates
      · obtain ⟨stepped, later, stepReturns, fits, loop, rfl⟩ := (runForLoop_round short).mp returns
        exact round total s stepped later short stepReturns fits (ih loop)
      · rw [runForLoop_done short] at returns
        cases returns
        exact done total s short

end RunFor
end Z80f
