import Z80f.Block.Rounds
import Z80f.Control.StackUse
import Z80f.History.ShadowStack
import Z80f.Interaction.Leads
import Z80f.Interrupts.Latches
import Mathlib.Data.List.GetD

/-! # Verifying machine code

The machine as a machine of `Leads`, over a RAM host and without interrupts.
`At` is what a program sees of it; the rule of an opcode leads from `At` to `At`
and follows from the rule of its dispatcher. -/

set_option autoImplicit false

namespace Z80f

open Interaction Stateful Z80M

def advance {Host : Type} (bus : Bus Host) (fuel : Nat) (s : Machine Host) :
    Option (Machine Host × Int) :=
  (step bus fuel s).map fun stepped => (stepped.machine, nominal stepped.path)

section Machine
variable {Host : Type} {bus : Bus Host} {fuel : Nat} {s t : Machine Host} {cost : Int}

theorem advance_step {stepped : Stepped Host} (returns : step bus fuel s = some stepped) :
    advance bus fuel s = some (stepped.machine, nominal stepped.path) := by
  rw [advance, returns, Option.map_some]

theorem follows_stepTimes (follows : Follows (advance bus fuel) s cost t) : ∃ count ran,
    stepTimes bus fuel count s = some ran ∧ ran.machine = t ∧
      nominal (ran.calls.map Exchange.answered) = cost := by
  induction follows with
  | here => exact ⟨0, _, rfl, rfl, rfl⟩
  | step taken rest ih =>
      obtain ⟨stepped, returns, same⟩ := Option.map_eq_some_iff.mp taken
      obtain ⟨rfl, rfl⟩ := Prod.mk.inj same
      obtain ⟨count, ran, times, machine, calls⟩ := ih
      refine ⟨count + 1,
        ⟨stepped.returned + ran.value, ran.machine, stepped.calls ++ ran.calls⟩, ?_, machine, ?_⟩
      · rw [Z80f.stepTimes, returns, Option.bind_some, times, Option.map_some]
      · rw [List.map_append, nominal_append, calls]

end Machine

def CodeAt (memory : Memory) (pc : Word) : List Byte → Prop
  | [] => True
  | byte :: rest => memory pc = byte ∧ CodeAt memory (pc + 1) rest

section Code
variable {memory memory' : Memory} {pc : Word} {code : List Byte}

theorem codeAt_append {rest : List Byte} : CodeAt memory pc (code ++ rest) ↔
    CodeAt memory pc code ∧ CodeAt memory (pc + BitVec.ofNat 16 code.length) rest := by
  induction code generalizing pc with
  | nil => simp [CodeAt]
  | cons byte code ih =>
      have behind : pc + 1 + BitVec.ofNat 16 code.length =
          pc + BitVec.ofNat 16 (code.length + 1) := by bv_omega
      rw [List.cons_append, CodeAt, CodeAt, ih, behind, and_assoc, List.length_cons]

theorem CodeAt.of_same (at_ : CodeAt memory pc code)
    (same : ∀ i < code.length, memory' (pc + BitVec.ofNat 16 i) =
      memory (pc + BitVec.ofNat 16 i)) : CodeAt memory' pc code := by
  induction code generalizing pc with
  | nil => trivial
  | cons byte code ih =>
      constructor
      · have first := same 0 (Nat.zero_lt_succ _)
        rw [BitVec.add_zero] at first
        rw [first]
        exact at_.1
      · apply ih at_.2
        intro i before
        have later := same (i + 1) (Nat.succ_lt_succ before)
        have place : pc + BitVec.ofNat 16 (i + 1) = pc + 1 + BitVec.ofNat 16 i := by bv_omega
        rwa [place] at later

theorem codeAt_programAt (origin : Word) (fill : Byte) (fits : code.length ≤ 65536) :
    CodeAt (programAt origin code fill) origin code := by
  have suffix (later earlier : List Byte) (whole : code = earlier ++ later) :
      CodeAt (programAt origin code fill) (origin + BitVec.ofNat 16 earlier.length) later := by
    induction later generalizing earlier with
    | nil => trivial
    | cons byte later ih =>
        constructor
        · have length := congrArg List.length whole
          rw [List.length_append, List.length_cons] at length
          have place : (origin + BitVec.ofNat 16 earlier.length - origin).toNat =
              earlier.length := by bv_omega
          rw [programAt, place, whole, List.getD_append_right _ _ _ _ le_rfl, Nat.sub_self]
          rfl
        · have rest := ih (earlier ++ [byte]) (by rw [whole, List.append_assoc]; rfl)
          rwa [List.length_append, List.length_singleton, BitVec.ofNat_add, ← BitVec.add_assoc]
            at rest
  have whole := suffix code [] rfl
  rwa [List.length_nil, BitVec.add_zero] at whole

end Code

/-- `r` up to PC and what every instruction changes. -/
def Registers.Shown (r : Registers) (pc : Word) (shown : Registers) : Prop :=
  ∃ refresh wz q ei, shown = { r with pc := pc, r := refresh, wz := wz, q := q, eiPending := ei }

structure At {Host : Type} (bus : RamBus Host) (pc : Word) (r : Registers) (memory : Memory)
    (s : Machine Host) : Prop where
  undisturbed : s.z80.undisturbed
  running : r.halted = false
  regs : r.Shown pc s.z80.regs
  memory : bus.memory s.host = memory

section At
variable {Host : Type} {bus : RamBus Host} {pc pc' : Word} {r r' : Registers}
  {memory memory' : Memory} {s : Machine Host} {op : Byte} {cost : Int}

theorem At.pc_eq (at_ : At bus pc r memory s) : s.z80.regs.pc = pc := by
  obtain ⟨refresh, wz, q, ei, shown⟩ := at_.regs
  rw [shown]

theorem At.executes (at_ : At bus pc r memory s) : s.z80.toCpu.Executes := by
  apply at_.undisturbed.executes
  obtain ⟨refresh, wz, q, ei, shown⟩ := at_.regs
  rw [shown]
  exact at_.running

theorem At.start (undisturbed : s.z80.undisturbed) (running : s.z80.regs.halted = false) :
    At bus s.z80.regs.pc s.z80.regs (bus.memory s.host) s :=
  ⟨undisturbed, running, ⟨_, _, _, _, rfl⟩, rfl⟩

theorem Latching.undisturbed {cpu next : Cpu} {t : Int} {path : Path}
    (latching : Latching cpu (.instruction t) next path) (undisturbed : cpu.undisturbed)
    (iff1 : next.regs.iff1 = cpu.regs.iff1) : next.undisturbed := by
  refine ⟨latching.nmiPending, ?_⟩
  have quiet := undisturbed.2
  have pulse : next.intPulsePending = false := latching.pulse
  rw [latching.intLine, pulse, iff1, Bool.or_false]
  revert quiet
  cases cpu.intLine <;> simp

theorem At.step (fuel : Nat) (at_ : At bus pc r memory s) (here : memory pc = op)
    (last : isIndexPrefix op = false) (running : r'.halted = r.halted)
    (iff1 : r'.iff1 = r.iff1)
    (arm : ∀ cpu : Cpu, r.Shown (pc + 1) cpu.regs → (dispatchOpcode op).Holds
      (fun t next tail => ReadsFrom memory tail →
        t = cost ∧ r'.Shown pc' next.regs ∧ memoryAfter memory tail = memory') cpu) :
    Steps (advance bus.toBus fuel) cost (At bus pc' r' memory') s := by
  have opened : r.Shown (pc + 1) s.z80.toCpu.opened.regs := by
    obtain ⟨refresh, wz, q, ei, shown⟩ := at_.regs
    refine ⟨advanceR 1 refresh, wz, q, false, ?_⟩
    change { s.z80.regs with
      pc := s.z80.regs.pc + 1, r := advanceR 1 s.z80.regs.r, eiPending := false } = _
    rw [shown]
  have hereNow : bus.memory s.host s.z80.regs.pc = op := by
    rw [at_.memory, at_.pc_eq]
    exact here
  have settled : (dispatchOpcode op).Holds (fun t next tail =>
      ReadsFrom (bus.memory s.host) tail → t = cost ∧ r'.Shown pc' next.settleQ.regs ∧
        memoryAfter memory tail = memory') s.z80.toCpu.opened := by
    rw [at_.memory]
    apply (arm _ opened).mono
    intro t next tail done reads
    obtain ⟨found, ⟨refresh, wz, q, ei, shown⟩, final⟩ := done reads
    refine ⟨found, ⟨refresh, wz, next.settleQ.regs.q, ei, ?_⟩, final⟩
    rw [Cpu.settleQ, shown]
  obtain ⟨stepped, t, tail, returns, kind, path, ⟨found, regs, final⟩, after⟩ :=
    bus.step_opcode fuel at_.executes hereNow (fun t next tail => t = cost ∧
      r'.Shown pc' next.regs ∧ memoryAfter memory tail = memory') last settled
  have case := step_case returns
  rw [kind] at case
  have spent : nominal stepped.path = cost := by
    rw [← found]
    exact step_nominal returns kind
  have taken := advance_step returns
  rw [spent] at taken
  refine ⟨_, taken, ?_, ?_, regs, ?_⟩
  · apply case.latching.undisturbed at_.undisturbed
    obtain ⟨refresh, wz, q, ei, shown⟩ := regs
    obtain ⟨refresh', wz', q', ei', shown'⟩ := at_.regs
    rw [shown, shown']
    exact iff1
  · exact running.trans at_.running
  · rw [after, at_.memory, final]

theorem At.jp {low high : Byte} (fuel : Nat) (at_ : At bus pc r memory s)
    (code : CodeAt memory pc [0xC3, low, high]) :
    Steps (advance bus.toBus fuel) 10 (At bus (word high low) r memory) s := by
  obtain ⟨op, lowAt, highAt, -⟩ := code
  refine at_.step fuel op rfl ?_ ?_ ?_
  · rfl
  · rfl
  rintro cpu ⟨refresh, wz, q, ei, shown⟩
  have arm : dispatchOpcode 0xC3 = (do
      opcodePrelude 0xC3; Z80f.jp (← fetchImmediate16); return 10) := rfl
  rw [arm]
  simp only [Z80f.jp, holds_bind, holds_opcodePrelude, holds_fetchImmediate16, holds_modifyRegs,
    shown, holds_pure]
  rintro v w ⟨readLow, readHigh, -⟩
  obtain rfl : v = low := readLow.trans lowAt
  obtain rfl : w = high := readHigh.trans highAt
  exact ⟨trivial, ⟨refresh, _, q, ei, rfl⟩, rfl⟩

end At
end Z80f
