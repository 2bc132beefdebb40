import Z80f.Encoding.Frame
import Z80f.History.Masking
import Z80f.Program.Rules
import Mathlib.Tactic.FinCases

/-! # The second set of registers

`EX AF,AF'` and EXX exchange a part of the registers with what is put aside, and
nothing else touches what is put aside: a handler or another task that begins
and ends with the exchange has registers of its own. -/

set_option autoImplicit false

namespace Z80f

open Interaction Stateful Z80M

section Step
variable {Host : Type} {bus : Bus Host} {fuel : Nat} {s : Machine Host} {result : Stepped Host}

/-- What instructions with this code do to the registers, from what their
dispatchers do. -/
theorem step_relates (rel : Registers → Registers → Prop)
    (opens : ∀ r next pc refresh q ei,
      rel { r with pc := pc, r := refresh, q := q, eiPending := ei } next → rel r next)
    (settles : ∀ r next q, rel r next → rel r { next with q := q })
    (isCode : List Byte → Prop)
    (plain : ∀ op mid, (dispatchOpcode op).Holds (fun _ next tail =>
      isCode (op :: fetchedBytes tail) → rel mid.regs next.regs) mid)
    (indexed : ∀ x op t mid, (indexArm x op t).Holds (fun _ next tail =>
      isCode (op :: fetchedBytes tail) → rel mid.regs next.regs) mid)
    (returns : step bus fuel s = some result) {t : Int} (kind : result.kind = .instruction t)
    (code : isCode (executedCode result)) : rel s.z80.regs result.machine.z80.regs := by
  obtain ⟨settled, mid, head, tail, final, split, behind⟩ := step_behind
    (fun _ code _ mid next _ => isCode code → rel mid.regs next.regs)
    (fun op _ mid => plain op mid) (fun x op t _ mid => indexed x op t mid) returns kind
  rw [executedCode, split] at code
  have done := behind.holds code
  obtain ⟨pc, r, opened⟩ := behind.opens
  have start := opens s.z80.regs settled.regs pc r
    (if (lastPrefix (fetchedBytes (head ++ tail))).isSome then 0 else s.z80.regs.q) false
  rw [opened] at done
  rw [final]
  exact settles _ _ _ (start done)

end Step

theorem StepCase.fetches {cpu next : Cpu} {kind : StepKind} {path : Path}
    (case : StepCase cpu kind next path) :
    (∃ t, kind = .instruction t) ∨ fetchedBytes path = [] := by
  cases case with
  | nmi => exact .inr rfl
  | int noNmi accepts databus pc wz tail vectored => cases vectored <;> exact .inr rfl
  | halted => exact .inr rfl
  | instruction noNmi noInt running t => exact .inl ⟨t, rfl⟩

theorem step_executes {Host : Type} {bus : Bus Host} {fuel : Nat} {s : Machine Host}
    {result : Stepped Host} (returns : step bus fuel s = some result)
    (code : executedCode result ≠ []) : ∃ t, result.kind = .instruction t := by
  rcases (step_case returns).fetches with executed | none
  · exact executed
  · rw [executedCode, none] at code
    exact absurd rfl code

/-- The members that interrupts leave alone and few instructions store. -/
def sheltered : List Field :=
  [.aAlt, .fAlt, .bAlt, .cAlt, .dAlt, .eAlt, .hAlt, .lAlt, .ix, .iy]

theorem StepCase.keeps {cpu next : Cpu} {kind : StepKind} {path : Path}
    (case : StepCase cpu kind next path) {field : Field} (isSheltered : field ∈ sheltered)
    (other : field ∉ storesOf (codeOf (fetchedBytes path)))
    (index : ∀ y, lastPrefix (fetchedBytes path) = some y → field ≠ indexField y) :
    SameField cpu next field := by
  cases case with
  | nmi pending =>
      rw [Registers.nmiEntry_eq]
      fin_cases isSheltered <;> rfl
  | int noNmi accepts databus pc wz tail vectored =>
      rw [Registers.intEntry_eq]
      fin_cases isSheltered <;> rfl
  | halted noNmi noInt halted v => fin_cases isSheltered <;> rfl
  | instruction noNmi noInt running t settled path met =>
      obtain ⟨signature, meets, -⟩ := met
      have isGuarded : field ∈ guarded := by
        revert isSheltered
        cases field <;> decide
      have kept := meets.sameField isGuarded other index
      fin_cases isSheltered <;> exact kept

inductive Exchange where
  | af
  | general
deriving DecidableEq

namespace Exchange

def opcode : Exchange → Byte
  | .af => 0x08
  | .general => 0xD9

/-- What the instructions work with. -/
def front : Exchange → Registers → List Byte
  | .af, r => [r.a, r.flags]
  | .general, r => [r.b, r.c, r.d, r.e, r.h, r.l]

/-- What is put aside. -/
def aside : Exchange → Registers → List Byte
  | .af, r => [r.aAlt, r.fAlt]
  | .general, r => [r.bAlt, r.cAlt, r.dAlt, r.eAlt, r.hAlt, r.lAlt]

def swap : Exchange → Registers → Registers
  | .af, r => { r with a := r.aAlt, flags := r.fAlt, aAlt := r.a, fAlt := r.flags }
  | .general, r =>
      { r with
        b := r.bAlt, c := r.cAlt, d := r.dAlt, e := r.eAlt, h := r.hAlt, l := r.lAlt
        bAlt := r.b, cAlt := r.c, dAlt := r.d, eAlt := r.e, hAlt := r.h, lAlt := r.l }

/-- The step executes the exchange, with or without prefixes. -/
def executedBy {Host : Type} (exchange : Exchange) (result : Stepped Host) : Prop :=
  (executedCode result).head? = some exchange.opcode

section Registers
variable (exchange : Exchange) (r : Registers)

theorem front_swap : exchange.front (exchange.swap r) = exchange.aside r := by
  cases exchange <;> rfl

theorem aside_swap : exchange.aside (exchange.swap r) = exchange.front r := by
  cases exchange <;> rfl

variable {r} {shown : Registers} {pc : Word} (seen : r.Shown pc shown)
include seen

theorem front_shown : exchange.front shown = exchange.front r := by
  obtain ⟨_, _, _, _, rfl⟩ := seen
  cases exchange <;> rfl

theorem aside_shown : exchange.aside shown = exchange.aside r := by
  obtain ⟨_, _, _, _, rfl⟩ := seen
  cases exchange <;> rfl

end Registers

/-! ## One step -/

section Step
variable {Host : Type} {bus : Bus Host} {fuel : Nat} {s : Machine Host} {result : Stepped Host}
  {exchange : Exchange}

theorem dispatchOpcode_swaps (exchange : Exchange) (mid : Cpu) :
    (dispatchOpcode exchange.opcode).Holds
      (fun _ next _ => ∃ pc, (exchange.swap mid.regs).Shown pc next.regs) mid := by
  cases exchange with
  | af =>
      have arm : dispatchOpcode 0x08 = (do opcodePrelude 0x08; exAf; return 4) := rfl
      rw [opcode, arm]
      simp only [exAf, holds_bind, holds_opcodePrelude, holds_modifyRegs, holds_pure]
      refine ⟨mid.regs.pc, mid.regs.r, mid.regs.wz, mid.regs.q, mid.regs.eiPending, ?_⟩
      simp [swap, Registers.setAf, Registers.af]
  | general =>
      have arm : dispatchOpcode 0xD9 = (do opcodePrelude 0xD9; exx; return 4) := rfl
      rw [opcode, arm]
      simp only [exx, holds_bind, holds_opcodePrelude, holds_modifyRegs, holds_pure]
      exact ⟨mid.regs.pc, mid.regs.r, mid.regs.wz, mid.regs.q, mid.regs.eiPending, rfl⟩

theorem indexArm_exchange (exchange : Exchange) (x : IndexReg) (t : Int) :
    indexArm x exchange.opcode t =
      (do let cost ← dispatchOpcode exchange.opcode; return t + cost) := by
  cases exchange <;> rfl

theorem step_swaps (returns : step bus fuel s = some result)
    (executed : exchange.executedBy result) :
    ∃ pc, (exchange.swap s.z80.regs).Shown pc result.machine.z80.regs := by
  obtain ⟨t, kind⟩ := step_executes returns fun none => by
    rw [executedBy, none] at executed
    cases executed
  apply step_relates (fun r next => ∃ pc, (exchange.swap r).Shown pc next) _ _
    (fun code => code.head? = some exchange.opcode) _ _ returns kind executed
  · rintro r _ _ _ _ _ ⟨pc, refresh, wz, q, ei, rfl⟩
    cases exchange <;> exact ⟨pc, refresh, wz, q, ei, rfl⟩
  · rintro r _ q ⟨pc, refresh, wz, _, ei, rfl⟩
    exact ⟨pc, refresh, wz, q, ei, rfl⟩
  · intro op mid
    by_cases here : op = exchange.opcode
    · subst here
      apply (dispatchOpcode_swaps exchange mid).mono
      exact fun _ _ _ done _ => done
    · exact Holds.intro _ (fun _ _ _ found => absurd (Option.some.inj found) here) mid
  · intro x op t mid
    by_cases here : op = exchange.opcode
    · subst here
      rw [indexArm_exchange]
      simp only [holds_bind, holds_pure]
      apply (dispatchOpcode_swaps exchange mid).mono
      exact fun _ _ _ done _ => done
    · exact Holds.intro _ (fun _ _ _ found => absurd (Option.some.inj found) here) mid

theorem step_front (returns : step bus fuel s = some result)
    (executed : exchange.executedBy result) :
    exchange.front result.machine.z80.regs = exchange.aside s.z80.regs := by
  obtain ⟨pc, seen⟩ := step_swaps returns executed
  rw [exchange.front_shown seen, exchange.front_swap]

theorem step_aside (returns : step bus fuel s = some result)
    (executed : exchange.executedBy result) :
    exchange.aside result.machine.z80.regs = exchange.front s.z80.regs := by
  obtain ⟨pc, seen⟩ := step_swaps returns executed
  rw [exchange.aside_shown seen, exchange.aside_swap]

def asideFields : Exchange → List Field
  | .af => [.aAlt, .fAlt]
  | .general => [.bAlt, .cAlt, .dAlt, .eAlt, .hAlt, .lAlt]

theorem asideFields_spec : ∀ field ∈ exchange.asideFields,
    field ∈ sheltered ∧ field ≠ .ix ∧ field ≠ .iy := by
  cases exchange <;> decide

theorem aside_same {cpu next : Cpu}
    (same : ∀ field ∈ exchange.asideFields, SameField cpu next field) :
    exchange.aside next.regs = exchange.aside cpu.regs := by
  cases exchange with
  | af =>
      simp only [asideFields, List.forall_mem_cons, SameField] at same
      simp [aside, same]
  | general =>
      simp only [asideFields, List.forall_mem_cons, SameField] at same
      simp [aside, same]

theorem stored_aside {code : List Byte} {field : Field} (stored : field ∈ storesOf code)
    (isAside : field ∈ exchange.asideFields) : code.head? = some exchange.opcode := by
  cases exchange with
  | af => exact (storesOf_only stored).1 isAside
  | general => exact (storesOf_only stored).2.1 isAside

theorem stepCase_spares {cpu next : Cpu} {kind : StepKind} {path : Path}
    (case : StepCase cpu kind next path)
    (other : (codeOf (fetchedBytes path)).head? ≠ some exchange.opcode) :
    exchange.aside next.regs = exchange.aside cpu.regs := by
  apply aside_same
  intro field isAside
  obtain ⟨isSheltered, notIx, notIy⟩ := asideFields_spec field isAside
  apply case.keeps isSheltered
  · exact fun stored => other (stored_aside stored isAside)
  · intro y _
    cases y with
    | ix => exact notIx
    | iy => exact notIy

theorem run_spares {last : Machine Host} {history : List (Action Host)}
    (run : Run (Act bus) s history last)
    (between : ∀ result, .stepped result ∈ history → ¬ exchange.executedBy result) :
    exchange.aside last.z80.regs = exchange.aside s.z80.regs := by
  induction run with
  | start => rfl
  | next run act ih =>
      have before := ih fun result member => between result (List.mem_cons_of_mem _ member)
      cases act with
      | setNmiLine | setIntLine | pulseIntLine => exact before
      | stepped returns =>
          rw [← before]
          exact stepCase_spares (step_case returns) (between _ List.mem_cons_self)

end Step
end Exchange

/-- A task that exchanges its registers away finds them as they were, whatever ran
in between: the exchange brings in what was put aside, interrupts and all other
instructions leave alone what is put aside, and the next exchange brings it back
and puts aside what the other task worked with. -/
theorem context_switch {Host : Type} (bus : Bus Host) (exchange : Exchange)
    (s last : Machine Host) (history : List (Action Host)) (fuel fuel' : Nat)
    (leaving entering : Stepped Host) (leaves : step bus fuel s = some leaving)
    (isSwitch : exchange.executedBy leaving)
    (run : Run (Act bus) leaving.machine history last)
    (between : ∀ result, .stepped result ∈ history → ¬ exchange.executedBy result)
    (enters : step bus fuel' last = some entering) (isSwitch' : exchange.executedBy entering) :
    exchange.front leaving.machine.z80.regs = exchange.aside s.z80.regs ∧
    exchange.aside last.z80.regs = exchange.front s.z80.regs ∧
    exchange.front entering.machine.z80.regs = exchange.front s.z80.regs ∧
    exchange.aside entering.machine.z80.regs = exchange.front last.z80.regs := by
  have kept : exchange.aside last.z80.regs = exchange.front s.z80.regs := by
    rw [Exchange.run_spares run between, Exchange.step_aside leaves isSwitch]
  refine ⟨?_, kept, ?_, ?_⟩
  · exact Exchange.step_front leaves isSwitch
  · rw [Exchange.step_front enters isSwitch', kept]
  · exact Exchange.step_aside enters isSwitch'

/-- EXX, `LD B,7` and EXX, begun with B at 5. -/
theorem context_switch_exx : ∃ history last entering,
    Run (Act flatRam.toBus)
      { z80 := { regs := { b := 5 } }, host := programAt 0 [0xD9, 0x06, 7, 0xD9] 0 } history last ∧
    step flatRam.toBus 0 last = some entering ∧
    Exchange.general.front entering.machine.z80.regs = [5, 0, 0, 0, 0, 0] ∧
    Exchange.general.aside entering.machine.z80.regs = [7, 0, 0, 0, 0, 0] := by
  have run := Run.next (@Run.start _ _ (Act flatRam.toBus)
    { z80 := { regs := { b := 5 } }, host := programAt 0 [0xD9, 0x06, 7, 0xD9] 0 })
    (@Act.stepped _ _ _ 0 _ rfl)
  obtain ⟨-, -, front, aside⟩ := context_switch flatRam.toBus .general
    { z80 := { regs := { b := 5 } }, host := programAt 0 [0xD9, 0x06, 7, 0xD9] 0 } _ _ 0 0 _ _
    rfl rfl (Run.next .start (@Act.stepped _ _ _ 0 _ rfl))
    (fun result member => by
      obtain rfl := Action.stepped.inj (List.mem_singleton.mp member)
      exact nofun) rfl rfl
  exact ⟨_, _, _, run.next (@Act.stepped _ _ _ 0 _ rfl), rfl, front, aside⟩

end Z80f
