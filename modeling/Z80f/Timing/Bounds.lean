import Z80f.Encoding.Behind
import Z80f.Timing.Slices

/-! # How long a step can take

Behind its prefixes an instruction takes between 4 and 21 T-states.  So the time
that `run_for` takes too much has a bound, and slices do not drift. -/

set_option autoImplicit false

namespace Z80f

open Interaction Stateful Z80M

def Costs (less more : Int) (m : Z80M Int) : Prop :=
  ∀ cpu, m.Holds (fun t _ _ => less ≤ t ∧ t ≤ more) cpu

section Costs
variable {less more t : Int}

theorem Costs.bind {α : Type} {m : Z80M α} {f : α → Z80M Int} (costs : ∀ v, Costs less more (f v)) :
    Costs less more (m >>= f) := by
  intro cpu
  rw [holds_bind]
  exact Holds.intro m (fun v next _ => costs v next) cpu

theorem Costs.pure (above : less ≤ t) (below : t ≤ more) : Costs less more (pure t) :=
  fun _ => ⟨above, below⟩

theorem Costs.ite {condition : Prop} [Decidable condition] {yes no : Z80M Int}
    (taken : Costs less more yes) (untaken : Costs less more no) :
    Costs less more (if condition then yes else no) := by
  split
  · exact taken
  · exact untaken

theorem Costs.later {m : Z80M Int} (costs : Costs less more m) :
    Costs (t + less) (t + more) (do let cost ← m; return t + cost) := by
  intro cpu
  simp only [holds_bind, holds_pure]
  apply (costs cpu).mono
  intro cost _ _ bounds
  omega

variable (cond : Byte → Bool) (delta : Int) (repeats : Bool)

theorem branch_costs : Costs 4 21 (jrArm cond) ∧ Costs 4 21 (retArm cond) ∧
    Costs 4 21 (callArm cond) ∧ Costs 4 21 djnz := by
  unfold jrArm retArm callArm djnz
  refine ⟨?_, ?_, ?_, ?_⟩
  all_goals
    repeat first
      | exact Costs.pure (by decide) (by decide)
      | with_reducible apply Costs.ite
      | refine Costs.bind fun _ => ?_

theorem block_costs : Costs 4 21 (blockLd delta repeats) ∧ Costs 4 21 (blockCp delta repeats) ∧
    Costs 4 21 (blockIn delta repeats) ∧ Costs 4 21 (blockOut delta repeats) := by
  unfold blockLd blockCp blockIn blockOut
  refine ⟨?_, ?_, ?_, ?_⟩
  all_goals
    repeat first
      | exact Costs.pure (by decide) (by decide)
      | with_reducible apply Costs.ite
      | refine Costs.bind fun _ => ?_

theorem storeCb_costs (reg : Nat) (value : Byte) : Costs 4 21 (storeCb reg value) := by
  unfold storeCb
  apply Costs.ite
  all_goals
    repeat refine Costs.bind fun _ => ?_
    exact Costs.pure (by decide) (by decide)

theorem dispatchCb_costs : Costs 4 21 dispatchCb := by
  unfold dispatchCb
  refine Costs.bind fun op => ?_
  dsimp only
  repeat first
    | exact storeCb_costs _ _
    | exact Costs.pure (by split <;> decide) (by split <;> decide)
    | with_reducible apply Costs.ite
    | refine Costs.bind fun _ => ?_

theorem dispatchIndexCb_costs (x : IndexReg) : Costs 4 21 (dispatchIndexCb x) := by
  unfold dispatchIndexCb
  repeat first
    | exact Costs.pure (by decide) (by decide)
    | with_reducible apply Costs.ite
    | refine Costs.bind fun _ => ?_

theorem edArm_costs (op : Byte) : Costs 4 21 (edArm op) := by
  fun_cases edArm op
  all_goals
    first
    | with_reducible exact (block_costs _ _).1
    | with_reducible exact (block_costs _ _).2.1
    | with_reducible exact (block_costs _ _).2.2.1
    | with_reducible exact (block_costs _ _).2.2.2
    | repeat refine Costs.bind fun _ => ?_
      exact Costs.pure (by decide) (by decide)

theorem highArm_costs (op : Byte) (above : 4 ≤ t) (below : t ≤ 21) : Costs 4 21 (highArm op t) := by
  fun_cases highArm op t
  all_goals
    first
    | with_reducible exact (branch_costs _).2.1
    | with_reducible exact (branch_costs _).2.2.1
    | with_reducible exact dispatchCb_costs
    | exact Costs.bind fun op => edArm_costs op
    | repeat refine Costs.bind fun _ => ?_
      exact Costs.pure above below

theorem opcodeArm_costs (op : Byte) (above : 4 ≤ t) (below : t ≤ 21) :
    Costs 4 21 (opcodeArm op t) := by
  fun_cases opcodeArm op t
  all_goals
    first
    | with_reducible exact (branch_costs _).1
    | with_reducible exact (branch_costs fun _ => true).2.2.2
    | refine Costs.ite (Costs.bind fun _ => Costs.pure above below) ?_
      refine Costs.ite (Costs.bind fun _ => Costs.pure above below) ?_
      exact highArm_costs op above below
    | repeat refine Costs.bind fun _ => ?_
      exact Costs.pure above below

end Costs

theorem baseTFor_bounds : ∀ op : Byte, op ≠ 0xCB#8 → op ≠ 0xED#8 → isIndexPrefix op = false →
    4 ≤ baseTFor op ∧ baseTFor op ≤ 21 := by
  decide

theorem dispatchOpcode_costs (op : Byte) (single : isIndexPrefix op = false) :
    Costs 4 21 (dispatchOpcode op) := by
  refine Costs.bind fun _ => ?_
  by_cases cb : op = 0xCB#8
  · subst cb
    exact dispatchCb_costs
  · by_cases ed : op = 0xED#8
    · subst ed
      exact Costs.bind fun op => edArm_costs op
    · obtain ⟨above, below⟩ := baseTFor_bounds op cb ed single
      exact opcodeArm_costs op above below

theorem indexArm_costs (x : IndexReg) (op : Byte) (t : Int) (single : isIndexPrefix op = false) :
    Costs (t + 4) (t + 21) (indexArm x op t) := by
  by_cases listed : op ∈ indexOpcodes
  case neg =>
    rw [indexArm_unlisted x t listed]
    exact (dispatchOpcode_costs op single).later
  by_cases cb : op = 0xCB#8
  · subst cb
    exact (dispatchIndexCb_costs x).later
  fun_cases indexArm x op t
  all_goals
    first
    | exact absurd rfl cb
    | repeat refine Costs.bind fun _ => ?_
      exact Costs.pure (by omega) (by omega)
    | simp only [imp_false] at *
      simp only [indexOpcodes, List.mem_cons, List.not_mem_nil, or_false, *] at listed

/-- Index prefixes in front of the opcode that a step executed. -/
def prefixesOf {Host : Type} (result : Stepped Host) : Nat :=
  prefixCount (fetchedBytes (result.calls.map Exchange.answered))

def boundedRest : Rest := fun _ _ t _ _ _ => 4 ≤ t ∧ t ≤ 21

section Step
variable {Host : Type} {bus : Bus Host} {fuel : Nat} {s : Machine Host} {stepped : Stepped Host}

theorem instruction_bounds (returns : step bus fuel s = some stepped) {t : Int}
    (kind : stepped.kind = .instruction t) :
    4 ≤ t - 4 * prefixesOf stepped ∧ t - 4 * prefixesOf stepped ≤ 21 := by
  obtain ⟨settled, mid, head, tail, -, path, behind⟩ := step_behind boundedRest
    (fun op single mid => dispatchOpcode_costs op single mid)
    (fun x op t single mid => by
      apply (indexArm_costs x op t single mid).mono
      intro cost _ _ bounds
      constructor <;> omega)
    returns kind
  rw [prefixesOf, path]
  exact behind.holds

/-! ## The longest chain of prefixes -/

theorem consumePrefixes_longest (fuel : Nat) (x : IndexReg) (op : Byte) (t : Int) (cpu : Cpu) :
    (consumePrefixes fuel x op t).Holds (fun found _ _ => ∀ x' last t',
      found = some (x', last, t') → isIndexPrefix last = false ∧ t' ≤ t + 4 * fuel) cpu := by
  induction fuel generalizing x op t cpu with
  | zero =>
      by_cases more : isIndexPrefix op = true
      · simp [consumePrefixes, more]
      · rw [Bool.not_eq_true] at more
        simp only [consumePrefixes, more, Bool.false_eq_true, if_false, holds_pure]
        rintro _ _ _ ⟨rfl, rfl, rfl⟩
        exact ⟨more, by omega⟩
  | succ fuel ih =>
      by_cases more : isIndexPrefix op = true
      · simp only [consumePrefixes, more, if_true, holds_bind, holds_fetchOpcode]
        intro byte
        apply (ih (prefixReg op) byte (t + 4) cpu.opcodeFetched).mono
        intro found _ _ longest x' last t' eq
        obtain ⟨single, most⟩ := longest x' last t' eq
        exact ⟨single, by omega⟩
      · rw [Bool.not_eq_true] at more
        simp only [consumePrefixes, more, Bool.false_eq_true, if_false, holds_pure]
        rintro _ _ _ ⟨rfl, rfl, rfl⟩
        exact ⟨more, by omega⟩

theorem executeInstruction_longest (fuel : Nat) (cpu : Cpu) :
    (executeInstruction fuel).Holds (fun found _ _ => ∀ t, found = some (.instruction t) →
      t ≤ 25 + 4 * fuel) cpu := by
  rw [holds_executeInstruction]
  intro op
  by_cases isPrefix : isIndexPrefix op = true
  · rw [dispatchUnprefixed, if_pos isPrefix]
    simp only [dispatchIndex, holds_bind, holds_modifyRegs, holds_fetchOpcode]
    intro byte
    apply (consumePrefixes_longest fuel _ byte 4 _).mono
    intro found mid _ longest
    cases found with
    | none => simp
    | some found =>
        obtain ⟨x, last, t'⟩ := found
        obtain ⟨single, most⟩ := longest x last t' rfl
        simp only [holds_bind, holds_pure]
        apply (indexArm_costs x last t' single mid).mono
        rintro cost _ _ bounds t ⟨rfl⟩
        omega
  · rw [dispatchUnprefixed, if_neg isPrefix]
    rw [Bool.not_eq_true] at isPrefix
    simp only [holds_bind, holds_pure]
    apply (dispatchOpcode_costs op isPrefix _).mono
    rintro cost _ _ bounds t ⟨rfl⟩
    omega

theorem StepCase.interrupt_cost {cpu next : Cpu} {path : Path} :
    (StepCase cpu .nmi next path → nominal path = 11) ∧
      (StepCase cpu .int next path → nominal path = if cpu.regs.im = 2 then 19 else 13) ∧
      (StepCase cpu .halted next path → nominal path = 4) := by
  refine ⟨fun case => ?_, fun case => ?_, fun case => ?_⟩
  · cases case with
    | nmi pending => rfl
  · cases case with
    | int noNmi accepts databus pc wz tail vectored =>
        have entry : nominal (intPath cpu.regs databus) = 13 := rfl
        rw [nominal_append, entry]
        cases vectored with
        | mode0 im => rw [im]; rfl
        | mode1 im => rw [im]; rfl
        | mode2 im low high => rw [im]; rfl
        | other not0 not1 not2 => rw [if_neg not2]; rfl
  · cases case with
    | halted noNmi noInt halted v => rfl

theorem step_nominal_bounds (returns : step bus fuel s = some stepped) :
    let cost := nominal (stepped.calls.map Exchange.answered)
    4 ≤ cost ∧ cost ≤ 25 + 4 * fuel := by
  intro cost
  have case := step_case returns
  obtain ⟨nmi, int, halted⟩ := @StepCase.interrupt_cost s.z80.toCpu stepped.machine.z80.toCpu
    (stepped.calls.map Exchange.answered)
  rcases kind : stepped.kind with _ | _ | _ | t
  · rw [kind] at case
    have spent : cost = 11 := nmi case
    omega
  · rw [kind] at case
    have spent : cost = if s.z80.regs.im = 2 then 19 else 13 := int case
    split at spent <;> omega
  · rw [kind] at case
    have spent : cost = 4 := halted case
    omega
  · have longest : (stepBody fuel).Holds (fun found _ _ => ∀ t,
        found = some (.instruction t) → t ≤ 25 + 4 * fuel) s.z80.toCpu := by
      rw [holds_stepBody]
      refine ⟨fun _ => by simp, fun _ _ _ => Holds.intro _ (by simp) _, fun _ _ => ?_⟩
      rw [holds_haltOrExecute]
      exact ⟨fun _ _ => by simp, fun _ => executeInstruction_longest fuel _⟩
    have most := Holds.step longest returns t (congrArg some kind)
    have least := (instruction_bounds returns kind).1
    have spent : cost = t := step_nominal returns kind
    constructor <;> omega

end Step

/-- What a step costs without its waits, on every host and in every state: an
NMI 11, an INT 13 or in mode 2 19, a halted cycle 4, and an instruction between 4
and 21 behind its index prefixes, which cost 4 each. -/
theorem step_bounds {Host : Type} (bus : Bus Host) (fuel : Nat) (s : Machine Host)
    (stepped : Stepped Host) (returns : step bus fuel s = some stepped) :
    let cost := nominal (stepped.calls.map Exchange.answered)
    match stepped.kind with
    | .nmi => cost = 11
    | .int => cost = if s.z80.regs.im = 2 then 19 else 13
    | .halted => cost = 4
    | .instruction t => cost = t ∧
        4 + 4 * (prefixesOf stepped : Int) ≤ t ∧ t ≤ 21 + 4 * (prefixesOf stepped : Int) := by
  have case := step_case returns
  obtain ⟨nmi, int, halted⟩ := @StepCase.interrupt_cost s.z80.toCpu stepped.machine.z80.toCpu
    (stepped.calls.map Exchange.answered)
  rcases kind : stepped.kind with _ | _ | _ | t
  · rw [kind] at case
    exact nmi case
  · rw [kind] at case
    exact int case
  · rw [kind] at case
    exact halted case
  · obtain ⟨-, accounted⟩ := Holds.step (stepBody_accounted fuel s.z80.toCpu) returns _ rfl
    obtain ⟨above, below⟩ := instruction_bounds returns kind
    exact ⟨accounted t kind, by omega, by omega⟩

/-- LDIR with more to come behind a DD: 4 and 21. -/
theorem step_bounds_ldir : ∃ stepped t, step flatRam.toBus 1
      { z80 := { regs := { b := 1 } }, host := programAt 0 [0xDD, 0xED, 0xB0] 0 } = some stepped ∧
    stepped.kind = .instruction t ∧ 8 ≤ t ∧ t ≤ 25 := by
  have bounds := step_bounds flatRam.toBus 1
    { z80 := { regs := { b := 1 } }, host := programAt 0 [0xDD, 0xED, 0xB0] 0 } _ rfl
  exact ⟨_, 25, rfl, rfl, bounds.2⟩

theorem Except.bind_eq_ok {ε α β : Type} {m : Except ε α} {f : α → Except ε β} {b : β}
    (returns : (m >>= f) = .ok b) : ∃ a, m = .ok a ∧ f a = .ok b := by
  cases m with
  | error stuck => cases returns
  | ok a => exact ⟨a, rfl, returns⟩

/-- From `s` on no step executes more than `prefixes` index prefixes or waits
longer than `waits`. -/
def Prompt {Host : Type} (bus : Bus Host) (fuel : Nat) (s : Machine Host) (prefixes waits : Nat) :
    Prop :=
  ∀ count ran stepped, stepTimes bus fuel count s = some ran →
    step bus fuel ran.machine = some stepped →
    prefixesOf stepped ≤ prefixes ∧ waitsOn stepped.calls ≤ waits

/-- The longest step of such a program. -/
def longestStep (prefixes waits : Nat) : Int := 21 + 4 * prefixes + waits

section Prompt
variable {Host : Type} {bus : Bus Host} {fuel steps : Nat} {s : Machine Host} {prefixes waits : Nat}

theorem Prompt.later (prompt : Prompt bus fuel s prefixes waits) {count : Nat}
    {ran : Ran Host Int} (reached : stepTimes bus fuel count s = some ran) :
    Prompt bus fuel ran.machine prefixes waits := by
  intro more later stepped returns stepReturns
  apply prompt (count + more) (ran.andThen later) stepped _ stepReturns
  rw [stepTimes_add, reached, Option.bind_some, returns, Option.map_some]

variable (waitsNonneg : ∀ cycles address tStates host,
    0 ≤ (bus.onMCycle cycles address tStates host).1)
  (small : longestStep prefixes waits ≤ 2147483647)
include waitsNonneg small

theorem Prompt.step (prompt : Prompt bus fuel s prefixes waits) {stepped : Stepped Host}
    (returns : step bus fuel s = some stepped) :
    stepped.returned ≤ longestStep prefixes waits := by
  obtain ⟨few, short⟩ := prompt 0 ⟨0, s, []⟩ stepped rfl returns
  have bounds := step_bounds bus fuel s stepped returns
  have cost : nominal (stepped.calls.map Exchange.answered) ≤ 21 + 4 * prefixes := by
    revert bounds
    dsimp only
    split
    · omega
    · split <;> omega
    · omega
    · omega
  have spent : spentOn stepped.calls ≤ longestStep prefixes waits := by
    rw [spentOn_eq, longestStep]
    omega
  rw [step_returned_fits waitsNonneg returns (by omega)]
  exact spent

theorem Prompt.runFor (prompt : Prompt bus fuel s prefixes waits) {budget : Int}
    {found : Ran Host Int} (returns : runFor bus fuel steps budget s = .ok found) :
    (∃ count ran, stepTimes bus fuel count s = some ran ∧ ran.machine = found.machine) ∧
      budget ≤ found.value ∧ (budget ≤ 0 → found.value = 0) ∧
      (0 < budget → found.value < budget + longestStep prefixes waits) := by
  obtain ⟨-, count, ran, reaches, rfl⟩ := runForLoop_reaches returns rfl
  rw [Int.sub_zero] at reaches
  have enough := reaches.enough
  refine ⟨⟨count, ran, reaches.returns, rfl⟩, ?_, fun reached => ?_, fun short => ?_⟩
  · dsimp only
    omega
  · obtain ⟨-, rfl⟩ := reaches.unique (.now reached)
    rfl
  · cases count with
    | zero =>
        obtain rfl := Option.some.inj reaches.returns
        dsimp only at enough
        omega
    | succ count =>
        obtain ⟨before, stepped, beforeReturns, stepReturns, rfl⟩ := stepTimes_last reaches.returns
        have least := reaches.least count (Nat.lt_succ_self count) before beforeReturns
        have last := (prompt.later beforeReturns).step waitsNonneg small stepReturns
        dsimp only
        omega

/-- What is carried from slice to slice stays below the longest step. -/
theorem Prompt.runSlices (slices : List Int) (prompt : Prompt bus fuel s prefixes waits)
    {carried : Int} (nonneg : 0 ≤ carried) (short : carried < longestStep prefixes waits)
    (positive : ∀ slice ∈ slices, 0 ≤ slice) {whole : Ran Host Int}
    (returns : runSlices bus fuel steps slices carried s = .ok whole) :
    slices.sum ≤ carried + whole.value ∧
      carried + whole.value < slices.sum + longestStep prefixes waits := by
  induction slices generalizing s carried whole with
  | nil =>
      rw [Z80f.runSlices] at returns
      cases returns
      rw [List.sum_nil]
      constructor <;> dsimp only <;> omega
  | cons slice slices ih =>
      rw [Z80f.runSlices] at returns
      obtain ⟨ran, loop, rest⟩ := Except.bind_eq_ok returns
      obtain ⟨later, laterReturns, whole⟩ := Except.bind_eq_ok rest
      cases whole
      obtain ⟨⟨count, reached, returned, same⟩, enough, none, below⟩ :=
        prompt.runFor waitsNonneg small loop
      have here := positive slice List.mem_cons_self
      have others : ∀ other ∈ slices, 0 ≤ other := fun other member =>
        positive other (List.mem_cons_of_mem _ member)
      have onward := prompt.later returned
      rw [same] at onward
      have carriedShort : ran.value - (slice - carried) < longestStep prefixes waits := by
        by_cases more : 0 < slice - carried
        · have within := below more
          omega
        · have still := none (by omega)
          omega
      obtain ⟨least, most⟩ := ih onward (by omega) carriedShort others laterReturns
      rw [List.sum_cons]
      constructor <;> dsimp only [Ran.andThen] <;> omega

end Prompt

theorem step_waits {Host : Type} {bus : Bus Host} {fuel : Nat} {s : Machine Host}
    {stepped : Stepped Host} (waitsNonneg : ∀ cycles address tStates host,
      0 ≤ (bus.onMCycle cycles address tStates host).1)
    (returns : step bus fuel s = some stepped) : 0 ≤ waitsOn stepped.calls := by
  apply List.sum_nonneg
  intro wait member
  obtain ⟨call, present, rfl⟩ := List.mem_map.mp member
  rw [(step_returns returns).2.2.1] at present
  exact exec_waits waitsNonneg _ _ call present

theorem step_noWaits {Host : Type} {bus : Bus Host} {fuel : Nat} {s : Machine Host}
    {stepped : Stepped Host} (noWaits : ∀ cycles address tStates host,
      (bus.onMCycle cycles address tStates host).1 = 0)
    (returns : step bus fuel s = some stepped) : waitsOn stepped.calls = 0 := by
  have still : ∀ call ∈ stepped.calls, call.note.waits = 0 := by
    rw [(step_returns returns).2.2.1]
    apply Program.run_log
    intro request state
    cases request with
    | machineCycle address tStates => exact noWaits _ _ _ _
    | readMemory | writeMemory | readIo | writeIo | acknowledgeInterrupt => rfl
  apply List.sum_eq_zero
  intro wait member
  obtain ⟨call, present, rfl⟩ := List.mem_map.mp member
  exact still call present

theorem StepCase.wasHalted {cpu next : Cpu} {path : Path} (case : StepCase cpu .halted next path) :
    cpu.regs.halted = true := by
  cases case with
  | halted noNmi noInt halted v => exact halted

theorem RunsNops.prompt {s : Machine Memory} (runs : RunsNops s) (fuel : Nat) :
    Prompt flatRam.toBus fuel s 0 0 := by
  intro count ran stepped reached returns
  have still := (runs.stepTimes reached).2
  obtain ⟨stepped', returns', spent, -⟩ := still.step fuel
  obtain rfl := Option.some.inj (returns.symm.trans returns')
  have waits := step_waits flatRam.waits_nonneg returns
  have bounds := step_bounds flatRam.toBus fuel ran.machine stepped returns
  have case := step_case returns
  rw [spentOn_eq] at spent
  dsimp only at bounds
  rcases kind : stepped.kind with _ | _ | _ | t
  · rw [kind] at bounds
    dsimp only at bounds
    omega
  · rw [kind] at bounds
    dsimp only at bounds
    split at bounds <;> omega
  · rw [kind] at case
    exact absurd (case.wasHalted.symm.trans still.executes.running) (by decide)
  · rw [kind] at bounds
    dsimp only at bounds
    omega

end Z80f
