import Z80f.Block.Rounds

/-! # `run_for` with its `int` accumulator

The sum of the costs is an `int`, and an addition that leaves its range has no
meaning.  The loop ends at the least number of steps that reach the budget, and
it gets there exactly when the sum still fits; so a budget may be divided. -/

set_option autoImplicit false

namespace Z80f

open Interaction Stateful

def Ran.andThen {Host : Type} (first second : Ran Host Int) : Ran Host Int :=
  ⟨first.value + second.value, second.machine, first.calls ++ second.calls⟩

section Times
variable {Host : Type} {bus : Bus Host} {fuel : Nat} {s : Machine Host}

theorem stepTimes_add (m n : Nat) :
    stepTimes bus fuel (m + n) s =
      (stepTimes bus fuel m s).bind fun first =>
        (stepTimes bus fuel n first.machine).map first.andThen := by
  induction m generalizing s with
  | zero =>
      rw [Nat.zero_add, stepTimes, Option.bind_some]
      cases stepTimes bus fuel n s with
      | none => rfl
      | some ran => simp only [Option.map_some, Ran.andThen, zero_add, List.nil_append]
  | succ m ih =>
      rw [Nat.succ_add, stepTimes, stepTimes]
      cases step bus fuel s with
      | none => rfl
      | some stepped =>
          simp only [Option.bind_some, ih]
          cases stepTimes bus fuel m stepped.machine with
          | none => rfl
          | some first =>
              simp only [Option.bind_some, Option.map_some]
              cases stepTimes bus fuel n first.machine with
              | none => rfl
              | some second =>
                  simp only [Option.map_some, Ran.andThen, add_assoc, List.append_assoc]

theorem stepTimes_first {count : Nat} {ran : Ran Host Int}
    (returns : stepTimes bus fuel (count + 1) s = some ran) :
    ∃ stepped rest, step bus fuel s = some stepped ∧
      stepTimes bus fuel count stepped.machine = some rest ∧
      ran = ⟨stepped.returned + rest.value, rest.machine, stepped.calls ++ rest.calls⟩ := by
  rw [stepTimes] at returns
  obtain ⟨stepped, stepReturns, others⟩ := Option.bind_eq_some_iff.mp returns
  obtain ⟨rest, restReturns, rfl⟩ := Option.map_eq_some_iff.mp others
  exact ⟨stepped, rest, stepReturns, restReturns, rfl⟩

theorem stepTimes_last {count : Nat} {ran : Ran Host Int}
    (returns : stepTimes bus fuel (count + 1) s = some ran) :
    ∃ before stepped, stepTimes bus fuel count s = some before ∧
      step bus fuel before.machine = some stepped ∧
      ran = ⟨before.value + stepped.returned, stepped.machine,
        before.calls ++ stepped.calls⟩ := by
  rw [stepTimes_add] at returns
  obtain ⟨before, beforeReturns, last⟩ := Option.bind_eq_some_iff.mp returns
  obtain ⟨only, onlyReturns, rfl⟩ := Option.map_eq_some_iff.mp last
  obtain ⟨stepped, rest, stepReturns, restReturns, rfl⟩ := stepTimes_first onlyReturns
  obtain rfl := Option.some.inj restReturns
  refine ⟨before, stepped, beforeReturns, stepReturns, ?_⟩
  simp only [Ran.andThen, add_zero, List.append_nil]

theorem spentOn_append (calls later : List BusCall) :
    spentOn (calls ++ later) = spentOn calls + spentOn later := by
  simp only [spentOn, List.map_append, List.sum_append]

theorem stepTimes_cycles {count : Nat} {ran : Ran Host Int}
    (returns : stepTimes bus fuel count s = some ran) :
    ran.machine.z80.cycles = s.z80.cycles + BitVec.ofInt 64 (spentOn ran.calls) := by
  induction count generalizing ran with
  | zero =>
      obtain rfl := Option.some.inj returns
      exact (BitVec.add_zero _).symm
  | succ count ih =>
      obtain ⟨before, stepped, beforeReturns, stepReturns, rfl⟩ := stepTimes_last returns
      dsimp only
      rw [step_cycles stepReturns, ih beforeReturns, spentOn_append, BitVec.ofInt_add, add_assoc]

section Waits
variable (waitsNonneg : ∀ cycles address tStates host,
  0 ≤ (bus.onMCycle cycles address tStates host).1)
include waitsNonneg

theorem stepTimes_takes_time {count : Nat} {ran : Ran Host Int}
    (returns : stepTimes bus fuel count s = some ran) : (count : Int) ≤ spentOn ran.calls := by
  induction count generalizing ran with
  | zero =>
      obtain rfl := Option.some.inj returns
      exact le_refl 0
  | succ count ih =>
      obtain ⟨before, stepped, beforeReturns, stepReturns, rfl⟩ := stepTimes_last returns
      have earlier := ih beforeReturns
      have positive := step_takes_time waitsNonneg stepReturns
      rw [spentOn_append]
      omega

theorem stepTimes_time_mono {less count : Nat} {early ran : Ran Host Int} (le : less ≤ count)
    (sooner : stepTimes bus fuel less s = some early)
    (later : stepTimes bus fuel count s = some ran) :
    spentOn early.calls ≤ spentOn ran.calls := by
  obtain ⟨more, rfl⟩ := Nat.exists_eq_add_of_le le
  rw [stepTimes_add, sooner, Option.bind_some] at later
  obtain ⟨second, secondReturns, rfl⟩ := Option.map_eq_some_iff.mp later
  have positive := stepTimes_takes_time waitsNonneg secondReturns
  dsimp only [Ran.andThen]
  rw [spentOn_append]
  omega

theorem step_returned_fits {stepped : Stepped Host} (returns : step bus fuel s = some stepped)
    (fits : spentOn stepped.calls ≤ 2147483647) : stepped.returned = spentOn stepped.calls := by
  rw [step_returned returns]
  exact toInt32_ofInt (step_takes_time waitsNonneg returns).le (by omega)

/-- A total that fits an `int` is the sum of what the steps return. -/
theorem stepTimes_value {count : Nat} {ran : Ran Host Int}
    (returns : stepTimes bus fuel count s = some ran)
    (fits : spentOn ran.calls ≤ 2147483647) : ran.value = spentOn ran.calls := by
  induction count generalizing ran with
  | zero =>
      obtain rfl := Option.some.inj returns
      rfl
  | succ count ih =>
      obtain ⟨before, stepped, beforeReturns, stepReturns, rfl⟩ := stepTimes_last returns
      have earlier := stepTimes_takes_time waitsNonneg beforeReturns
      have positive := step_takes_time waitsNonneg stepReturns
      rw [spentOn_append] at fits ⊢
      rw [ih beforeReturns (by omega), step_returned_fits waitsNonneg stepReturns (by omega)]

end Waits
end Times

/-! ## The loop -/

/-- The least number of steps whose costs reach the budget. -/
structure Reaches {Host : Type} (bus : Bus Host) (fuel : Nat) (s : Machine Host) (budget : Int)
    (count : Nat) (ran : Ran Host Int) : Prop where
  returns : stepTimes bus fuel count s = some ran
  enough : budget ≤ ran.value
  least : ∀ fewer < count, ∀ early, stepTimes bus fuel fewer s = some early → early.value < budget

section Reaches
variable {Host : Type} {bus : Bus Host} {fuel : Nat} {s : Machine Host} {budget : Int}

theorem Reaches.now (reached : budget ≤ 0) : Reaches bus fuel s budget 0 ⟨0, s, []⟩ :=
  ⟨rfl, reached, fun fewer before => absurd before (Nat.not_lt_zero fewer)⟩

theorem Reaches.first {count : Nat} {stepped : Stepped Host} {rest : Ran Host Int}
    (short : 0 < budget) (returns : step bus fuel s = some stepped)
    (later : Reaches bus fuel stepped.machine (budget - stepped.returned) count rest) :
    Reaches bus fuel s budget (count + 1)
      ⟨stepped.returned + rest.value, rest.machine, stepped.calls ++ rest.calls⟩ := by
  refine ⟨?_, ?_, ?_⟩
  · rw [stepTimes, returns, Option.bind_some, later.returns, Option.map_some]
  · have enough := later.enough
    dsimp only
    omega
  · intro fewer before early earlyReturns
    cases fewer with
    | zero =>
        obtain rfl := Option.some.inj earlyReturns
        exact short
    | succ fewer =>
        obtain ⟨stepped', rest', returns', restReturns, rfl⟩ := stepTimes_first earlyReturns
        obtain rfl := Option.some.inj (returns.symm.trans returns')
        have least := later.least fewer (by omega) rest' restReturns
        dsimp only
        omega

theorem Reaches.soonest {count count' : Nat} {ran ran' : Ran Host Int}
    (reaches : Reaches bus fuel s budget count ran)
    (returns : stepTimes bus fuel count' s = some ran') (enough : budget ≤ ran'.value) :
    count ≤ count' := by
  by_contra after
  have short := reaches.least count' (by omega) ran' returns
  omega

theorem Reaches.unique {count count' : Nat} {ran ran' : Ran Host Int}
    (left : Reaches bus fuel s budget count ran) (right : Reaches bus fuel s budget count' ran') :
    count = count' ∧ ran = ran' := by
  have same := Nat.le_antisymm (left.soonest right.returns right.enough)
    (right.soonest left.returns left.enough)
  subst same
  exact ⟨rfl, Option.some.inj (left.returns.symm.trans right.returns)⟩

theorem Reaches.rest {less : Int} {count count' : Nat} {first whole : Ran Host Int}
    (le : less ≤ budget) (sooner : Reaches bus fuel s less count first)
    (later : Reaches bus fuel s budget count' whole) :
    ∃ second, Reaches bus fuel first.machine (budget - first.value) (count' - count) second ∧
      whole = first.andThen second := by
  have fewer := sooner.soonest later.returns (le.trans later.enough)
  obtain ⟨more, rfl⟩ := Nat.exists_eq_add_of_le fewer
  have returns := later.returns
  rw [stepTimes_add, sooner.returns, Option.bind_some] at returns
  obtain ⟨second, secondReturns, rfl⟩ := Option.map_eq_some_iff.mp returns
  rw [Nat.add_sub_cancel_left]
  refine ⟨second, ⟨secondReturns, ?_, ?_⟩, rfl⟩
  · have enough := later.enough
    dsimp only [Ran.andThen] at enough
    omega
  · intro fewer before early earlyReturns
    have joined : stepTimes bus fuel (count + fewer) s = some (first.andThen early) := by
      rw [stepTimes_add, sooner.returns, Option.bind_some, earlyReturns, Option.map_some]
    have short := later.least (count + fewer) (by omega) _ joined
    dsimp only [Ran.andThen] at short
    omega

end Reaches

section Loop
variable {Host : Type} {bus : Bus Host} {fuel steps : Nat} {s : Machine Host}
  {tStates total : Int}

/-- The loop ends at the least number of steps that reach the budget, with the
accumulator in range. -/
theorem runForLoop_reaches {found : Ran Host Int}
    (returns : runForLoop bus fuel tStates steps total s = .ok found)
    (inRange : fitsInt total = true) :
    fitsInt found.value = true ∧ ∃ count ran, Reaches bus fuel s (tStates - total) count ran ∧
      found = ⟨total + ran.value, ran.machine, ran.calls⟩ := by
  revert inRange
  refine runForLoop_induction (motive := fun total s found => fitsInt total = true →
    fitsInt found.value = true ∧ ∃ count ran, Reaches bus fuel s (tStates - total) count ran ∧
      found = ⟨total + ran.value, ran.machine, ran.calls⟩) ?_ ?_ returns
  · intro total s reached inRange
    exact ⟨inRange, 0, _, .now (by omega), by rw [Int.add_zero]⟩
  · intro total s stepped later short stepReturns fits ih _
    obtain ⟨laterFits, count, ran, reaches, rfl⟩ := ih fits
    rw [← Int.sub_sub] at reaches
    refine ⟨laterFits, count + 1, _, reaches.first (by omega) stepReturns, ?_⟩
    rw [Int.add_assoc]

/-- The loop returns when some number of steps takes it from the budget to no
further than the end of the `int`. -/
theorem runForLoop_returns (waitsNonneg : ∀ cycles address tStates host,
      0 ≤ (bus.onMCycle cycles address tStates host).1) {count : Nat} {ran : Ran Host Int}
    (returns : stepTimes bus fuel count s = some ran) (nonneg : 0 ≤ total)
    (enough : tStates ≤ total + spentOn ran.calls)
    (fits : total + spentOn ran.calls ≤ 2147483647) (le : count ≤ steps) :
    ∃ found, runForLoop bus fuel tStates steps total s = .ok found := by
  induction count generalizing total s ran steps with
  | zero =>
      obtain rfl := Option.some.inj returns
      have reached : ¬ total < tStates := by
        have none : spentOn [] = 0 := rfl
        dsimp only at enough
        omega
      exact ⟨_, runForLoop_done reached⟩
  | succ count ih =>
      by_cases short : total < tStates
      · obtain ⟨stepped, rest, stepReturns, restReturns, rfl⟩ := stepTimes_first returns
        obtain ⟨steps, rfl⟩ : ∃ n, steps = n + 1 := ⟨steps - 1, by omega⟩
        have positive := step_takes_time waitsNonneg stepReturns
        have later := stepTimes_takes_time waitsNonneg restReturns
        dsimp only at enough fits
        rw [spentOn_append] at enough fits
        have returned := step_returned_fits waitsNonneg stepReturns (by omega)
        have still : 0 ≤ total + stepped.returned := by omega
        obtain ⟨found, loop⟩ := ih restReturns still (by omega) (by omega)
          (Nat.le_of_succ_le_succ le)
        have inRange : fitsInt (total + stepped.returned) = true := by
          rw [fitsInt_iff]
          omega
        exact ⟨_, (runForLoop_round short).mpr ⟨stepped, found, stepReturns, inRange, loop, rfl⟩⟩
      · exact ⟨_, runForLoop_done short⟩

end Loop

/-! ## The documented contract -/

/-- `run_for` returns, at least the budget, and what it returns is the advance of
the cycle counter. -/
def KeepsContract {Host : Type} (bus : Bus Host) (s : Machine Host) (tStates : Int) : Prop :=
  ∃ fuel steps ran, runFor bus fuel steps tStates s = .ok ran ∧ tStates ≤ ran.value ∧
    ((ran.machine.z80.cycles - s.z80.cycles).toNat : Int) = ran.value

/-- From `s` on every step returns, at a cost below `2 ^ 16`. -/
structure StepsShortly {Host : Type} (bus : RamBus Host) (s : Machine Host) : Prop where
  returns : ∀ fuel count ran, stepTimes bus.toBus fuel count s = some ran →
    ∃ fuel' stepped, step bus.toBus fuel' ran.machine = some stepped
  cost : ∀ fuel count ran stepped, stepTimes bus.toBus fuel count s = some ran →
    step bus.toBus fuel ran.machine = some stepped → spentOn stepped.calls < 65536

section Contract
variable {Host : Type} {bus : RamBus Host} {s : Machine Host}

theorem StepsShortly.value (shortly : StepsShortly bus s) {fuel count : Nat} {ran : Ran Host Int}
    (returns : stepTimes bus.toBus fuel count s = some ran) : ran.value = spentOn ran.calls := by
  induction count generalizing ran with
  | zero =>
      obtain rfl := Option.some.inj returns
      rfl
  | succ count ih =>
      obtain ⟨before, stepped, beforeReturns, stepReturns, rfl⟩ := stepTimes_last returns
      have cost := shortly.cost fuel count before stepped beforeReturns stepReturns
      rw [spentOn_append, ih beforeReturns,
        step_returned_fits bus.waits_nonneg stepReturns (by omega)]

theorem StepsShortly.reach (shortly : StepsShortly bus s) (budget : Nat) :
    ∃ count ran, stepTimes bus.toBus 65536 count s = some ran ∧
      (budget : Int) ≤ spentOn ran.calls ∧ spentOn ran.calls ≤ budget + 65534 := by
  induction budget with
  | zero =>
      have none : spentOn [] = 0 := rfl
      refine ⟨0, ⟨0, s, []⟩, rfl, ?_, ?_⟩ <;>
      · dsimp only
        omega
  | succ budget ih =>
      obtain ⟨count, ran, returns, enough, close⟩ := ih
      by_cases reached : ((budget + 1 : Nat) : Int) ≤ spentOn ran.calls
      · exact ⟨count, ran, returns, reached, by omega⟩
      · obtain ⟨stepped, stepReturns⟩ := (step_returns_iff bus 65536 ran.machine le_rfl).mpr
          ((returns_iff bus ran.machine).mp (shortly.returns _ _ _ returns))
        have positive := step_takes_time bus.waits_nonneg stepReturns
        have cost := shortly.cost _ _ _ _ returns stepReturns
        refine ⟨count + 1, _, stepTimes_succ returns stepReturns, ?_, ?_⟩ <;>
        · dsimp only
          rw [spentOn_append]
          omega

theorem stepTimes_advance {fuel count : Nat} {ran : Ran Host Int}
    (returns : stepTimes bus.toBus fuel count s = some ran)
    (fits : spentOn ran.calls ≤ 2147483647) :
    ((ran.machine.z80.cycles - s.z80.cycles).toNat : Int) = spentOn ran.calls := by
  have nonneg := stepTimes_takes_time bus.waits_nonneg returns
  rw [stepTimes_cycles returns, add_sub_cancel_left, BitVec.toNat_ofInt]
  omega

theorem KeepsContract.fits (shortly : StepsShortly bus s) {tStates : Int}
    (keeps : KeepsContract bus.toBus s tStates) :
    ∃ fuel count ran, stepTimes bus.toBus fuel count s = some ran ∧
      tStates ≤ spentOn ran.calls ∧ spentOn ran.calls ≤ 2147483647 := by
  obtain ⟨fuel, steps, found, loop, enough, -⟩ := keeps
  obtain ⟨inRange, count, ran, reaches, rfl⟩ := runForLoop_reaches loop rfl
  have value := shortly.value reaches.returns
  rw [fitsInt_iff] at inRange
  refine ⟨fuel, count, ran, reaches.returns, ?_, ?_⟩ <;>
  · dsimp only at enough inRange
    omega

theorem KeepsContract.of_fits {tStates : Int} {fuel count : Nat} {ran : Ran Host Int}
    (returns : stepTimes bus.toBus fuel count s = some ran) (enough : tStates ≤ spentOn ran.calls)
    (fits : spentOn ran.calls ≤ 2147483647) : KeepsContract bus.toBus s tStates := by
  have value := stepTimes_value bus.waits_nonneg returns fits
  have loops : ∃ found, runForLoop bus.toBus fuel tStates count 0 s = .ok found :=
    runForLoop_returns bus.waits_nonneg returns le_rfl (by omega) (by omega) le_rfl
  obtain ⟨found, loop⟩ := loops
  obtain ⟨-, least, early, reaches, same⟩ := runForLoop_reaches loop rfl
  rw [Int.sub_zero] at reaches
  rw [Int.zero_add] at same
  subst same
  have le := reaches.soonest returns (by omega)
  have time := stepTimes_time_mono bus.waits_nonneg le reaches.returns returns
  have early_value := stepTimes_value bus.waits_nonneg reaches.returns (by omega)
  refine ⟨fuel, count, _, loop, reaches.enough, ?_⟩
  dsimp only
  rw [stepTimes_advance reaches.returns (by omega), early_value]

end Contract

structure RunsNops (s : Machine Memory) : Prop where
  executes : s.z80.Executes
  quiet : s.z80.intLine = false
  nops : s.host = fun _ => 0

theorem RunsNops.step {s : Machine Memory} (runs : RunsNops s) (fuel : Nat) :
    ∃ stepped, step flatRam.toBus fuel s = some stepped ∧ spentOn stepped.calls = 4 ∧
      RunsNops stepped.machine := by
  have here : flatRam.memory s.host s.z80.regs.pc = 0x00#8 := congrFun runs.nops _
  obtain ⟨stepped, t, tail, returns, kind, -, ⟨rfl, rfl, executes, quiet⟩, memory⟩ :=
    flatRam.step_opcode fuel runs.executes here
      (fun t next tail => t = 4 ∧ tail = [] ∧ next.Executes ∧ next.intLine = false) rfl (by
        have arm : dispatchOpcode 0x00#8 = pure 4 := rfl
        rw [arm, holds_pure, Cpu.opened_settleQ]
        intro reads
        have noLine : (s.z80.intLine && s.z80.regs.iff1) = false := by
          rw [runs.quiet, Bool.false_and]
        exact ⟨rfl, rfl, runs.executes.next rfl noLine rfl rfl, runs.quiet⟩)
  refine ⟨stepped, returns, step_spent_noWaits (fun _ _ _ _ => rfl) returns kind, executes, quiet,
    ?_⟩
  exact memory.trans runs.nops

theorem RunsNops.stepTimes {s : Machine Memory} (runs : RunsNops s) {fuel count : Nat}
    {ran : Ran Memory Int} (returns : stepTimes flatRam.toBus fuel count s = some ran) :
    spentOn ran.calls = 4 * count ∧ RunsNops ran.machine := by
  induction count generalizing ran with
  | zero =>
      obtain rfl := Option.some.inj returns
      exact ⟨rfl, runs⟩
  | succ count ih =>
      obtain ⟨before, stepped, beforeReturns, stepReturns, rfl⟩ := stepTimes_last returns
      obtain ⟨spent, still⟩ := ih beforeReturns
      obtain ⟨stepped', returns', cost, later⟩ := still.step fuel
      obtain rfl := Option.some.inj (stepReturns.symm.trans returns')
      refine ⟨?_, later⟩
      rw [spentOn_append]
      omega

theorem RunsNops.shortly {s : Machine Memory} (runs : RunsNops s) : StepsShortly flatRam s := by
  constructor
  · intro fuel count ran returns
    obtain ⟨stepped, stepReturns, -⟩ := (runs.stepTimes returns).2.step fuel
    exact ⟨fuel, stepped, stepReturns⟩
  · intro fuel count ran stepped returns stepReturns
    obtain ⟨stepped', returns', cost, -⟩ := (runs.stepTimes returns).2.step fuel
    obtain rfl := Option.some.inj (stepReturns.symm.trans returns')
    omega

/-- Four T-states short of the end of the `int` one more NOP leaves it. -/
theorem RunsNops.overflows {s : Machine Memory} (runs : RunsNops s) (fuel rounds : Nat)
    {total : Int} (nonneg : 0 ≤ total) (left : total = 2147483644 - 4 * rounds) :
    runForLoop flatRam.toBus fuel 2147483647 (rounds + 1) total s = .error .overflow := by
  induction rounds generalizing s total with
  | zero =>
      obtain ⟨stepped, returns, cost, -⟩ := runs.step fuel
      have returned := step_returned_fits flatRam.waits_nonneg returns (by omega)
      have past : fitsInt (total + stepped.returned) = false := by
        rw [returned, cost, left]
        rfl
      rw [runForLoop, if_pos (by omega), returns]
      dsimp only
      rw [if_neg (Bool.eq_false_iff.mp past)]
  | succ rounds ih =>
      obtain ⟨stepped, returns, cost, later⟩ := runs.step fuel
      have returned := step_returned_fits flatRam.waits_nonneg returns (by omega)
      have inRange : fitsInt (total + stepped.returned) = true := by
        rw [fitsInt_iff]
        omega
      rw [runForLoop, if_pos (by omega), returns]
      dsimp only
      rw [if_pos inRange, ih later (by omega) (by omega)]
      rfl

/-- On RAM, when every step returns at a cost below `2 ^ 16`: the contract holds
of exactly the budgets from which some number of steps stays within the `int`,
and so of every budget a longest step below its end. -/
theorem runFor_contract_iff {Host : Type} (bus : RamBus Host) (s : Machine Host)
    (shortly : StepsShortly bus s) (tStates : Int) :
    (KeepsContract bus.toBus s tStates ↔
      ∃ fuel count ran, stepTimes bus.toBus fuel count s = some ran ∧
        tStates ≤ spentOn ran.calls ∧ spentOn ran.calls ≤ 2147483647) ∧
      (tStates ≤ 2147483647 - 65534 → KeepsContract bus.toBus s tStates) := by
  refine ⟨⟨KeepsContract.fits shortly, ?_⟩, ?_⟩
  · rintro ⟨fuel, count, ran, returns, enough, fits⟩
    exact .of_fits returns enough fits
  · intro below
    obtain ⟨count, ran, returns, enough, close⟩ := shortly.reach tStates.toNat
    exact .of_fits returns (by omega) (by omega)

/-- After a reset over a memory of NOPs `run_for(INT_MAX)` overflows. -/
theorem runFor_overflows_at_intMax :
    let s : Machine Memory := { z80 := Z80.reset {}, host := fun _ => 0 }
    StepsShortly flatRam s ∧ ¬ KeepsContract flatRam.toBus s 2147483647 ∧
      ∃ steps, runFor flatRam.toBus 0 steps 2147483647 s = .error .overflow := by
  have runs : RunsNops { z80 := Z80.reset {}, host := fun _ => 0 } := ⟨⟨rfl, rfl, rfl⟩, rfl, rfl⟩
  refine ⟨runs.shortly, ?_, _, runs.overflows 0 536870911 le_rfl rfl⟩
  intro keeps
  obtain ⟨fuel, count, ran, returns, enough, fits⟩ := keeps.fits runs.shortly
  obtain ⟨spent, -⟩ := runs.stepTimes returns
  omega

theorem runFor_contract_iff_nops :
    KeepsContract flatRam.toBus { z80 := Z80.reset {}, host := fun _ => 0 } 69888 := by
  have runs : RunsNops { z80 := Z80.reset {}, host := fun _ => 0 } := ⟨⟨rfl, rfl, rfl⟩, rfl, rfl⟩
  obtain ⟨-, below⟩ := runFor_contract_iff flatRam _ runs.shortly 69888
  exact below (by decide)

end Z80f
