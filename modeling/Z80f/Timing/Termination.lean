import Z80f.Interaction.Fuel
import Z80f.Timing.StepTiming

/-! # When a step returns

Fuel only bounds the prefix loop: a result does not depend on it.  On a RAM
host the loop ends at the first byte that is no index prefix, so a step fails
to return exactly when it executes an instruction and all 64 KiB are prefixes. -/

set_option autoImplicit false

namespace Z80f

open Interaction Stateful Z80M

theorem consumePrefixes_extends {fuel fuel' : Nat} (le : fuel ≤ fuel') (x : IndexReg) (op : Byte)
    (t : Int) : (consumePrefixes fuel x op t).Extends (consumePrefixes fuel' x op t) := by
  induction fuel generalizing fuel' x op t with
  | zero =>
      by_cases more : isIndexPrefix op = true
      · simp only [consumePrefixes, more, if_true]
        exact .stopped _
      · cases fuel' <;> simp only [consumePrefixes, more] <;> exact .same _
  | succ fuel ih =>
      obtain ⟨fuel', rfl⟩ : ∃ n, fuel' = n + 1 := ⟨fuel' - 1, by omega⟩
      simp only [consumePrefixes]
      refine .ite _ (.bind _ fun next => ?_) (.same _)
      exact ih (by omega) _ _ _

theorem dispatchIndex_extends {fuel fuel' : Nat} (le : fuel ≤ fuel') (x : IndexReg) :
    (dispatchIndex fuel x).Extends (dispatchIndex fuel' x) := by
  refine .bind _ fun _ => .bind _ fun op => ?_
  exact (consumePrefixes_extends le x op 4).bindOption rfl

theorem dispatchUnprefixed_extends {fuel fuel' : Nat} (le : fuel ≤ fuel') (op : Byte) :
    (dispatchUnprefixed fuel op).Extends (dispatchUnprefixed fuel' op) :=
  .ite _ (dispatchIndex_extends le _) (.same _)

theorem executeInstruction_extends {fuel fuel' : Nat} (le : fuel ≤ fuel') :
    (executeInstruction fuel).Extends (executeInstruction fuel') := by
  refine .bind _ fun op => ?_
  exact (dispatchUnprefixed_extends le op).bindOption rfl

theorem haltOrExecute_extends {fuel fuel' : Nat} (le : fuel ≤ fuel') :
    (haltOrExecute fuel).Extends (haltOrExecute fuel') := by
  refine .bind _ fun _ => .bind _ fun r => ?_
  exact .ite _ (.same _) (executeInstruction_extends le)

theorem stepBody_extends {fuel fuel' : Nat} (le : fuel ≤ fuel') :
    (stepBody fuel).Extends (stepBody fuel') := by
  refine .bind _ fun _ => .bind _ fun cpu => .ite _ (.same _) (.bind _ fun cpu' => ?_)
  refine .bind _ fun _ => .ite _ (.bind _ fun served => ?_) (haltOrExecute_extends le)
  exact .ite _ (.same _) (haltOrExecute_extends le)

section Fuel
variable {Host : Type} {bus : Bus Host} {fuel fuel' : Nat} {s : Machine Host}

theorem step_fuel (le : fuel ≤ fuel') {stepped : Stepped Host}
    (returns : step bus fuel s = some stepped) : step bus fuel' s = some stepped := by
  obtain ⟨value, -⟩ := step_returns returns
  have same : exec bus (stepBody fuel') s.started = exec bus (stepBody fuel) s.started := by
    have run := (stepBody_extends le s.started.z80.toCpu).run (environment bus)
      (s.started.z80.toClock, s.started.host) value
    simp only [exec, run]
  rw [← returns, step, step, same]

theorem step_deterministic {stepped stepped' : Stepped Host}
    (left : step bus fuel s = some stepped) (right : step bus fuel' s = some stepped') :
    stepped = stepped' := by
  have left' := step_fuel (Nat.le_max_left fuel fuel') left
  have right' := step_fuel (Nat.le_max_right fuel fuel') right
  exact Option.some.inj (left'.symm.trans right')

end Fuel

def PrefixRun (memory : Memory) (pc : Word) (count : Nat) : Prop :=
  ∀ k < count, isIndexPrefix (memory (pc + BitVec.ofNat 16 k)) = true

theorem prefixRun_succ {memory : Memory} {pc : Word} {count : Nat} :
    PrefixRun memory pc (count + 1) ↔
      isIndexPrefix (memory pc) = true ∧ PrefixRun memory (pc + 1) count := by
  constructor
  · intro run
    refine ⟨by simpa using run 0 (by omega), fun k bound => ?_⟩
    rw [← next_address]
    exact run (k + 1) (by omega)
  · rintro ⟨first, rest⟩ k bound
    cases k with
    | zero => simpa using first
    | succ k =>
        rw [next_address]
        exact rest k (by omega)

theorem consumePrefixes_stuck (fuel : Nat) (x : IndexReg) (op : Byte) (t : Int) (cpu : Cpu)
    (memory : Memory) :
    (consumePrefixes fuel x op t).Holds (fun found _ path => ReadsFrom memory path →
      (found = none ↔ isIndexPrefix op = true ∧ PrefixRun memory cpu.regs.pc fuel)) cpu := by
  induction fuel generalizing x op t cpu with
  | zero =>
      simp only [consumePrefixes]
      by_cases more : isIndexPrefix op = true <;> simp [more, PrefixRun]
  | succ fuel ih =>
      by_cases more : isIndexPrefix op = true
      · simp only [consumePrefixes, more, if_true, holds_bind, holds_fetchOpcode]
        intro next
        refine (ih _ _ _ _).mono ?_
        intro found final path stuck reads
        simp only [List.cons_append, List.nil_append, readsFrom_cycle, readsFrom_read] at reads
        rw [stuck reads.2, prefixRun_succ, reads.1]
        simp [Registers.incR]
      · simp [consumePrefixes, more]

theorem dispatchUnprefixed_stuck (fuel : Nat) (op : Byte) (cpu : Cpu) (memory : Memory) :
    (dispatchUnprefixed fuel op).Holds (fun found _ path => ReadsFrom memory path →
      (found = none ↔ isIndexPrefix op = true ∧ PrefixRun memory cpu.regs.pc (fuel + 1))) cpu := by
  by_cases more : isIndexPrefix op = true
  · simp only [dispatchUnprefixed, more, if_true, dispatchIndex, holds_bind, holds_modifyRegs,
      holds_fetchOpcode]
    intro next
    refine (consumePrefixes_stuck fuel _ next 4 _ memory).mono ?_
    intro found final path stuck
    cases found with
    | none =>
        simp only [holds_pure, List.nil_append, List.append_nil, List.cons_append,
          readsFrom_cycle, readsFrom_read]
        rintro ⟨rfl, reads⟩
        rw [prefixRun_succ]
        simpa [Registers.incR] using stuck reads
    | some found =>
        simp only [holds_bind, holds_pure, List.append_nil, List.nil_append, List.cons_append,
          readsFrom_cycle, readsFrom_read]
        apply Holds.intro
        rintro t last tail ⟨rfl, reads⟩
        rw [prefixRun_succ]
        simpa [Registers.incR] using stuck ((readsFrom_append _ _ _).mp reads).1
  · simp only [dispatchUnprefixed, more, holds_ite, holds_bind, holds_pure]
    exact ⟨by simp, fun _ => Holds.intro _ (by simp) cpu⟩

/-- The state lets the next step return: no instruction is executed, or there
is a byte on which the prefix loop ends. -/
def LeavesPrefixes (memory : Memory) (cpu : Cpu) : Prop :=
  cpu.nmiPending = true ∨ cpu.acceptsInt = true ∨ cpu.regs.halted = true ∨
    ∃ address, isIndexPrefix (memory address) = false

theorem stepBody_stuck (fuel : Nat) (cpu : Cpu) (memory : Memory) :
    (stepBody fuel).Holds (fun found _ path => ReadsFrom memory path →
      (found = none ↔ cpu.nmiPending = false ∧ cpu.acceptsInt = false ∧
        cpu.regs.halted = false ∧ PrefixRun memory cpu.regs.pc (fuel + 2))) cpu := by
  rw [holds_stepBody]
  refine ⟨fun nmi => by simp [nmi], fun nmi accepts databus => ?_, fun nmi accepts => ?_⟩
  · exact Holds.intro _ (by simp [accepts]) _
  · rw [holds_haltOrExecute]
    refine ⟨fun halted => ?_, fun halted => ?_⟩
    · have halted' : cpu.regs.halted = true := halted
      simp [halted']
    · rw [holds_executeInstruction]
      intro op
      refine (dispatchUnprefixed_stuck fuel op _ memory).mono ?_
      intro found next path stuck
      have halted' : cpu.regs.halted = false := halted
      cases found with
      | none =>
          simp only [readsFrom_cycle, readsFrom_read]
          rintro ⟨rfl, reads⟩
          have run := stuck reads
          rw [prefixRun_succ]
          simpa [nmi, accepts, halted', Cpu.opcodeFetched, Cpu.pulseTaken, Registers.incR] using run
      | some t =>
          simp only [readsFrom_cycle, readsFrom_read]
          rintro ⟨rfl, reads⟩
          have run := stuck reads
          rw [prefixRun_succ]
          simpa [nmi, accepts, halted', Cpu.opcodeFetched, Cpu.pulseTaken, Registers.incR] using run

theorem prefixRun_all {memory : Memory} {pc : Word} {count : Nat} (covers : 65536 ≤ count) :
    PrefixRun memory pc count ↔ ∀ address, isIndexPrefix (memory address) = true := by
  constructor
  · intro run address
    have bound := (address - pc).isLt
    have reached := run (address - pc).toNat (by omega)
    rwa [BitVec.ofNat_toNat, BitVec.setWidth_eq, BitVec.add_comm, BitVec.sub_add_cancel] at reached
  · intro all k _
    exact all _

section Ram
variable {Host : Type} (bus : RamBus Host) (fuel : Nat) (s : Machine Host)

theorem step_eq_none_iff :
    step bus.toBus fuel s = none ↔ s.z80.nmiPending = false ∧ s.z80.acceptsInt = false ∧
      s.z80.regs.halted = false ∧ PrefixRun (bus.memory s.host) s.z80.regs.pc (fuel + 2) := by
  have reads := (bus.exec_replays (stepBody fuel) s.started).1
  have stuck := Holds.exec bus.toBus s.started
    (stepBody_stuck fuel s.z80.toCpu (bus.memory s.host)) reads
  rw [← stuck]
  simp [step]

/-- 64 K rounds of the prefix loop are as good as any number. -/
theorem step_returns_iff (covers : 65536 ≤ fuel) :
    (∃ stepped, step bus.toBus fuel s = some stepped) ↔
      LeavesPrefixes (bus.memory s.host) s.z80.toCpu := by
  rw [← Option.isSome_iff_exists, ← Option.ne_none_iff_isSome, Ne, step_eq_none_iff,
    prefixRun_all (by omega)]
  simp only [LeavesPrefixes, not_and_or, Bool.not_eq_false, not_forall, Bool.not_eq_true]

theorem returns_iff :
    (∃ fuel stepped, step bus.toBus fuel s = some stepped) ↔
      LeavesPrefixes (bus.memory s.host) s.z80.toCpu := by
  rw [← step_returns_iff bus 65536 s le_rfl]
  constructor
  · rintro ⟨fuel, stepped, returns⟩
    have leaves : LeavesPrefixes (bus.memory s.host) s.z80.toCpu := by
      rw [← step_returns_iff bus (max fuel 65536) s (Nat.le_max_right _ _)]
      exact ⟨stepped, step_fuel (Nat.le_max_left _ _) returns⟩
    exact (step_returns_iff bus 65536 s le_rfl).mpr leaves
  · rintro ⟨stepped, returns⟩
    exact ⟨65536, stepped, returns⟩

end Ram

/-! ## `run_for` -/

/-- The rounds `run_for` makes on its way to the budget: the accumulator and the
machine before and after them. -/
inductive RunForReaches {Host : Type} (bus : Bus Host) (tStates : Int) :
    Int → Machine Host → Int → Machine Host → Prop where
  | here (total : Int) (s : Machine Host) : RunForReaches bus tStates total s total s
  | round {fuel : Nat} {total total' : Int} {s s' : Machine Host} {stepped : Stepped Host}
      (short : total < tStates) (returns : step bus fuel s = some stepped)
      (rest : RunForReaches bus tStates (total + stepped.returned) stepped.machine total' s') :
      RunForReaches bus tStates total s total' s'

section RunFor
variable {Host : Type} {bus : RamBus Host} {tStates total : Int} {s : Machine Host}

theorem RunForReaches.later {bus : Bus Host} {fuel : Nat} {total' : Int} {s' : Machine Host}
    {stepped : Stepped Host} (reaches : RunForReaches bus tStates total s total' s')
    (returns : step bus fuel s = some stepped) : total' = total ∧ s' = s ∨
      RunForReaches bus tStates (total + stepped.returned) stepped.machine total' s' := by
  cases reaches with
  | here => exact .inl ⟨rfl, rfl⟩
  | round short returns' rest =>
      rw [step_deterministic returns' returns] at rest
      exact .inr rest

/-- On the way of a loop that returns every round does, and its sum is an `int`. -/
theorem runForLoop_passes {fuel steps : Nat} {ran : Ran Host Int}
    (returns : runForLoop bus.toBus fuel tStates steps total s = .ok ran) {total' : Int}
    {s' : Machine Host} (reaches : RunForReaches bus.toBus tStates total s total' s')
    (short : total' < tStates) : ∃ stepped, step bus.toBus fuel s' = some stepped ∧
      fitsInt (total' + stepped.returned) = true := by
  revert total' s'
  refine runForLoop_induction (motive := fun total s _ => ∀ {total' : Int} {s' : Machine Host},
    RunForReaches bus.toBus tStates total s total' s' → total' < tStates →
      ∃ stepped, step bus.toBus fuel s' = some stepped ∧
        fitsInt (total' + stepped.returned) = true) ?_ ?_ returns
  · intro total s reached total' s' reaches short
    cases reaches with
    | here => exact absurd short reached
    | round short' => exact absurd short' reached
  · intro total s stepped later _ stepReturns fits ih total' s' reaches short
    obtain ⟨rfl, rfl⟩ | rest := reaches.later stepReturns
    · exact ⟨stepped, stepReturns, fits⟩
    · exact ih rest short

/-- Every round brings the accumulator closer to the budget. -/
theorem runForLoop_ends (steps : Nat) (nonneg : 0 ≤ total)
    (enough : (tStates - total).toNat ≤ steps)
    (passes : ∀ total' s', RunForReaches bus.toBus tStates total s total' s' → total' < tStates →
      LeavesPrefixes (bus.memory s'.host) s'.z80.toCpu ∧ ∀ fuel stepped,
        step bus.toBus fuel s' = some stepped → total' + spentOn stepped.calls ≤ 2147483647) :
    ∃ ran, runForLoop bus.toBus 65536 tStates steps total s = .ok ran := by
  induction steps generalizing total s with
  | zero => exact ⟨_, runForLoop_done (by omega)⟩
  | succ steps ih =>
      by_cases short : total < tStates
      · obtain ⟨leaves, below⟩ := passes total s (.here total s) short
        obtain ⟨stepped, returns⟩ := (step_returns_iff bus 65536 s le_rfl).mpr leaves
        have fits := below 65536 stepped returns
        have positive := step_takes_time bus.waits_nonneg returns
        have returned : stepped.returned = spentOn stepped.calls := by
          rw [step_returned returns]
          exact toInt32_ofInt positive.le (by omega)
        obtain ⟨ran, loop⟩ := ih (s := stepped.machine)
          (by omega : 0 ≤ total + stepped.returned) (by omega)
          (fun total' s' reaches => passes total' s' (.round short returns reaches))
        have inRange : fitsInt (total + stepped.returned) = true := by
          rw [fitsInt_iff]
          omega
        exact ⟨_, (runForLoop_round short).mpr ⟨stepped, ran, returns, inRange, loop, rfl⟩⟩
      · exact ⟨_, runForLoop_done short⟩

end RunFor

/-- A step returns if and only if it does not meet 64 KiB of index prefixes.  As
long as the cost of each round fits the `int` of `step`, `run_for` returns if and
only if none of its rounds meets them or takes the sum past the end of its
`int`. -/
theorem step_and_runFor_return_iff {Host : Type} (bus : RamBus Host) (s : Machine Host) :
    ((∃ fuel stepped, step bus.toBus fuel s = some stepped) ↔
      LeavesPrefixes (bus.memory s.host) s.z80.toCpu) ∧
    ∀ tStates : Int,
      (∀ total s' fuel stepped, RunForReaches bus.toBus tStates 0 s total s' → total < tStates →
        step bus.toBus fuel s' = some stepped → spentOn stepped.calls < 2 ^ 31) →
      ((∃ fuel steps ran, runFor bus.toBus fuel steps tStates s = .ok ran) ↔
        ∀ total s', RunForReaches bus.toBus tStates 0 s total s' → total < tStates →
          LeavesPrefixes (bus.memory s'.host) s'.z80.toCpu ∧ ∀ fuel stepped,
            step bus.toBus fuel s' = some stepped →
              total + spentOn stepped.calls ≤ 2147483647) := by
  refine ⟨returns_iff bus s, fun tStates fits => ⟨?_, fun passes => ?_⟩⟩
  · rintro ⟨fuel, steps, ran, returns⟩ total s' reaches short
    obtain ⟨stepped, stepReturns, inRange⟩ := runForLoop_passes returns reaches short
    refine ⟨(returns_iff bus s').mp ⟨fuel, stepped, stepReturns⟩, ?_⟩
    intro fuel' stepped' stepReturns'
    obtain rfl := step_deterministic stepReturns stepReturns'
    have positive := step_takes_time bus.waits_nonneg stepReturns
    have returned : stepped.returned = spentOn stepped.calls := by
      rw [step_returned stepReturns]
      exact toInt32_ofInt positive.le (fits total s' fuel stepped reaches short stepReturns)
    rw [← returned]
    exact (fitsInt_iff.mp inRange).2
  · obtain ⟨ran, returns⟩ := runForLoop_ends (tStates - 0).toNat le_rfl le_rfl passes
    exact ⟨65536, _, ran, returns⟩

/-- INC IX, INC IY and a NOP, 24 T-states in all. -/
theorem step_and_runFor_return_iff_prefixed : ∃ fuel steps ran,
    runFor flatRam.toBus fuel steps 21
      { z80 := {}, host := programAt 0 [0xDD, 0x23, 0xFD, 0x23] 0 } = .ok ran := by
  have run : ∃ s : Machine Memory,
      s = { z80 := {}, host := programAt 0 [0xDD, 0x23, 0xFD, 0x23] 0 } ∧ s.host 4 = 0 ∧
      ∃ one, step flatRam.toBus 1 s = some one ∧ one.returned = 10 ∧
        spentOn one.calls = 10 ∧ one.machine.host 4 = 0 ∧
      ∃ two, step flatRam.toBus 1 one.machine = some two ∧ two.returned = 10 ∧
        spentOn two.calls = 10 ∧ two.machine.host 4 = 0 ∧
        ∃ three, step flatRam.toBus 1 two.machine = some three ∧ three.returned = 4 ∧
          spentOn three.calls = 4 := by
    refine ⟨_, rfl, rfl, _, rfl, ?_⟩
    refine ⟨rfl, rfl, rfl, _, rfl, ?_⟩
    refine ⟨rfl, rfl, rfl, _, rfl, ?_⟩
    exact ⟨rfl, rfl⟩
  obtain ⟨s, start, nop, one, first, ten, spent, nop', two, second, ten', spent', nop'', three,
    third, four, spent''⟩ := run
  rw [← start]
  have leaves {u : Machine Memory} (nop : u.host 4 = 0) :
      LeavesPrefixes (flatRam.memory u.host) u.z80.toCpu :=
    .inr (.inr (.inr ⟨4, by rw [show flatRam.memory u.host 4 = 0 from nop]; rfl⟩))
  have rounds {total : Int} {u : Machine Memory}
      (reaches : RunForReaches flatRam.toBus 21 0 s total u) (short : total < 21) :
      LeavesPrefixes (flatRam.memory u.host) u.z80.toCpu ∧ 0 ≤ total ∧ ∀ fuel stepped,
        step flatRam.toBus fuel u = some stepped → total + spentOn stepped.calls ≤ 24 := by
    obtain ⟨rfl, rfl⟩ | rest := reaches.later first
    · refine ⟨leaves nop, le_rfl, fun fuel stepped returns => ?_⟩
      rw [step_deterministic returns first, spent]
      decide
    rw [ten] at rest
    obtain ⟨rfl, rfl⟩ | rest := rest.later second
    · refine ⟨leaves nop', by decide, fun fuel stepped returns => ?_⟩
      rw [step_deterministic returns second, spent']
      decide
    rw [ten'] at rest
    obtain ⟨rfl, rfl⟩ | rest := rest.later third
    · refine ⟨leaves nop'', by decide, fun fuel stepped returns => ?_⟩
      rw [step_deterministic returns third, spent'']
      decide
    rw [four] at rest
    cases rest with
    | here => exact absurd short (by decide)
    | round late => exact absurd late (by decide)
  refine ((step_and_runFor_return_iff flatRam s).2 21 ?_).mpr ?_
  · intro total u fuel stepped reaches short returns
    obtain ⟨-, nonneg, below⟩ := rounds reaches short
    have spent := below fuel stepped returns
    omega
  · intro total u reaches short
    obtain ⟨leaves, -, below⟩ := rounds reaches short
    exact ⟨leaves, fun fuel stepped returns => (below fuel stepped returns).trans (by decide)⟩

/-- After a reset over memory full of 0xDD neither `step` nor `run_for(1)` returns. -/
theorem all_prefixes_never_return :
    (∀ fuel, step flatRam.toBus fuel { z80 := Z80.reset {}, host := fun _ => 0xDD } = none) ∧
      ∀ fuel steps,
        runFor flatRam.toBus fuel steps 1 { z80 := Z80.reset {}, host := fun _ => 0xDD } =
          .error .outOfFuel := by
  have stuck (fuel : Nat) :
      step flatRam.toBus fuel { z80 := Z80.reset {}, host := fun _ => 0xDD } = none := by
    rw [step_eq_none_iff]
    exact ⟨rfl, rfl, rfl, fun k _ => rfl⟩
  refine ⟨stuck, fun fuel steps => ?_⟩
  cases steps with
  | zero => rfl
  | succ steps => rw [runFor, runForLoop, if_pos (by decide), stuck]

end Z80f
