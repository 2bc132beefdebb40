import Z80f.Timing.RunFor

/-! # Time slices

`run_for` keeps nothing from one call to the next, so a budget may be cut into
slices as long as what one slice takes too much is taken from the next. -/

set_option autoImplicit false

namespace Z80f

open Interaction

/-- A host that runs slice after slice; `carried` is what the slices before took
too much. -/
def runSlices {Host : Type} (bus : Bus Host) (fuel steps : Nat) :
    List Int → Int → Machine Host → Except Stuck (Ran Host Int)
  | [], _, s => .ok ⟨0, s, []⟩
  | slice :: slices, carried, s => do
      let ran ← runFor bus fuel steps (slice - carried) s
      let later ← runSlices bus fuel steps slices (ran.value - (slice - carried)) ran.machine
      return ran.andThen later

section Slices
variable {Host : Type} {bus : Bus Host} (waitsNonneg : ∀ cycles address tStates host,
    0 ≤ (bus.onMCycle cycles address tStates host).1)
  {fuel steps : Nat} {s : Machine Host} {budget : Int} {count : Nat} {whole : Ran Host Int}
include waitsNonneg

theorem runFor_reaches (returns : stepTimes bus fuel count s = some whole)
    (enough : budget ≤ whole.value) (fits : spentOn whole.calls ≤ 2147483647)
    (le : count ≤ steps) :
    ∃ sooner first, Reaches bus fuel s budget sooner first ∧
      runFor bus fuel steps budget s = .ok first := by
  have value := stepTimes_value waitsNonneg returns fits
  have loops : ∃ found, runFor bus fuel steps budget s = .ok found :=
    runForLoop_returns waitsNonneg returns le_rfl (by omega) (by omega) le
  obtain ⟨found, loop⟩ := loops
  obtain ⟨-, sooner, first, reaches, rfl⟩ := runForLoop_reaches loop rfl
  rw [Int.sub_zero] at reaches
  rw [Int.zero_add] at loop
  exact ⟨sooner, first, reaches, loop⟩

theorem Reaches.runFor (reaches : Reaches bus fuel s budget count whole)
    (fits : spentOn whole.calls ≤ 2147483647) (le : count ≤ steps) :
    runFor bus fuel steps budget s = .ok whole := by
  obtain ⟨count', whole', reaches', loop⟩ :=
    runFor_reaches waitsNonneg reaches.returns reaches.enough fits le
  obtain ⟨-, rfl⟩ := reaches.unique reaches'
  exact loop

theorem Reaches.cut (reaches : Reaches bus fuel s budget count whole)
    (fits : spentOn whole.calls ≤ 2147483647) (le : count ≤ steps) {less : Int}
    (within : less ≤ budget) :
    ∃ first second more, Z80f.runFor bus fuel steps less s = .ok first ∧
      less ≤ first.value ∧
      Reaches bus fuel first.machine (budget - first.value) more second ∧
      spentOn second.calls ≤ 2147483647 ∧ more ≤ steps ∧ whole = first.andThen second := by
  obtain ⟨sooner, first, firstReaches, loop⟩ := runFor_reaches waitsNonneg reaches.returns
    (within.trans reaches.enough) fits le
  obtain ⟨second, secondReaches, rfl⟩ := firstReaches.rest within reaches
  have time := stepTimes_takes_time waitsNonneg firstReaches.returns
  dsimp only [Ran.andThen] at fits
  rw [spentOn_append] at fits
  exact ⟨first, second, _, loop, firstReaches.enough, secondReaches, by omega, by omega, rfl⟩

/-- Slices that are not negative, on a host that carries what they took too much. -/
theorem Reaches.runSlices (slices : List Int) {carried : Int} (nonneg : 0 ≤ carried)
    (positive : ∀ slice ∈ slices, 0 ≤ slice)
    (reaches : Reaches bus fuel s (slices.sum - carried) count whole)
    (fits : spentOn whole.calls ≤ 2147483647) (le : count ≤ steps) :
    runSlices bus fuel steps slices carried s = .ok whole := by
  induction slices generalizing s carried count whole with
  | nil =>
      have reached : ([] : List Int).sum - carried ≤ 0 := by
        rw [List.sum_nil]
        omega
      obtain ⟨-, rfl⟩ := reaches.unique (.now reached)
      rw [Z80f.runSlices]
  | cons slice slices ih =>
      have others : 0 ≤ slices.sum :=
        List.sum_nonneg fun other member => positive other (List.mem_cons_of_mem _ member)
      rw [List.sum_cons] at reaches
      obtain ⟨first, second, more, loop, enough, rest, restFits, restLe, rfl⟩ :=
        reaches.cut waitsNonneg fits le (by omega : slice - carried ≤ _)
      have shifted : slice + slices.sum - carried - first.value =
          slices.sum - (first.value - (slice - carried)) := by omega
      rw [shifted] at rest
      have laterPositive : ∀ other ∈ slices, 0 ≤ other := fun other member =>
        positive other (List.mem_cons_of_mem _ member)
      have later := ih (by omega) laterPositive rest restFits restLe
      rw [Z80f.runSlices, loop]
      change (do
        let later ← Z80f.runSlices bus fuel steps slices (first.value - (slice - carried))
          first.machine
        return first.andThen later) = _
      rw [later]
      rfl

end Slices

/-- When some number of steps takes a time between the budget and the end of the
`int`: `run_for` executes the least number that reaches the budget, and any two
parts and any slices of the budget make the same run. -/
theorem time_slicing {Host : Type} (bus : Bus Host) (waitsNonneg : ∀ cycles address tStates host,
      0 ≤ (bus.onMCycle cycles address tStates host).1) (fuel : Nat) (s : Machine Host) (t : Int)
    (fits : ∃ count ran, stepTimes bus fuel count s = some ran ∧ t ≤ spentOn ran.calls ∧
      spentOn ran.calls ≤ 2147483647) :
    ∃ steps count whole, runFor bus fuel steps t s = .ok whole ∧
      Reaches bus fuel s t count whole ∧
      (∀ a ≤ t, ∃ first second, runFor bus fuel steps a s = .ok first ∧
        runFor bus fuel steps (t - first.value) first.machine = .ok second ∧
        second.machine = whole.machine ∧ first.value + second.value = whole.value ∧
        first.calls ++ second.calls = whole.calls) ∧
      ∀ slices : List Int, (∀ slice ∈ slices, 0 ≤ slice) → slices.sum = t →
        runSlices bus fuel steps slices 0 s = .ok whole := by
  obtain ⟨steps, ran, returns, enough, below⟩ := fits
  have value := stepTimes_value waitsNonneg returns below
  have reached : ∃ count whole, Reaches bus fuel s t count whole ∧
      runFor bus fuel steps t s = .ok whole :=
    runFor_reaches waitsNonneg returns (by omega) below le_rfl
  obtain ⟨count, whole, reaches, loop⟩ := reached
  have le := reaches.soonest returns (by omega)
  have wholeFits := (stepTimes_time_mono waitsNonneg le reaches.returns returns).trans below
  refine ⟨steps, count, whole, loop, reaches, ?_, ?_⟩
  · intro a within
    obtain ⟨first, second, more, firstLoop, -, rest, restFits, restLe, rfl⟩ :=
      reaches.cut waitsNonneg wholeFits le within
    exact ⟨first, second, firstLoop, rest.runFor waitsNonneg restFits restLe, rfl, rfl, rfl⟩
  · intro slices nonneg total
    rw [← Int.sub_zero t, ← total] at reaches
    exact reaches.runSlices waitsNonneg slices le_rfl nonneg wholeFits le

theorem time_slicing_nops :
    let s : Machine Memory := { z80 := Z80.reset {}, host := fun _ => 0 }
    ∃ steps whole first second, runFor flatRam.toBus 0 steps 10 s = .ok whole ∧
      10 ≤ whole.value ∧ runFor flatRam.toBus 0 steps 3 s = .ok first ∧
      runFor flatRam.toBus 0 steps (10 - first.value) first.machine = .ok second ∧
      second.machine = whole.machine ∧
      runSlices flatRam.toBus 0 steps [1, 2, 7] 0 s = .ok whole := by
  obtain ⟨steps, count, whole, loop, reaches, parts, slices⟩ := time_slicing flatRam.toBus
    flatRam.waits_nonneg 0 { z80 := Z80.reset {}, host := fun _ => 0 } 10
    ⟨3, _, rfl, by decide, by decide⟩
  obtain ⟨first, second, firstLoop, secondLoop, same, -, -⟩ := parts 3 (by decide)
  exact ⟨steps, whole, first, second, loop, reaches.enough, firstLoop, secondLoop, same,
    slices [1, 2, 7] (by decide) rfl⟩

end Z80f
