import Z80f.Program.Rules

/-! # DJNZ loops

The rule of the loop: whatever its body does to the invariant, DJNZ runs it as
often as B says, 256 times from 0, and comes out behind it. -/

set_option autoImplicit false

namespace Z80f

open Interaction Stateful Z80M

section Djnz
variable {Host : Type} {bus : RamBus Host} {pc : Word} {r : Registers} {memory : Memory}
  {s : Machine Host} {e : Byte} (fuel : Nat)

theorem djnz_code : dispatchOpcode 0x10 = (do opcodePrelude 0x10; djnz) := rfl

theorem At.djnz_again (at_ : At bus pc r memory s) (code : memory pc = 0x10)
    (operand : memory (pc + 1) = e) (more : r.b ≠ 1) :
    Leads (advance bus.toBus fuel) 13
      (At bus (pc + 1 + 1 + BitVec.ofInt 16 e.toInt) { r with b := r.b - 1 } memory) s := by
  refine (at_.step fuel code rfl ?_ ?_ ?_).leads
  · rfl
  · rfl
  rintro cpu ⟨refresh, wz, q, ei, shown⟩
  have left : ¬ r.b - 1 = 0 := by
    intro none
    apply more
    bv_omega
  rw [djnz_code]
  simp only [djnz, holds_bind, holds_opcodePrelude, holds_getRegs, holds_idle, shown,
    holds_fetchImmediate, holds_modifyRegs, bne_iff_ne, ne_eq, left, not_false_eq_true, if_true,
    holds_pure]
  intro byte
  simp only [readsFrom_append, readsFrom_idle, memoryAfter_append, memoryAfter_idle,
    readsFrom_cycle, readsFrom_read, readsFrom_nil, memoryAfter_cycle, memoryAfter_read,
    memoryAfter_nil, operand, true_and, and_true]
  rintro rfl
  exact ⟨refresh, _, q, ei, rfl⟩

theorem At.djnz_last (at_ : At bus pc r memory s) (code : memory pc = 0x10) (last : r.b = 1) :
    Leads (advance bus.toBus fuel) 8
      (At bus (pc + 1 + 1) { r with b := r.b - 1 } memory) s := by
  refine (at_.step fuel code rfl ?_ ?_ ?_).leads
  · rfl
  · rfl
  rintro cpu ⟨refresh, wz, q, ei, shown⟩
  have none : r.b - 1 = 0 := by rw [last]; rfl
  rw [djnz_code]
  simp only [djnz, holds_bind, holds_opcodePrelude, holds_getRegs, holds_idle, shown,
    holds_fetchImmediate, holds_modifyRegs, bne_iff_ne, ne_eq, none, not_true_eq_false, if_false,
    holds_pure]
  intro byte
  simp only [readsFrom_append, readsFrom_idle, memoryAfter_append, memoryAfter_idle,
    readsFrom_cycle, readsFrom_read, readsFrom_nil, memoryAfter_cycle, memoryAfter_read,
    memoryAfter_nil, true_and, and_true]
  rintro rfl
  exact ⟨refresh, _, q, ei, rfl⟩

def roundsLeft (rounds k : Nat) : Byte := BitVec.ofNat 8 (rounds - k)

theorem roundsLeft_next {rounds k : Nat} (before : k < rounds) :
    roundsLeft rounds k - 1 = roundsLeft rounds (k + 1) := by
  unfold roundsLeft
  bv_omega

/-- What the body of the loop does in round `k`: from its top to the DJNZ, with B
as it was and with the invariant of the next round once B is less by one. -/
def LoopBody {Host : Type} (bus : RamBus Host) (fuel : Nat) (top last : Word) (e : Byte)
    (inv : Nat → Registers → Memory → Prop) (cost : Nat → Int) (k : Nat) : Prop :=
  ∀ r memory s, At bus top r memory s → inv k r memory →
    Leads (advance bus.toBus fuel) (cost k) (fun t => ∃ r' memory', At bus last r' memory' t ∧
      r'.b = r.b ∧ memory' last = 0x10 ∧ memory' (last + 1) = e ∧
      inv (k + 1) { r' with b := r'.b - 1 } memory') s

section Loop
variable {top last : Word} {inv : Nat → Registers → Memory → Prop} {cost : Nat → Int}
  {rounds : Nat}

theorem LoopBody.again (back : last + 1 + 1 + BitVec.ofInt 16 e.toInt = top) {k : Nat}
    (more : k + 1 < rounds) (atMost : rounds ≤ 256)
    (body : LoopBody bus fuel top last e inv cost k)
    (start : ∃ r memory, At bus top r memory s ∧ r.b = roundsLeft rounds k ∧ inv k r memory) :
    Leads (advance bus.toBus fuel) (cost k + 13) (fun t => ∃ r memory,
      At bus top r memory t ∧ r.b = roundsLeft rounds (k + 1) ∧ inv (k + 1) r memory) s := by
  obtain ⟨r, memory, at_, left, holds⟩ := start
  apply (body r memory s at_ holds).seq
  rintro t ⟨r', memory', reached, same, code, operand, next⟩
  have notLast : r'.b ≠ 1 := by
    rw [same, left, roundsLeft]
    bv_omega
  apply (reached.djnz_again fuel code operand notLast).mono
  intro u landed
  rw [back] at landed
  refine ⟨_, _, landed, ?_, next⟩
  change r'.b - 1 = _
  rw [same, left, roundsLeft_next (Nat.lt_of_succ_lt more)]

theorem LoopBody.leaves {k : Nat} (final : k + 1 = rounds)
    (body : LoopBody bus fuel top last e inv cost k)
    (start : ∃ r memory, At bus top r memory s ∧ r.b = roundsLeft rounds k ∧ inv k r memory) :
    Leads (advance bus.toBus fuel) (cost k + 8) (fun t => ∃ r memory,
      At bus (last + 1 + 1) r memory t ∧ r.b = 0 ∧ inv rounds r memory) s := by
  obtain ⟨r, memory, at_, left, holds⟩ := start
  apply (body r memory s at_ holds).seq
  rintro t ⟨r', memory', reached, same, code, operand, next⟩
  have one : r'.b = 1 := by
    rw [same, left, roundsLeft, ← final]
    bv_omega
  apply (reached.djnz_last fuel code one).mono
  intro u landed
  rw [final] at next
  refine ⟨_, _, landed, ?_, next⟩
  change r'.b - 1 = 0
  rw [one]
  rfl

theorem At.djnz_loop (back : last + 1 + 1 + BitVec.ofInt 16 e.toInt = top) (positive : 1 ≤ rounds)
    (atMost : rounds ≤ 256) (body : ∀ k < rounds, LoopBody bus fuel top last e inv cost k)
    (at_ : At bus top r memory s) (left : r.b = BitVec.ofNat 8 rounds) (start : inv 0 r memory) :
    Leads (advance bus.toBus fuel)
      (∑ k ∈ Finset.range rounds, cost k + 13 * (rounds - 1) + 8) (fun t => ∃ r memory,
        At bus (last + 1 + 1) r memory t ∧ r.b = 0 ∧ inv rounds r memory) s := by
  obtain ⟨m, rfl⟩ : ∃ m, rounds = m + 1 := ⟨rounds - 1, by omega⟩
  have looping : Leads (advance bus.toBus fuel) (∑ k ∈ Finset.range m, (cost k + 13))
      (fun t => ∃ r memory, At bus top r memory t ∧ r.b = roundsLeft (m + 1) m ∧ inv m r memory)
      s := by
    apply Leads.rounds fun k t => ∃ r memory, At bus top r memory t ∧
      r.b = roundsLeft (m + 1) k ∧ inv k r memory
    · intro k t before holds
      exact (body k (Nat.lt_succ_of_lt before)).again fuel back (by omega) atMost holds
    · exact ⟨r, memory, at_, left, start⟩
  have leaving := looping.seq fun t holds =>
    (body m (Nat.lt_succ_self m)).leaves fuel rfl holds
  have total : ∑ k ∈ Finset.range (m + 1), cost k + 13 * ((m + 1 : Nat) - 1) + 8 =
      ∑ k ∈ Finset.range m, (cost k + 13) + (cost m + 8) := by
    rw [Finset.sum_range_succ, Finset.sum_add_distrib, Finset.sum_const, Finset.card_range,
      nsmul_eq_mul]
    omega
  rw [total]
  exact leaving

end Loop
end Djnz

/-- DJNZ over any body, on any RAM host: a loop whose body leads from its top to
the DJNZ without changing B, from the invariant of a round to that of the next,
runs as many rounds as B says and comes out behind it with B at 0.  It takes the
time of the bodies and 13 T-states a round but for the last, which takes 8. -/
theorem djnz_runs {Host : Type} (bus : RamBus Host) (fuel : Nat) (top last : Word) (e : Byte)
    (back : last + 1 + 1 + BitVec.ofInt 16 e.toInt = top) (rounds : Nat) (positive : 1 ≤ rounds)
    (atMost : rounds ≤ 256) (inv : Nat → Registers → Memory → Prop) (cost : Nat → Int)
    (body : ∀ k < rounds, LoopBody bus fuel top last e inv cost k) (r : Registers)
    (memory : Memory) (s : Machine Host) (at_ : At bus top r memory s)
    (left : r.b = BitVec.ofNat 8 rounds) (start : inv 0 r memory) :
    ∃ count ran r' memory', stepTimes bus.toBus fuel count s = some ran ∧
      nominal (ran.calls.map Exchange.answered) =
        ∑ k ∈ Finset.range rounds, cost k + 13 * (rounds - 1) + 8 ∧
      At bus (last + 1 + 1) r' memory' ran.machine ∧ r'.b = 0 ∧ inv rounds r' memory' := by
  obtain ⟨t, follows, r', memory', now, none, holds⟩ :=
    at_.djnz_loop fuel back positive atMost body left start
  obtain ⟨count, ran, returns, rfl, spent⟩ := follows_stepTimes follows
  exact ⟨count, ran, r', memory', returns, spent, now, none, holds⟩

/-- A DJNZ to itself, 256 times. -/
theorem djnz_runs_delay :
    let memory := programAt 0 [0x10, 0xFE] 0
    ∃ count ran, stepTimes flatRam.toBus 0 count { z80 := {}, host := memory } = some ran ∧
      nominal (ran.calls.map Exchange.answered) = 13 * 255 + 8 := by
  intro memory
  have body : ∀ k < 256, LoopBody flatRam 0 0 0 0xFE (fun _ _ now => now = memory) 0 k := by
    rintro k - r _ s at_ rfl
    exact .here ⟨r, _, at_, rfl, rfl, rfl, rfl⟩
  have start : At flatRam 0 {} memory { z80 := {}, host := memory } := ⟨⟨rfl, rfl⟩, rfl,
    ⟨0, 0, 0, false, rfl⟩, rfl⟩
  obtain ⟨count, ran, r', memory', returns, cost, -⟩ := djnz_runs flatRam 0 0 0 0xFE (by decide)
    256 (by decide) le_rfl _ 0 body {} memory _ start rfl rfl
  exact ⟨count, ran, returns, cost.trans (by simp)⟩

end Z80f
