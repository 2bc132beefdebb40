import Z80f.Interaction.Copy
import Z80f.Block.Direction
import Z80f.Block.Rounds
import Z80f.Cpu.BlockRules
import Z80f.Cpu.FlagBits

/-! # LDIR and LDDR

One round copies one byte, so `n` rounds are a `copy` of `n` cells; the closed
form for overlapping blocks is that of `copy_lag`. -/

set_option autoImplicit false

namespace Z80f

open Interaction Stateful Z80M Flags

def Direction.ldOpcode : Direction → Byte
  | .up => 0xB0
  | .down => 0xB8

section Overlap
variable {direction : Direction} {hl de : Word} {memory : Memory} {n : Nat}

theorem move_distinct (fits : n < 2 ^ 16) :
    ∀ i < n, ∀ j < n, direction.move de i = direction.move de j → i = j := by
  intro i iBound j jBound same
  exact (direction.move_eq_iff de (by omega) (by omega)).mp same

theorem transfer_lag (fits : n < 2 ^ 16) (positive : 0 < direction.distance hl de) {i : Nat}
    (lt : i < n) : copy (direction.move hl) (direction.move de) memory n (direction.move de i) =
      memory (direction.move hl (i % direction.distance hl de)) := by
  have target (j : Nat) : direction.move de j =
      direction.move hl (direction.distance hl de + j) := by
    rw [← direction.move_move, direction.move_distance]
  have lagFits := direction.distance_lt hl de
  refine copy_lag positive (move_distinct fits) ?_ ?_ lt
  · intro i iBound behind
    rw [target, Nat.add_sub_cancel' behind]
  · intro i iBound ahead j before same
    rw [target] at same
    have wrapped : direction.move (direction.move hl i) (direction.distance hl de + j - i) =
        direction.move (direction.move hl i) 0 := by
      rw [direction.move_move, direction.move_zero, same]
      congr 1
      omega
    have equal := (direction.move_eq_iff _ (by omega) (by decide)).mp wrapped
    omega

theorem transfer_self (same : direction.distance hl de = 0) :
    copy (direction.move hl) (direction.move de) memory n = memory := by
  refine copy_self fun i _ => ?_
  have target := direction.move_distance hl de
  rw [same, direction.move_zero] at target
  rw [target]

end Overlap

theorem blockLdFlags_bits (flags a byte : Byte) (bc : Word) :
    let f := blockLdFlags flags a byte bc
    sign f = sign flags ∧ zero f = zero flags ∧ carry f = carry flags ∧
      halfCarry f = false ∧ addSub f = false ∧ parityOverflow f = (bc != 0) := by
  simp [blockLdFlags, sign_bit, zero_bit, carry_bit, halfCarry_bit, addSub_bit,
    parityOverflow_bit]

/-- The registers after one round of the LDIR or LDDR at `pc` that copied `byte`. -/
structure LdRound (direction : Direction) (byte : Byte) (pc : Word) (r next : Registers) :
    Prop where
  pc : next.pc = if r.bc - 1 != 0 then pc else pc + 2
  hl : next.hl = r.hl + BitVec.ofInt 16 direction.delta
  de : next.de = r.de + BitVec.ofInt 16 direction.delta
  bc : next.bc = r.bc - 1
  a : next.a = r.a
  flags : next.flags = blockLdFlags r.flags r.a byte (r.bc - 1)
  running : next.halted = r.halted

theorem blockLd_round (direction : Direction) (memory : Memory) (cpu : Cpu) :
    (edArm direction.ldOpcode).Holds (fun t next tail => ReadsFrom memory tail →
      t = (if cpu.regs.bc - 1 != 0 then 21 else 16) ∧
      memoryAfter memory tail = copyCell cpu.regs.hl cpu.regs.de memory ∧
      (cpu.undisturbed → next.settleQ.undisturbed) ∧
      LdRound direction (memory cpu.regs.hl) (cpu.regs.pc - 2) cpu.regs
        next.settleQ.regs) cpu := by
  have arm : edArm direction.ldOpcode = blockLd direction.delta true := by
    cases direction <;> rfl
  rw [arm, holds_blockLd]
  refine fun v => ⟨fun last reads => ?_, fun again reads => ?_⟩
  all_goals
    have byte : v = memory cpu.regs.hl := reads.1
    subst byte
  · rw [Bool.true_and] at last
    rw [last]
    refine ⟨rfl, ?_, id, ⟨?_, word_hi_lo _, word_hi_lo _, word_hi_lo _, rfl, rfl, rfl⟩⟩
    · simp [copyCell]
    · change cpu.regs.pc =
        if cpu.regs.bc - 1 != 0 then cpu.regs.pc - 2 else cpu.regs.pc - 2 + 2
      rw [last]
      exact (BitVec.sub_add_cancel _ _).symm
  · rw [Bool.true_and] at again
    rw [again]
    refine ⟨rfl, ?_, id, ⟨?_, word_hi_lo _, word_hi_lo _, word_hi_lo _, rfl, rfl, rfl⟩⟩
    · simp [copyCell]
    · change cpu.regs.pc - 2 =
        if cpu.regs.bc - 1 != 0 then cpu.regs.pc - 2 else cpu.regs.pc - 2 + 2
      rw [again]
      rfl

/-- What a step over LDIR or LDDR does. -/
structure LdStepped (direction : Direction) (memory : Memory) (cpu : Cpu) (kind : StepKind)
    (next : Cpu) (path : Path) : Prop where
  kind : kind = .instruction (if cpu.regs.bc - 1 != 0 then 21 else 16)
  undisturbed : next.undisturbed
  round : LdRound direction (memory cpu.regs.hl) cpu.regs.pc cpu.regs next.regs
  memory : memoryAfter memory path = copyCell cpu.regs.hl cpu.regs.de memory

theorem ldRound_holds (direction : Direction) (fuel : Nat) (memory : Memory) {cpu : Cpu}
    (running : cpu.regs.halted = false) (undisturbed : cpu.undisturbed)
    (first : memory cpu.regs.pc = 0xED) (second : memory (cpu.regs.pc + 1) = direction.ldOpcode) :
    (stepBody fuel).Holds (fun found next path => ReadsFrom memory path →
      ∃ kind, found = some kind ∧ LdStepped direction memory cpu kind next path) cpu := by
  refine holds_stepBody_ed fuel undisturbed running first second ?_
  refine (blockLd_round direction memory _).mono ?_
  intro t next tail round reads
  obtain ⟨cost, copied, still, pc, hl, de, bc, a, flags, halted⟩ := round reads
  simp only [edFetched_pc, edFetched_hl, edFetched_de, edFetched_bc, edFetched_a, edFetched_flags,
    edFetched_halted] at cost copied pc hl de bc a flags halted
  refine ⟨.instruction t, rfl, congrArg _ cost, still undisturbed.edFetched,
    ⟨?_, hl, de, bc, a, flags, halted⟩, ?_⟩
  · rw [pc, BitVec.add_sub_cancel]
  · rw [memoryAfter_append]
    exact copied

section Round
variable {Host : Type} {bus : RamBus Host} {s : Machine Host}

theorem step_ldRound (direction : Direction) (fuel : Nat)
    (running : s.z80.regs.halted = false) (undisturbed : s.z80.undisturbed)
    (first : bus.memory s.host s.z80.regs.pc = 0xED)
    (second : bus.memory s.host (s.z80.regs.pc + 1) = direction.ldOpcode) :
    ∃ stepped, step bus.toBus fuel s = some stepped ∧
      stepped.kind = .instruction (if s.z80.regs.bc - 1 != 0 then 21 else 16) ∧
      stepped.machine.z80.undisturbed ∧
      LdRound direction (bus.memory s.host s.z80.regs.hl) s.z80.regs.pc s.z80.regs
        stepped.machine.z80.regs ∧
      bus.memory stepped.machine.host =
        copyCell s.z80.regs.hl s.z80.regs.de (bus.memory s.host) := by
  obtain ⟨stepped, returns, ⟨kind, still, round, path⟩, memory⟩ :=
    bus.step_executes (ldRound_holds direction fuel (bus.memory s.host) running undisturbed first
      second)
  exact ⟨stepped, returns, kind, still, round, memory.trans path⟩

end Round

/-! ## The whole block -/

section Whole
variable {Host : Type} {bus : RamBus Host} {direction : Direction}

/-- `k` rounds after `start`. -/
structure Copying (bus : RamBus Host) (direction : Direction) (start : Machine Host) (k : Nat)
    (s : Machine Host) : Prop where
  running : s.z80.regs.halted = false
  undisturbed : s.z80.undisturbed
  pc : s.z80.regs.pc =
    if k = start.z80.regs.bc.toNat then start.z80.regs.pc + 2 else start.z80.regs.pc
  bc : s.z80.regs.bc = start.z80.regs.bc - BitVec.ofNat 16 k
  hl : s.z80.regs.hl = direction.move start.z80.regs.hl k
  de : s.z80.regs.de = direction.move start.z80.regs.de k
  a : s.z80.regs.a = start.z80.regs.a
  kept : sign s.z80.regs.flags = sign start.z80.regs.flags ∧
    zero s.z80.regs.flags = zero start.z80.regs.flags ∧
    carry s.z80.regs.flags = carry start.z80.regs.flags
  cleared : k ≠ 0 → halfCarry s.z80.regs.flags = false ∧ addSub s.z80.regs.flags = false ∧
    parityOverflow s.z80.regs.flags = (s.z80.regs.bc != 0)
  memory : bus.memory s.host = copy (direction.move start.z80.regs.hl)
    (direction.move start.z80.regs.de) (bus.memory start.host) k

theorem more_rounds {bc : Word} {k : Nat} (lt : k < bc.toNat) :
    (bc - BitVec.ofNat 16 k - 1 != 0) = !decide (k + 1 = bc.toNat) := by
  by_cases last : k + 1 = bc.toNat
  · have zero : bc - BitVec.ofNat 16 k - 1 = 0 := by bv_omega
    rw [zero]
    simp [last]
  · have nonzero : bc - BitVec.ofNat 16 k - 1 ≠ 0 := by bv_omega
    rw [bne_iff_ne.mpr nonzero]
    simp [last]

theorem Copying.unchanged {start s : Machine Host} {k : Nat} {address : Word}
    (copying : Copying bus direction start k s) (within : k ≤ start.z80.regs.bc.toNat)
    (apart : ∀ i < start.z80.regs.bc.toNat, direction.move start.z80.regs.de i ≠ address) :
    bus.memory s.host address = bus.memory start.host address := by
  rw [copying.memory]
  exact copy_outside fun i before => (apart i (before.trans_le within)).symm

section Next
variable {start s : Machine Host} {k : Nat} (copying : Copying bus direction start k s)
  (fuel : Nat)
  (first : bus.memory start.host start.z80.regs.pc = 0xED)
  (second : bus.memory start.host (start.z80.regs.pc + 1) = direction.ldOpcode)
  (outside : ∀ i < start.z80.regs.bc.toNat,
    direction.move start.z80.regs.de i ≠ start.z80.regs.pc ∧
      direction.move start.z80.regs.de i ≠ start.z80.regs.pc + 1)
  (lt : k < start.z80.regs.bc.toNat)
include copying first second outside lt

theorem Copying.next :
    ∃ stepped, step bus.toBus fuel s = some stepped ∧
      stepped.kind = .instruction (if k + 1 = start.z80.regs.bc.toNat then 16 else 21) ∧
      Copying bus direction start (k + 1) stepped.machine := by
  have pc : s.z80.regs.pc = start.z80.regs.pc := by rw [copying.pc, if_neg lt.ne]
  have again : (s.z80.regs.bc - 1 != 0) = !decide (k + 1 = start.z80.regs.bc.toNat) := by
    rw [copying.bc]
    exact more_rounds lt
  obtain ⟨stepped, returns, kind, undisturbed, round, memory⟩ :=
    step_ldRound direction fuel copying.running copying.undisturbed
      (by rw [pc, copying.unchanged lt.le fun i lt => (outside i lt).1, first])
      (by rw [pc, copying.unchanged lt.le fun i lt => (outside i lt).2, second])
  obtain ⟨signKept, zeroKept, carryKept, half, sub, parity⟩ :=
    blockLdFlags_bits s.z80.regs.flags s.z80.regs.a (bus.memory s.host s.z80.regs.hl)
      (s.z80.regs.bc - 1)
  rw [← round.flags] at signKept zeroKept carryKept half sub parity
  refine ⟨stepped, returns, ?_, ?_⟩
  · rw [kind, again]
    by_cases last : k + 1 = start.z80.regs.bc.toNat <;> simp [last]
  · exact
      { running := round.running.trans copying.running
        undisturbed := undisturbed
        pc := by
          rw [round.pc, again, pc]
          by_cases last : k + 1 = start.z80.regs.bc.toNat <;> simp [last]
        bc := by
          rw [round.bc, copying.bc]
          bv_omega
        hl := by rw [round.hl, copying.hl, direction.move_succ]
        de := by rw [round.de, copying.de, direction.move_succ]
        a := round.a.trans copying.a
        kept := ⟨signKept.trans copying.kept.1, zeroKept.trans copying.kept.2.1,
          carryKept.trans copying.kept.2.2⟩
        cleared := fun _ => ⟨half, sub, by rw [parity, round.bc]⟩
        memory := by rw [memory, copying.hl, copying.de, copying.memory, copy] }

theorem Copying.round (noWaits : ∀ cycles address tStates host,
      (bus.onMCycle cycles address tStates host).1 = 0) :
    ∃ stepped, step bus.toBus fuel s = some stepped ∧
      stepped.returned = (if k + 1 = start.z80.regs.bc.toNat then 16 else 21) ∧
      Copying bus direction start (k + 1) stepped.machine := by
  obtain ⟨stepped, returns, kind, later⟩ := copying.next fuel first second outside lt
  refine ⟨stepped, returns, ?_, later⟩
  exact step_returned_noWaits noWaits returns kind (by split <;> decide) (by split <;> decide)

end Next

theorem Copying.start {s : Machine Host} (running : s.z80.regs.halted = false)
    (undisturbed : s.z80.undisturbed) (positive : 1 ≤ s.z80.regs.bc.toNat) :
    Copying bus direction s 0 s where
  running := running
  undisturbed := undisturbed
  pc := by rw [if_neg (Nat.ne_of_lt positive)]
  bc := by simp
  hl := by rw [direction.move_zero]
  de := by rw [direction.move_zero]
  a := rfl
  kept := ⟨rfl, rfl, rfl⟩
  cleared := fun none => absurd rfl none
  memory := rfl

end Whole

/-- LDIR and LDDR, run to completion on a RAM host without waits and interrupts:
after exactly BC steps the block is copied, byte by byte where it overlaps. -/
theorem block_transfer {Host : Type} (bus : RamBus Host) (direction : Direction) (fuel : Nat)
    (s : Machine Host)
    (noWaits : ∀ cycles address tStates host,
      (bus.onMCycle cycles address tStates host).1 = 0)
    (running : s.z80.regs.halted = false) (undisturbed : s.z80.undisturbed)
    (first : bus.memory s.host s.z80.regs.pc = 0xED)
    (second : bus.memory s.host (s.z80.regs.pc + 1) = direction.ldOpcode)
    (positive : 1 ≤ s.z80.regs.bc.toNat)
    (outside : ∀ i < s.z80.regs.bc.toNat, direction.move s.z80.regs.de i ≠ s.z80.regs.pc ∧
      direction.move s.z80.regs.de i ≠ s.z80.regs.pc + 1) :
    let r := s.z80.regs
    let n := r.bc.toNat
    let d := direction.distance r.hl r.de
    let before := bus.memory s.host
    (∀ k < n, ∃ ran, stepTimes bus.toBus fuel k s = some ran ∧ ran.machine.z80.regs.pc = r.pc) ∧
    ∃ ran, stepTimes bus.toBus fuel n s = some ran ∧ ran.value = 21 * (n - 1) + 16 ∧
      let next := ran.machine.z80.regs
      let after := bus.memory ran.machine.host
      next.pc = r.pc + 2 ∧ next.bc = 0 ∧
      next.hl = direction.move r.hl n ∧ next.de = direction.move r.de n ∧
      (parityOverflow next.flags = false ∧ halfCarry next.flags = false ∧
        addSub next.flags = false) ∧
      (sign next.flags = sign r.flags ∧ zero next.flags = zero r.flags ∧
        carry next.flags = carry r.flags) ∧
      next.a = r.a ∧
      (∀ address, (∀ i < n, address ≠ direction.move r.de i) → after address = before address) ∧
      (d ≠ 0 → ∀ i < n, after (direction.move r.de i) = before (direction.move r.hl (i % d))) ∧
      (d = 0 → ∀ i < n, after (direction.move r.de i) = before (direction.move r.de i)) ∧
      (d = 0 ∨ n ≤ d → ∀ i < n,
        after (direction.move r.de i) = before (direction.move r.hl i)) := by
  intro r n d before
  have fits : n < 2 ^ 16 := r.bc.isLt
  have rounds {k : Nat} (enough : k ≤ n) := stepTimes_rounds (Copying bus direction s)
    (Copying.start running undisturbed positive)
    (fun k _ lt copying => copying.round fuel first second outside lt noWaits) enough
  refine ⟨fun k lt => ?_, ?_⟩
  · obtain ⟨ran, returns, -, copying⟩ := rounds lt.le
    refine ⟨ran, returns, ?_⟩
    rw [copying.pc, if_neg lt.ne]
  · obtain ⟨ran, returns, value, copying⟩ := rounds le_rfl
    have done : ran.machine.z80.regs.bc = 0 := by
      rw [copying.bc, BitVec.ofNat_toNat, BitVec.setWidth_eq]
      exact BitVec.sub_self _
    have lagged (apart : d ≠ 0) : ∀ i < n, bus.memory ran.machine.host (direction.move r.de i) =
        before (direction.move r.hl (i % d)) := by
      intro i lt
      rw [copying.memory]
      exact transfer_lag fits (Nat.pos_of_ne_zero apart) lt
    have still (same : d = 0) : bus.memory ran.machine.host = before := by
      rw [copying.memory]
      exact transfer_self same
    obtain ⟨half, sub, parity⟩ := copying.cleared (Nat.ne_of_gt positive)
    refine ⟨ran, returns, value.trans (rounds_cost positive), ?_, done, copying.hl, copying.de,
      ⟨?_, half, sub⟩, copying.kept, copying.a, ?_, lagged, ?_, ?_⟩
    · rw [copying.pc, if_pos rfl]
    · rw [parity, done]
      rfl
    · intro address apart
      rw [copying.memory]
      exact copy_outside apart
    · intro same i lt
      rw [still same]
    · rintro (same | far) i lt
      · have target := direction.move_distance r.hl r.de
        rw [still same]
        rw [show direction.distance r.hl r.de = 0 from same, direction.move_zero] at target
        rw [target]
      · have apart : d ≠ 0 := by omega
        rw [lagged apart i lt, Nat.mod_eq_of_lt (by omega)]

/-- Two bytes with DE = HL + 1: the first byte fills both cells. -/
theorem block_transfer_fill :
    let s : Machine Memory :=
      { z80 := { regs := { h := 0x40, d := 0x40, e := 1, c := 2 } }
        host := programAt 0 [0xED, 0xB0] 0x2A }
    ∃ ran, stepTimes flatRam.toBus 0 2 s = some ran ∧ ran.value = 37 ∧
      flatRam.memory ran.machine.host 0x4002 = s.host 0x4000 := by
  obtain ⟨-, ran, returns, value, -, -, -, -, -, -, -, -, lagged, -⟩ :=
    block_transfer flatRam .up 0
      { z80 := { regs := { h := 0x40, d := 0x40, e := 1, c := 2 } }
        host := programAt 0 [0xED, 0xB0] 0x2A }
      (fun _ _ _ _ => rfl) rfl ⟨rfl, rfl⟩ rfl rfl (by decide) (by decide)
  exact ⟨ran, returns, value, lagged (by decide) 1 (by decide)⟩

end Z80f
