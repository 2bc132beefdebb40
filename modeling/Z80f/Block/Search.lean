import Z80f.Block.Direction
import Z80f.Block.Rounds
import Z80f.Cpu.BlockRules
import Z80f.Cpu.FlagBits

/-! # CPIR and CPDR

A search stops at the first match or when BC is used up, whichever round comes
first.  The invariant counts the rounds that did neither. -/

set_option autoImplicit false

namespace Z80f

open Interaction Stateful Z80M Flags

def Direction.cpOpcode : Direction → Byte
  | .up => 0xB1
  | .down => 0xB9

theorem lo_subDiff (a v : Byte) : lo (subDiff a v 0#16) = a - v := by
  apply BitVec.eq_of_toNat_eq
  have aBound := a.isLt
  rw [toNat_lo, toNat_subDiff a v (by decide), BitVec.toNat_sub, BitVec.toNat_ofNat]
  omega

theorem blockCpHalf_eq (a v : Byte) :
    blockCpHalf a v = decide (a.toNat % 16 < v.toNat % 16) :=
  half_sub a v (by decide)

theorem blockCpFlags_bits (flags a byte : Byte) (bc : Word) :
    let f := blockCpFlags flags a byte bc
    sign f = (a - byte).msb ∧ zero f = (a == byte) ∧ carry f = carry flags ∧
      halfCarry f = decide (a.toNat % 16 < byte.toNat % 16) ∧ addSub f = true ∧
      parityOverflow f = (bc != 0) := by
  have top : (a - byte &&& 0x80#8 != 0#8) = (a - byte).msb := sign_bit _
  simp [blockCpFlags, sign_bit, zero_bit, carry_bit, halfCarry_bit, addSub_bit,
    parityOverflow_bit, lo_subDiff, blockCpHalf_eq, top]
  exact sub_eq_zero

/-- CPIR and CPDR repeat. -/
def searchesOn (a byte : Byte) (bc : Word) : Bool := bc != 0 && a != byte

/-- The registers after one round of the CPIR or CPDR at `pc` that compared `byte`. -/
structure CpRound (direction : Direction) (byte : Byte) (pc : Word) (r next : Registers) :
    Prop where
  pc : next.pc = if searchesOn r.a byte (r.bc - 1) then pc else pc + 2
  hl : next.hl = r.hl + BitVec.ofInt 16 direction.delta
  de : next.de = r.de
  bc : next.bc = r.bc - 1
  a : next.a = r.a
  flags : next.flags = blockCpFlags r.flags r.a byte (r.bc - 1)
  running : next.halted = r.halted

structure CpDone (direction : Direction) (memory : Memory) (cpu : Cpu) (t : Int) (next : Cpu)
    (tail : Path) : Prop where
  cost : t = if searchesOn cpu.regs.a (memory cpu.regs.hl) (cpu.regs.bc - 1) then 21 else 16
  unwritten : memoryAfter memory tail = memory
  undisturbed : cpu.undisturbed → next.undisturbed
  round : CpRound direction (memory cpu.regs.hl) (cpu.regs.pc - 2) cpu.regs next.regs

theorem blockCp_round (direction : Direction) (memory : Memory) (cpu : Cpu) :
    (edArm direction.cpOpcode).Holds (fun t next tail => ReadsFrom memory tail →
      CpDone direction memory cpu t next.settleQ tail) cpu := by
  have arm : edArm direction.cpOpcode = blockCp direction.delta true := by
    cases direction <;> rfl
  have same (v : Byte) : (true && cpu.regs.bc - 1 != 0 && lo (subDiff cpu.regs.a v 0) != 0) =
      searchesOn cpu.regs.a v (cpu.regs.bc - 1) := by
    have differ : (cpu.regs.a - v != 0#8) = (cpu.regs.a != v) := by
      rw [Bool.eq_iff_iff, bne_iff_ne, bne_iff_ne, not_iff_not]
      exact sub_eq_zero
    rw [Bool.true_and, searchesOn, ← differ, ← lo_subDiff]
    rfl
  rw [arm, holds_blockCp]
  refine fun v => ⟨fun last reads => ?_, fun again reads => ?_⟩
  all_goals
    have byte : v = memory cpu.regs.hl := reads.1
    subst byte
  · rw [same] at last
    refine ⟨(if_neg (Bool.eq_false_iff.mp last)).symm, by simp, id,
      ⟨?_, word_hi_lo _, rfl, word_hi_lo _, rfl, rfl, rfl⟩⟩
    change cpu.regs.pc = if searchesOn cpu.regs.a (memory cpu.regs.hl) (cpu.regs.bc - 1) then
      cpu.regs.pc - 2 else cpu.regs.pc - 2 + 2
    rw [last]
    exact (BitVec.sub_add_cancel _ _).symm
  · rw [same] at again
    refine ⟨(if_pos again).symm, by simp, id,
      ⟨?_, word_hi_lo _, rfl, word_hi_lo _, rfl, rfl, rfl⟩⟩
    change cpu.regs.pc - 2 = if searchesOn cpu.regs.a (memory cpu.regs.hl) (cpu.regs.bc - 1) then
      cpu.regs.pc - 2 else cpu.regs.pc - 2 + 2
    rw [again]
    rfl

section Round
variable {Host : Type} {bus : RamBus Host} {s : Machine Host}

theorem step_cpRound (direction : Direction) (fuel : Nat)
    (running : s.z80.regs.halted = false) (undisturbed : s.z80.undisturbed)
    (first : bus.memory s.host s.z80.regs.pc = 0xED)
    (second : bus.memory s.host (s.z80.regs.pc + 1) = direction.cpOpcode) :
    ∃ stepped, step bus.toBus fuel s = some stepped ∧
      stepped.kind = .instruction (if searchesOn s.z80.regs.a
        (bus.memory s.host s.z80.regs.hl) (s.z80.regs.bc - 1) then 21 else 16) ∧
      stepped.machine.z80.undisturbed ∧
      CpRound direction (bus.memory s.host s.z80.regs.hl) s.z80.regs.pc s.z80.regs
        stepped.machine.z80.regs ∧
      bus.memory stepped.machine.host = bus.memory s.host := by
  obtain ⟨stepped, t, tail, returns, kind, -, done, memory⟩ := bus.step_ed fuel
    (CpDone direction (bus.memory s.host) s.z80.toCpu.edFetched) running undisturbed first second
    (blockCp_round direction (bus.memory s.host) _)
  obtain ⟨cost, kept, still, pc, hl, de, bc, a, flags, halted⟩ := done
  simp only [edFetched_pc, edFetched_hl, edFetched_de, edFetched_bc, edFetched_a, edFetched_flags,
    edFetched_halted, BitVec.add_sub_cancel] at cost pc hl de bc a flags halted
  exact ⟨stepped, returns, kind.trans (congrArg _ cost), still undisturbed.edFetched,
    ⟨pc, hl, de, bc, a, flags, halted⟩, memory.trans kept⟩

end Round

/-! ## The whole search -/

section Whole
variable {Host : Type} {bus : RamBus Host} {direction : Direction}

def searchByte (bus : RamBus Host) (direction : Direction) (start : Machine Host) (k : Nat) :
    Byte :=
  bus.memory start.host (direction.move start.z80.regs.hl k)

/-- BC before the first round, 0 being 2^16. -/
def searchLength (start : Machine Host) : Nat :=
  if start.z80.regs.bc = 0 then 65536 else start.z80.regs.bc.toNat

/-- The search from `start` takes `count` rounds: only the last finds a match
or uses BC up. -/
structure Stops (bus : RamBus Host) (direction : Direction) (start : Machine Host)
    (count : Nat) : Prop where
  positive : 1 ≤ count
  within : count ≤ searchLength start
  earlier : ∀ k, k + 1 < count → searchByte bus direction start k ≠ start.z80.regs.a
  last : searchByte bus direction start (count - 1) = start.z80.regs.a ∨
    count = searchLength start

/-- `k` of `count` rounds after `start`. -/
structure Searching (bus : RamBus Host) (direction : Direction) (start : Machine Host)
    (count k : Nat) (s : Machine Host) : Prop where
  running : s.z80.regs.halted = false
  undisturbed : s.z80.undisturbed
  pc : s.z80.regs.pc = if k = count then start.z80.regs.pc + 2 else start.z80.regs.pc
  bc : s.z80.regs.bc = start.z80.regs.bc - BitVec.ofNat 16 k
  hl : s.z80.regs.hl = direction.move start.z80.regs.hl k
  de : s.z80.regs.de = start.z80.regs.de
  a : s.z80.regs.a = start.z80.regs.a
  carry : carry s.z80.regs.flags = carry start.z80.regs.flags
  memory : bus.memory s.host = bus.memory start.host
  compared : ∀ last, k = last + 1 →
    let f := s.z80.regs.flags
    let byte := searchByte bus direction start last
    sign f = (start.z80.regs.a - byte).msb ∧ zero f = (start.z80.regs.a == byte) ∧
      halfCarry f = decide (start.z80.regs.a.toNat % 16 < byte.toNat % 16) ∧ addSub f = true ∧
      parityOverflow f = (s.z80.regs.bc != 0)

theorem Stops.again {start : Machine Host} {count k : Nat}
    (stops : Stops bus direction start count) (lt : k < count) :
    searchesOn start.z80.regs.a (searchByte bus direction start k)
      (start.z80.regs.bc - BitVec.ofNat 16 k - 1) = !decide (k + 1 = count) := by
  have length := stops.within
  unfold searchLength at length
  have used : start.z80.regs.bc - BitVec.ofNat 16 k - 1 = 0 ↔ k + 1 = searchLength start := by
    have bound := start.z80.regs.bc.isLt
    unfold searchLength
    split at length
    · rename_i zero
      rw [if_pos zero, zero]
      bv_omega
    · rename_i nonzero
      rw [if_neg nonzero]
      bv_omega
  by_cases final : k + 1 = count
  · rw [decide_eq_true final, searchesOn, Bool.not_true, Bool.and_eq_false_iff]
    rcases stops.last with found | exhausted
    · right
      rw [← final, Nat.add_sub_cancel] at found
      rw [found, bne_self_eq_false]
    · left
      rw [used.mpr (final.trans exhausted)]
      rfl
  · have before : k + 1 < count := by omega
    rw [decide_eq_false final, searchesOn, Bool.not_false, Bool.and_eq_true, bne_iff_ne,
      bne_iff_ne]
    refine ⟨fun zero => ?_, (stops.earlier k before).symm⟩
    have within := stops.within
    have ends := used.mp zero
    omega

theorem Searching.round {start s : Machine Host} {count k : Nat} (fuel : Nat)
    (noWaits : ∀ cycles address tStates host,
      (bus.onMCycle cycles address tStates host).1 = 0)
    (first : bus.memory start.host start.z80.regs.pc = 0xED)
    (second : bus.memory start.host (start.z80.regs.pc + 1) = direction.cpOpcode)
    (stops : Stops bus direction start count) (lt : k < count)
    (searching : Searching bus direction start count k s) :
    ∃ stepped, step bus.toBus fuel s = some stepped ∧
      stepped.returned = (if k + 1 = count then 16 else 21) ∧
      Searching bus direction start count (k + 1) stepped.machine := by
  have pc : s.z80.regs.pc = start.z80.regs.pc := by rw [searching.pc, if_neg lt.ne]
  have byte : bus.memory s.host s.z80.regs.hl = searchByte bus direction start k := by
    rw [searching.memory, searching.hl, searchByte]
  have again : searchesOn s.z80.regs.a (bus.memory s.host s.z80.regs.hl) (s.z80.regs.bc - 1) =
      !decide (k + 1 = count) := by
    rw [byte, searching.a, searching.bc]
    exact stops.again lt
  obtain ⟨stepped, returns, kind, undisturbed, round, memory⟩ :=
    step_cpRound direction fuel searching.running searching.undisturbed
      (by rw [pc, searching.memory, first]) (by rw [pc, searching.memory, second])
  obtain ⟨signOf, zeroOf, carryKept, half, sub, parity⟩ :=
    blockCpFlags_bits s.z80.regs.flags s.z80.regs.a (bus.memory s.host s.z80.regs.hl)
      (s.z80.regs.bc - 1)
  rw [← round.flags] at signOf zeroOf carryKept half sub parity
  rw [byte, searching.a] at signOf zeroOf half
  refine ⟨stepped, returns, ?_, ?_⟩
  · rw [again] at kind
    rw [step_returned_noWaits noWaits returns kind (by split <;> decide) (by split <;> decide)]
    by_cases last : k + 1 = count <;> simp [last]
  · exact
      { running := round.running.trans searching.running
        undisturbed := undisturbed
        pc := by
          rw [round.pc, again, pc]
          by_cases last : k + 1 = count <;> simp [last]
        bc := by
          rw [round.bc, searching.bc]
          bv_omega
        hl := by rw [round.hl, searching.hl, direction.move_succ]
        de := round.de.trans searching.de
        a := round.a.trans searching.a
        carry := carryKept.trans searching.carry
        memory := memory.trans searching.memory
        compared := by
          rintro last ⟨rfl⟩
          exact ⟨signOf, zeroOf, half, sub, by rw [parity, round.bc]⟩ }

theorem Searching.start {s : Machine Host} {count : Nat}
    (running : s.z80.regs.halted = false) (undisturbed : s.z80.undisturbed)
    (positive : 1 ≤ count) : Searching bus direction s count 0 s where
  running := running
  undisturbed := undisturbed
  pc := by rw [if_neg (Nat.ne_of_lt positive)]
  bc := by simp
  hl := by rw [direction.move_zero]
  de := rfl
  a := rfl
  carry := rfl
  memory := rfl
  compared last impossible := by cases impossible

/-- The search from `s` completes in exactly `count` steps. -/
structure Searched (bus : RamBus Host) (direction : Direction) (fuel : Nat) (s : Machine Host)
    (count : Nat) (ran : Ran Host Int) : Prop where
  returns : stepTimes bus.toBus fuel count s = some ran
  exactly : ∀ k < count, ∃ early, stepTimes bus.toBus fuel k s = some early ∧
    early.machine.z80.regs.pc = s.z80.regs.pc
  cost : ran.value = 21 * (count - 1) + 16
  pc : ran.machine.z80.regs.pc = s.z80.regs.pc + 2
  hl : ran.machine.z80.regs.hl = direction.move s.z80.regs.hl count
  de : ran.machine.z80.regs.de = s.z80.regs.de
  a : ran.machine.z80.regs.a = s.z80.regs.a
  carry : carry ran.machine.z80.regs.flags = carry s.z80.regs.flags
  addSub : addSub ran.machine.z80.regs.flags = true
  sign : sign ran.machine.z80.regs.flags =
    (s.z80.regs.a - searchByte bus direction s (count - 1)).msb
  half : halfCarry ran.machine.z80.regs.flags =
    decide (s.z80.regs.a.toNat % 16 < (searchByte bus direction s (count - 1)).toNat % 16)
  memory : bus.memory ran.machine.host = bus.memory s.host

theorem search_stops {s : Machine Host} {count : Nat} (fuel : Nat)
    (noWaits : ∀ cycles address tStates host,
      (bus.onMCycle cycles address tStates host).1 = 0)
    (running : s.z80.regs.halted = false) (undisturbed : s.z80.undisturbed)
    (first : bus.memory s.host s.z80.regs.pc = 0xED)
    (second : bus.memory s.host (s.z80.regs.pc + 1) = direction.cpOpcode)
    (stops : Stops bus direction s count) :
    ∃ ran, Searched bus direction fuel s count ran ∧
      ran.machine.z80.regs.bc = s.z80.regs.bc - BitVec.ofNat 16 count ∧
      zero ran.machine.z80.regs.flags =
        (s.z80.regs.a == searchByte bus direction s (count - 1)) ∧
      parityOverflow ran.machine.z80.regs.flags = (ran.machine.z80.regs.bc != 0) := by
  have rounds {k : Nat} (enough : k ≤ count) :=
    stepTimes_rounds (Searching bus direction s count)
      (Searching.start running undisturbed stops.positive)
      (fun k _ lt searching => searching.round fuel noWaits first second stops lt) enough
  obtain ⟨ran, returns, value, done⟩ := rounds le_rfl
  have last : count = count - 1 + 1 := (Nat.sub_add_cancel stops.positive).symm
  obtain ⟨signOf, zeroOf, half, sub, parity⟩ := done.compared _ last
  refine ⟨ran, ?_, done.bc, zeroOf, parity⟩
  exact
    { returns := returns
      exactly := by
        intro k lt
        obtain ⟨early, earlyReturns, -, searching⟩ := rounds lt.le
        refine ⟨early, earlyReturns, ?_⟩
        rw [searching.pc, if_neg lt.ne]
      cost := value.trans (rounds_cost stops.positive)
      pc := by rw [done.pc, if_pos rfl]
      hl := done.hl
      de := done.de
      a := done.a
      carry := done.carry
      addSub := sub
      sign := signOf
      half := half
      memory := done.memory }

end Whole

/-- CPIR and CPDR, run to completion on a RAM host without waits and interrupts:
they stop behind the first match, or after BC bytes when there is none. -/
theorem block_search {Host : Type} (bus : RamBus Host) (direction : Direction) (fuel : Nat)
    (s : Machine Host)
    (noWaits : ∀ cycles address tStates host,
      (bus.onMCycle cycles address tStates host).1 = 0)
    (running : s.z80.regs.halted = false) (undisturbed : s.z80.undisturbed)
    (first : bus.memory s.host s.z80.regs.pc = 0xED)
    (second : bus.memory s.host (s.z80.regs.pc + 1) = direction.cpOpcode) :
    let n := searchLength s
    let byte := searchByte bus direction s
    (∀ i < n, byte i = s.z80.regs.a → (∀ j < i, byte j ≠ s.z80.regs.a) →
      ∃ ran, Searched bus direction fuel s (i + 1) ran ∧
        let next := ran.machine.z80.regs
        next.bc.toNat = n - i - 1 ∧ zero next.flags = true ∧
        parityOverflow next.flags = (next.bc != 0)) ∧
    ((∀ i < n, byte i ≠ s.z80.regs.a) →
      ∃ ran, Searched bus direction fuel s n ran ∧
        let next := ran.machine.z80.regs
        next.bc = 0 ∧ zero next.flags = false ∧ parityOverflow next.flags = false) := by
  intro n byte
  have bound := s.z80.regs.bc.isLt
  have length : n = searchLength s := rfl
  have positive : 1 ≤ n := by
    unfold searchLength at length
    split at length
    · omega
    · rename_i nonzero
      bv_omega
  have left {count : Nat} (some : 1 ≤ count) (within : count ≤ n) :
      (s.z80.regs.bc - BitVec.ofNat 16 count).toNat = n - count := by
    unfold searchLength at length
    split at length
    · rename_i none
      rw [none]
      bv_omega
    · bv_omega
  refine ⟨fun i lt found earlier => ?_, fun absent => ?_⟩
  · have stops : Stops bus direction s (i + 1) :=
      ⟨by omega, lt, fun j before => earlier j (by omega), .inl found⟩
    obtain ⟨ran, searched, bc, zeroOf, parity⟩ :=
      search_stops fuel noWaits running undisturbed first second stops
    refine ⟨ran, searched, ?_, ?_, parity⟩
    · rw [bc, left (Nat.succ_pos i) lt]
      omega
    · rw [zeroOf, beq_iff_eq]
      exact found.symm
  · have stops : Stops bus direction s n :=
      ⟨positive, le_rfl, fun j before => absent j (by omega), .inr rfl⟩
    obtain ⟨ran, searched, bc, zeroOf, parity⟩ :=
      search_stops fuel noWaits running undisturbed first second stops
    have done : ran.machine.z80.regs.bc = 0 := by
      apply BitVec.eq_of_toNat_eq
      rw [bc, left positive le_rfl, Nat.sub_self]
      rfl
    refine ⟨ran, searched, done, ?_, ?_⟩
    · rw [zeroOf, beq_eq_false_iff_ne]
      exact (absent (n - 1) (by omega)).symm
    · rw [parity, done]
      rfl

theorem block_search_last :
    let s : Machine Memory :=
      { z80 := { regs := { a := 0xB1, h := 0, l := 0, c := 2 } }
        host := programAt 0 [0xED, 0xB1] 0 }
    ∃ ran, stepTimes flatRam.toBus 0 2 s = some ran ∧ ran.value = 37 ∧
      zero ran.machine.z80.regs.flags = true ∧ ran.machine.z80.regs.bc.toNat = 0 := by
  obtain ⟨found, -⟩ := block_search flatRam .up 0
    { z80 := { regs := { a := 0xB1, h := 0, l := 0, c := 2 } }
      host := programAt 0 [0xED, 0xB1] 0 }
    (fun _ _ _ _ => rfl) rfl ⟨rfl, rfl⟩ rfl rfl
  obtain ⟨ran, searched, bc, zeroOf, -⟩ := found 1 (by decide) rfl (by decide)
  exact ⟨ran, searched.returns, searched.cost, zeroOf, bc⟩

end Z80f
