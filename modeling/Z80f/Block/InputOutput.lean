import Z80f.Block.Direction
import Z80f.Block.Rounds
import Z80f.Cpu.BlockRules
import Z80f.Cpu.FlagBits

/-! # INIR, INDR, OTIR and OTDR

A block goes from one port to memory or back.  B counts the rounds and is also
the high half of the port address, decremented before an output and after an
input.  The invariant carries the accesses made so far: each moved the byte that
memory now has in its cell. -/

set_option autoImplicit false

namespace Z80f

open Interaction Stateful Z80M Flags

inductive Way where
  | input
  | output

def Way.opcode : Way → Direction → Byte
  | .input, .up => 0xB2
  | .input, .down => 0xBA
  | .output, .up => 0xB3
  | .output, .down => 0xBB

def Way.access (way : Way) (b c byte : Byte) : Sigma Answer :=
  match way with
  | .input => ioReadOf (word b c) byte
  | .output => ioWriteOf (word (b - 1) c) byte

def isPort : Request → Bool
  | .readIo _ | .writeIo _ _ => true
  | _ => false

def portsOf (path : Path) : Path := path.filter fun answered => isPort answered.1

section Ports
variable (a : Word) (v : Byte) (path rest : Path)

@[simp] theorem portsOf_nil : portsOf [] = [] := rfl
@[simp] theorem portsOf_cycle (t : Int) : portsOf (cycle a t :: rest) = portsOf rest := rfl
@[simp] theorem portsOf_read (kind : ReadKind) :
    portsOf (readOf kind a v :: rest) = portsOf rest := rfl
@[simp] theorem portsOf_write : portsOf (writeOf a v :: rest) = portsOf rest := rfl
@[simp] theorem portsOf_ioRead :
    portsOf (ioReadOf a v :: rest) = ioReadOf a v :: portsOf rest := rfl
@[simp] theorem portsOf_ioWrite :
    portsOf (ioWriteOf a v :: rest) = ioWriteOf a v :: portsOf rest := rfl
@[simp] theorem portsOf_append : portsOf (path ++ rest) = portsOf path ++ portsOf rest :=
  List.filter_append ..

@[simp] theorem portsOf_idle (count : Nat) : portsOf (idleCycles a count) = [] := by
  induction count with
  | zero => rfl
  | succ count ih => rw [idleCycles, List.replicate_succ, portsOf_cycle, ih]

end Ports

theorem blockIoFlags_done (byte : Byte) (sum : Word) :
    zero (blockIoFlags 0 byte sum) = true ∧ sign (blockIoFlags 0 byte sum) = false := by
  simp [blockIoFlags, sign_bit, zero_bit]

/-- The registers after one round of the instruction at `pc`. -/
structure IoRound (direction : Direction) (pc : Word) (r next : Registers) : Prop where
  pc : next.pc = if r.b - 1 = 0 then pc + 2 else pc
  hl : next.hl = r.hl + BitVec.ofInt 16 direction.delta
  b : next.b = r.b - 1
  c : next.c = r.c
  a : next.a = r.a
  d : next.d = r.d
  e : next.e = r.e
  flags : r.b - 1 = 0 → zero next.flags = true ∧ sign next.flags = false
  running : next.halted = r.halted

/-- What `block_in` and `block_out` leave before a possible rewind. -/
structure IoMoved (direction : Direction) (r next : Registers) : Prop where
  hl : next.hl = r.hl + BitVec.ofInt 16 direction.delta
  flags : ∃ byte sum, next.flags = blockIoFlags (r.b - 1) byte sum
  rest : next = { r with
    h := next.h, l := next.l, b := r.b - 1, wz := next.wz, flags := next.flags }

theorem IoMoved.kept {direction : Direction} {r next : Registers}
    (moved : IoMoved direction r next) :
    next.pc = r.pc ∧ next.b = r.b - 1 ∧ next.c = r.c ∧ next.a = r.a ∧ next.d = r.d ∧
      next.e = r.e ∧ next.halted = r.halted := by
  rw [moved.rest]
  exact ⟨rfl, rfl, rfl, rfl, rfl, rfl, rfl⟩

theorem IoMoved.last {direction : Direction} {r next : Registers}
    (moved : IoMoved direction r next) (zeroB : r.b - 1 = 0) :
    IoRound direction (r.pc - 2) r next := by
  obtain ⟨pc, b, c, a, d, e, running⟩ := moved.kept
  obtain ⟨hl, ⟨byte, sum, flags⟩, -⟩ := moved
  refine ⟨?_, hl, b, c, a, d, e, fun _ => ?_, running⟩
  · rw [pc, if_pos zeroB, BitVec.sub_add_cancel]
  · rw [flags, zeroB]
    exact blockIoFlags_done byte sum

theorem IoMoved.again {direction : Direction} {r next : Registers}
    (moved : IoMoved direction r next) (nonzero : r.b - 1 ≠ 0) :
    IoRound direction (r.pc - 2) r next.rewoundPc := by
  obtain ⟨pc, b, c, a, d, e, running⟩ := moved.kept
  refine ⟨?_, moved.hl, b, c, a, d, e, fun none => absurd none nonzero, running⟩
  rw [if_neg nonzero, ← pc]
  rfl

theorem IoRound.settleQ {direction : Direction} {pc : Word} {r next : Registers} (cpu : Cpu)
    (round : IoRound direction pc r next) :
    IoRound direction pc r (cpu.flagged next).settleQ.regs := by
  obtain ⟨atPc, hl, b, c, a, d, e, flags, running⟩ := round
  exact ⟨atPc, hl, b, c, a, d, e, flags, running⟩

theorem blockInDone_moved (direction : Direction) (byte : Byte) (r : Registers) :
    IoMoved direction r (r.blockInDone direction.delta byte) :=
  ⟨word_hi_lo _, ⟨_, _, rfl⟩, rfl⟩

theorem blockOutDone_moved (direction : Direction) (byte : Byte) (r : Registers) :
    IoMoved direction r (r.blockOutDone direction.delta byte) :=
  ⟨word_hi_lo _, ⟨_, _, rfl⟩, rfl⟩

structure IoDone (way : Way) (direction : Direction) (memory : Memory) (cpu : Cpu) (t : Int)
    (next : Cpu) (tail : Path) (byte : Byte) : Prop where
  cost : t = if cpu.regs.b - 1 = 0 then 16 else 21
  access : portsOf tail = [way.access cpu.regs.b cpu.regs.c byte]
  stored : memoryAfter memory tail = Function.update memory cpu.regs.hl byte
  unwritten : way = .output → memoryAfter memory tail = memory
  undisturbed : cpu.undisturbed → next.undisturbed
  round : IoRound direction (cpu.regs.pc - 2) cpu.regs next.regs

theorem blockIn_round (direction : Direction) (memory : Memory) (cpu : Cpu) :
    (edArm (Way.input.opcode direction)).Holds (fun t next tail => ReadsFrom memory tail →
      ∃ byte, IoDone .input direction memory cpu t next.settleQ tail byte) cpu := by
  have arm : edArm (Way.input.opcode direction) = blockIn direction.delta true := by
    cases direction <;> rfl
  rw [arm, holds_blockIn]
  intro v
  have moved := blockInDone_moved direction v cpu.regs
  have unsent {claim : Prop} (output : Way.input = .output) : claim := Way.noConfusion output
  constructor
  · intro last _
    have zeroB : cpu.regs.b - 1 = 0 := by simpa using last
    exact ⟨v, (if_pos zeroB).symm, by simp [Way.access, Registers.bc], by simp,
      unsent, id, (moved.last zeroB).settleQ cpu⟩
  · intro again _
    have nonzero : cpu.regs.b - 1 ≠ 0 := by simpa using again
    exact ⟨v, (if_neg nonzero).symm, by simp [Way.access, Registers.bc], by simp,
      unsent, id, (moved.again nonzero).settleQ cpu⟩

theorem blockOut_round (direction : Direction) (memory : Memory) (cpu : Cpu) :
    (edArm (Way.output.opcode direction)).Holds (fun t next tail => ReadsFrom memory tail →
      ∃ byte, IoDone .output direction memory cpu t next.settleQ tail byte) cpu := by
  have arm : edArm (Way.output.opcode direction) = blockOut direction.delta true := by
    cases direction <;> rfl
  rw [arm, holds_blockOut]
  intro v
  have moved := blockOutDone_moved direction v cpu.regs
  constructor
  · intro last reads
    have zeroB : cpu.regs.b - 1 = 0 := by simpa using last
    have sent : v = memory cpu.regs.hl := reads.1
    exact ⟨v, (if_pos zeroB).symm, by simp [Way.access, Registers.blockOutPort],
      by simp [sent], fun _ => by simp, id, (moved.last zeroB).settleQ cpu⟩
  · intro again reads
    have nonzero : cpu.regs.b - 1 ≠ 0 := by simpa using again
    have sent : v = memory cpu.regs.hl := reads.1
    exact ⟨v, (if_neg nonzero).symm, by simp [Way.access, Registers.blockOutPort],
      by simp [sent], fun _ => by simp, id, (moved.again nonzero).settleQ cpu⟩

theorem blockIo_round (way : Way) (direction : Direction) (memory : Memory) (cpu : Cpu) :
    (edArm (way.opcode direction)).Holds (fun t next tail => ReadsFrom memory tail →
      ∃ byte, IoDone way direction memory cpu t next.settleQ tail byte) cpu := by
  cases way with
  | input => exact blockIn_round direction memory cpu
  | output => exact blockOut_round direction memory cpu

section Round
variable {Host : Type} {bus : RamBus Host} {s : Machine Host}

theorem step_ioRound (way : Way) (direction : Direction) (fuel : Nat)
    (running : s.z80.regs.halted = false) (undisturbed : s.z80.undisturbed)
    (first : bus.memory s.host s.z80.regs.pc = 0xED)
    (second : bus.memory s.host (s.z80.regs.pc + 1) = way.opcode direction) :
    ∃ stepped byte, step bus.toBus fuel s = some stepped ∧
      nominal (stepped.calls.map Exchange.answered) =
        (if s.z80.regs.b - 1 = 0 then 16 else 21) ∧
      portsOf (stepped.calls.map Exchange.answered) =
        [way.access s.z80.regs.b s.z80.regs.c byte] ∧
      bus.memory stepped.machine.host =
        Function.update (bus.memory s.host) s.z80.regs.hl byte ∧
      (way = .output → bus.memory stepped.machine.host = bus.memory s.host) ∧
      stepped.machine.z80.undisturbed ∧
      IoRound direction s.z80.regs.pc s.z80.regs stepped.machine.z80.regs := by
  obtain ⟨stepped, t, tail, returns, kind, path, ⟨byte, done⟩, memory⟩ := bus.step_ed fuel
    (fun t next tail => ∃ byte, IoDone way direction (bus.memory s.host) s.z80.toCpu.edFetched t
      next tail byte) running undisturbed first second
    (blockIo_round way direction (bus.memory s.host) _)
  obtain ⟨cost, access, stored, unwritten, still, pc, hl, b, c, a, d, e, flags, halted⟩ := done
  rw [edFetched_hl] at stored hl
  simp only [edFetched_pc, edFetched_b, edFetched_c, edFetched_a, edFetched_d, edFetched_e,
    edFetched_halted, BitVec.add_sub_cancel] at pc cost access b c a d e flags halted
  refine ⟨stepped, byte, returns, ?_, ?_, memory.trans stored,
    fun output => memory.trans (unwritten output), still undisturbed.edFetched,
    ⟨pc, hl, b, c, a, d, e, flags, halted⟩⟩
  · rw [step_nominal returns kind]
    exact cost
  · have fetches : portsOf (edPath s.z80.regs.pc (way.opcode direction)) = [] := by simp [edPath]
    rw [path, portsOf_append, fetches, List.nil_append, access]

end Round

/-! ## The whole block -/

section Whole
variable {Host : Type} {bus : RamBus Host} {way : Way} {direction : Direction}

/-- B before the first round, 0 being 256. -/
def blockLength (start : Machine Host) : Nat :=
  if start.z80.regs.b = 0 then 256 else start.z80.regs.b.toNat

def blockCell (direction : Direction) (start : Machine Host) (k : Nat) : Word :=
  direction.move start.z80.regs.hl k

/-- The accesses of `k` rounds that moved the bytes now in `memory`. -/
def blockAccesses (way : Way) (direction : Direction) (start : Machine Host) (memory : Memory)
    (k : Nat) : Path :=
  (List.range k).map fun j => way.access (start.z80.regs.b - BitVec.ofNat 8 j) start.z80.regs.c
    (memory (blockCell direction start j))

/-- `k` rounds after `start`. -/
structure Moving (bus : RamBus Host) (way : Way) (direction : Direction) (start : Machine Host)
    (k : Nat) (ran : Ran Host Int) : Prop where
  running : ran.machine.z80.regs.halted = false
  undisturbed : ran.machine.z80.undisturbed
  pc : ran.machine.z80.regs.pc =
    if k = blockLength start then start.z80.regs.pc + 2 else start.z80.regs.pc
  b : ran.machine.z80.regs.b = start.z80.regs.b - BitVec.ofNat 8 k
  c : ran.machine.z80.regs.c = start.z80.regs.c
  a : ran.machine.z80.regs.a = start.z80.regs.a
  d : ran.machine.z80.regs.d = start.z80.regs.d
  e : ran.machine.z80.regs.e = start.z80.regs.e
  hl : ran.machine.z80.regs.hl = direction.move start.z80.regs.hl k
  flags : k = blockLength start →
    zero ran.machine.z80.regs.flags = true ∧ sign ran.machine.z80.regs.flags = false
  accesses : portsOf (ran.calls.map Exchange.answered) =
    blockAccesses way direction start (bus.memory ran.machine.host) k
  outside : ∀ address, (∀ j < k, address ≠ blockCell direction start j) →
    bus.memory ran.machine.host address = bus.memory start.host address
  unwritten : way = .output → bus.memory ran.machine.host = bus.memory start.host
  cost : nominal (ran.calls.map Exchange.answered) =
    ∑ i ∈ Finset.range k, if i + 1 = blockLength start then 16 else 21

theorem blockLength_le (start : Machine Host) : blockLength start ≤ 256 := by
  have bound := start.z80.regs.b.isLt
  unfold blockLength
  split <;> omega

theorem blockLength_pos (start : Machine Host) : 1 ≤ blockLength start := by
  unfold blockLength
  split
  · omega
  · rename_i nonzero
    bv_omega

theorem b_used {start : Machine Host} {k : Nat} (lt : k < blockLength start) :
    start.z80.regs.b - BitVec.ofNat 8 k - 1 = 0 ↔ k + 1 = blockLength start := by
  have bound := start.z80.regs.b.isLt
  unfold blockLength at lt ⊢
  split at lt
  · rename_i zero
    rw [if_pos zero, zero]
    bv_omega
  · rename_i nonzero
    rw [if_neg nonzero]
    bv_omega

theorem blockAccesses_update (start : Machine Host) (memory : Memory) (byte : Byte) {k : Nat}
    (lt : k < blockLength start) :
    blockAccesses way direction start
        (Function.update memory (blockCell direction start k) byte) (k + 1) =
      blockAccesses way direction start memory k ++
        [way.access (start.z80.regs.b - BitVec.ofNat 8 k) start.z80.regs.c byte] := by
  have small := blockLength_le start
  have earlier : ∀ j ∈ List.range k,
      way.access (start.z80.regs.b - BitVec.ofNat 8 j) start.z80.regs.c
        (Function.update memory (blockCell direction start k) byte
          (blockCell direction start j)) =
      way.access (start.z80.regs.b - BitVec.ofNat 8 j) start.z80.regs.c
        (memory (blockCell direction start j)) := by
    intro j member
    have before := List.mem_range.mp member
    have apart : blockCell direction start j ≠ blockCell direction start k := by
      intro same
      have equal := (direction.move_eq_iff _ (by omega) (by omega)).mp same
      omega
    rw [Function.update_of_ne apart]
  rw [blockAccesses, List.range_succ, List.map_append, List.map_congr_left earlier,
    List.map_singleton, Function.update_self]
  rfl

theorem Moving.start {s : Machine Host} (running : s.z80.regs.halted = false)
    (undisturbed : s.z80.undisturbed) : Moving bus way direction s 0 ⟨0, s, []⟩ where
  running := running
  undisturbed := undisturbed
  pc := by rw [if_neg (Nat.ne_of_lt (blockLength_pos s))]
  b := by simp
  c := rfl
  a := rfl
  d := rfl
  e := rfl
  hl := by rw [direction.move_zero]
  flags none := absurd none (Nat.ne_of_lt (blockLength_pos s))
  accesses := rfl
  outside _ _ := rfl
  unwritten _ := rfl
  cost := rfl

theorem Moving.round {start : Machine Host} {ran : Ran Host Int} {k : Nat} (fuel : Nat)
    (first : bus.memory start.host start.z80.regs.pc = 0xED)
    (second : bus.memory start.host (start.z80.regs.pc + 1) = way.opcode direction)
    (outside : way = .input → ∀ j < blockLength start,
      start.z80.regs.pc ≠ blockCell direction start j ∧
        start.z80.regs.pc + 1 ≠ blockCell direction start j)
    (lt : k < blockLength start) (moving : Moving bus way direction start k ran) :
    ∃ stepped, step bus.toBus fuel ran.machine = some stepped ∧
      Moving bus way direction start (k + 1)
        ⟨ran.value + stepped.returned, stepped.machine, ran.calls ++ stepped.calls⟩ := by
  have pc : ran.machine.z80.regs.pc = start.z80.regs.pc := by rw [moving.pc, if_neg lt.ne]
  have code {address : Word} (apart : way = .input → ∀ j < blockLength start,
      address ≠ blockCell direction start j) :
      bus.memory ran.machine.host address = bus.memory start.host address := by
    cases way with
    | input => exact moving.outside address fun j before => apart rfl j (before.trans lt)
    | output => rw [moving.unwritten rfl]
  obtain ⟨stepped, byte, returns, cost, access, stored, unwritten, undisturbed, round⟩ :=
    step_ioRound way direction fuel moving.running moving.undisturbed
      (by rw [pc, code fun input j lt => (outside input j lt).1, first])
      (by rw [pc, code fun input j lt => (outside input j lt).2, second])
  have used : ran.machine.z80.regs.b - 1 = 0 ↔ k + 1 = blockLength start := by
    rw [moving.b]
    exact b_used lt
  rw [moving.hl, ← blockCell] at stored
  refine ⟨stepped, returns, ?_⟩
  exact
    { running := round.running.trans moving.running
      undisturbed := undisturbed
      pc := by
        rw [round.pc, pc]
        simp only [used]
      b := by
        rw [round.b, moving.b]
        bv_omega
      c := round.c.trans moving.c
      a := round.a.trans moving.a
      d := round.d.trans moving.d
      e := round.e.trans moving.e
      hl := by rw [round.hl, moving.hl, direction.move_succ]
      flags := fun last => round.flags (used.mpr last)
      accesses := by
        rw [List.map_append, portsOf_append, access, moving.accesses, moving.b, moving.c, stored]
        exact (blockAccesses_update start _ byte lt).symm
      outside := by
        intro address apart
        rw [stored, Function.update_of_ne (apart k (Nat.lt_succ_self k)),
          moving.outside address fun j before => apart j (before.trans (Nat.lt_succ_self k))]
      unwritten := fun output => (unwritten output).trans (moving.unwritten output)
      cost := by
        rw [List.map_append, nominal_append, cost, moving.cost, Finset.sum_range_succ]
        simp only [used] }

end Whole

/-- INIR, INDR, OTIR and OTDR, run to completion on a RAM host without interrupts. -/
theorem block_io {Host : Type} (bus : RamBus Host) (way : Way) (direction : Direction)
    (fuel : Nat) (s : Machine Host)
    (running : s.z80.regs.halted = false) (undisturbed : s.z80.undisturbed)
    (first : bus.memory s.host s.z80.regs.pc = 0xED)
    (second : bus.memory s.host (s.z80.regs.pc + 1) = way.opcode direction)
    (outside : way = .input → ∀ j < blockLength s,
      s.z80.regs.pc ≠ blockCell direction s j ∧ s.z80.regs.pc + 1 ≠ blockCell direction s j) :
    let r := s.z80.regs
    let n := blockLength s
    (∀ k < n, ∃ ran, stepTimes bus.toBus fuel k s = some ran ∧ ran.machine.z80.regs.pc = r.pc) ∧
    ∃ ran, stepTimes bus.toBus fuel n s = some ran ∧
      let next := ran.machine.z80.regs
      let path := ran.calls.map Exchange.answered
      let before := bus.memory s.host
      let after := bus.memory ran.machine.host
      portsOf path = (List.range n).map (fun j =>
        way.access (r.b - BitVec.ofNat 8 j) r.c (after (direction.move r.hl j))) ∧
      (way = .output → after = before) ∧
      (∀ address, (∀ j < n, address ≠ direction.move r.hl j) → after address = before address) ∧
      next.b = 0 ∧ next.c = r.c ∧ next.a = r.a ∧ next.d = r.d ∧ next.e = r.e ∧
      next.hl = direction.move r.hl n ∧ next.pc = r.pc + 2 ∧
      zero next.flags = true ∧ sign next.flags = false ∧
      nominal path = 21 * (n - 1) + 16 := by
  intro r n
  have rounds {k : Nat} (enough : k ≤ n) := stepTimes_run (Moving bus way direction s)
    (Moving.start running undisturbed)
    (fun k ran lt moving => moving.round fuel first second outside lt) enough
  refine ⟨fun k lt => ?_, ?_⟩
  · obtain ⟨ran, returns, moving⟩ := rounds lt.le
    refine ⟨ran, returns, ?_⟩
    rw [moving.pc, if_neg lt.ne]
  · obtain ⟨ran, returns, moving⟩ := rounds le_rfl
    have used : ran.machine.z80.regs.b = 0 := by
      rw [moving.b]
      change r.b - BitVec.ofNat 8 (if r.b = 0 then 256 else r.b.toNat) = 0
      split <;> bv_omega
    have pc : ran.machine.z80.regs.pc = r.pc + 2 := by rw [moving.pc, if_pos rfl]
    obtain ⟨zeroSet, signClear⟩ := moving.flags rfl
    exact ⟨ran, returns, moving.accesses, moving.unwritten, moving.outside, used, moving.c,
      moving.a, moving.d, moving.e, moving.hl, pc, zeroSet, signClear,
      moving.cost.trans (rounds_cost (blockLength_pos s))⟩

/-- B = 2: two bytes are read from ports 0x0207 and 0x0107. -/
theorem block_io_input :
    let s : Machine Memory :=
      { z80 := { regs := { b := 2, c := 7, h := 0x40 } }, host := programAt 0 [0xED, 0xB2] 0 }
    ∃ ran, stepTimes flatRam.toBus 0 2 s = some ran ∧
      portsOf (ran.calls.map Exchange.answered) =
        [ioReadOf 0x0207 (ran.machine.host 0x4000), ioReadOf 0x0107 (ran.machine.host 0x4001)] := by
  obtain ⟨-, ran, returns, accesses, -⟩ := block_io flatRam .input .up 0
    { z80 := { regs := { b := 2, c := 7, h := 0x40 } }, host := programAt 0 [0xED, 0xB2] 0 }
    rfl ⟨rfl, rfl⟩ rfl rfl (fun _ => by decide)
  exact ⟨ran, returns, accesses⟩

end Z80f
