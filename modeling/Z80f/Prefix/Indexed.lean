import Z80f.Prefix.Chain

/-! # The indexed memory forms

`hlForm op n` is an opcode with an `(HL)` operand as a program over the address
of that operand.  The unprefixed dispatcher runs it at HL, the prefixed one at
the index register plus the displacement, and `hlForm_effect` says that the
address decides nothing but where the write goes. -/

set_option autoImplicit false

namespace Z80f

open Interaction Stateful Z80M

/-- `n` is the immediate byte of `LD (HL),n`. -/
def hlForm (op n : Byte) (a : Word) : Z80M Unit :=
  if op = 0x34 then updateMem aluInc a
  else if op = 0x35 then updateMem aluDec a
  else if op = 0x36 then write8 a n
  else if kindField op = 1 then
    if regField op = 6 then do modifyRegs (Registers.setReg8 (midField op) (← read8 a))
    else do write8 a ((← getRegs).reg8 (regField op))
  else do aluOp (midField op) (← read8 a)

def Cpu.placed (pc wz : Word) (r q : Byte) (cpu : Cpu) : Cpu :=
  { cpu with regs := { cpu.regs with pc := pc, wz := wz, r := r, q := q } }

theorem reg8_placed (pc wz : Word) (r q : Byte) (cpu : Cpu) (field : Nat) :
    (cpu.placed pc wz r q).regs.reg8 field = cpu.regs.reg8 field := by
  unfold Registers.reg8
  split <;> rfl

theorem setReg8_placed (pc wz : Word) (r q v : Byte) (cpu : Cpu) (field : Nat) :
    ({ cpu.placed pc wz r q with
      regs := (cpu.placed pc wz r q).regs.setReg8 field v } : Cpu) =
    Cpu.placed pc wz r q { cpu with regs := cpu.regs.setReg8 field v } := by
  unfold Registers.setReg8
  split <;> rfl

theorem setReg8_index (x : IndexReg) (v : Byte) (regs : Registers) (field : Nat) :
    (regs.setReg8 field v).index x = regs.index x := by
  unfold Registers.setReg8
  split <;> rfl

/-- Where the operand is decides only where the result goes. -/
structure SameEffect (op n v : Byte) (cpu next : Cpu) (written : Option Byte) : Prop where
  index : ∀ x, next.regs.index x = cpu.regs.index x
  effect : ∀ (memory : Memory) (a pc wz : Word) (r q : Byte), memory a = v →
    (hlForm op n a).Holds (fun _ final tail => ReadsFrom memory tail →
      final = next.placed pc wz r q ∧ writesOf tail = written.toList.map (a, ·))
      (cpu.placed pc wz r q)

theorem hlForm_effect (op n v : Byte) (cpu : Cpu) :
    ∃ next written, SameEffect op n v cpu next written := by
  by_cases inc : op = 0x34#8
  · subst inc
    refine ⟨cpu.flagged { cpu.regs with flags := incFlags cpu.regs.flags (v + 1) },
      some (v + 1), fun x => by cases x <;> rfl, ?_⟩
    intro memory a pc wz r q value
    simp [hlForm, updateMem, value, Cpu.placed]
  by_cases dec : op = 0x35#8
  · subst dec
    refine ⟨cpu.flagged { cpu.regs with flags := decFlags cpu.regs.flags (v - 1) },
      some (v - 1), fun x => by cases x <;> rfl, ?_⟩
    intro memory a pc wz r q value
    simp [hlForm, updateMem, value, Cpu.placed]
  by_cases imm : op = 0x36#8
  · subst imm
    refine ⟨cpu, some n, fun _ => rfl, ?_⟩
    intro memory a pc wz r q _
    simp [hlForm]
  by_cases block : kindField op = 1
  · by_cases load : regField op = 6
    · refine ⟨{ cpu with regs := cpu.regs.setReg8 (midField op) v }, none,
        fun x => setReg8_index x v cpu.regs (midField op), ?_⟩
      intro memory a pc wz r q value
      simp [hlForm, inc, dec, imm, block, load, value, setReg8_placed]
    · refine ⟨cpu, some (cpu.regs.reg8 (regField op)), fun _ => rfl, ?_⟩
      intro memory a pc wz r q _
      simp [hlForm, inc, dec, imm, block, load, reg8_placed]
  · refine ⟨cpu.flagged { cpu.regs with
        a := (aluOutcome (midField op) cpu.regs.a cpu.regs.flags v).1
        flags := (aluOutcome (midField op) cpu.regs.a cpu.regs.flags v).2 },
      none, fun x => by cases x <;> rfl, ?_⟩
    intro memory a pc wz r q value
    simp [hlForm, inc, dec, imm, block, value, Cpu.placed]

def hlOperands (op n : Byte) : List Byte := if op = 0x36 then [n] else []

/-- INC, DEC, and what reads `(HL)` into a register or the ALU. -/
def hlReads : List Byte :=
  [0x34, 0x35, 0x46, 0x4E, 0x56, 0x5E, 0x66, 0x6E, 0x7E,
    0x86, 0x8E, 0x96, 0x9E, 0xA6, 0xAE, 0xB6, 0xBE]

/-- LD (HL),r. -/
def hlStores : List Byte := [0x70, 0x71, 0x72, 0x73, 0x74, 0x75, 0x77]

theorem hlOpcodes : ∀ op : Byte, hasHlOperand op = true → op ≠ 0x36#8 →
    op ∈ hlReads ∨ op ∈ hlStores := by
  decide

section Arms
variable {op : Byte} (n : Byte) (x : IndexReg) (t : Int)

theorem dispatchOpcode_reads (listed : op ∈ hlReads) :
    ∃ cost : Int, dispatchOpcode op = (do hlForm op n (← getRegs).hl; return cost) := by
  simp only [hlReads, List.mem_cons, List.not_mem_nil, or_false] at listed
  rcases listed with rfl | rfl | rfl | rfl | rfl | rfl | rfl | rfl | rfl | rfl | rfl | rfl | rfl |
    rfl | rfl | rfl | rfl <;> exact ⟨_, rfl⟩

theorem dispatchOpcode_stores (listed : op ∈ hlStores) :
    ∃ cost : Int, dispatchOpcode op = (do hlForm op n (← getRegs).hl; return cost) := by
  simp only [hlStores, List.mem_cons, List.not_mem_nil, or_false] at listed
  rcases listed with rfl | rfl | rfl | rfl | rfl | rfl | rfl <;> exact ⟨_, rfl⟩

theorem indexArm_reads (listed : op ∈ hlReads) :
    ∃ cost : Int, indexArm x op t = (do hlForm op n (← idxAddr x); return cost) := by
  simp only [hlReads, List.mem_cons, List.not_mem_nil, or_false] at listed
  rcases listed with rfl | rfl | rfl | rfl | rfl | rfl | rfl | rfl | rfl | rfl | rfl | rfl | rfl |
    rfl | rfl | rfl | rfl <;> exact ⟨_, rfl⟩

theorem indexArm_stores (listed : op ∈ hlStores) :
    ∃ cost : Int, indexArm x op t = (do hlForm op n (← idxAddr x); return cost) := by
  simp only [hlStores, List.mem_cons, List.not_mem_nil, or_false] at listed
  rcases listed with rfl | rfl | rfl | rfl | rfl | rfl | rfl <;> exact ⟨_, rfl⟩

variable (form : hasHlOperand op = true) (other : op ≠ 0x36#8)
include form other

theorem dispatchOpcode_form :
    ∃ cost : Int, dispatchOpcode op = (do hlForm op n (← getRegs).hl; return cost) := by
  rcases hlOpcodes op form other with listed | listed
  · exact dispatchOpcode_reads n listed
  · exact dispatchOpcode_stores n listed

theorem indexArm_form :
    ∃ cost : Int, indexArm x op t = (do hlForm op n (← idxAddr x); return cost) := by
  rcases hlOpcodes op form other with listed | listed
  · exact indexArm_reads n x t listed
  · exact indexArm_stores n x t listed

end Arms

section Rules
variable (cpu : Cpu) (pc wz : Word) (r q : Byte)

@[simp] theorem placed_index (x : IndexReg) :
    (cpu.placed pc wz r q).regs.index x = cpu.regs.index x := by cases x <;> rfl

@[simp] theorem placed_hl : (cpu.placed pc wz r q).regs.hl = cpu.regs.hl := rfl

@[simp] theorem placed_pc : (cpu.placed pc wz r q).regs.pc = pc := rfl

theorem holds_fetchImmediate_placed {post : Byte → Cpu → Path → Prop} :
    fetchImmediate.Holds post (cpu.placed pc wz r q) ↔
      ∀ v, post v (cpu.placed (pc + 1) wz r q) [cycle pc 3, readOf .fetch pc v] :=
  holds_fetchImmediate _

theorem holds_setWz_placed (a : Word) {post : Unit → Cpu → Path → Prop} :
    (modifyRegs fun r => { r with wz := a }).Holds post (cpu.placed pc wz r q) ↔
      post () (cpu.placed pc a r q) [] := Iff.rfl

theorem holds_idxAddr_placed (x : IndexReg) {post : Word → Cpu → Path → Prop} :
    (idxAddr x).Holds post (cpu.placed pc wz r q) ↔ ∀ d : Byte,
      let a := cpu.regs.index x + displacement d
      post a (cpu.placed (pc + 1) a r q)
        ([cycle pc 3, readOf .fetch pc d] ++ idleCycles (pc + 1 - 1) 5) := by
  simp only [idxAddr, holds_bind, holds_fetchImmediate_placed, holds_getRegs, placed_index,
    holds_setWz_placed, holds_idle, holds_pure, placed_pc, List.append_nil, List.nil_append]

end Rules

section Placed
variable {op n v d : Byte} {cpu next : Cpu} {written : Option Byte} {memory : Memory}
  (form : hasHlOperand op = true) (effect : SameEffect op n v cpu next written)
include form effect

theorem dispatchOpcode_placed (pc wz : Word) (r q : Byte)
    (code : bytesAt memory pc (hlOperands op n).length = hlOperands op n)
    (cell : memory cpu.regs.hl = v) :
    (dispatchOpcode op).Holds (fun _ final tail => ReadsFrom memory tail →
      final = next.placed (pc + BitVec.ofNat 16 (hlOperands op n).length) wz r q ∧
        writesOf tail = written.toList.map (cpu.regs.hl, ·)) (cpu.placed pc wz r q) := by
  by_cases imm : op = 0x36#8
  · subst imm
    have operands : hlOperands 0x36#8 n = [n] := rfl
    rw [operands, List.length_singleton, bytesAt_succ] at code
    have operand : memory pc = n := (List.cons.inj code).1
    have arm : dispatchOpcode 0x36#8 = (do
        let n ← fetchImmediate
        hlForm 0x36 n (← getRegs).hl
        return 10) := rfl
    rw [arm]
    simp only [holds_bind, holds_fetchImmediate_placed, holds_getRegs, holds_pure,
      List.append_nil, placed_hl]
    intro byte
    by_cases same : byte = n
    · subst same
      refine (effect.effect memory cpu.regs.hl (pc + 1) wz r q cell).mono ?_
      intro _ final tail done reads
      exact done reads.2
    · apply Holds.intro
      intro _ final tail reads
      exact absurd (reads.1.trans operand) same
  · obtain ⟨cost, arm⟩ := dispatchOpcode_form n form imm
    have none : hlOperands op n = [] := if_neg imm
    rw [arm, none, List.length_nil, BitVec.add_zero]
    simp only [holds_bind, holds_getRegs, holds_pure, List.append_nil, List.nil_append]
    exact effect.effect memory cpu.regs.hl pc wz r q cell

theorem indexArm_placed (x : IndexReg) (t : Int) (pc wz : Word) (r q : Byte)
    (code : bytesAt memory pc (1 + (hlOperands op n).length) = d :: hlOperands op n)
    (cell : memory (cpu.regs.index x + displacement d) = v) :
    let a := cpu.regs.index x + displacement d
    (indexArm x op t).Holds (fun _ final tail => ReadsFrom memory tail →
      final = next.placed (pc + BitVec.ofNat 16 (1 + (hlOperands op n).length)) a r q ∧
        writesOf tail = written.toList.map (a, ·)) (cpu.placed pc wz r q) := by
  intro a
  rw [Nat.add_comm, bytesAt_succ] at code
  obtain ⟨displaced, operands⟩ := List.cons.inj code
  by_cases imm : op = 0x36#8
  · subst imm
    have operand : memory (pc + 1) = n := by
      rw [show hlOperands 0x36#8 n = [n] from rfl, List.length_singleton, bytesAt_succ] at operands
      exact (List.cons.inj operands).1
    have arm : indexArm x 0x36#8 t = (do
        let d ← fetchImmediate
        let n ← fetchImmediate
        let a := (← getRegs).index x + displacement d
        modifyRegs fun r => { r with wz := a }
        idle ((← getRegs).pc - 1) 2
        hlForm 0x36 n a
        return t + 15) := rfl
    rw [arm]
    simp only [holds_bind, holds_fetchImmediate_placed, holds_getRegs, holds_setWz_placed,
      holds_idle, holds_pure, List.append_nil, List.nil_append, placed_index, placed_pc]
    intro first second
    by_cases same : first = d ∧ second = n
    · obtain ⟨rfl, rfl⟩ := same
      refine (effect.effect memory a (pc + 1 + 1) a r q cell).mono ?_
      intro _ final tail done reads
      simp only [List.cons_append, List.nil_append, readsFrom_cycle, readsFrom_read,
        readsFrom_append, readsFrom_idle, memoryAfter_idle, true_and] at reads
      obtain ⟨last, writes⟩ := done reads.2.2
      have behind : pc + 1 + 1 = pc + BitVec.ofNat 16 (1 + (hlOperands 0x36#8 second).length) :=
        BitVec.add_assoc pc 1 1
      exact ⟨last.trans (by rw [behind]), by simpa using writes⟩
    · apply Holds.intro
      intro _ final tail reads
      exact absurd ⟨reads.1.trans displaced, reads.2.1.trans operand⟩ same
  · obtain ⟨cost, arm⟩ := indexArm_form n x t form imm
    have none : hlOperands op n = [] := if_neg imm
    rw [arm, none]
    simp only [holds_bind, holds_idxAddr_placed, holds_pure, List.append_nil]
    intro byte
    by_cases same : byte = d
    · subst same
      refine (effect.effect memory a (pc + 1) a r q cell).mono ?_
      intro _ final tail done reads
      simp only [List.cons_append, List.nil_append, readsFrom_cycle, readsFrom_read,
        readsFrom_append, readsFrom_idle, memoryAfter_idle, true_and] at reads
      obtain ⟨last, writes⟩ := done reads.2
      exact ⟨last, by simpa using writes⟩
    · apply Holds.intro
      intro _ final tail reads
      exact absurd (reads.1.trans displaced) same

end Placed

/-! ## On a RAM host -/

section Ram
variable {Host : Type} (bus : RamBus Host) (fuel : Nat) {s : Machine Host} {p op : Byte}
  (post : Int → Cpu → Path → Prop)

theorem RamBus.exec_unprefixed (last : isIndexPrefix op = false)
    (first : bus.memory s.host s.z80.regs.pc = op)
    (arm : (dispatchOpcode op).Holds (fun t next tail => ReadsFrom (bus.memory s.host) tail →
      post t next tail) s.z80.toCpu.opcodeFetched) :
    ∃ t tail, let ran := exec bus.toBus (fetchAndDispatch fuel) s
      ran.value = some t ∧
      ran.calls.map Exchange.answered = fetchPath s.z80.regs.pc [op] ++ tail ∧
      post t ran.machine.z80.toCpu tail ∧
      bus.memory ran.machine.host = memoryAfter (bus.memory s.host) tail := by
  obtain ⟨value, memory⟩ := bus.exec_fetchOpcode (s := s)
  obtain ⟨cpu, path⟩ := Z80f.exec_fetchOpcode bus.toBus s
  obtain ⟨reads, after⟩ := bus.exec_replays (dispatchOpcode op)
    (exec bus.toBus fetchOpcode s).machine
  rw [memory] at reads after
  rw [← cpu] at arm
  have done := Holds.exec bus.toBus _ arm reads
  rw [exec_plain last (value.trans first)]
  refine ⟨_, _, rfl, ?_, done, after⟩
  rw [List.map_append, path, value, first]
  rfl

theorem RamBus.exec_indexed (isPrefix : isIndexPrefix p = true) (last : isIndexPrefix op = false)
    (first : bus.memory s.host s.z80.regs.pc = p)
    (second : bus.memory s.host (s.z80.regs.pc + 1) = op)
    (arm : (indexArm (prefixReg p) op 4).Holds (fun t next tail =>
      ReadsFrom (bus.memory s.host) tail → post t next tail)
      (s.z80.toCpu.placed (s.z80.regs.pc + 1 + 1) s.z80.regs.wz (advanceR 2 s.z80.regs.r) 0)) :
    ∃ t tail, let ran := exec bus.toBus (fetchAndDispatch fuel) s
      ran.value = some t ∧
      ran.calls.map Exchange.answered = fetchPath s.z80.regs.pc [p, op] ++ tail ∧
      post t ran.machine.z80.toCpu tail ∧
      bus.memory ran.machine.host = memoryAfter (bus.memory s.host) tail := by
  obtain ⟨value, memory⟩ := bus.exec_fetchOpcode (s := s)
  obtain ⟨cpu, path⟩ := Z80f.exec_fetchOpcode bus.toBus s
  have read := bus.exec_secondFetch.2.trans second
  obtain ⟨-, memory₂⟩ := bus.exec_fetchOpcode (s := afterPrefix bus.toBus s)
  obtain ⟨cpu₂, path₂⟩ := Z80f.exec_fetchOpcode bus.toBus (afterPrefix bus.toBus s)
  have start : (afterPrefix bus.toBus s).z80.toCpu = { s.z80.toCpu.opcodeFetched with
      regs := { s.z80.toCpu.opcodeFetched.regs with q := 0 } } := by
    rw [← cpu]
    rfl
  have behind : (exec bus.toBus fetchOpcode (afterPrefix bus.toBus s)).machine.z80.toCpu =
      s.z80.toCpu.placed (s.z80.regs.pc + 1 + 1) s.z80.regs.wz (advanceR 2 s.z80.regs.r) 0 := by
    rw [cpu₂, start]
    rfl
  have pc : (afterPrefix bus.toBus s).z80.regs.pc = s.z80.regs.pc + 1 :=
    congrArg (fun cpu : Cpu => cpu.regs.pc) start
  have same : bus.memory (exec bus.toBus fetchOpcode (afterPrefix bus.toBus s)).machine.host =
      bus.memory s.host := memory₂.trans memory
  obtain ⟨reads, after⟩ := bus.exec_replays (indexArm (prefixReg p) op 4)
    (exec bus.toBus fetchOpcode (afterPrefix bus.toBus s)).machine
  rw [same] at reads after
  rw [← behind] at arm
  have done := Holds.exec bus.toBus _ arm reads
  rw [exec_prefixed last isPrefix (value.trans first) read]
  refine ⟨_, _, rfl, ?_, done, after⟩
  rw [List.map_append, List.map_append, path, path₂, value, first, read, pc]
  rfl

end Ram

theorem hlOperand_last : ∀ op : Byte, hasHlOperand op = true → isIndexPrefix op = false := by
  decide

theorem memoryAfter_written (memory : Memory) {tail : Path} {a : Word} {written : Option Byte}
    (writes : writesOf tail = written.toList.map (a, ·)) :
    memoryAfter memory tail = written.elim memory (Function.update memory a) := by
  rw [memoryAfter_writes, writes]
  cases written <;> rfl

/-- With `a` the index register plus the signed displacement byte: an indexed
memory form does at `a` what the plain form does at HL, on any two RAM hosts where
the two cells hold the same byte. -/
theorem indexed_form {Host Host' : Type} (bus : RamBus Host) (bus' : RamBus Host')
    (fuel fuel' : Nat) (p op d n : Byte) (s : Machine Host) (s' : Machine Host')
    (isPrefix : isIndexPrefix p = true) (form : hasHlOperand op = true)
    (code : bytesAt (bus.memory s.host) s.z80.regs.pc (3 + (hlOperands op n).length) =
      p :: op :: d :: hlOperands op n)
    (code' : bytesAt (bus'.memory s'.host) s'.z80.regs.pc (1 + (hlOperands op n).length) =
      op :: hlOperands op n)
    (same : s'.z80.toCpu = { s.z80.toCpu with regs := { s.z80.regs with pc := s'.z80.regs.pc } })
    (cell : bus'.memory s'.host s.z80.regs.hl =
      bus.memory s.host (s.z80.regs.index (prefixReg p) + BitVec.ofInt 16 d.toInt)) :
    let r := s.z80.regs
    let a := r.index (prefixReg p) + BitVec.ofInt 16 d.toInt
    let before := bus.memory s.host
    let before' := bus'.memory s'.host
    let ran := exec bus.toBus (fetchAndDispatch fuel) s
    let ran' := exec bus'.toBus (fetchAndDispatch fuel') s'
    ran.value.isSome = true ∧ ran'.value.isSome = true ∧
    ran.machine.z80.toCpu = { ran'.machine.z80.toCpu with regs := { ran'.machine.z80.regs with
      pc := r.pc + BitVec.ofNat 16 (3 + (hlOperands op n).length)
      wz := a
      r := advanceR 2 r.r
      q := 0 } } ∧
    (∀ x, ran.machine.z80.regs.index x = r.index x) ∧
    ∃ written : Option Byte,
      writesOf (ran.calls.map Exchange.answered) = written.toList.map (a, ·) ∧
      writesOf (ran'.calls.map Exchange.answered) = written.toList.map (r.hl, ·) ∧
      bus.memory ran.machine.host = written.elim before (Function.update before a) ∧
      bus'.memory ran'.machine.host = written.elim before' (Function.update before' r.hl) := by
  rw [← displacement_eq] at cell ⊢
  intro r a before before' ran ran'
  obtain ⟨next, written, effect⟩ := hlForm_effect op n (before a) s.z80.toCpu
  have last := hlOperand_last op form
  rw [Nat.add_comm 3, bytesAt_succ, bytesAt_succ] at code
  obtain ⟨first, code⟩ := List.cons.inj code
  obtain ⟨second, code⟩ := List.cons.inj code
  rw [Nat.add_comm 1, bytesAt_succ] at code'
  obtain ⟨first', code'⟩ := List.cons.inj code'
  rw [Nat.add_comm _ 1] at code
  obtain ⟨t, tail, value, path, ⟨final, writes⟩, memory⟩ := bus.exec_indexed fuel _ isPrefix last
    first second (indexArm_placed form effect (prefixReg p) 4 _ _ _ _ code rfl)
  have start : s'.z80.toCpu.opcodeFetched =
      s.z80.toCpu.placed (s'.z80.regs.pc + 1) r.wz (advanceR 1 r.r) r.q := by
    rw [same]
    rfl
  obtain ⟨t', tail', value', path', ⟨final', writes'⟩, memory'⟩ := bus'.exec_unprefixed fuel'
    (fun _ final tail =>
      final = next.placed (s'.z80.regs.pc + 1 + BitVec.ofNat 16 (hlOperands op n).length) r.wz
        (advanceR 1 r.r) r.q ∧ writesOf tail = written.toList.map (r.hl, ·)) last first'
    (start ▸ dispatchOpcode_placed form effect _ _ _ _ code' cell)
  refine ⟨?_, ?_, ?_, ?_, written, ?_, ?_, ?_, ?_⟩
  · rw [value]
    rfl
  · rw [value']
    rfl
  · have behind : r.pc + 1 + 1 + BitVec.ofNat 16 (1 + (hlOperands op n).length) =
        r.pc + BitVec.ofNat 16 (3 + (hlOperands op n).length) := by
      rw [show 3 + (hlOperands op n).length = 1 + (hlOperands op n).length + 1 + 1 by omega,
        next_address, next_address]
    rw [final, final', behind]
    rfl
  · intro x
    rw [final]
    exact (placed_index _ _ _ _ _ x).trans (effect.index x)
  · rw [path, writesOf_append, writes]
    rfl
  · rw [path', writesOf_append, writes']
    rfl
  · rw [memory, memoryAfter_written before writes]
  · rw [memory', memoryAfter_written before' writes']

/-- INC (IX-5) with IX at 2: the cell is 0xFFFD, and IX points to another byte. -/
theorem indexed_form_incBelow : ∃ ran ran',
    exec flatRam.toBus (fetchAndDispatch 0)
      { z80 := { regs := { h := 0x50, ix := 2, pc := 0x4000 } }
        host := Function.update (programAt 0x4000 [0xDD, 0x34, 0xFB] 7) 0xFFFD 0x7F } = ran ∧
    exec flatRam.toBus (fetchAndDispatch 0)
      { z80 := { regs := { h := 0x50, ix := 2, pc := 0x4000 } }
        host := Function.update (programAt 0x4000 [0x34] 7) 0x5000 0x7F } = ran' ∧
    ran.machine.z80.regs.wz = 0xFFFD ∧
    ran.machine.z80.regs.flags = ran'.machine.z80.regs.flags ∧
    flatRam.memory ran.machine.host 0xFFFD = flatRam.memory ran'.machine.host 0x5000 ∧
    flatRam.memory ran.machine.host 2 = 7 := by
  obtain ⟨-, -, cpu, -, written, -, -, memory, memory'⟩ :=
    indexed_form flatRam flatRam 0 0 0xDD 0x34 0xFB 0
      { z80 := { regs := { h := 0x50, ix := 2, pc := 0x4000 } }
        host := Function.update (programAt 0x4000 [0xDD, 0x34, 0xFB] 7) 0xFFFD 0x7F }
      { z80 := { regs := { h := 0x50, ix := 2, pc := 0x4000 } }
        host := Function.update (programAt 0x4000 [0x34] 7) 0x5000 0x7F }
      rfl rfl rfl rfl rfl rfl
  have flags := congrArg (fun cpu : Cpu => cpu.regs.flags) cpu
  refine ⟨_, _, rfl, rfl, ?_, flags, ?_, ?_⟩
  · exact (congrArg (fun cpu : Cpu => cpu.regs.wz) cpu).trans (by decide)
  · rw [memory, memory']
    cases written <;> rfl
  · rw [memory]
    cases written <;> rfl

end Z80f
