import Z80f.Cpu.Arms
import Z80f.Isa.Agreement

/-! # The dispatchers execute instructions

Every case of the three switches does what the tables say of its opcode.  The
state of the instruction is the one behind all of its bytes, whenever the CPU
fetched them. -/

set_option autoImplicit false

namespace Z80f.Isa

open Interaction Stateful Z80M Flags

def inputOf : Path → Byte
  | [] => 0
  | ⟨.readIo _, value⟩ :: _ => value
  | _ :: rest => inputOf rest

def past : List Byte → Word → Word
  | [], pc => pc
  | _ :: rest, pc => past rest (pc + 1)

def behind (r : Registers) (opcodes : Nat) (bytes : List Byte) : Registers :=
  { r with pc := past bytes r.pc, r := advanceR opcodes r.r, q := 0 }

/-- Over memory that answers the reads of the path, it is the instruction of its bytes. -/
def Performs (opcodes : Nat) (grammar : Grammar) (cpu next : Cpu) (tail : Path) : Prop :=
  ∀ memory ports, ReadsFrom memory tail →
    (grammar (fetchedBytes tail)).map (fun instruction =>
      instruction.exec cpu.regs.q (inputOf tail)
        { regs := behind cpu.regs opcodes (fetchedBytes tail), memory := memory, ports := ports }) =
      some { regs := next.settleQ.regs
             memory := memoryAfter memory tail
             ports := (portsOf tail).reverse ++ ports }

/-- `opcodes` is how many of the bytes are opcodes. -/
def Obeys (opcodes : Nat) (m : Z80M Int) (grammar : Grammar) : Prop :=
  ∀ cpu : Cpu, cpu.flagsModified = false →
    m.Holds (fun _ next tail => Performs opcodes grammar cpu next tail) cpu

theorem Obeys.listed {opcodes : Nat} {m : Z80M Int} {grammar found : Grammar}
    (obeys : Obeys opcodes m grammar) (entry : found = grammar) : Obeys opcodes m found :=
  entry ▸ obeys

theorem Performs.of_parts {opcodes : Nat} {grammar : Grammar} {cpu next : Cpu} {tail : Path}
    {bytes : List Byte} {input : Byte} {instruction : Instruction} {accesses : Path}
    (fetched : fetchedBytes tail = bytes) (answered : inputOf tail = input)
    (found : grammar bytes = some instruction) (used : portsOf tail = accesses)
    (executed : ∀ memory ports, ReadsFrom memory tail →
      instruction.exec cpu.regs.q input
        { regs := behind cpu.regs opcodes bytes, memory := memory, ports := ports } =
      { regs := next.settleQ.regs
        memory := memoryAfter memory tail
        ports := accesses.reverse ++ ports }) : Performs opcodes grammar cpu next tail := by
  intro memory ports reads
  rw [fetched, found, answered, used]
  exact congrArg some (executed memory ports reads)

theorem Obeys.fetched {opcodes : Nat} {arm : Byte → Z80M Int} {grammar : Byte → Grammar}
    (obeys : ∀ code, Obeys opcodes (arm code) (grammar code)) :
    Obeys (opcodes + 1) (do arm (← fetchOpcode)) (headed grammar) := by
  intro cpu clean
  simp only [holds_bind, holds_fetchOpcode]
  intro code
  apply (obeys code cpu.opcodeFetched clean).mono
  intro t next tail performs memory ports reads
  exact performs memory ports reads.2

theorem inputOf_idle (a : Word) (count : Nat) (rest : Path) :
    inputOf (idleCycles a count ++ rest) = inputOf rest := by
  induction count with
  | zero => rfl
  | succ count ih => exact ih

theorem bytesOf_idle (a : Word) (count : Nat) (rest : Path) :
    fetchedBytes (idleCycles a count ++ rest) = fetchedBytes rest := by
  induction count with
  | zero => rfl
  | succ count ih => exact ih

theorem Obeys.dispatched {op : Byte} {grammar : Grammar} {opcodes : Nat}
    (obeys : Obeys opcodes (opcodeArm op (baseTFor op)) grammar) :
    Obeys opcodes (dispatchOpcode op) grammar := by
  intro cpu clean
  rw [dispatchOpcode, holds_bind, holds_opcodePrelude]
  apply (obeys cpu clean).mono
  intro t next tail performs memory ports reads
  rw [readsFrom_append, memoryAfter_idle] at reads
  rw [bytesOf_idle, inputOf_idle, memoryAfter_append, memoryAfter_idle, portsOf_append,
    portsOf_idle]
  exact performs memory ports reads.2

section Terms
variable (f v : Byte)

theorem carryIn_false : carryIn false f = carryWord false := rfl
theorem carryIn_true : carryIn true f = carryWord (carry f) := rfl

theorem rlc_result : v <<< 1 ||| v >>> 7 &&& 1#8 = v.rotateLeft 1 :=
  (congrArg Prod.fst (shiftOutcome_eq 0 (by decide) 0 v)).symm

theorem rrc_result : v >>> 1 ||| (v &&& 1#8) <<< 7 = v.rotateRight 1 :=
  (congrArg Prod.fst (shiftOutcome_eq 1 (by decide) 0 v)).symm

theorem rl_result : v <<< 1 ||| oldCarry f = (ShiftOp.rl.apply (carry f) v).1 :=
  (congrArg Prod.fst (shiftOutcome_eq 2 (by decide) f v)).symm

theorem rr_result : v >>> 1 ||| oldCarry f <<< 7 = (ShiftOp.rr.apply (carry f) v).1 :=
  (congrArg Prod.fst (shiftOutcome_eq 3 (by decide) f v)).symm

theorem low_out : (v &&& 1#8 != 0) = v.getLsbD 0 :=
  (congrArg Prod.snd (shiftOutcome_eq 1 (by decide) 0 v)).symm

end Terms

theorem aluOutcome_eq (row : Nat) (a f v : Byte) :
    (aluOf row).apply f a v = aluOutcome row a f v := by
  have noCarry := addFlags_eq a v false
  have noBorrow := subFlags_eq a v false
  have withCarry := addFlags_eq a v (carry f)
  have withBorrow := subFlags_eq a v (carry f)
  have sumIs (c : Bool) := lo_addSum a v c
  have differenceIs (c : Bool) := lo_subDiff a v c
  unfold aluOutcome
  split
  · exact Prod.ext (sumIs false).symm noCarry.symm
  · exact Prod.ext (sumIs _).symm withCarry.symm
  · exact Prod.ext (differenceIs false).symm noBorrow.symm
  · exact Prod.ext (differenceIs _).symm withBorrow.symm
  · exact Prod.ext rfl (andFlags_eq _).symm
  · exact Prod.ext rfl (sz53pOf_eq _).symm
  · exact Prod.ext rfl (sz53pOf_eq _).symm
  · rename_i not0 not1 not2 not3 not4 not5 not6
    have last : aluOf row = .cp := by
      unfold aluOf
      split <;> first | rfl | contradiction
    rw [last]
    exact Prod.ext rfl (cpFlags_eq a v).symm

theorem kindField_lt : ∀ op : Byte, kindField op < 4 := by decide

theorem regField_lt : ∀ op : Byte, regField op < 8 := by decide

theorem set_reg8 {row : Nat} (inside : row < 8) (noMemory : row ≠ 6) (v : Byte) (r : Registers) :
    (Names.reg8 {} row).set v r = r.setReg8 row v := by
  interval_cases row <;> first | rfl | contradiction

section Branches
variable {found : Grammar} {condition : Condition} {holds : Byte → Bool}

theorem jrArm_obeys (entry : found = withByte (.jr (some condition)))
    (same : ∀ f, condition.holds f = holds f) : Obeys 0 (jrArm holds) found := by
  subst entry
  rintro ⟨regs, nmiLine, nmiPending, intLine, pulse, modified⟩ clean
  subst clean
  simp only [jrArm, holds_bind, holds_pure, holds_ite, holds_getRegs, holds_modifyRegs, holds_idle,
    holds_fetchImmediate]
  intro v
  constructor
  · intro taken memory ports _
    exact congrArg some (if_pos ((same _).trans taken))
  · intro untaken memory ports _
    exact congrArg some (if_neg fun met => untaken ((same _).symm.trans met))

theorem retArm_obeys (entry : found = alone (.ret (some condition)))
    (same : ∀ f, condition.holds f = holds f) : Obeys 0 (retArm holds) found := by
  subst entry
  rintro ⟨regs, nmiLine, nmiPending, intLine, pulse, modified⟩ clean
  subst clean
  simp only [retArm, jp, holds_bind, holds_pure, holds_ite, holds_getRegs, holds_modifyRegs,
    holds_pop16]
  constructor
  · rintro taken low high memory ports ⟨rfl, rfl, -⟩
    exact congrArg some (if_pos ((same _).trans taken))
  · intro untaken memory ports _
    exact congrArg some (if_neg fun met => untaken ((same _).symm.trans met))

theorem callArm_obeys (entry : found = withWord (.call (some condition)))
    (same : ∀ f, condition.holds f = holds f) : Obeys 0 (callArm holds) found := by
  subst entry
  rintro ⟨regs, nmiLine, nmiPending, intLine, pulse, modified⟩ clean
  subst clean
  simp only [callArm, callCond, holds_bind, holds_pure, holds_ite, holds_getRegs, holds_modifyRegs,
    holds_fetchImmediate16, holds_idle, holds_push16]
  constructor
  · intro taken low high
    refine ⟨fun _ memory ports _ => ?_, fun never => absurd trivial never⟩
    exact congrArg some (if_pos ((same _).trans taken))
  · intro untaken low high
    refine ⟨fun never => absurd never Bool.false_ne_true, fun _ memory ports _ => ?_⟩
    exact congrArg some (if_neg fun met => untaken ((same _).symm.trans met))

theorem jpCond_obeys {t : Int} {taken : Registers → Bool}
    (entry : found = withWord (.jp (some condition)))
    (same : ∀ r, condition.holds r.flags = taken r) :
    Obeys 0 (do jpCond (taken (← getRegs)); return t) found := by
  subst entry
  rintro ⟨regs, nmiLine, nmiPending, intLine, pulse, modified⟩ clean
  subst clean
  simp only [jpCond, holds_bind, holds_pure, holds_ite, holds_getRegs, holds_modifyRegs,
    holds_fetchImmediate16]
  intro low high
  constructor
  · intro jumps memory ports _
    exact congrArg some (if_pos ((same _).trans jumps))
  · intro stays memory ports _
    exact congrArg some (if_neg fun met => stays ((same _).symm.trans met))

end Branches

theorem djnz_obeys : Obeys 0 djnz (withByte .djnz) := by
  rintro ⟨regs, nmiLine, nmiPending, intLine, pulse, modified⟩ clean
  subst clean
  simp only [djnz, holds_bind, holds_pure, holds_ite, holds_getRegs, holds_modifyRegs, holds_idle,
    holds_fetchImmediate]
  intro v
  constructor
  · intro taken memory ports _
    exact congrArg some (if_pos taken)
  · intro untaken memory ports _
    exact congrArg some (if_neg untaken)

section Blocks
variable {op : Byte} (t : Int)

theorem ldArm_obeys (block : kindField op = 1) (notHalt : op ≠ 0x76#8) :
    Obeys 0 (do ldArm op; return t) (mainTable {} op) := by
  have entries : ∀ op : Byte, kindField op = 1 → op ≠ 0x76#8 →
      ¬ (midField op = 6 ∧ regField op = 6) := by decide
  have entry := entries op block notHalt
  have found : mainTable {} op = alone (.ld (Names.operand {} (midField op))
      (.from (Names.operand {} (regField op)))) := by
    simp only [mainTable, block, loadTable, if_neg entry]
  rintro ⟨regs, nmiLine, nmiPending, intLine, pulse, modified⟩ clean
  subst clean
  rw [found]
  have rowBound := midField_lt op
  have columnBound := regField_lt op
  simp only [ldArm]
  generalize midField op = row at *
  generalize regField op = column at *
  -- not both are in memory: that place is HALT's
  by_cases source : column = 6
  · have register : row ≠ 6 := fun same => entry ⟨same, source⟩
    subst source
    simp only [register, holds_bind, holds_pure, holds_getRegs, holds_modifyRegs, holds_read8,
      if_true, if_false]
    rintro v memory ports ⟨rfl, -⟩
    interval_cases row <;> first | rfl | contradiction
  · by_cases target : row = 6
    · subst target
      simp only [source, holds_bind, holds_pure, holds_getRegs, holds_write8, if_true, if_false]
      intro memory ports _
      interval_cases column <;> first | rfl | contradiction
    · simp only [source, target, holds_bind, holds_pure, holds_getRegs, holds_modifyRegs, if_false]
      intro memory ports _
      interval_cases row <;> interval_cases column <;> first | rfl | contradiction

theorem aluArm_obeys (block : kindField op = 2) :
    Obeys 0 (do aluArm op; return t) (mainTable {} op) := by
  have found : mainTable {} op = alone (.alu (aluOf (midField op))
      (.from (Names.operand {} (regField op)))) := by
    simp only [mainTable, block, aluTable]
  rintro ⟨regs, nmiLine, nmiPending, intLine, pulse, modified⟩ clean
  subst clean
  rw [found]
  have columnBound := regField_lt op
  simp only [aluArm]
  generalize regField op = column at *
  by_cases source : column = 6
  · subst source
    simp only [holds_bind, holds_pure, holds_getRegs, holds_read8, holds_aluOp, midField_lt,
      if_true, ← aluOutcome_eq]
    rintro v memory ports ⟨rfl, -⟩
    rfl
  · simp only [source, holds_bind, holds_pure, holds_getRegs, holds_aluOp, midField_lt, if_false,
      ← aluOutcome_eq]
    intro memory ports _
    interval_cases column <;> first | rfl | contradiction

end Blocks

/-! ## The switch -/

theorem exSpHl_obeys (t : Int) : Obeys 0 (do exSpHl; return t) (alone (.exSp .hl)) := by
  rintro ⟨regs, nmiLine, nmiPending, intLine, pulse, modified⟩ clean
  subst clean
  simp only [exSpHl, holds_bind, holds_pure, holds_getRegs, holds_modifyRegs, holds_idle,
    holds_read8, holds_write8]
  rintro low high memory ports ⟨rfl, rfl, -⟩
  refine congrArg some ?_
  simp only [Instruction.exec, Reg16.get, Reg16.set, Registers.setHl, Registers.hl, State.top,
    hi_word, lo_word]
  rfl

theorem exDeHl_obeys (t : Int) : Obeys 0 (do exDeHl; return t) (alone .exDeHl) := by
  rintro ⟨regs, nmiLine, nmiPending, intLine, pulse, modified⟩ clean
  subst clean
  simp only [exDeHl, holds_bind, holds_pure, holds_modifyRegs]
  intro memory ports _
  refine congrArg some ?_
  simp only [Instruction.exec, Registers.setHl, Registers.setDe, Registers.hl, Registers.de,
    hi_word, lo_word]
  rfl

theorem andImmediate_obeys (t : Int) : Obeys 0 (do aluAnd (← fetchImmediate); return t)
    (withByte fun n => .alu .and (.imm n)) := by
  rintro ⟨regs, nmiLine, nmiPending, intLine, pulse, modified⟩ clean
  subst clean
  simp only [holds_bind, holds_pure, holds_fetchImmediate, holds_aluAnd, andFlags_eq]
  exact fun _ _ _ _ => rfl

theorem highArm_obeys (op : Byte) (t : Int) (block : kindField op = 3) (cb : op ≠ 0xCB#8)
    (ed : op ≠ 0xED#8) (dd : op ≠ 0xDD#8) (fd : op ≠ 0xFD#8) :
    Obeys 0 (highArm op t) (mainTable {} op) := by
  fun_cases highArm op t
  -- an arm is found by what it runs, and its entry of the table by evaluating that
  all_goals first
    | exact absurd rfl cb
    | exact absurd rfl ed
    | with_reducible apply retArm_obeys
      · rfl
      · exact fun _ => rfl
    | with_reducible apply callArm_obeys
      · rfl
      · exact fun _ => rfl
    | with_reducible apply jpCond_obeys
      · rfl
      · exact fun _ => rfl
    | with_reducible refine (exSpHl_obeys t).listed ?_
      rfl
    | with_reducible refine (exDeHl_obeys t).listed ?_
      rfl
    | with_reducible refine (andImmediate_obeys t).listed ?_
      rfl
    | rintro ⟨regs, nmiLine, nmiPending, intLine, pulse, modified⟩ clean
      subst clean
      simp only [jp, call, rst, outA, inA, exx, di, ei, holds_bind, holds_pure, holds_getRegs,
        holds_modifyRegs, holds_idle, holds_fetchImmediate, holds_fetchImmediate16, holds_push16,
        holds_pop16, holds_ioIn, holds_ioOut, holds_aluAdd, holds_aluSub, holds_aluOr, holds_aluXor,
        holds_aluCp, carryIn_false, carryIn_true, lo_addSum, lo_subDiff, addFlags_eq, subFlags_eq,
        cpFlags_eq, sz53pOf_eq, wz_store]
      first
      | exact fun _ _ _ => rfl
      | exact fun _ _ _ _ => rfl
      | exact fun _ _ _ _ _ => rfl
      | (rintro low high memory ports ⟨rfl, rfl, -⟩; rfl)
    | rw [kindField_eq] at block
      simp only [imp_false] at *
      bv_omega

theorem opcodeArm_obeys (op : Byte) (t : Int) (cb : op ≠ 0xCB#8) (ed : op ≠ 0xED#8)
    (dd : op ≠ 0xDD#8) (fd : op ≠ 0xFD#8) : Obeys 0 (opcodeArm op t) (mainTable {} op) := by
  obtain ⟨loads, notHalt⟩ | alu | high | rest := opcode_blocks op
  · rw [opcodeArm_ld t loads notHalt]
    exact ldArm_obeys t loads notHalt
  · rw [opcodeArm_alu t alu]
    exact aluArm_obeys t alu
  · rw [opcodeArm_high t high]
    exact highArm_obeys op t high cb ed dd fd
  fun_cases opcodeArm op t
  all_goals first
    | with_reducible apply jrArm_obeys
      · rfl
      · exact fun _ => rfl
    | with_reducible refine djnz_obeys.listed ?_
      rfl
    | rintro ⟨regs, nmiLine, nmiPending, intLine, pulse, modified⟩ clean
      subst clean
      simp only [storeA, loadA, store16, load16, updateMem, addHl, jr, halt, scf, ccf, cpl, exAf,
        aluRlca, aluRrca, aluRla, aluRra, holds_bind, holds_pure, holds_getRegs, holds_modifyRegs,
        holds_idle, holds_read8, holds_write8, holds_fetchImmediate, holds_fetchImmediate16,
        holds_writeFlags, holds_aluInc, holds_aluDec, holds_aluAdd16, holds_aluDaa,
        holds_storeRotatedA, Registers.setAf, Registers.af, hi_word, lo_word, incFlags_eq,
        decFlags_eq, add16Sum_eq, add16Flags_eq, daaResult_eq, daaFlags_eq, rotateFlags_eq,
        cplFlags_eq, scfFlags_eq, ccfFlags_eq, wz_store, rlc_result, rrc_result, rl_result,
        rr_result, low_out]
      first
      | exact fun _ _ _ => rfl
      | exact fun _ _ _ _ => rfl
      | exact fun _ _ _ _ _ => rfl
      | (rintro v memory ports ⟨rfl, -⟩; rfl)
      | (rintro low high v memory ports ⟨-, -, rfl, -⟩; rfl)
      | (rintro low high v v' memory ports ⟨-, -, rfl, rfl, -⟩; rfl)
    | simp only [imp_false] at *
      bv_omega

/-! ## The CB dispatcher -/

section Shifts
variable {row : Nat} (inside : row < 8) (f v : Byte)
include inside

theorem shift_result : (shiftOutcome row f v).1 = ((shiftOf row).apply (carry f) v).1 :=
  (congrArg Prod.fst (shiftOutcome_eq row inside f v)).symm

theorem shift_out : ((shiftOutcome row f v).2 != 0) = ((shiftOf row).apply (carry f) v).2 :=
  (congrArg Prod.snd (shiftOutcome_eq row inside f v)).symm

end Shifts

theorem dispatchCb_obeys : Obeys 1 dispatchCb
    (headed fun code => alone (bitTable (Names.operand {} (regField code)) none code)) := by
  refine Obeys.fetched fun code => ?_
  rintro ⟨regs, nmiLine, nmiPending, intLine, pulse, modified⟩ clean
  subst clean
  have kindBound := kindField_lt code
  have rowBound := midField_lt code
  have columnBound := regField_lt code
  simp only [bitTable]
  generalize kindField code = kind at *
  generalize midField code = row at *
  generalize regField code = column at *
  by_cases shifts : kind = 0
  · subst shifts
    by_cases memory : column = 6
    · subst memory
      simp only [storeCb, holds_bind, holds_pure, holds_getRegs, holds_read8, holds_write8,
        holds_idle, holds_shiftOp, rowBound, if_true, shift_result rowBound, shift_out rowBound,
        shiftFlags_eq]
      rintro v memory ports ⟨rfl, -⟩
      rfl
    · simp only [storeCb, memory, holds_bind, holds_pure, holds_getRegs, holds_modifyRegs,
        holds_shiftOp, rowBound, if_true, if_false, shift_result rowBound, shift_out rowBound,
        shiftFlags_eq]
      intro memory ports _
      interval_cases column <;> first | rfl | contradiction
  by_cases tests : kind = 1
  · subst tests
    by_cases memory : column = 6
    · subst memory
      simp only [shifts, holds_bind, holds_pure, holds_getRegs, holds_read8, holds_idle,
        holds_cbBit, bitFlags_eq _ _ _ rowBound, if_true, if_false]
      rintro v memory ports ⟨rfl, -⟩
      rfl
    · simp only [shifts, memory, holds_bind, holds_pure, holds_getRegs, holds_cbBit,
        bitFlags_eq _ _ _ rowBound, if_true, if_false]
      intro memory ports _
      interval_cases column <;> first | rfl | contradiction
  by_cases clears : kind = 2
  · subst clears
    by_cases memory : column = 6
    · subst memory
      simp only [storeCb, shifts, tests, holds_bind, holds_pure, holds_getRegs, holds_read8,
        holds_write8, holds_idle, if_true, if_false]
      rintro v memory ports ⟨rfl, -⟩
      rfl
    · simp only [storeCb, shifts, tests, memory, holds_bind, holds_pure, holds_getRegs,
        holds_modifyRegs, if_true, if_false]
      intro memory ports _
      interval_cases column <;> first | rfl | contradiction
  · have sets : kind = 3 := by omega
    subst sets
    by_cases memory : column = 6
    · subst memory
      simp only [storeCb, shifts, tests, clears, holds_bind, holds_pure, holds_getRegs,
        holds_read8, holds_write8, holds_idle, if_true, if_false]
      rintro v memory ports ⟨rfl, -⟩
      rfl
    · simp only [storeCb, shifts, tests, clears, memory, holds_bind, holds_pure, holds_getRegs,
        holds_modifyRegs, if_false]
      intro memory ports _
      interval_cases column <;> first | rfl | contradiction

/-! ## The ED dispatcher -/

theorem portFlags_eq (f v : Byte) : sz53pOf v ||| f &&& cf = shownFlags f v (evenParity v) :=
  (BitVec.or_comm ..).trans (shownParity_eq f v)

theorem toNat_byteSum (x y : Byte) : (x.setWidth 16 + y.setWidth 16).toNat = x.toNat + y.toNat := by
  have xBound := x.isLt
  have yBound := y.isLt
  rw [BitVec.toNat_add, BitVec.toNat_setWidth, BitVec.toNat_setWidth]
  omega

section Ports
variable {row : Nat} (inside : row < 8) (t : Int)
include inside

theorem inC_obeys : Obeys 0 (do inC row; return t) (alone (.inC (portReg row))) := by
  rintro ⟨regs, nmiLine, nmiPending, intLine, pulse, modified⟩ clean
  subst clean
  by_cases dropped : row = 6
  · subst dropped
    simp only [inC, ne_eq, not_true, if_false, holds_bind, holds_pure, holds_getRegs,
      holds_modifyRegs, holds_writeFlags, holds_ioIn, portFlags_eq]
    exact fun _ _ _ _ => rfl
  · simp only [inC, ne_eq, dropped, not_false_eq_true, if_true, holds_bind, holds_pure,
      holds_getRegs, holds_modifyRegs, holds_writeFlags, holds_ioIn, portFlags_eq]
    intro v memory ports _
    interval_cases row <;> rfl

theorem outC_obeys : Obeys 0 (do outC row; return t) (alone (.outC (portReg row))) := by
  rintro ⟨regs, nmiLine, nmiPending, intLine, pulse, modified⟩ clean
  subst clean
  simp only [outC, holds_bind, holds_pure, holds_getRegs, holds_modifyRegs, holds_ioOut]
  intro memory ports _
  interval_cases row <;> rfl

end Ports

section Blocks
variable {found : Grammar} {direction : Direction} {delta : Int} {repeats : Bool}
  (toward : direction.delta = delta)
include toward

theorem blockLd_obeys (entry : found = alone (.block .move direction repeats)) :
    Obeys 0 (blockLd delta repeats) found := by
  subst entry toward
  rintro ⟨regs, nmiLine, nmiPending, intLine, pulse, modified⟩ clean
  subst clean
  rw [holds_blockLd]
  intro v
  simp only [Registers.blockLdDone, Registers.rewound, stepped_eq, moveFlags_eq]
  -- a round that repeats leaves PC on the instruction and WZ behind its first byte
  constructor
  · intro once
    refine Performs.of_parts (rfl : fetchedBytes _ = []) rfl rfl rfl ?_
    rintro memory ports ⟨rfl, -⟩
    refine (if_neg (Bool.eq_false_iff.mp once)).trans ?_
    simp only [State.onRegs, State.setFlags, State.store, behind, Registers.setHl, Registers.setDe,
      Registers.setBc, Registers.hl, Registers.de, Registers.bc]
    rfl
  · intro again
    refine Performs.of_parts (rfl : fetchedBytes _ = []) rfl rfl rfl ?_
    rintro memory ports ⟨rfl, -⟩
    refine (if_pos again).trans ?_
    simp only [State.onRegs, State.setFlags, State.store, State.again, behind, Registers.setHl,
      Registers.setDe, Registers.setBc, Registers.hl, Registers.de, Registers.bc]
    rfl

theorem blockCp_obeys (entry : found = alone (.block .search direction repeats)) :
    Obeys 0 (blockCp delta repeats) found := by
  subst entry toward
  rintro ⟨regs, nmiLine, nmiPending, intLine, pulse, modified⟩ clean
  subst clean
  rw [holds_blockCp]
  intro v
  have compared : lo (subDiff regs.a v 0) = difference regs.a v false := lo_subDiff regs.a v false
  simp only [Registers.blockCpDone, Registers.rewound, stepped_eq, searchFlags_eq, compared]
  constructor
  · intro once
    refine Performs.of_parts (rfl : fetchedBytes _ = []) rfl rfl rfl ?_
    rintro memory ports ⟨rfl, -⟩
    refine (if_neg (Bool.eq_false_iff.mp once)).trans ?_
    simp only [State.onRegs, State.setFlags, behind, Registers.setHl, Registers.setBc, Registers.hl,
      Registers.bc]
    rfl
  · intro again
    refine Performs.of_parts (rfl : fetchedBytes _ = []) rfl rfl rfl ?_
    rintro memory ports ⟨rfl, -⟩
    refine (if_pos again).trans ?_
    simp only [State.onRegs, State.setFlags, State.again, behind, Registers.setHl, Registers.setBc,
      Registers.hl, Registers.bc]
    rfl

theorem blockIn_obeys (entry : found = alone (.block .input direction repeats)) :
    Obeys 0 (blockIn delta repeats) found := by
  subst entry toward
  rintro ⟨regs, nmiLine, nmiPending, intLine, pulse, modified⟩ clean
  subst clean
  rw [holds_blockIn]
  intro v
  simp only [Registers.blockInDone, stepped_eq, transferFlags_eq, toNat_byteSum]
  constructor
  · intro once memory ports _
    exact congrArg some (if_neg (Bool.eq_false_iff.mp once))
  · intro again memory ports _
    exact congrArg some (if_pos again)

theorem blockOut_obeys (entry : found = alone (.block .output direction repeats)) :
    Obeys 0 (blockOut delta repeats) found := by
  subst entry toward
  rintro ⟨regs, nmiLine, nmiPending, intLine, pulse, modified⟩ clean
  subst clean
  rw [holds_blockOut]
  intro v
  simp only [Registers.blockOutDone, stepped_eq, transferFlags_eq, toNat_byteSum]
  constructor
  · intro once
    refine Performs.of_parts (rfl : fetchedBytes _ = []) rfl rfl rfl ?_
    rintro memory ports ⟨rfl, -⟩
    exact if_neg (Bool.eq_false_iff.mp once)
  · intro again
    refine Performs.of_parts (rfl : fetchedBytes _ = []) rfl rfl rfl ?_
    rintro memory ports ⟨rfl, -⟩
    exact if_pos again

end Blocks

section Single
variable (t : Int)

theorem neg_obeys : Obeys 0 (do neg; return t) (alone .neg) := by
  rintro ⟨regs, nmiLine, nmiPending, intLine, pulse, modified⟩ clean
  subst clean
  simp only [neg, holds_bind, holds_pure, holds_getRegs, holds_modifyRegs, holds_writeFlags,
    negFlags_eq]
  exact fun _ _ _ => rfl

theorem retn_obeys : Obeys 0 (do retn; return t) (alone .retn) := by
  rintro ⟨regs, nmiLine, nmiPending, intLine, pulse, modified⟩ clean
  subst clean
  simp only [retn, jp, holds_bind, holds_pure, holds_modifyRegs, holds_pop16]
  intro low high
  refine Performs.of_parts (rfl : fetchedBytes _ = []) rfl rfl rfl ?_
  rintro memory ports ⟨rfl, rfl, -⟩
  rfl

theorem setIm_obeys (mode : Byte) : Obeys 0 (do setIm mode; return t) (alone (.im mode)) := by
  rintro ⟨regs, nmiLine, nmiPending, intLine, pulse, modified⟩ clean
  subst clean
  exact fun _ _ _ => rfl

theorem rrd_obeys : Obeys 0 (do rrd; return t) (alone .rrd) := by
  rintro ⟨regs, nmiLine, nmiPending, intLine, pulse, modified⟩ clean
  subst clean
  simp only [rrd, rotateDigit, holds_bind, holds_pure, holds_getRegs, holds_modifyRegs, holds_idle,
    holds_read8, holds_write8, holds_writeFlags, shownParity_eq, low_high, high_low]
  intro v
  refine Performs.of_parts (rfl : fetchedBytes _ = []) rfl rfl rfl ?_
  rintro memory ports ⟨rfl, -⟩
  rfl

theorem rld_obeys : Obeys 0 (do rld; return t) (alone .rld) := by
  rintro ⟨regs, nmiLine, nmiPending, intLine, pulse, modified⟩ clean
  subst clean
  simp only [rld, rotateDigit, holds_bind, holds_pure, holds_getRegs, holds_modifyRegs, holds_idle,
    holds_read8, holds_write8, holds_writeFlags, shownParity_eq, low_low, high_high]
  intro v
  refine Performs.of_parts (rfl : fetchedBytes _ = []) rfl rfl rfl ?_
  rintro memory ports ⟨rfl, -⟩
  rfl

end Single

theorem unlisted_fields : ∀ op : Byte, op ∉ edOpcodes →
    (kindField op ≠ 1 ∧ kindField op ≠ 2) ∨
    (kindField op = 2 ∧ ¬(regField op < 4 ∧ 4 ≤ midField op)) ∨
    (kindField op = 1 ∧ regField op = 7 ∧ (midField op = 6 ∨ midField op = 7)) := by
  decide +kernel

theorem extendedTable_unlisted {op : Byte} (unlisted : op ∉ edOpcodes) :
    extendedTable op = alone .nop := by
  obtain ⟨notOne, notTwo⟩ | ⟨two, outside⟩ | ⟨one, seven, last | last⟩ :=
    unlisted_fields op unlisted
  · unfold extendedTable
    split <;> first | rfl | contradiction
  · simp only [extendedTable, two, if_neg outside]
  · simp only [extendedTable, one, seven, last]
  · simp only [extendedTable, one, seven, last]

theorem edArm_obeys (op : Byte) : Obeys 0 (edArm op) (extendedTable op) := by
  by_cases listed : op ∈ edOpcodes
  case neg =>
    rw [edArm_unlisted listed, extendedTable_unlisted listed]
    rintro ⟨regs, nmiLine, nmiPending, intLine, pulse, modified⟩ clean
    subst clean
    exact fun _ _ _ => rfl
  have row := midField_lt op
  fun_cases edArm op
  all_goals first
    | with_reducible first
      | refine (inC_obeys row 12).listed ?_
      | refine (outC_obeys row 12).listed ?_
      | refine (neg_obeys 8).listed ?_
      | refine (retn_obeys 14).listed ?_
      | refine (setIm_obeys 8 _).listed ?_
      | refine (rrd_obeys 18).listed ?_
      | refine (rld_obeys 18).listed ?_
      rfl
    | with_reducible first
      | apply blockLd_obeys
      | apply blockCp_obeys
      | apply blockIn_obeys
      | apply blockOut_obeys
      case entry => rfl
      case toward => rfl
    | rintro ⟨regs, nmiLine, nmiPending, intLine, pulse, modified⟩ clean
      subst clean
      simp only [store16, load16, ldIA, ldRA, ldAFrom, holds_bind, holds_pure, holds_getRegs,
        holds_modifyRegs, holds_idle, holds_read8, holds_write8, holds_fetchImmediate16,
        holds_aluAdc16, holds_aluSbc16, holds_writeFlags, adc16Sum_eq, sbc16Diff_eq, adc16Flags_eq,
        sbc16Flags_eq, shownFlags_eq]
      first
      | exact fun _ _ _ => rfl
      | exact fun _ _ _ _ _ => rfl
      | (rintro low high v v' memory ports ⟨-, -, rfl, rfl, -⟩; rfl)
    | simp only [imp_false] at *
      simp only [edOpcodes, List.mem_cons, List.not_mem_nil, or_false, *] at listed

end Z80f.Isa