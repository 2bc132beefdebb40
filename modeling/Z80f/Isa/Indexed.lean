import Z80f.Isa.Refinement

/-! # The dispatchers behind an index prefix

The entries that name HL are executed one by one, the others by the switch that
knows no prefix. -/

set_option autoImplicit false

namespace Z80f.Isa

open Interaction Stateful Z80M Flags

theorem Obeys.returns {opcodes : Nat} {m : Z80M Int} {grammar : Grammar}
    (obeys : Obeys opcodes m grammar) (t : Int) :
    Obeys opcodes (do let cost ← m; return t + cost) grammar := by
  intro cpu clean
  rw [holds_bind]
  apply (obeys cpu clean).mono
  intro cost next tail performs
  rw [holds_pure, List.append_nil]
  exact performs

theorem holds_storeIndexCb (a : Word) {column : Nat} (inside : column < 8) (v : Byte) (cpu : Cpu)
    {post : Unit → Cpu → Path → Prop} :
    (storeIndexCb a column v).Holds post cpu ↔
      post () { cpu with regs := (portReg column).elim cpu.regs fun reg => reg.set v cpu.regs }
        [cycle a 3, writeOf a v] := by
  by_cases dropped : column = 6
  · subst dropped
    simp only [storeIndexCb, ne_eq, not_true, if_false, holds_bind, holds_pure, holds_write8]
    exact Iff.rfl
  · have copied : portReg column = some (Names.reg8 {} column) := if_neg dropped
    simp only [storeIndexCb, ne_eq, dropped, not_false_eq_true, if_true, holds_bind, holds_write8,
      holds_modifyRegs, ← set_reg8 inside dropped, copied]
    exact Iff.rfl

theorem dispatchIndexCb_obeys (x : IndexReg) : Obeys 0 (dispatchIndexCb x)
    (headed fun d => headed fun code =>
      alone (bitTable (.mem (.indexed x d)) (portReg (regField code)) code)) := by
  rintro ⟨regs, nmiLine, nmiPending, intLine, pulse, modified⟩ clean
  subst clean
  simp only [dispatchIndexCb, holds_bind, holds_getRegs, holds_modifyRegs, holds_idle, holds_read8,
    holds_fetchImmediate]
  intro d code v
  have kindBound := kindField_lt code
  have rowBound := midField_lt code
  have columnBound := regField_lt code
  have entry : (headed fun d => headed fun code =>
      alone (bitTable (.mem (.indexed x d)) (portReg (regField code)) code)) [d, code] =
      some (bitTable (.mem (.indexed x d)) (portReg (regField code)) code) := rfl
  unfold bitTable at entry
  generalize kindField code = kind at *
  by_cases shifts : kind = 0
  · subst shifts
    simp only [if_true, holds_bind, holds_pure, holds_storeIndexCb _ columnBound, holds_shiftOp,
      rowBound, shift_result rowBound, shift_out rowBound, shiftFlags_eq]
    refine Performs.of_parts (rfl : fetchedBytes _ = [d, code]) rfl entry rfl ?_
    rintro memory ports ⟨-, -, rfl, -⟩
    clear entry
    generalize regField code = column at *
    interval_cases column <;> cases x <;> rfl
  by_cases tests : kind = 1
  · subst tests
    simp only [shifts, if_true, if_false, holds_bind, holds_pure, holds_cbBit,
      bitFlags_eq _ _ _ rowBound]
    refine Performs.of_parts (rfl : fetchedBytes _ = [d, code]) rfl entry rfl ?_
    rintro memory ports ⟨-, -, rfl, -⟩
    cases x <;> rfl
  by_cases clears : kind = 2
  · subst clears
    simp only [shifts, tests, if_true, if_false, holds_bind, holds_pure,
      holds_storeIndexCb _ columnBound]
    refine Performs.of_parts (rfl : fetchedBytes _ = [d, code]) rfl entry rfl ?_
    rintro memory ports ⟨-, -, rfl, -⟩
    clear entry
    generalize regField code = column at *
    interval_cases column <;> cases x <;> rfl
  · have sets : kind = 3 := by omega
    subst sets
    simp only [shifts, tests, clears, if_false, holds_bind, holds_pure,
      holds_storeIndexCb _ columnBound]
    refine Performs.of_parts (rfl : fetchedBytes _ = [d, code]) rfl entry rfl ?_
    rintro memory ports ⟨-, -, rfl, -⟩
    clear entry
    generalize regField code = column at *
    interval_cases column <;> cases x <;> rfl

def namesHl (kind row column : Nat) : Bool :=
  match kind with
  | 0 =>
      match column with
      | 1 => row % 2 == 1 || row == 4
      | 2 | 3 => row == 4 || row == 5
      | 4 | 5 | 6 => row == 4 || row == 5 || row == 6
      | _ => false
  | 1 =>
      (row == 4 || row == 5 || row == 6 || column == 4 || column == 5 || column == 6) &&
        !(row == 6 && column == 6)
  | 2 => column == 4 || column == 5 || column == 6
  | _ =>
      match column with
      | 1 => row == 4 || row == 5 || row == 7
      | 3 | 5 => row == 4
      | _ => false

theorem mainTable_unnamed (names : Names) {op : Byte}
    (unnamed : namesHl (kindField op) (midField op) (regField op) = false) :
    mainTable names op = mainTable {} op := by
  have kindBound := kindField_lt op
  have rowBound := midField_lt op
  have columnBound := regField_lt op
  unfold mainTable
  generalize kindField op = kind at *
  generalize midField op = row at *
  generalize regField op = column at *
  interval_cases kind <;> interval_cases column <;> interval_cases row <;>
    first | rfl | exact absurd unnamed (by decide)

theorem unlisted_unnamed : ∀ op : Byte, op ∉ indexOpcodes →
    hasHlOperand op = false ∧ namesHl (kindField op) (midField op) (regField op) = false := by
  decide +kernel

/-! ## DD and FD -/

section Index
variable (x : IndexReg) (t : Int)

theorem ldRegIdx_obeys {row : Nat} (inside : row < 8) (noMemory : row ≠ 6) :
    Obeys 0 (do ldRegIdx x row; return t)
      (headed fun d => alone (.ld (.reg (Names.reg8 {} row)) (.from (.mem (.indexed x d))))) := by
  rintro ⟨regs, nmiLine, nmiPending, intLine, pulse, modified⟩ clean
  subst clean
  simp only [ldRegIdx, idxAddr, holds_bind, holds_pure, holds_getRegs, holds_modifyRegs, holds_idle,
    holds_read8, holds_fetchImmediate]
  intro d v
  refine Performs.of_parts (rfl : fetchedBytes _ = [d]) rfl rfl rfl ?_
  rintro memory ports ⟨-, rfl, -⟩
  interval_cases row <;> cases x <;> first | rfl | contradiction

theorem ldIdxReg_obeys {row : Nat} (inside : row < 8) (noMemory : row ≠ 6) :
    Obeys 0 (do ldIdxReg x row; return t)
      (headed fun d => alone (.ld (.mem (.indexed x d)) (.from (.reg (Names.reg8 {} row))))) := by
  rintro ⟨regs, nmiLine, nmiPending, intLine, pulse, modified⟩ clean
  subst clean
  simp only [ldIdxReg, idxAddr, holds_bind, holds_pure, holds_getRegs, holds_modifyRegs, holds_idle,
    holds_write8, holds_fetchImmediate]
  intro d
  refine Performs.of_parts (rfl : fetchedBytes _ = [d]) rfl rfl rfl ?_
  intro memory ports _
  interval_cases row <;> cases x <;> first | rfl | contradiction

theorem aluIdx_obeys {row : Nat} {operation : Byte → Z80M Unit} {found : Grammar}
    (inside : row < 8)
    (entry : found = headed fun d => alone (.alu (aluOf row) (.from (.mem (.indexed x d)))))
    (same : operation = aluOp row) :
    Obeys 0 (do operation (← read8 (← idxAddr x)); return t) found := by
  subst entry same
  rintro ⟨regs, nmiLine, nmiPending, intLine, pulse, modified⟩ clean
  subst clean
  simp only [idxAddr, holds_bind, holds_pure, holds_getRegs, holds_modifyRegs, holds_idle,
    holds_read8, holds_fetchImmediate, holds_aluOp, inside, ← aluOutcome_eq]
  intro d v
  refine Performs.of_parts (rfl : fetchedBytes _ = [d]) rfl rfl rfl ?_
  rintro memory ports ⟨-, rfl, -⟩
  cases x <;> rfl

theorem aluHalf_obeys {row : Nat} {operation : Byte → Z80M Unit} {half : Z80M Byte} {reg : Reg8}
    {found : Grammar} (inside : row < 8)
    (entry : found = alone (.alu (aluOf row) (.from (.reg reg)))) (same : operation = aluOp row)
    (reads : ∀ cpu (post : Byte → Cpu → Path → Prop),
      half.Holds post cpu ↔ post (reg.get cpu.regs) cpu []) :
    Obeys 0 (do operation (← half); return t) found := by
  subst entry same
  rintro ⟨regs, nmiLine, nmiPending, intLine, pulse, modified⟩ clean
  subst clean
  simp only [holds_bind, holds_pure, reads, holds_aluOp, inside, ← aluOutcome_eq]
  exact fun _ _ _ => rfl

theorem incIdx_obeys : Obeys 0 (do updateMem aluInc (← idxAddr x); return t)
    (headed fun d => alone (.inc (.mem (.indexed x d)))) := by
  rintro ⟨regs, nmiLine, nmiPending, intLine, pulse, modified⟩ clean
  subst clean
  simp only [updateMem, idxAddr, holds_bind, holds_pure, holds_getRegs, holds_modifyRegs,
    holds_idle, holds_read8, holds_write8, holds_fetchImmediate, holds_aluInc, incFlags_eq]
  intro d v
  refine Performs.of_parts (rfl : fetchedBytes _ = [d]) rfl rfl rfl ?_
  rintro memory ports ⟨-, rfl, -⟩
  cases x <;> rfl

theorem decIdx_obeys : Obeys 0 (do updateMem aluDec (← idxAddr x); return t)
    (headed fun d => alone (.dec (.mem (.indexed x d)))) := by
  rintro ⟨regs, nmiLine, nmiPending, intLine, pulse, modified⟩ clean
  subst clean
  simp only [updateMem, idxAddr, holds_bind, holds_pure, holds_getRegs, holds_modifyRegs,
    holds_idle, holds_read8, holds_write8, holds_fetchImmediate, holds_aluDec, decFlags_eq]
  intro d v
  refine Performs.of_parts (rfl : fetchedBytes _ = [d]) rfl rfl rfl ?_
  rintro memory ports ⟨-, rfl, -⟩
  cases x <;> rfl

theorem exSpIndex_obeys : Obeys 0 (do exSpIndex x; return t) (alone (.exSp (.index x))) := by
  rintro ⟨regs, nmiLine, nmiPending, intLine, pulse, modified⟩ clean
  subst clean
  simp only [exSpIndex, holds_bind, holds_pure, holds_getRegs, holds_modifyRegs, holds_idle,
    holds_read8, holds_write8]
  intro low high
  refine Performs.of_parts (rfl : fetchedBytes _ = []) rfl rfl rfl ?_
  rintro memory ports ⟨rfl, rfl, -⟩
  cases x <;> rfl

end Index

theorem indexArm_obeys (x : IndexReg) (op : Byte) (t : Int) (cb : op ≠ 0xCB#8) (ed : op ≠ 0xED#8)
    (dd : op ≠ 0xDD#8) (fd : op ≠ 0xFD#8) : Obeys 0 (indexArm x op t) (indexedTable x op) := by
  by_cases listed : op ∈ indexOpcodes
  case neg =>
    obtain ⟨noPlace, unnamed⟩ := unlisted_unnamed op listed
    have found : indexedTable x op = mainTable {} op := by
      rw [indexedTable, noPlace]
      exact mainTable_unnamed _ unnamed
    rw [found, indexArm_unlisted x t listed]
    exact (opcodeArm_obeys op _ cb ed dd fd).dispatched.returns t
  have row := midField_lt op
  have column := regField_lt op
  fun_cases indexArm x op t
  all_goals first
    | exact absurd rfl cb
    | with_reducible first
      | refine (incIdx_obeys x _).listed ?_
      | refine (decIdx_obeys x _).listed ?_
      | refine (exSpIndex_obeys x _).listed ?_
      | refine (ldRegIdx_obeys x _ row (by decide)).listed ?_
      | refine (ldIdxReg_obeys x _ column (by decide)).listed ?_
      rfl
    | with_reducible apply aluIdx_obeys x _ row
      · rfl
      · rfl
    | with_reducible apply aluHalf_obeys _ row
      · rfl
      · rfl
      · exact fun _ _ => Iff.rfl
    | rintro ⟨regs, nmiLine, nmiPending, intLine, pulse, modified⟩ clean
      subst clean
      simp only [addIndex, incIndex, decIndex, ldSpIndex, ldIdxImm, pushIndex, store16, load16, ixh,
        ixl, setIxh, setIxl, mask_high_or, holds_bind, holds_pure, holds_getRegs, holds_modifyRegs,
        holds_idle, holds_read8, holds_write8, holds_pop16, holds_push16, holds_fetchImmediate,
        holds_fetchImmediate16, holds_aluAdd16, holds_aluInc, holds_aluDec, add16Sum_eq,
        add16Flags_eq, incFlags_eq, decFlags_eq]
      first
      | (cases x <;> exact fun _ _ _ => rfl)
      | (cases x <;> exact fun _ _ _ _ => rfl)
      | (cases x <;> exact fun _ _ _ _ _ => rfl)
      | (rintro low high memory ports ⟨rfl, rfl, -⟩; cases x <;> rfl)
      | (rintro low high v v' memory ports ⟨-, -, rfl, rfl, -⟩; cases x <;> rfl)
    | simp only [imp_false] at *
      simp only [indexOpcodes, List.mem_cons, List.not_mem_nil, or_false, *] at listed

end Z80f.Isa
