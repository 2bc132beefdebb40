import Z80f.Encoding.Opening

/-! # The marker of a flag computation

`write_flags` sets `flags_modified_`.  Which instructions call it is a table
over their bytes; the dispatchers are compared with it, one pass as for the
profiles. -/

set_option autoImplicit false

namespace Z80f

open Interaction Stateful Z80M Flags

/-- INC and DEC of a byte, the operations of A and F alone, ADD HL, the eight
operations of the ALU. -/
def computesFlags (op : Byte) : Bool :=
  op &&& 0xC6#8 == 0x04#8 || op &&& 0xC7#8 == 0x07#8 || op &&& 0xCF#8 == 0x09#8 ||
    op &&& 0xC0#8 == 0x80#8 || op &&& 0xC7#8 == 0xC6#8

/-- After CB: shifts and BIT. -/
def cbComputesFlags (op : Byte) : Bool := op &&& 0x80#8 == 0#8

/-- After ED: IN, ADC and SBC HL, NEG, `LD A,I`, `LD A,R`, RRD, RLD and the blocks. -/
def edComputesFlags (op : Byte) : Bool :=
  op &&& 0xC7#8 == 0x40#8 || op &&& 0xC7#8 == 0x42#8 || op &&& 0xC7#8 == 0x44#8 ||
    op == 0x57#8 || op == 0x5F#8 || op == 0x67#8 || op == 0x6F#8 || op &&& 0xE4#8 == 0xA0#8

/-- The bytes from the opcode on; behind an index prefix CB has its own opcode
after the displacement. -/
def codeComputesFlags (indexed : Bool) : List Byte → Bool
  | [] => false
  | op :: rest =>
      if op = 0xCB#8 then cbComputesFlags (rest.getD (if indexed then 1 else 0) 0)
      else if op = 0xED#8 then edComputesFlags (rest.getD 0 0)
      else computesFlags op

def instructionComputesFlags (bytes : List Byte) : Bool :=
  codeComputesFlags (lastPrefix bytes).isSome (codeOf bytes)

def Marks {α : Type} (computes : Bool) (m : Z80M α) : Prop :=
  ∀ cpu, m.Holds (fun _ next _ => next.flagsModified = (cpu.flagsModified || computes)) cpu

section Arms
variable {computes : Bool} {s : Signature} {t : Int}

theorem Marks.of_signature {m : Z80M Int}
    (after : After signature 0 m fun _ core next _ =>
      next.flagsModified = (core.flagsModified || computes)) : Marks computes m :=
  after.holds

theorem Marks.of_eq {other : Bool} {m : Z80M Int} (marks : Marks other m)
    (same : computes = other) : Marks computes m := by
  rw [same]
  exact marks

theorem marks_return (flagged : s.flagged = computes) :
    After signature s (pure t) fun _ core next _ =>
      next.flagsModified = (core.flagsModified || computes) := by
  apply After.pure
  intro core mid path signed
  rw [← flagged]
  exact signed.flagged

variable (cond : Byte → Bool) (delta : Int) (repeats : Bool)

theorem jrArm_marks : Marks false (jrArm cond) := by
  intro cpu
  by_cases taken : cond cpu.regs.flags = true <;> simp [jrArm, taken]

theorem retArm_marks : Marks false (retArm cond) := by
  intro cpu
  by_cases taken : cond cpu.regs.flags = true <;> simp [retArm, jp, taken]

theorem callArm_marks : Marks false (callArm cond) := by
  intro cpu
  by_cases taken : cond cpu.regs.flags = true <;> simp [callArm, callCond, taken]

theorem djnz_marks : Marks false djnz := by
  intro cpu
  simp [djnz]

theorem jpArm_marks (taken : Registers → Bool) :
    Marks false (do jpCond (taken (← getRegs)); return t) := by
  intro cpu
  by_cases jump : taken cpu.regs = true <;> simp [jpCond, jump]

theorem blockLd_marks : Marks true (blockLd delta repeats) := by
  intro cpu
  rw [holds_blockLd]
  intro v
  simp

theorem blockCp_marks : Marks true (blockCp delta repeats) := by
  intro cpu
  rw [holds_blockCp]
  intro v
  simp

theorem blockIn_marks : Marks true (blockIn delta repeats) := by
  intro cpu
  rw [holds_blockIn]
  intro v
  simp

theorem blockOut_marks : Marks true (blockOut delta repeats) := by
  intro cpu
  rw [holds_blockOut]
  intro v
  simp

theorem inC_marks (field : Nat) : Marks true (do inC field; return t) := by
  apply Marks.of_signature
  by_cases none : field = 6
  · simp only [inC, none, ne_eq, not_true_eq_false, if_false, bind_assoc]
    repeat refine After.bind fun _ => ?_
    exact marks_return rfl
  · simp only [inC, none, ne_eq, not_false_eq_true, if_true, bind_assoc]
    repeat refine After.bind fun _ => ?_
    exact marks_return rfl

theorem ldArm_marks (op : Byte) : Marks false (do ldArm op; return t) := by
  apply Marks.of_signature
  by_cases src : regField op = 6 <;> by_cases dst : midField op = 6
  all_goals
    simp only [ldArm, src, dst, if_true, if_false, bind_assoc, pure_bind]
    repeat refine After.bind fun _ => ?_
    exact marks_return rfl

theorem aluArm_marks (op : Byte) : Marks true (do aluArm op; return t) := by
  apply Marks.of_signature
  by_cases src : regField op = 6
  all_goals
    simp only [aluArm, src, if_true, if_false, bind_assoc, pure_bind]
    repeat refine After.bind fun _ => ?_
    exact marks_return rfl

end Arms

/-! ## The dispatchers -/

theorem edFlags_listed : ∀ op : Byte, edComputesFlags op = true → op ∈ edOpcodes := by decide

theorem edArm_marks (op : Byte) : Marks (edComputesFlags op) (edArm op) := by
  by_cases listed : op ∈ edOpcodes
  case neg =>
    have unmarked : edComputesFlags op = false := by
      rw [Bool.eq_false_iff]
      exact fun marked => listed (edFlags_listed op marked)
    rw [unmarked, edArm_unlisted listed]
    exact Marks.of_signature (marks_return rfl)
  fun_cases edArm op
  all_goals
    first
    | with_reducible apply (inC_marks _).of_eq
      rfl
    | with_reducible apply (blockLd_marks _ _).of_eq
      rfl
    | with_reducible apply (blockCp_marks _ _).of_eq
      rfl
    | with_reducible apply (blockIn_marks _ _).of_eq
      rfl
    | with_reducible apply (blockOut_marks _ _).of_eq
      rfl
    | apply Marks.of_signature
      repeat refine After.bind fun _ => ?_
      exact marks_return rfl
    | simp only [imp_false] at *
      simp only [edOpcodes, List.mem_cons, List.not_mem_nil, or_false, *] at listed

/-- The bytes behind `op` decide after CB and ED. -/
abbrev MarksCode (indexed : Bool) (op : Byte) (m : Z80M Int) : Prop :=
  ∀ cpu, m.Holds (fun _ next path => next.flagsModified =
    (cpu.flagsModified || codeComputesFlags indexed (op :: fetchedBytes path))) cpu

theorem dispatchEd_marks (indexed : Bool) : MarksCode indexed 0xED dispatchEd := by
  intro cpu
  simp only [dispatchEd, holds_bind, holds_fetchOpcode]
  intro op
  apply (edArm_marks op _).mono
  intro _ next path marked
  exact marked

theorem cbMarks : ∀ op : Byte,
    cbComputesFlags op = decide (kindField op = 0 ∨ kindField op = 1) := by
  decide

theorem dispatchCb_marks : MarksCode false 0xCB dispatchCb := by
  intro cpu
  simp only [dispatchCb, holds_bind, holds_fetchOpcode]
  intro op
  have code (rest : List Byte) : codeComputesFlags false (0xCB :: op :: rest) =
      decide (kindField op = 0 ∨ kindField op = 1) := cbMarks op
  simp only [List.cons_append, List.nil_append, fetchedBytes_cycle, fetchedBytes_fetch, code]
  refine (Marks.of_signature ?_ : Marks _ _) cpu.opcodeFetched
  by_cases reg : regField op = 6 <;> by_cases shift : kindField op = 0 <;>
    by_cases bit : kindField op = 1 <;> by_cases res : kindField op = 2
  all_goals
    simp only [reg, shift, bit, res, storeCb, if_true, if_false, pure_bind]
    repeat refine After.bind fun _ => ?_
    exact marks_return rfl

theorem dispatchIndexCb_marks (x : IndexReg) : MarksCode true 0xCB (dispatchIndexCb x) := by
  intro cpu
  rw [dispatchIndexCb, holds_bind, holds_fetchImmediate]
  intro d
  rw [holds_bind, holds_fetchImmediate]
  intro op
  have code (rest : List Byte) : codeComputesFlags true (0xCB :: d :: op :: rest) =
      decide (kindField op = 0 ∨ kindField op = 1) := cbMarks op
  simp only [List.cons_append, List.nil_append, fetchedBytes_cycle, fetchedBytes_fetch, code]
  refine (Marks.of_signature ?_ : Marks _ _)
    { cpu with regs := { cpu.regs with pc := cpu.regs.pc + 1 + 1 } }
  by_cases reg : regField op = 6 <;> by_cases shift : kindField op = 0 <;>
    by_cases bit : kindField op = 1 <;> by_cases res : kindField op = 2
  all_goals
    simp only [reg, shift, bit, res, storeIndexCb, ne_eq, not_true_eq_false, not_false_eq_true,
      if_true, if_false, bind_assoc, pure_bind]
    repeat refine After.bind fun _ => ?_
    exact marks_return rfl

theorem MarksCode.of_marks {computes indexed : Bool} {op : Byte} {m : Z80M Int}
    (marks : Marks computes m)
    (code : ∀ rest, codeComputesFlags indexed (op :: rest) = computes) :
    MarksCode indexed op m := by
  intro cpu
  simp only [code]
  exact marks cpu

theorem MarksCode.of_eq {indexed : Bool} {op : Byte} {m : Z80M Int}
    (computes : op ≠ 0xCB#8 ∧ op ≠ 0xED#8 ∧ Marks (computesFlags op) m) :
    MarksCode indexed op m := by
  apply MarksCode.of_marks computes.2.2
  intro rest
  rw [codeComputesFlags, if_neg computes.1, if_neg computes.2.1]

theorem highArm_marks (op : Byte) (t : Int) (block : kindField op = 3) (dd : op ≠ 0xDD#8)
    (fd : op ≠ 0xFD#8) : MarksCode false op (highArm op t) := by
  by_cases cb : op = 0xCB#8
  · subst cb
    exact dispatchCb_marks
  by_cases ed : op = 0xED#8
  · subst ed
    exact dispatchEd_marks false
  fun_cases highArm op t
  all_goals
    first
    | exact absurd rfl cb
    | exact absurd rfl ed
    | apply MarksCode.of_eq
      refine ⟨by decide, by decide, ?_⟩
      first
      | with_reducible apply (retArm_marks _).of_eq
        rfl
      | with_reducible apply (callArm_marks _).of_eq
        rfl
      | with_reducible apply (jpArm_marks _).of_eq
        rfl
      | apply Marks.of_signature
        repeat refine After.bind fun _ => ?_
        exact marks_return rfl
    | rw [kindField_eq] at block
      simp only [imp_false] at *
      bv_omega

theorem ldFlags : ∀ op : Byte, kindField op = 1 → op ≠ 0xED#8 ∧ computesFlags op = false := by
  decide

theorem aluFlags : ∀ op : Byte, kindField op = 2 → op ≠ 0xED#8 ∧ computesFlags op = true := by
  decide

theorem opcodeArm_marks (op : Byte) (t : Int) (dd : op ≠ 0xDD#8) (fd : op ≠ 0xFD#8) :
    MarksCode false op (opcodeArm op t) := by
  obtain ⟨loads, notHalt⟩ | alu | high | rest := opcode_blocks op
  · obtain ⟨-, cb, -, -⟩ := block_operands op (.inl loads)
    obtain ⟨ed, flags⟩ := ldFlags op loads
    rw [opcodeArm_ld t loads notHalt]
    exact MarksCode.of_eq ⟨cb, ed, (ldArm_marks op).of_eq flags⟩
  · obtain ⟨-, cb, -, -⟩ := block_operands op (.inr alu)
    obtain ⟨ed, flags⟩ := aluFlags op alu
    rw [opcodeArm_alu t alu]
    exact MarksCode.of_eq ⟨cb, ed, (aluArm_marks op).of_eq flags⟩
  · rw [opcodeArm_high t high]
    exact highArm_marks op t high dd fd
  fun_cases opcodeArm op t
  all_goals
    first
    | apply MarksCode.of_eq
      refine ⟨by decide, by decide, ?_⟩
      first
      | with_reducible apply (jrArm_marks _).of_eq
        rfl
      | with_reducible apply djnz_marks.of_eq
        rfl
      | apply Marks.of_signature
        repeat refine After.bind fun _ => ?_
        exact marks_return rfl
    | simp only [imp_false] at *
      bv_omega

theorem fetchedBytes_idle (address : Word) (count : Nat) :
    fetchedBytes (idleCycles address count) = [] := by
  induction count with
  | zero => rfl
  | succ count ih => exact ih

theorem dispatchOpcode_marks (op : Byte) (single : isIndexPrefix op = false) :
    MarksCode false op (dispatchOpcode op) := by
  simp only [isIndexPrefix, Bool.or_eq_false_iff, beq_eq_false_iff_ne] at single
  intro cpu
  simp only [dispatchOpcode, holds_bind, holds_opcodePrelude]
  apply (opcodeArm_marks op _ single.1 single.2 cpu).mono
  intro _ next path marked
  rw [fetchedBytes_append, fetchedBytes_idle]
  exact marked

theorem codeComputesFlags_indexed {op : Byte} (rest : List Byte) (cb : op ≠ 0xCB#8) :
    codeComputesFlags true (op :: rest) = codeComputesFlags false (op :: rest) := by
  rw [codeComputesFlags, codeComputesFlags, if_neg cb, if_neg cb]

theorem indexArm_marks (x : IndexReg) (op : Byte) (t : Int) (single : isIndexPrefix op = false) :
    MarksCode true op (indexArm x op t) := by
  by_cases listed : op ∈ indexOpcodes
  case neg =>
    rw [indexArm_unlisted x t listed]
    intro cpu
    simp only [holds_bind, holds_pure, List.append_nil]
    apply (dispatchOpcode_marks op single cpu).mono
    intro _ next path marked
    rw [codeComputesFlags_indexed]
    · exact marked
    · rintro rfl
      exact listed (by decide)
  by_cases cb : op = 0xCB#8
  · subst cb
    rw [indexArm_cb]
    intro cpu
    simp only [holds_bind, holds_pure, List.append_nil]
    exact dispatchIndexCb_marks x cpu
  fun_cases indexArm x op t
  all_goals
    first
    | exact absurd rfl cb
    | apply MarksCode.of_eq
      refine ⟨by decide, by decide, ?_⟩
      apply Marks.of_signature
      repeat refine After.bind fun _ => ?_
      exact marks_return rfl
    | simp only [imp_false] at *
      simp only [indexOpcodes, List.mem_cons, List.not_mem_nil, or_false, *] at listed

theorem executeInstruction_marks (fuel : Nat) (cpu : Cpu) :
    (executeInstruction fuel).Holds (fun found next path => ∀ kind, found = some kind →
      ∃ settled : Cpu, next = settled.settleQ ∧ settled.flagsModified =
        (cpu.flagsModified || instructionComputesFlags (fetchedBytes path))) cpu := by
  apply (executeInstruction_instructs
    (fun indexed code mid next => next.flagsModified =
      (mid.flagsModified || codeComputesFlags indexed code))
    dispatchOpcode_marks indexArm_marks fuel cpu).mono
  intro found next path instructs kind eq
  obtain ⟨settled, last, mid, ⟨pc, r, rfl⟩, marked⟩ := instructs kind eq
  exact ⟨settled, last, marked⟩

end Z80f
