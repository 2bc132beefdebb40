import Z80f.Cpu.Arms
import Z80f.Cpu.BlockRules
import Z80f.Encoding.Instruction

/-! # Every dispatcher meets the profiles

One pass over the opcodes.  The code before a `return` carries its signature,
which is compared with the profile of the opcode; the arms with a branch are
executed. -/

set_option autoImplicit false

namespace Z80f

open Interaction Stateful Z80M Flags

/-- A path with signature `s` does what the profile allows. -/
structure Meets (p : Profile) (s : Signature) (core next : Cpu) (path : Path) : Prop where
  signed : Signed s core next path
  inOrder : s.inOrder = true
  bytes : s.fetched = p.bytes
  opcodes : s.opcodes = p.opcodes
  setsR : s.setsR = p.setsR
  stores : ∀ field ∈ s.touched, field ∈ guarded → field ∈ p.stores
  storesF : .flags ∈ s.touched → s.flagged = true ∨ p.storesF = true
  diverts : s.jumps = true → ∀ memory, ReadsFrom memory path →
    p.diverts core.regs.operands memory = true
  control : next.regs.control = p.control core.regs.control
  /-- HALT leaves PC on its opcode. -/
  halts : core.regs.halted = false → next.regs.halted = true →
    s.data = false ∧ next.regs.pc = core.regs.pc + BitVec.ofNat 16 s.fetched - 1

/-- `t` is the cost with the `spent` T-states before. -/
def Met (p : Profile) (spent : Int) (core : Cpu) (t : Int) (next : Cpu) (path : Path) : Prop :=
  ∃ s, Meets p s core next path ∧ s.tStates + spent = t

abbrev Conforms (p : Profile) (spent : Int) (m : Z80M Int) : Prop :=
  ∀ cpu, m.Holds (Met p spent cpu) cpu

theorem Conforms.of_eq {p q : Profile} {spent spent' : Int} {m : Z80M Int}
    (conforms : Conforms q spent' m) (profile : p = q) (before : spent = spent') :
    Conforms p spent m := by
  rw [profile, before]
  exact conforms

theorem Conforms.of_signature {p : Profile} {spent : Int} {m : Z80M Int}
    (after : After signature 0 m fun t core next path => Met p spent core t next path) :
    Conforms p spent m :=
  after.holds

def controlFields : List Field := [.iff1, .iff2, .im, .halted, .eiPending]

/-- The part of `Meets` that can be computed from a signature. -/
def Signature.fits (s : Signature) (p : Profile) : Bool :=
  s.inOrder && s.fetched == p.bytes && s.opcodes == p.opcodes && s.setsR == p.setsR &&
    s.touched.all (fun field => !guarded.contains field || p.stores.contains field) &&
    (!s.touched.contains .flags || s.flagged || p.storesF)

section Fits
variable {s : Signature} {p : Profile} {core next : Cpu} {path : Path}

theorem signed_iff : Signed s core next path ↔
    (Disciplined none path ∧ nominal path = s.tStates) ∧
    ((s.inOrder = true → Consumes core.regs.pc s.fetched path) ∧ (s.data = false → NoData path)) ∧
    ((s.jumps = false → next.regs.pc = core.regs.pc + BitVec.ofNat 16 s.fetched) ∧
      (s.setsR = false → next.regs.r = advanceR s.opcodes core.regs.r)) ∧
    next.flagsModified = (core.flagsModified || s.flagged) ∧
    ∀ field, field ∉ s.touched → SameField core next field :=
  ⟨fun ⟨disciplined, cost, consumes, noData, pc, r, flagged, same⟩ =>
      ⟨⟨disciplined, cost⟩, ⟨consumes, noData⟩, ⟨pc, r⟩, flagged, same⟩,
    fun ⟨⟨disciplined, cost⟩, ⟨consumes, noData⟩, ⟨pc, r⟩, flagged, same⟩ =>
      ⟨disciplined, cost, consumes, noData, pc, r, flagged, same⟩⟩

theorem Meets.of_fits (fits : s.fits p = true) (signed : Signed s core next path)
    (diverts : s.jumps = true → ∀ memory, ReadsFrom memory path →
      p.diverts core.regs.operands memory = true)
    (control : next.regs.control = p.control core.regs.control)
    (halts : .halted ∈ s.touched →
      s.data = false ∧ next.regs.pc = core.regs.pc + BitVec.ofNat 16 s.fetched - 1) :
    Meets p s core next path := by
  simp only [Signature.fits, Bool.and_eq_true, beq_iff_eq, List.all_eq_true, Bool.or_eq_true,
    Bool.not_eq_true'] at fits
  obtain ⟨⟨⟨⟨⟨inOrder, bytes⟩, opcodes⟩, setsR⟩, stores⟩, storesF⟩ := fits
  refine ⟨signed, inOrder, bytes, opcodes, setsR, ?_, ?_, diverts, control, ?_⟩
  · intro field touched isGuarded
    rcases stores field touched with free | allowed
    · simp [isGuarded] at free
    · simpa using allowed
  · intro touched
    rcases storesF with (free | flagged) | storesF
    · simp [touched] at free
    · exact .inl flagged
    · exact .inr storesF
  · intro running halted
    refine halts ?_
    by_contra untouched
    have same : next.regs.halted = core.regs.halted := signed.same .halted untouched
    rw [halted, running] at same
    cases same

theorem Signed.control (signed : Signed s core next path)
    (untouched : controlFields.all (fun field => !s.touched.contains field) = true) :
    next.regs.control = core.regs.control := by
  have same (field : Field) (member : field ∈ controlFields) : SameField core next field := by
    refine signed.same field ?_
    simpa using List.all_eq_true.mp untouched field member
  have iff1 : next.regs.iff1 = core.regs.iff1 := same .iff1 (by decide)
  have iff2 : next.regs.iff2 = core.regs.iff2 := same .iff2 (by decide)
  have im : next.regs.im = core.regs.im := same .im (by decide)
  have halted : next.regs.halted = core.regs.halted := same .halted (by decide)
  have eiPending : next.regs.eiPending = core.regs.eiPending :=
    same .eiPending (by decide)
  simp only [Registers.control, iff1, iff2, im, halted, eiPending]

end Fits

section Return
variable {s : Signature} {p : Profile} {spent t : Int}

theorem conforms_return (fits : s.fits p = true) (cost : s.tStates + spent = t)
    (untouched : controlFields.all (fun field => !s.touched.contains field) = true)
    (control : ∀ c, p.control c = c)
    (straight : s.jumps = false ∨ ∀ r memory, p.diverts r memory = true) :
    After signature s (pure t) fun t core next path => Met p spent core t next path := by
  refine After.pure fun core next path signed => ?_
  have diverts : s.jumps = true → ∀ memory, ReadsFrom memory path →
      p.diverts core.regs.operands memory = true := by
    intro jumps memory _
    rcases straight with never | always
    · rw [never] at jumps
      cases jumps
    · exact always _ _
  have same := (signed.control untouched).trans (control _).symm
  have still : .halted ∉ s.touched := by
    simpa using List.all_eq_true.mp untouched .halted (by decide)
  exact ⟨s, Meets.of_fits fits signed diverts same (absurd · still), cost⟩

theorem conforms_of (s : Signature) {core next : Cpu} {path : Path}
    (fits : (s.fits p && !s.touched.contains .halted) = true)
    (cost : s.tStates + spent = t) (signed : Signed s core next path)
    (diverts : s.jumps = true → ∀ memory, ReadsFrom memory path →
      p.diverts core.regs.operands memory = true)
    (control : next.regs.control = p.control core.regs.control) :
    Met p spent core t next path := by
  rw [Bool.and_eq_true, Bool.not_eq_true'] at fits
  have still : .halted ∉ s.touched := by simpa using fits.2
  exact ⟨s, Meets.of_fits fits.1 signed diverts control (absurd · still), cost⟩

end Return

/-! ## Branches -/

section Branch
variable {spent : Int} (cond : Byte → Bool)

theorem jrArm_conforms : Conforms { bytes := 1, diverts := fun r _ => cond r.flags } 4
    (jrArm cond) := by
  intro cpu
  by_cases taken : cond cpu.regs.flags = true <;> simp [jrArm, taken] <;> intro d
  · exact conforms_of { tStates := 8, fetched := 1, jumps := true, touched := [.wz] } rfl rfl
      (by simp [signed_iff]) (fun _ _ _ => taken) rfl
  · exact conforms_of { tStates := 3, fetched := 1 } rfl rfl (by simp [signed_iff]) (by simp) rfl

theorem retArm_conforms :
    Conforms { bytes := 0, stores := [.sp], diverts := fun r _ => cond r.flags } 5
      (retArm cond) := by
  intro cpu
  by_cases taken : cond cpu.regs.flags = true <;> simp [retArm, jp, taken]
  · intro low high
    exact conforms_of { tStates := 6, data := true, jumps := true, touched := [.sp, .wz] } rfl rfl
      (by simp [signed_iff]) (fun _ _ _ => taken) rfl
  · exact conforms_of {} rfl rfl (by simp [signed_iff]) (by simp) rfl

theorem callArm_conforms :
    Conforms { bytes := 2, stores := [.sp], diverts := fun r _ => cond r.flags } 4
      (callArm cond) := by
  intro cpu
  by_cases taken : cond cpu.regs.flags = true <;> simp [callArm, callCond, taken] <;>
    intro low high
  · exact conforms_of
      { tStates := 13, fetched := 2, data := true, jumps := true, touched := [.wz, .sp] } rfl rfl
      (by simp [signed_iff]) (fun _ _ _ => taken) rfl
  · exact conforms_of { tStates := 6, fetched := 2, touched := [.wz] } rfl rfl
      (by simp [signed_iff, BitVec.add_assoc]) (by simp) rfl

theorem djnz_conforms : Conforms { bytes := 1, diverts := fun r _ => r.b - 1 != 0 } 4 djnz := by
  intro cpu
  simp [djnz]
  refine fun d => ⟨fun last => ?_, fun more => ?_⟩
  · exact conforms_of { tStates := 4, fetched := 1, touched := [.b] } rfl rfl
      (by simp [signed_iff]) (by simp) rfl
  · exact conforms_of { tStates := 9, fetched := 1, jumps := true, touched := [.b, .wz] } rfl rfl
      (by simp [signed_iff]) (by simp [Registers.operands, more]) rfl

theorem jpArm_conforms {p : Profile} {taken : Registers → Bool} {t : Int}
    (profile : p = { bytes := 2, diverts := p.diverts })
    (agree : ∀ r memory, p.diverts r.operands memory = taken r) (base : 6 + spent = t) :
    Conforms p spent (do jpCond (taken (← getRegs)); return t) := by
  intro cpu
  rw [profile]
  by_cases jump : taken cpu.regs = true <;> simp [jpCond, jump] <;> intro low high
  · exact conforms_of { tStates := 6, fetched := 2, jumps := true, touched := [.wz] } rfl base
      (by simp [signed_iff]) (fun _ _ _ => (agree _ _).trans jump) rfl
  · exact conforms_of { tStates := 6, fetched := 2, touched := [.wz] } rfl base
      (by simp [signed_iff, BitVec.add_assoc]) (by simp) rfl

end Branch

section Block
variable (delta : Int) (repeats : Bool)

theorem blockLd_conforms :
    Conforms { bytes := 0, diverts := fun r _ => repeats && word r.b r.c - 1 != 0 } 8
      (blockLd delta repeats) := by
  intro cpu
  rw [holds_blockLd]
  refine fun v => ⟨fun _ => ?_, fun again => ?_⟩
  · exact conforms_of
      { tStates := 8, data := true, flagged := true, touched := [.h, .l, .d, .e, .b, .c, .flags] }
      rfl rfl (by simp [signed_iff, Registers.blockLdDone]) (by simp) rfl
  · exact conforms_of
      { tStates := 13, data := true, jumps := true, flagged := true,
        touched := [.h, .l, .d, .e, .b, .c, .flags, .wz] }
      rfl rfl (by simp [signed_iff, Registers.blockLdDone, Registers.rewound])
      (fun _ _ _ => again) rfl

theorem ne_of_subDiff {a v : Byte} (differ : (lo (subDiff a v 0) != 0) = true) :
    (a != v) = true := by
  rw [bne_iff_ne] at differ ⊢
  rintro rfl
  exact differ (by simp [subDiff, lo])

theorem blockCp_conforms :
    Conforms
      { bytes := 0
        diverts := fun r memory =>
          repeats && word r.b r.c - 1 != 0 && r.a != memory (word r.h r.l) } 8
      (blockCp delta repeats) := by
  intro cpu
  rw [holds_blockCp]
  refine fun v => ⟨fun _ => ?_, fun again => ?_⟩
  · exact conforms_of
      { tStates := 8, data := true, flagged := true, touched := [.h, .l, .b, .c, .flags, .wz] }
      rfl rfl (by simp [signed_iff, Registers.blockCpDone]) (by simp) rfl
  · refine conforms_of
      { tStates := 13, data := true, jumps := true, flagged := true,
        touched := [.h, .l, .b, .c, .flags, .wz] }
      rfl rfl (by simp [signed_iff, Registers.blockCpDone, Registers.rewound]) ?_ rfl
    intro _ memory reads
    simp only [Bool.and_eq_true] at again ⊢
    simp only [List.cons_append, List.nil_append, readsFrom_cycle, readsFrom_read] at reads
    exact ⟨again.1, reads.1 ▸ ne_of_subDiff again.2⟩

theorem blockIn_conforms :
    Conforms { bytes := 0, diverts := fun r _ => repeats && r.b - 1 != 0 } 8
      (blockIn delta repeats) := by
  intro cpu
  rw [holds_blockIn]
  refine fun v => ⟨fun _ => ?_, fun again => ?_⟩
  · exact conforms_of
      { tStates := 8, data := true, flagged := true, touched := [.h, .l, .b, .wz, .flags] }
      rfl rfl (by simp [signed_iff, Registers.blockInDone]) (by simp) rfl
  · exact conforms_of
      { tStates := 13, data := true, jumps := true, flagged := true,
        touched := [.h, .l, .b, .wz, .flags] }
      rfl rfl (by simp [signed_iff, Registers.blockInDone, Registers.rewoundPc])
      (fun _ _ _ => again) rfl

theorem blockOut_conforms :
    Conforms { bytes := 0, diverts := fun r _ => repeats && r.b - 1 != 0 } 8
      (blockOut delta repeats) := by
  intro cpu
  rw [holds_blockOut]
  refine fun v => ⟨fun _ => ?_, fun again => ?_⟩
  · exact conforms_of
      { tStates := 8, data := true, flagged := true, touched := [.h, .l, .b, .wz, .flags] }
      rfl rfl (by simp [signed_iff, Registers.blockOutDone]) (by simp) rfl
  · exact conforms_of
      { tStates := 13, data := true, jumps := true, flagged := true,
        touched := [.h, .l, .b, .wz, .flags] }
      rfl rfl (by simp [signed_iff, Registers.blockOutDone, Registers.rewoundPc])
      (fun _ _ _ => again) rfl

end Block

section Field

/-- No field of an opcode names a guarded member, a flip-flop or F. -/
theorem reg8Field_free (field : Nat) : (reg8Field field).all (fun f =>
    !guarded.contains f && !controlFields.contains f && f != .flags) = true := by
  unfold reg8Field
  split <;> rfl

theorem add_touched (s : Signature) (fields : List Field) :
    s + { touched := fields } = { s with touched := s.touched ++ fields } := by
  change Signature.mk _ _ _ _ _ _ _ _ _ = _
  simp

/-- The end of an arm whose last store is into a field of the opcode. -/
theorem conforms_store {s : Signature} {p : Profile} {spent t : Int} (field : Nat)
    (fits : s.fits p = true) (cost : s.tStates + spent = t)
    (untouched : controlFields.all (fun field => !s.touched.contains field) = true)
    (control : ∀ c, p.control c = c) (straight : s.jumps = false) :
    After signature (s + { touched := reg8Field field }) (pure t) fun t core next path =>
      Met p spent core t next path := by
  have free {f : Field} (member : f ∈ reg8Field field) :
      f ∉ guarded ∧ f ∉ controlFields ∧ f ≠ .flags := by
    simpa [and_assoc] using List.all_eq_true.mp (reg8Field_free field) f member
  rw [add_touched]
  refine conforms_return ?_ cost ?_ control (.inl straight)
  · have stores : (reg8Field field).all
        (fun f => !guarded.contains f || p.stores.contains f) = true := by
      rw [List.all_eq_true]
      intro f member
      simp [(free member).1]
    have noF : (reg8Field field).contains .flags = false := by
      rw [List.contains_eq_mem, decide_eq_false_iff_not]
      exact fun member => (free member).2.2 rfl
    simpa only [Signature.fits, List.all_append, stores, Bool.and_true, List.contains_append, noF,
      Bool.or_false] using fits
  · rw [List.all_eq_true] at untouched ⊢
    intro f member
    have apart : (reg8Field field).contains f = false := by
      rw [List.contains_eq_mem, decide_eq_false_iff_not]
      exact fun stored => (free stored).2.1 member
    simpa only [List.contains_append, apart, Bool.or_false] using untouched f member

instance (op v : Byte) : HasEffect signature (shiftOp (midField op) v)
    { flagged := true, touched := [.flags] } := shiftOp_signature v (midField op) (midField_lt op)

instance (op v : Byte) : HasEffect signature (aluOp (midField op) v)
    { flagged := true, touched := [.a, .flags] } := aluOp_signature v (midField op) (midField_lt op)

theorem inC_conforms (field : Nat) : Conforms { bytes := 0 } 8 (do inC field; return 12) := by
  apply Conforms.of_signature
  by_cases none : field = 6
  · simp only [inC, none, ne_eq, not_true_eq_false, if_false, bind_assoc]
    repeat refine After.bind fun _ => ?_
    exact conforms_return rfl rfl rfl (fun _ => rfl) (.inl rfl)
  · simp only [inC, none, ne_eq, not_false_eq_true, if_true, bind_assoc]
    repeat refine After.bind fun _ => ?_
    exact conforms_store _ rfl rfl rfl (fun _ => rfl) rfl

theorem Conforms.plain {p : Profile} {spent : Int} {m : Z80M Int} (bytes : p.bytes = 0)
    (opcodes : p.opcodes = 0) (setsR : p.setsR = false) (control : ∀ c, p.control c = c)
    (conforms : Conforms { bytes := 0 } spent m) : Conforms p spent m := by
  intro cpu
  refine (conforms cpu).mono ?_
  rintro t next path ⟨s, meets, cost⟩
  refine ⟨s, ?_, cost⟩
  exact
    { meets with
      bytes := meets.bytes.trans bytes.symm
      opcodes := meets.opcodes.trans opcodes.symm
      setsR := meets.setsR.trans setsR.symm
      stores := fun field touched isGuarded =>
        absurd (meets.stores field touched isGuarded) (List.not_mem_nil)
      storesF := fun touched => .inl ((meets.storesF touched).resolve_right Bool.false_ne_true)
      diverts := fun jumps memory reads =>
        absurd (meets.diverts jumps memory reads) Bool.false_ne_true
      control := meets.control.trans (control _).symm }

/-- What a byte of the blocks 0x40–0xBF pays for `(HL)` as an operand. -/
def operandCost (field : Nat) : Int := if field = 6 then 3 else 0

theorem ldCost : ∀ op : Byte, kindField op = 1 → op ≠ 0x76#8 →
    baseTFor op =
      operandCost (regField op) + operandCost (midField op) + (4 + preludeLength op) := by
  decide

theorem aluCost : ∀ op : Byte, kindField op = 2 →
    baseTFor op = operandCost (regField op) + (4 + preludeLength op) := by
  decide

theorem controlAfter_other {op : Byte} (halt : op ≠ 0x76#8) (di : op ≠ 0xF3#8) (ei : op ≠ 0xFB#8)
    (c : Control) : controlAfter op c = c := by
  unfold controlAfter
  split <;> first | contradiction | rfl

theorem ldArm_conforms (op : Byte) (block : kindField op = 1) (halt : op ≠ 0x76#8) :
    Conforms { bytes := 0 } (4 + preludeLength op) (do ldArm op; return baseTFor op) := by
  rw [ldCost op block halt]
  apply Conforms.of_signature
  by_cases src : regField op = 6 <;> by_cases dst : midField op = 6
  all_goals
    simp only [ldArm, src, dst, if_true, if_false, bind_assoc, pure_bind]
    repeat refine After.bind fun _ => ?_
  · exact conforms_return rfl (by simp [operandCost]) rfl (fun _ => rfl) (.inl rfl)
  · exact conforms_store _ rfl (by simp [operandCost, dst]) rfl (fun _ => rfl) rfl
  · exact conforms_return rfl (by simp [operandCost, src]) rfl (fun _ => rfl) (.inl rfl)
  · exact conforms_store _ rfl (by simp [operandCost, src, dst]) rfl (fun _ => rfl) rfl

theorem aluArm_conforms (op : Byte) (block : kindField op = 2) :
    Conforms { bytes := 0 } (4 + preludeLength op) (do aluArm op; return baseTFor op) := by
  rw [aluCost op block]
  apply Conforms.of_signature
  by_cases src : regField op = 6
  all_goals
    simp only [aluArm, src, if_true, if_false, bind_assoc, pure_bind]
    repeat refine After.bind fun _ => ?_
  · exact conforms_return rfl (by simp [operandCost]) rfl (fun _ => rfl) (.inl rfl)
  · exact conforms_return rfl (by simp [operandCost, src]) rfl (fun _ => rfl) (.inl rfl)

theorem dispatchCb_conforms : Conforms { bytes := 1, opcodes := 1 } 4 dispatchCb := by
  apply Conforms.of_signature
  unfold dispatchCb
  refine After.bind fun op => ?_
  by_cases reg : regField op = 6 <;> by_cases shift : kindField op = 0 <;>
    by_cases bit : kindField op = 1 <;> by_cases res : kindField op = 2
  all_goals
    simp only [reg, shift, bit, res, storeCb, if_true, if_false, pure_bind]
    repeat refine After.bind fun _ => ?_
    first
    | exact conforms_return rfl rfl rfl (fun _ => rfl) (.inl rfl)
    | exact conforms_store _ rfl rfl rfl (fun _ => rfl) rfl

theorem dispatchIndexCb_conforms (x : IndexReg) : Conforms { bytes := 2 } 4 (dispatchIndexCb x) := by
  apply Conforms.of_signature
  unfold dispatchIndexCb
  refine After.bind fun d => After.bind fun op => ?_
  by_cases reg : regField op = 6 <;> by_cases shift : kindField op = 0 <;>
    by_cases bit : kindField op = 1 <;> by_cases res : kindField op = 2
  all_goals
    simp only [reg, shift, bit, res, storeIndexCb, ne_eq, not_true_eq_false, not_false_eq_true,
      if_true, if_false, bind_assoc, pure_bind]
    repeat refine After.bind fun _ => ?_
    first
    | exact conforms_return rfl rfl rfl (fun _ => rfl) (.inl rfl)
    | exact conforms_store _ rfl rfl rfl (fun _ => rfl) rfl

end Field

section Flops
variable {spent t : Int} (base : spent = t)
include base

theorem halt_conforms :
    Conforms { bytes := 0, diverts := fun _ _ => true, control := controlAfter 0x76 } spent
      (do halt; return t) := by
  intro cpu
  simp only [halt, holds_bind, holds_modifyRegs, holds_pure, List.nil_append]
  refine ⟨{ jumps := true, touched := [.halted] }, ?_, by simpa using base⟩
  exact Meets.of_fits rfl (by simp [signed_iff]) (fun _ _ _ => rfl) rfl fun _ => ⟨rfl, by simp⟩

theorem di_conforms : Conforms { bytes := 0, control := controlAfter 0xF3 } spent
    (do di; return t) := by
  intro cpu
  simp only [di, holds_bind, holds_modifyRegs, holds_pure, List.nil_append]
  exact conforms_of { touched := [.iff1, .iff2] } rfl (by simpa using base)
    (by simp [signed_iff]) (by simp) rfl

theorem ei_conforms : Conforms { bytes := 0, control := controlAfter 0xFB } spent
    (do ei; return t) := by
  intro cpu
  simp only [ei, holds_bind, holds_modifyRegs, holds_pure, List.nil_append]
  exact conforms_of { touched := [.iff1, .iff2, .eiPending] } rfl (by simpa using base)
    (by simp [signed_iff]) (by simp) rfl

theorem setIm_conforms (mode : Byte) :
    Conforms { bytes := 0, control := fun c => { c with im := mode } } spent
      (do setIm mode; return t) := by
  intro cpu
  simp only [setIm, holds_bind, holds_modifyRegs, holds_pure, List.nil_append]
  exact conforms_of { touched := [.im] } rfl (by simpa using base) (by simp [signed_iff])
    (by simp) rfl

end Flops

theorem retn_conforms :
    Conforms { bytes := 0, stores := [.sp], diverts := fun _ _ => true, control := edControlAfter 0x45 }
      8 (do retn; return 14) := by
  intro cpu
  simp [retn, jp]
  intro low high
  exact conforms_of { tStates := 6, data := true, jumps := true, touched := [.sp, .wz, .iff1] } rfl
    rfl (by simp [signed_iff]) (fun _ _ _ => rfl) rfl

/-! ## The dispatchers -/

theorem word_listed : ∀ op : Byte, op &&& 0xC7#8 = 0x43#8 → op ∈ edOpcodes := by decide

theorem control_unlisted {op : Byte} (unlisted : op ∉ edOpcodes) (c : Control) :
    edControlAfter op c = c := by
  unfold edControlAfter
  split <;> first | rfl | exact absurd (by decide) unlisted

theorem nop_conforms {t : Int} : Conforms { bytes := 0 } t (return t) :=
  .of_signature (conforms_return rfl (zero_add t) rfl (fun _ => rfl) (.inl rfl))

theorem edArm_conforms (op : Byte) : Conforms (edProfile op) 8 (edArm op) := by
  by_cases listed : op ∈ edOpcodes
  case neg =>
    have noWord : op &&& 0xC7#8 ≠ 0x43#8 := fun word => listed (word_listed op word)
    have noR : op ≠ 0x4F#8 := by
      rintro rfl
      exact listed (by decide)
    rw [edArm_unlisted listed]
    exact Conforms.plain (if_neg noWord) rfl (beq_false_of_ne noR) (control_unlisted listed)
      nop_conforms
  fun_cases edArm op
  all_goals
    first
    | with_reducible refine (inC_conforms _).of_eq ?_ rfl
      rfl
    | with_reducible refine (blockLd_conforms _ _).of_eq ?_ rfl
      rfl
    | with_reducible refine (blockCp_conforms _ _).of_eq ?_ rfl
      rfl
    | with_reducible refine (blockIn_conforms _ _).of_eq ?_ rfl
      rfl
    | with_reducible refine (blockOut_conforms _ _).of_eq ?_ rfl
      rfl
    | with_reducible refine (setIm_conforms rfl _).of_eq ?_ rfl
      rfl
    | with_reducible refine retn_conforms.of_eq ?_ rfl
      rfl
    | apply Conforms.of_signature
      repeat refine After.bind fun _ => ?_
      exact conforms_return rfl rfl rfl (fun _ => rfl) (.inl rfl)
    | simp only [imp_false] at *
      simp only [edOpcodes, List.mem_cons, List.not_mem_nil, or_false, *] at listed

theorem highArm_conforms (op : Byte) (block : kindField op = 3) (ed : op ≠ 0xED#8)
    (dd : op ≠ 0xDD#8) (fd : op ≠ 0xFD#8) :
    Conforms (opcodeProfile op) (4 + preludeLength op) (highArm op (baseTFor op)) := by
  fun_cases highArm op (baseTFor op)
  all_goals
    first
    | exact absurd rfl ed
    | with_reducible refine (retArm_conforms _).of_eq ?_ ?_
      · rfl
      · rfl
    | with_reducible refine (callArm_conforms _).of_eq ?_ ?_
      · rfl
      · rfl
    | with_reducible refine jpArm_conforms ?_ ?_ ?_
      · rfl
      · exact fun _ _ => rfl
      · rfl
    | with_reducible refine dispatchCb_conforms.of_eq ?_ ?_
      · rfl
      · rfl
    | with_reducible refine (di_conforms ?_).of_eq ?_ rfl
      · rfl
      · rfl
    | with_reducible refine (ei_conforms ?_).of_eq ?_ rfl
      · rfl
      · rfl
    | apply Conforms.of_signature
      repeat refine After.bind fun _ => ?_
      first
      | exact conforms_return rfl rfl rfl (fun _ => rfl) (.inl rfl)
      | exact conforms_return rfl rfl rfl (fun _ => rfl) (.inr fun _ _ => rfl)
    | rw [kindField_eq] at block
      simp only [imp_false] at *
      bv_omega

theorem block_operands : ∀ op : Byte, kindField op = 1 ∨ kindField op = 2 →
    operandBytes op = 0 ∧ op ≠ 0xCB#8 ∧ op ≠ 0xF3#8 ∧ op ≠ 0xFB#8 := by
  decide

theorem opcodeArm_conforms (op : Byte) (ed : op ≠ 0xED#8) (dd : op ≠ 0xDD#8) (fd : op ≠ 0xFD#8) :
    Conforms (opcodeProfile op) (4 + preludeLength op) (opcodeArm op (baseTFor op)) := by
  obtain ⟨loads, notHalt⟩ | alu | high | rest := opcode_blocks op
  · obtain ⟨bytes, cb, di, ei⟩ := block_operands op (.inl loads)
    rw [opcodeArm_ld _ loads notHalt]
    exact (ldArm_conforms op loads notHalt).plain bytes (if_neg cb) rfl
      (controlAfter_other notHalt di ei)
  · obtain ⟨bytes, cb, di, ei⟩ := block_operands op (.inr alu)
    have notHalt : op ≠ 0x76#8 := by
      rintro rfl
      exact absurd alu (by decide)
    rw [opcodeArm_alu _ alu]
    exact (aluArm_conforms op alu).plain bytes (if_neg cb) rfl (controlAfter_other notHalt di ei)
  · rw [opcodeArm_high _ high]
    exact highArm_conforms op high ed dd fd
  fun_cases opcodeArm op (baseTFor op)
  all_goals
    first
    | with_reducible refine (jrArm_conforms _).of_eq ?_ ?_
      · rfl
      · rfl
    | with_reducible refine (halt_conforms ?_).of_eq ?_ rfl
      · rfl
      · rfl
    | with_reducible refine djnz_conforms.of_eq ?_ ?_
      · rfl
      · rfl
    | apply Conforms.of_signature
      repeat refine After.bind fun _ => ?_
      first
      | exact conforms_return rfl rfl rfl (fun _ => rfl) (.inl rfl)
      | exact conforms_return rfl rfl rfl (fun _ => rfl) (.inr fun _ _ => rfl)
    | simp only [imp_false] at *
      bv_omega

end Z80f
