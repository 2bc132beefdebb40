import Z80f.Prefix.Indexed

/-! # DDCB and FDCB

`cbForm` is what both CB decoders do with the operand between its read and its
write.  The two differ in where the operand is, in how the opcode byte is
fetched, and in the copy of the result that the indexed one keeps. -/

set_option autoImplicit false

namespace Z80f

open Interaction Stateful Z80M Flags

/-- The result to be stored; BIT has none. -/
def cbForm (op v flagSource : Byte) : Z80M (Option Byte) := do
  if kindField op = 0 then
    return some (← shiftOp (midField op) v)
  else if kindField op = 1 then
    cbBit (midField op) v flagSource
    return none
  else if kindField op = 2 then
    return some (cbRes (midField op) v)
  else
    return some (cbSet (midField op) v)

/-- F and the result depend on the operand, on F and on the source of X and Y. -/
structure CbEffect (op v flagSource flags : Byte) (modified : Bool) (flags' : Byte)
    (modified' : Bool) (written : Option Byte) : Prop where
  bit : written = none ↔ kindField op = 1
  effect : ∀ cpu : Cpu, cpu.regs.flags = flags → cpu.flagsModified = modified →
    (cbForm op v flagSource).Holds (fun found final tail =>
      found = written ∧ tail = [] ∧
        final = { cpu with regs := { cpu.regs with flags := flags' }, flagsModified := modified' })
      cpu

theorem cbForm_effect (op v flagSource flags : Byte) (modified : Bool) :
    ∃ flags' modified' written, CbEffect op v flagSource flags modified flags' modified' written := by
  by_cases shift : kindField op = 0
  · refine ⟨orIf ((shiftOutcome (midField op) flags v).2 != 0) cf
      (sz53pOf (shiftOutcome (midField op) flags v).1), true,
      some (shiftOutcome (midField op) flags v).1, by simp [shift], ?_⟩
    intro cpu same _
    simp [cbForm, shift, same]
  by_cases bit : kindField op = 1
  · refine ⟨bitFlags flags (midField op) v flagSource, true, none, by simp [bit], ?_⟩
    intro cpu same _
    simp [cbForm, bit, same]
  by_cases res : kindField op = 2
  · refine ⟨flags, modified, some (cbRes (midField op) v), by simp [bit], ?_⟩
    rintro cpu rfl rfl
    simp [cbForm, res]
  · refine ⟨flags, modified, some (cbSet (midField op) v), by simp [bit], ?_⟩
    rintro cpu rfl rfl
    simp [cbForm, shift, bit, res]

/-- `op` with 6, that is `(HL)`, as its register field. -/
def cbMemory (op : Byte) : Byte := (op &&& 0xF8#8) ||| 6#8

theorem cbMemory_fields : ∀ op : Byte, regField (cbMemory op) = 6 ∧
    kindField (cbMemory op) = kindField op ∧ midField (cbMemory op) = midField op := by
  decide

theorem cbForm_choice (op v flagSource : Byte) (bitCost : Int) (store : Byte → Z80M Int) :
    (do match ← cbForm op v flagSource with
        | none => return bitCost
        | some value => store value) =
      if kindField op = 0 then do store (← shiftOp (midField op) v)
      else if kindField op = 1 then do cbBit (midField op) v flagSource; return bitCost
      else if kindField op = 2 then store (cbRes (midField op) v)
      else store (cbSet (midField op) v) := by
  by_cases shift : kindField op = 0
  · simp only [cbForm, if_pos shift, bind_assoc, pure_bind]
  by_cases bit : kindField op = 1
  · simp only [cbForm, if_neg shift, if_pos bit, bind_assoc, pure_bind]
  by_cases res : kindField op = 2
  · simp only [cbForm, if_neg shift, if_neg bit, if_pos res, pure_bind]
  · simp only [cbForm, if_neg shift, if_neg bit, if_neg res, pure_bind]

theorem dispatchIndexCb_form (x : IndexReg) : dispatchIndexCb x = (do
    let d := displacement (← fetchImmediate)
    let op ← fetchImmediate
    let a := (← getRegs).index x + d
    modifyRegs fun r => { r with wz := a }
    idle ((← getRegs).pc - 1) 2
    let v ← read8 a
    idle a 1
    match ← cbForm op v (hi a) with
    | none => return 16
    | some value =>
        storeIndexCb a (regField op) value
        return 19) := by
  simp only [cbForm_choice]
  rfl

theorem dispatchCb_form : ∃ body : Byte → Z80M Int, dispatchCb = fetchOpcode >>= body ∧
    ∀ op, regField op = 6 → body op = (do
      let v ← read8 (← getRegs).hl
      idle (← getRegs).hl 1
      let r ← getRegs
      match ← cbForm op v (hi r.wz) with
      | none => return 12
      | some value => storeCb 6 value) := by
  refine ⟨_, rfl, fun op memory => ?_⟩
  simp only [cbForm_choice, memory, if_true, pure_bind]
  by_cases shift : kindField op = 0
  · simp only [if_pos shift]
    rfl
  by_cases bit : kindField op = 1
  · simp only [if_neg shift, if_pos bit]
  · simp only [if_neg shift, if_neg bit]
    rfl

def cbCopy (reg : Nat) (written : Option Byte) (r : Registers) : Registers :=
  match written with
  | none => r
  | some value => if reg = 6 then r else r.setReg8 reg value

theorem cbCopy_kept (reg : Nat) (written : Option Byte) (r : Registers) :
    (cbCopy reg written r).flags = r.flags ∧ (cbCopy reg written r).r = r.r ∧
      (cbCopy reg written r).wz = r.wz := by
  unfold cbCopy Registers.setReg8
  repeat' split
  all_goals exact ⟨rfl, rfl, rfl⟩

section Rules
variable {op d flags' : Byte} {modified' : Bool} {written : Option Byte} (cpu : Cpu)
  {memory : Memory}

theorem indexCb_placed (x : IndexReg) (t : Int) (pc wz : Word) (r q : Byte)
    (code : bytesAt memory pc 2 = [d, op])
    (effect : CbEffect op (memory (cpu.regs.index x + displacement d))
      (hi (cpu.regs.index x + displacement d)) cpu.regs.flags cpu.flagsModified flags' modified'
      written) :
    let a := cpu.regs.index x + displacement d
    let base := (cpu.placed (pc + 1 + 1) a r q).regs
    (indexArm x 0xCB#8 t).Holds (fun cost final tail => ReadsFrom memory tail →
      cost = t + (if kindField op = 1 then 16 else 19) ∧
      nominal tail = (if kindField op = 1 then 12 else 15) ∧
      writesOf tail = written.toList.map (a, ·) ∧
      final = { cpu with
        regs := cbCopy (regField op) written { base with flags := flags' }
        flagsModified := modified' }) (cpu.placed pc wz r q) := by
  intro a base
  rw [bytesAt_succ, bytesAt_succ] at code
  obtain ⟨displaced, code⟩ := List.cons.inj code
  obtain ⟨operation, -⟩ := List.cons.inj code
  have arm : indexArm x 0xCB#8 t = (do let cost ← dispatchIndexCb x; return t + cost) := rfl
  rw [arm, dispatchIndexCb_form]
  simp only [holds_bind, holds_fetchImmediate_placed, holds_getRegs, holds_setWz_placed,
    holds_idle, holds_read8, placed_index, placed_pc, List.nil_append]
  intro first second v
  by_cases same : first = d ∧ second = op ∧ v = memory a
  · obtain ⟨rfl, rfl, rfl⟩ := same
    refine (effect.effect (cpu.placed (pc + 1 + 1) a r q) rfl rfl).mono ?_
    rintro found final tail ⟨rfl, rfl, rfl⟩
    cases found with
    | none =>
        have bit := effect.bit.mp rfl
        simp only [holds_pure]
        intro _
        refine ⟨by rw [if_pos bit], ?_, ?_, rfl⟩
        · simp [bit, tStatesOf]
        · simp
    | some result =>
        have store : ¬ kindField second = 1 := fun bit => Option.some_ne_none _ (effect.bit.mpr bit)
        simp only [storeIndexCb, holds_bind, holds_write8, holds_ite, holds_pure, holds_modifyRegs]
        refine ⟨fun other _ => ?_, fun memory _ => ?_⟩
        · refine ⟨by rw [if_neg store], ?_, ?_, ?_⟩
          · simp [store, tStatesOf]
          · simp [a]
          · simp only [cbCopy, if_neg other]
            rfl
        · refine ⟨by rw [if_neg store], ?_, ?_, ?_⟩
          · simp [store, tStatesOf]
          · simp [a]
          · have none : regField second = 6 := not_not.mp memory
            simp only [cbCopy, if_pos none]
            rfl
  · apply Holds.intro
    intro found middle path
    apply Holds.intro
    intro cost final tail
    rw [holds_pure]
    intro reads
    simp only [List.cons_append, List.nil_append, List.append_assoc, readsFrom_cycle,
      readsFrom_read, readsFrom_append, readsFrom_idle, memoryAfter_idle, true_and] at reads
    obtain ⟨firstRead, secondRead, read, -⟩ := reads
    have wrong : first = d ∧ second = op ∧ v = memory a :=
      ⟨firstRead.trans displaced, secondRead.trans operation, by
        rw [read, firstRead.trans displaced]⟩
    exact absurd wrong same

theorem cbForm_memory (op v flagSource : Byte) :
    cbForm (cbMemory op) v flagSource = cbForm op v flagSource := by
  obtain ⟨-, kind, mid⟩ := cbMemory_fields op
  rw [cbForm, cbForm, kind, mid]

theorem dispatchCb_memory {a : Word} (code : memory cpu.regs.pc = cbMemory op)
    (hl : cpu.regs.hl = a) (wz : cpu.regs.wz = a)
    (effect : CbEffect op (memory a) (hi a) cpu.regs.flags cpu.flagsModified flags' modified'
      written) :
    (dispatchOpcode 0xCB#8).Holds (fun cost final tail => ReadsFrom memory tail →
      cost = (if kindField op = 1 then 12 else 15) ∧
      nominal tail = (if kindField op = 1 then 8 else 11) ∧
      writesOf tail = written.toList.map (a, ·) ∧
      final = { cpu with
        regs := { cpu.opcodeFetched.regs with flags := flags' }, flagsModified := modified' })
      cpu := by
  obtain ⟨body, isBody, onMemory⟩ := dispatchCb_form
  have arm : dispatchOpcode 0xCB#8 = dispatchCb := rfl
  obtain ⟨field, -, -⟩ := cbMemory_fields op
  rw [arm, isBody]
  simp only [holds_bind, holds_fetchOpcode]
  intro first
  by_cases same : first = cbMemory op
  · subst same
    rw [onMemory _ field]
    change Holds _ _ cpu.opcodeFetched
    have hl' : cpu.opcodeFetched.regs.hl = a := hl
    have source : hi cpu.opcodeFetched.regs.wz = hi a := congrArg hi wz
    simp only [holds_bind, holds_getRegs, holds_read8, holds_idle, hl', source, cbForm_memory]
    intro v
    by_cases value : v = memory a
    · subst value
      refine (effect.effect cpu.opcodeFetched rfl rfl).mono ?_
      rintro found final tail ⟨rfl, rfl, rfl⟩
      cases found with
      | none =>
          have bit := effect.bit.mp rfl
          simp only [holds_pure]
          intro _
          refine ⟨by rw [if_pos bit], ?_, ?_, rfl⟩
          · simp [bit, tStatesOf]
          · simp
      | some result =>
          have store : ¬ kindField op = 1 := fun bit => Option.some_ne_none _ (effect.bit.mpr bit)
          simp only [storeCb, if_true, holds_bind, holds_getRegs, holds_write8, holds_pure]
          intro _
          refine ⟨by rw [if_neg store], ?_, ?_, rfl⟩
          · simp [store, tStatesOf]
          · have written : Registers.hl { cpu.opcodeFetched.regs with flags := flags' } = a := hl
            simp [written]
    · apply Holds.intro
      intro found middle path
      apply Holds.intro
      intro cost final tail reads
      simp only [List.cons_append, List.nil_append, readsFrom_cycle, readsFrom_read] at reads
      exact absurd reads.2.1 value
  · apply Holds.intro
    intro cost final tail reads
    exact absurd (reads.1.trans code) same

end Rules

/-- With `a` the index register plus the signed displacement byte: DDCB and FDCB
at `a` against CB on `(HL)` with HL = WZ = `a`, on any two RAM hosts where that
cell holds the same byte. -/
theorem indexed_cb {Host Host' : Type} (bus : RamBus Host) (bus' : RamBus Host')
    (fuel fuel' : Nat) (p d op : Byte) (s : Machine Host) (s' : Machine Host')
    (isPrefix : isIndexPrefix p = true)
    (code : bytesAt (bus.memory s.host) s.z80.regs.pc 4 = [p, 0xCB, d, op])
    (code' : bytesAt (bus'.memory s'.host) s'.z80.regs.pc 2 = [0xCB, cbMemory op])
    (same : s'.z80.toCpu = { s.z80.toCpu with regs := { s.z80.regs with
      h := hi (s.z80.regs.index (prefixReg p) + BitVec.ofInt 16 d.toInt)
      l := lo (s.z80.regs.index (prefixReg p) + BitVec.ofInt 16 d.toInt)
      wz := s.z80.regs.index (prefixReg p) + BitVec.ofInt 16 d.toInt
      pc := s'.z80.regs.pc } })
    (cell : bus'.memory s'.host (s.z80.regs.index (prefixReg p) + BitVec.ofInt 16 d.toInt) =
      bus.memory s.host (s.z80.regs.index (prefixReg p) + BitVec.ofInt 16 d.toInt)) :
    let r := s.z80.regs
    let a := r.index (prefixReg p) + BitVec.ofInt 16 d.toInt
    let before := bus.memory s.host
    let before' := bus'.memory s'.host
    let ran := exec bus.toBus (fetchAndDispatch fuel) s
    let ran' := exec bus'.toBus (fetchAndDispatch fuel') s'
    let path := ran.calls.map Exchange.answered
    let path' := ran'.calls.map Exchange.answered
    let next := ran.machine.z80.regs
    let next' := ran'.machine.z80.regs
    (∃ cost, ran'.value = some cost ∧ ran.value = some (cost + 8) ∧
      nominal path' = cost ∧ nominal path = cost + 8) ∧
    next.flags = next'.flags ∧ next.r = next'.r ∧ next.wz = a ∧
    ∃ written : Option Byte, (written = none ↔ kindField op = 1) ∧
      writesOf path = written.toList.map (a, ·) ∧ writesOf path' = writesOf path ∧
      bus.memory ran.machine.host = written.elim before (Function.update before a) ∧
      bus'.memory ran'.machine.host = written.elim before' (Function.update before' a) ∧
      next = cbCopy (regField op) written { r with
        flags := next.flags, r := next.r, pc := r.pc + 4, wz := a, q := 0 } := by
  rw [← displacement_eq] at same cell ⊢
  intro r a before before' ran ran' path path' next next'
  obtain ⟨flags', modified', written, effect⟩ :=
    cbForm_effect op (before a) (hi a) r.flags s.z80.flagsModified
  rw [bytesAt_succ, bytesAt_succ] at code code'
  obtain ⟨first, code⟩ := List.cons.inj code
  obtain ⟨second, code⟩ := List.cons.inj code
  obtain ⟨first', code'⟩ := List.cons.inj code'
  obtain ⟨second', -⟩ := List.cons.inj code'
  obtain ⟨t, tail, value, calls, ⟨cost, charge, writes, final⟩, memory⟩ :=
    bus.exec_indexed fuel _ isPrefix rfl first second
      (indexCb_placed s.z80.toCpu (prefixReg p) 4 _ _ _ _ code effect)
  have flags : s'.z80.regs.flags = r.flags := by rw [same]
  have modified : s'.z80.flagsModified = s.z80.flagsModified := by rw [same]
  have hl : s'.z80.regs.hl = a := by
    rw [same]
    exact word_hi_lo a
  have wz : s'.z80.regs.wz = a := by rw [same]
  have refresh : s'.z80.regs.r = r.r := by rw [same]
  have effect' : CbEffect op (before' a) (hi a) s'.z80.toCpu.opcodeFetched.regs.flags
      s'.z80.toCpu.opcodeFetched.flagsModified flags' modified' written := by
    change CbEffect op (before' a) (hi a) s'.z80.regs.flags s'.z80.flagsModified _ _ _
    rw [flags, modified, show before' a = before a from cell]
    exact effect
  obtain ⟨t', tail', value', calls', ⟨cost', charge', writes', final'⟩, memory'⟩ :=
    bus'.exec_unprefixed fuel' _ rfl first'
      (dispatchCb_memory s'.z80.toCpu.opcodeFetched second' hl wz effect')
  have nextRegs : next = cbCopy (regField op) written { r with
      flags := flags', r := advanceR 2 r.r, pc := r.pc + 1 + 1 + 1 + 1, wz := a, q := 0 } :=
    congrArg (fun cpu : Cpu => cpu.regs) final
  obtain ⟨nextFlags, nextR, nextWz⟩ := cbCopy_kept (regField op) written { r with
    flags := flags', r := advanceR 2 r.r, pc := r.pc + 1 + 1 + 1 + 1, wz := a, q := 0 }
  rw [← nextRegs] at nextFlags nextR nextWz
  have nextFlags' : next'.flags = flags' := congrArg (fun cpu : Cpu => cpu.regs.flags) final'
  have nextR' : next'.r = advanceR 2 s'.z80.regs.r :=
    congrArg (fun cpu : Cpu => cpu.regs.r) final'
  rw [refresh] at nextR'
  have behind : r.pc + 1 + 1 + 1 + 1 = r.pc + 4 := by bv_omega
  have wholePath : path = fetchPath r.pc [p, 0xCB] ++ tail := calls
  have wholePath' : path' = fetchPath s'.z80.regs.pc [0xCB] ++ tail' := calls'
  refine ⟨⟨t', value', ?_, ?_, ?_⟩, nextFlags.trans nextFlags'.symm, nextR.trans nextR'.symm,
    nextWz, written, effect.bit, ?_, ?_, ?_, ?_, ?_⟩
  · rw [value, cost, cost']
    split <;> rfl
  · rw [wholePath', nominal_append, charge', cost', nominal_fetchPath]
    split <;> rfl
  · rw [wholePath, nominal_append, charge, cost', nominal_fetchPath]
    split <;> rfl
  · rw [wholePath, writesOf_append, writes]
    rfl
  · rw [wholePath', wholePath, writesOf_append, writesOf_append, writes', writes]
    rfl
  · rw [memory, memoryAfter_written before writes]
  · rw [memory', memoryAfter_written before' writes']
  · rw [nextFlags, nextR, nextRegs, behind]

/-- RL (IX-5),B with IX at 2 and C set: the cell is 0xFFFD. -/
theorem indexed_cb_rlBelow : ∃ ran ran',
    exec flatRam.toBus (fetchAndDispatch 0)
      { z80 := { regs := { ix := 2, flags := 1, pc := 0x4000 } }
        host := Function.update (programAt 0x4000 [0xDD, 0xCB, 0xFB, 0x10] 7) 0xFFFD 0x85 } = ran ∧
    exec flatRam.toBus (fetchAndDispatch 0)
      { z80 := { regs :=
          { ix := 2, flags := 1, pc := 0x4000, h := 0xFF, l := 0xFD, wz := 0xFFFD } }
        host := Function.update (programAt 0x4000 [0xCB, 0x16] 7) 0xFFFD 0x85 } = ran' ∧
    ran.machine.z80.regs.wz = 0xFFFD ∧
    ran.machine.z80.regs.flags = ran'.machine.z80.regs.flags ∧
    flatRam.memory ran.machine.host 0xFFFD = flatRam.memory ran'.machine.host 0xFFFD ∧
    flatRam.memory ran.machine.host 2 = 7 := by
  obtain ⟨-, flags, -, wz, written, -, -, -, memory, memory', -⟩ :=
    indexed_cb flatRam flatRam 0 0 0xDD 0xFB 0x10
      { z80 := { regs := { ix := 2, flags := 1, pc := 0x4000 } }
        host := Function.update (programAt 0x4000 [0xDD, 0xCB, 0xFB, 0x10] 7) 0xFFFD 0x85 }
      { z80 := { regs :=
          { ix := 2, flags := 1, pc := 0x4000, h := 0xFF, l := 0xFD, wz := 0xFFFD } }
        host := Function.update (programAt 0x4000 [0xCB, 0x16] 7) 0xFFFD 0x85 }
      rfl rfl rfl rfl rfl
  refine ⟨_, _, rfl, rfl, wz.trans (by decide), flags, ?_, ?_⟩
  · rw [memory, memory']
    cases written <;> rfl
  · rw [memory]
    cases written <;> rfl

end Z80f
