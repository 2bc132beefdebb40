import Z80f.Encoding.StepCase

/-! # What an instruction leaves alone

The stores of the dispatchers are bounded by the profile of the fetched bytes.
Read the other way round, that bound is a frame: a member outside it is
unchanged, whatever the prefixes and the operands are. -/

set_option autoImplicit false

namespace Z80f

open Interaction Stateful Z80M

/-- The members that the opcode at the head of `code` may store, apart from
the index register of its prefix. -/
def storesOf : List Byte → List Field
  | [] => []
  | op :: rest => if op = 0xED#8 then edGuardedStores (rest.headD 0) else guardedStores op

def edOpcode : List Byte → Option Byte
  | [] => none
  | op :: rest => if op = 0xED#8 then rest.head? else none

def imOpcodes : List Byte := [0x46, 0x4E, 0x66, 0x6E, 0x56, 0x76, 0x5E, 0x7E]

def returnOpcodes : List Byte := [0x45, 0x55, 0x65, 0x75, 0x4D, 0x5D, 0x6D, 0x7D]

theorem storesOf_cases {code : List Byte} {field : Field} (stored : field ∈ storesOf code) :
    (code.head? = some 0x08#8 ∧ field ∈ [Field.aAlt, .fAlt]) ∨
    (code.head? = some 0xD9#8 ∧ field ∈ [Field.bAlt, .cAlt, .dAlt, .eAlt, .hAlt, .lAlt]) ∨
    (edOpcode code = some 0x47#8 ∧ field = .i) ∨
    (((∃ op, code.head? = some op ∧ storesSp op = true) ∨
      edOpcode code ∈ (0x7B#8 :: returnOpcodes).map some) ∧ field = .sp) := by
  cases code with
  | nil => cases stored
  | cons op rest =>
      by_cases ed : op = 0xED#8
      · subst ed
        rw [storesOf, if_pos rfl] at stored
        rw [edOpcode, if_pos rfl]
        cases rest with
        | nil => cases stored
        | cons sub rest =>
            rw [List.headD_cons] at stored
            rw [List.head?_cons, List.head?_cons]
            unfold edGuardedStores at stored
            split at stored <;> simp_all [returnOpcodes]
      · rw [storesOf, if_neg ed] at stored
        rw [List.head?_cons]
        unfold guardedStores at stored
        split at stored
        · exact .inl ⟨rfl, stored⟩
        · exact .inr (.inl ⟨rfl, stored⟩)
        · split at stored
          · rename_i stores
            exact .inr (.inr (.inr ⟨.inl ⟨op, rfl, stores⟩, List.mem_singleton.mp stored⟩))
          · cases stored

theorem storesOf_only {code : List Byte} {field : Field} (stored : field ∈ storesOf code) :
    (field ∈ [Field.aAlt, .fAlt] → code.head? = some 0x08#8) ∧
    (field ∈ [Field.bAlt, .cAlt, .dAlt, .eAlt, .hAlt, .lAlt] → code.head? = some 0xD9#8) ∧
    (field = .i → edOpcode code = some 0x47#8) ∧
    (field = .sp → (∃ op, code.head? = some op ∧ storesSp op = true) ∨
      edOpcode code ∈ (0x7B#8 :: returnOpcodes).map some) ∧
    field ∉ [Field.ix, .iy, .nmiLine, .nmiPending, .intLine] := by
  rcases storesOf_cases stored with ⟨exAf, member⟩ | ⟨exx, member⟩ | ⟨ldI, rfl⟩ | ⟨sp, rfl⟩
  · cases field <;> simp_all
  · cases field <;> simp_all
  · simp [ldI]
  · simpa using sp

theorem codeProfile_stores {x : Option IndexReg} {code : List Byte} {field : Field}
    (stored : field ∈ (codeProfile x code).stores) :
    field ∈ storesOf code ∨ ∃ y, x = some y ∧ field = indexField y := by
  cases code with
  | nil => cases stored
  | cons op rest =>
      by_cases ed : op = 0xED#8
      · rw [storesOf, if_pos ed]
        cases x <;> simp only [codeProfile, indexedRest, plainRest, if_pos ed] at stored <;>
          exact .inl stored
      · rw [storesOf, if_neg ed]
        cases x with
        | none =>
            simp only [codeProfile, plainRest, if_neg ed] at stored
            exact .inl stored
        | some y =>
            simp only [codeProfile, indexedRest, if_neg ed] at stored
            rcases List.mem_cons.mp stored with index | other
            · exact .inr ⟨y, rfl, index⟩
            · exact .inl other

theorem instructionProfile_stores {bytes : List Byte} {field : Field}
    (stored : field ∈ (instructionProfile bytes).stores) :
    field ∈ storesOf (codeOf bytes) ∨ ∃ y, lastPrefix bytes = some y ∧ field = indexField y := by
  obtain ⟨length, opcodes, same⟩ := instructionProfile_code bytes
  rw [same] at stored
  exact codeProfile_stores stored

theorem codeProfile_storesF {x : Option IndexReg} {code : List Byte}
    (stored : (codeProfile x code).storesF = true) :
    code.head? = some 0x08#8 ∨ code.head? = some 0xF1#8 := by
  cases code with
  | nil => cases stored
  | cons op rest =>
      have listed : (op == 0x08#8 || op == 0xF1#8) = true := by
        by_cases ed : op = 0xED#8
        · cases x <;> simp only [codeProfile, indexedRest, plainRest, if_pos ed] at stored <;>
            cases stored
        · cases x <;> simp only [codeProfile, indexedRest, plainRest, if_neg ed] at stored <;>
            exact stored
      simpa using listed

section Frame
variable {bytes : List Byte} {s : Signature} {cpu next : Cpu} {path : Path}

theorem Meets.sameField (meets : Meets (instructionProfile bytes) s cpu next path) {field : Field}
    (isGuarded : field ∈ guarded) (other : field ∉ storesOf (codeOf bytes))
    (index : ∀ y, lastPrefix bytes = some y → field ≠ indexField y) : SameField cpu next field := by
  refine meets.signed.same field fun touched => ?_
  rcases instructionProfile_stores (meets.stores field touched isGuarded) with stored | stored
  · exact other stored
  · obtain ⟨y, last, same⟩ := stored
    exact index y last same

theorem Meets.sameFlags (meets : Meets (instructionProfile bytes) s cpu next path)
    (unflagged : next.flagsModified = false) (exAf : (codeOf bytes).head? ≠ some 0x08#8)
    (popAf : (codeOf bytes).head? ≠ some 0xF1#8) : next.regs.flags = cpu.regs.flags := by
  have same : SameField cpu next .flags := by
    refine meets.signed.same .flags fun touched => ?_
    rcases meets.storesF touched with flagged | stored
    · rw [meets.signed.flagged, flagged, Bool.or_true] at unflagged
      cases unflagged
    · obtain ⟨length, opcodes, agree⟩ := instructionProfile_code bytes
      rw [agree] at stored
      rcases codeProfile_storesF stored with exchanged | popped
      · exact exAf exchanged
      · exact popAf popped
  exact same

theorem controlOf_frame (code : List Byte) (control : Control) :
    let after := controlOf code control
    (edOpcode code ∉ imOpcodes.map some → after.im = control.im) ∧
    (code.head? ≠ some 0x76#8 → after.halted = control.halted) ∧
    (code.head? ≠ some 0xF3#8 → code.head? ≠ some 0xFB#8 → after.iff2 = control.iff2 ∧
      (edOpcode code ∉ returnOpcodes.map some → after.iff1 = control.iff1)) := by
  cases code with
  | nil => exact ⟨fun _ => rfl, fun _ => rfl, fun _ _ => ⟨rfl, fun _ => rfl⟩⟩
  | cons op rest =>
      by_cases ed : op = 0xED#8
      · subst ed
        rw [controlOf, if_pos rfl, edOpcode, if_pos rfl]
        cases rest with
        | nil => exact ⟨fun _ => rfl, fun _ => rfl, fun _ _ => ⟨rfl, fun _ => rfl⟩⟩
        | cons sub rest =>
            rw [List.headD_cons, List.head?_cons]
            unfold edControlAfter
            split <;> simp [imOpcodes, returnOpcodes]
      · rw [controlOf, if_neg ed, List.head?_cons]
        unfold controlAfter
        split <;> simp

end Frame

/-- What an instruction may change is read off its last index prefix and its
opcode; everything else is as before the step. -/
theorem step_frame {Host : Type} (bus : Bus Host) (fuel : Nat) (s : Machine Host)
    (stepped : Stepped Host) (t : Int) (returns : step bus fuel s = some stepped)
    (isInstruction : stepped.kind = .instruction t) :
    let before := s.z80
    let after := stepped.machine.z80
    let bytes := fetchedBytes (stepped.calls.map Exchange.answered)
    let op := (codeOf bytes).head?
    let ed := edOpcode (codeOf bytes)
    (lastPrefix bytes ≠ some .ix → after.regs.ix = before.regs.ix) ∧
    (lastPrefix bytes ≠ some .iy → after.regs.iy = before.regs.iy) ∧
    (op ≠ some 0x08#8 →
      after.regs.aAlt = before.regs.aAlt ∧ after.regs.fAlt = before.regs.fAlt) ∧
    (op ≠ some 0xD9#8 →
      after.regs.bAlt = before.regs.bAlt ∧ after.regs.cAlt = before.regs.cAlt ∧
      after.regs.dAlt = before.regs.dAlt ∧ after.regs.eAlt = before.regs.eAlt ∧
      after.regs.hAlt = before.regs.hAlt ∧ after.regs.lAlt = before.regs.lAlt) ∧
    (ed ≠ some 0x47#8 → after.regs.i = before.regs.i) ∧
    (ed ∉ imOpcodes.map some → after.regs.im = before.regs.im) ∧
    (op ≠ some 0xF3#8 → op ≠ some 0xFB#8 → after.regs.iff2 = before.regs.iff2 ∧
      (ed ∉ returnOpcodes.map some → after.regs.iff1 = before.regs.iff1)) ∧
    (op ≠ some 0x76#8 → after.regs.halted = before.regs.halted) ∧
    (after.nmiLine = before.nmiLine ∧ after.nmiPending = before.nmiPending ∧
      after.intLine = before.intLine ∧ after.baseCycleCounter = before.baseCycleCounter) ∧
    ((∀ byte, op = some byte → storesSp byte = false) →
      ed ∉ (0x7B#8 :: returnOpcodes).map some → after.regs.sp = before.regs.sp) ∧
    (after.regs.flags ≠ before.regs.flags →
      after.flagsModified = true ∨ op = some 0x08#8 ∨ op = some 0xF1#8) := by
  intro before after bytes op ed
  have case := step_case returns
  rw [isInstruction] at case
  obtain ⟨settled, signature, last, -, meets⟩ := case.executed
  have same (field : Field) (framed : field ∈ guarded ∧ field ≠ .intPulsePending)
      (other : field ∉ storesOf (codeOf bytes))
      (index : ∀ y, lastPrefix bytes = some y → field ≠ indexField y) :
      SameField before.toCpu after.toCpu field := by
    have kept := meets.sameField framed.1 other index
    rw [last]
    cases field <;> first | exact kept | exact absurd framed (by decide)
  have plain (field : Field) (framed : field ∈ guarded ∧ field ≠ .intPulsePending)
      (noIndex : field ≠ .ix ∧ field ≠ .iy) (other : field ∉ storesOf (codeOf bytes)) :
      SameField before.toCpu after.toCpu field := by
    refine same field framed other fun y _ index => ?_
    cases y with
    | ix => exact noIndex.1 index
    | iy => exact noIndex.2 index
  have control : settled.regs.control =
      controlOf (codeOf bytes) s.z80.toCpu.shadowLeft.regs.control := by
    rw [meets.control, instructionProfile_control]
    rfl
  obtain ⟨im, halted, iff⟩ := controlOf_frame (codeOf bytes) s.z80.toCpu.shadowLeft.regs.control
  rw [← control] at im halted iff
  refine ⟨fun notIx => ?_, fun notIy => ?_, fun notAf => ?_, fun notExx => ?_, fun notI => ?_,
    fun notIm => ?_, fun notDi notEi => ?_, fun notHalt => ?_, ?_, fun notSp notEdSp => ?_,
    fun changed => ?_⟩
  · refine same .ix (by decide) (fun stored => ?_) fun y selected index => ?_
    · exact (storesOf_only stored).2.2.2.2 (by decide)
    · cases y with
      | ix => exact notIx selected
      | iy => cases index
  · refine same .iy (by decide) (fun stored => ?_) fun y selected index => ?_
    · exact (storesOf_only stored).2.2.2.2 (by decide)
    · cases y with
      | ix => cases index
      | iy => exact notIy selected
  · have kept (field : Field) (framed : field ∈ guarded ∧ field ≠ .intPulsePending)
        (noIndex : field ≠ .ix ∧ field ≠ .iy) (member : field ∈ [Field.aAlt, .fAlt]) :=
      plain field framed noIndex fun stored => notAf ((storesOf_only stored).1 member)
    exact ⟨kept .aAlt (by decide) (by decide) (by decide),
      kept .fAlt (by decide) (by decide) (by decide)⟩
  · have kept (field : Field) (framed : field ∈ guarded ∧ field ≠ .intPulsePending)
        (noIndex : field ≠ .ix ∧ field ≠ .iy)
        (member : field ∈ [Field.bAlt, .cAlt, .dAlt, .eAlt, .hAlt, .lAlt]) :=
      plain field framed noIndex fun stored => notExx ((storesOf_only stored).2.1 member)
    exact ⟨kept .bAlt (by decide) (by decide) (by decide),
      kept .cAlt (by decide) (by decide) (by decide),
      kept .dAlt (by decide) (by decide) (by decide),
      kept .eAlt (by decide) (by decide) (by decide),
      kept .hAlt (by decide) (by decide) (by decide),
      kept .lAlt (by decide) (by decide) (by decide)⟩
  · exact plain .i (by decide) (by decide) fun stored => notI ((storesOf_only stored).2.2.1 rfl)
  · rw [last]
    exact im notIm
  · rw [last]
    exact iff notDi notEi
  · rw [last]
    exact halted notHalt
  · have kept (field : Field) (framed : field ∈ guarded ∧ field ≠ .intPulsePending)
        (noIndex : field ≠ .ix ∧ field ≠ .iy)
        (member : field ∈ [Field.ix, .iy, .nmiLine, .nmiPending, .intLine]) :=
      plain field framed noIndex fun stored => (storesOf_only stored).2.2.2.2 member
    exact ⟨kept .nmiLine (by decide) (by decide) (by decide),
      kept .nmiPending (by decide) (by decide) (by decide),
      kept .intLine (by decide) (by decide) (by decide), step_base returns⟩
  · refine plain .sp (by decide) (by decide) fun stored => ?_
    rcases (storesOf_only stored).2.2.2.1 rfl with ⟨byte, isOp, stores⟩ | edSp
    · exact Bool.noConfusion (stores.symm.trans (notSp byte isOp))
    · exact notEdSp edSp
  · by_contra other
    simp only [not_or, Bool.not_eq_true] at other
    obtain ⟨unflagged, notAf, notPop⟩ := other
    have settledFlag : settled.flagsModified = false := by
      rw [← unflagged, last]
      rfl
    refine changed ?_
    rw [last]
    exact meets.sameFlags settledFlag notAf notPop

theorem step_frame_incIx :
    ∃ stepped, step flatRam.toBus 0
        { z80 := { regs := { iy := 5 } }, host := programAt 0 [0xDD, 0x23] 0 } = some stepped ∧
      stepped.machine.z80.regs.ix = 1 ∧ stepped.machine.z80.regs.iy = 5 := by
  obtain ⟨-, iy, -⟩ := step_frame flatRam.toBus 0
    { z80 := { regs := { iy := 5 } }, host := programAt 0 [0xDD, 0x23] 0 } _ 10 rfl rfl
  exact ⟨_, rfl, rfl, iy (by decide)⟩

end Z80f
