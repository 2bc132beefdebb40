import Z80f.Cpu.StepRules
import Z80f.Interaction.Effect

/-! # Signatures

The signature of a function says what it costs, which program bytes it
consumes and which members it can change.  The helpers below carry one
signature each; the signature of an opcode is the sum along its `do` block. -/

set_option autoImplicit false

namespace Z80f

open Interaction Stateful Z80M Flags

def tStatesOf : Request → Int
  | .machineCycle _ tStates => tStates
  | _ => 0

def nominal (path : Path) : Int := (path.map fun answered => tStatesOf answered.1).sum

@[simp] theorem nominal_nil : nominal [] = 0 := rfl

@[simp] theorem nominal_cons (answered : Sigma Answer) (path : Path) :
    nominal (answered :: path) = tStatesOf answered.1 + nominal path := rfl

@[simp] theorem nominal_append (path tail : Path) :
    nominal (path ++ tail) = nominal path + nominal tail := by
  simp [nominal]

@[simp] theorem nominal_replicate (count : Nat) (answered : Sigma Answer) :
    nominal (List.replicate count answered) = count * tStatesOf answered.1 := by
  simp [nominal]

@[simp] theorem tStatesOf_cycle (a : Word) (t : Int) : tStatesOf (.machineCycle a t) = t := rfl
@[simp] theorem tStatesOf_read (kind : ReadKind) (a : Word) :
    tStatesOf (.readMemory kind a) = 0 := rfl
@[simp] theorem tStatesOf_write (a : Word) (v : Byte) : tStatesOf (.writeMemory a v) = 0 := rfl
@[simp] theorem tStatesOf_readIo (a : Word) : tStatesOf (.readIo a) = 0 := rfl
@[simp] theorem tStatesOf_writeIo (a : Word) (v : Byte) : tStatesOf (.writeIo a v) = 0 := rfl
@[simp] theorem tStatesOf_acknowledge : tStatesOf .acknowledgeInterrupt = 0 := rfl

def accessAddress : Request → Option Word
  | .machineCycle _ _ => none
  | .readMemory _ address => some address
  | .writeMemory address _ => some address
  | .readIo port => some port
  | .writeIo port _ => some port
  | .acknowledgeInterrupt => none

/-- Every access directly follows its own machine cycle.  `opened` is the
address of the machine cycle just begun, until an access uses it. -/
def Disciplined : Option Word → Path → Prop
  | _, [] => True
  | opened, answered :: rest =>
      match answered.1 with
      | .machineCycle address tStates => 0 < tStates ∧ Disciplined (some address) rest
      | .acknowledgeInterrupt => opened.isSome ∧ Disciplined none rest
      | request => accessAddress request = opened ∧ Disciplined none rest

section Discipline
variable (opened : Option Word) (rest : Path) (a : Word) (v : Byte)

@[simp] theorem disciplined_nil : Disciplined opened [] := trivial
@[simp] theorem disciplined_cycle (t : Int) :
    Disciplined opened (cycle a t :: rest) ↔ 0 < t ∧ Disciplined (some a) rest := Iff.rfl
@[simp] theorem disciplined_read (kind : ReadKind) :
    Disciplined opened (readOf kind a v :: rest) ↔ some a = opened ∧ Disciplined none rest := Iff.rfl
@[simp] theorem disciplined_write :
    Disciplined opened (writeOf a v :: rest) ↔ some a = opened ∧ Disciplined none rest := Iff.rfl
@[simp] theorem disciplined_ioRead :
    Disciplined opened (ioReadOf a v :: rest) ↔ some a = opened ∧ Disciplined none rest := Iff.rfl
@[simp] theorem disciplined_ioWrite :
    Disciplined opened (ioWriteOf a v :: rest) ↔ some a = opened ∧ Disciplined none rest := Iff.rfl
@[simp] theorem disciplined_acknowledge :
    Disciplined opened (acknowledgeOf v :: rest) ↔ opened.isSome ∧ Disciplined none rest := Iff.rfl

@[simp] theorem disciplined_idle (count : Nat) :
    Disciplined opened (idleCycles a count ++ rest) ↔
      Disciplined (if count = 0 then opened else some a) rest := by
  induction count generalizing opened with
  | zero => exact Iff.rfl
  | succ count ih =>
      simp only [idleCycles, List.replicate_succ, List.cons_append, disciplined_cycle]
      rw [ih]
      by_cases last : count = 0 <;> simp [last]

@[simp] theorem disciplined_idle_nil (count : Nat) : Disciplined opened (idleCycles a count) := by
  have joined := disciplined_idle opened [] a count
  rw [List.append_nil] at joined
  exact joined.mpr trivial

theorem Disciplined.afterCycle {path : Path} (disciplined : Disciplined none path) :
    Disciplined opened path := by
  cases path with
  | nil => trivial
  | cons answered rest =>
      obtain ⟨request, answer⟩ := answered
      cases request <;> simp_all [Disciplined, accessAddress]

theorem Disciplined.append {opened : Option Word} {path tail : Path}
    (disciplined : Disciplined opened path) (next : Disciplined none tail) :
    Disciplined opened (path ++ tail) := by
  induction path generalizing opened with
  | nil => exact next.afterCycle opened
  | cons answered rest ih =>
      obtain ⟨request, answer⟩ := answered
      cases request <;> exact ⟨disciplined.1, ih disciplined.2⟩

end Discipline

/-- Neither a machine cycle nor a program byte. -/
def isData : Request → Bool
  | .machineCycle _ _ => false
  | .readMemory .fetch _ => false
  | _ => true

def NoData (path : Path) : Prop := ∀ answered ∈ path, isData answered.1 = false

/-- The path reads `count` program bytes from `pc` on, in order, and has no
data access before the last of them. -/
def Consumes : Word → Nat → Path → Prop
  | _, count, [] => count = 0
  | pc, count, answered :: rest =>
      match answered.1 with
      | .machineCycle _ _ => Consumes pc count rest
      | .readMemory .fetch address => 0 < count ∧ address = pc ∧ Consumes (pc + 1) (count - 1) rest
      | _ => count = 0 ∧ Consumes pc 0 rest

section Consumes
variable (pc a : Word) (v : Byte) (count : Nat) (rest : Path)

@[simp] theorem consumes_nil : Consumes pc count [] ↔ count = 0 := Iff.rfl
@[simp] theorem consumes_cycle (t : Int) :
    Consumes pc count (cycle a t :: rest) ↔ Consumes pc count rest := Iff.rfl
@[simp] theorem consumes_fetch : Consumes pc count (readOf .fetch a v :: rest) ↔
    0 < count ∧ a = pc ∧ Consumes (pc + 1) (count - 1) rest := Iff.rfl
@[simp] theorem consumes_read : Consumes pc count (readOf .data a v :: rest) ↔
    count = 0 ∧ Consumes pc 0 rest := Iff.rfl
@[simp] theorem consumes_write : Consumes pc count (writeOf a v :: rest) ↔
    count = 0 ∧ Consumes pc 0 rest := Iff.rfl
@[simp] theorem consumes_ioRead : Consumes pc count (ioReadOf a v :: rest) ↔
    count = 0 ∧ Consumes pc 0 rest := Iff.rfl
@[simp] theorem consumes_ioWrite : Consumes pc count (ioWriteOf a v :: rest) ↔
    count = 0 ∧ Consumes pc 0 rest := Iff.rfl

@[simp] theorem consumes_idle (n : Nat) :
    Consumes pc count (idleCycles a n ++ rest) ↔ Consumes pc count rest := by
  induction n with
  | zero => exact Iff.rfl
  | succ n ih => rw [idleCycles, List.replicate_succ, List.cons_append, consumes_cycle, ih]

@[simp] theorem consumes_idle_nil (n : Nat) :
    Consumes pc count (idleCycles a n) ↔ count = 0 := by
  have joined := consumes_idle pc a count [] n
  rwa [List.append_nil] at joined

@[simp] theorem noData_nil : NoData [] := by simp [NoData]
@[simp] theorem noData_cycle (t : Int) : NoData (cycle a t :: rest) ↔ NoData rest := by
  simp [NoData, isData]
@[simp] theorem noData_fetch : NoData (readOf .fetch a v :: rest) ↔ NoData rest := by
  simp [NoData, isData]
@[simp] theorem noData_idle (n : Nat) : NoData (idleCycles a n ++ rest) ↔ NoData rest := by
  induction n with
  | zero => exact Iff.rfl
  | succ n ih => rw [idleCycles, List.replicate_succ, List.cons_append, noData_cycle, ih]
@[simp] theorem noData_idle_nil (n : Nat) : NoData (idleCycles a n) := by
  have joined := noData_idle a [] n
  rw [List.append_nil] at joined
  exact joined.mpr noData_nil

theorem NoData.append {path tail : Path} (left : NoData path) (right : NoData tail) :
    NoData (path ++ tail) := by
  intro answered member
  exact (List.mem_append.mp member).elim (left answered) (right answered)

theorem Consumes.zero {pc pc' : Word} {path : Path} (consumes : Consumes pc 0 path) :
    Consumes pc' 0 path := by
  induction path with
  | nil => rfl
  | cons answered rest ih =>
      obtain ⟨request, answer⟩ := answered
      cases request with
      | machineCycle address tStates => exact ih consumes
      | readMemory kind address =>
          cases kind with
          | fetch => exact absurd consumes.1 (lt_irrefl 0)
          | data => exact ⟨rfl, ih consumes.2⟩
      | writeMemory | readIo | writeIo | acknowledgeInterrupt => exact ⟨rfl, ih consumes.2⟩

theorem Consumes.appendData {pc pc' : Word} {count : Nat} {path tail : Path}
    (consumes : Consumes pc count path) (data : Consumes pc' 0 tail) :
    Consumes pc count (path ++ tail) := by
  induction path generalizing pc count with
  | nil =>
      rw [consumes_nil] at consumes
      rw [consumes]
      exact data.zero
  | cons answered rest ih =>
      obtain ⟨request, answer⟩ := answered
      cases request with
      | machineCycle address tStates => exact ih consumes
      | readMemory kind address =>
          cases kind with
          | fetch => exact ⟨consumes.1, consumes.2.1, ih consumes.2.2⟩
          | data => exact ⟨consumes.1, ih consumes.2⟩
      | writeMemory | readIo | writeIo | acknowledgeInterrupt =>
          exact ⟨consumes.1, ih consumes.2⟩

theorem Consumes.append {pc : Word} {count count' : Nat} {path tail : Path}
    (consumes : Consumes pc count path) (noData : NoData path)
    (next : Consumes (pc + BitVec.ofNat 16 count) count' tail) :
    Consumes pc (count + count') (path ++ tail) := by
  induction path generalizing pc count with
  | nil =>
      rw [consumes_nil] at consumes
      subst consumes
      simpa using next
  | cons answered rest ih =>
      obtain ⟨request, answer⟩ := answered
      have here := noData ⟨request, answer⟩ List.mem_cons_self
      have later : NoData rest := fun answered member =>
        noData answered (List.mem_cons_of_mem _ member)
      cases request with
      | machineCycle address tStates => exact ih consumes later next
      | readMemory kind address =>
          cases kind with
          | fetch =>
              obtain ⟨positive, same, consumes⟩ := consumes
              obtain ⟨fewer, rfl⟩ : ∃ fewer, count = fewer + 1 := ⟨count - 1, by omega⟩
              refine ⟨by omega, same, ?_⟩
              rw [next_address] at next
              have counted : fewer + 1 + count' - 1 = fewer + count' := by omega
              rw [counted]
              exact ih consumes later next
          | data => cases here
      | writeMemory | readIo | writeIo | acknowledgeInterrupt => cases here

end Consumes

/-! ## Signatures as an effect -/

/-- The members of the CPU but PC, R and the flag `flags_modified_`. -/
inductive Field where
  | a | b | c | d | e | h | l | flags
  | aAlt | fAlt | bAlt | cAlt | dAlt | eAlt | hAlt | lAlt
  | ix | iy | sp | wz | i | iff1 | iff2 | im | halted | eiPending | q
  | nmiLine | nmiPending | intLine | intPulsePending
deriving DecidableEq

@[simp] def SameField (core next : Cpu) : Field → Prop
  | .a => next.regs.a = core.regs.a
  | .b => next.regs.b = core.regs.b
  | .c => next.regs.c = core.regs.c
  | .d => next.regs.d = core.regs.d
  | .e => next.regs.e = core.regs.e
  | .h => next.regs.h = core.regs.h
  | .l => next.regs.l = core.regs.l
  | .flags => next.regs.flags = core.regs.flags
  | .aAlt => next.regs.aAlt = core.regs.aAlt
  | .fAlt => next.regs.fAlt = core.regs.fAlt
  | .bAlt => next.regs.bAlt = core.regs.bAlt
  | .cAlt => next.regs.cAlt = core.regs.cAlt
  | .dAlt => next.regs.dAlt = core.regs.dAlt
  | .eAlt => next.regs.eAlt = core.regs.eAlt
  | .hAlt => next.regs.hAlt = core.regs.hAlt
  | .lAlt => next.regs.lAlt = core.regs.lAlt
  | .ix => next.regs.ix = core.regs.ix
  | .iy => next.regs.iy = core.regs.iy
  | .sp => next.regs.sp = core.regs.sp
  | .wz => next.regs.wz = core.regs.wz
  | .i => next.regs.i = core.regs.i
  | .iff1 => next.regs.iff1 = core.regs.iff1
  | .iff2 => next.regs.iff2 = core.regs.iff2
  | .im => next.regs.im = core.regs.im
  | .halted => next.regs.halted = core.regs.halted
  | .eiPending => next.regs.eiPending = core.regs.eiPending
  | .q => next.regs.q = core.regs.q
  | .nmiLine => next.nmiLine = core.nmiLine
  | .nmiPending => next.nmiPending = core.nmiPending
  | .intLine => next.intLine = core.intLine
  | .intPulsePending => next.intPulsePending = core.intPulsePending

theorem SameField.refl (core : Cpu) (field : Field) : SameField core core field := by
  cases field <;> rfl

theorem SameField.trans {core mid last : Cpu} {field : Field} (first : SameField core mid field)
    (second : SameField mid last field) : SameField core last field := by
  cases field <;> exact Eq.trans second first

@[simp] theorem forall_field {holds : Field → Prop} : (∀ field, holds field) ↔
    (holds .a ∧ holds .b ∧ holds .c ∧ holds .d ∧ holds .e ∧ holds .h ∧ holds .l ∧
      holds .flags) ∧
    (holds .aAlt ∧ holds .fAlt ∧ holds .bAlt ∧ holds .cAlt ∧ holds .dAlt ∧ holds .eAlt ∧
      holds .hAlt ∧ holds .lAlt) ∧
    (holds .ix ∧ holds .iy ∧ holds .sp ∧ holds .wz ∧ holds .i ∧ holds .iff1 ∧ holds .iff2 ∧
      holds .im ∧ holds .halted ∧ holds .eiPending ∧ holds .q) ∧
    holds .nmiLine ∧ holds .nmiPending ∧ holds .intLine ∧ holds .intPulsePending := by
  constructor
  · intro all
    refine ⟨?_, ?_, ?_, ?_⟩ <;> simp only [all, and_self]
  · rintro ⟨main, alt, other, lines⟩ field
    cases field <;> simp only [main, alt, other, lines]

structure Signature where
  tStates : Int := 0
  fetched : Nat := 0
  /-- How many of them are opcode fetches, which increment R. -/
  opcodes : Nat := 0
  data : Bool := false
  jumps : Bool := false
  /-- No program byte after a data access or a jump. -/
  inOrder : Bool := true
  flagged : Bool := false
  setsR : Bool := false
  touched : List Field := []

instance : Zero Signature := ⟨{}⟩

instance : Add Signature where
  add first second :=
    { tStates := first.tStates + second.tStates
      fetched := first.fetched + second.fetched
      opcodes := first.opcodes + second.opcodes
      data := first.data || second.data
      jumps := first.jumps || second.jumps
      inOrder := first.inOrder && second.inOrder &&
        (second.fetched == 0 || !first.data && !first.jumps)
      flagged := first.flagged || second.flagged
      setsR := first.setsR || second.setsR
      touched := first.touched ++ second.touched }

section Add
variable (first second : Signature)

@[simp] theorem zero_tStates : (0 : Signature).tStates = 0 := rfl
@[simp] theorem add_tStates : (first + second).tStates = first.tStates + second.tStates := rfl

end Add

def advanceR (count : Nat) (r : Byte) : Byte :=
  (fun r => (r &&& 0x80#8) ||| ((r + 1) &&& 0x7F#8))^[count] r

structure Signed (signature : Signature) (core next : Cpu) (path : Path) : Prop where
  disciplined : Disciplined none path
  cost : nominal path = signature.tStates
  consumes : signature.inOrder = true → Consumes core.regs.pc signature.fetched path
  noData : signature.data = false → NoData path
  pc : signature.jumps = false →
    next.regs.pc = core.regs.pc + BitVec.ofNat 16 signature.fetched
  r : signature.setsR = false → next.regs.r = advanceR signature.opcodes core.regs.r
  flagged : next.flagsModified = (core.flagsModified || signature.flagged)
  same : ∀ field, field ∉ signature.touched → SameField core next field

theorem Signed.unit (core : Cpu) : Signed 0 core core [] where
  disciplined := trivial
  cost := rfl
  consumes _ := rfl
  noData _ := noData_nil
  pc _ := (BitVec.add_zero _).symm
  r _ := rfl
  flagged := (Bool.or_false _).symm
  same field _ := SameField.refl core field

theorem Signed.comp {first second : Signature} {core mid last : Cpu} {path tail : Path}
    (left : Signed first core mid path) (right : Signed second mid last tail) :
    Signed (first + second) core last (path ++ tail) where
  disciplined := left.disciplined.append right.disciplined
  cost := by
    rw [nominal_append, left.cost, right.cost]
    rfl
  consumes inOrder := by
    have split : (first.inOrder && second.inOrder &&
        (second.fetched == 0 || !first.data && !first.jumps)) = true := inOrder
    simp only [Bool.and_eq_true, Bool.or_eq_true, beq_iff_eq, Bool.not_eq_true'] at split
    obtain ⟨⟨leftOrder, rightOrder⟩, dataLast | ⟨noData, noJump⟩⟩ := split
    · have tailData := right.consumes rightOrder
      rw [dataLast] at tailData
      change Consumes core.regs.pc (first.fetched + second.fetched) (path ++ tail)
      rw [dataLast]
      exact (left.consumes leftOrder).appendData tailData
    · refine (left.consumes leftOrder).append (left.noData noData) ?_
      rw [← left.pc noJump]
      exact right.consumes rightOrder
  noData none := by
    have split : (first.data || second.data) = false := none
    rw [Bool.or_eq_false_iff] at split
    exact (left.noData split.1).append (right.noData split.2)
  pc none := by
    have split : (first.jumps || second.jumps) = false := none
    rw [Bool.or_eq_false_iff] at split
    rw [right.pc split.2, left.pc split.1, BitVec.add_assoc, ← BitVec.ofNat_add]
    rfl
  r none := by
    have split : (first.setsR || second.setsR) = false := none
    rw [Bool.or_eq_false_iff] at split
    rw [right.r split.2, left.r split.1, advanceR, advanceR, ← Function.iterate_add_apply,
      Nat.add_comm]
    rfl
  flagged := by
    rw [right.flagged, left.flagged, Bool.or_assoc]
    rfl
  same field untouched := by
    have split : field ∉ first.touched ++ second.touched := untouched
    rw [List.mem_append, not_or] at split
    exact (left.same field split.1).trans (right.same field split.2)

def signature : Effect Cpu Request Answer Signature where
  rel := Signed
  unit := Signed.unit
  comp := Signed.comp

theorem signed_of {α : Type} {m : Z80M α} {s : Signature}
    (signed : ∀ cpu, m.Holds (fun _ next path =>
      (Disciplined none path ∧ nominal path = s.tStates) ∧
      ((s.inOrder = true → Consumes cpu.regs.pc s.fetched path) ∧ (s.data = false → NoData path)) ∧
      ((s.jumps = false → next.regs.pc = cpu.regs.pc + BitVec.ofNat 16 s.fetched) ∧
        (s.setsR = false → next.regs.r = advanceR s.opcodes cpu.regs.r)) ∧
      next.flagsModified = (cpu.flagsModified || s.flagged) ∧
      ∀ field, field ∉ s.touched → SameField cpu next field) cpu) :
    HasEffect signature m s := by
  refine ⟨fun cpu => (signed cpu).mono ?_⟩
  rintro _ next path ⟨⟨disciplined, cost⟩, ⟨consumes, noData⟩, ⟨pc, r⟩, flagged, same⟩
  exact ⟨disciplined, cost, consumes, noData, pc, r, flagged, same⟩

@[simp] theorem advanceR_zero (r : Byte) : advanceR 0 r = r := rfl
@[simp] theorem advanceR_one (r : Byte) :
    advanceR 1 r = (r &&& 0x80#8) ||| ((r + 1) &&& 0x7F#8) := rfl

/-- A store into the members `fields`. -/
class Stores (f : Registers → Registers) (fields : outParam (List Field)) : Prop where
  pc : ∀ r, (f r).pc = r.pc
  r : ∀ r, (f r).r = r.r
  same : ∀ cpu field, field ∉ fields → SameField cpu { cpu with regs := f cpu.regs } field

instance (f : Registers → Registers) (fields : List Field) [stores : Stores f fields] :
    HasEffect signature (modifyRegs f) { touched := fields } :=
  signed_of fun cpu => by
    rw [holds_modifyRegs]
    refine ⟨⟨trivial, rfl⟩, ⟨fun _ => rfl, fun _ => noData_nil⟩, ⟨fun _ => ?_, fun _ => stores.r _⟩,
      (Bool.or_false _).symm, stores.same cpu⟩
    exact (stores.pc _).trans (BitVec.add_zero _).symm

instance (w : Registers → Word) : HasEffect signature
    (modifyRegs fun r => { r with pc := w r }) { jumps := true } :=
  signed_of fun cpu => by simp

def reg8Field : Nat → List Field
  | 0 => [.b]
  | 1 => [.c]
  | 2 => [.d]
  | 3 => [.e]
  | 4 => [.h]
  | 5 => [.l]
  | 7 => [.a]
  | _ => []

def indexField : IndexReg → Field
  | .ix => .ix
  | .iy => .iy

section Stores
variable (g : Registers → Byte) (w : Registers → Word) (byte : Byte) (v : Word)

instance : Stores (fun r => { r with a := g r }) [.a] :=
  ⟨fun _ => rfl, fun _ => rfl, fun cpu => by simp⟩
instance : Stores (fun r => { r with b := g r }) [.b] :=
  ⟨fun _ => rfl, fun _ => rfl, fun cpu => by simp⟩
instance : Stores (fun r => { r with c := g r }) [.c] :=
  ⟨fun _ => rfl, fun _ => rfl, fun cpu => by simp⟩
instance : Stores (fun r => { r with d := g r }) [.d] :=
  ⟨fun _ => rfl, fun _ => rfl, fun cpu => by simp⟩
instance : Stores (fun r => { r with e := g r }) [.e] :=
  ⟨fun _ => rfl, fun _ => rfl, fun cpu => by simp⟩
instance : Stores (fun r => { r with h := g r }) [.h] :=
  ⟨fun _ => rfl, fun _ => rfl, fun cpu => by simp⟩
instance : Stores (fun r => { r with l := g r }) [.l] :=
  ⟨fun _ => rfl, fun _ => rfl, fun cpu => by simp⟩
instance : Stores (fun r => { r with sp := w r }) [.sp] :=
  ⟨fun _ => rfl, fun _ => rfl, fun cpu => by simp⟩
instance : Stores (fun r => { r with wz := w r }) [.wz] :=
  ⟨fun _ => rfl, fun _ => rfl, fun cpu => by simp⟩
instance : Stores (fun r => r.setBc (w r)) [.b, .c] :=
  ⟨fun _ => rfl, fun _ => rfl, fun cpu => by simp [Registers.setBc]⟩
instance : Stores (fun r => r.setDe (w r)) [.d, .e] :=
  ⟨fun _ => rfl, fun _ => rfl, fun cpu => by simp [Registers.setDe]⟩
instance : Stores (fun r => r.setHl (w r)) [.h, .l] :=
  ⟨fun _ => rfl, fun _ => rfl, fun cpu => by simp [Registers.setHl]⟩
instance : Stores (Registers.setBc v) [.b, .c] :=
  ⟨fun _ => rfl, fun _ => rfl, fun cpu => by simp [Registers.setBc]⟩
instance : Stores (Registers.setDe v) [.d, .e] :=
  ⟨fun _ => rfl, fun _ => rfl, fun cpu => by simp [Registers.setDe]⟩
instance : Stores (Registers.setHl v) [.h, .l] :=
  ⟨fun _ => rfl, fun _ => rfl, fun cpu => by simp [Registers.setHl]⟩
instance : Stores (Registers.setAf v) [.a, .flags] :=
  ⟨fun _ => rfl, fun _ => rfl, fun cpu => by simp [Registers.setAf]⟩
instance (x : IndexReg) : Stores (Registers.setIndex x v) [indexField x] := by
  cases x <;> exact ⟨fun _ => rfl, fun _ => rfl, fun cpu => by simp [Registers.setIndex, indexField]⟩
instance (x : IndexReg) : Stores (fun r => r.setIndex x (w r)) [indexField x] := by
  cases x <;> exact ⟨fun _ => rfl, fun _ => rfl, fun cpu => by simp [Registers.setIndex, indexField]⟩
instance (field : Nat) : Stores (Registers.setReg8 field byte) (reg8Field field) := by
  unfold Registers.setReg8 reg8Field
  split <;> exact ⟨fun _ => rfl, fun _ => rfl, fun cpu => by simp⟩

end Stores

/-! ## The helpers -/

section Bus
variable (a v : Word) (byte : Byte)

instance : HasEffect signature getRegs {} := ⟨fun cpu => Signed.unit cpu⟩
instance : HasEffect signature (writeFlags byte) { flagged := true, touched := [.flags] } :=
  signed_of fun cpu => by simp
instance (n : Nat) : HasEffect signature (idle a n) { tStates := n } :=
  signed_of fun cpu => by simp
instance : HasEffect signature (read8 a) { tStates := 3, data := true } :=
  signed_of fun cpu => by simp
instance : HasEffect signature (write8 a byte) { tStates := 3, data := true } :=
  signed_of fun cpu => by simp
instance : HasEffect signature fetchOpcode { tStates := 4, fetched := 1, opcodes := 1 } :=
  signed_of fun cpu => by simp [Registers.incR]
instance : HasEffect signature fetchImmediate { tStates := 3, fetched := 1 } :=
  signed_of fun cpu => by simp
instance : HasEffect signature fetchImmediate16 { tStates := 6, fetched := 2 } :=
  signed_of fun cpu => by simp [BitVec.add_assoc]
instance : HasEffect signature (ioIn a) { tStates := 4, data := true } :=
  signed_of fun cpu => by simp
instance : HasEffect signature (ioOut a byte) { tStates := 4, data := true } :=
  signed_of fun cpu => by simp
instance : HasEffect signature (push16 v) { tStates := 6, data := true, touched := [.sp] } :=
  signed_of fun cpu => by simp
instance : HasEffect signature pop16 { tStates := 6, data := true, touched := [.sp] } :=
  signed_of fun cpu => by simp

end Bus

section Arithmetic
variable (v : Word) (byte : Byte) (withCarry : Bool)

instance : HasEffect signature (aluAdd byte withCarry)
    { flagged := true, touched := [.a, .flags] } := signed_of fun cpu => by simp
instance : HasEffect signature (aluSub byte withCarry)
    { flagged := true, touched := [.a, .flags] } := signed_of fun cpu => by simp
instance : HasEffect signature (aluCp byte) { flagged := true, touched := [.flags] } :=
  signed_of fun cpu => by simp
instance : HasEffect signature (aluAnd byte) { flagged := true, touched := [.a, .flags] } :=
  signed_of fun cpu => by simp
instance : HasEffect signature (aluOr byte) { flagged := true, touched := [.a, .flags] } :=
  signed_of fun cpu => by simp
instance : HasEffect signature (aluXor byte) { flagged := true, touched := [.a, .flags] } :=
  signed_of fun cpu => by simp
instance : HasEffect signature (aluInc byte) { flagged := true, touched := [.flags] } :=
  signed_of fun cpu => by simp
instance : HasEffect signature (aluDec byte) { flagged := true, touched := [.flags] } :=
  signed_of fun cpu => by simp
instance : HasEffect signature aluDaa { flagged := true, touched := [.a, .flags] } :=
  signed_of fun cpu => by simp
instance (dest : Word) : HasEffect signature (aluAdd16 dest v)
    { tStates := 7, flagged := true, touched := [.flags, .wz] } := signed_of fun cpu => by simp
instance : HasEffect signature (aluAdc16 v)
    { tStates := 7, flagged := true, touched := [.flags, .wz, .h, .l] } :=
  signed_of fun cpu => by simp [Registers.setHl]
instance : HasEffect signature (aluSbc16 v)
    { tStates := 7, flagged := true, touched := [.flags, .wz, .h, .l] } :=
  signed_of fun cpu => by simp [Registers.setHl]
instance (c : Byte) : HasEffect signature (storeRotatedA byte c)
    { flagged := true, touched := [.a, .flags] } := signed_of fun cpu => by simp
instance : HasEffect signature aluRlca { flagged := true, touched := [.a, .flags] } :=
  signed_of fun cpu => by simp [aluRlca]
instance : HasEffect signature aluRrca { flagged := true, touched := [.a, .flags] } :=
  signed_of fun cpu => by simp [aluRrca]
instance : HasEffect signature aluRla { flagged := true, touched := [.a, .flags] } :=
  signed_of fun cpu => by simp [aluRla]
instance : HasEffect signature aluRra { flagged := true, touched := [.a, .flags] } :=
  signed_of fun cpu => by simp [aluRra]
instance (bit : Nat) (source : Byte) : HasEffect signature (cbBit bit byte source)
    { flagged := true, touched := [.flags] } := signed_of fun cpu => by simp

theorem shiftOp_signature (operation : Nat) (bound : operation < 8) : HasEffect signature
    (shiftOp operation byte) { flagged := true, touched := [.flags] } :=
  signed_of fun cpu => by simp [bound]

theorem aluOp_signature (operation : Nat) (bound : operation < 8) : HasEffect signature
    (aluOp operation byte) { flagged := true, touched := [.a, .flags] } :=
  signed_of fun cpu => by simp [bound]

end Arithmetic

section Unprefixed
variable (a v : Word) (byte : Byte)

instance : HasEffect signature (jp a) { jumps := true, touched := [.wz] } :=
  signed_of fun cpu => by simp [jp]
instance (cond : Bool) : HasEffect signature (jpCond cond)
    { tStates := 6, fetched := 2, jumps := cond, touched := [.wz] } :=
  signed_of fun cpu => by cases cond <;> simp [jpCond, BitVec.add_assoc]
instance : HasEffect signature jr { tStates := 8, fetched := 1, jumps := true, touched := [.wz] } :=
  signed_of fun cpu => by simp [jr]
instance : HasEffect signature call
    { tStates := 13, fetched := 2, data := true, jumps := true, touched := [.wz, .sp] } :=
  signed_of fun cpu => by simp [call]
instance : HasEffect signature (rst a)
    { tStates := 7, data := true, jumps := true, touched := [.wz, .sp] } :=
  signed_of fun cpu => by simp [rst]
instance : HasEffect signature halt { jumps := true, touched := [.halted] } :=
  signed_of fun cpu => by simp [halt]
instance : HasEffect signature di { touched := [.iff1, .iff2] } :=
  signed_of fun cpu => by simp [di]
instance : HasEffect signature ei { touched := [.iff1, .iff2, .eiPending] } :=
  signed_of fun cpu => by simp [ei]
instance : HasEffect signature exAf { touched := [.a, .flags, .aAlt, .fAlt] } :=
  signed_of fun cpu => by simp [exAf, Registers.setAf]
instance : HasEffect signature exx
    { touched := [.b, .c, .d, .e, .h, .l, .bAlt, .cAlt, .dAlt, .eAlt, .hAlt, .lAlt] } :=
  signed_of fun cpu => by simp [exx]
instance : HasEffect signature exDeHl { touched := [.d, .e, .h, .l] } :=
  signed_of fun cpu => by simp [exDeHl]
instance : HasEffect signature exSpHl { tStates := 15, data := true, touched := [.h, .l, .wz] } :=
  signed_of fun cpu => by simp [exSpHl]
instance : HasEffect signature cpl { flagged := true, touched := [.a, .flags] } :=
  signed_of fun cpu => by simp [cpl]
instance : HasEffect signature scf { flagged := true, touched := [.flags] } :=
  signed_of fun cpu => by simp [scf]
instance : HasEffect signature ccf { flagged := true, touched := [.flags] } :=
  signed_of fun cpu => by simp [ccf]
instance : HasEffect signature (storeA a) { tStates := 3, data := true, touched := [.wz] } :=
  signed_of fun cpu => by simp [storeA]
instance : HasEffect signature (loadA a) { tStates := 3, data := true, touched := [.a, .wz] } :=
  signed_of fun cpu => by simp [loadA]
instance : HasEffect signature (store16 a v) { tStates := 6, data := true, touched := [.wz] } :=
  signed_of fun cpu => by simp [store16]
instance : HasEffect signature (updateMem aluInc a)
    { tStates := 7, data := true, flagged := true, touched := [.flags] } :=
  signed_of fun cpu => by simp [updateMem]
instance : HasEffect signature (updateMem aluDec a)
    { tStates := 7, data := true, flagged := true, touched := [.flags] } :=
  signed_of fun cpu => by simp [updateMem]
instance : HasEffect signature (addHl v)
    { tStates := 7, flagged := true, touched := [.flags, .wz, .h, .l] } :=
  signed_of fun cpu => by simp [addHl, Registers.setHl]
instance : HasEffect signature outA
    { tStates := 7, fetched := 1, data := true, touched := [.wz] } :=
  signed_of fun cpu => by simp [outA]
instance : HasEffect signature inA
    { tStates := 7, fetched := 1, data := true, touched := [.a, .wz] } :=
  signed_of fun cpu => by simp [inA]
instance (op : Byte) : HasEffect signature (opcodePrelude op) { tStates := preludeLength op } :=
  signed_of fun cpu => by simp

instance (store : Word → Registers → Registers) (fields : List Field)
    [∀ v, Stores (store v) fields] : HasEffect signature (load16 a store)
      { tStates := 6, data := true, touched := fields ++ [.wz] } := by
  unfold load16
  refine .of_after ?_
  repeat refine After.bind fun _ => ?_
  exact After.last fun _ _ _ _ rel => rel

end Unprefixed

section Ed
variable (field : Nat) (byte : Byte)

instance : HasEffect signature (outC field) { tStates := 4, data := true, touched := [.wz] } :=
  signed_of fun cpu => by simp [outC]
instance : HasEffect signature neg { flagged := true, touched := [.a, .flags] } :=
  signed_of fun cpu => by simp [neg]
instance : HasEffect signature retn
    { tStates := 6, data := true, jumps := true, touched := [.sp, .wz, .iff1] } :=
  signed_of fun cpu => by simp [retn, jp]
instance : HasEffect signature (setIm byte) { touched := [.im] } :=
  signed_of fun cpu => by simp [setIm]
instance : HasEffect signature ldIA { tStates := 1, touched := [.i] } :=
  signed_of fun cpu => by simp [ldIA]
instance : HasEffect signature ldRA { tStates := 1, setsR := true } :=
  signed_of fun cpu => by simp [ldRA]
instance (source : Registers → Byte) : HasEffect signature (ldAFrom source)
    { tStates := 1, flagged := true, touched := [.a, .flags] } :=
  signed_of fun cpu => by simp [ldAFrom]
instance : HasEffect signature rrd
    { tStates := 10, data := true, flagged := true, touched := [.a, .wz, .flags] } :=
  signed_of fun cpu => by simp [rrd, rotateDigit]
instance : HasEffect signature rld
    { tStates := 10, data := true, flagged := true, touched := [.a, .wz, .flags] } :=
  signed_of fun cpu => by simp [rld, rotateDigit]

end Ed

section Index
variable (x : IndexReg) (v : Word) (byte : Byte) (field : Nat)

instance : HasEffect signature (ixh x) {} := signed_of fun cpu => by simp [ixh]
instance : HasEffect signature (ixl x) {} := signed_of fun cpu => by simp [ixl]
instance : HasEffect signature (setIxh x byte) { touched := [indexField x] } := by
  unfold setIxh
  infer_instance
instance : HasEffect signature (setIxl x byte) { touched := [indexField x] } := by
  unfold setIxl
  infer_instance
instance : HasEffect signature (idxAddr x) { tStates := 8, fetched := 1, touched := [.wz] } :=
  signed_of fun cpu => by simp [idxAddr]
instance : HasEffect signature (addIndex x v)
    { tStates := 7, flagged := true, touched := [.flags, .wz, indexField x] } := by
  cases x <;> exact signed_of fun cpu => by
    simp [addIndex, indexField, Registers.index, Registers.setIndex]
instance : HasEffect signature (incIndex x) { tStates := 2, touched := [indexField x] } := by
  cases x <;> exact signed_of fun cpu => by
    simp [incIndex, indexField, Registers.index, Registers.setIndex]
instance : HasEffect signature (decIndex x) { tStates := 2, touched := [indexField x] } := by
  cases x <;> exact signed_of fun cpu => by
    simp [decIndex, indexField, Registers.index, Registers.setIndex]
instance : HasEffect signature (ldIdxImm x)
    { tStates := 11, fetched := 2, data := true, touched := [.wz] } :=
  signed_of fun cpu => by simp [ldIdxImm, BitVec.add_assoc]
instance : HasEffect signature (ldRegIdx x field)
    { tStates := 11, fetched := 1, data := true, touched := .wz :: reg8Field field } := by
  unfold ldRegIdx
  refine .of_after ?_
  repeat refine After.bind fun _ => ?_
  exact After.last fun _ _ _ _ rel => rel
instance : HasEffect signature (ldIdxReg x field)
    { tStates := 11, fetched := 1, data := true, touched := [.wz] } := by
  unfold ldIdxReg
  refine .of_after ?_
  repeat refine After.bind fun _ => ?_
  exact After.last fun _ _ _ _ rel => rel
instance : HasEffect signature (pushIndex x) { tStates := 7, data := true, touched := [.sp] } :=
  signed_of fun cpu => by simp [pushIndex]
instance : HasEffect signature (exSpIndex x)
    { tStates := 15, data := true, touched := [.wz, indexField x] } := by
  cases x <;> exact signed_of fun cpu => by
    simp [exSpIndex, indexField, Registers.index, Registers.setIndex]
instance : HasEffect signature (ldSpIndex x) { tStates := 2, touched := [.sp] } :=
  signed_of fun cpu => by simp [ldSpIndex]

end Index
end Z80f
