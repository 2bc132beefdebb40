import Z80f.Cpu.Signature
import Z80f.Host.Ram

/-! # The instruction set, from its encoding

What the bytes of an instruction say about it, whatever the code does: how many
there are, whether control leaves the straight line, what becomes of the
interrupt flip-flops and which other members it may store.  The dispatchers are
compared with these tables. -/

set_option autoImplicit false

namespace Z80f

open Flags

def operandBytes (op : Byte) : Nat :=
  match op with
  | 0x01 | 0x11 | 0x21 | 0x31 | 0x22 | 0x2A | 0x32 | 0x3A | 0xC3 | 0xCD => 2
  | 0x10 | 0x18 | 0x20 | 0x28 | 0x30 | 0x38 | 0xD3 | 0xDB | 0xCB => 1
  | _ =>
      if op &&& 0xC7#8 = 0xC2#8 ∨ op &&& 0xC7#8 = 0xC4#8 then 2
      else if op &&& 0xC7#8 = 0x06#8 ∨ op &&& 0xC7#8 = 0xC6#8 then 1
      else 0

def edOperandBytes (op : Byte) : Nat := if op &&& 0xC7#8 = 0x43#8 then 2 else 0

def hasHlOperand (op : Byte) : Bool :=
  op == 0x34#8 || op == 0x35#8 || op == 0x36#8 ||
    (kindField op == 1 && op != 0x76#8 && (regField op == 6 || midField op == 6)) ||
    (kindField op == 2 && regField op == 6)

/-- After a prefix `(HL)` and CB take a displacement as well. -/
def indexOperandBytes (op : Byte) : Nat :=
  if hasHlOperand op || op == 0xCB#8 then operandBytes op + 1 else operandBytes op

/-- The registers that a branch or a repetition depends on. -/
structure Operands where
  a : Byte
  flags : Byte
  b : Byte
  c : Byte
  h : Byte
  l : Byte

def Registers.operands (r : Registers) : Operands :=
  { a := r.a, flags := r.flags, b := r.b, c := r.c, h := r.h, l := r.l }

/-- NZ, Z, NC, C, PO, PE, P, M. -/
def condition (cc : Nat) (flags : Byte) : Bool :=
  match cc with
  | 0 => !zero flags
  | 1 => zero flags
  | 2 => !carry flags
  | 3 => carry flags
  | 4 => !parityOverflow flags
  | 5 => parityOverflow flags
  | 6 => !sign flags
  | _ => sign flags

/-- A taken jump, call, return or RST, or HALT. -/
def diverts (op : Byte) (r : Operands) : Bool :=
  match op with
  | 0x10 => r.b - 1 != 0
  | 0x18 | 0x76 | 0xC3 | 0xC9 | 0xCD | 0xE9 => true
  | 0x20 | 0x28 | 0x30 | 0x38 => condition (midField op - 4) r.flags
  | _ =>
      if op &&& 0xC7#8 = 0xC7#8 then true
      else if op &&& 0xC7#8 = 0xC0#8 ∨ op &&& 0xC7#8 = 0xC2#8 ∨ op &&& 0xC7#8 = 0xC4#8 then
        condition (midField op) r.flags
      else false

/-- After ED: RETN and RETI, and a block instruction that repeats. -/
def edDiverts (op : Byte) (r : Operands) (memory : Memory) : Bool :=
  match op with
  | 0x45 | 0x55 | 0x65 | 0x75 | 0x4D | 0x5D | 0x6D | 0x7D => true
  | 0xB0 | 0xB8 => word r.b r.c - 1 != 0
  | 0xB1 | 0xB9 => word r.b r.c - 1 != 0 && r.a != memory (word r.h r.l)
  | 0xB2 | 0xBA | 0xB3 | 0xBB => r.b - 1 != 0
  | _ => false

structure Control where
  iff1 : Bool
  iff2 : Bool
  im : Byte
  halted : Bool
  eiPending : Bool

def Registers.control (r : Registers) : Control :=
  { iff1 := r.iff1, iff2 := r.iff2, im := r.im, halted := r.halted, eiPending := r.eiPending }

def controlAfter (op : Byte) (control : Control) : Control :=
  match op with
  | 0x76 => { control with halted := true }
  | 0xF3 => { control with iff1 := false, iff2 := false }
  | 0xFB => { control with iff1 := true, iff2 := true, eiPending := true }
  | _ => control

def edControlAfter (op : Byte) (control : Control) : Control :=
  match op with
  | 0x45 | 0x55 | 0x65 | 0x75 | 0x4D | 0x5D | 0x6D | 0x7D => { control with iff1 := control.iff2 }
  | 0x46 | 0x4E | 0x66 | 0x6E => { control with im := 0 }
  | 0x56 | 0x76 => { control with im := 1 }
  | 0x5E | 0x7E => { control with im := 2 }
  | _ => control

def guarded : List Field :=
  [.aAlt, .fAlt, .bAlt, .cAlt, .dAlt, .eAlt, .hAlt, .lAlt, .ix, .iy, .sp, .i,
    .nmiLine, .nmiPending, .intLine, .intPulsePending]

/-- Push, pop, call, return, RST, `LD SP`, `INC SP` and `DEC SP`. -/
def storesSp (op : Byte) : Bool :=
  match op with
  | 0x31 | 0x33 | 0x3B | 0xF9 | 0xC9 | 0xCD => true
  | _ =>
      op &&& 0xC7#8 == 0xC0#8 || op &&& 0xC7#8 == 0xC4#8 || op &&& 0xC7#8 == 0xC7#8 ||
        op &&& 0xCF#8 == 0xC1#8 || op &&& 0xCF#8 == 0xC5#8

def guardedStores (op : Byte) : List Field :=
  match op with
  | 0x08 => [.aAlt, .fAlt]
  | 0xD9 => [.bAlt, .cAlt, .dAlt, .eAlt, .hAlt, .lAlt]
  | _ => if storesSp op then [.sp] else []

def edGuardedStores (op : Byte) : List Field :=
  match op with
  | 0x45 | 0x55 | 0x65 | 0x75 | 0x4D | 0x5D | 0x6D | 0x7D | 0x7B => [.sp]
  | 0x47 => [.i]
  | _ => []

/-! ## Profiles -/

structure Profile where
  bytes : Nat
  opcodes : Nat := 0
  stores : List Field := []
  /-- F changes without a flag computation. -/
  storesF : Bool := false
  setsR : Bool := false
  diverts : Operands → Memory → Bool := fun _ _ => false
  control : Control → Control := fun control => control

def Profile.behindOpcode (p : Profile) : Profile :=
  { p with bytes := p.bytes + 1, opcodes := p.opcodes + 1 }

/-- What follows an unprefixed opcode other than ED. -/
def opcodeProfile (op : Byte) : Profile :=
  { bytes := operandBytes op
    opcodes := if op = 0xCB#8 then 1 else 0
    stores := guardedStores op
    storesF := op == 0x08#8 || op == 0xF1#8
    diverts := fun r _ => diverts op r
    control := controlAfter op }

def edProfile (op : Byte) : Profile :=
  { bytes := edOperandBytes op
    stores := edGuardedStores op
    setsR := op == 0x4F#8
    diverts := edDiverts op
    control := edControlAfter op }

/-- As `opcodeProfile` after a prefix; the opcode behind CB is no opcode fetch. -/
def indexProfile (x : IndexReg) (op : Byte) : Profile :=
  { opcodeProfile op with
    bytes := indexOperandBytes op
    opcodes := 0
    stores := indexField x :: guardedStores op }

def plainRest (op : Byte) (rest : List Byte) : Profile :=
  if op = 0xED#8 then (edProfile (rest.headD 0)).behindOpcode else opcodeProfile op

def indexedRest (x : IndexReg) (op : Byte) (rest : List Byte) : Profile :=
  if op = 0xED#8 then plainRest op rest else indexProfile x op

def prefixedRest : IndexReg → List Byte → Profile
  | _, [] => { bytes := 1 }
  | x, op :: rest =>
      Profile.behindOpcode <|
        if isIndexPrefix op then prefixedRest (prefixReg op) rest else indexedRest x op rest

def unprefixedRest (op : Byte) (rest : List Byte) : Profile :=
  if isIndexPrefix op then prefixedRest (prefixReg op) rest else plainRest op rest

def instructionProfile : List Byte → Profile
  | [] => { bytes := 1 }
  | op :: rest => (unprefixedRest op rest).behindOpcode

def prefixedBy (x : IndexReg) (op : Byte) (rest : List Byte) : Profile :=
  if isIndexPrefix op then prefixedRest (prefixReg op) rest else indexedRest x op rest

theorem prefixedRest_cons (x : IndexReg) (op : Byte) (rest : List Byte) :
    prefixedRest x (op :: rest) = (prefixedBy x op rest).behindOpcode := rfl

section All
variable (holds : Profile → Prop) (behind : ∀ p, holds p → holds p.behindOpcode)
  (missing : holds { bytes := 1 }) (plain : ∀ op, holds (opcodeProfile op))
  (ed : ∀ op, holds (edProfile op)) (indexed : ∀ x op, holds (indexProfile x op))
include behind plain ed

theorem plainRest_all (op : Byte) (rest : List Byte) : holds (plainRest op rest) := by
  unfold plainRest
  split
  · exact behind _ (ed _)
  · exact plain op

include missing indexed

theorem prefixedRest_all (x : IndexReg) (rest : List Byte) : holds (prefixedRest x rest) := by
  induction rest generalizing x with
  | nil => exact missing
  | cons op rest ih =>
      rw [prefixedRest_cons, prefixedBy, indexedRest]
      refine behind _ ?_
      split
      · exact ih _
      · split
        · exact plainRest_all holds behind plain ed op rest
        · exact indexed x op

theorem instructionProfile_all (bytes : List Byte) : holds (instructionProfile bytes) := by
  cases bytes with
  | nil => exact missing
  | cons op rest =>
      refine behind _ ?_
      unfold unprefixedRest
      split
      · exact prefixedRest_all holds behind missing plain ed indexed _ rest
      · exact plainRest_all holds behind plain ed op rest

end All

/-- The register that the last prefix selects, `x` before the first. -/
def lastIndex : IndexReg → List Byte → IndexReg
  | x, [] => x
  | x, op :: rest => if isIndexPrefix op then lastIndex (prefixReg op) rest else x

def lastPrefix : List Byte → Option IndexReg
  | [] => none
  | op :: rest => if isIndexPrefix op then some (lastIndex (prefixReg op) rest) else none

def codeOf (bytes : List Byte) : List Byte := bytes.dropWhile isIndexPrefix

def codeProfile (x : Option IndexReg) : List Byte → Profile
  | [] => { bytes := 1 }
  | op :: rest =>
      match x with
      | none => plainRest op rest
      | some x => indexedRest x op rest

theorem prefixedRest_code (x : IndexReg) (rest : List Byte) : ∃ bytes opcodes,
    prefixedRest x rest = { codeProfile (some (lastIndex x rest)) (codeOf rest) with
      bytes := bytes, opcodes := opcodes } := by
  induction rest generalizing x with
  | nil => exact ⟨_, _, rfl⟩
  | cons op rest ih =>
      rw [prefixedRest_cons, prefixedBy, lastIndex, codeOf, List.dropWhile_cons]
      by_cases more : isIndexPrefix op = true
      · obtain ⟨bytes, opcodes, behind⟩ := ih (prefixReg op)
        rw [if_pos more, if_pos more, if_pos more, behind]
        exact ⟨_, _, rfl⟩
      · rw [if_neg more, if_neg more, if_neg more]
        exact ⟨_, _, rfl⟩

/-- Prefixes only count: the rest is up to the last of them and the opcode. -/
theorem instructionProfile_code (bytes : List Byte) : ∃ length opcodes,
    instructionProfile bytes = { codeProfile (lastPrefix bytes) (codeOf bytes) with
      bytes := length, opcodes := opcodes } := by
  cases bytes with
  | nil => exact ⟨_, _, rfl⟩
  | cons op rest =>
      rw [instructionProfile, unprefixedRest, lastPrefix, codeOf, List.dropWhile_cons]
      by_cases pre : isIndexPrefix op = true
      · obtain ⟨length, opcodes, behind⟩ := prefixedRest_code (prefixReg op) rest
        rw [if_pos pre, if_pos pre, if_pos pre, behind]
        exact ⟨_, _, rfl⟩
      · rw [if_neg pre, if_neg pre, if_neg pre]
        exact ⟨_, _, rfl⟩

def controlOf : List Byte → Control → Control
  | [] => fun control => control
  | op :: rest => if op = 0xED#8 then edControlAfter (rest.headD 0) else controlAfter op

theorem codeProfile_control (x : Option IndexReg) (code : List Byte) :
    (codeProfile x code).control = controlOf code := by
  cases code with
  | nil => rfl
  | cons op rest =>
      by_cases ed : op = 0xED#8
      · cases x <;> simp only [codeProfile, indexedRest, plainRest, controlOf, if_pos ed] <;> rfl
      · cases x <;> simp only [codeProfile, indexedRest, plainRest, controlOf, if_neg ed] <;> rfl

theorem instructionProfile_control (bytes : List Byte) :
    (instructionProfile bytes).control = controlOf (bytes.dropWhile isIndexPrefix) := by
  obtain ⟨length, opcodes, same⟩ := instructionProfile_code bytes
  rw [same]
  exact codeProfile_control _ _

end Z80f
