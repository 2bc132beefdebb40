import Z80f.Arithmetic.Binary
import Z80f.Decimal.Adjust
import Z80f.Encoding.Consumption
import Z80f.Program.Loop
import Mathlib.Data.List.GetD

/-! # Arithmetic on numbers in memory

The loop that adds or subtracts two numbers of any length, byte by byte from the
least significant one on: HL at the one number, DE at the other and at the
result, B at the length.  What it does to one byte is a cell of `scan`, so that
what is known of such chains holds of the memory. -/

set_option autoImplicit false

namespace Z80f

open Interaction Stateful Z80M Flags Positional

/-- `bytes` from `base` on, over what is there. -/
def overlay (memory : Memory) (base : Word) (bytes : List Byte) : Memory :=
  fun address => bytes.getD (address - base).toNat (memory address)

section Bytes
variable {memory : Memory} {base : Word} {bytes : List Byte}

theorem overlay_outside {address : Word}
    (outside : ∀ i < bytes.length, address ≠ base + BitVec.ofNat 16 i) :
    overlay memory base bytes address = memory address := by
  unfold overlay
  apply List.getD_eq_default
  by_contra inside
  have bound := (address - base).isLt
  exact outside (address - base).toNat (by omega) (by bv_omega)

theorem overlay_snoc (room : bytes.length < 65536) (v : Byte) :
    Function.update (overlay memory base bytes) (base + BitVec.ofNat 16 bytes.length) v =
      overlay memory base (bytes ++ [v]) := by
  funext address
  unfold overlay
  by_cases here : address = base + BitVec.ofNat 16 bytes.length
  · have place : (address - base).toNat = bytes.length := by bv_omega
    rw [here, Function.update_self, ← here, place, List.getD_append_right _ _ _ _ le_rfl]
    simp
  · have elsewhere : (address - base).toNat ≠ bytes.length := by bv_omega
    rw [Function.update_of_ne here]
    rcases Nat.lt_or_gt_of_ne elsewhere with before | behind
    · rw [List.getD_append _ _ _ _ before]
    · rw [List.getD_eq_default _ _ behind.le, List.getD_eq_default]
      rw [List.length_append, List.length_singleton]
      omega

end Bytes

section Instructions
variable {Host : Type} {bus : RamBus Host} {pc : Word} {r : Registers} {memory : Memory}
  {s : Machine Host} (fuel : Nat) (at_ : At bus pc r memory s)
include at_

theorem At.loadDe (code : memory pc = 0x1A) :
    Leads (advance bus.toBus fuel) 7 (At bus (pc + 1) { r with a := memory r.de } memory) s := by
  refine (at_.step fuel code rfl ?_ ?_ ?_).leads
  · rfl
  · rfl
  rintro cpu ⟨refresh, wz, q, ei, shown⟩
  have arm : dispatchOpcode 0x1A = (do
      opcodePrelude 0x1A; loadA (← getRegs).de; return 7) := rfl
  rw [arm]
  simp only [loadA, holds_bind, holds_opcodePrelude, holds_getRegs, holds_read8, shown,
    holds_modifyRegs, holds_pure]
  rintro v ⟨read, -⟩
  refine ⟨trivial, ⟨refresh, r.de + 1, q, ei, ?_⟩, rfl⟩
  rw [read]
  rfl

theorem At.storeDe (code : memory pc = 0x12) :
    Leads (advance bus.toBus fuel) 7
      (At bus (pc + 1) r (Function.update memory r.de r.a)) s := by
  refine (at_.step fuel code rfl ?_ ?_ ?_).leads
  · rfl
  · rfl
  rintro cpu ⟨refresh, wz, q, ei, shown⟩
  have arm : dispatchOpcode 0x12 = (do
      opcodePrelude 0x12; storeA (← getRegs).de; return 7) := rfl
  rw [arm]
  simp only [storeA, holds_bind, holds_opcodePrelude, holds_getRegs, holds_write8, shown,
    holds_modifyRegs, holds_pure]
  exact fun _ => ⟨trivial, ⟨refresh, _, q, ei, rfl⟩, rfl⟩

theorem At.incHl (code : memory pc = 0x23) :
    Leads (advance bus.toBus fuel) 6 (At bus (pc + 1) (r.setHl (r.hl + 1)) memory) s := by
  refine (at_.step fuel code rfl ?_ ?_ ?_).leads
  · rfl
  · rfl
  rintro cpu ⟨refresh, wz, q, ei, shown⟩
  have arm : dispatchOpcode 0x23 = (do
      opcodePrelude 0x23; modifyRegs (fun r => r.setHl (r.hl + 1)); return 6) := rfl
  rw [arm]
  simp only [holds_bind, holds_opcodePrelude, holds_modifyRegs, shown, holds_pure]
  exact fun _ => ⟨trivial, ⟨refresh, wz, q, ei, rfl⟩, rfl⟩

theorem At.incDe (code : memory pc = 0x13) :
    Leads (advance bus.toBus fuel) 6 (At bus (pc + 1) (r.setDe (r.de + 1)) memory) s := by
  refine (at_.step fuel code rfl ?_ ?_ ?_).leads
  · rfl
  · rfl
  rintro cpu ⟨refresh, wz, q, ei, shown⟩
  have arm : dispatchOpcode 0x13 = (do
      opcodePrelude 0x13; modifyRegs (fun r => r.setDe (r.de + 1)); return 6) := rfl
  rw [arm]
  simp only [holds_bind, holds_opcodePrelude, holds_modifyRegs, shown, holds_pure]
  exact fun _ => ⟨trivial, ⟨refresh, wz, q, ei, rfl⟩, rfl⟩

theorem At.daa (code : memory pc = 0x27) :
    Leads (advance bus.toBus fuel) 4 (At bus (pc + 1)
      { r with a := daaResult r.a r.flags, flags := daaFlags r.a r.flags } memory) s := by
  refine (at_.step fuel code rfl ?_ ?_ ?_).leads
  · rfl
  · rfl
  rintro cpu ⟨refresh, wz, q, ei, shown⟩
  have arm : dispatchOpcode 0x27 = (do opcodePrelude 0x27; aluDaa; return 4) := rfl
  rw [arm]
  simp only [holds_bind, holds_opcodePrelude, holds_aluDaa, Cpu.flagged, shown, holds_pure]
  exact fun _ => ⟨trivial, ⟨refresh, wz, q, ei, rfl⟩, rfl⟩

end Instructions

inductive Operation where
  | adc | sbc
deriving DecidableEq

namespace Operation

def opcode : Operation → Byte
  | .adc => 0x8E
  | .sbc => 0x9E

def byte : Operation → Byte × Byte → Byte → Byte × Byte
  | .adc => adcByte
  | .sbc => sbcByte

def packedByte (operation : Operation) (pair : Byte × Byte) (flags : Byte) : Byte × Byte :=
  let (a, flags) := operation.byte pair flags
  (daaResult a flags, daaFlags a flags)

end Operation

theorem At.operate {Host : Type} {bus : RamBus Host} {pc : Word} {r : Registers}
    {memory : Memory} {s : Machine Host} (fuel : Nat) (at_ : At bus pc r memory s)
    (operation : Operation) (code : memory pc = operation.opcode) :
    Leads (advance bus.toBus fuel) 7 (At bus (pc + 1)
      { r with
        a := (operation.byte (r.a, memory r.hl) r.flags).1
        flags := (operation.byte (r.a, memory r.hl) r.flags).2 } memory) s := by
  refine (at_.step fuel code (by cases operation <;> rfl) ?_ ?_ ?_).leads
  · rfl
  · rfl
  rintro cpu ⟨refresh, wz, q, ei, shown⟩
  cases operation with
  | adc =>
      have arm : dispatchOpcode 0x8E = (do
          opcodePrelude 0x8E; let v ← read8 (← getRegs).hl; aluAdd v true; return 7) := rfl
      rw [Operation.opcode, arm]
      simp only [holds_bind, holds_opcodePrelude, holds_getRegs, holds_read8, holds_aluAdd,
        Cpu.flagged, shown, holds_pure]
      rintro v ⟨read, -⟩
      refine ⟨trivial, ⟨refresh, wz, q, ei, ?_⟩, rfl⟩
      rw [read]
      rfl
  | sbc =>
      have arm : dispatchOpcode 0x9E = (do
          opcodePrelude 0x9E; let v ← read8 (← getRegs).hl; aluSub v true; return 7) := rfl
      rw [Operation.opcode, arm]
      simp only [holds_bind, holds_opcodePrelude, holds_getRegs, holds_read8, holds_aluSub,
        Cpu.flagged, shown, holds_pure]
      rintro v ⟨read, -⟩
      refine ⟨trivial, ⟨refresh, wz, q, ei, ?_⟩, rfl⟩
      rw [read]
      rfl

/-- `code` makes the byte and the flags of `cell` from A and the byte at HL. -/
def Computes {Host : Type} (bus : RamBus Host) (fuel : Nat) (code : List Byte) (cost : Int)
    (cell : Byte × Byte → Byte → Byte × Byte) : Prop :=
  ∀ pc r memory s, At bus pc r memory s → CodeAt memory pc code →
    Leads (advance bus.toBus fuel) cost (At bus (pc + BitVec.ofNat 16 code.length)
      { r with
        a := (cell (r.a, memory r.hl) r.flags).1
        flags := (cell (r.a, memory r.hl) r.flags).2 } memory) s

section Cells
variable {Host : Type} (bus : RamBus Host) (fuel : Nat) (operation : Operation)

theorem computes_byte : Computes bus fuel [operation.opcode] 7 operation.byte := by
  intro pc r memory s at_ code
  exact at_.operate fuel operation code.1

theorem computes_packedByte :
    Computes bus fuel [operation.opcode, 0x27] (7 + 4) operation.packedByte := by
  rintro pc r memory s at_ ⟨first, second, -⟩
  apply (at_.operate fuel operation first).seq
  intro t operated
  apply (operated.daa fuel second).mono
  intro u adjusted
  have behind : pc + 1 + 1 = pc + BitVec.ofNat 16 2 := by bv_omega
  rw [behind] at adjusted
  exact adjusted

end Cells

/-! ## The loop -/

/-- `LD A,(DE)`, the operation, `LD (DE),A`, `INC HL`, `INC DE` and DJNZ. -/
def passCode (middle : List Byte) (e : Byte) : List Byte :=
  [0x1A] ++ (middle ++ [0x12, 0x23, 0x13, 0x10, e])

def Registers.afterBytes (r : Registers) (k : Nat) (a flags : Byte) : Registers :=
  { (r.setDe (r.de + BitVec.ofNat 16 k)).setHl (r.hl + BitVec.ofNat 16 k) with
    a := a
    b := r.b - BitVec.ofNat 8 k
    flags := flags }

def columns (memory : Memory) (r : Registers) (n : Nat) : List (Byte × Byte) :=
  (bytesAt memory r.de n).zip (bytesAt memory r.hl n)

/-- A loop over `n` bytes in memory: the result is stored neither into the loop
nor into bytes at HL that are still to be read. -/
structure Pass (memory : Memory) (r : Registers) (middle : List Byte) (e : Byte) (n : Nat) :
    Prop where
  code : CodeAt memory r.pc (passCode middle e)
  sparesCode : ∀ i < n, ∀ j < (passCode middle e).length,
    r.pc + BitVec.ofNat 16 j ≠ r.de + BitVec.ofNat 16 i
  behind : ∀ i < n, ∀ j < i, r.hl + BitVec.ofNat 16 i ≠ r.de + BitVec.ofNat 16 j

section Passed
variable (r : Registers) (k : Nat) (a flags : Byte)

theorem afterBytes_de : (r.afterBytes k a flags).de = r.de + BitVec.ofNat 16 k := word_hi_lo _

theorem afterBytes_hl : (r.afterBytes k a flags).hl = r.hl + BitVec.ofNat 16 k := word_hi_lo _

theorem afterBytes_zero : r.afterBytes 0 r.a r.flags = r := by
  unfold Registers.afterBytes
  rw [BitVec.add_zero, BitVec.add_zero, BitVec.sub_zero, Registers.de, Registers.hl]
  simp only [Registers.setDe, Registers.setHl, hi_word, lo_word]

theorem afterBytes_succ (digit flags' : Byte) :
    let r' := { r.afterBytes k a flags with a := digit, flags := flags' }
    let moved := (r'.setHl (r'.hl + 1)).setDe ((r'.setHl (r'.hl + 1)).de + 1)
    { moved with b := moved.b - 1 } = r.afterBytes (k + 1) digit flags' := by
  have next (v : Word) : v + BitVec.ofNat 16 k + 1 = v + BitVec.ofNat 16 (k + 1) := by bv_omega
  have b : r.b - BitVec.ofNat 8 k - 1 = r.b - BitVec.ofNat 8 (k + 1) := by bv_omega
  simp only [Registers.afterBytes, Registers.setHl, Registers.setDe, Registers.hl, Registers.de,
    word_hi_lo, next, b]

theorem columns_succ (memory : Memory) : columns memory r (k + 1) = columns memory r k ++
    [(memory (r.de + BitVec.ofNat 16 k), memory (r.hl + BitVec.ofNat 16 k))] := by
  rw [columns, bytesAt_last, bytesAt_last, List.zip_append]
  · rfl
  · simp only [bytesAt, List.length_map]

end Passed

section Loop
variable {Host : Type} {bus : RamBus Host} {fuel : Nat} {middle : List Byte} {cost : Int}
  {cell : Byte × Byte → Byte → Byte × Byte} {memory : Memory} {r : Registers} {e : Byte} {n : Nat}

/-- The invariant: `k` bytes are stored, and HL, DE and F are ready for the next. -/
def Passing (cell : Byte × Byte → Byte → Byte × Byte) (memory : Memory) (r : Registers) (k : Nat)
    (r' : Registers) (memory' : Memory) : Prop :=
  let out := scan cell (columns memory r k) r.flags
  (∃ a, r' = r.afterBytes k a out.2) ∧ memory' = overlay memory r.de out.1

variable (cell memory r) in
theorem passed_length (k : Nat) :
    (scan cell (columns memory r k) r.flags).1.length = k := by
  rw [scan_length, columns, List.length_zip]
  simp only [bytesAt, List.length_map, List.length_range, Nat.min_self]

variable (cell memory r) in
theorem passed_next (k : Nat) :
    let out := scan cell (columns memory r k) r.flags
    let pair := (memory (r.de + BitVec.ofNat 16 k), memory (r.hl + BitVec.ofNat 16 k))
    scan cell (columns memory r (k + 1)) r.flags =
      (out.1 ++ [(cell pair out.2).1], (cell pair out.2).2) := by
  rw [columns_succ, scan_append]
  rfl

variable (cell) in
theorem Pass.codeAt (pass : Pass memory r middle e n) {k : Nat} (enough : k ≤ n) :
    CodeAt (overlay memory r.de (scan cell (columns memory r k) r.flags).1) r.pc
      (passCode middle e) := by
  apply pass.code.of_same
  intro j before
  apply overlay_outside
  intro i stored
  rw [passed_length] at stored
  exact pass.sparesCode i (by omega) j before

variable (cell) in
theorem Pass.reads (pass : Pass memory r middle e n) (few : n ≤ 256) {k : Nat} (before : k < n) :
    let now := overlay memory r.de (scan cell (columns memory r k) r.flags).1
    now (r.de + BitVec.ofNat 16 k) = memory (r.de + BitVec.ofNat 16 k) ∧
      now (r.hl + BitVec.ofNat 16 k) = memory (r.hl + BitVec.ofNat 16 k) := by
  constructor
  · apply overlay_outside
    intro i stored
    rw [passed_length] at stored
    intro same
    bv_omega
  · apply overlay_outside
    intro i stored
    rw [passed_length] at stored
    exact pass.behind k before i stored

theorem Pass.round (pass : Pass memory r middle e n) (few : n ≤ 256)
    (computes : Computes bus fuel middle cost cell) {k : Nat} (before : k < n) :
    LoopBody bus fuel r.pc (r.pc + 1 + BitVec.ofNat 16 middle.length + 1 + 1 + 1) e
      (Passing cell memory r) (fun _ => 7 + cost + 7 + 6 + 6) k := by
  rintro _ _ s at_ ⟨⟨a, rfl⟩, rfl⟩
  obtain ⟨readDe, readHl⟩ := pass.reads cell few before
  obtain ⟨load, restNow⟩ := codeAt_append.mp (pass.codeAt cell (Nat.le_of_lt before))
  obtain ⟨-, restLater⟩ := codeAt_append.mp (pass.codeAt cell before)
  obtain ⟨compute, store, -⟩ := codeAt_append.mp restNow
  obtain ⟨-, -, incHl, incDe, djnz, operand, -⟩ := codeAt_append.mp restLater
  have next := passed_next cell memory r k
  have length := passed_length cell memory r k
  generalize scan cell (columns memory r k) r.flags = out at *
  generalize pairIs : (memory (r.de + BitVec.ofNat 16 k), memory (r.hl + BitVec.ofNat 16 k)) =
    pair at next
  have here : (overlay memory r.de out.1 (r.afterBytes k a out.2).de,
      overlay memory r.de out.1 (r.afterBytes k a out.2).hl) = pair := by
    rw [afterBytes_de, afterBytes_hl, readDe, readHl, pairIs]
  have computed : Leads (advance bus.toBus fuel) (7 + cost)
      (At bus (r.pc + 1 + BitVec.ofNat 16 middle.length)
        { r.afterBytes k a out.2 with a := (cell pair out.2).1, flags := (cell pair out.2).2 }
        (overlay memory r.de out.1)) s := by
    apply (at_.loadDe fuel load.1).seq
    intro t loaded
    rw [← here]
    exact computes _ _ _ t loaded compute
  have kept : Leads (advance bus.toBus fuel) (7 + cost + 7)
      (At bus (r.pc + 1 + BitVec.ofNat 16 middle.length + 1)
        { r.afterBytes k a out.2 with a := (cell pair out.2).1, flags := (cell pair out.2).2 }
        (overlay memory r.de (out.1 ++ [(cell pair out.2).1]))) s := by
    apply computed.seq
    intro t now
    have place : r.de + BitVec.ofNat 16 k = (r.afterBytes k a out.2).de :=
      (afterBytes_de r k a out.2).symm
    rw [← overlay_snoc (by omega), length, place]
    exact now.storeDe fuel store
  rw [next] at incHl incDe djnz operand
  have moved := (kept.seq fun t now => now.incHl fuel incHl).seq fun t now =>
    now.incDe fuel incDe
  apply moved.mono
  intro t now
  refine ⟨_, _, now, rfl, djnz, operand, ⟨(cell pair out.2).1, ?_⟩, ?_⟩
  · rw [next]
    exact afterBytes_succ r k a out.2 _ _
  · rw [next]

theorem Pass.loop (pass : Pass memory r middle e n) (positive : 1 ≤ n) (few : n ≤ 256)
    (back : BitVec.ofInt 16 e.toInt = -BitVec.ofNat 16 (middle.length + 6))
    (computes : Computes bus fuel middle cost cell) {s : Machine Host}
    (at_ : At bus r.pc r memory s) (left : r.b = BitVec.ofNat 8 n) :
    let out := scan cell (columns memory r n) r.flags
    Leads (advance bus.toBus fuel) ((cost + 39) * n - 5) (fun t => ∃ a,
      At bus (r.pc + BitVec.ofNat 16 (middle.length + 6)) (r.afterBytes n a out.2)
        (overlay memory r.de out.1) t) s := by
  have ends : r.pc + 1 + BitVec.ofNat 16 middle.length + 1 + 1 + 1 + 1 + 1 =
      r.pc + BitVec.ofNat 16 (middle.length + 6) := by
    rw [BitVec.ofNat_add]
    generalize BitVec.ofNat 16 middle.length = length
    bv_omega
  have home : r.pc + 1 + BitVec.ofNat 16 middle.length + 1 + 1 + 1 + 1 + 1 +
      BitVec.ofInt 16 e.toInt = r.pc := by
    rw [ends, back, BitVec.add_assoc, BitVec.add_right_neg, BitVec.add_zero]
  have looped := at_.djnz_loop fuel home positive few
    (fun k before => pass.round few computes before) left ⟨⟨r.a, (afterBytes_zero r).symm⟩, rfl⟩
  have total : ∑ k ∈ Finset.range n, (7 + cost + 7 + 6 + 6) + 13 * (n - 1 : Int) + 8 =
      (cost + 39) * n - 5 := by
    rw [Finset.sum_const, Finset.card_range, nsmul_eq_mul]
    ring
  rw [total, ends] at looped
  apply looped.mono
  rintro t ⟨_, _, now, -, ⟨a, rfl⟩, rfl⟩
  exact ⟨a, now⟩

end Loop

/-! ## Binary and packed decimal numbers -/

inductive Numeral where
  | binary | packed
deriving DecidableEq

namespace Numeral

def base : Numeral → Nat
  | .binary => 256
  | .packed => 100

def value : Numeral → Byte → Nat
  | .binary => BitVec.toNat
  | .packed => packedValue

def valid : Numeral → Byte → Prop
  | .binary => fun _ => True
  | .packed => isPacked

instance (numeral : Numeral) (b : Byte) : Decidable (numeral.valid b) :=
  match numeral with
  | .binary => isTrue trivial
  | .packed => inferInstanceAs (Decidable (isPacked b))

def code (operation : Operation) : Numeral → List Byte
  | .binary => [operation.opcode]
  | .packed => [operation.opcode, 0x27]

def cost : Numeral → Int
  | .binary => 7
  | .packed => 11

def back : Numeral → Byte
  | .binary => 0xF9
  | .packed => 0xF8

def cell (operation : Operation) : Numeral → Byte × Byte → Byte → Byte × Byte
  | .binary => operation.byte
  | .packed => operation.packedByte

/-- What the carry alone lets see of a cell. -/
def digit : Numeral → Operation → Byte → Byte → Bool → Byte × Bool
  | .binary, .adc => adcDigit
  | .binary, .sbc => sbcDigit
  | .packed, .adc => adcDaa
  | .packed, .sbc => sbcDaa

theorem computes {Host : Type} (bus : RamBus Host) (fuel : Nat) (numeral : Numeral)
    (operation : Operation) :
    Computes bus fuel (numeral.code operation) numeral.cost (numeral.cell operation) := by
  cases numeral with
  | binary => exact computes_byte bus fuel operation
  | packed => exact computes_packedByte bus fuel operation

theorem adds (numeral : Numeral) :
    AddsDigit numeral.base numeral.value numeral.valid (numeral.digit .adc) := by
  cases numeral with
  | binary => exact adcDigit_adds
  | packed => exact adcDaa_adds

theorem subtracts (numeral : Numeral) :
    SubtractsDigit numeral.base numeral.value numeral.valid (numeral.digit .sbc) := by
  cases numeral with
  | binary => exact sbcDigit_subtracts
  | packed => exact sbcDaa_subtracts

end Numeral

end Z80f
