import Z80f.Arithmetic.Binary
import Z80f.Encoding.Consumption
import Mathlib.Data.List.Nodup

/-! # Shifts of multi-byte numbers

The carry takes one bit from byte to byte; RLD and RRD take a digit through the
low nibble of A.  A shift upward multiplies, a shift downward divides. -/

set_option autoImplicit false

namespace Z80f

open Interaction Stateful Z80M Flags Positional

def rlByte (v : Byte) (c : Bool) : Byte × Bool :=
  ((v <<< 1) ||| (if c then 1#8 else 0#8), (v >>> 7) &&& 1#8 != 0)

def rrByte (v : Byte) (c : Bool) : Byte × Bool :=
  ((v >>> 1) ||| ((if c then 1#8 else 0#8) <<< 7), v &&& 1#8 != 0)

theorem carry_shifted (r c : Byte) : carry (orIf (c != 0) cf (sz53pOf r)) = (c != 0) := by
  simp [carry_bit, sz53pOf]

section Helpers
variable (v : Byte) (cpu : Cpu)

theorem cbRl_byte : (cbRl v).Holds (fun result next _ =>
    (result, carry next.regs.flags) = rlByte v (carry cpu.regs.flags)) cpu :=
  congrArg (Prod.mk _) (carry_shifted _ _)

theorem cbRr_byte : (cbRr v).Holds (fun result next _ =>
    (result, carry next.regs.flags) = rrByte v (carry cpu.regs.flags)) cpu :=
  congrArg (Prod.mk _) (carry_shifted _ _)

theorem cbSla_byte : (cbSla v).Holds (fun result next _ =>
    (result, carry next.regs.flags) = rlByte v false) cpu :=
  congrArg₂ Prod.mk BitVec.or_zero.symm (carry_shifted _ _)

theorem cbSrl_byte : (cbSrl v).Holds (fun result next _ =>
    (result, carry next.regs.flags) = rrByte v false) cpu :=
  congrArg₂ Prod.mk BitVec.or_zero.symm (carry_shifted _ _)

theorem cbSra_byte : (cbSra v).Holds (fun result next _ =>
    (result, carry next.regs.flags) = rrByte v v.msb) cpu := by
  have sign : v &&& 0x80#8 = (if v.msb then 1#8 else 0#8) <<< 7 := by
    revert v
    decide
  refine congrArg₂ Prod.mk ?_ (carry_shifted _ _)
  rw [sign]

end Helpers

theorem rlByte_doubles : MultipliesDigit 256 2 BitVec.toNat Bool.toNat rlByte := by
  unfold MultipliesDigit rlByte
  decide

theorem rrByte_halves : DividesDigit 256 2 BitVec.toNat Bool.toNat rrByte := by
  unfold DividesDigit rrByte
  decide

/-- One instruction for the first byte, another for the others. -/
def leadingChain (lead next : Byte → Z80M Byte) : List Byte → Z80M (List Byte)
  | [] => return []
  | first :: rest => do
      let result ← lead first
      let results ← byteChain next rest
      return result :: results

theorem leadingChain_scans {lead next : Byte → Z80M Byte} {cell : Byte → Bool → Byte × Bool}
    (start : Byte → Bool)
    (leads : ∀ v cpu, (lead v).Holds (fun result after _ =>
      (result, carry after.regs.flags) = cell v (start v)) cpu)
    (nexts : ∀ v cpu, (next v).Holds (fun result after _ =>
      (result, carry after.regs.flags) = cell v (carry cpu.regs.flags)) cpu)
    (first : Byte) (rest : List Byte) (cpu : Cpu) :
    (leadingChain lead next (first :: rest)).Holds (fun results after _ =>
      (results, carry after.regs.flags) = scan cell (first :: rest) (start first)) cpu := by
  rw [leadingChain, holds_bind]
  apply (leads first cpu).mono
  intro result middle _ cellOut
  rw [holds_bind]
  apply (byteChain_scans (fun cpu => carry cpu.regs.flags) nexts rest middle).mono
  intro results last _ scanOut
  rw [holds_pure, scan, ← cellOut]
  dsimp only
  rw [← scanOut]

section Shifts
variable {Host : Type} (bus : Bus Host) (xs : List Byte) (nonempty : xs ≠ []) (s : Machine Host)
include nonempty

theorem shift_up :
    let ran := exec bus (leadingChain cbSla cbRl xs) s
    ran.value.length = xs.length ∧
      littleEndian ran.value = 2 * littleEndian xs % 256 ^ xs.length ∧
      (carry ran.machine.z80.regs.flags).toNat = 2 * littleEndian xs / 256 ^ xs.length := by
  intro ran
  obtain ⟨first, rest, rfl⟩ := List.exists_cons_of_ne_nil nonempty
  have scans : (ran.value, carry ran.machine.z80.regs.flags) = scan rlByte (first :: rest) false :=
    Holds.exec bus s
      (leadingChain_scans (fun _ => false) cbSla_byte cbRl_byte first rest s.z80.toCpu)
  obtain ⟨product, shifted⟩ := rlByte_doubles.scan_mod (by decide) (fun d => d.isLt)
    (first :: rest) false
  refine ⟨?_, ?_, ?_⟩
  · exact (congrArg (List.length ∘ Prod.fst) scans).trans (scan_length _ _ _)
  · exact (congrArg (littleEndian ∘ Prod.fst) scans).trans product
  · exact (congrArg (Bool.toNat ∘ Prod.snd) scans).trans shifted

/-- What both shifts downward do; `start` is the bit that comes in. -/
theorem shift_down {lead : Byte → Z80M Byte} (start : Byte → Bool)
    (leads : ∀ v cpu, (lead v).Holds (fun result after _ =>
      (result, carry after.regs.flags) = rrByte v (start v)) cpu) :
    let ran := exec bus (leadingChain lead cbRr xs.reverse) s
    ran.value.length = xs.length ∧
      2 * littleEndian ran.value.reverse + (carry ran.machine.z80.regs.flags).toNat =
        littleEndian xs + 256 ^ xs.length * (start (xs.getLast nonempty)).toNat := by
  intro ran
  obtain ⟨low, top, rfl⟩ := (List.eq_nil_or_concat' xs).resolve_left nonempty
  have downward : (low ++ [top]).reverse = top :: low.reverse := by simp
  have scans : (ran.value, carry ran.machine.z80.regs.flags) =
      scan rrByte (low ++ [top]).reverse (start top) := by
    simp only [ran, downward]
    exact Holds.exec bus s
      (leadingChain_scans start leads cbRr_byte top low.reverse s.z80.toCpu)
  have value : ran.value = (scan rrByte (low ++ [top]).reverse (start top)).1 :=
    congrArg Prod.fst scans
  have out : carry ran.machine.z80.regs.flags =
    (scan rrByte (low ++ [top]).reverse (start top)).2 := congrArg Prod.snd scans
  have balance := rrByte_halves.balance (low ++ [top]).reverse (start top)
  rw [List.reverse_reverse, List.length_reverse] at balance
  rw [List.getLast_concat, value, out]
  refine ⟨?_, balance⟩
  rw [scan_length, List.length_reverse]

theorem shift_down_logical :
    let ran := exec bus (leadingChain cbSrl cbRr xs.reverse) s
    ran.value.length = xs.length ∧
      littleEndian ran.value.reverse = littleEndian xs / 2 ∧
      (carry ran.machine.z80.regs.flags).toNat = littleEndian xs % 2 := by
  obtain ⟨length, balance⟩ := shift_down bus xs nonempty s (fun _ => false) cbSrl_byte
  have bit := Bool.toNat_le
    (carry (exec bus (leadingChain cbSrl cbRr xs.reverse) s).machine.z80.regs.flags)
  rw [Bool.toNat_false, Nat.mul_zero, Nat.add_zero] at balance
  refine ⟨length, ?_, ?_⟩
  · omega
  · omega

theorem shift_down_arithmetic :
    let ran := exec bus (leadingChain cbSra cbRr xs.reverse) s
    ran.value.length = xs.length ∧
      twosComplement ran.value.reverse = twosComplement xs / 2 ∧
      (carry ran.machine.z80.regs.flags).toNat = littleEndian xs % 2 := by
  obtain ⟨length, balance⟩ := shift_down bus xs nonempty s BitVec.msb cbSra_byte
  have bit := Bool.toNat_le
    (carry (exec bus (leadingChain cbSra cbRr xs.reverse) s).machine.z80.regs.flags)
  obtain ⟨low, top, rfl⟩ := (List.eq_nil_or_concat' xs).resolve_left nonempty
  have fits := littleEndian_lt
    (exec bus (leadingChain cbSra cbRr (low ++ [top]).reverse) s).value.reverse
  rw [List.length_reverse, length, List.length_append, List.length_singleton,
    modulus_even] at fits
  rw [List.getLast_concat, @top_bit low top _ rfl, List.length_append, List.length_singleton,
    modulus_even] at balance
  dsimp only
  rw [top_signed top rfl, bmod_half (top_bound top rfl), twosComplement, List.length_reverse,
    length, List.length_append, List.length_singleton, modulus_even, bmod_half fits]
  refine ⟨rfl, ?_⟩
  by_cases negative : 128 * 256 ^ low.length ≤ littleEndian (low ++ [top])
  · rw [decide_eq_true negative, Bool.toNat_true] at balance
    rw [if_pos negative]
    constructor
    · split <;> omega
    · omega
  · rw [decide_eq_false negative, Bool.toNat_false] at balance
    rw [if_neg negative]
    constructor
    · split <;> omega
    · omega

end Shifts

def rldByte (m a : Byte) : Byte × Byte :=
  (((m &&& 0x0F#8) <<< 4) ||| (a &&& 0x0F#8), (a &&& 0xF0#8) ||| (m >>> 4))

def rrdByte (m a : Byte) : Byte × Byte :=
  (((a &&& 0x0F#8) <<< 4) ||| (m >>> 4), (a &&& 0xF0#8) ||| (m &&& 0x0F#8))

section Nibbles
variable (m a : Byte)

theorem join_nibbles : (((m &&& 0x0F#8) <<< 4) ||| (a &&& 0x0F#8)).toNat =
    m.toNat % 16 * 16 + a.toNat % 16 := by
  have nibble : ∀ b : Byte, (b &&& 0x0F#8).toNat = b.toNat % 16 := fun b =>
    (BitVec.toNat_and b 0x0F#8).trans (Nat.and_two_pow_sub_one_eq_mod _ 4)
  rw [BitVec.toNat_or, BitVec.toNat_shiftLeft, nibble, nibble, Nat.shiftLeft_eq]
  have fits : m.toNat % 16 * 2 ^ 4 % 2 ^ 8 = (m.toNat % 16) <<< 4 := by
    rw [Nat.shiftLeft_eq]
    omega
  rw [fits, ← Nat.shiftLeft_add_eq_or_of_lt (by omega), Nat.shiftLeft_eq]

theorem high_nibble : m >>> 4 = (m >>> 4) &&& 0x0F#8 := by
  revert m
  decide

theorem high_nibble_kept : a &&& 0xF0#8 = ((a >>> 4) &&& 0x0F#8) <<< 4 := by
  revert a
  decide

theorem toNat_high_nibble : (m >>> 4).toNat = m.toNat / 16 := by
  rw [BitVec.toNat_ushiftRight, Nat.shiftRight_eq_div_pow]

theorem rldByte_toNat : (rldByte m a).1.toNat = m.toNat % 16 * 16 + a.toNat % 16 ∧
    (rldByte m a).2.toNat = a.toNat / 16 * 16 + m.toNat / 16 := by
  have mBound := m.isLt
  have aBound := a.isLt
  refine ⟨join_nibbles m a, ?_⟩
  rw [rldByte, high_nibble m, high_nibble_kept a, join_nibbles, toNat_high_nibble,
    toNat_high_nibble]
  omega

theorem rrdByte_toNat : (rrdByte m a).1.toNat = a.toNat % 16 * 16 + m.toNat / 16 ∧
    (rrdByte m a).2.toNat = a.toNat / 16 * 16 + m.toNat % 16 := by
  have mBound := m.isLt
  have aBound := a.isLt
  rw [rrdByte, high_nibble m, high_nibble_kept a, join_nibbles, join_nibbles, toNat_high_nibble,
    toNat_high_nibble]
  omega

theorem rrdByte_rldByte : rrdByte (rldByte m a).1 (rldByte m a).2 = (m, a) := by
  have mBound := m.isLt
  have aBound := a.isLt
  obtain ⟨memory, accumulator⟩ := rldByte_toNat m a
  obtain ⟨memoryBack, accumulatorBack⟩ := rrdByte_toNat (rldByte m a).1 (rldByte m a).2
  refine Prod.ext (BitVec.eq_of_toNat_eq ?_) (BitVec.eq_of_toNat_eq ?_)
  · rw [memoryBack, memory, accumulator]
    change _ = m.toNat
    omega
  · rw [accumulatorBack, memory, accumulator]
    change _ = a.toNat
    omega

end Nibbles

def lowNibble (a : Byte) : Nat := a.toNat % 16

theorem rldByte_multiplies : MultipliesDigit 256 16 BitVec.toNat lowNibble rldByte := by
  intro m a
  have mBound := m.isLt
  obtain ⟨memory, accumulator⟩ := rldByte_toNat m a
  rw [lowNibble, lowNibble, memory, accumulator]
  omega

theorem rldByte_lowNibble (m a : Byte) : lowNibble (rldByte m a).2 = m.toNat / 16 := by
  have mBound := m.isLt
  rw [lowNibble, (rldByte_toNat m a).2]
  omega

/-! ## Digits in memory -/

def rotateByte (rotate : Z80M Unit) (address : Word) : Z80M Unit := do
  modifyRegs (Registers.setHl address)
  rotate

def rotateAt (rotate : Z80M Unit) : List Word → Z80M Unit
  | [] => return ()
  | address :: rest => do
      rotateByte rotate address
      rotateAt rotate rest

section Rotate
variable {Host : Type} (bus : RamBus Host) (newM newA : Byte → Byte → Byte)

theorem rotateDigit_path (address : Word) (cpu : Cpu) :
    (rotateByte (rotateDigit newM newA) address).Holds (fun _ next path =>
      ∃ m, path = [cycle address 3, readOf .data address m] ++
          (idleCycles address 4 ++ [cycle address 3, writeOf address (newM cpu.regs.a m)]) ∧
        next.regs.a = newA cpu.regs.a m ∧
        carry next.regs.flags = carry cpu.regs.flags) cpu := by
  have kept : ∀ f r : Byte, carry ((f &&& cf) ||| sz53pOf r) = carry f := by
    intro f r
    simp [carry_bit, sz53pOf]
  simp only [rotateByte, rotateDigit, Registers.setHl, Registers.hl, word_hi_lo, kept, holds_bind,
    holds_modifyRegs, holds_getRegs, holds_read8, holds_idle, holds_write8, holds_writeFlags]
  intro m
  exact ⟨m, by simp, rfl, trivial⟩

theorem RamBus.exec_rotateDigit (address : Word) (s : Machine Host) :
    let ran := exec bus.toBus (rotateByte (rotateDigit newM newA) address) s
    let m := bus.memory s.host address
    bus.memory ran.machine.host =
        Function.update (bus.memory s.host) address (newM s.z80.regs.a m) ∧
      ran.machine.z80.regs.a = newA s.z80.regs.a m ∧
      carry ran.machine.z80.regs.flags = carry s.z80.regs.flags := by
  intro ran m
  obtain ⟨read, path, accumulator, carried⟩ :=
    Holds.exec bus.toBus s (rotateDigit_path newM newA address s.z80.toCpu)
  obtain ⟨reads, writes⟩ := bus.exec_replays (rotateByte (rotateDigit newM newA) address) s
  rw [path] at reads writes
  have readIs : read = m := by simpa using reads
  subst readIs
  refine ⟨?_, accumulator, carried⟩
  simpa using writes

variable (cell : Byte → Byte → Byte × Byte) (cells : ∀ m a, cell m a = (newM a m, newA a m))
include cells

theorem RamBus.exec_rotateAt (addresses : List Word) (distinct : addresses.Nodup)
    (s : Machine Host) :
    let ran := exec bus.toBus (rotateAt (rotateDigit newM newA) addresses) s
    let out := scan cell (addresses.map (bus.memory s.host)) s.z80.regs.a
    addresses.map (bus.memory ran.machine.host) = out.1 ∧ ran.machine.z80.regs.a = out.2 ∧
      carry ran.machine.z80.regs.flags = carry s.z80.regs.flags ∧
      ∀ x, x ∉ addresses → bus.memory ran.machine.host x = bus.memory s.host x := by
  induction addresses generalizing s with
  | nil => exact ⟨rfl, rfl, rfl, fun _ _ => rfl⟩
  | cons address rest ih =>
      obtain ⟨fresh, distinctRest⟩ := List.nodup_cons.mp distinct
      obtain ⟨stored, accumulator, carried⟩ := bus.exec_rotateDigit newM newA address s
      obtain ⟨bytes, last, carriedRest, frame⟩ :=
        ih distinctRest (exec bus.toBus (rotateByte (rotateDigit newM newA) address) s).machine
      have others : rest.map (Function.update (bus.memory s.host) address
          (newM s.z80.regs.a (bus.memory s.host address))) = rest.map (bus.memory s.host) := by
        apply List.map_congr_left
        intro x member
        have apart : x ≠ address := by
          rintro rfl
          exact fresh member
        exact Function.update_of_ne apart _ _
      rw [stored, accumulator] at bytes last
      rw [others] at bytes last
      rw [carried] at carriedRest
      simp only [rotateAt, exec_bind, List.map_cons, scan, cells]
      refine ⟨?_, last, carriedRest, ?_⟩
      · rw [bytes, frame address fresh, stored, Function.update_self]
      · intro x outside
        rw [List.mem_cons, not_or] at outside
        obtain ⟨apart, later⟩ := outside
        rw [frame x later, stored, Function.update_of_ne apart]

end Rotate

def ascending (base : Word) (n : Nat) : List Word :=
  (List.range n).map fun k => base + BitVec.ofNat 16 k

theorem ascending_bytes (memory : Memory) (base : Word) (n : Nat) :
    (ascending base n).map memory = bytesAt memory base n := List.map_map

theorem ascending_nodup (base : Word) {n : Nat} (fits : n ≤ 65536) : (ascending base n).Nodup := by
  apply List.Nodup.map_on _ List.nodup_range
  intro j jIn k kIn same
  rw [List.mem_range] at jIn kIn
  have offsets := congrArg BitVec.toNat ((BitVec.add_right_inj base).mp same)
  rw [BitVec.toNat_ofNat, BitVec.toNat_ofNat] at offsets
  omega

section Digits
variable {Host : Type} (bus : RamBus Host) (base : Word) {n : Nat} (fits : n ≤ 65536)
  (s : Machine Host)
include fits

theorem rld_scan :
    let left := exec bus.toBus (rotateAt rld (ascending base n)) s
    let out := scan rldByte (bytesAt (bus.memory s.host) base n) s.z80.regs.a
    bytesAt (bus.memory left.machine.host) base n = out.1 ∧ left.machine.z80.regs.a = out.2 := by
  obtain ⟨bytes, accumulator, -⟩ := bus.exec_rotateAt _ _ rldByte (fun _ _ => rfl)
    (ascending base n) (ascending_nodup base fits) s
  rw [ascending_bytes, ascending_bytes] at bytes
  rw [ascending_bytes] at accumulator
  exact ⟨bytes, accumulator⟩

theorem rrd_scan :
    let right := exec bus.toBus (rotateAt rrd (ascending base n).reverse) s
    let out := scan rrdByte (bytesAt (bus.memory s.host) base n).reverse s.z80.regs.a
    (bytesAt (bus.memory right.machine.host) base n).reverse = out.1 ∧
      right.machine.z80.regs.a = out.2 := by
  obtain ⟨bytes, accumulator, -⟩ := bus.exec_rotateAt _ _ rrdByte (fun _ _ => rfl)
    (ascending base n).reverse (List.nodup_reverse.mpr (ascending_nodup base fits)) s
  rw [List.map_reverse, List.map_reverse, ascending_bytes, ascending_bytes] at bytes
  rw [List.map_reverse, ascending_bytes] at accumulator
  exact ⟨bytes, accumulator⟩

/-- The digit in A comes in below, and the top digit goes to A. -/
theorem rld_up (some : 0 < n) :
    let left := exec bus.toBus (rotateAt rld (ascending base n)) s
    littleEndian (bytesAt (bus.memory left.machine.host) base n) =
        (16 * littleEndian (bytesAt (bus.memory s.host) base n) + lowNibble s.z80.regs.a) %
          256 ^ n ∧
      lowNibble left.machine.z80.regs.a =
        (bus.memory s.host (base + BitVec.ofNat 16 (n - 1))).toNat / 16 := by
  obtain ⟨bytes, accumulator⟩ := rld_scan bus base fits s
  have product := (rldByte_multiplies.scan_mod (by decide) (fun d => d.isLt)
    (bytesAt (bus.memory s.host) base n) s.z80.regs.a).1
  dsimp only
  rw [bytes, accumulator]
  constructor
  · rw [bytesAt, List.length_map, List.length_range] at product
    exact product
  · obtain ⟨k, rfl⟩ := Nat.exists_eq_add_one.mpr some
    have last : bytesAt (bus.memory s.host) base (k + 1) = bytesAt (bus.memory s.host) base k ++
        [bus.memory s.host (base + BitVec.ofNat 16 k)] := by
      rw [bytesAt, List.range_succ, List.map_append]
      rfl
    rw [last, scan_append, Nat.add_sub_cancel]
    exact rldByte_lowNibble _ _

theorem rrd_undoes :
    let left := exec bus.toBus (rotateAt rld (ascending base n)) s
    let back := exec bus.toBus (rotateAt rrd (ascending base n).reverse) left.machine
    bytesAt (bus.memory back.machine.host) base n = bytesAt (bus.memory s.host) base n ∧
      back.machine.z80.regs.a = s.z80.regs.a := by
  intro left back
  obtain ⟨bytes, accumulator⟩ := rld_scan bus base fits s
  obtain ⟨bytesBack, accumulatorBack⟩ := rrd_scan bus base fits left.machine
  have undone := scan_undo rldByte rrdByte_rldByte (bytesAt (bus.memory s.host) base n)
    s.z80.regs.a
  rw [← bytes, ← accumulator] at undone
  rw [undone] at bytesBack accumulatorBack
  exact ⟨List.reverse_injective bytesBack, accumulatorBack⟩

end Digits

theorem high_digit_kept (a m : Byte) :
    ((a &&& 0xF0#8) ||| (m >>> 4)) >>> 4 = a >>> 4 ∧
      ((a &&& 0xF0#8) ||| (m &&& 0x0F#8)) >>> 4 = a >>> 4 := by
  have aBound := a.isLt
  have mBound := m.isLt
  have up := (rldByte_toNat m a).2
  have down := (rrdByte_toNat m a).2
  rw [rldByte] at up
  rw [rrdByte] at down
  refine ⟨BitVec.eq_of_toNat_eq ?_, BitVec.eq_of_toNat_eq ?_⟩
  · rw [toNat_high_nibble, toNat_high_nibble, up]
    omega
  · rw [toNat_high_nibble, toNat_high_nibble, down]
    omega

theorem rld_keeps (cpu : Cpu) : rld.Holds (fun _ next _ =>
    next.regs.a >>> 4 = cpu.regs.a >>> 4 ∧
      carry next.regs.flags = carry cpu.regs.flags) cpu := by
  simp [rld, rotateDigit, carry_bit, sz53pOf, (high_digit_kept cpu.regs.a _).1]

theorem rrd_keeps (cpu : Cpu) : rrd.Holds (fun _ next _ =>
    next.regs.a >>> 4 = cpu.regs.a >>> 4 ∧
      carry next.regs.flags = carry cpu.regs.flags) cpu := by
  simp [rrd, rotateDigit, carry_bit, sz53pOf, (high_digit_kept cpu.regs.a _).2]

/-- A number in memory of `n` bytes needs as many addresses. -/
theorem multi_byte_shift {Host : Type} (bus : RamBus Host) (xs : List Byte) (nonempty : xs ≠ [])
    (base : Word) (n : Nat) (some : 0 < n) (fits : n ≤ 65536) (s : Machine Host) :
    let x := littleEndian xs
    let up := exec bus.toBus (leadingChain cbSla cbRl xs) s
    let logical := exec bus.toBus (leadingChain cbSrl cbRr xs.reverse) s
    let arithmetic := exec bus.toBus (leadingChain cbSra cbRr xs.reverse) s
    let left := exec bus.toBus (rotateAt rld (ascending base n)) s
    let back := exec bus.toBus (rotateAt rrd (ascending base n).reverse) left.machine
    let digits := littleEndian (bytesAt (bus.memory s.host) base n)
    (up.value.length = xs.length ∧ littleEndian up.value = 2 * x % 256 ^ xs.length ∧
      (carry up.machine.z80.regs.flags).toNat = 2 * x / 256 ^ xs.length) ∧
    (logical.value.length = xs.length ∧ littleEndian logical.value.reverse = x / 2 ∧
      (carry logical.machine.z80.regs.flags).toNat = x % 2) ∧
    (arithmetic.value.length = xs.length ∧
      twosComplement arithmetic.value.reverse = twosComplement xs / 2 ∧
      (carry arithmetic.machine.z80.regs.flags).toNat = x % 2) ∧
    (littleEndian (bytesAt (bus.memory left.machine.host) base n) =
        (16 * digits + lowNibble s.z80.regs.a) % 256 ^ n ∧
      lowNibble left.machine.z80.regs.a =
        (bus.memory s.host (base + BitVec.ofNat 16 (n - 1))).toNat / 16) ∧
    (bytesAt (bus.memory back.machine.host) base n = bytesAt (bus.memory s.host) base n ∧
      back.machine.z80.regs.a = s.z80.regs.a) ∧
    ∀ rotate, rotate = rld ∨ rotate = rrd →
      let ran := exec bus.toBus rotate s
      ran.machine.z80.regs.a >>> 4 = s.z80.regs.a >>> 4 ∧
        carry ran.machine.z80.regs.flags = carry s.z80.regs.flags := by
  refine ⟨shift_up bus.toBus xs nonempty s, shift_down_logical bus.toBus xs nonempty s,
    shift_down_arithmetic bus.toBus xs nonempty s, rld_up bus base fits s some,
    rrd_undoes bus base fits s, ?_⟩
  intro rotate either
  rcases either with rfl | rfl
  · exact Holds.exec bus.toBus s (rld_keeps s.z80.toCpu)
  · exact Holds.exec bus.toBus s (rrd_keeps s.z80.toCpu)

/-- RLD on 0x12 0x34, with 5 in A. -/
theorem multi_byte_shift_two :
    let s : Machine Memory := { z80 := { regs := { a := 0x95 } }, host := programAt 0 [0x34, 0x12] 0 }
    littleEndian (bytesAt (exec flatRam.toBus (rotateAt rld (ascending 0 2)) s).machine.host 0 2) =
      0x2345 :=
  ((multi_byte_shift flatRam [0x34, 0x12] (by decide) 0 2 (by decide) (by decide)
    { z80 := { regs := { a := 0x95 } }, host := programAt 0 [0x34, 0x12] 0 }).2.2.2.1.1).trans
    (by decide)

end Z80f
