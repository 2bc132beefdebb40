import Z80f.Encoding.Opening
import Z80f.Encoding.StepCase

/-! # What an instruction does behind its opcode

The fetches up to the last opcode touch no data and cost 4 T for each prefix.
A relation on the rest, with its cost and its requests, holds of every
instruction once it holds of the two dispatchers. -/

set_option autoImplicit false

namespace Z80f

open Interaction Stateful Z80M

theorem lastIndex_prefixed (x : IndexReg) {op : Byte} (rest : List Byte)
    (isPrefix : isIndexPrefix op = true) :
    lastIndex x (op :: rest) = lastIndex (prefixReg op) rest := if_pos isPrefix

theorem lastIndex_last (x : IndexReg) {op : Byte} (rest : List Byte)
    (last : isIndexPrefix op = false) : lastIndex x (op :: rest) = x :=
  if_neg (Bool.eq_false_iff.mp last)

theorem noData_fetches (address : Word) (op : Byte) {tail : Path} (noData : NoData tail) :
    NoData (cycle address 4 :: readOf .fetch address op :: tail) := by
  rw [noData_cycle, noData_fetch]
  exact noData

/-- The register, the cost and the requests of the prefixes on `path`. -/
def Counted (x : IndexReg) (op : Byte) (t : Int) (found : Option (IndexReg × Byte × Int))
    (path : Path) : Prop :=
  ∀ x' last t', found = some (x', last, t') → NoData path ∧ ∀ tail,
    x' = lastIndex x (op :: fetchedBytes (path ++ tail)) ∧
      t' = t + 4 * prefixCount (op :: fetchedBytes (path ++ tail))

theorem counted_last (x : IndexReg) {op : Byte} (t : Int) (last : isIndexPrefix op = false) :
    Counted x op t (some (x, op, t)) [] := by
  rintro _ _ _ ⟨rfl, rfl, rfl⟩
  refine ⟨noData_nil, fun tail => ⟨(lastIndex_last x _ last).symm, ?_⟩⟩
  rw [prefixCount_last _ last]
  omega

theorem consumePrefixes_counted (fuel : Nat) (x : IndexReg) (op : Byte) (t : Int) (cpu : Cpu) :
    (consumePrefixes fuel x op t).Holds (fun found _ path => Counted x op t found path) cpu := by
  induction fuel generalizing x op t cpu with
  | zero =>
      by_cases more : isIndexPrefix op = true
      · simp [consumePrefixes, more, Counted]
      · simpa [consumePrefixes, more] using counted_last x t (Bool.eq_false_iff.mpr more)
  | succ fuel ih =>
      by_cases more : isIndexPrefix op = true
      · simp only [consumePrefixes, more, if_true, holds_bind, holds_fetchOpcode]
        intro byte
        apply (ih (prefixReg op) byte (t + 4) cpu.opcodeFetched).mono
        intro found mid path counted x' last t' eq
        obtain ⟨noData, rest⟩ := counted x' last t' eq
        refine ⟨noData_fetches _ _ noData, fun tail => ?_⟩
        obtain ⟨register, cost⟩ := rest tail
        simp only [List.cons_append, List.nil_append, fetchedBytes_cycle, fetchedBytes_fetch]
        rw [lastIndex_prefixed _ _ more, prefixCount_prefixed _ more]
        exact ⟨register, by omega⟩
      · simpa [consumePrefixes, more] using counted_last x t (Bool.eq_false_iff.mpr more)

theorem lastPrefix_prefixed {op : Byte} (rest : List Byte) (isPrefix : isIndexPrefix op = true) :
    lastPrefix (op :: rest) = some (lastIndex (prefixReg op) rest) := if_pos isPrefix

theorem lastPrefix_last {op : Byte} (rest : List Byte) (last : isIndexPrefix op = false) :
    lastPrefix (op :: rest) = none := if_neg (Bool.eq_false_iff.mp last)

/-- What the last prefix, the bytes from the opcode on and the cost from there
say about the rest of an instruction. -/
abbrev Rest : Type := Option IndexReg → List Byte → Int → Cpu → Cpu → Path → Prop

/-- `rest` holds of the instruction on `path` behind its opcode. -/
structure Behind (rest : Rest) (t : Int) (cpu next mid : Cpu) (head tail : Path) : Prop where
  noData : NoData head
  code : ∃ op, codeOf (fetchedBytes (head ++ tail)) = op :: fetchedBytes tail
  opens : Opens (lastPrefix (fetchedBytes (head ++ tail))).isSome cpu mid
  pc : mid.regs.pc = cpu.regs.pc + BitVec.ofNat 16 (prefixCount (fetchedBytes (head ++ tail)) + 1)
  holds : rest (lastPrefix (fetchedBytes (head ++ tail))) (codeOf (fetchedBytes (head ++ tail)))
    (t - 4 * prefixCount (fetchedBytes (head ++ tail))) mid next tail

section Rule
variable (rest : Rest)
  (plain : ∀ op, isIndexPrefix op = false → ∀ mid, (dispatchOpcode op).Holds
    (fun t next tail => rest none (op :: fetchedBytes tail) t mid next tail) mid)
  (indexed : ∀ x op t, isIndexPrefix op = false → ∀ mid, (indexArm x op t).Holds
    (fun cost next tail => rest (some x) (op :: fetchedBytes tail) (cost - t) mid next tail) mid)
include indexed

theorem dispatchIndex_behind (fuel : Nat) (op : Byte) (isPrefix : isIndexPrefix op = true)
    (cpu : Cpu) :
    (dispatchIndex fuel (prefixReg op)).Holds (fun found next path => ∀ t, found = some t →
      ∃ mid head tail, cycle cpu.regs.pc 4 :: readOf .fetch cpu.regs.pc op :: path = head ++ tail ∧
        Behind rest t cpu next mid head tail) cpu.opcodeFetched := by
  simp only [dispatchIndex, holds_bind, holds_modifyRegs, holds_fetchOpcode]
  intro byte
  apply (((consumePrefixes_finds fuel _ byte 4 _).and (consumePrefixes_counts fuel _ byte 4 _)).and
    (consumePrefixes_counted fuel (prefixReg op) byte 4 _)).mono
  rintro found mid path ⟨⟨finds, counts⟩, counted⟩
  cases found with
  | none => simp
  | some found =>
      obtain ⟨x', last, t'⟩ := found
      obtain ⟨single, opens, code⟩ := finds x' last t' rfl
      obtain ⟨noData, register⟩ := counted x' last t' rfl
      simp only [holds_bind, holds_pure, List.append_nil]
      apply (indexed x' last t' single mid).mono
      rintro cost next tail holds t ⟨rfl⟩
      obtain ⟨found, spent⟩ := register tail
      have cleared : Opens true cpu { cpu with regs := { cpu.regs with q := 0 } } := ⟨_, _, rfl⟩
      have whole := ((cleared.trans (opens_fetch _)).trans (opens_fetch _)).trans opens
      let first := cpu.regs.pc
      refine ⟨mid, cycle first 4 :: readOf .fetch first op :: cycle (first + 1) 4 ::
        readOf .fetch (first + 1) byte :: path, tail, rfl, ?_⟩
      have bytes : fetchedBytes ((cycle first 4 :: readOf .fetch first op :: cycle (first + 1) 4 ::
          readOf .fetch (first + 1) byte :: path) ++ tail) =
          op :: byte :: fetchedBytes (path ++ tail) := rfl
      constructor
      · exact noData_fetches _ _ (noData_fetches _ _ noData)
      · rw [bytes, codeOf_prefixed _ isPrefix]
        exact ⟨last, code tail⟩
      · rw [bytes, lastPrefix_isSome, isPrefix]
        exact whole
      · rw [bytes, counts rfl tail, prefixCount_prefixed _ isPrefix, next_address, next_address]
        rfl
      · rw [bytes, lastPrefix_prefixed _ isPrefix, ← found, codeOf_prefixed _ isPrefix, code tail,
          prefixCount_prefixed _ isPrefix]
        have same : cost - 4 * ((prefixCount (byte :: fetchedBytes (path ++ tail)) + 1 : Nat) : Int) =
            cost - t' := by omega
        rw [same]
        exact holds

include plain

theorem executeInstruction_behind (fuel : Nat) (cpu : Cpu) :
    (executeInstruction fuel).Holds (fun found next path => ∀ t, found = some (.instruction t) →
      ∃ settled mid head tail, next = settled.settleQ ∧ path = head ++ tail ∧
        Behind rest t cpu settled mid head tail) cpu := by
  rw [holds_executeInstruction]
  intro op
  by_cases isPrefix : isIndexPrefix op = true
  · rw [dispatchUnprefixed, if_pos isPrefix]
    apply (dispatchIndex_behind rest indexed fuel op isPrefix cpu).mono
    intro found next path behind
    cases found with
    | none => simp
    | some t =>
        rintro _ ⟨rfl⟩
        obtain ⟨mid, head, tail, split, holds⟩ := behind t rfl
        exact ⟨next, mid, head, tail, rfl, split, holds⟩
  · rw [dispatchUnprefixed, if_neg isPrefix]
    rw [Bool.not_eq_true] at isPrefix
    simp only [holds_bind, holds_pure, List.append_nil]
    apply (plain op isPrefix _).mono
    rintro t next path holds _ ⟨rfl⟩
    refine ⟨next, cpu.opcodeFetched, [cycle cpu.regs.pc 4, readOf .fetch cpu.regs.pc op], path, rfl,
      rfl, ?_⟩
    have bytes : fetchedBytes ([cycle cpu.regs.pc 4, readOf .fetch cpu.regs.pc op] ++ path) =
        op :: fetchedBytes path := rfl
    constructor
    · exact noData_fetches _ _ noData_nil
    · rw [bytes]
      exact ⟨op, codeOf_last _ isPrefix⟩
    · rw [bytes, lastPrefix_isSome, isPrefix]
      exact opens_fetch cpu
    · rw [bytes, prefixCount_last _ isPrefix]
      rfl
    · rw [bytes, lastPrefix_last _ isPrefix, codeOf_last _ isPrefix, prefixCount_last _ isPrefix,
        Nat.cast_zero, mul_zero, sub_zero]
      exact holds

theorem step_behind {Host : Type} {bus : Bus Host} {fuel : Nat} {s : Machine Host}
    {stepped : Stepped Host} (returns : step bus fuel s = some stepped) {t : Int}
    (kind : stepped.kind = .instruction t) :
    ∃ settled mid head tail, stepped.machine.z80.toCpu = settled.settleQ ∧
      stepped.calls.map Exchange.answered = head ++ tail ∧
      Behind rest t s.z80.toCpu.shadowLeft settled mid head tail := by
  have body : (stepBody fuel).Holds (fun found next path => ∀ t, found = some (.instruction t) →
      ∃ settled mid head tail, next = settled.settleQ ∧ path = head ++ tail ∧
        Behind rest t s.z80.toCpu.shadowLeft settled mid head tail) s.z80.toCpu := by
    rw [holds_stepBody]
    refine ⟨fun _ => ?_, fun _ _ databus => ?_, fun _ _ => ?_⟩
    · simp
    · exact Holds.intro _ (by simp) _
    · rw [holds_haltOrExecute]
      refine ⟨fun _ v => ?_, fun _ => ?_⟩
      · simp
      · exact executeInstruction_behind rest plain indexed fuel _
  exact Holds.step body returns t (congrArg some kind)

end Rule

section Behind
variable {rest : Rest} {t : Int} {cpu next mid : Cpu} {head tail : Path}

theorem length_codeOf (bytes : List Byte) :
    prefixCount bytes + (codeOf bytes).length = bytes.length := by
  rw [prefixCount, codeOf, ← List.length_append, List.takeWhile_append_dropWhile]

theorem Behind.end_pc (behind : Behind rest t cpu next mid head tail) :
    mid.regs.pc + BitVec.ofNat 16 (fetchedBytes tail).length =
      cpu.regs.pc + BitVec.ofNat 16 (fetchedBytes (head ++ tail)).length := by
  obtain ⟨op, code⟩ := behind.code
  have length := length_codeOf (fetchedBytes (head ++ tail))
  rw [code, List.length_cons] at length
  rw [behind.pc, ← length, BitVec.add_assoc, ← BitVec.ofNat_add]
  congr 2
  omega

theorem NoData.writes {path : Path} (noData : NoData path) : writesOf path = [] := by
  induction path with
  | nil => rfl
  | cons answered path ih =>
      have here := noData answered List.mem_cons_self
      have later : NoData path := fun other member => noData other (List.mem_cons_of_mem _ member)
      obtain ⟨request, answer⟩ := answered
      cases request with
      | machineCycle | readMemory => exact ih later
      | writeMemory | readIo | writeIo | acknowledgeInterrupt => cases here

theorem foldl_update_apart {Address Value : Type} [DecidableEq Address] {address : Address}
    (writes : List (Address × Value)) (memory : Address → Value)
    (apart : ∀ write ∈ writes, address ≠ write.1) :
    writes.foldl (fun memory write => Function.update memory write.1 write.2) memory address =
      memory address := by
  induction writes generalizing memory with
  | nil => rfl
  | cons write writes ih =>
      rw [List.foldl_cons, ih _ fun other member => apart other (List.mem_cons_of_mem _ member)]
      exact Function.update_of_ne (apart write List.mem_cons_self) _ _

theorem memoryAfter_apart {path : Path} {address : Word} (memory : Memory)
    (apart : ∀ write ∈ writesOf path, address ≠ write.1) :
    memoryAfter memory path address = memory address := by
  rw [memoryAfter_writes]
  exact foldl_update_apart _ memory apart

theorem Behind.writes (behind : Behind rest t cpu next mid head tail) :
    writesOf (head ++ tail) = writesOf tail := by
  rw [writesOf_append, behind.noData.writes, List.nil_append]

theorem Behind.reads (behind : Behind rest t cpu next mid head tail) {memory : Memory}
    (reads : ReadsFrom memory (head ++ tail)) : ReadsFrom memory tail := by
  rw [readsFrom_append, behind.noData.memoryAfter] at reads
  exact reads.2

end Behind
end Z80f
