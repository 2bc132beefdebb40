import Z80f.Encoding.Consumption
import Z80f.Isa.Indexed

/-! # A step executes one instruction

The dispatchers with the opcode fetches before them.  Each prefix is an opcode
of its own, so the induction is on the rounds of the prefix loop. -/

set_option autoImplicit false

namespace Z80f.Isa

open Interaction Stateful Z80M Flags

/-- As `Performs`, with the opcodes that the decoder found. -/
def Interprets (q : Byte) (decoder : List Byte → Option Decoded) (cpu next : Cpu) (tail : Path) :
    Prop :=
  ∀ memory ports, ReadsFrom memory tail →
    (decoder (fetchedBytes tail)).map (fun decoded =>
      decoded.instruction.exec q (inputOf tail)
        { regs := behind cpu.regs decoded.opcodes (fetchedBytes tail)
          memory := memory
          ports := ports }) =
      some { regs := next.settleQ.regs
             memory := memoryAfter memory tail
             ports := (portsOf tail).reverse ++ ports }

theorem Obeys.interprets {opcodes : Nat} {m : Z80M Int} {grammar : Grammar}
    (obeys : Obeys opcodes m grammar) {decoder : List Byte → Option Decoded}
    (decodes : ∀ rest, decoder rest = decoded opcodes (grammar rest)) {cpu : Cpu}
    (clean : cpu.flagsModified = false) :
    m.Holds (fun _ next tail => Interprets cpu.regs.q decoder cpu next tail) cpu := by
  apply (obeys cpu clean).mono
  intro t next tail performs memory ports reads
  rw [decodes, decoded, Option.map_map]
  exact performs memory ports reads

theorem Interprets.fetched {q : Byte} {decoder : List Byte → Option Decoded} {cpu next : Cpu}
    {code : Byte} {tail : Path} (interprets : Interprets q decoder cpu.opcodeFetched next tail) :
    Interprets q (fun bytes => (decoder bytes.tail).map Decoded.behindOpcode) cpu next
      (cycle cpu.regs.pc 4 :: readOf .fetch cpu.regs.pc code :: tail) := by
  intro memory ports reads
  rw [Option.map_map]
  exact interprets memory ports reads.2

section Dispatch
variable {cpu : Cpu} (clean : cpu.flagsModified = false) {op : Byte}
  (last : isIndexPrefix op = false)
include clean last

omit clean in
theorem not_prefix : op ≠ 0xDD#8 ∧ op ≠ 0xFD#8 := by
  constructor <;>
    rintro rfl <;>
    exact absurd last (by decide)

theorem dispatchOpcode_interprets :
    (dispatchOpcode op).Holds (fun _ next tail =>
      Interprets cpu.regs.q (decodePlain op) cpu next tail) cpu := by
  obtain ⟨dd, fd⟩ := not_prefix last
  by_cases cb : op = 0xCB#8
  · subst cb
    have obeys : Obeys 1 (opcodeArm 0xCB#8 (baseTFor 0xCB#8)) _ := dispatchCb_obeys
    exact obeys.dispatched.interprets (fun _ => if_pos rfl) clean
  by_cases ed : op = 0xED#8
  · subst ed
    have obeys : Obeys 1 (opcodeArm 0xED#8 (baseTFor 0xED#8)) _ := Obeys.fetched edArm_obeys
    exact obeys.dispatched.interprets (fun _ => (if_neg cb).trans (if_pos rfl)) clean
  · exact (opcodeArm_obeys op _ cb ed dd fd).dispatched.interprets
      (fun _ => (if_neg cb).trans (if_neg ed)) clean

theorem indexArm_interprets (x : IndexReg) (t : Int) :
    (indexArm x op t).Holds (fun _ next tail =>
      Interprets cpu.regs.q (decodeIndexed x op) cpu next tail) cpu := by
  obtain ⟨dd, fd⟩ := not_prefix last
  by_cases ed : op = 0xED#8
  · subst ed
    have obeys : Obeys 1 (opcodeArm 0xED#8 (baseTFor 0xED#8)) _ := Obeys.fetched edArm_obeys
    have returns : Obeys 1 (indexArm x 0xED#8 t) _ := obeys.dispatched.returns t
    exact returns.interprets (fun _ => rfl) clean
  by_cases cb : op = 0xCB#8
  · subst cb
    have obeys : Obeys 0 (indexArm x 0xCB#8 t) _ := (dispatchIndexCb_obeys x).returns t
    exact obeys.interprets (fun _ => (if_neg ed).trans (if_pos rfl)) clean
  · exact (indexArm_obeys x op t cb ed dd fd).interprets
      (fun _ => (if_neg ed).trans (if_neg cb)) clean

end Dispatch

def decodeFrom (x : IndexReg) (op : Byte) (rest : List Byte) : Option Decoded :=
  if isIndexPrefix op then decodePrefixed (prefixReg op) rest else decodeIndexed x op rest

theorem indexArm_from {cpu : Cpu} (clean : cpu.flagsModified = false) {op : Byte}
    (last : isIndexPrefix op ≠ true) (x : IndexReg) (t : Int) :
    (indexArm x op t).Holds (fun _ next tail =>
      Interprets cpu.regs.q (decodeFrom x op) cpu next tail) cpu := by
  have decodes : decodeFrom x op = decodeIndexed x op := funext fun _ => if_neg last
  rw [decodes]
  exact indexArm_interprets clean (Bool.eq_false_iff.mpr last) x t

theorem consumePrefixes_interprets (fuel : Nat) (x : IndexReg) (op : Byte) (t : Int) {cpu : Cpu}
    (clean : cpu.flagsModified = false) :
    (consumePrefixes fuel x op t).Holds (fun found mid path => ∀ y last cost,
      found = some (y, last, cost) →
        (indexArm y last cost).Holds (fun _ next tail =>
          Interprets cpu.regs.q (decodeFrom x op) cpu next (path ++ tail)) mid) cpu := by
  induction fuel generalizing x op t cpu with
  | zero =>
      unfold consumePrefixes
      by_cases more : isIndexPrefix op = true
      · rw [if_pos more, holds_pure]
        intro y last cost found
        cases found
      · rw [if_neg more, holds_pure]
        intro y last cost found
        cases found
        exact indexArm_from clean more x t
  | succ fuel ih =>
      unfold consumePrefixes
      by_cases more : isIndexPrefix op = true
      · -- one more round is one more opcode, in R and PC as in the decoder
        rw [if_pos more, holds_bind, holds_fetchOpcode]
        intro code
        have fetched : cpu.opcodeFetched.flagsModified = false := clean
        apply (ih (prefixReg op) code (t + 4) fetched).mono
        intro found mid path behindCode y last cost eq
        apply (behindCode y last cost eq).mono
        intro _ next tail interprets memory ports reads
        have decodes : decodeFrom x op = decodePrefixed (prefixReg op) :=
          funext fun _ => if_pos more
        rw [decodes]
        exact interprets.fetched memory ports reads
      · rw [if_neg more, holds_pure]
        intro y last cost found
        cases found
        exact indexArm_from clean more x t

theorem dispatchIndex_interprets (fuel : Nat) (x : IndexReg) {cpu : Cpu}
    (clean : cpu.flagsModified = false) :
    (dispatchIndex fuel x).Holds (fun found next tail => ∀ t, found = some t →
      Interprets 0 (decodePrefixed x) cpu next tail) cpu := by
  rw [dispatchIndex]
  simp only [holds_bind, holds_modifyRegs, holds_fetchOpcode]
  intro code
  have fetched : (Cpu.opcodeFetched { cpu with regs := { cpu.regs with q := 0 } }).flagsModified =
      false := clean
  apply (consumePrefixes_interprets fuel x code 4 fetched).mono
  intro found mid path behindCode
  cases found with
  | none =>
      intro t none
      cases none
  | some found =>
      obtain ⟨y, last, cost⟩ := found
      simp only [holds_bind, holds_pure, List.append_nil]
      apply (behindCode y last cost rfl).mono
      intro t next tail interprets _ _ memory ports reads
      exact interprets.fetched memory ports reads

theorem past_eq (bytes : List Byte) (pc : Word) :
    past bytes pc = pc + BitVec.ofNat 16 bytes.length := by
  induction bytes generalizing pc with
  | nil => exact (BitVec.add_zero pc).symm
  | cons _ rest ih => exact (ih (pc + 1)).trans (next_address pc rest.length).symm

theorem decodePlain_prefixed {op : Byte} {rest : List Byte} {d : Decoded}
    (found : decodePlain op rest = some d) : d.prefixed = false := by
  have plain {opcodes : Nat} {instruction : Option Instruction}
      (came : decoded opcodes instruction = some d) : d.prefixed = false := by
    obtain ⟨_, -, rfl⟩ := Option.map_eq_some_iff.mp came
    rfl
  unfold decodePlain at found
  split at found
  · exact plain found
  · split at found <;> exact plain found

/-- The registers behind all bytes, whether the count starts before the opcode or behind it. -/
theorem behind_opcode (r : Registers) (op : Byte) (rest : List Byte) (d : Decoded) :
    behind (Registers.incR { r with eiPending := false, pc := r.pc + 1 }) d.opcodes rest =
      d.behindOpcode.fetched (op :: rest) r := by
  rw [Decoded.fetched, ← past_eq]
  rfl

theorem Interprets.interpret {q op : Byte} {decoder : List Byte → Option Decoded}
    {before next cpu : Cpu} {tail : Path} (interprets : Interprets q decoder before next tail)
    (start : ∀ opcodes rest, behind before.regs opcodes rest =
      behind (Registers.incR { cpu.regs with eiPending := false, pc := cpu.regs.pc + 1 })
        opcodes rest)
    (decodes : ∀ rest d, decoder rest = some d → ∃ prefixed,
      decodeBehind op rest = some { d with prefixed := prefixed } ∧
        (if prefixed then 0 else cpu.regs.q) = q)
    {memory : Memory} (ports : Path) (reads : ReadsFrom memory tail) :
    interpret (op :: fetchedBytes tail) (inputOf tail)
      { regs := cpu.regs, memory := memory, ports := ports } =
    some { regs := next.settleQ.regs
           memory := memoryAfter memory tail
           ports := (portsOf tail).reverse ++ ports } := by
  obtain ⟨d, found, executed⟩ := Option.map_eq_some_iff.mp (interprets memory ports reads)
  obtain ⟨prefixed, behindOp, settled⟩ := decodes _ d found
  rw [Isa.interpret, decode, behindOp, Option.map_some, Option.map_some, ← executed, start,
    behind_opcode _ op]
  exact congrArg (fun q => some (d.instruction.exec q _ _)) settled

theorem executeInstruction_interprets (fuel : Nat) (cpu : Cpu) (clean : cpu.flagsModified = false) :
    (executeInstruction fuel).Holds (fun found next path => ∀ kind, found = some kind →
      ∀ memory ports, ReadsFrom memory path →
        interpret (fetchedBytes path) (inputOf path)
          { regs := cpu.regs, memory := memory, ports := ports } =
        some { regs := next.regs
               memory := memoryAfter memory path
               ports := (portsOf path).reverse ++ ports })
      { cpu with regs := { cpu.regs with eiPending := false } } := by
  rw [holds_executeInstruction]
  intro op
  have fetched : (Cpu.opcodeFetched
      { cpu with regs := { cpu.regs with eiPending := false } }).flagsModified = false := clean
  rw [dispatchUnprefixed]
  by_cases pre : isIndexPrefix op = true
  · rw [if_pos pre]
    apply (dispatchIndex_interprets fuel (prefixReg op) fetched).mono
    intro found next tail interprets
    cases found with
    | none =>
        intro kind none
        cases none
    | some t =>
        intro kind _ memory ports reads
        refine (interprets t rfl).interpret (fun _ _ => rfl) ?_ ports reads.2
        intro rest d found
        refine ⟨true, ?_, rfl⟩
        rw [decodeBehind, if_pos pre, found]
        rfl
  · rw [if_neg pre]
    simp only [holds_bind, holds_pure, List.append_nil]
    apply (dispatchOpcode_interprets fetched (Bool.eq_false_iff.mpr pre)).mono
    intro t next tail interprets kind _ memory ports reads
    refine interprets.interpret (fun _ _ => rfl) ?_ ports reads.2
    intro rest d found
    refine ⟨false, ?_, rfl⟩
    rw [decodeBehind, if_neg pre, found]
    have plain := decodePlain_prefixed found
    rw [← plain]

end Z80f.Isa
