import Z80f.Encoding.Execution

/-! # From the last opcode to the instruction

The first fetch and the prefixes only move PC and R, and a prefix clears Q.  A
relation that holds of the two dispatchers behind them holds, in terms of the
bytes from the opcode on, of every instruction. -/

set_option autoImplicit false

namespace Z80f

open Interaction Stateful Z80M

/-- PC and R apart, `mid` is `cpu` with Q cleared by the prefixes. -/
def Opens (prefixed : Bool) (cpu mid : Cpu) : Prop :=
  ∃ pc r, mid = { cpu with regs := { cpu.regs with
    pc := pc, r := r, q := if prefixed then 0 else cpu.regs.q } }

theorem opens_fetch (cpu : Cpu) : Opens false cpu cpu.opcodeFetched := ⟨_, _, rfl⟩

theorem Opens.trans {cpu mid last : Cpu} {prefixed : Bool} (first : Opens prefixed cpu mid)
    (second : Opens false mid last) : Opens prefixed cpu last := by
  obtain ⟨pc, r, rfl⟩ := first
  obtain ⟨pc', r', rfl⟩ := second
  exact ⟨pc', r', rfl⟩

theorem Opens.after {cpu mid last : Cpu} {prefixed : Bool} (second : Opens prefixed mid last)
    (first : Opens false cpu mid) : Opens prefixed cpu last := by
  obtain ⟨pc, r, rfl⟩ := first
  obtain ⟨pc', r', rfl⟩ := second
  exact ⟨pc', r', rfl⟩

section Codes
variable {op : Byte} (rest : List Byte)

theorem codeOf_prefixed (isPrefix : isIndexPrefix op = true) :
    codeOf (op :: rest) = codeOf rest := by
  rw [codeOf, List.dropWhile_cons_of_pos isPrefix, codeOf]

theorem codeOf_last (last : isIndexPrefix op = false) : codeOf (op :: rest) = op :: rest := by
  rw [codeOf, List.dropWhile_cons_of_neg (Bool.not_eq_true _ ▸ last)]

theorem lastPrefix_isSome : (lastPrefix (op :: rest)).isSome = isIndexPrefix op := by
  rw [lastPrefix]
  cases isIndexPrefix op <;> rfl

end Codes

/-- The prefixes that `path` fetched lead to the opcode that was found. -/
def Finds (op : Byte) (cpu : Cpu) (found : Option (IndexReg × Byte × Int)) (mid : Cpu)
    (path : Path) : Prop :=
  ∀ x last t, found = some (x, last, t) → isIndexPrefix last = false ∧ Opens false cpu mid ∧
    ∀ tail, codeOf (op :: fetchedBytes (path ++ tail)) = last :: fetchedBytes tail

theorem finds_last {op : Byte} (last : isIndexPrefix op = false) (x : IndexReg) (t : Int)
    (cpu : Cpu) : Finds op cpu (some (x, op, t)) cpu [] := by
  rintro _ _ _ ⟨rfl, rfl, rfl⟩
  exact ⟨last, ⟨_, _, rfl⟩, fun tail => codeOf_last _ last⟩

theorem consumePrefixes_finds (fuel : Nat) (x : IndexReg) (op : Byte) (t : Int) (cpu : Cpu) :
    (consumePrefixes fuel x op t).Holds (Finds op cpu) cpu := by
  induction fuel generalizing x op t cpu with
  | zero =>
      by_cases more : isIndexPrefix op = true
      · simp [consumePrefixes, more, Finds]
      · simpa [consumePrefixes, more] using finds_last (Bool.eq_false_iff.mpr more) x t cpu
  | succ fuel ih =>
      by_cases more : isIndexPrefix op = true
      · simp only [consumePrefixes, more, if_true, holds_bind, holds_fetchOpcode]
        intro byte
        apply (ih (prefixReg op) byte (t + 4) cpu.opcodeFetched).mono
        intro found mid path finds x' last t' eq
        obtain ⟨single, opens, code⟩ := finds x' last t' eq
        refine ⟨single, (opens_fetch cpu).trans opens, fun tail => ?_⟩
        rw [codeOf_prefixed _ more]
        exact code tail
      · simpa [consumePrefixes, more] using finds_last (Bool.eq_false_iff.mpr more) x t cpu

section Counts
variable {op : Byte} (rest : List Byte)

def prefixCount (bytes : List Byte) : Nat := (bytes.takeWhile isIndexPrefix).length

theorem prefixCount_prefixed (isPrefix : isIndexPrefix op = true) :
    prefixCount (op :: rest) = prefixCount rest + 1 := by
  rw [prefixCount, List.takeWhile_cons_of_pos isPrefix, List.length_cons, prefixCount]

theorem prefixCount_last (last : isIndexPrefix op = false) : prefixCount (op :: rest) = 0 := by
  rw [prefixCount, List.takeWhile_cons_of_neg (Bool.not_eq_true _ ▸ last), List.length_nil]

theorem behind_last (pc : Word) (last : ¬ isIndexPrefix op = true) :
    pc = pc + BitVec.ofNat 16 (prefixCount (op :: rest)) := by
  rw [prefixCount_last _ (Bool.eq_false_iff.mpr last), BitVec.add_zero]

end Counts

theorem consumePrefixes_counts (fuel : Nat) (x : IndexReg) (op : Byte) (t : Int) (cpu : Cpu) :
    (consumePrefixes fuel x op t).Holds (fun found mid path => found.isSome = true → ∀ tail,
      mid.regs.pc = cpu.regs.pc +
        BitVec.ofNat 16 (prefixCount (op :: fetchedBytes (path ++ tail)))) cpu := by
  induction fuel generalizing x op t cpu with
  | zero =>
      by_cases more : isIndexPrefix op = true
      · simp [consumePrefixes, more]
      · simpa [consumePrefixes, more] using
          fun tail : Path => behind_last (fetchedBytes tail) cpu.regs.pc more
  | succ fuel ih =>
      by_cases more : isIndexPrefix op = true
      · simp only [consumePrefixes, more, if_true, holds_bind, holds_fetchOpcode]
        intro byte
        apply (ih (prefixReg op) byte (t + 4) cpu.opcodeFetched).mono
        intro found mid path counts isSome tail
        rw [counts isSome tail, prefixCount_prefixed _ more, next_address]
        rfl
      · simpa [consumePrefixes, more] using
          fun tail : Path => behind_last (fetchedBytes tail) cpu.regs.pc more

section Rule

/-- `rel` holds of the instruction `bytes` behind its prefixes. -/
def Instructs (rel : Bool → List Byte → Cpu → Cpu → Prop) (bytes : List Byte)
    (cpu next : Cpu) : Prop :=
  ∃ mid, Opens (lastPrefix bytes).isSome cpu mid ∧
    rel (lastPrefix bytes).isSome (codeOf bytes) mid next

def InstructsAt (rel : Bool → List Byte → Cpu → Cpu → Prop) (bytes : List Byte)
    (cpu next : Cpu) : Prop :=
  ∃ mid, Opens (lastPrefix bytes).isSome cpu mid ∧
    mid.regs.pc = cpu.regs.pc + BitVec.ofNat 16 (prefixCount bytes + 1) ∧
    rel (lastPrefix bytes).isSome (codeOf bytes) mid next

variable (rel : Bool → List Byte → Cpu → Cpu → Prop)
  (plain : ∀ op, isIndexPrefix op = false → ∀ mid, (dispatchOpcode op).Holds
    (fun _ next tail => rel false (op :: fetchedBytes tail) mid next) mid)
  (indexed : ∀ x op t, isIndexPrefix op = false → ∀ mid, (indexArm x op t).Holds
    (fun _ next tail => rel true (op :: fetchedBytes tail) mid next) mid)
include indexed

theorem dispatchIndex_instructsAt (fuel : Nat) (x : IndexReg) (op : Byte)
    (isPrefix : isIndexPrefix op = true) (cpu : Cpu) :
    (dispatchIndex fuel x).Holds (fun found next path => ∀ t, found = some t →
      InstructsAt rel (op :: fetchedBytes path) cpu next) cpu.opcodeFetched := by
  simp only [dispatchIndex, holds_bind, holds_modifyRegs, holds_fetchOpcode]
  intro byte
  apply ((consumePrefixes_finds fuel x byte 4 _).and
    (consumePrefixes_counts fuel x byte 4 _)).mono
  rintro found mid path ⟨finds, counts⟩
  cases found with
  | none => simp
  | some found =>
      obtain ⟨x', last, t'⟩ := found
      obtain ⟨single, opens, code⟩ := finds x' last t' rfl
      simp only [holds_bind, holds_pure, List.append_nil]
      apply (indexed x' last t' single mid).mono
      intro _ next tail holds t _
      have cleared : Opens true cpu { cpu with regs := { cpu.regs with q := 0 } } := ⟨_, _, rfl⟩
      have whole := ((cleared.trans (opens_fetch _)).trans (opens_fetch _)).trans opens
      refine ⟨mid, ?_, ?_, ?_⟩
      · rw [lastPrefix_isSome, isPrefix]
        exact whole
      · rw [counts rfl tail, prefixCount_prefixed _ isPrefix, next_address, next_address]
        rfl
      · rw [lastPrefix_isSome, isPrefix, codeOf_prefixed _ isPrefix]
        simp only [List.cons_append, List.nil_append, fetchedBytes_cycle, fetchedBytes_fetch]
        rw [code tail]
        exact holds

include plain

theorem executeInstruction_instructsAt (fuel : Nat) (cpu : Cpu) :
    (executeInstruction fuel).Holds (fun found next path => ∀ kind, found = some kind →
      ∃ settled, next = settled.settleQ ∧ InstructsAt rel (fetchedBytes path) cpu settled) cpu := by
  rw [holds_executeInstruction]
  intro op
  by_cases isPrefix : isIndexPrefix op = true
  · rw [dispatchUnprefixed, if_pos isPrefix]
    apply (dispatchIndex_instructsAt rel indexed fuel _ op isPrefix cpu).mono
    intro found next path instructs
    cases found with
    | none => simp
    | some t =>
        intro _ _
        exact ⟨next, rfl, instructs t rfl⟩
  · rw [dispatchUnprefixed, if_neg isPrefix]
    rw [Bool.not_eq_true] at isPrefix
    simp only [holds_bind, holds_pure, List.append_nil]
    apply (plain op isPrefix _).mono
    intro _ next path holds _ _
    refine ⟨next, rfl, cpu.opcodeFetched, ?_, ?_, ?_⟩
    · simp only [fetchedBytes_cycle, fetchedBytes_fetch]
      rw [lastPrefix_isSome, isPrefix]
      exact opens_fetch cpu
    · simp only [fetchedBytes_cycle, fetchedBytes_fetch]
      rw [prefixCount_last _ isPrefix]
      rfl
    · simp only [fetchedBytes_cycle, fetchedBytes_fetch]
      rw [lastPrefix_isSome, isPrefix, codeOf_last _ isPrefix]
      exact holds

theorem executeInstruction_instructs (fuel : Nat) (cpu : Cpu) :
    (executeInstruction fuel).Holds (fun found next path => ∀ kind, found = some kind →
      ∃ settled, next = settled.settleQ ∧ Instructs rel (fetchedBytes path) cpu settled) cpu := by
  apply (executeInstruction_instructsAt rel plain indexed fuel cpu).mono
  intro found next path instructs kind eq
  obtain ⟨settled, settles, mid, opens, -, holds⟩ := instructs kind eq
  exact ⟨settled, settles, mid, opens, holds⟩

end Rule
end Z80f
