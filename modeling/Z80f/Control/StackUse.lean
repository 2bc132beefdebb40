import Z80f.Control.Conditional
import Z80f.Encoding.Behind
import Z80f.Encoding.FlagMarker

/-! # What an instruction does with the stack

A table over the opcodes: who pushes, who pops and who moves SP otherwise.  The
instructions that spare SP are known from the profiles; the rest is executed. -/

set_option autoImplicit false

namespace Z80f

open Interaction Stateful Z80M Flags

inductive StackUse where
  | spare
  | call
  | push
  | ret
  | pop
  | swap
  | move
deriving DecidableEq

def stackUse (flags op : Byte) : StackUse :=
  match op with
  | 0xCD => .call
  | 0xC9 => .ret
  | 0xE3 => .swap
  | 0x31 | 0x33 | 0x3B | 0xF9 => .move
  | _ =>
      if op &&& 0xC7#8 = 0xC7#8 then .call
      else if op &&& 0xC7#8 = 0xC4#8 then if condition (midField op) flags then .call else .spare
      else if op &&& 0xC7#8 = 0xC0#8 then if condition (midField op) flags then .ret else .spare
      else if op &&& 0xCF#8 = 0xC5#8 then .push
      else if op &&& 0xCF#8 = 0xC1#8 then .pop
      else .spare

def edStackUse (op : Byte) : StackUse :=
  match op with
  | 0x45 | 0x55 | 0x65 | 0x75 | 0x4D | 0x5D | 0x6D | 0x7D => .ret
  | 0x7B => .move
  | _ => .spare

/-- The bytes from the opcode on; a prefix does not change the use. -/
def codeStackUse (flags : Byte) : List Byte → StackUse
  | [] => .spare
  | op :: rest => if op = 0xED#8 then edStackUse (rest.headD 0) else stackUse flags op

/-- The pair of PUSH, POP and `EX (SP)`. -/
def stackPair (x : Option IndexReg) (code : List Byte) (r : Registers) : Word :=
  match midField (code.headD 0) with
  | 0 => r.bc
  | 2 => r.de
  | 6 => r.af
  | _ =>
      match x with
      | none => r.hl
      | some x => r.index x

structure Pushes (v : Word) (mid next : Cpu) (tail : Path) : Prop where
  sp : next.regs.sp = mid.regs.sp - 1 - 1
  writes : writesOf tail = [(mid.regs.sp - 1, hi v), (mid.regs.sp - 1 - 1, lo v)]

structure Pops (v : Word) (mid next : Cpu) (tail : Path) : Prop where
  sp : next.regs.sp = mid.regs.sp + 1 + 1
  writes : writesOf tail = []
  reads : ∀ memory, ReadsFrom memory tail → wordAt memory mid.regs.sp = v

structure Swaps (v w : Word) (mid next : Cpu) (tail : Path) : Prop where
  sp : next.regs.sp = mid.regs.sp
  writes : writesOf tail = [(mid.regs.sp + 1, hi w), (mid.regs.sp, lo w)]
  reads : ∀ memory, ReadsFrom memory tail → wordAt memory mid.regs.sp = v

/-- `next` and `tail` are those of the given use. -/
def StackUse.Done (pair : Registers → Word) (mid next : Cpu) (tail : Path) : StackUse → Prop
  | .spare => next.regs.sp = mid.regs.sp
  | .call => Pushes (mid.regs.pc + BitVec.ofNat 16 (fetchedBytes tail).length) mid next tail
  | .push => Pushes (pair mid.regs) mid next tail
  | .ret => Pops next.regs.pc mid next tail
  | .pop => Pops (pair next.regs) mid next tail
  | .swap => Swaps (pair next.regs) (pair mid.regs) mid next tail
  | .move => True

/-- The rest of an instruction follows the table.  A condition is the same
before and after: neither CALL nor RET stores F. -/
structure UsesStack (x : Option IndexReg) (code : List Byte) (mid next : Cpu) (tail : Path) :
    Prop where
  done : (codeStackUse mid.regs.flags code).Done (stackPair x code) mid next tail
  same : codeStackUse next.regs.flags code = codeStackUse mid.regs.flags code

section Arms
variable (mid : Cpu) (cond : Byte → Bool) (t : Int)

theorem StackUse.Done.idle {pair : Registers → Word} {next : Cpu} {tail : Path} {use : StackUse}
    (done : use.Done pair mid next tail) (address : Word) (count : Nat) :
    use.Done pair mid next (idleCycles address count ++ tail) := by
  have bytes : fetchedBytes (idleCycles address count ++ tail) = fetchedBytes tail := by
    rw [fetchedBytes_append, fetchedBytes_idle, List.nil_append]
  have writes : writesOf (idleCycles address count ++ tail) = writesOf tail := by
    rw [writesOf_append, writesOf_idle, List.nil_append]
  have reads (memory : Memory) (holds : ReadsFrom memory (idleCycles address count ++ tail)) :
      ReadsFrom memory tail := by
    rw [readsFrom_append, memoryAfter_idle] at holds
    exact holds.2
  cases use with
  | spare => exact done
  | call =>
      constructor
      · exact done.sp
      · rw [writes, bytes]
        exact done.writes
  | push =>
      constructor
      · exact done.sp
      · rw [writes]
        exact done.writes
  | ret => exact ⟨done.sp, writes.trans done.writes, fun memory holds => done.reads _ (reads _ holds)⟩
  | pop => exact ⟨done.sp, writes.trans done.writes, fun memory holds => done.reads _ (reads _ holds)⟩
  | swap => exact ⟨done.sp, writes.trans done.writes, fun memory holds => done.reads _ (reads _ holds)⟩
  | move => trivial

theorem popped_word {memory : Memory} {sp : Word} {low high : Byte} {tail : Path}
    (reads : ReadsFrom memory (cycle sp 3 :: readOf .data sp low :: cycle (sp + 1) 3 ::
      readOf .data (sp + 1) high :: tail)) : wordAt memory sp = word high low := by
  simp only [readsFrom_cycle, readsFrom_read] at reads
  obtain ⟨lowRead, highRead, -⟩ := reads
  rw [wordAt, ← lowRead, ← highRead]

theorem call_done {pair : Registers → Word} {mid next : Cpu} {tail : Path} (count : Nat)
    (counted : (fetchedBytes tail).length = count)
    (pushes : Pushes (mid.regs.pc + BitVec.ofNat 16 count) mid next tail) :
    StackUse.call.Done pair mid next tail := by
  rw [← counted] at pushes
  exact pushes

theorem two_behind (pc : Word) : pc + BitVec.ofNat 16 2 = pc + 1 + 1 :=
  (BitVec.add_assoc pc 1 1).symm

theorem callArm_uses : (callArm cond).Holds (fun _ next tail =>
    (if cond mid.regs.flags then StackUse.call else .spare).Done Registers.af mid next tail ∧
      next.regs.flags = mid.regs.flags) mid := by
  by_cases taken : cond mid.regs.flags = true
  · simp only [callArm, callCond, taken, holds_bind, holds_getRegs, if_true,
      holds_fetchImmediate16, holds_modifyRegs, holds_idle, holds_push16, holds_pure]
    intro low high
    refine ⟨call_done 2 rfl ?_, trivial⟩
    rw [two_behind]
    exact ⟨rfl, rfl⟩
  · rw [Bool.not_eq_true] at taken
    simp only [callArm, callCond, taken, holds_bind, holds_getRegs, Bool.false_eq_true, if_false,
      holds_fetchImmediate16, holds_modifyRegs, holds_pure]
    intro low high
    exact ⟨rfl, trivial⟩

theorem retArm_uses : (retArm cond).Holds (fun _ next tail =>
    (if cond mid.regs.flags then StackUse.ret else .spare).Done Registers.af mid next tail ∧
      next.regs.flags = mid.regs.flags) mid := by
  by_cases taken : cond mid.regs.flags = true
  · simp only [retArm, jp, taken, holds_bind, holds_getRegs, if_true, holds_pop16,
      holds_modifyRegs, holds_pure]
    intro low high
    exact ⟨⟨rfl, rfl, fun memory => popped_word⟩, trivial⟩
  · rw [Bool.not_eq_true] at taken
    simp only [retArm, taken, holds_bind, holds_getRegs, Bool.false_eq_true, if_false, holds_pure]
    exact ⟨rfl, trivial⟩

theorem call_uses : (do call; return t : Z80M Int).Holds (fun _ next tail =>
    StackUse.call.Done Registers.af mid next tail) mid := by
  simp only [call, holds_bind, holds_fetchImmediate16, holds_modifyRegs, holds_getRegs, holds_idle,
    holds_push16, holds_pure]
  intro low high
  apply call_done 2 rfl
  rw [two_behind]
  exact ⟨rfl, rfl⟩

theorem rst_uses (target : Word) : (do rst target; return t : Z80M Int).Holds (fun _ next tail =>
    StackUse.call.Done Registers.af mid next tail) mid := by
  simp only [rst, holds_bind, holds_getRegs, holds_idle, holds_push16, holds_modifyRegs, holds_pure]
  apply call_done 0 rfl
  rw [BitVec.add_zero]
  exact ⟨rfl, rfl⟩

theorem ret_uses : (do jp (← pop16); return t : Z80M Int).Holds (fun _ next tail =>
    StackUse.ret.Done Registers.af mid next tail) mid := by
  simp only [jp, holds_bind, holds_pop16, holds_modifyRegs, holds_pure]
  intro low high
  exact ⟨rfl, rfl, fun memory => popped_word⟩

theorem retn_uses : (do retn; return t : Z80M Int).Holds (fun _ next tail =>
    StackUse.ret.Done Registers.af mid next tail) mid := by
  simp only [retn, jp, holds_bind, holds_pop16, holds_modifyRegs, holds_pure]
  intro low high
  exact ⟨rfl, rfl, fun memory => popped_word⟩

variable (pair : Registers → Word)

theorem push_uses : (do push16 (pair (← getRegs)); return t : Z80M Int).Holds (fun _ next tail =>
    StackUse.push.Done pair mid next tail) mid := by
  simp only [holds_bind, holds_getRegs, holds_push16, holds_pure]
  exact ⟨rfl, rfl⟩

theorem pop_uses (set : Word → Registers → Registers) (found : ∀ v r, pair (set v r) = v)
    (spares : ∀ v r, (set v r).sp = r.sp) :
    (do modifyRegs (set (← pop16)); return t : Z80M Int).Holds (fun _ next tail =>
      StackUse.pop.Done pair mid next tail) mid := by
  simp only [holds_bind, holds_pop16, holds_modifyRegs, holds_pure]
  intro low high
  refine ⟨spares _ _, rfl, fun memory reads => ?_⟩
  rw [found]
  exact popped_word reads

end Arms

/-! ## The dispatchers -/

theorem masks_storeSp : ∀ op : Byte, (op &&& 0xC7#8 = 0xC7#8 ∨ op &&& 0xC7#8 = 0xC4#8 ∨
    op &&& 0xC7#8 = 0xC0#8 ∨ op &&& 0xCF#8 = 0xC5#8 ∨ op &&& 0xCF#8 = 0xC1#8) →
    storesSp op = true := by
  decide

theorem stackUse_spare {op : Byte} (spares : storesSp op = false) (other : op ≠ 0xE3#8)
    (flags : Byte) : stackUse flags op = .spare := by
  have masks : ¬ _ := fun masked => absurd (masks_storeSp op masked) (Bool.eq_false_iff.mp spares)
  simp only [not_or] at masks
  obtain ⟨rst, call, ret, push, pop⟩ := masks
  unfold stackUse
  split
  all_goals first
    | exact absurd rfl other
    | cases spares
    | rw [if_neg rst, if_neg call, if_neg ret, if_neg push, if_neg pop]

theorem guardedStores_spare_sp {op : Byte} (spares : storesSp op = false) :
    .sp ∉ guardedStores op := by
  unfold guardedStores
  split
  · decide
  · decide
  · rw [spares]
    decide

theorem edStackUse_spare {op : Byte} (spares : .sp ∉ edGuardedStores op) :
    edStackUse op = .spare := by
  unfold edStackUse
  split
  all_goals first
    | rfl
    | exact absurd List.mem_cons_self spares

theorem Met.sameSp {p : Profile} {spent t : Int} {core next : Cpu} {path : Path}
    (met : Met p spent core t next path) (spares : .sp ∉ p.stores) :
    next.regs.sp = core.regs.sp := by
  obtain ⟨s, meets, -⟩ := met
  exact meets.signed.same .sp fun touched => spares (meets.stores .sp touched (by decide))

section Dispatch
variable (x : Option IndexReg) (mid : Cpu)

theorem UsesStack.of_opcode {op : Byte} {next : Cpu} {tail : Path} (rest : List Byte)
    (other : op ≠ 0xED#8)
    (done : (stackUse mid.regs.flags op).Done (stackPair x [op]) mid next tail)
    (same : stackUse next.regs.flags op = stackUse mid.regs.flags op) :
    UsesStack x (op :: rest) mid next tail := by
  have table (flags : Byte) : codeStackUse flags (op :: rest) = stackUse flags op := if_neg other
  constructor
  · rw [table]
    exact done
  · rw [table, table]
    exact same

theorem dispatchOpcode_done {op : Byte} {arm : Z80M Int} (other : op ≠ 0xED#8)
    (code : dispatchOpcode op = (do opcodePrelude op; arm))
    (done : arm.Holds (fun _ next tail =>
      (stackUse mid.regs.flags op).Done (stackPair x [op]) mid next tail ∧
        stackUse next.regs.flags op = stackUse mid.regs.flags op) mid) :
    (dispatchOpcode op).Holds (fun _ next tail =>
      UsesStack x (op :: fetchedBytes tail) mid next tail) mid := by
  rw [code, holds_bind, holds_opcodePrelude]
  apply done.mono
  rintro _ next tail ⟨uses, same⟩
  exact .of_opcode x mid _ other (uses.idle mid _ _) same

theorem call_condition {op : Byte} (conditional : Branch.call.isConditional op = true)
    (flags : Byte) : stackUse flags op = if condition (midField op) flags then .call else .spare := by
  have listed := conditional_ops .call op conditional
  simp only [List.mem_cons, List.not_mem_nil, or_false] at listed
  rcases listed with rfl | rfl | rfl | rfl | rfl | rfl | rfl | rfl <;> rfl

theorem ret_condition {op : Byte} (conditional : Branch.ret.isConditional op = true)
    (flags : Byte) : stackUse flags op = if condition (midField op) flags then .ret else .spare := by
  have listed := conditional_ops .ret op conditional
  simp only [List.mem_cons, List.not_mem_nil, or_false] at listed
  rcases listed with rfl | rfl | rfl | rfl | rfl | rfl | rfl | rfl <;> rfl

theorem StackUse.Done.branch {pair pair' : Registers → Word} {mid next : Cpu} {tail : Path}
    {use : StackUse} (branch : use = .call ∨ use = .ret ∨ use = .spare)
    (done : use.Done pair mid next tail) : use.Done pair' mid next tail := by
  rcases branch with rfl | rfl | rfl <;> exact done

theorem conditional_call_uses {op : Byte} (conditional : Branch.call.isConditional op = true) :
    (dispatchOpcode op).Holds (fun _ next tail =>
      UsesStack x (op :: fetchedBytes tail) mid next tail) mid := by
  have other : op ≠ 0xED#8 := by
    rintro rfl
    cases conditional
  apply dispatchOpcode_done x mid other (conditional_arm .call conditional)
  apply (callArm_uses mid _).mono
  rintro _ next tail ⟨done, flags⟩
  rw [call_condition conditional, call_condition conditional, flags]
  refine ⟨done.branch ?_, rfl⟩
  split
  · exact .inl rfl
  · exact .inr (.inr rfl)

theorem conditional_ret_uses {op : Byte} (conditional : Branch.ret.isConditional op = true) :
    (dispatchOpcode op).Holds (fun _ next tail =>
      UsesStack x (op :: fetchedBytes tail) mid next tail) mid := by
  have other : op ≠ 0xED#8 := by
    rintro rfl
    cases conditional
  apply dispatchOpcode_done x mid other (conditional_arm .ret conditional)
  apply (retArm_uses mid _).mono
  rintro _ next tail ⟨done, flags⟩
  rw [ret_condition conditional, ret_condition conditional, flags]
  refine ⟨done.branch ?_, rfl⟩
  split
  · exact .inr (.inl rfl)
  · exact .inr (.inr rfl)

theorem swap_uses : (do exSpHl; return 19 : Z80M Int).Holds (fun _ next tail =>
    StackUse.swap.Done Registers.hl mid next tail) mid := by
  simp only [exSpHl, holds_bind, holds_getRegs, holds_read8, holds_idle, holds_write8,
    holds_modifyRegs, holds_pure]
  intro low high
  refine ⟨rfl, ?_, fun memory reads => popped_word reads⟩
  rw [Registers.hl, hi_word, lo_word]
  rfl

theorem swapIndex_uses (x : IndexReg) (t : Int) : (do exSpIndex x; return t : Z80M Int).Holds
    (fun _ next tail => StackUse.swap.Done (Registers.index x) mid next tail) mid := by
  simp only [exSpIndex, holds_bind, holds_getRegs, holds_read8, holds_idle, holds_write8,
    holds_modifyRegs, holds_pure]
  intro low high
  cases x <;> exact ⟨rfl, rfl, fun memory reads => popped_word reads⟩

theorem edArm_uses (op : Byte) : (edArm op).Holds (fun _ next tail =>
    (edStackUse op).Done (stackPair x [0xED]) mid next tail) mid := by
  by_cases stores : .sp ∈ edGuardedStores op
  · have listed : edStackUse op = .ret ∧ edArm op = (do retn; return 14) ∨
        edStackUse op = .move := by
      unfold edGuardedStores at stores
      split at stores
      all_goals first
        | exact .inl ⟨rfl, rfl⟩
        | exact .inr rfl
        | exact absurd stores (by decide)
    rcases listed with ⟨use, code⟩ | use
    · rw [use, code]
      exact retn_uses mid 14
    · rw [use]
      exact Holds.intro _ (fun _ _ _ => trivial) mid
  · rw [edStackUse_spare stores]
    apply (edArm_conforms op mid).mono
    intro _ next tail met
    exact met.sameSp stores

theorem edStackUse_cases (op : Byte) :
    edStackUse op = .ret ∨ edStackUse op = .move ∨ edStackUse op = .spare := by
  unfold edStackUse
  split
  all_goals first
    | exact .inl rfl
    | exact .inr (.inl rfl)
    | exact .inr (.inr rfl)

theorem dispatchEd_uses : (dispatchOpcode 0xED).Holds (fun _ next tail =>
    UsesStack x (0xED :: fetchedBytes tail) mid next tail) mid := by
  have code : dispatchOpcode 0xED = (do opcodePrelude 0xED; dispatchEd) := rfl
  rw [code]
  simp only [dispatchEd, holds_bind, holds_opcodePrelude, holds_fetchOpcode]
  intro op
  apply (edArm_uses x mid.opcodeFetched op).mono
  intro _ next tail done
  have table (flags : Byte) (rest : List Byte) :
      codeStackUse flags (0xED :: op :: rest) = edStackUse op := rfl
  refine ⟨?_, rfl⟩
  apply StackUse.Done.idle
  change (edStackUse op).Done _ mid next _
  rcases edStackUse_cases op with use | use | use
  · rw [use] at done ⊢
    obtain ⟨sp, writes, popped⟩ := done
    exact ⟨sp, writes, fun memory reads => popped memory reads.2⟩
  · rw [use]
    trivial
  · rw [use] at done ⊢
    exact done

theorem storesSp_listed : ∀ op : Byte, storesSp op = true →
    Branch.call.isConditional op = true ∨ Branch.ret.isConditional op = true ∨
      op = 0xCD#8 ∨ op = 0xC9#8 ∨ op ∈ [0x31#8, 0x33#8, 0x3B#8, 0xF9#8] ∨
      op ∈ [0xC7#8, 0xCF#8, 0xD7#8, 0xDF#8, 0xE7#8, 0xEF#8, 0xF7#8, 0xFF#8] ∨
      op ∈ [0xC5#8, 0xD5#8, 0xE5#8, 0xF5#8] ∨ op ∈ [0xC1#8, 0xD1#8, 0xE1#8, 0xF1#8] := by
  decide

/-- The opcodes whose HL an index prefix replaces on the stack. -/
def stacksHl (op : Byte) : Bool := op == 0xE1#8 || op == 0xE3#8 || op == 0xE5#8

theorem dispatchOpcode_uses (op : Byte) (single : isIndexPrefix op = false)
    (own : stacksHl op = true → x = none) :
    (dispatchOpcode op).Holds (fun _ next tail =>
      UsesStack x (op :: fetchedBytes tail) mid next tail) mid := by
  by_cases ed : op = 0xED#8
  · subst ed
    exact dispatchEd_uses x mid
  · by_cases stores : storesSp op = true
    · rcases storesSp_listed op stores with call | ret | rfl | rfl | move | rst | push | pop
      · exact conditional_call_uses x mid call
      · exact conditional_ret_uses x mid ret
      · apply dispatchOpcode_done x mid ed rfl
        apply (call_uses mid _).mono
        exact fun _ _ _ done => ⟨done, rfl⟩
      · apply dispatchOpcode_done x mid ed rfl
        apply (ret_uses mid _).mono
        exact fun _ _ _ done => ⟨done, rfl⟩
      · simp only [List.mem_cons, List.not_mem_nil, or_false] at move
        rcases move with rfl | rfl | rfl | rfl
        all_goals
          apply dispatchOpcode_done x mid ed rfl
          exact Holds.intro _ (fun _ _ _ => ⟨trivial, rfl⟩) mid
      · simp only [List.mem_cons, List.not_mem_nil, or_false] at rst
        rcases rst with rfl | rfl | rfl | rfl | rfl | rfl | rfl | rfl
        all_goals
          apply dispatchOpcode_done x mid ed rfl
          apply (rst_uses mid _ _).mono
          exact fun _ _ _ done => ⟨done, rfl⟩
      · simp only [List.mem_cons, List.not_mem_nil, or_false] at push
        rcases push with rfl | rfl | rfl | rfl
        case inr.inr.inl =>
          cases own rfl
          apply dispatchOpcode_done none mid ed rfl
          apply (push_uses mid _ Registers.hl).mono
          exact fun _ _ _ done => ⟨done, rfl⟩
        all_goals
          apply dispatchOpcode_done x mid ed rfl
          apply (push_uses mid _ _).mono
          exact fun _ _ _ done => ⟨done, rfl⟩
      · simp only [List.mem_cons, List.not_mem_nil, or_false] at pop
        rcases pop with rfl | rfl | rfl | rfl
        · apply dispatchOpcode_done x mid ed rfl
          apply (pop_uses mid _ Registers.bc Registers.setBc (fun _ _ => word_hi_lo _)
            fun _ _ => rfl).mono
          exact fun _ _ _ done => ⟨done, rfl⟩
        · apply dispatchOpcode_done x mid ed rfl
          apply (pop_uses mid _ Registers.de Registers.setDe (fun _ _ => word_hi_lo _)
            fun _ _ => rfl).mono
          exact fun _ _ _ done => ⟨done, rfl⟩
        · cases own rfl
          apply dispatchOpcode_done none mid ed rfl
          apply (pop_uses mid _ Registers.hl Registers.setHl (fun _ _ => word_hi_lo _)
            fun _ _ => rfl).mono
          exact fun _ _ _ done => ⟨done, rfl⟩
        · apply dispatchOpcode_done x mid ed rfl
          apply (pop_uses mid _ Registers.af Registers.setAf (fun _ _ => word_hi_lo _)
            fun _ _ => rfl).mono
          exact fun _ _ _ done => ⟨done, rfl⟩
    · rw [Bool.not_eq_true] at stores
      by_cases swap : op = 0xE3#8
      · subst swap
        cases own rfl
        apply dispatchOpcode_done none mid ed rfl
        apply (swap_uses mid).mono
        exact fun _ next tail done => ⟨done, rfl⟩
      · apply (dispatchOpcode_conforms op single mid).mono
        intro t next tail met
        rw [plainRest, if_neg ed] at met
        apply UsesStack.of_opcode x mid _ ed
        · rw [stackUse_spare stores swap]
          exact met.sameSp (guardedStores_spare_sp stores)
        · rw [stackUse_spare stores swap, stackUse_spare stores swap]

theorem indexArm_default (x : IndexReg) {op : Byte} (stores : storesSp op = true)
    (other : op ≠ 0xE1#8 ∧ op ≠ 0xE5#8 ∧ op ≠ 0xF9#8) (t : Int) :
    indexArm x op t = (do let cost ← dispatchOpcode op; return t + cost) := by
  obtain ⟨popHl, pushHl, ldSp⟩ := other
  rcases storesSp_listed op stores with call | ret | rfl | rfl | listed
  · have listed := conditional_ops .call op call
    simp only [List.mem_cons, List.not_mem_nil, or_false] at listed
    rcases listed with rfl | rfl | rfl | rfl | rfl | rfl | rfl | rfl <;> rfl
  · have listed := conditional_ops .ret op ret
    simp only [List.mem_cons, List.not_mem_nil, or_false] at listed
    rcases listed with rfl | rfl | rfl | rfl | rfl | rfl | rfl | rfl <;> rfl
  · rfl
  · rfl
  · simp only [List.mem_cons, List.not_mem_nil, or_false, popHl, pushHl, ldSp, false_or] at listed
    rcases listed with ((rfl | rfl | rfl) | (rfl | rfl | rfl | rfl | rfl | rfl | rfl | rfl) |
      (rfl | rfl | rfl) | rfl | rfl | rfl) <;> rfl

theorem pushIndex_uses (x : IndexReg) (t : Int) : (do pushIndex x; return t : Z80M Int).Holds
    (fun _ next tail => StackUse.push.Done (Registers.index x) mid next tail) mid := by
  simp only [pushIndex, holds_bind, holds_getRegs, holds_idle, holds_push16, holds_pure]
  exact ⟨rfl, rfl⟩

theorem indexArm_uses (x : IndexReg) (op : Byte) (t : Int) (single : isIndexPrefix op = false) :
    (indexArm x op t).Holds (fun _ next tail =>
      UsesStack (some x) (op :: fetchedBytes tail) mid next tail) mid := by
  have own {use : StackUse} {pair : Registers → Word} {arm : Z80M Int} (ed : op ≠ 0xED#8)
      (table : ∀ flags, stackUse flags op = use) (same : stackPair (some x) [op] = pair)
      (done : arm.Holds (fun _ next tail => use.Done pair mid next tail) mid) :
      arm.Holds (fun _ next tail => UsesStack (some x) (op :: fetchedBytes tail) mid next tail)
        mid := by
    apply done.mono
    intro _ next tail done
    apply UsesStack.of_opcode (some x) mid _ ed
    · rw [table, same]
      exact done
    · rw [table, table]
  by_cases special : op ∈ [0xED#8, 0xE1#8, 0xE3#8, 0xE5#8, 0xF9#8]
  · simp only [List.mem_cons, List.not_mem_nil, or_false] at special
    rcases special with rfl | rfl | rfl | rfl | rfl
    · have code : indexArm x 0xED#8 t = (do
          let cost ← dispatchOpcode 0xED#8; return t + cost) := rfl
      rw [code]
      simp only [holds_bind, holds_pure, List.append_nil]
      exact dispatchEd_uses (some x) mid
    · apply own (by decide) (fun _ => rfl) rfl (pop_uses mid (t + 10) _ (Registers.setIndex x) _ _)
      · cases x <;> exact fun _ _ => rfl
      · cases x <;> exact fun _ _ => rfl
    · exact own (by decide) (fun _ => rfl) rfl (swapIndex_uses mid x (t + 19))
    · exact own (by decide) (fun _ => rfl) rfl (pushIndex_uses mid x (t + 11))
    · have moved : (indexArm x 0xF9#8 t).Holds (fun _ next tail =>
          StackUse.move.Done (stackPair (some x) [0xF9#8]) mid next tail) mid :=
        Holds.intro _ (fun _ _ _ => trivial) mid
      exact own (by decide) (fun _ => rfl) rfl moved
  · simp only [List.mem_cons, List.not_mem_nil, or_false, not_or] at special
    obtain ⟨ed, popHl, swapHl, pushHl, ldSp⟩ := special
    by_cases stores : storesSp op = true
    · rw [indexArm_default x stores ⟨popHl, pushHl, ldSp⟩]
      simp only [holds_bind, holds_pure, List.append_nil]
      apply dispatchOpcode_uses (some x) mid op single
      simp [stacksHl, popHl, swapHl, pushHl]
    · rw [Bool.not_eq_true] at stores
      apply (indexArm_conforms x op single t mid).mono
      intro cost next tail met
      rw [indexedRest, if_neg ed] at met
      apply UsesStack.of_opcode (some x) mid _ ed
      · rw [stackUse_spare stores swapHl]
        apply met.sameSp
        rw [indexProfile, List.mem_cons, not_or]
        refine ⟨?_, guardedStores_spare_sp stores⟩
        cases x <;> decide
      · rw [stackUse_spare stores swapHl, stackUse_spare stores swapHl]

end Dispatch

end Z80f
