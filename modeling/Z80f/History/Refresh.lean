import Z80f.Cpu.Session
import Z80f.Encoding.Consumption
import Z80f.Encoding.Opening
import Z80f.Prefix.Chain
import Mathlib.Tactic.IntervalCases

/-! # R counts the M1 cycles

A prefix and an opcode are one M1 cycle each, and so are an acknowledge and a
halted cycle.  Along a run without LD R,A the low seven bits of R are their
number; LD R,A starts the count anew. -/

set_option autoImplicit false

namespace Z80f

open Interaction Stateful Z80M

/-- From the opcode on; the opcode of an indexed CB is read as data. -/
def codeM1 (indexed : Bool) : List Byte → Nat
  | [] => 0
  | op :: _ =>
      if op = 0xED#8 then 2 else if op = 0xCB#8 then if indexed then 1 else 2 else 1

def instructionM1 (bytes : List Byte) : Nat :=
  prefixCount bytes + codeM1 (lastPrefix bytes).isSome (codeOf bytes)

def stepM1 (kind : StepKind) (path : Path) : Nat :=
  match kind with
  | .instruction _ => instructionM1 (fetchedBytes path)
  | .nmi | .int | .halted => 1

def isLdRA (bytes : List Byte) : Bool := (codeOf bytes).take 2 == [0xED#8, 0x4F#8]

section History
variable {Host : Type}

def actionM1 : Action Host → Nat
  | .stepped result => stepM1 result.kind (result.calls.map Exchange.answered)
  | _ => 0

def totalM1 (history : List (Action Host)) : Nat := (history.map actionM1).sum

def loadsR : Action Host → Bool
  | .stepped result =>
      match result.kind with
      | .instruction _ => isLdRA (fetchedBytes (result.calls.map Exchange.answered))
      | .nmi | .int | .halted => false
  | _ => false

end History

theorem plainRest_opcodes (op : Byte) (rest : List Byte) :
    (plainRest op rest).opcodes + 1 = codeM1 false (op :: rest) := by
  by_cases ed : op = 0xED#8
  · rw [plainRest, if_pos ed, codeM1, if_pos ed]
    rfl
  · rw [plainRest, if_neg ed, codeM1, if_neg ed]
    by_cases cb : op = 0xCB#8
    · rw [opcodeProfile, if_pos cb, if_pos cb]
      rfl
    · rw [opcodeProfile, if_neg cb, if_neg cb]

theorem indexedRest_opcodes (x : IndexReg) (op : Byte) (rest : List Byte) :
    (indexedRest x op rest).opcodes + 1 = codeM1 true (op :: rest) := by
  by_cases ed : op = 0xED#8
  · rw [indexedRest, if_pos ed, plainRest_opcodes, codeM1, codeM1, if_pos ed, if_pos ed]
  · rw [indexedRest, if_neg ed, codeM1, if_neg ed, if_pos rfl, ite_self]
    rfl

theorem prefixedRest_opcodes (x : IndexReg) (rest : List Byte) :
    (prefixedRest x rest).opcodes = prefixCount rest + codeM1 true (codeOf rest) := by
  induction rest generalizing x with
  | nil => rfl
  | cons op rest ih =>
      rw [prefixedRest_cons, prefixedBy]
      by_cases more : isIndexPrefix op = true
      · rw [if_pos more, prefixCount_prefixed _ more, codeOf_prefixed _ more, Nat.add_right_comm,
          ← ih (prefixReg op)]
        rfl
      · have last := Bool.eq_false_iff.mpr more
        rw [if_neg more, prefixCount_last _ last, codeOf_last _ last, Nat.zero_add,
          ← indexedRest_opcodes x]
        rfl

theorem instructionProfile_opcodes (bytes : List Byte) :
    (instructionProfile bytes).opcodes = instructionM1 bytes := by
  cases bytes with
  | nil => rfl
  | cons op rest =>
      rw [instructionProfile, unprefixedRest, instructionM1, lastPrefix_isSome]
      by_cases isPrefix : isIndexPrefix op = true
      · rw [if_pos isPrefix, isPrefix, prefixCount_prefixed _ isPrefix,
          codeOf_prefixed _ isPrefix, Nat.add_right_comm, ← prefixedRest_opcodes (prefixReg op)]
        rfl
      · have last := Bool.eq_false_iff.mpr isPrefix
        rw [if_neg isPrefix, last, prefixCount_last _ last, codeOf_last _ last, Nat.zero_add,
          ← plainRest_opcodes]
        rfl

theorem codeProfile_setsR (x : Option IndexReg) (code : List Byte) :
    (codeProfile x code).setsR = (code.take 2 == [0xED#8, 0x4F#8]) := by
  cases code with
  | nil => rfl
  | cons op rest =>
      by_cases ed : op = 0xED#8
      · subst ed
        have both : codeProfile x (0xED#8 :: rest) = plainRest 0xED#8 rest := by
          cases x <;> rfl
        rw [both, plainRest, if_pos rfl]
        cases rest with
        | nil => rfl
        | cons second rest => simp [Profile.behindOpcode, edProfile]
      · have other : ((op :: rest).take 2 == [0xED#8, 0x4F#8]) = false := by
          simp [ed]
        rw [other]
        cases x with
        | none => rw [codeProfile, plainRest, if_neg ed]; rfl
        | some x => rw [codeProfile, indexedRest, if_neg ed]; rfl

theorem instructionProfile_setsR (bytes : List Byte) :
    (instructionProfile bytes).setsR = isLdRA bytes := by
  obtain ⟨length, opcodes, same⟩ := instructionProfile_code bytes
  rw [same, isLdRA]
  exact codeProfile_setsR _ _

/-! ## R along a run -/

theorem advanceR_add (m n : Nat) (r : Byte) : advanceR (m + n) r = advanceR m (advanceR n r) :=
  Function.iterate_add_apply _ m n r

/-- Bit 7 stays and the other seven count. -/
def Advances (count : Nat) (r r' : Byte) : Prop :=
  r' &&& 0x80#8 = r &&& 0x80#8 ∧ r'.toNat % 128 = (r.toNat + count) % 128

theorem advances_advanceR (count : Nat) (r : Byte) : Advances count r (advanceR count r) := by
  rw [advanceR_eq]
  constructor
  · ext i bound
    interval_cases i <;> simp
  · rw [masked_split, BitVec.toNat_add, BitVec.toNat_ofNat]
    omega

theorem StepCase.advances {cpu next : Cpu} {kind : StepKind} {path : Path}
    (case : StepCase cpu kind next path)
    (keepsR : ∀ t, kind = .instruction t → isLdRA (fetchedBytes path) = false) :
    next.regs.r = advanceR (stepM1 kind path) cpu.regs.r := by
  cases case with
  | nmi => rw [Registers.nmiEntry_eq]; rfl
  | int noNmi accepts databus pc wz tail => rw [Registers.intEntry_eq]; rfl
  | halted => rfl
  | instruction noNmi noInt running t settled path met =>
      obtain ⟨s, meets, -⟩ := met
      have noStore : s.setsR = false := by
        rw [meets.setsR, instructionProfile_setsR]
        exact keepsR t rfl
      have counted : settled.regs.r = advanceR s.opcodes cpu.regs.r := meets.signed.r noStore
      rw [stepM1, ← instructionProfile_opcodes, ← meets.opcodes]
      exact counted

section Runs
variable {Host : Type} {bus : Bus Host} {start last : Machine Host} {history : List (Action Host)}

theorem run_advances (run : Run (Act bus) start history last)
    (keepsR : ∀ action ∈ history, loadsR action = false) :
    last.z80.regs.r = advanceR (totalM1 history) start.z80.regs.r := by
  induction run with
  | start => rfl
  | @next history state last action run act ih =>
      have before := ih fun action member => keepsR action (List.mem_cons_of_mem _ member)
      have here := keepsR action List.mem_cons_self
      rw [totalM1, List.map_cons, List.sum_cons, advanceR_add]
      change _ = advanceR _ (advanceR (totalM1 history) _)
      rw [← before]
      cases act with
      | setNmiLine | setIntLine | pulseIntLine => rfl
      | stepped returns =>
          apply (step_case returns).advances
          intro t isInstruction
          rw [loadsR, isInstruction] at here
          exact here

end Runs

/-- LDIR, CPIR, INIR, OTIR and their decrementing kin, behind ED. -/
def repeating : List Byte := [0xB0, 0xB8, 0xB1, 0xB9, 0xB2, 0xBA, 0xB3, 0xBB]

/-- What matters of an instruction behind ED, whose bytes are fetched. -/
structure EdRefreshes (op : Byte) (cpu next : Cpu) : Prop where
  loads : op = 0x4F#8 → next.regs.r = cpu.regs.a
  reads : op = 0x5F#8 → next.regs.a = next.regs.r
  rounds : op ∈ repeating → next.regs.pc = cpu.regs.pc ∨ next.regs.pc = cpu.regs.pc - 2

section Rounds
variable (delta : Int) (repeats : Bool) (cpu : Cpu)

/-- A round ends behind the instruction or back on it. -/
def EndsRound (_ : Int) (next : Cpu) (_ : Path) : Prop :=
  next.regs.pc = cpu.regs.pc ∨ next.regs.pc = cpu.regs.pc - 2

theorem blockLd_rounds : (blockLd delta repeats).Holds (EndsRound cpu) cpu := by
  rw [holds_blockLd]
  exact fun v => ⟨fun _ => .inl rfl, fun _ => .inr rfl⟩

theorem blockCp_rounds : (blockCp delta repeats).Holds (EndsRound cpu) cpu := by
  rw [holds_blockCp]
  exact fun v => ⟨fun _ => .inl rfl, fun _ => .inr rfl⟩

theorem blockIn_rounds : (blockIn delta repeats).Holds (EndsRound cpu) cpu := by
  rw [holds_blockIn]
  exact fun v => ⟨fun _ => .inl rfl, fun _ => .inr rfl⟩

theorem blockOut_rounds : (blockOut delta repeats).Holds (EndsRound cpu) cpu := by
  rw [holds_blockOut]
  exact fun v => ⟨fun _ => .inl rfl, fun _ => .inr rfl⟩

theorem edArm_rounds {op : Byte} (block : op ∈ repeating) :
    (edArm op).Holds (EndsRound cpu) cpu := by
  simp only [repeating, List.mem_cons, List.not_mem_nil, or_false] at block
  rcases block with rfl | rfl | rfl | rfl | rfl | rfl | rfl | rfl
  · exact blockLd_rounds _ _ cpu
  · exact blockLd_rounds _ _ cpu
  · exact blockCp_rounds _ _ cpu
  · exact blockCp_rounds _ _ cpu
  · exact blockIn_rounds _ _ cpu
  · exact blockIn_rounds _ _ cpu
  · exact blockOut_rounds _ _ cpu
  · exact blockOut_rounds _ _ cpu

end Rounds

theorem edArm_refreshes (op : Byte) (cpu : Cpu) :
    (edArm op).Holds (fun _ next _ => EdRefreshes op cpu next) cpu := by
  by_cases loads : op = 0x4F#8
  · subst loads
    simp only [edArm, ldRA, holds_bind, holds_getRegs, holds_idle, holds_modifyRegs, holds_pure]
    exact ⟨fun _ => rfl, fun same => absurd same (by decide), fun block => absurd block (by decide)⟩
  · by_cases reads : op = 0x5F#8
    · subst reads
      simp only [edArm, ldAFrom, holds_bind, holds_getRegs, holds_idle, holds_modifyRegs,
        holds_writeFlags, holds_pure]
      exact ⟨fun same => absurd same (by decide), fun _ => rfl,
        fun block => absurd block (by decide)⟩
    · by_cases block : op ∈ repeating
      · apply (edArm_rounds cpu block).mono
        exact fun _ _ _ ends => ⟨fun same => absurd same loads, fun same => absurd same reads,
          fun _ => ends⟩
      · apply Holds.intro
        exact fun _ _ _ => ⟨fun same => absurd same loads, fun same => absurd same reads,
          fun same => absurd same block⟩

def CodeRefreshes (code : List Byte) (mid next : Cpu) : Prop :=
  ∀ op, code.take 2 = [0xED, op] → EdRefreshes op mid.opcodeFetched next

theorem dispatchOpcode_refreshes (op : Byte) (cpu : Cpu) :
    (dispatchOpcode op).Holds (fun _ next path =>
      CodeRefreshes (op :: fetchedBytes path) cpu next) cpu := by
  by_cases ed : op = 0xED#8
  · subst ed
    have dispatched : dispatchOpcode 0xED#8 = dispatchEd := rfl
    rw [dispatched, dispatchEd]
    simp only [holds_bind, holds_fetchOpcode]
    intro second
    apply (edArm_refreshes second _).mono
    intro _ next tail refreshes op same
    obtain ⟨-, same⟩ := List.cons.inj same
    obtain ⟨rfl, -⟩ := List.cons.inj same
    exact refreshes
  · apply Holds.intro
    intro _ next path second same
    exact absurd (List.cons.inj same).1 ed

theorem indexArm_refreshes (x : IndexReg) (op : Byte) (t : Int) (cpu : Cpu) :
    (indexArm x op t).Holds (fun _ next path =>
      CodeRefreshes (op :: fetchedBytes path) cpu next) cpu := by
  by_cases ed : op = 0xED#8
  · subst ed
    have passed : indexArm x 0xED#8 t = (do let cost ← dispatchOpcode 0xED#8; return t + cost) :=
      rfl
    rw [passed]
    simp only [holds_bind, holds_pure, List.append_nil]
    exact dispatchOpcode_refreshes _ cpu
  · apply Holds.intro
    intro _ next path second same
    exact absurd (List.cons.inj same).1 ed

/-- As `CodeRefreshes` for a whole instruction, with Q stored and PC counted from its start. -/
structure Refreshes (op : Byte) (prefixes : Nat) (cpu next : Cpu) : Prop where
  loads : op = 0x4F#8 → next.regs.r = cpu.regs.a
  reads : op = 0x5F#8 → next.regs.a = next.regs.r
  rounds : op ∈ repeating → next.regs.pc = cpu.regs.pc + BitVec.ofNat 16 (prefixes + 2) ∨
    next.regs.pc = cpu.regs.pc + BitVec.ofNat 16 prefixes

def BytesRefresh (cpu : Cpu) (bytes : List Byte) (next : Cpu) : Prop :=
  ∀ op, (codeOf bytes).take 2 = [0xED, op] → Refreshes op (prefixCount bytes) cpu next

theorem executeInstruction_refreshes (fuel : Nat) (cpu : Cpu) :
    (executeInstruction fuel).Holds (fun found next path => ∀ kind, found = some kind →
      BytesRefresh cpu (fetchedBytes path) next) cpu := by
  apply (executeInstruction_instructsAt (fun _ code mid next => CodeRefreshes code mid next)
    (fun op _ => dispatchOpcode_refreshes op) (fun x op t _ => indexArm_refreshes x op t)
    fuel cpu).mono
  intro found next path instructs kind eq op code
  obtain ⟨settled, rfl, mid, ⟨pc, r, opened⟩, behind, refreshes⟩ := instructs kind eq
  obtain ⟨loads, reads, rounds⟩ := refreshes op code
  have a : mid.regs.a = cpu.regs.a := by rw [opened]
  refine ⟨fun same => (loads same).trans a, reads, fun block => ?_⟩
  have done : mid.opcodeFetched.regs.pc =
      cpu.regs.pc + BitVec.ofNat 16 (prefixCount (fetchedBytes path) + 2) := by
    change mid.regs.pc + 1 = _
    rw [behind]
    bv_omega
  have again : mid.opcodeFetched.regs.pc - 2 =
      cpu.regs.pc + BitVec.ofNat 16 (prefixCount (fetchedBytes path)) := by
    rw [done]
    bv_omega
  rw [← done, ← again]
  exact rounds block

theorem stepBody_refreshes (fuel : Nat) (cpu : Cpu) :
    (stepBody fuel).Holds (fun found next path => ∀ kind, found = some kind →
      BytesRefresh cpu (fetchedBytes path) next) cpu := by
  apply stepBody_instructs fuel cpu
  · intro next op code
    cases code
  · apply (executeInstruction_refreshes fuel cpu.shadowLeft).mono
    intro found next path refresh kind eq op code
    obtain ⟨loads, reads, rounds⟩ := refresh kind eq op code
    exact ⟨loads, reads, rounds⟩

theorem take_ed {code : List Byte} {op : Byte} (starts : code.take 2 = [0xED, op]) :
    ∃ rest, code = 0xED#8 :: rest := by
  cases code with
  | nil => cases starts
  | cons first rest =>
      obtain ⟨rfl, -⟩ := List.cons.inj starts
      exact ⟨rest, rfl⟩

theorem instructionM1_ed {bytes : List Byte} {op : Byte}
    (code : (codeOf bytes).take 2 = [0xED, op]) : instructionM1 bytes = prefixCount bytes + 2 := by
  obtain ⟨rest, ed⟩ := take_ed code
  rw [instructionM1, ed]
  rfl

theorem StepCase.fetches_code {cpu next : Cpu} {kind : StepKind} {path : Path} {first : Byte}
    {rest : List Byte} (case : StepCase cpu kind next path)
    (code : codeOf (fetchedBytes path) = first :: rest) {t : Int}
    (isInstruction : kind = .instruction t) :
    readOf .fetch (cpu.regs.pc + BitVec.ofNat 16 (prefixCount (fetchedBytes path))) first ∈
      path := by
  subst isInstruction
  obtain ⟨settled, s, -, -, meets⟩ := case.executed
  have consumes : Consumes cpu.regs.pc s.fetched path := meets.signed.consumes meets.inOrder
  apply consumes.fetchedAt
  rw [← code]
  exact List.takeWhile_append_dropWhile.symm

/-- Along any run R advances by the M1 cycles if none of its steps is LD R,A.
After any run a step with LD R,A makes R equal to A; LD A,R reads R after all
its own M1 cycles; a round of a block instruction takes two M1 cycles behind
its prefixes, and if it repeats the next one starts from ED, without them. -/
theorem refresh_counts_m1 {Host : Type} (bus : Bus Host) (start last : Machine Host)
    (history : List (Action Host)) (run : Run (Act bus) start history last) :
    ((∀ action ∈ history, loadsR action = false) →
      last.z80.regs.r &&& 0x80#8 = start.z80.regs.r &&& 0x80#8 ∧
      last.z80.regs.r.toNat % 128 = (start.z80.regs.r.toNat + totalM1 history) % 128) ∧
    ∀ fuel stepped t op, step bus fuel last = some stepped → stepped.kind = .instruction t →
      let bytes := fetchedBytes (stepped.calls.map Exchange.answered)
      let r := last.z80.regs
      let r' := stepped.machine.z80.regs
      (codeOf bytes).take 2 = [0xED, op] →
      actionM1 (.stepped stepped) = prefixCount bytes + 2 ∧
      (op = 0x4F#8 → r'.r = r.a) ∧
      (op = 0x5F#8 → r'.a = r'.r ∧ r'.r &&& 0x80#8 = r.r &&& 0x80#8 ∧
        r'.r.toNat % 128 = (r.r.toNat + (prefixCount bytes + 2)) % 128) ∧
      (op ∈ repeating → r'.pc = r.pc + BitVec.ofNat 16 (prefixCount bytes + 2) ∨
        r'.pc = r.pc + BitVec.ofNat 16 (prefixCount bytes) ∧
          readOf .fetch r'.pc 0xED ∈ stepped.calls.map Exchange.answered) := by
  refine ⟨fun keepsR => ?_, ?_⟩
  · rw [run_advances run keepsR]
    exact advances_advanceR _ _
  · intro fuel stepped t op returns isInstruction bytes r r' code
    have m1 : actionM1 (.stepped stepped) = prefixCount bytes + 2 := by
      rw [actionM1, isInstruction]
      exact instructionM1_ed code
    obtain ⟨loads, reads, rounds⟩ :=
      Holds.step (stepBody_refreshes fuel last.z80.toCpu) returns _ rfl op code
    refine ⟨m1, loads, fun same => ⟨reads same, ?_⟩, fun block => ?_⟩
    · have keepsR : isLdRA bytes = false := by
        subst same
        exact beq_eq_false_iff_ne.mpr fun load => absurd (code.symm.trans load) (by decide)
      have advanced : r'.r = advanceR (actionM1 (.stepped stepped)) r.r :=
        (step_case returns).advances fun _ _ => keepsR
      rw [advanced, m1]
      exact advances_advanceR _ _
    · apply (rounds block).imp_right
      intro again
      obtain ⟨rest, ed⟩ := take_ed code
      refine ⟨again, ?_⟩
      rw [again]
      exact (step_case returns).fetches_code ed isInstruction

/-- NOP and `LD A,R` with R at 0xFF: the count wraps and bit 7 stays. -/
theorem refresh_counts_m1_ldAR :
    let start : Machine Memory :=
      { z80 := { regs := { r := 0xFF } }, host := programAt 0 [0x00, 0xED, 0x5F] 0 }
    ∃ history last stepped, Run (Act flatRam.toBus) start history last ∧
      last.z80.regs.r.toNat % 128 = (start.z80.regs.r.toNat + 1) % 128 ∧
      step flatRam.toBus 0 last = some stepped ∧
      stepped.machine.z80.regs.a = stepped.machine.z80.regs.r ∧
      stepped.machine.z80.regs.r.toNat % 128 = (last.z80.regs.r.toNat + 2) % 128 := by
  have run := Run.next (@Run.start _ _ (Act flatRam.toBus)
    { z80 := { regs := { r := 0xFF } }, host := programAt 0 [0x00, 0xED, 0x5F] 0 })
    (@Act.stepped _ _ _ 0 _ rfl)
  obtain ⟨counts, next⟩ := refresh_counts_m1 flatRam.toBus _ _ _ run
  obtain ⟨-, -, reads, -⟩ := next 0 _ 9 0x5F rfl rfl rfl
  obtain ⟨same, -, advanced⟩ := reads rfl
  refine ⟨_, _, _, run, ?_, rfl, same, advanced⟩
  exact (counts (List.forall_mem_singleton.mpr rfl)).2

end Z80f
