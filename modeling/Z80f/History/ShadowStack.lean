import Z80f.Control.StackUse
import Z80f.Cpu.Session
import Z80f.Interrupts.Entry

/-! # The stack of a session

The pushes and pops of a session act on one list of words.  As long as nothing
else moves SP or writes into the words on the stack, memory holds that list, a
return goes where its own call or interrupt left, and POP gets what its own
PUSH put. -/

set_option autoImplicit false

namespace Z80f

open Interaction Stateful

/-- The words of `stack` lie below `base`, and SP points to the top. -/
structure StackAt (memory : Memory) (base sp : Word) (stack : List Word) : Prop where
  sp : sp = base - BitVec.ofNat 16 (2 * stack.length)
  fits : stack.length ≤ 32768
  words : Stacked memory base stack

section StackAt
variable {memory : Memory} {base sp v w : Word} {stack : List Word} {path : Path}

theorem StackAt.push (at_ : StackAt memory base sp stack) (room : stack.length < 32768)
    (writes : writesOf path = [(sp - 1, hi v), (sp - 1 - 1, lo v)]) :
    StackAt (memoryAfter memory path) base (sp - 1 - 1) (v :: stack) := by
  obtain ⟨top, -, words⟩ := at_
  have low : sp - 1 - 1 = frame base stack.length := by rw [top, frame_low]
  have high : sp - 1 = frame base stack.length + 1 := by rw [← low, BitVec.sub_add_cancel]
  refine ⟨low, room, ?_, words.of_same fun address above => ?_⟩
  · rw [wordAt, ← low]
    exact pushed_word sp v writes memory
  · obtain ⟨notHigh, notLow⟩ := frame_apart room above
    apply pushed_apart sp v writes memory
    · rw [high]
      exact notHigh
    · rw [low]
      exact notLow

theorem StackAt.top (at_ : StackAt memory base sp (v :: stack)) : wordAt memory sp = v := by
  rw [at_.sp]
  exact at_.words.1

theorem StackAt.below (at_ : StackAt memory base sp (v :: stack)) :
    StackAt memory base (sp + 1 + 1) stack := by
  constructor
  · rw [at_.sp, List.length_cons]
    bv_omega
  · exact Nat.le_of_succ_le at_.fits
  · exact at_.words.2

theorem StackAt.spare (at_ : StackAt memory base sp stack)
    (apart : ∀ write ∈ writesOf path, ¬ Below base (2 * stack.length) write.1) :
    StackAt (memoryAfter memory path) base sp stack := by
  refine ⟨at_.sp, at_.fits, at_.words.of_same fun address below => ?_⟩
  apply memoryAfter_apart
  rintro write member rfl
  exact apart write member below

theorem StackAt.swap (at_ : StackAt memory base sp (v :: stack))
    (writes : writesOf path = [(sp + 1, hi w), (sp, lo w)]) :
    StackAt (memoryAfter memory path) base sp (w :: stack) := by
  have pushed : writesOf path = [(sp + 1 + 1 - 1, hi w), (sp + 1 + 1 - 1 - 1, lo w)] := by
    rw [writes, BitVec.add_sub_cancel, BitVec.add_sub_cancel]
  have again := at_.below.push at_.fits pushed
  rwa [BitVec.add_sub_cancel, BitVec.add_sub_cancel] at again

end StackAt

section History
variable {Host : Type}

abbrev Stepped.path (result : Stepped Host) : Path := result.calls.map Exchange.answered

/-- The interrupts push like a call. -/
def stackUseOf (result : Stepped Host) : StackUse :=
  match result.kind with
  | .nmi | .int => .call
  | .halted => .spare
  | .instruction _ =>
      codeStackUse result.machine.z80.regs.flags (codeOf (fetchedBytes result.path))

def pushedWord (path : Path) : Word :=
  match writesOf path with
  | (_, high) :: (_, low) :: _ => word high low
  | _ => 0

instance (sp : Word) (n : Nat) (address : Word) : Decidable (Below sp n address) :=
  decidable_of_iff _ below_iff.symm

/-- The words on the stack after a step.  `none` once memory is full, a pop
meets the empty stack, SP moves otherwise, or a word on the stack is overwritten. -/
def shadowStep (base : Word) (result : Stepped Host) (stack : List Word) : Option (List Word) :=
  match stackUseOf result, stack with
  | .call, _ | .push, _ =>
      if stack.length < 32768 then some (pushedWord result.path :: stack) else none
  | .ret, _ :: below | .pop, _ :: below => some below
  | .swap, _ :: below => some (pushedWord result.path :: below)
  | .spare, _ =>
      if (writesOf result.path).all fun write => !decide (Below base (2 * stack.length) write.1)
      then some stack
      else none
  | _, _ => none

/-- The words on the stack after a session that began with SP at `base`. -/
def shadow (base : Word) : List (Action Host) → Option (List Word)
  | [] => some []
  | .stepped result :: earlier => (shadow base earlier).bind (shadowStep base result)
  | _ :: earlier => shadow base earlier

/-- Where the word that a call or an interrupt pushes comes back to. -/
def returnAddress (s : Machine Host) (result : Stepped Host) : Word :=
  match result.kind with
  | .instruction _ => s.z80.regs.pc + BitVec.ofNat 16 (fetchedBytes result.path).length
  | _ => s.z80.regs.wake.pc

def pairOf (result : Stepped Host) : Registers → Word :=
  stackPair (lastPrefix (fetchedBytes result.path)) (codeOf (fetchedBytes result.path))

/-- The registers before and after a step agree with the words on the stack. -/
def Matches (s : Machine Host) (result : Stepped Host) (stack stack' : List Word) : Prop :=
  match stackUseOf result with
  | .spare | .move => stack' = stack
  | .call => stack' = returnAddress s result :: stack
  | .push => stack' = pairOf result s.z80.regs :: stack
  | .ret => stack = result.machine.z80.regs.pc :: stack'
  | .pop => stack = pairOf result result.machine.z80.regs :: stack'
  | .swap => ∃ below, stack = pairOf result result.machine.z80.regs :: below ∧
      stack' = pairOf result s.z80.regs :: below

end History

/-! ## One step -/

section Step
variable {Host : Type} {s : Machine Host} {result : Stepped Host}

/-- The use of the stack, seen from outside the step. -/
def StepUses (s : Machine Host) (result : Stepped Host) : StackUse → Prop
  | .spare => result.machine.z80.regs.sp = s.z80.regs.sp
  | .call => Pushes (returnAddress s result) s.z80.toCpu result.machine.z80.toCpu result.path
  | .push => Pushes (pairOf result s.z80.regs) s.z80.toCpu result.machine.z80.toCpu result.path
  | .ret => Pops result.machine.z80.regs.pc s.z80.toCpu result.machine.z80.toCpu result.path
  | .pop => Pops (pairOf result result.machine.z80.regs) s.z80.toCpu result.machine.z80.toCpu
      result.path
  | .swap => Swaps (pairOf result result.machine.z80.regs) (pairOf result s.z80.regs) s.z80.toCpu
      result.machine.z80.toCpu result.path
  | .move => True

section Widen
variable {cpu mid settled next : Cpu} {path tail : Path} {v w : Word}
  (start : mid.regs.sp = cpu.regs.sp) (last : next.regs.sp = settled.regs.sp)
  (writes : writesOf path = writesOf tail)
include start last writes

theorem Pushes.widen (pushes : Pushes v mid settled tail) : Pushes v cpu next path := by
  constructor
  · rw [last, ← start]
    exact pushes.sp
  · rw [writes, ← start]
    exact pushes.writes

variable (reads : ∀ memory, ReadsFrom memory path → ReadsFrom memory tail)
include reads

theorem Pops.widen (pops : Pops v mid settled tail) : Pops v cpu next path := by
  constructor
  · rw [last, ← start]
    exact pops.sp
  · rw [writes]
    exact pops.writes
  · intro memory holds
    rw [← start]
    exact pops.reads memory (reads memory holds)

theorem Swaps.widen (swaps : Swaps v w mid settled tail) : Swaps v w cpu next path := by
  constructor
  · rw [last, ← start]
    exact swaps.sp
  · rw [writes, ← start]
    exact swaps.writes
  · intro memory holds
    rw [← start]
    exact swaps.reads memory (reads memory holds)

end Widen

/-- The relation of the table, for the rule of the instructions. -/
def stackRest : Rest := fun x code _ mid next tail => UsesStack x code mid next tail

theorem instruction_uses {bus : Bus Host} {fuel : Nat}
    (returns : step bus fuel s = some result) {t : Int} (kind : result.kind = .instruction t) :
    StepUses s result (stackUseOf result) := by
  obtain ⟨settled, mid, head, tail, final, split, behind⟩ := step_behind stackRest
    (fun op single mid => dispatchOpcode_uses none mid op single fun _ => rfl)
    (fun x op t single mid => indexArm_uses mid x op t single) returns kind
  have path : result.path = head ++ tail := split
  have writes : writesOf result.path = writesOf tail := by rw [path, behind.writes]
  have reads (memory : Memory) (holds : ReadsFrom memory result.path) : ReadsFrom memory tail := by
    rw [path] at holds
    exact behind.reads holds
  have back := behind.end_pc
  obtain ⟨done, same⟩ := behind.holds
  rw [← path] at back done same
  have use : stackUseOf result =
      codeStackUse mid.regs.flags (codeOf (fetchedBytes result.path)) := by
    rw [stackUseOf, kind, ← same, final]
    rfl
  have opens := behind.opens
  rw [← path] at opens
  have sp : mid.regs.sp = s.z80.regs.sp := by
    obtain ⟨pc, r, rfl⟩ := opens
    rfl
  have pair : pairOf result mid.regs = pairOf result s.z80.regs := by
    obtain ⟨pc, r, rfl⟩ := opens
    rfl
  have settledPair : pairOf result result.machine.z80.regs = pairOf result settled.regs := by
    rw [final]
    rfl
  have last : result.machine.z80.regs.sp = settled.regs.sp := by
    rw [final]
    rfl
  rw [use]
  generalize codeStackUse mid.regs.flags (codeOf (fetchedBytes result.path)) = use at done
  cases use with
  | spare => exact last.trans (done.trans sp)
  | call =>
      have address : returnAddress s result =
          mid.regs.pc + BitVec.ofNat 16 (fetchedBytes tail).length := by
        rw [returnAddress, kind, back]
        rfl
      rw [StepUses, address]
      exact done.widen sp last writes
  | push =>
      rw [StepUses, ← pair]
      exact done.widen sp last writes
  | ret =>
      have pc : result.machine.z80.regs.pc = settled.regs.pc := by
        rw [final]
        rfl
      rw [StepUses, pc]
      exact done.widen sp last writes reads
  | pop =>
      rw [StepUses, settledPair]
      exact done.widen sp last writes reads
  | swap =>
      rw [StepUses, settledPair, ← pair]
      exact done.widen sp last writes reads
  | move => trivial

theorem StepCase.sparesSp {cpu next : Cpu} {path : Path}
    (case : StepCase cpu .halted next path) : next.regs.sp = cpu.regs.sp ∧ writesOf path = [] := by
  cases case with
  | halted => exact ⟨rfl, rfl⟩

theorem step_uses {bus : Bus Host} {fuel : Nat} (returns : step bus fuel s = some result) :
    StepUses s result (stackUseOf result) := by
  have case := step_case returns
  have entered (accepted : result.kind = .nmi ∨ result.kind = .int) :
      Pushes s.z80.regs.wake.pc s.z80.toCpu result.machine.z80.toCpu result.path := by
    obtain ⟨-, sp, writes⟩ := case.pushes accepted
    exact ⟨sp, writes⟩
  rcases kind : result.kind with _ | _ | _ | t
  · rw [stackUseOf, kind, StepUses, returnAddress, kind]
    exact entered (.inl kind)
  · rw [stackUseOf, kind, StepUses, returnAddress, kind]
    exact entered (.inr kind)
  · rw [stackUseOf, kind, StepUses]
    rw [kind] at case
    exact case.sparesSp.1
  · exact instruction_uses returns kind

theorem Pushes.pushedWord {v : Word} {cpu next : Cpu} {path : Path}
    (pushes : Pushes v cpu next path) : pushedWord path = v := by
  rw [Z80f.pushedWord, pushes.writes]
  exact word_hi_lo v

theorem Swaps.pushedWord {v w : Word} {cpu next : Cpu} {path : Path}
    (swaps : Swaps v w cpu next path) : Z80f.pushedWord path = w := by
  rw [Z80f.pushedWord, swaps.writes]
  exact word_hi_lo w

variable {bus : RamBus Host} {base : Word} {stack stack' : List Word} {fuel : Nat}

theorem StackAt.pushed {v : Word} {next : Cpu} {path : Path}
    (at_ : StackAt (bus.memory s.host) base s.z80.regs.sp stack) (room : stack.length < 32768)
    (pushes : Pushes v s.z80.toCpu next path) :
    StackAt (memoryAfter (bus.memory s.host) path) base next.regs.sp (v :: stack) := by
  rw [pushes.sp]
  exact at_.push room pushes.writes

theorem StackAt.popped {v w : Word} {next : Cpu} {path : Path}
    (at_ : StackAt (bus.memory s.host) base s.z80.regs.sp (w :: stack))
    (reads : ReadsFrom (bus.memory s.host) path) (pops : Pops v s.z80.toCpu next path) :
    w = v ∧ StackAt (memoryAfter (bus.memory s.host) path) base next.regs.sp stack := by
  constructor
  · rw [← at_.top]
    exact pops.reads _ reads
  · rw [pops.sp, memoryAfter_writes, pops.writes]
    exact at_.below

theorem step_shadow (at_ : StackAt (bus.memory s.host) base s.z80.regs.sp stack)
    (returns : step bus.toBus fuel s = some result)
    (shadowed : shadowStep base result stack = some stack') :
    StackAt (bus.memory result.machine.host) base result.machine.z80.regs.sp stack' ∧
      Matches s result stack stack' := by
  obtain ⟨reads, memory⟩ := bus.step_replays returns
  have uses := step_uses returns
  rw [memory]
  unfold Matches
  unfold shadowStep at shadowed
  generalize stackUseOf result = use at uses shadowed
  cases use with
  | spare =>
      obtain ⟨apart, ⟨⟩⟩ := Option.ite_none_right_eq_some.mp shadowed
      rw [uses]
      have outside : ∀ write ∈ writesOf result.path,
          ¬ Below base (2 * stack.length) write.1 := by
        intro write member
        simpa using List.all_eq_true.mp apart write member
      exact ⟨at_.spare outside, rfl⟩
  | call =>
      obtain ⟨room, ⟨⟩⟩ := Option.ite_none_right_eq_some.mp shadowed
      rw [uses.pushedWord]
      exact ⟨at_.pushed room uses, rfl⟩
  | push =>
      obtain ⟨room, ⟨⟩⟩ := Option.ite_none_right_eq_some.mp shadowed
      rw [uses.pushedWord]
      exact ⟨at_.pushed room uses, rfl⟩
  | ret =>
      cases stack with
      | nil => cases shadowed
      | cons w below =>
          cases shadowed
          obtain ⟨rfl, left⟩ := at_.popped reads uses
          exact ⟨left, rfl⟩
  | pop =>
      cases stack with
      | nil => cases shadowed
      | cons w below =>
          cases shadowed
          obtain ⟨rfl, left⟩ := at_.popped reads uses
          exact ⟨left, rfl⟩
  | swap =>
      cases stack with
      | nil => cases shadowed
      | cons w below =>
          cases shadowed
          have top : w = pairOf result result.machine.z80.regs := by
            rw [← at_.top]
            exact uses.reads _ reads
          rw [uses.pushedWord, uses.sp]
          exact ⟨at_.swap uses.writes, below, by rw [top], rfl⟩
  | move =>
      cases stack with
      | nil => cases shadowed
      | cons w below => cases shadowed

theorem run_shadow {start : Machine Host} {history : List (Action Host)}
    (run : Run (Act bus.toBus) start history s)
    (shadowed : shadow start.z80.regs.sp history = some stack) :
    StackAt (bus.memory s.host) start.z80.regs.sp s.z80.regs.sp stack := by
  induction run generalizing stack with
  | start =>
      cases shadowed
      exact ⟨(BitVec.sub_zero _).symm, by simp, trivial⟩
  | next run act ih =>
      cases act with
      | setNmiLine | setIntLine | pulseIntLine => exact ih shadowed
      | stepped returns =>
          obtain ⟨before, earlier, taken⟩ := Option.bind_eq_some_iff.mp shadowed
          exact (step_shadow (ih earlier) returns taken).1

end Step

/-- The stack in memory refines a list of words over every session: from any
start, with interrupts and line changes at any point, as long as `shadow`
follows the session.  CALL, RST and the interrupts push the address to come back
to and PUSH its pair; every RET, RETI and RETN goes to the word on top of the
list, every POP gets it and `EX (SP)` exchanges it; SP and the words in memory
are those of the list. -/
theorem session_stack {Host : Type} (bus : RamBus Host) (start : Machine Host)
    (history : List (Action Host)) (s : Machine Host) (stack : List Word)
    (run : Run (Act bus.toBus) start history s)
    (shadowed : shadow start.z80.regs.sp history = some stack) :
    s.z80.regs.sp = start.z80.regs.sp - BitVec.ofNat 16 (2 * stack.length) ∧
    (∀ i v, stack[i]? = some v →
      wordAt (bus.memory s.host) (s.z80.regs.sp + BitVec.ofNat 16 (2 * i)) = v) ∧
    ∀ fuel result stack', step bus.toBus fuel s = some result →
      shadow start.z80.regs.sp (.stepped result :: history) = some stack' →
      Matches s result stack stack' := by
  have at_ := run_shadow run shadowed
  refine ⟨at_.sp, fun i v here => ?_, fun fuel result stack' returns later => ?_⟩
  · rw [at_.sp]
    exact at_.words.get here
  · obtain ⟨before, earlier, taken⟩ := Option.bind_eq_some_iff.mp later
    rw [shadowed] at earlier
    cases earlier
    exact (step_shadow at_ returns taken).2

/-- `CALL 4` at 0 and the RET at 4. -/
theorem session_stack_call : ∃ history s result,
    Run (Act flatRam.toBus) { z80 := {}, host := programAt 0 [0xCD, 4, 0, 0, 0xC9] 0 } history s ∧
      step flatRam.toBus 0 s = some result ∧ result.machine.z80.regs.pc = 3 := by
  have run := Run.next (@Run.start _ _ (Act flatRam.toBus)
    { z80 := {}, host := programAt 0 [0xCD, 4, 0, 0, 0xC9] 0 }) (@Act.stepped _ _ _ 0 _ rfl)
  have popped := (session_stack flatRam _ _ _ [3] run rfl).2.2 0 _ [] rfl rfl
  exact ⟨_, _, _, run, rfl, (List.cons.inj popped).1.symm⟩

end Z80f
