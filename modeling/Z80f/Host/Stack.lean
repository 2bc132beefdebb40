import Z80f.Host.Ram
import Z80f.Interaction.Lifo

/-! # The stack in RAM

`push16` and `pop16` refine the stack of words, wherever SP stands and as long
as the words fit into memory. -/

set_option autoImplicit false

namespace Z80f

open Interaction Stateful Z80M

def Below (sp : Word) (n : Nat) (address : Word) : Prop :=
  ∃ i < n, address = sp - 1 - BitVec.ofNat 16 i

theorem below_iff {sp address : Word} {n : Nat} :
    Below sp n address ↔ (sp - 1 - address).toNat < n := by
  constructor
  · rintro ⟨i, lt, rfl⟩
    bv_omega
  · intro lt
    refine ⟨(sp - 1 - address).toNat, lt, ?_⟩
    rw [BitVec.ofNat_toNat, BitVec.setWidth_eq]
    bv_omega

/-- Only a part of memory lies below SP if some byte does not. -/
theorem small_of_apart {sp address : Word} {n : Nat} (apart : ¬ Below sp n address) :
    n < 65536 := by
  rw [below_iff] at apart
  have bound := (sp - 1 - address).isLt
  omega

def wordAt (memory : Memory) (address : Word) : Word :=
  word (memory (address + 1)) (memory address)

/-- The `i`-th word below `sp`. -/
def frame (sp : Word) (i : Nat) : Word := sp - BitVec.ofNat 16 (2 * (i + 1))

theorem frame_low (sp : Word) (i : Nat) : frame sp i = sp - BitVec.ofNat 16 (2 * i) - 1 - 1 := by
  simp only [frame]
  bv_omega

section Push
variable (sp value : Word)

@[simp] theorem writesOf_push :
    writesOf (pushPath sp value) = [(sp - 1, hi value), (sp - 1 - 1, lo value)] := rfl

/-- The word on top of the stack after the push of `value`. -/
theorem pushed_word {path : Path}
    (writes : writesOf path = [(sp - 1, hi value), (sp - 1 - 1, lo value)]) (memory : Memory) :
    word (memoryAfter memory path (sp - 1 - 1 + 1)) (memoryAfter memory path (sp - 1 - 1)) =
      value := by
  have top : sp - 1 - 1 + 1 = sp - 1 := BitVec.sub_add_cancel _ _
  have apart : sp - 1 ≠ sp - 1 - 1 := by bv_omega
  rw [memoryAfter_writes, writes, top]
  simp only [List.foldl_cons, List.foldl_nil, Function.update_self, Function.update_of_ne apart]
  exact word_hi_lo value

theorem pushed_apart {path : Path} {address : Word}
    (writes : writesOf path = [(sp - 1, hi value), (sp - 1 - 1, lo value)]) (memory : Memory)
    (high : address ≠ sp - 1) (low : address ≠ sp - 1 - 1) :
    memoryAfter memory path address = memory address := by
  rw [memoryAfter_writes, writes, List.foldl_cons, List.foldl_cons, List.foldl_nil,
    Function.update_of_ne low, Function.update_of_ne high]

end Push

section Ram
variable {Host : Type} (bus : RamBus Host) (s : Machine Host)

theorem RamBus.exec_push16 (v : Word) :
    let ran := exec bus.toBus (push16 v) s
    ran.machine.z80.regs.sp = s.z80.regs.sp - 1 - 1 ∧
      bus.memory ran.machine.host = memoryAfter (bus.memory s.host) (pushPath s.z80.regs.sp v) := by
  have pushed : (push16 v).Holds (fun _ next path => next.regs.sp = s.z80.regs.sp - 1 - 1 ∧
      path = pushPath s.z80.regs.sp v) s.z80.toCpu := by
    rw [holds_push16]
    exact ⟨rfl, rfl⟩
  obtain ⟨sp, path⟩ := Holds.exec bus.toBus s pushed
  have memory := (bus.exec_replays (push16 v) s).2
  rw [path] at memory
  exact ⟨sp, memory⟩

theorem RamBus.exec_pop16 :
    let ran := exec bus.toBus pop16 s
    ran.value = wordAt (bus.memory s.host) s.z80.regs.sp ∧
      ran.machine.z80.regs.sp = s.z80.regs.sp + 1 + 1 ∧
      bus.memory ran.machine.host = bus.memory s.host := by
  have popped : pop16.Holds (fun value next path => next.regs.sp = s.z80.regs.sp + 1 + 1 ∧
      ∀ memory, ReadsFrom memory path → value = wordAt memory s.z80.regs.sp ∧
        memoryAfter memory path = memory) s.z80.toCpu := by
    rw [holds_pop16]
    intro low high
    refine ⟨rfl, fun memory reads => ?_⟩
    simp only [readsFrom_cycle, readsFrom_read, readsFrom_nil, and_true] at reads
    obtain ⟨lowRead, highRead⟩ := reads
    rw [lowRead, highRead]
    exact ⟨rfl, rfl⟩
  obtain ⟨sp, replayed⟩ := Holds.exec bus.toBus s popped
  obtain ⟨reads, memory⟩ := bus.exec_replays pop16 s
  obtain ⟨value, same⟩ := replayed _ reads
  exact ⟨value, sp, memory.trans same⟩

end Ram

section Frames
variable {sp : Word} {i n : Nat}

theorem frame_below (within : i < n) : Below sp (2 * n) (frame sp i) := by
  refine ⟨2 * i + 1, by omega, ?_⟩
  simp only [frame]
  bv_omega

theorem frame_above (within : i < n) : Below sp (2 * n) (frame sp i + 1) := by
  refine ⟨2 * i, by omega, ?_⟩
  simp only [frame]
  bv_omega

/-- The next frame is apart from the `n` words above it, unless they fill memory. -/
theorem frame_apart {address : Word} (room : n < 32768) (above : Below sp (2 * n) address) :
    address ≠ frame sp n + 1 ∧ address ≠ frame sp n := by
  obtain ⟨j, within, rfl⟩ := above
  constructor
  · simp only [frame]
    bv_omega
  · simp only [frame]
    bv_omega

end Frames

/-- The words of `stack` are the frames below `sp`, the bottom first. -/
def Stacked (memory : Memory) (sp : Word) : List Word → Prop
  | [] => True
  | v :: below => wordAt memory (frame sp below.length) = v ∧ Stacked memory sp below

section Stacked
variable {memory memory' : Memory} {sp : Word} {stack : List Word}

theorem Stacked.of_same (stacked : Stacked memory sp stack)
    (same : ∀ address, Below sp (2 * stack.length) address → memory' address = memory address) :
    Stacked memory' sp stack := by
  induction stack with
  | nil => trivial
  | cons v below ih =>
      obtain ⟨top, rest⟩ := stacked
      have last : below.length < (v :: below).length := Nat.lt_succ_self _
      constructor
      · rw [wordAt, same _ (frame_above last), same _ (frame_below last)]
        exact top
      · apply ih rest
        rintro address ⟨i, within, rfl⟩
        exact same _ ⟨i, by rw [List.length_cons]; omega, rfl⟩

theorem Stacked.get (stacked : Stacked memory sp stack) {i : Nat} {v : Word}
    (here : stack[i]? = some v) :
    wordAt memory (sp - BitVec.ofNat 16 (2 * stack.length) + BitVec.ofNat 16 (2 * i)) = v := by
  induction stack generalizing i with
  | nil => cases here
  | cons w below ih =>
      obtain ⟨top, rest⟩ := stacked
      cases i with
      | zero =>
          rw [List.getElem?_cons_zero] at here
          cases here
          rw [Nat.mul_zero, BitVec.add_zero]
          exact top
      | succ i =>
          rw [List.getElem?_cons_succ] at here
          have moved : sp - BitVec.ofNat 16 (2 * (w :: below).length) +
              BitVec.ofNat 16 (2 * (i + 1)) =
              sp - BitVec.ofNat 16 (2 * below.length) + BitVec.ofNat 16 (2 * i) := by
            rw [List.length_cons]
            bv_omega
          rw [moved]
          exact ih rest here

end Stacked

section Run
variable {Host : Type} (bus : RamBus Host)

def pushCall (v : Word) (s : Machine Host) : Machine Host := (exec bus.toBus (push16 v) s).machine

def popCall (s : Machine Host) : Word × Machine Host :=
  let ran := exec bus.toBus pop16 s
  (ran.value, ran.machine)

def stackRun : List (StackCall Word) → Machine Host → List Word × Machine Host :=
  stackCalls (pushCall bus) (popCall bus)

/-- `s` has `stack` below `start`'s SP; only the first `capacity` words there
may differ from `start`. -/
structure HasStack (start : Machine Host) (capacity : Nat) (stack : List Word)
    (s : Machine Host) : Prop where
  sp : s.z80.regs.sp = start.z80.regs.sp - BitVec.ofNat 16 (2 * stack.length)
  words : Stacked (bus.memory s.host) start.z80.regs.sp stack
  apart : ∀ address, ¬ Below start.z80.regs.sp (2 * capacity) address →
    bus.memory s.host address = bus.memory start.host address

variable {bus} {start s : Machine Host} {capacity : Nat} {stack : List Word} {v : Word}

theorem HasStack.push (room : stack.length < capacity) (fits : capacity ≤ 32768)
    (has : HasStack bus start capacity stack s) :
    HasStack bus start capacity (v :: stack) (pushCall bus v s) := by
  obtain ⟨sp, words, apart⟩ := has
  obtain ⟨lower, memory⟩ := bus.exec_push16 s v
  have low : s.z80.regs.sp - 1 - 1 = frame start.z80.regs.sp stack.length := by
    rw [sp, frame_low]
  have high : s.z80.regs.sp - 1 = frame start.z80.regs.sp stack.length + 1 := by
    rw [← low, BitVec.sub_add_cancel]
  have others {address : Word} (top : address ≠ frame start.z80.regs.sp stack.length + 1)
      (bottom : address ≠ frame start.z80.regs.sp stack.length) :
      bus.memory (pushCall bus v s).host address = bus.memory s.host address := by
    rw [pushCall, memory, pushed_apart _ _ (writesOf_push _ _)]
    · rwa [high]
    · rwa [low]
  refine ⟨lower.trans low, ⟨?_, words.of_same fun address above => ?_⟩, fun address outside => ?_⟩
  · rw [pushCall, memory, wordAt, ← low]
    exact pushed_word _ _ (writesOf_push _ _) _
  · obtain ⟨top, bottom⟩ := frame_apart (by omega) above
    exact others top bottom
  · rw [← apart address outside]
    apply others
    · rintro rfl
      exact outside (frame_above room)
    · rintro rfl
      exact outside (frame_below room)

theorem HasStack.pop (has : HasStack bus start capacity (v :: stack) s) :
    (popCall bus s).1 = v ∧ HasStack bus start capacity stack (popCall bus s).2 := by
  obtain ⟨sp, ⟨top, words⟩, apart⟩ := has
  obtain ⟨value, higher, memory⟩ := bus.exec_pop16 s
  rw [sp] at value higher
  refine ⟨value.trans top, higher.trans ?_, ?_, ?_⟩
  · rw [List.length_cons]
    bv_omega
  · rw [popCall, memory]
    exact words
  · rw [popCall, memory]
    exact apart

end Run

/-- `push16` and `pop16` are a LIFO at every SP: along calls that never pop the
empty stack and stay within 32768 words, the pops return what the list of words
gives, SP follows the depth and the words left are intact; memory changes only
in the words below the first SP that the depth reached. -/
theorem stack_lifo {Host : Type} (bus : RamBus Host) (s : Machine Host)
    (calls : List (StackCall Word)) (run : Lifo Word) (balanced : lifo calls [] = some run)
    (fits : run.peak ≤ 32768) :
    let ran := stackRun bus calls s
    let memory := bus.memory ran.2.host
    ran.1 = run.popped ∧
    ran.2.z80.regs.sp = s.z80.regs.sp - BitVec.ofNat 16 (2 * run.stack.length) ∧
    (∀ i v, run.stack[i]? = some v →
      wordAt memory (ran.2.z80.regs.sp + BitVec.ofNat 16 (2 * i)) = v) ∧
    ∀ address, ¬ Below s.z80.regs.sp (2 * run.peak) address →
      memory address = bus.memory s.host address := by
  have empty : HasStack bus s run.peak [] s :=
    ⟨(BitVec.sub_zero _).symm, trivial, fun _ _ => rfl⟩
  obtain ⟨popped, sp, words, apart⟩ := stackCalls_lifo (HasStack bus s run.peak)
    (fun _ _ _ room has => has.push room fits) (fun _ _ _ has => has.pop) balanced (Nat.le_refl _)
    empty
  refine ⟨popped, sp, fun i v here => ?_, apart⟩
  rw [stackRun, sp]
  exact words.get here

/-- Two pushes and a pop at SP 1, where the first word wraps around. -/
theorem stack_lifo_wrap :
    let s : Machine Memory := { z80 := { regs := { sp := 1 } }, host := fun _ => 0 }
    (stackRun flatRam [.push 0x1234, .push 0x5678, .pop] s).1 = [0x5678#16] :=
  (stack_lifo flatRam { z80 := { regs := { sp := 1 } }, host := fun _ => 0 }
    [.push 0x1234, .push 0x5678, .pop] ⟨[0x5678], [0x1234], 2⟩ rfl (by decide)).1

end Z80f
