import Z80f.Cpu.Arms
import Z80f.Encoding.Instruction
import Z80f.Timing.StepTiming
import Z80f.Prefix.Exchange

/-! # A prefixed opcode is the plain one between two exchanges

First the opcodes that name neither H nor L: they mirror themselves.  Then the
arms of `dispatch_index`, each against the arm of `dispatch_unprefixed` that it
was written after. -/

set_option autoImplicit false

namespace Z80f

open Interaction Stateful Z80M Flags

/-- The opcodes on which a prefix is an exchange. -/
def swapsHl (op : Byte) : Bool :=
  !hasHlOperand op && !isIndexPrefix op && op != 0xCB#8 && op != 0xED#8 && op != 0xEB#8 &&
    op != 0xD9#8

/-- The cases of `dispatch_index` without a displacement. -/
def renamed : List Byte :=
  [0x09#8, 0x19#8, 0x29#8, 0x39#8, 0x21#8, 0x22#8, 0x2A#8, 0x23#8, 0x2B#8, 0x24#8, 0x25#8, 0x26#8,
    0x2C#8, 0x2D#8, 0x2E#8, 0xE1#8, 0xE5#8, 0xE3#8, 0xE9#8, 0xF9#8, 0x60#8, 0x61#8, 0x62#8,
    0x63#8, 0x64#8, 0x65#8, 0x67#8, 0x68#8, 0x69#8, 0x6A#8, 0x6B#8, 0x6C#8, 0x6D#8, 0x6F#8,
    0x44#8, 0x45#8, 0x4C#8, 0x4D#8, 0x54#8, 0x55#8, 0x5C#8, 0x5D#8, 0x7C#8, 0x7D#8, 0x84#8,
    0x85#8, 0x8C#8, 0x8D#8, 0x94#8, 0x95#8, 0x9C#8, 0x9D#8, 0xA4#8, 0xA5#8, 0xAC#8, 0xAD#8,
    0xB4#8, 0xB5#8, 0xBC#8, 0xBD#8]

def namesHl (op : Byte) : Bool := renamed.contains op

section Self
variable {x : IndexReg} (cond : Byte → Bool) (op : Byte) (t : Int)

theorem jpCond_mirrors (taken : Bool) :
    Mirrors (Cpu.swapHl x) (jpCond taken) (jpCond taken) := by
  cases taken <;> exact ⟨fun _ => rfl⟩

theorem jpArm_mirrors {taken : Registers → Bool} (same : ∀ r, taken (r.swapHl x) = taken r) :
    Mirrors (Cpu.swapHl x) (do jpCond (taken (← getRegs)); return t)
      (do jpCond (taken (← getRegs)); return t) := by
  refine mirrors_getRegs fun r => ?_
  rw [same]
  have jump := jpCond_mirrors (x := x) (taken r)
  exact Mirrors.bind fun _ => inferInstance

theorem jrArm_mirrors : Mirrors (Cpu.swapHl x) (jrArm cond) (jrArm cond) := by
  refine Mirrors.bind fun _ => mirrors_getRegs fun r => Mirrors.ite _ ?_ ?_
  · exact ⟨fun _ => rfl⟩
  · exact ⟨fun _ => rfl⟩

theorem retArm_mirrors : Mirrors (Cpu.swapHl x) (retArm cond) (retArm cond) := by
  refine mirrors_getRegs fun r => Mirrors.ite _ ?_ ?_
  · exact ⟨fun _ => rfl⟩
  · exact ⟨fun _ => rfl⟩

theorem jumpTo_mirrors (target : Word) : Mirrors (Cpu.swapHl x)
    (modifyRegs fun r => { r with pc := target }) (modifyRegs fun r => { r with pc := target }) :=
  mirrors_modifyRegs fun _ => rfl

theorem pushAndJump_mirrors (target : Word) :
    let body : Z80M Unit := do
      idle ((← getRegs).pc - 1) 1
      push16 (← getRegs).pc
      modifyRegs fun r => { r with pc := target }
    Mirrors (Cpu.swapHl x) body body := by
  refine mirrors_getRegs fun r => ?_
  rw [swapHl_pc]
  refine Mirrors.bind fun _ => mirrors_getRegs fun r => ?_
  rw [swapHl_pc]
  exact Mirrors.bind fun _ => jumpTo_mirrors target

theorem callCond_mirrors (taken : Bool) :
    Mirrors (Cpu.swapHl x) (callCond taken) (callCond taken) :=
  Mirrors.bind fun target => Mirrors.bind fun _ =>
    Mirrors.ite _ (pushAndJump_mirrors target) inferInstance

theorem callArm_mirrors : Mirrors (Cpu.swapHl x) (callArm cond) (callArm cond) := by
  refine mirrors_getRegs fun r => ?_
  have taken := callCond_mirrors (x := x) true
  have untaken := callCond_mirrors (x := x) false
  apply Mirrors.ite
  · exact Mirrors.bind fun _ => inferInstance
  · exact Mirrors.bind fun _ => inferInstance

theorem callNn_mirrors : Mirrors (Cpu.swapHl x) (do call; return t) (do call; return t) := by
  have body : Mirrors (Cpu.swapHl x) call call :=
    Mirrors.bind fun target => Mirrors.bind fun _ => pushAndJump_mirrors target
  exact Mirrors.bind fun _ => inferInstance

theorem rst_mirrors (target : Word) :
    Mirrors (Cpu.swapHl x) (do rst target; return t) (do rst target; return t) := by
  have body : Mirrors (Cpu.swapHl x) (rst target) (rst target) := by
    refine mirrors_getRegs fun r => ?_
    rw [swapHl_refreshAddress]
    refine Mirrors.bind fun _ => mirrors_getRegs fun r => ?_
    rw [swapHl_pc]
    have jump := jumpTo_mirrors (x := x) target
    exact Mirrors.bind fun _ => Mirrors.bind fun _ => inferInstance
  exact Mirrors.bind fun _ => inferInstance

theorem djnz_mirrors : Mirrors (Cpu.swapHl x) djnz djnz := by
  refine mirrors_getRegs fun r => ?_
  simp only [swapHl_refreshAddress]
  refine Mirrors.bind fun _ => Mirrors.bind fun _ => ?_
  have decrement : Mirrors (Cpu.swapHl x) (modifyRegs fun r => { r with b := r.b - 1 })
      (modifyRegs fun r => { r with b := r.b - 1 }) := ⟨fun _ => rfl⟩
  refine Mirrors.bind fun _ => ?_
  refine mirrors_getRegs fun r => Mirrors.ite _ ?_ ?_
  · exact ⟨fun _ => rfl⟩
  · exact ⟨fun _ => rfl⟩

theorem ldArm_mirrors (src : regField op ≠ 6) (srcWhole : isHalf (regField op) = false)
    (dst : midField op ≠ 6) (dstWhole : isHalf (midField op) = false) :
    Mirrors (Cpu.swapHl x) (ldArm op) (ldArm op) := by
  simp only [ldArm, if_neg src, if_neg dst, pure_bind]
  refine mirrors_getRegs fun r => ?_
  rw [reg8_swapHl r srcWhole]
  exact setReg8_mirrors _ dstWhole

theorem aluArm_mirrors (src : regField op ≠ 6) (srcWhole : isHalf (regField op) = false) :
    Mirrors (Cpu.swapHl x) (aluArm op) (aluArm op) := by
  simp only [aluArm, if_neg src, pure_bind]
  refine mirrors_getRegs fun r => ?_
  rw [reg8_swapHl r srcWhole]
  infer_instance

theorem ld_fields : ∀ op : Byte, kindField op = 1 ∧ op ≠ 0x76#8 → swapsHl op = true →
    regField op ≠ 6 ∧ midField op ≠ 6 ∧
      (namesHl op = false → isHalf (regField op) = false ∧ isHalf (midField op) = false) := by
  decide

theorem alu_fields : ∀ op : Byte, kindField op = 2 → swapsHl op = true →
    regField op ≠ 6 ∧ (namesHl op = false → isHalf (regField op) = false) := by
  decide

variable (swaps : swapsHl op = true) (free : namesHl op = false)
include swaps free

theorem highArm_mirrors : Mirrors (Cpu.swapHl x) (highArm op t) (highArm op t) := by
  fun_cases highArm
  all_goals
    first
    | with_reducible exact retArm_mirrors _
    | with_reducible exact callArm_mirrors _
    | with_reducible exact callNn_mirrors t
    | with_reducible exact rst_mirrors t _
    | with_reducible exact jpArm_mirrors t fun _ => rfl
    | exact Bool.noConfusion swaps
    | exact Bool.noConfusion free
    | exact ⟨fun _ => rfl⟩

theorem opcodeArm_mirrors : Mirrors (Cpu.swapHl x) (opcodeArm op t) (opcodeArm op t) := by
  obtain ⟨loads, notHalt⟩ | alu | high | rest := opcode_blocks op
  · obtain ⟨src, dst, whole⟩ := ld_fields op ⟨loads, notHalt⟩ swaps
    rw [opcodeArm_ld t loads notHalt]
    have body := ldArm_mirrors (x := x) op src (whole free).1 dst (whole free).2
    exact Mirrors.bind fun _ => inferInstance
  · obtain ⟨src, whole⟩ := alu_fields op alu swaps
    rw [opcodeArm_alu t alu]
    have body := aluArm_mirrors (x := x) op src (whole free)
    exact Mirrors.bind fun _ => inferInstance
  · rw [opcodeArm_high t high]
    exact highArm_mirrors op t swaps free
  fun_cases opcodeArm op t
  all_goals
    first
    | with_reducible exact jrArm_mirrors _
    | with_reducible exact djnz_mirrors
    | exact Bool.noConfusion swaps
    | exact Bool.noConfusion free
    | exact ⟨fun _ => rfl⟩
    | simp only [imp_false] at *
      bv_omega

theorem dispatchOpcode_mirrors :
    Mirrors (Cpu.swapHl x) (dispatchOpcode op) (dispatchOpcode op) := by
  have prelude : Mirrors (Cpu.swapHl x) (opcodePrelude op) (opcodePrelude op) := by
    unfold opcodePrelude
    split <;> split <;> exact ⟨fun _ => rfl⟩
  have arm := opcodeArm_mirrors (x := x) op (baseTFor op) swaps free
  exact Mirrors.bind fun _ => inferInstance

end Self

/-! ## Opcodes that a prefix renames -/

theorem opcodePrelude_none {op : Byte} (bare : preludeLength op = 0) :
    opcodePrelude op = pure () := by
  have neither : ¬ (op &&& 0xCF#8 = 0x03#8 ∨ op &&& 0xCF#8 = 0x0B#8 ∨ op = 0xF9#8) ∧
      ¬ (op &&& 0xC7#8 = 0xC0#8 ∨ op &&& 0xCF#8 = 0xC5#8) := by
    constructor <;> intro idles <;> rw [preludeLength, if_pos idles] at bare <;> omega
  unfold opcodePrelude
  rw [if_neg neither.1, if_neg neither.2]

theorem ld_bare : ∀ op : Byte, kindField op = 1 → op ≠ 0x76#8 → swapsHl op = true →
    preludeLength op = 0 ∧ baseTFor op = 4 ∧ regField op ≠ 6 ∧ midField op ≠ 6 := by
  decide

theorem alu_bare : ∀ op : Byte, kindField op = 2 → swapsHl op = true →
    preludeLength op = 0 ∧ baseTFor op = 4 ∧ regField op ≠ 6 := by
  decide

section Blocks
variable {x : IndexReg} {op : Byte} (t : Int)

theorem ld_mirrors {m : Z80M Int} (swaps : swapsHl op = true) (block : kindField op = 1)
    (halt : op ≠ 0x76#8)
    (same : m = do writeHalf x (midField op) (← readHalf x (regField op)); return t + 4) :
    Mirrors (Cpu.swapHl x) m (do let cost ← dispatchOpcode op; return t + cost) := by
  obtain ⟨bare, cost, src, dst⟩ := ld_bare op block halt swaps
  have plain : (do let cost ← dispatchOpcode op; return t + cost) = do
      let v ← (do return (← getRegs).reg8 (regField op) : Z80M Byte)
      modifyRegs (Registers.setReg8 (midField op) v)
      return t + 4 := by
    rw [dispatchOpcode, opcodePrelude_none bare, opcodeArm_ld _ block halt, cost]
    simp only [ldArm, if_neg src, if_neg dst, pure_bind, bind_assoc]
  rw [same, plain]
  exact Mirrors.bind fun _ => Mirrors.bind fun _ => inferInstance

theorem alu_mirrors {m : Z80M Int} (swaps : swapsHl op = true) (block : kindField op = 2)
    (same : m = do aluOp (midField op) (← readHalf x (regField op)); return t + 4) :
    Mirrors (Cpu.swapHl x) m (do let cost ← dispatchOpcode op; return t + cost) := by
  obtain ⟨bare, cost, src⟩ := alu_bare op block swaps
  have plain : (do let cost ← dispatchOpcode op; return t + cost) = do
      let v ← (do return (← getRegs).reg8 (regField op) : Z80M Byte)
      aluOp (midField op) v
      return t + 4 := by
    rw [dispatchOpcode, opcodePrelude_none bare, opcodeArm_alu _ block, cost]
    simp only [aluArm, if_neg src, pure_bind, bind_assoc]
  rw [same, plain]
  exact Mirrors.bind fun _ => Mirrors.bind fun _ => inferInstance

end Blocks

theorem renamed_listed : ∀ op : Byte, namesHl op = true → op ∈ indexOpcodes := by decide

section Arms
variable (x : IndexReg) (op : Byte) (t : Int)

theorem indexArm_mirrors (swaps : swapsHl op = true) :
    Mirrors (Cpu.swapHl x) (indexArm x op t) (do let cost ← dispatchOpcode op; return t + cost) := by
  by_cases listed : op ∈ indexOpcodes
  case neg =>
    have free : namesHl op = false := by
      rw [Bool.eq_false_iff]
      exact fun names => listed (renamed_listed op names)
    rw [indexArm_unlisted x t listed]
    have body := dispatchOpcode_mirrors (x := x) op swaps free
    exact Mirrors.bind fun _ => inferInstance
  fun_cases indexArm x op t
  all_goals
    first
    | exact Bool.noConfusion swaps
    | refine ld_mirrors t swaps ?_ ?_ ?_
      · decide
      · decide
      · rfl
    | refine alu_mirrors t swaps ?_ ?_
      · decide
      · rfl
    | simp +decide only [dispatchOpcode, opcodePrelude, opcodeArm, highArm, pure_bind, bind_assoc,
        if_false, if_true, ixh, ixl, incIndex, decIndex, pushIndex, ldSpIndex]
      repeat
        first
        | refine mirrors_getRegs fun r => ?_
          try simp only [swapHl_bc, swapHl_de, swapHl_hl, swapHl_sp, swapHl_h, swapHl_l,
            swapHl_refreshAddress]
        | refine Mirrors.bind fun _ => ?_
      exact ⟨fun _ => rfl⟩
    | simp only [imp_false] at *
      simp only [indexOpcodes, List.mem_cons, List.not_mem_nil, or_false, *] at listed

theorem indexArm_ignores (ignored : op = 0xEB#8 ∨ op = 0xD9#8 ∨ op = 0xED#8) :
    indexArm x op t = do let cost ← dispatchOpcode op; return t + cost := by
  rcases ignored with rfl | rfl | rfl <;> rfl

end Arms

section Host
variable {Host α : Type} {bus : Bus Host}

def Machine.swapHl (x : IndexReg) (s : Machine Host) : Machine Host :=
  { s with z80 := { s.z80 with toCpu := s.z80.toCpu.swapHl x } }

theorem Machine.swapHl_swapHl (x : IndexReg) (s : Machine Host) : (s.swapHl x).swapHl x = s := by
  simp only [Machine.swapHl, Cpu.swapHl, Z80f.swapHl_swapHl]

theorem exec_swapHl (bus : Bus Host) {x : IndexReg} {m m' : Z80M α}
    (mirrors : Mirrors (Cpu.swapHl x) m m') (s : Machine Host) :
    exec bus m' (s.swapHl x) =
      let ran := exec bus m s
      { ran with machine := ran.machine.swapHl x } := by
  have same := mirrors.run (environment bus) s.z80.toCpu (s.z80.toClock, s.host)
  simp only [exec, Machine.swapHl, same]

def Machine.clearQ (s : Machine Host) : Machine Host :=
  { s with z80 := { s.z80 with regs := { s.z80.regs with q := 0 } } }

theorem exec_clearQ (s : Machine Host) :
    exec bus (modifyRegs fun r => { r with q := 0 }) s = ⟨(), s.clearQ, []⟩ := rfl

theorem exec_fetchOpcode (bus : Bus Host) (s : Machine Host) :
    let fetched := exec bus fetchOpcode s
    fetched.machine.z80.toCpu = s.z80.toCpu.opcodeFetched ∧
      fetched.calls.map Exchange.answered =
        [cycle s.z80.regs.pc 4, readOf .fetch s.z80.regs.pc fetched.value] := by
  have fetch : fetchOpcode.Holds (fun v next path => next = s.z80.toCpu.opcodeFetched ∧
      path = [cycle s.z80.regs.pc 4, readOf .fetch s.z80.regs.pc v]) s.z80.toCpu := by
    simp [Cpu.opcodeFetched]
  exact Holds.exec bus s fetch

/-- The state after the fetch of a prefix, with `regs_.q = 0;`. -/
def afterPrefix (bus : Bus Host) (s : Machine Host) : Machine Host :=
  (exec bus fetchOpcode s).machine.clearQ

def fetchAndDispatch (fuel : Nat) : Z80M (Option Int) := do
  let op ← fetchOpcode
  dispatchUnprefixed fuel op

section Fetched
variable {fuel : Nat} {p op : Byte} {s : Machine Host} (last : isIndexPrefix op = false)
include last

theorem exec_plain (read : (exec bus fetchOpcode s).value = op) :
    exec bus (fetchAndDispatch fuel) s =
      let fetched := exec bus fetchOpcode s
      let body := exec bus (dispatchOpcode op) fetched.machine
      ⟨some body.value, body.machine, fetched.calls ++ body.calls⟩ := by
  have ordinary : dispatchUnprefixed fuel op = do return some (← dispatchOpcode op) := by
    simp [dispatchUnprefixed, last]
  rw [fetchAndDispatch, exec_then _ read, ordinary, exec_return]

theorem exec_prefixed (isPrefix : isIndexPrefix p = true)
    (first : (exec bus fetchOpcode s).value = p)
    (second : (exec bus fetchOpcode (afterPrefix bus s)).value = op) :
    exec bus (fetchAndDispatch fuel) s =
      let fetched := exec bus fetchOpcode (afterPrefix bus s)
      let body := exec bus (indexArm (prefixReg p) op 4) fetched.machine
      ⟨some body.value, body.machine,
        (exec bus fetchOpcode s).calls ++ (fetched.calls ++ body.calls)⟩ := by
  rw [fetchAndDispatch, exec_then _ first, dispatchUnprefixed, if_pos isPrefix, dispatchIndex,
    exec_bind, exec_clearQ]
  dsimp only
  rw [← afterPrefix, exec_then _ second, consumePrefixes_stops last, pure_bind]
  dsimp only
  rw [exec_return]
  rfl

end Fetched
end Host

theorem swaps_last : ∀ op : Byte, swapsHl op = true → isIndexPrefix op = false := by decide

/-- A prefix is the exchange of HL with the index register around the plain
opcode; on EB, D9 and ED it does nothing. -/
theorem prefix_exchanges {Host : Type} (bus : Bus Host) (fuel : Nat) (p op : Byte)
    (s : Machine Host) (isPrefix : isIndexPrefix p = true)
    (first : (exec bus fetchOpcode s).value = p)
    (second : (exec bus fetchOpcode (afterPrefix bus s)).value = op) :
    let x := prefixReg p
    let start := afterPrefix bus s
    let opening := (exec bus fetchOpcode s).calls
    let prefixed := exec bus (fetchAndDispatch fuel) s
    (opening.map Exchange.answered = [cycle s.z80.regs.pc 4, readOf .fetch s.z80.regs.pc p] ∧
      start.z80.toCpu = { s.z80.toCpu with
        regs := { Registers.incR { s.z80.regs with pc := s.z80.regs.pc + 1 } with q := 0 } } ∧
      start.z80.cycles = s.z80.cycles + BitVec.ofInt 64 (spentOn opening)) ∧
    (swapsHl op = true →
      let plain := exec bus (fetchAndDispatch fuel) (start.swapHl x)
      prefixed.machine = plain.machine.swapHl x ∧ prefixed.calls = opening ++ plain.calls ∧
        prefixed.value = plain.value.map (4 + ·)) ∧
    (op = 0xEB#8 ∨ op = 0xD9#8 ∨ op = 0xED#8 →
      let plain := exec bus (fetchAndDispatch fuel) start
      prefixed.machine = plain.machine ∧ prefixed.calls = opening ++ plain.calls ∧
        prefixed.value = plain.value.map (4 + ·)) := by
  intro x start opening prefixed
  refine ⟨⟨?_, ?_, ?_⟩, fun swaps => ?_, fun ignored => ?_⟩
  · rw [← first]
    exact (exec_fetchOpcode bus s).2
  · simp only [start, afterPrefix, Machine.clearQ, (exec_fetchOpcode bus s).1, Cpu.opcodeFetched]
  · exact exec_cycles fetchOpcode s
  · have last := swaps_last op swaps
    have fetch : Mirrors (Cpu.swapHl x) fetchOpcode fetchOpcode := inferInstance
    have fetched := exec_swapHl bus fetch start
    have read : (exec bus fetchOpcode (start.swapHl x)).value = op := by
      rw [fetched]
      exact second
    have body := exec_swapHl bus (indexArm_mirrors x op 4 swaps)
      (exec bus fetchOpcode start).machine
    rw [exec_return] at body
    simp only [prefixed, exec_plain last read, fetched, exec_prefixed last isPrefix first second]
    refine ⟨?_, ?_, ?_⟩
    · rw [congrArg Ran.machine body, Machine.swapHl_swapHl]
    · rw [congrArg Ran.calls body]
    · exact congrArg some (congrArg Ran.value body).symm
  · have last : isIndexPrefix op = false := by
      rcases ignored with rfl | rfl | rfl <;> rfl
    simp only [prefixed, start, opening, exec_prefixed last isPrefix first second,
      exec_plain last second, indexArm_ignores _ op 4 ignored, exec_return, true_and]
    rfl

/-- DD 29 with HL at 0x1234 and IX at 0x8001 is ADD IX,IX. -/
theorem prefix_exchanges_dd29 :
    let s : Machine Memory :=
      { z80 := { regs := { h := 0x12, l := 0x34, ix := 0x8001 } }
        host := programAt 0 [0xDD, 0x29] 0 }
    let prefixed := exec flatRam.toBus (fetchAndDispatch 0) s
    prefixed.machine = (exec flatRam.toBus (fetchAndDispatch 0)
      ((afterPrefix flatRam.toBus s).swapHl .ix)).machine.swapHl .ix ∧
    prefixed.machine.z80.regs.ix = 0x0002 ∧ prefixed.machine.z80.regs.hl = 0x1234 :=
  ⟨((prefix_exchanges flatRam.toBus 0 0xDD 0x29 _ rfl rfl rfl).2.1 rfl).1, rfl, rfl⟩

end Z80f
