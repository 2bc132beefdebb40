import Z80f.Program.Cpm

/-! # Printing on the console

A call of the BDOS prints what the caller's registers name and comes back behind
the CALL with nothing else changed but the two bytes below SP.  A program that
prints a message runs to its end in the harness. -/

set_option autoImplicit false

namespace Z80f

open Interaction Stateful Z80M

section Instructions
variable {Host : Type} {bus : RamBus Host} {pc : Word} {r : Registers} {memory : Memory}
  {s : Machine Host} {n low high : Byte} (fuel : Nat) (at_ : At bus pc r memory s)
include at_

theorem At.ldDe (code : CodeAt memory pc [0x11, low, high]) :
    Steps (advance bus.toBus fuel) 10 (At bus (pc + 1 + 1 + 1) (r.setDe (word high low)) memory)
      s := by
  obtain ⟨op, lowAt, highAt, -⟩ := code
  refine at_.step fuel op rfl ?_ ?_ ?_
  · rfl
  · rfl
  rintro cpu ⟨refresh, wz, q, ei, shown⟩
  have arm : dispatchOpcode 0x11 = (do
      opcodePrelude 0x11; modifyRegs (Registers.setDe (← fetchImmediate16)); return 10) := rfl
  rw [arm]
  simp only [holds_bind, holds_opcodePrelude, holds_fetchImmediate16, holds_modifyRegs, shown,
    holds_pure]
  rintro v w ⟨readLow, readHigh, -⟩
  obtain rfl : v = low := readLow.trans lowAt
  obtain rfl : w = high := readHigh.trans highAt
  exact ⟨trivial, ⟨refresh, wz, q, ei, rfl⟩, rfl⟩

theorem At.ldC (code : CodeAt memory pc [0x0E, n]) :
    Steps (advance bus.toBus fuel) 7 (At bus (pc + 1 + 1) { r with c := n } memory) s := by
  obtain ⟨op, nAt, -⟩ := code
  refine at_.step fuel op rfl ?_ ?_ ?_
  · rfl
  · rfl
  rintro cpu ⟨refresh, wz, q, ei, shown⟩
  have arm : dispatchOpcode 0x0E = (do
      opcodePrelude 0x0E; let v ← fetchImmediate; modifyRegs fun r => { r with c := v }
      return 7) := rfl
  rw [arm]
  simp only [holds_bind, holds_opcodePrelude, holds_fetchImmediate, holds_modifyRegs, shown,
    holds_pure]
  rintro v ⟨read, -⟩
  obtain rfl : v = n := read.trans nAt
  exact ⟨trivial, ⟨refresh, wz, q, ei, rfl⟩, rfl⟩

theorem At.ret (code : memory pc = 0xC9) :
    Steps (advance bus.toBus fuel) 10
      (At bus (wordAt memory r.sp) { r with sp := r.sp + 1 + 1 } memory) s := by
  refine at_.step fuel code rfl ?_ ?_ ?_
  · rfl
  · rfl
  rintro cpu ⟨refresh, wz, q, ei, shown⟩
  have arm : dispatchOpcode 0xC9 = (do opcodePrelude 0xC9; Z80f.jp (← pop16); return 10) := rfl
  rw [arm]
  simp only [Z80f.jp, holds_bind, holds_opcodePrelude, holds_pop16, holds_modifyRegs, shown,
    holds_pure]
  rintro v w ⟨readLow, readHigh, -⟩
  obtain rfl : v = memory r.sp := readLow
  obtain rfl : w = memory (r.sp + 1) := readHigh
  exact ⟨trivial, ⟨refresh, _, q, ei, rfl⟩, rfl⟩

def pushedOn (memory : Memory) (sp v : Word) : Memory :=
  Function.update (Function.update memory (sp - 1) (hi v)) (sp - 1 - 1) (lo v)

theorem At.call (code : CodeAt memory pc [0xCD, low, high]) :
    Steps (advance bus.toBus fuel) 17
      (At bus (word high low) { r with sp := r.sp - 1 - 1 }
        (pushedOn memory r.sp (pc + 1 + 1 + 1))) s := by
  obtain ⟨op, lowAt, highAt, -⟩ := code
  refine at_.step fuel op rfl ?_ ?_ ?_
  · rfl
  · rfl
  rintro cpu ⟨refresh, wz, q, ei, shown⟩
  have arm : dispatchOpcode 0xCD = (do opcodePrelude 0xCD; Z80f.call; return 17) := rfl
  rw [arm]
  simp only [Z80f.call, holds_bind, holds_opcodePrelude, holds_fetchImmediate16, holds_modifyRegs,
    holds_getRegs, holds_idle, holds_push16, shown, holds_pure]
  rintro v w ⟨readLow, readHigh, -⟩
  obtain rfl : v = low := readLow.trans lowAt
  obtain rfl : w = high := readHigh.trans highAt
  exact ⟨trivial, ⟨refresh, _, q, ei, rfl⟩, rfl⟩

end Instructions

section Console
variable {fuel : Nat} {pc : Word} {r : Registers} {memory : Memory} {s : Machine Memory}
  {cost : Int} {post : Machine Memory → Prop} {text : List Byte} (out : List Byte)

theorem At.consoleText (at_ : At cpmBus pc r memory s) :
    Z80f.consoleText fuel s = if pc = 0x0005 then bdosText fuel memory r else some [] := by
  have host : s.host = memory := at_.memory
  obtain ⟨refresh, wz, q, ei, shown⟩ := at_.regs
  rw [Z80f.consoleText, host, shown]
  rfl

theorem At.watched (at_ : At cpmBus pc r memory s) (noBoot : pc ≠ 0x0000)
    (emits : (if pc = 0x0005 then bdosText fuel memory r else some []) = some text)
    (steps : Steps (advance cpmBus.toBus fuel) cost post s) :
    Leads (console fuel) cost (fun watched => post watched.1 ∧ watched.2 = out ++ text)
      (s, out) := by
  have going : warmBoot s = false := by
    rw [warmBoot, at_.pc_eq]
    exact beq_false_of_ne noBoot
  rw [← at_.consoleText] at emits
  exact (steps.watched going emits out).leads

theorem At.silent (at_ : At cpmBus pc r memory s) (noBoot : pc ≠ 0x0000) (noTrap : pc ≠ 0x0005)
    (steps : Steps (advance cpmBus.toBus fuel) cost post s) :
    Leads (console fuel) cost (fun watched => post watched.1 ∧ watched.2 = out) (s, out) := by
  apply (at_.watched out noBoot (if_neg noTrap) steps).mono
  rintro watched ⟨holds, output⟩
  rw [List.append_nil] at output
  exact ⟨holds, output⟩

theorem pushedOn_word (memory : Memory) (sp v : Word) :
    wordAt (pushedOn memory sp v) (sp - 1 - 1) = v := by
  have apart : sp - 1 ≠ sp - 1 - 1 := by bv_omega
  rw [wordAt, BitVec.sub_add_cancel, pushedOn, Function.update_self, Function.update_of_ne apart,
    Function.update_self, word_hi_lo]

theorem pushedOn_apart (memory : Memory) {sp v address : Word} (high : address ≠ sp - 1)
    (low : address ≠ sp - 1 - 1) : pushedOn memory sp v address = memory address := by
  rw [pushedOn, Function.update_of_ne low, Function.update_of_ne high]

theorem At.bdos (at_ : At cpmBus pc r memory s) (noBoot : pc ≠ 0x0000) (noTrap : pc ≠ 0x0005)
    (code : CodeAt memory pc [0xCD, 5, 0]) (entry : memory 0x0005 = 0xC9)
    (notHigh : 0x0005 ≠ r.sp - 1) (notLow : 0x0005 ≠ r.sp - 1 - 1)
    (prints : bdosText fuel (pushedOn memory r.sp (pc + 1 + 1 + 1)) r = some text) :
    Leads (console fuel) (17 + 10) (fun watched =>
      At cpmBus (pc + 1 + 1 + 1) r (pushedOn memory r.sp (pc + 1 + 1 + 1)) watched.1 ∧
        watched.2 = out ++ text) (s, out) := by
  apply (at_.silent out noBoot noTrap (at_.call fuel code)).seq
  rintro ⟨t, _⟩ ⟨called, rfl⟩
  have still : pushedOn memory r.sp (pc + 1 + 1 + 1) 0x0005 = 0xC9 := by
    rw [pushedOn_apart memory notHigh notLow]
    exact entry
  have trapped : word 0 5 = 0x0005 := by decide
  rw [trapped] at called
  apply (called.watched _ (by decide) ((if_pos rfl).trans prints) (called.ret fuel still)).mono
  rintro watched ⟨returned, output⟩
  refine ⟨?_, output⟩
  dsimp only at returned
  rw [pushedOn_word, BitVec.sub_add_cancel, BitVec.sub_add_cancel] at returned
  exact returned

theorem stringAt_code {address : Word} (noDollar : 0x24#8 ∉ text)
    (code : CodeAt memory address (text ++ [0x24])) (enough : text.length < fuel) :
    stringAt memory fuel address = some text := by
  induction text generalizing address fuel with
  | nil =>
      obtain ⟨fuel, rfl⟩ : ∃ m, fuel = m + 1 := ⟨fuel - 1, by omega⟩
      rw [stringAt, if_pos code.1]
  | cons byte text ih =>
      obtain ⟨fuel, rfl⟩ : ∃ m, fuel = m + 1 := ⟨fuel - 1, by omega⟩
      obtain ⟨here, rest⟩ := code
      have other : ¬ memory address = 0x24 := by
        rw [here]
        rintro rfl
        exact noDollar List.mem_cons_self
      have later : text.length < fuel := Nat.lt_of_succ_lt_succ enough
      rw [stringAt, if_neg other, ih (fun member => noDollar (List.mem_cons_of_mem _ member)) rest
        later, here, Option.map_some]

theorem console_nonneg {watched last : Machine Memory × List Byte}
    (follows : Follows (console fuel) watched cost last) : 0 ≤ cost := by
  induction follows with
  | here => exact le_rfl
  | step taken rest ih =>
      have least := (console_spends taken).2.1
      omega

theorem cpmLoop_follows {maxCycles : BitVec 64} {watched last : Machine Memory × List Byte}
    (follows : Follows (console fuel) watched cost last) (boots : warmBoot last.1 = true)
    (inTime : watched.1.z80.cycles.toNat + cost ≤ maxCycles.toNat) :
    ∃ rounds, cpmLoop fuel maxCycles rounds watched.2 watched.1 =
      some { loaded := true, timedOut := false, output := last.2 } := by
  induction follows with
  | here =>
      refine ⟨1, ?_⟩
      rw [cpmLoop_succ, if_pos boots]
  | @step _ moved _ _ _ taken rest ih =>
      have going := (watch_taken taken).1
      have later := console_nonneg rest
      have least := (console_spends taken).2.1
      have noWrap := maxCycles.isLt
      have counts := console_counts taken (by omega)
      obtain ⟨rounds, found⟩ := ih boots (by omega)
      refine ⟨rounds + 1, ?_⟩
      have still : ¬ maxCycles < moved.1.z80.cycles := by
        apply BitVec.not_lt.mpr
        change moved.1.z80.cycles.toNat ≤ maxCycles.toNat
        omega
      rw [cpmLoop_succ, going, if_neg Bool.false_ne_true, taken, Option.bind_some, if_neg still]
      exact found

end Console

/-! ## A program that prints -/

/-- `LD DE,message`, `LD C,9`, `CALL 5`, `JP 0` and the message. -/
def printer (message : List Byte) : List Byte :=
  [0x11, 0x0B, 0x01, 0x0E, 9, 0xCD, 5, 0, 0xC3, 0, 0] ++ (message ++ [0x24])

/-- The harness prints the message, whatever it is, and ends. -/
theorem cpm_prints (fuel : Nat) (message : List Byte) (noDollar : 0x24#8 ∉ message)
    (fits : message.length ≤ 0xEEF2) (enough : message.length < fuel) (maxCycles : BitVec 64)
    (inTime : 54 ≤ maxCycles.toNat) :
    ∃ least, ∀ rounds, least ≤ rounds →
      runCpmProgram fuel rounds (some (printer message)) maxCycles =
        some { loaded := true, timedOut := false, output := message } := by
  let memory : Memory := Function.update (programAt 0x0100 (printer message) 0) 0x0005 0xC9
  let r : Registers := { Registers.atReset with pc := 0x0100, sp := 0xF000 }
  have length : (printer message).length = message.length + 12 := by
    rw [printer, List.length_append, List.length_append]
    simp only [List.length_cons, List.length_nil]
    omega
  have code : CodeAt memory 0x0100 (printer message) := by
    apply (codeAt_programAt 0x0100 0 (by omega)).of_same
    intro i before
    apply Function.update_of_ne
    bv_omega
  have start : At cpmBus 0x0100 r memory (cpmStart (printer message)) :=
    ⟨⟨rfl, rfl⟩, rfl, ⟨0, 0, 0, false, rfl⟩, rfl⟩
  have parts := codeAt_append.mp code
  obtain ⟨de, lowDe, highDe, c, nine, call, lowCall, highCall, jp, lowJp, highJp, -⟩ := parts.1
  have text : CodeAt memory 0x010B (message ++ [0x24]) := parts.2
  -- the return address lies behind the message
  have spared (i : Nat) (before : i < message.length + 1) :
      pushedOn memory 0xF000 0x0108 (0x010B + BitVec.ofNat 16 i) =
        memory (0x010B + BitVec.ofNat 16 i) := by
    apply pushedOn_apart <;> bv_omega
  have prints : bdosText fuel (pushedOn memory 0xF000 0x0108)
      { r.setDe 0x010B with c := 9 } = some message := by
    change stringAt _ fuel (word (hi 0x010B) (lo 0x010B)) = _
    rw [word_hi_lo]
    apply stringAt_code noDollar _ enough
    apply text.of_same
    intro i before
    rw [List.length_append, List.length_singleton] at before
    exact spared i before
  have leads : Leads (console fuel) (10 + (7 + (17 + 10 + 10))) (fun watched =>
      warmBoot watched.1 = true ∧ watched.2 = message) (cpmStart (printer message), []) := by
    apply (start.silent [] (by decide) (by decide)
      (start.ldDe fuel ⟨de, lowDe, highDe, trivial⟩)).seq
    rintro ⟨s, _⟩ ⟨loaded, rfl⟩
    apply (loaded.silent [] (by decide) (by decide) (loaded.ldC fuel ⟨c, nine, trivial⟩)).seq
    rintro ⟨s, _⟩ ⟨selected, rfl⟩
    apply (selected.bdos [] (by decide) (by decide) ⟨call, lowCall, highCall, trivial⟩ rfl
      (by decide) (by decide) prints).seq
    rintro ⟨s, _⟩ ⟨printed, rfl⟩
    have intact (address : Word) (high : address ≠ 0xF000 - 1) (low : address ≠ 0xF000 - 1 - 1) :=
      @pushedOn_apart memory 0xF000 0x0108 address high low
    have ending : CodeAt (pushedOn memory 0xF000 0x0108) 0x0108 [0xC3, 0, 0] :=
      ⟨(intact _ (by decide) (by decide)).trans jp, (intact _ (by decide) (by decide)).trans lowJp,
        (intact _ (by decide) (by decide)).trans highJp, trivial⟩
    apply (printed.silent _ (by decide) (by decide) (printed.jp fuel ending)).mono
    rintro ⟨s, _⟩ ⟨ended, rfl⟩
    refine ⟨?_, rfl⟩
    rw [warmBoot, ended.pc_eq]
    rfl
  obtain ⟨last, follows, boots, output⟩ := leads
  have soon : (cpmStart (printer message)).z80.cycles.toNat + (10 + (7 + (17 + 10 + 10)) : Int) ≤
      maxCycles.toNat := by
    have zero : (cpmStart (printer message)).z80.cycles.toNat = 0 := rfl
    rw [zero]
    omega
  obtain ⟨least, found⟩ := cpmLoop_follows follows boots soon
  rw [output] at found
  refine ⟨least, fun rounds more => ?_⟩
  have loads : ¬ ((printer message).length = 0 ∨ 0x10000 - 0x0100 < (printer message).length) := by
    omega
  rw [runCpmProgram, if_neg loads]
  exact cpmLoop_more found more

/-- `OK`, with all the time there is. -/
theorem cpm_prints_ok : ∃ rounds,
    runCpmProgram 3 rounds (some (printer [0x4F, 0x4B])) 0xFFFFFFFFFFFFFFFF =
      some { loaded := true, timedOut := false, output := [0x4F, 0x4B] } := by
  obtain ⟨least, found⟩ := cpm_prints 3 [0x4F, 0x4B] (by decide) (by decide) (by decide)
    0xFFFFFFFFFFFFFFFF (by decide)
  exact ⟨least, found least le_rfl⟩

end Z80f
