import Z80f.Program.Rules
import Z80f.Timing.Bounds

/-! # The CP/M harness

The harness of the instruction exercisers runs an image at 0x0100, prints for the
BDOS calls at 0x0005 and stops at 0x0000 or once its time is over.  It watches
the CPU: its output is that of the watched machine. -/

set_option autoImplicit false

namespace Z80f

open Interaction Stateful Z80M

/-- The callbacks of `CpmBus` are those of the flat RAM. -/
def cpmBus : RamBus Memory := flatRam

structure CpmResult where
  loaded : Bool := false
  timedOut : Bool := false
  output : List Byte := []

/-- The bytes from `address` up to the first `$`. -/
def stringAt (memory : Memory) : Nat → Word → Option (List Byte)
  | 0, _ => none
  | fuel + 1, address =>
      if memory address = 0x24 then some []
      else (stringAt memory fuel (address + 1)).map (memory address :: ·)

def bdosText (fuel : Nat) (memory : Memory) (r : Registers) : Option (List Byte) :=
  if r.c = 2 then some [r.e]
  else if r.c = 9 then stringAt memory fuel r.de
  else some []

/-- The loop of `run_cpm_program`. -/
def cpmLoop (fuel : Nat) (maxCycles : BitVec 64) :
    Nat → List Byte → Machine Memory → Option CpmResult
  | 0, _, _ => none
  | rounds + 1, output, s =>
      let next (output : List Byte) : Option CpmResult :=
        (step cpmBus.toBus fuel s).bind fun stepped =>
          if maxCycles < stepped.machine.z80.cycles then
            some { loaded := true, timedOut := true, output := output }
          else cpmLoop fuel maxCycles rounds output stepped.machine
      if s.z80.regs.pc = 0x0005 then
        (bdosText fuel s.host s.z80.regs).bind fun text => next (output ++ text)
      else if s.z80.regs.pc = 0x0000 then
        some { loaded := true, timedOut := false, output := output }
      else next output

def cpmStart (image : List Byte) : Machine Memory :=
  let cpu := (Z80.reset {}).reset
  let snapshot := cpu.saveSnapshot
  { z80 := cpu.loadSnapshot
      { snapshot with registers := { snapshot.registers with pc := 0x0100, sp := 0xF000 } }
    host := Function.update (programAt 0x0100 image 0) 0x0005 0xC9 }

/-- `run_cpm_program`, on the contents of its file. -/
def runCpmProgram (fuel rounds : Nat) (file : Option (List Byte)) (maxCycles : BitVec 64) :
    Option CpmResult :=
  match file with
  | none => some {}
  | some image =>
      if image.length = 0 ∨ 0x10000 - 0x0100 < image.length then some {}
      else cpmLoop fuel maxCycles rounds [] (cpmStart image)

def warmBoot (s : Machine Memory) : Bool := s.z80.regs.pc == 0x0000

def consoleText (fuel : Nat) (s : Machine Memory) : Option (List Byte) :=
  if s.z80.regs.pc = 0x0005 then bdosText fuel s.host s.z80.regs else some []

def console (fuel : Nat) :
    Machine Memory × List Byte → Option ((Machine Memory × List Byte) × Int) :=
  watch warmBoot (consoleText fuel) (advance cpmBus.toBus fuel)

section Round
variable {fuel rounds : Nat} {maxCycles : BitVec 64} {s t : Machine Memory}
  {out out' : List Byte} {cost : Int}

theorem cpmLoop_succ : cpmLoop fuel maxCycles (rounds + 1) out s =
    if warmBoot s then some { loaded := true, timedOut := false, output := out }
    else (console fuel (s, out)).bind fun taken =>
      if maxCycles < taken.1.1.z80.cycles then
        some { loaded := true, timedOut := true, output := taken.1.2 }
      else cpmLoop fuel maxCycles rounds taken.1.2 taken.1.1 := by
  rw [cpmLoop]
  by_cases boots : warmBoot s = true
  · have pc : s.z80.regs.pc = 0x0000 := eq_of_beq boots
    have other : ¬ s.z80.regs.pc = 0x0005 := by
      rw [pc]
      decide
    rw [if_pos boots, if_neg other, if_pos pc]
  · have pc : ¬ s.z80.regs.pc = 0x0000 := fun same => boots (beq_iff_eq.mpr same)
    rw [if_neg boots, console, watch, if_neg boots, consoleText, advance]
    by_cases trapped : s.z80.regs.pc = 0x0005
    · rw [if_pos trapped, if_pos trapped]
      cases bdosText fuel s.host s.z80.regs with
      | none => rfl
      | some text => cases step cpmBus.toBus fuel s <;> rfl
    · rw [if_neg trapped, if_neg trapped, if_neg pc]
      cases step cpmBus.toBus fuel s with
      | none => rfl
      | some stepped =>
          simp only [Option.bind_some, Option.map_some, List.append_nil]

theorem console_spends (taken : console fuel (s, out) = some ((t, out'), cost)) :
    t.z80.cycles = s.z80.cycles + BitVec.ofInt 64 cost ∧ 4 ≤ cost ∧ cost ≤ 25 + 4 * fuel := by
  obtain ⟨-, text, next, -, advanced, same⟩ := watch_taken taken
  obtain ⟨rfl, -⟩ := Prod.mk.inj same
  obtain ⟨stepped, returns, stepSame⟩ := Option.map_eq_some_iff.mp advanced
  obtain ⟨rfl, rfl⟩ := Prod.mk.inj stepSame
  refine ⟨?_, step_nominal_bounds returns⟩
  rw [step_cycles returns, spentOn_eq, step_noWaits (fun _ _ _ _ => rfl) returns, add_zero]

theorem cpmLoop_more {result : CpmResult}
    (found : cpmLoop fuel maxCycles rounds out s = some result)
    {more : Nat} (le : rounds ≤ more) : cpmLoop fuel maxCycles more out s = some result := by
  induction rounds generalizing out s more with
  | zero => cases found
  | succ rounds ih =>
      obtain ⟨more, rfl⟩ : ∃ m, more = m + 1 := ⟨more - 1, by omega⟩
      rw [cpmLoop_succ] at found ⊢
      by_cases boots : warmBoot s = true
      · rwa [if_pos boots] at found ⊢
      · rw [if_neg boots] at found ⊢
        obtain ⟨taken, moved, found⟩ := Option.bind_eq_some_iff.mp found
        rw [moved, Option.bind_some]
        by_cases late : maxCycles < taken.1.1.z80.cycles
        · rwa [if_pos late] at found ⊢
        · rw [if_neg late] at found ⊢
          exact ih found (by omega)

/-- The time of a round, as long as the counter does not wrap. -/
theorem console_counts (taken : console fuel (s, out) = some ((t, out'), cost))
    (noWrap : s.z80.cycles.toNat + cost < 2 ^ 64) :
    (t.z80.cycles.toNat : Int) = s.z80.cycles.toNat + cost := by
  obtain ⟨cycles, least, -⟩ := console_spends taken
  obtain ⟨spent, rfl⟩ := Int.eq_ofNat_of_zero_le (show 0 ≤ cost by omega)
  rw [cycles, BitVec.ofInt_natCast, BitVec.toNat_add, BitVec.toNat_ofNat]
  omega

/-- What the harness found: the output of the watched machine up to the warm boot or
to the first state past the time. -/
structure Found (fuel : Nat) (maxCycles : BitVec 64) (s : Machine Memory) (out : List Byte)
    (result : CpmResult) (cost : Int) (t : Machine Memory) : Prop where
  loaded : result.loaded = true
  follows : Follows (console fuel) (s, out) cost (t, result.output)
  time : (t.z80.cycles.toNat : Int) = s.z80.cycles.toNat + cost
  soon : t.z80.cycles.toNat ≤ maxCycles.toNat + 25 + 4 * fuel
  booted : result.timedOut = false → warmBoot t = true ∧ t.z80.cycles ≤ maxCycles
  late : result.timedOut = true → maxCycles < t.z80.cycles

theorem cpmLoop_finds (small : maxCycles.toNat + 25 + 4 * fuel < 2 ^ 64)
    (inTime : s.z80.cycles ≤ maxCycles)
    (steady : ∀ cost t out', Follows (console fuel) (s, out) cost (t, out') →
      t.z80.cycles ≤ maxCycles → warmBoot t = false → (console fuel (t, out')).isSome = true)
    (enough : maxCycles.toNat - s.z80.cycles.toNat < 4 * rounds) :
    ∃ result cost t, cpmLoop fuel maxCycles rounds out s = some result ∧
      Found fuel maxCycles s out result cost t := by
  induction rounds generalizing out s with
  | zero => omega
  | succ rounds ih =>
      rw [cpmLoop_succ]
      by_cases boots : warmBoot s = true
      · rw [if_pos boots]
        have within : s.z80.cycles.toNat ≤ maxCycles.toNat := inTime
        exact ⟨_, 0, s, rfl, rfl, .here _, (add_zero _).symm, by omega,
          fun _ => ⟨boots, inTime⟩, nofun⟩
      · rw [if_neg boots]
        obtain ⟨⟨⟨t, out'⟩, cost⟩, taken⟩ := Option.isSome_iff_exists.mp
          (steady 0 s out (.here _) inTime (Bool.eq_false_iff.mpr boots))
        obtain ⟨-, least, most⟩ := console_spends taken
        have within : s.z80.cycles.toNat ≤ maxCycles.toNat := inTime
        have counts := console_counts taken (by omega)
        rw [taken, Option.bind_some]
        by_cases late : maxCycles < t.z80.cycles
        · rw [if_pos late]
          have follows := Follows.step taken (.here _)
          rw [add_zero] at follows
          exact ⟨_, cost, t, rfl, rfl, follows, counts, by omega, nofun, fun _ => late⟩
        · rw [if_neg late]
          have still : t.z80.cycles ≤ maxCycles := BitVec.not_lt.mp late
          have room : maxCycles.toNat - t.z80.cycles.toNat < 4 * rounds := by
            have stillWithin : t.z80.cycles.toNat ≤ maxCycles.toNat := still
            omega
          obtain ⟨result, later, u, found, finds⟩ := ih still
            (fun more u out'' rest => steady (cost + more) u out'' (.step taken rest)) room
          refine ⟨result, cost + later, u, found, finds.loaded, .step taken finds.follows, ?_,
            finds.soon, finds.booted, finds.late⟩
          rw [finds.time, counts, add_assoc]

end Round

section Strings
variable {memory : Memory} {address : Word} {fuel : Nat}

/-- The loop over a string ends at the first `$`, if there is one. -/
theorem stringAt_isSome {i : Nat} (before : i < fuel)
    (dollar : memory (address + BitVec.ofNat 16 i) = 0x24) :
    (stringAt memory fuel address).isSome = true := by
  induction fuel generalizing address i with
  | zero => omega
  | succ fuel ih =>
      rw [stringAt]
      by_cases here : memory address = 0x24
      · rw [if_pos here]
        rfl
      · rw [if_neg here, Option.isSome_map]
        cases i with
        | zero => exact absurd (by rwa [BitVec.add_zero] at dollar) here
        | succ i =>
            rw [next_address] at dollar
            exact ih (by omega) dollar

end Strings

/-- In `s` the harness gets on: the step returns, and a string to print has an end. -/
structure Steady (fuel : Nat) (s : Machine Memory) : Prop where
  returns : (step cpmBus.toBus fuel s).isSome = true
  ends : s.z80.regs.pc = 0x0005 → s.z80.regs.c = 9 →
    ∃ i < fuel, s.host (s.z80.regs.de + BitVec.ofNat 16 i) = 0x24

theorem Steady.console {fuel : Nat} {s : Machine Memory} (steady : Steady fuel s)
    (going : warmBoot s = false) (out : List Byte) :
    (Z80f.console fuel (s, out)).isSome = true := by
  obtain ⟨stepped, returns⟩ := Option.isSome_iff_exists.mp steady.returns
  have text : (consoleText fuel s).isSome = true := by
    unfold consoleText bdosText
    split
    · rename_i trapped
      split
      · rfl
      · split
        · rename_i string
          obtain ⟨i, before, dollar⟩ := steady.ends trapped string
          exact stringAt_isSome before dollar
        · rfl
    · rfl
  obtain ⟨text, emits⟩ := Option.isSome_iff_exists.mp text
  rw [Z80f.console, watch_some going emits (advance_step returns)]
  rfl

/-- The harness always returns, within a quarter of `max_cycles` rounds, as long as
every state it passes in its time is steady: `timed_out` says that the counter
has passed `max_cycles`, by at most one instruction; otherwise the program came to
0x0000 in time.  The output is that of the watched machine. -/
theorem cpm_terminates (fuel : Nat) (image : List Byte) (maxCycles : BitVec 64)
    (nonempty : image.length ≠ 0) (fits : image.length ≤ 0x10000 - 0x0100)
    (small : maxCycles.toNat + 25 + 4 * fuel < 2 ^ 64)
    (steady : ∀ cost t out, Follows (console fuel) (cpmStart image, []) cost (t, out) →
      t.z80.cycles ≤ maxCycles → warmBoot t = false → Steady fuel t) :
    ∃ result cost t, Found fuel maxCycles (cpmStart image) [] result cost t ∧
      ∀ rounds, maxCycles.toNat < 4 * rounds →
        runCpmProgram fuel rounds (some image) maxCycles = some result := by
  have inTime : (cpmStart image).z80.cycles ≤ maxCycles := Nat.zero_le _
  have start : (cpmStart image).z80.cycles.toNat = 0 := rfl
  obtain ⟨result, cost, t, found, finds⟩ := @cpmLoop_finds fuel (maxCycles.toNat / 4 + 1) maxCycles
    (cpmStart image) [] small inTime
    (fun cost t out follows within going =>
      (steady cost t out follows within going).console going out)
    (by omega)
  refine ⟨result, cost, t, finds, fun rounds enough => ?_⟩
  have loads : ¬ (image.length = 0 ∨ 0x10000 - 0x0100 < image.length) := by omega
  rw [runCpmProgram, if_neg loads]
  exact cpmLoop_more found (by omega)

/-- `JP 0100h` at 0x0100 takes 10 T-states a round until its time is over. -/
theorem cpm_terminates_loop : ∃ result,
    runCpmProgram 0 26 (some [0xC3, 0x00, 0x01]) 100 = some result ∧ result.timedOut = true := by
  let memory : Memory := Function.update (programAt 0x0100 [0xC3, 0x00, 0x01] 0) 0x0005 0xC9
  let r : Registers := { Registers.atReset with pc := 0x0100, sp := 0xF000 }
  have start : At cpmBus 0x0100 r memory (cpmStart [0xC3, 0x00, 0x01]) :=
    ⟨⟨rfl, rfl⟩, rfl, ⟨0, 0, 0, false, rfl⟩, rfl⟩
  have jumps {t : Machine Memory} (at_ : At cpmBus 0x0100 r memory t) :
      Steps (advance cpmBus.toBus 0) 10 (At cpmBus 0x0100 r memory) t := by
    have code : CodeAt memory 0x0100 [0xC3, 0x00, 0x01] := ⟨rfl, rfl, rfl, trivial⟩
    exact at_.jp 0 code
  have loops {cost : Int} {t : Machine Memory} {out : List Byte}
      (follows : Follows (console 0) (cpmStart [0xC3, 0x00, 0x01], []) cost (t, out)) :
      At cpmBus 0x0100 r memory t := by
    refine follows.invariant (fun watched => At cpmBus 0x0100 r memory watched.1) ?_ start
    intro before after _ at_ taken
    obtain ⟨-, text, next, -, advanced, rfl⟩ := watch_taken taken
    exact (jumps at_).taken advanced
  obtain ⟨result, cost, t, found, returns⟩ := cpm_terminates 0 [0xC3, 0x00, 0x01] 100 (by decide)
    (by decide) (by decide) fun cost t out follows _ _ => by
      have at_ := loops follows
      obtain ⟨next, advanced, -⟩ := jumps at_
      obtain ⟨stepped, stepReturns, -⟩ := Option.map_eq_some_iff.mp advanced
      refine ⟨by rw [stepReturns]; rfl, fun trapped => ?_⟩
      rw [at_.pc_eq] at trapped
      exact absurd trapped (by decide)
  refine ⟨result, returns 26 (by decide), ?_⟩
  by_contra booted
  obtain ⟨boots, -⟩ := found.booted (Bool.eq_false_iff.mpr booted)
  rw [warmBoot, (loops found.follows).pc_eq] at boots
  exact absurd boots (by decide)

end Z80f
