import Z80f.Block.Transfer
import Z80f.Interrupts.Nesting

/-! # LDIR and LDDR under NMIs

The copy that is interrupted is compared with the one that is not.  Where no NMI
is outstanding both execute the same round; an NMI or a RETN only moves the
first, and the second waits. -/

set_option autoImplicit false

namespace Z80f

open Interaction Stateful Z80M

/-- The registers after one round of the instruction at `pc` that copied `byte`. -/
def Registers.ldRound (direction : Direction) (byte : Byte) (pc : Word) (r : Registers) :
    Registers :=
  { r.blockLdDone direction.delta byte with pc := if r.bc - 1 != 0 then pc else pc + 2 }

theorem ldRound_steady {direction : Direction} {byte : Byte} {pc : Word} {r next : Registers}
    (same : next.steady = r.steady) :
    (next.ldRound direction byte pc).steady = (r.ldRound direction byte pc).steady := by
  calc (next.ldRound direction byte pc).steady
    _ = (next.steady.ldRound direction byte pc).steady := rfl
    _ = (r.steady.ldRound direction byte pc).steady := by rw [same]
    _ = (r.ldRound direction byte pc).steady := rfl

structure LdDone (direction : Direction) (memory : Memory) (cpu next : Cpu) (tail : Path) :
    Prop where
  regs : next.regs.steady =
    (cpu.regs.ldRound direction (memory cpu.regs.hl) (cpu.regs.pc - 2)).steady
  copied : memoryAfter memory tail = copyCell cpu.regs.hl cpu.regs.de memory

theorem ld_done (direction : Direction) (memory : Memory) (cpu : Cpu) :
    (edArm direction.ldOpcode).Holds (fun _ next tail => ReadsFrom memory tail →
      LdDone direction memory cpu next.settleQ tail) cpu := by
  have arm : edArm direction.ldOpcode = blockLd direction.delta true := by
    cases direction <;> rfl
  rw [arm, holds_blockLd]
  intro v
  constructor
  all_goals
    intro more reads
    obtain rfl : v = memory cpu.regs.hl := reads.1
    rw [Bool.true_and] at more
  · refine ⟨?_, by simp [copyCell]⟩
    rw [Registers.ldRound, more, if_neg Bool.false_ne_true, BitVec.sub_add_cancel]
    rfl
  · refine ⟨?_, by simp [copyCell]⟩
    rw [Registers.ldRound, more, if_pos rfl]
    rfl

theorem edFetched_ldRound (direction : Direction) (byte : Byte) (pc : Word) (cpu : Cpu) :
    (cpu.edFetched.regs.ldRound direction byte pc).steady =
      (cpu.regs.ldRound direction byte pc).steady := by
  rw [edFetched_regs]
  rfl

section Round
variable {Host : Type} {bus : RamBus Host} {s : Machine Host}

theorem step_ld (direction : Direction) (fuel : Nat) (running : s.z80.regs.halted = false)
    (undisturbed : s.z80.undisturbed) (first : bus.memory s.host s.z80.regs.pc = 0xED)
    (second : bus.memory s.host (s.z80.regs.pc + 1) = direction.ldOpcode) :
    ∃ result, step bus.toBus fuel s = some result ∧ result.kind ≠ .nmi ∧
      executedRetn result = false ∧
      result.machine.z80.regs.steady = (s.z80.regs.ldRound direction
        (bus.memory s.host s.z80.regs.hl) s.z80.regs.pc).steady ∧
      bus.memory result.machine.host =
        copyCell s.z80.regs.hl s.z80.regs.de (bus.memory s.host) := by
  obtain ⟨result, t, tail, returns, kind, path, ⟨regs, copied⟩, memory⟩ := bus.step_ed fuel
    (fun _ => LdDone direction (bus.memory s.host) s.z80.toCpu.edFetched) running undisturbed first
    second (ld_done direction _ _)
  rw [edFetched_ldRound, edFetched_hl, edFetched_pc, BitVec.add_sub_cancel] at regs
  rw [edFetched_hl, edFetched_de] at copied
  refine ⟨result, returns, ?_, ?_, regs, memory.trans copied⟩
  · rw [kind]
    exact StepKind.noConfusion
  · rw [executedRetn, path, fetchedBytes_append]
    cases direction <;> rfl

end Round

/-! ## The interrupted copy -/

def Machine.withoutNmi {Host : Type} (s : Machine Host) : Machine Host :=
  s.onZ80 fun z => { z with nmiPending := false }

theorem withoutNmi_regs {Host : Type} (s : Machine Host) : s.withoutNmi.z80.regs = s.z80.regs := rfl

/-- The instruction at PC with BC rounds to go.  The copy spares the instruction
and the handler, and the `2 * k` stack bytes lie apart from both and from the
source. -/
structure CopySite {Host : Type} (bus : RamBus Host) (direction : Direction) (k : Nat)
    (s : Machine Host) : Prop where
  first : bus.memory s.host s.z80.regs.pc = 0xED
  second : bus.memory s.host (s.z80.regs.pc + 1) = direction.ldOpcode
  handled : Handled (bus.memory s.host) s.z80.regs.sp k
  firstApart : ¬ Below s.z80.regs.sp (2 * k) s.z80.regs.pc
  secondApart : ¬ Below s.z80.regs.sp (2 * k) (s.z80.regs.pc + 1)
  source : ∀ i < s.z80.regs.bc.toNat,
    ¬ Below s.z80.regs.sp (2 * k) (direction.move s.z80.regs.hl i)
  target : ∀ i < s.z80.regs.bc.toNat,
    ∀ address ∈ [s.z80.regs.pc, s.z80.regs.pc + 1, 0x0066, 0x0067],
      direction.move s.z80.regs.de i ≠ address

/-- Behind the instruction at `pc`, with no NMI outstanding or pending. -/
def CopyDone {Host : Type} (pc : Word) (history : List (Action Host)) (s : Machine Host) : Prop :=
  s.z80.regs.pc = pc + 2 ∧ s.z80.nmiPending = false ∧ nmiServices history = retns history

/-- `s` is `depth` services away from `ran`, which is `j` rounds from `start`. -/
structure Following {Host : Type} (bus : RamBus Host) (direction : Direction) (fuel k : Nat)
    (start : Machine Host) (j depth : Nat) (ran : Ran Host Int) (history : List (Action Host))
    (s : Machine Host) : Prop where
  within : j ≤ start.z80.regs.bc.toNat
  returns : stepTimes bus.toBus fuel j start = some ran
  copying : Copying bus direction start j ran.machine
  sp : ran.machine.z80.regs.sp = start.z80.regs.sp
  iff1 : ran.machine.z80.regs.iff1 = start.z80.regs.iff1
  iff2 : ran.machine.z80.regs.iff2 = start.z80.regs.iff2
  count : nmiServices history = retns history + depth
  nested : Nested bus ran.machine.z80.regs (bus.memory ran.machine.host) k depth s

section Following
variable {Host : Type} {bus : RamBus Host} {direction : Direction} {fuel k j depth : Nat}
  {start s : Machine Host} {ran : Ran Host Int} {history : List (Action Host)}
  (site : CopySite bus direction k start)
include site

theorem CopySite.sparesCode : ∀ i < start.z80.regs.bc.toNat,
    direction.move start.z80.regs.de i ≠ start.z80.regs.pc ∧
      direction.move start.z80.regs.de i ≠ start.z80.regs.pc + 1 := by
  intro i lt
  constructor <;> apply site.target i lt <;> simp

theorem CopySite.handledAt
    (following : Following bus direction fuel k start j depth ran history s) :
    Handled (bus.memory ran.machine.host) ran.machine.z80.regs.sp k := by
  have unchanged {address : Word}
      (listed : address ∈ [start.z80.regs.pc, start.z80.regs.pc + 1, 0x0066, 0x0067]) :
      bus.memory ran.machine.host address = bus.memory start.host address :=
    following.copying.unchanged following.within fun i lt => site.target i lt address listed
  have handled := site.handled
  rw [following.sp]
  exact ⟨(unchanged (by simp)).trans handled.first, (unchanged (by simp)).trans handled.second,
    handled.firstApart, handled.secondApart⟩

theorem CopySite.fetches {t : Machine Host} (copying : Copying bus direction start j t)
    (lt : j < start.z80.regs.bc.toNat) :
    t.z80.regs.pc = start.z80.regs.pc ∧ bus.memory t.host start.z80.regs.pc = 0xED ∧
      bus.memory t.host (start.z80.regs.pc + 1) = direction.ldOpcode := by
  refine ⟨?_, ?_, ?_⟩
  · rw [copying.pc, if_neg lt.ne]
  · rw [copying.unchanged lt.le fun i lt => (site.sparesCode i lt).1]
    exact site.first
  · rw [copying.unchanged lt.le fun i lt => (site.sparesCode i lt).2]
    exact site.second

/-- With no NMI pending or outstanding both copies execute one round. -/
theorem CopySite.round (following : Following bus direction fuel k start j 0 ran history s)
    (idle : s.z80.nmiPending = false) (lt : j < start.z80.regs.bc.toNat) {fuel' : Nat}
    {result : Stepped Host} (returns : step bus.toBus fuel' s = some result) :
    ∃ ran', Following bus direction fuel k start (j + 1) 0 ran' (.stepped result :: history)
      result.machine := by
  obtain ⟨within, ranReturns, copying, sp, iff1, iff2, count, nested⟩ := following
  have resumed := nested.resumed
  obtain ⟨pc, first, second⟩ := site.fetches copying lt
  have hl : s.z80.regs.hl = ran.machine.z80.regs.hl := Registers.agree resumed _ fun _ => rfl
  have de : s.z80.regs.de = ran.machine.z80.regs.de := Registers.agree resumed _ fun _ => rfl
  have samePc : s.z80.regs.pc = ran.machine.z80.regs.pc := Registers.agree resumed _ fun _ => rfl
  have same {address : Word} (apart : ¬ Below start.z80.regs.sp (2 * k) address) :
      bus.memory s.host address = bus.memory ran.machine.host address :=
    nested.outside address (sp ▸ apart)
  have source : bus.memory s.host ran.machine.z80.regs.hl =
      bus.memory ran.machine.host ran.machine.z80.regs.hl := by
    rw [copying.hl]
    exact same (site.source j lt)
  obtain ⟨next, nextReturns, -, copying'⟩ :=
    copying.next fuel site.first site.second site.sparesCode lt
  obtain ⟨next', nextReturns', -, -, nextRegs, nextMemory⟩ := step_ld direction fuel
    copying.running copying.undisturbed (pc ▸ first) (pc ▸ second)
  obtain rfl := Option.some.inj (nextReturns.symm.trans nextReturns')
  have keptSp : next.machine.z80.regs.sp = ran.machine.z80.regs.sp :=
    Registers.agree nextRegs _ fun _ => rfl
  have keptIff1 : next.machine.z80.regs.iff1 = ran.machine.z80.regs.iff1 :=
    Registers.agree nextRegs _ fun _ => rfl
  have keptIff2 : next.machine.z80.regs.iff2 = ran.machine.z80.regs.iff2 :=
    Registers.agree nextRegs _ fun _ => rfl
  obtain ⟨result', returns', noNmi, noRetn, regs, memory⟩ := step_ld direction fuel'
    (nested.running copying.running) (nested.undisturbed idle)
    (by rw [samePc, pc, same site.firstApart, first])
    (by rw [samePc, pc, same site.secondApart, second])
  obtain rfl := Option.some.inj (returns.symm.trans returns')
  have latching := (step_case returns).latching
  have agree : result.machine.z80.regs.steady = next.machine.z80.regs.steady := by
    rw [regs, nextRegs, hl, source, samePc]
    exact ldRound_steady resumed
  refine ⟨⟨ran.value + next.returned, next.machine, ran.calls ++ next.calls⟩, ?_⟩
  exact
    { within := lt
      returns := stepTimes_succ ranReturns nextReturns
      copying := copying'
      sp := keptSp.trans sp
      iff1 := keptIff1.trans iff1
      iff2 := keptIff2.trans iff2
      count := by
        rw [Nat.add_zero] at count
        simp [nmiServices, retns, servicesNmi, noNmi, noRetn, count]
      nested :=
        { bound := Nat.zero_le k
          regs := ⟨_, fun _ => rfl, by rw [agree, nested_zero]⟩
          frames := fun i none => absurd none (Nat.not_lt_zero i)
          outside := by
            intro address apart
            rw [keptSp, sp] at apart
            rw [memory, nextMemory, hl, de]
            exact copyCell_agree source (same apart)
          intLine := latching.intLine.trans nested.intLine
          pulse := by
            rw [latching.pulse, beq_false_of_ne noNmi]
            rfl } }

theorem CopySite.act (following : Following bus direction fuel k start j depth ran history s)
    (equal : start.z80.regs.iff1 = start.z80.regs.iff2) {action : Action Host}
    {last : Machine Host} (schedule : NmiSchedule k (action :: history))
    (notYet : ¬ CopyDone start.z80.regs.pc history s) (act : Act bus.toBus s action last) :
    ∃ j depth ran, Following bus direction fuel k start j depth ran (action :: history) last := by
  have spares := schedule.1 action List.mem_cons_self
  have handled := site.handledAt following
  obtain ⟨within, ranReturns, copying, sp, iff1, iff2, count, nested⟩ := following
  cases act with
  | setNmiLine active =>
      exact ⟨j, depth, ran, within, ranReturns, copying, sp, iff1, iff2, count,
        nested.setNmiLine active⟩
  | setIntLine active =>
      exact ⟨j, depth, ran, within, ranReturns, copying, sp, iff1, iff2, count,
        nested.setIntLine spares⟩
  | pulseIntLine => exact spares.elim
  | stepped returns =>
      by_cases due : s.z80.nmiPending = true ∨ 0 < depth
      · have ranEqual := iff1.trans (equal.trans iff2.symm)
        obtain ⟨-, depth', count', nested'⟩ :=
          nested.step handled copying.running ranEqual due schedule count returns
        exact ⟨j, depth', ran, within, ranReturns, copying, sp, iff1, iff2, count', nested'⟩
      · obtain ⟨notPending, notDeep⟩ := not_or.mp due
        have idle : s.z80.nmiPending = false := Bool.eq_false_iff.mpr notPending
        obtain rfl : depth = 0 := Nat.eq_zero_of_not_pos notDeep
        have lt : j < start.z80.regs.bc.toNat := by
          apply Nat.lt_of_le_of_ne within
          intro all
          apply notYet
          refine ⟨?_, idle, count⟩
          rw [nested.pc, returnTo, copying.pc, if_pos all]
        obtain ⟨ran', following⟩ := site.round
          ⟨within, ranReturns, copying, sp, iff1, iff2, count, nested⟩ idle lt returns
        exact ⟨j + 1, 0, ran', following⟩

end Following

/-- Interrupting LDIR or LDDR neither skips nor repeats a byte: when the copy is
behind its instruction and every NMI has returned, the state is the one that the
copy without NMIs reaches after BC steps, but for R, Q, WZ, the shadow of EI and
the stack bytes. -/
theorem interrupted_transfer {Host : Type} (bus : RamBus Host) (direction : Direction)
    (fuel k : Nat) (s : Machine Host) (running : s.z80.regs.halted = false)
    (noInt : s.z80.intLine = false ∧ s.z80.intPulsePending = false)
    (positive : 1 ≤ s.z80.regs.bc.toNat) (equal : s.z80.regs.iff1 = s.z80.regs.iff2)
    (site : CopySite bus direction k s) (history : List (Action Host)) (later : Machine Host)
    (run : Run (Act bus.toBus) s history later) (schedule : NmiSchedule k history)
    (notBefore : NotBefore (Act bus.toBus) s (CopyDone s.z80.regs.pc) history)
    (done : CopyDone s.z80.regs.pc history later) :
    (∀ j < s.z80.regs.bc.toNat, ∃ early,
      stepTimes bus.toBus fuel j s.withoutNmi = some early ∧
        early.machine.z80.regs.pc = s.z80.regs.pc) ∧
    ∃ ran, stepTimes bus.toBus fuel s.z80.regs.bc.toNat s.withoutNmi = some ran ∧
      ran.machine.z80.regs.pc = s.z80.regs.pc + 2 ∧
      let r := ran.machine.z80.regs
      let next := later.z80.regs
      next = { r with r := next.r, q := next.q, wz := next.wz, eiPending := next.eiPending } ∧
      ∀ address, ¬ Below s.z80.regs.sp (2 * k) address →
        bus.memory later.host address = bus.memory ran.machine.host address := by
  have quiet : s.withoutNmi.z80.undisturbed := by
    refine ⟨rfl, ?_⟩
    change ((s.z80.intLine || s.z80.intPulsePending) && s.z80.regs.iff1) = false
    rw [noInt.1, noInt.2]
    rfl
  have away : CopySite bus direction k s.withoutNmi := by
    obtain ⟨first, second, handled, firstApart, secondApart, source, target⟩ := site
    exact ⟨first, second, handled, firstApart, secondApart, source, target⟩
  have begin : Copying bus direction s.withoutNmi 0 s.withoutNmi :=
    .start running quiet positive
  have init : ∃ j depth ran, Following bus direction fuel k s.withoutNmi j depth ran [] s :=
    ⟨0, 0, ⟨0, s.withoutNmi, []⟩, Nat.zero_le _, rfl, begin, rfl, rfl, rfl, rfl, .start noInt⟩
  obtain ⟨j, depth, ran, within, returns, copying, sp, -, -, count, nested⟩ :
      ∃ j depth ran, Following bus direction fuel k s.withoutNmi j depth ran history later := by
    apply run.until
      (fun history s' => ∃ j depth ran,
        Following bus direction fuel k s.withoutNmi j depth ran history s')
      (NmiSchedule k) NmiSchedule.shorter init _ schedule notBefore
    intro history state action last schedule notYet before act
    obtain ⟨j, depth, ran, following⟩ := before
    exact away.act following equal schedule notYet act
  obtain ⟨pc, -, returned⟩ := done
  obtain rfl : depth = 0 := by omega
  have ranPc : ran.machine.z80.regs.pc = s.z80.regs.pc + 2 := nested.pc.symm.trans pc
  have all : j = s.z80.regs.bc.toNat := by
    by_contra early
    have before := copying.pc
    rw [ranPc, withoutNmi_regs, if_neg early] at before
    bv_omega
  subst all
  refine ⟨fun j lt => ?_, ran, returns, ranPc, Registers.of_steady nested.resumed, ?_⟩
  · obtain ⟨early, earlyReturns, before⟩ := stepTimes_run
      (fun j ran => Copying bus direction s.withoutNmi j ran.machine) begin
      (fun j ran lt copying => by
        obtain ⟨next, nextReturns, -, later⟩ :=
          copying.next fuel away.first away.second away.sparesCode lt
        exact ⟨next, nextReturns, later⟩) lt.le
    refine ⟨early, earlyReturns, ?_⟩
    rw [before.pc, withoutNmi_regs, if_neg lt.ne]
  · intro address apart
    exact nested.outside address (sp ▸ apart)

/-- Two bytes, and an NMI between the rounds. -/
theorem interrupted_transfer_two :
    let s : Machine Memory :=
      { z80 := { regs := { c := 2, h := 1, d := 2, sp := 0x8000 } }
        host := fun address => [(0, 0xED), (1, 0xB0), (0x0066, 0xED), (0x0067, 0x45)].lookup address
          |>.getD 0x5A }
    ∃ history later ran, Run (Act flatRam.toBus) s history later ∧
      stepTimes flatRam.toBus 0 2 s.withoutNmi = some ran ∧
        later.z80.regs.pc = 2 ∧ later.host 0x0201 = ran.machine.host 0x0201 := by
  intro s
  have run := Run.next (Run.next (Run.next (Run.next (Run.next (@Run.start _ _ (Act flatRam.toBus)
    { z80 := { regs := { c := 2, h := 1, d := 2, sp := 0x8000 } }
      host := fun address => [(0, 0xED), (1, 0xB0), (0x0066, 0xED), (0x0067, 0x45)].lookup address
        |>.getD 0x5A })
    (@Act.stepped _ _ _ 0 _ rfl)) (.setNmiLine _ true)) (@Act.stepped _ _ _ 0 _ rfl))
    (@Act.stepped _ _ _ 0 _ rfl)) (@Act.stepped _ _ _ 0 _ rfl)
  have two : s.z80.regs.bc.toNat = 2 := by decide
  have handled : Handled s.host s.z80.regs.sp 1 :=
    ⟨rfl, rfl, by rw [below_iff]; decide, by rw [below_iff]; decide⟩
  have site : CopySite flatRam .up 1 s := by
    refine ⟨rfl, rfl, handled, by rw [below_iff]; decide, by rw [below_iff]; decide, ?_, ?_⟩
    all_goals
      intro i lt
      rw [two] at lt
    · rw [below_iff]
      interval_cases i <;> decide
    · intro address listed
      simp only [List.mem_cons, List.not_mem_nil, or_false] at listed
      interval_cases i <;> rcases listed with rfl | rfl | rfl | rfl <;> decide
  obtain ⟨-, ran, returns, -, -, memory⟩ := interrupted_transfer flatRam .up 0 1 s rfl ⟨rfl, rfl⟩
    (by rw [two]; decide) rfl site _ _ run
    (.next (.next (.next (.next (.next (.start 1) trivial (by decide)) trivial (by decide)) trivial
      (by decide)) trivial (by decide)) trivial (by decide))
    (.cons (.cons (.cons (.cons (.cons .nil
      (fun _ run done => by cases run; exact absurd done.1 (by decide)) _)
      (fun _ run done => by
        cases run with
        | next run act =>
            cases act
            exact absurd done.1 (by decide)) _)
      (fun _ run done => by
        cases run with
        | next run act =>
            cases act
            cases run with
            | next run act =>
                cases act
                exact absurd done.1 (by decide)) _)
      (fun _ _ done => absurd done.2.2 (by decide)) _)
      (fun _ run done => by
        cases run with
        | next run act =>
            cases act
            exact absurd done.1 (by decide)) _)
    ⟨rfl, rfl, by decide⟩
  rw [two] at returns
  refine ⟨_, _, ran, run, returns, rfl, memory 0x0201 ?_⟩
  rw [below_iff]
  decide

end Z80f
