import Z80f.Cpu.Session
import Z80f.Timing.Termination
import Mathlib.Tactic.Abel

/-! # Wait states never affect computation

The data side of a host answers the memory, I/O and acknowledge calls from a
state that only these calls change.  Two hosts with the same data side are
indistinguishable, whatever their waits; only the cycle counters part. -/

set_option autoImplicit false

namespace Z80f

open Interaction Stateful

/-- Answers that depend on the earlier data accesses alone. -/
structure DataSide (Data : Type) where
  readMemory : Word → Data → Byte × Data
  writeMemory : Word → Byte → Data → Data
  readIo : Word → Data → Byte × Data
  writeIo : Word → Byte → Data → Data
  acknowledgeInterrupt : Data → Byte × Data

/-- `bus` answers from the data that `data` finds in the host. -/
structure AnswersFrom {Host Data : Type} (bus : Bus Host) (side : DataSide Data)
    (data : Host → Data) : Prop where
  onMCycle : ∀ cycles address tStates host,
    data (bus.onMCycle cycles address tStates host).2 = data host
  readMemory : ∀ cycles address host,
    ((bus.readMemory cycles address host).1, data (bus.readMemory cycles address host).2) =
      side.readMemory address (data host)
  writeMemory : ∀ cycles address value host,
    data (bus.writeMemory cycles address value host) = side.writeMemory address value (data host)
  readIo : ∀ cycles port host,
    ((bus.readIo cycles port host).1, data (bus.readIo cycles port host).2) =
      side.readIo port (data host)
  writeIo : ∀ cycles port value host,
    data (bus.writeIo cycles port value host) = side.writeIo port value (data host)
  acknowledgeInterrupt : ∀ cycles host,
    ((bus.acknowledgeInterrupt cycles host).1, data (bus.acknowledgeInterrupt cycles host).2) =
      side.acknowledgeInterrupt (data host)

section TwoHosts
variable {Host Host' Data α : Type} {bus : Bus Host} {bus' : Bus Host'} {side : DataSide Data}
  {data : Host → Data} {data' : Host' → Data}

theorem AnswersFrom.agrees (left : AnswersFrom bus side data) (right : AnswersFrom bus' side data') :
    (environment bus).Agrees (environment bus') fun state state' =>
      data state.2 = data' state'.2 := by
  rintro request ⟨clock, host⟩ ⟨clock', host'⟩ same
  change data host = data' host' at same
  cases request with
  | machineCycle address tStates =>
      refine ⟨rfl, ?_⟩
      exact (left.onMCycle _ _ _ _).trans (same.trans (right.onMCycle _ _ _ _).symm)
  | readMemory kind address =>
      have answered := left.readMemory clock.cycles address host
      rw [same, ← right.readMemory clock'.cycles address host'] at answered
      exact Prod.mk.inj answered
  | writeMemory address value =>
      refine ⟨rfl, (left.writeMemory _ _ _ _).trans ?_⟩
      rw [same]
      exact (right.writeMemory _ _ _ _).symm
  | readIo port =>
      have answered := left.readIo clock.cycles port host
      rw [same, ← right.readIo clock'.cycles port host'] at answered
      exact Prod.mk.inj answered
  | writeIo port value =>
      refine ⟨rfl, (left.writeIo _ _ _ _).trans ?_⟩
      rw [same]
      exact (right.writeIo _ _ _ _).symm
  | acknowledgeInterrupt =>
      have answered := left.acknowledgeInterrupt clock.cycles host
      rw [same, ← right.acknowledgeInterrupt clock'.cycles host'] at answered
      exact Prod.mk.inj answered

/-- Equal CPUs before equal data; the counters and the rest of the hosts may differ. -/
structure SameComputation (data : Host → Data) (data' : Host' → Data) (s : Machine Host)
    (s' : Machine Host') : Prop where
  cpu : s.z80.toCpu = s'.z80.toCpu
  data : data s.host = data' s'.host

theorem SameComputation.run {s : Machine Host} {s' : Machine Host'}
    (left : AnswersFrom bus side data) (right : AnswersFrom bus' side data')
    (same : SameComputation data data' s s') (m : Z80M α) :
    let ran := exec bus m s
    let ran' := exec bus' m s'
    ran.value = ran'.value ∧ SameComputation data data' ran.machine ran'.machine ∧
      ran.calls.map Exchange.answered = ran'.calls.map Exchange.answered := by
  obtain ⟨values, finals, calls⟩ := (left.agrees right).run (m.run s.z80.toCpu)
    (s.z80.toClock, s.host) (s'.z80.toClock, s'.host) same.data
  dsimp only [exec]
  rw [← same.cpu]
  exact ⟨congrArg Prod.fst values, ⟨congrArg Prod.snd values, finals⟩, calls⟩

end TwoHosts

/-- The same call on both sides; a step may end differently. -/
inductive SameCall {Host Host' : Type} : Action Host → Action Host' → Prop where
  | setNmiLine (active : Bool) : SameCall (.setNmiLine active) (.setNmiLine active)
  | setIntLine (active : Bool) : SameCall (.setIntLine active) (.setIntLine active)
  | pulseIntLine : SameCall .pulseIntLine .pulseIntLine
  | stepped (result : Stepped Host) (result' : Stepped Host') :
      SameCall (.stepped result) (.stepped result')

/-- The calls a step made to the bus, without what the host did in them. -/
def callsMade {Host : Type} : Action Host → Path
  | .stepped result => result.calls.map Exchange.answered
  | _ => []

def waitsOn (calls : List BusCall) : Int := (calls.map fun call => call.note.waits).sum

def waited {Host : Type} : Action Host → Int
  | .stepped result => waitsOn result.calls
  | _ => 0

theorem spentOn_eq (calls : List BusCall) :
    spentOn calls = nominal (calls.map Exchange.answered) + waitsOn calls := by
  induction calls with
  | nil => rfl
  | cons call calls ih =>
      simp only [spentOn, nominal, waitsOn] at ih
      simp only [spentOn, nominal, waitsOn, List.map_cons, List.sum_cons, ih, spentBy,
        Exchange.answered]
      omega

theorem ofInt_sub (x y : Int) :
    BitVec.ofInt 64 (x - y) = BitVec.ofInt 64 x - BitVec.ofInt 64 y := by
  rw [Int.sub_eq_add_neg, BitVec.ofInt_add, BitVec.ofInt_neg, ← sub_eq_add_neg]

theorem step_cycles {Host : Type} {bus : Bus Host} {fuel : Nat} {s : Machine Host}
    {stepped : Stepped Host} (returns : step bus fuel s = some stepped) :
    stepped.machine.z80.cycles = s.z80.cycles + BitVec.ofInt 64 (spentOn stepped.calls) := by
  obtain ⟨-, machine, calls, -⟩ := step_returns returns
  rw [machine, calls]
  exact exec_cycles _ _

section Sessions
variable {Host Host' Data : Type} {bus : Bus Host} {bus' : Bus Host'} {side : DataSide Data}
  {data : Host → Data} {data' : Host' → Data}

theorem SameComputation.step {s : Machine Host} {s' : Machine Host'} {fuel fuel' : Nat}
    {result : Stepped Host} {result' : Stepped Host'} (left : AnswersFrom bus side data)
    (right : AnswersFrom bus' side data') (same : SameComputation data data' s s')
    (returns : step bus fuel s = some result) (returns' : step bus' fuel' s' = some result') :
    result.machine.z80.toCpu = result'.machine.z80.toCpu ∧
      result.calls.map Exchange.answered = result'.calls.map Exchange.answered ∧
      data result.machine.host = data' result'.machine.host := by
  have common := step_returns (step_fuel (Nat.le_max_left fuel fuel') returns)
  have common' := step_returns (step_fuel (Nat.le_max_right fuel fuel') returns')
  obtain ⟨-, machine, calls, -⟩ := common
  obtain ⟨-, machine', calls', -⟩ := common'
  have started : SameComputation data data' s.started s'.started := ⟨same.cpu, same.data⟩
  obtain ⟨-, finals, made⟩ := started.run left right (stepBody (max fuel fuel'))
  rw [machine, machine', calls, calls']
  exact ⟨finals.cpu, made, finals.data⟩

/-- One common call: the same computation, and waits account for the time. -/
theorem SameCall.same {action : Action Host} {action' : Action Host'} {s last : Machine Host}
    {s' last' : Machine Host'} (left : AnswersFrom bus side data)
    (right : AnswersFrom bus' side data') (same : SameComputation data data' s s')
    (call : SameCall action action') (act : Act bus s action last)
    (act' : Act bus' s' action' last') :
    SameComputation data data' last last' ∧ callsMade action = callsMade action' ∧
      (last.z80.cycles - s.z80.cycles) - (last'.z80.cycles - s'.z80.cycles) =
        BitVec.ofInt 64 (waited action - waited action') := by
  have still (x y : BitVec 64) : x - x - (y - y) = BitVec.ofInt 64 (0 - 0) := by
    rw [sub_self, sub_self]
    rfl
  cases call with
  | setNmiLine active =>
      cases act
      cases act'
      refine ⟨⟨?_, same.data⟩, rfl, still _ _⟩
      simp only [Machine.onZ80, Z80.setNmiLine, same.cpu]
  | setIntLine active =>
      cases act
      cases act'
      refine ⟨⟨?_, same.data⟩, rfl, still _ _⟩
      simp only [Machine.onZ80, Z80.setIntLine, same.cpu]
  | pulseIntLine =>
      cases act
      cases act'
      refine ⟨⟨?_, same.data⟩, rfl, still _ _⟩
      simp only [Machine.onZ80, Z80.pulseIntLine, same.cpu]
  | stepped result result' =>
      cases act with
      | stepped returns =>
          cases act' with
          | stepped returns' =>
              obtain ⟨cpu, made, finals⟩ := same.step left right returns returns'
              refine ⟨⟨cpu, finals⟩, made, ?_⟩
              rw [step_cycles returns, step_cycles returns', spentOn_eq, spentOn_eq, made,
                add_sub_cancel_left, add_sub_cancel_left, ← ofInt_sub]
              congr 1
              simp only [waited]
              omega

end Sessions

/-- Two hosts with the same data side and any waits, the same calls, every step
returning: at the end of every session both CPUs are equal, the steps made the
same calls, and the counters differ by the waits. -/
theorem waits_never_matter {Host Host' Data : Type} (bus : Bus Host) (bus' : Bus Host')
    (side : DataSide Data) (data : Host → Data) (data' : Host' → Data)
    (left : AnswersFrom bus side data) (right : AnswersFrom bus' side data')
    (s last : Machine Host) (s' last' : Machine Host') (history : List (Action Host))
    (history' : List (Action Host')) (start : SameComputation data data' s s')
    (run : Run (Act bus) s history last) (run' : Run (Act bus') s' history' last')
    (common : List.Forall₂ SameCall history history') :
    last.z80.toCpu = last'.z80.toCpu ∧ history.map callsMade = history'.map callsMade ∧
      (last.z80.cycles - s.z80.cycles) - (last'.z80.cycles - s'.z80.cycles) =
        BitVec.ofInt 64 ((history.map waited).sum - (history'.map waited).sum) := by
  suffices all : SameComputation data data' last last' ∧
      history.map callsMade = history'.map callsMade ∧
      (last.z80.cycles - s.z80.cycles) - (last'.z80.cycles - s'.z80.cycles) =
        BitVec.ofInt 64 ((history.map waited).sum - (history'.map waited).sum) from
    ⟨all.1.cpu, all.2⟩
  induction run generalizing history' last' with
  | start =>
      cases common
      cases run'
      refine ⟨start, rfl, ?_⟩
      rw [sub_self, sub_self]
      rfl
  | next run act ih =>
      cases common with
      | cons call earlier =>
          cases run' with
          | next run' act' =>
              obtain ⟨same, made, waits⟩ := ih _ _ run' earlier
              obtain ⟨lastSame, lastMade, lastWaits⟩ := call.same left right same act act'
              refine ⟨lastSame, ?_, ?_⟩
              · rw [List.map_cons, List.map_cons, made, lastMade]
              · rw [List.map_cons, List.map_cons, List.sum_cons, List.sum_cons, add_sub_add_comm,
                  BitVec.ofInt_add, ← waits, ← lastWaits]
                abel

def flatSide : DataSide Memory where
  readMemory address memory := (memory address, memory)
  writeMemory address value memory := Function.update memory address value
  readIo _ memory := (0xFF, memory)
  writeIo _ _ memory := memory
  acknowledgeInterrupt memory := (0xFF, memory)

theorem flatRam_answers : AnswersFrom flatRam.toBus flatSide id :=
  ⟨fun _ _ _ _ => rfl, fun _ _ _ => rfl, fun _ _ _ _ => rfl, fun _ _ _ => rfl, fun _ _ _ _ => rfl,
    fun _ _ => rfl⟩

theorem slowRam_answers : AnswersFrom slowRam flatSide id :=
  ⟨fun _ _ _ _ => rfl, fun _ _ _ => rfl, fun _ _ _ _ => rfl, fun _ _ _ => rfl, fun _ _ _ _ => rfl,
    fun _ _ => rfl⟩

/-- A line change between LD A,(0x0004) and LD (0x8000),A: eight machine cycles. -/
theorem waits_never_matter_copy :
    let s : Machine Memory :=
      { z80 := {}, host := programAt 0 [0x3A, 4, 0, 0x32, 0, 0x80] 0 }
    ∃ loaded fast loaded' slow, step flatRam.toBus 0 s = some loaded ∧
      step flatRam.toBus 0 (loaded.machine.onZ80 (Z80.setIntLine true)) = some fast ∧
      step slowRam 0 s = some loaded' ∧
      step slowRam 0 (loaded'.machine.onZ80 (Z80.setIntLine true)) = some slow ∧
      slow.machine.z80.toCpu = fast.machine.z80.toCpu ∧
      (slow.machine.z80.cycles - 0) - (fast.machine.z80.cycles - 0) = 24 := by
  obtain ⟨cpu, -, waits⟩ := waits_never_matter slowRam flatRam.toBus flatSide id id slowRam_answers
    flatRam_answers { z80 := {}, host := programAt 0 [0x3A, 4, 0, 0x32, 0, 0x80] 0 } _
    { z80 := {}, host := programAt 0 [0x3A, 4, 0, 0x32, 0, 0x80] 0 } _ _ _ ⟨rfl, rfl⟩
    (.next (.next (.next .start (@Act.stepped _ _ _ 0 _ rfl)) (.setIntLine _ true))
      (@Act.stepped _ _ _ 0 _ rfl))
    (.next (.next (.next .start (@Act.stepped _ _ _ 0 _ rfl)) (.setIntLine _ true))
      (@Act.stepped _ _ _ 0 _ rfl))
    (.cons (.stepped _ _) (.cons (.setIntLine _) (.cons (.stepped _ _) .nil)))
  exact ⟨_, _, _, _, rfl, rfl, rfl, rfl, cpu, waits⟩

end Z80f
