import Z80f.Cpu.Session
import Z80f.Host.Ram
import Z80f.Interaction.Footprint

/-! # What a session does not touch does not matter

Two hosts that serve a footprint alike: a session that stays within it on the
one host runs on the other, call by call, whatever that host does elsewhere. -/

set_option autoImplicit false

namespace Z80f

open Interaction Stateful

section Locality
variable {Host Host' : Type} {bus : Bus Host} {bus' : Bus Host'} {allowed : Request → Prop}
  {related : Host → Host' → Prop}

/-- With equal clocks, `allowed` requests get equal answers and waits. -/
def ServesAlike (bus : Bus Host) (bus' : Bus Host') (allowed : Request → Prop)
    (related : Host → Host' → Prop) : Prop :=
  (environment bus).AgreesOn (environment bus') allowed fun state state' =>
    state.1 = state'.1 ∧ related state.2 state'.2

/-- Equal CPUs before related hosts. -/
structure SameMachine (related : Host → Host' → Prop) (s : Machine Host) (s' : Machine Host') :
    Prop where
  z80 : s.z80 = s'.z80
  host : related s.host s'.host

inductive SameAction : Action Host → Action Host' → Prop where
  | setNmiLine (active : Bool) : SameAction (.setNmiLine active) (.setNmiLine active)
  | setIntLine (active : Bool) : SameAction (.setIntLine active) (.setIntLine active)
  | pulseIntLine : SameAction .pulseIntLine .pulseIntLine
  | stepped (result : Stepped Host) (result' : Stepped Host')
      (returned : result.returned = result'.returned) (kind : result.kind = result'.kind)
      (calls : result.calls = result'.calls) : SameAction (.stepped result) (.stepped result')

def callsOf : Action Host → List BusCall
  | .stepped result => result.calls
  | _ => []

theorem SameMachine.exec {α : Type} (alike : ServesAlike bus bus' allowed related)
    {s : Machine Host} {s' : Machine Host'} (same : SameMachine related s s') (m : Z80M α)
    (within : Within allowed (exec bus m s).calls) :
    (exec bus' m s').value = (exec bus m s).value ∧
      (exec bus' m s').calls = (exec bus m s).calls ∧
      SameMachine related (exec bus m s).machine (exec bus' m s').machine := by
  obtain ⟨z80, host⟩ := s
  obtain ⟨z80', host'⟩ := s'
  obtain ⟨rfl, hosts⟩ := same
  have start : (z80.toClock, host).1 = (z80.toClock, host').1 ∧ related host host' :=
    ⟨rfl, hosts⟩
  obtain ⟨values, logs, clocks, finals⟩ := alike.run (m.run z80.toCpu) start within
  refine ⟨congrArg Prod.fst values, logs, ?_, finals⟩
  simp only [Z80f.exec, values, clocks]

theorem SameMachine.step (alike : ServesAlike bus bus' allowed related) {s : Machine Host}
    {s' : Machine Host'} (same : SameMachine related s s') {fuel : Nat} {result : Stepped Host}
    (returns : step bus fuel s = some result) (within : Within allowed result.calls) :
    ∃ result', Z80f.step bus' fuel s' = some result' ∧
      SameAction (.stepped result) (.stepped result') ∧
      SameMachine related result.machine result'.machine := by
  obtain ⟨value, machine, calls, returned⟩ := step_returns returns
  have started : SameMachine related s.started s'.started := by
    refine ⟨?_, same.host⟩
    rw [Machine.started, Machine.started, same.z80]
  rw [calls] at within
  obtain ⟨values, logs, finals⟩ := started.exec alike (stepBody fuel) within
  rw [← machine] at finals
  refine ⟨⟨result.returned, result.kind, _, result.calls⟩, ?_, .stepped _ _ rfl rfl rfl, finals⟩
  rw [Z80f.step, values, value, Option.map_some, ← finals.z80, logs, ← calls, ← same.z80,
    returned, machine]

theorem SameMachine.act (alike : ServesAlike bus bus' allowed related) {s last : Machine Host}
    {s' : Machine Host'} (same : SameMachine related s s') {action : Action Host}
    (act : Act bus s action last) (within : Within allowed (callsOf action)) :
    ∃ action' last', Act bus' s' action' last' ∧ SameAction action action' ∧
      SameMachine related last last' := by
  obtain ⟨z80, host⟩ := same
  cases act with
  | setNmiLine active =>
      refine ⟨_, _, .setNmiLine s' active, .setNmiLine active, ?_, host⟩
      exact congrArg (Z80.setNmiLine active) z80
  | setIntLine active =>
      refine ⟨_, _, .setIntLine s' active, .setIntLine active, ?_, host⟩
      exact congrArg (Z80.setIntLine active) z80
  | pulseIntLine =>
      refine ⟨_, _, .pulseIntLine s', .pulseIntLine, ?_, host⟩
      exact congrArg Z80.pulseIntLine z80
  | stepped returns =>
      obtain ⟨result', returns', sameAction, sameMachine⟩ :=
        SameMachine.step alike ⟨z80, host⟩ returns within
      exact ⟨_, _, .stepped returns', sameAction, sameMachine⟩

theorem SameMachine.run (alike : ServesAlike bus bus' allowed related) {s last : Machine Host}
    {s' : Machine Host'} (same : SameMachine related s s') {history : List (Action Host)}
    (run : Run (Act bus) s history last)
    (within : ∀ action ∈ history, Within allowed (callsOf action)) :
    ∃ history' last', Run (Act bus') s' history' last' ∧
      List.Forall₂ SameAction history history' ∧ SameMachine related last last' := by
  induction run with
  | start => exact ⟨[], s', .start, .nil, same⟩
  | next run act ih =>
      obtain ⟨here, earlier⟩ := List.forall_mem_cons.mp within
      obtain ⟨history', mid', run', sameHistory, sameMid⟩ := ih earlier
      obtain ⟨action', last', act', sameAction, sameLast⟩ := sameMid.act alike act here
      exact ⟨_, last', run'.next act', .cons sameAction sameHistory, sameLast⟩

end Locality

/-- Ports, waits and data bus, which do not look at the RAM. -/
structure Devices (State : Type) where
  onMCycle : BitVec 64 → Word → Int → State → Int × State
  readIo : BitVec 64 → Word → State → Byte × State
  writeIo : BitVec 64 → Word → Byte → State → State
  acknowledgeInterrupt : BitVec 64 → State → Byte × State

def ramBeside {State : Type} (devices : Devices State) : Bus (Memory × State) where
  onMCycle cycles address tStates host :=
    let (waits, state) := devices.onMCycle cycles address tStates host.2
    (waits, (host.1, state))
  readMemory _ address host := (host.1 address, host)
  writeMemory _ address value host := (Function.update host.1 address value, host.2)
  readIo cycles port host :=
    let (value, state) := devices.readIo cycles port host.2
    (value, (host.1, state))
  writeIo cycles port value host := (host.1, devices.writeIo cycles port value host.2)
  acknowledgeInterrupt cycles host :=
    let (value, state) := devices.acknowledgeInterrupt cycles host.2
    (value, (host.1, state))

def accessesInside (inside : Word → Prop) : Request → Prop
  | .readMemory _ address => inside address
  | .writeMemory address _ => inside address
  | .machineCycle _ _ | .readIo _ | .writeIo _ _ | .acknowledgeInterrupt => True

instance {inside : Word → Prop} [DecidablePred inside] (request : Request) :
    Decidable (accessesInside inside request) :=
  match request with
  | .readMemory _ address => inferInstanceAs (Decidable (inside address))
  | .writeMemory address _ => inferInstanceAs (Decidable (inside address))
  | .machineCycle _ _ | .readIo _ | .writeIo _ _ | .acknowledgeInterrupt => isTrue trivial

/-- The same devices and RAM inside; outside the RAMs are `frame` and `frame'`. -/
structure Framed {State : Type} (inside : Word → Prop) (frame frame' : Memory)
    (host host' : Memory × State) : Prop where
  devices : host.2 = host'.2
  agree : ∀ address, inside address → host'.1 address = host.1 address
  outside : ∀ address, ¬ inside address →
    host.1 address = frame address ∧ host'.1 address = frame' address

theorem ramBeside_servesAlike {State : Type} (devices : Devices State) (inside : Word → Prop)
    (frame frame' : Memory) : ServesAlike (ramBeside devices) (ramBeside devices)
      (accessesInside inside) (Framed inside frame frame') := by
  rintro request ⟨clock, memory, state⟩ ⟨_, memory', _⟩ allowed ⟨⟨⟩, ⟨⟩, agree, outside⟩
  cases request with
  | readMemory kind address =>
      have answers : memory' address = memory address := agree address allowed
      refine ⟨_, _, (clock, memory', state), _, rfl, ?_, rfl, rfl, agree, outside⟩
      simp only [environment, serve, ramBeside, answers]
  | writeMemory address value =>
      refine ⟨_, _, _, _, rfl, rfl, rfl, rfl, fun other isInside => ?_, fun other isOutside => ?_⟩
      · change Function.update memory' address value other =
          Function.update memory address value other
        have answers : memory' other = memory other := agree other isInside
        simp only [Function.update_apply, answers]
      · have apart : other ≠ address := by
          rintro rfl
          exact isOutside allowed
        change Function.update memory address value other = frame other ∧
          Function.update memory' address value other = frame' other
        rw [Function.update_of_ne apart, Function.update_of_ne apart]
        exact outside other isOutside
  | machineCycle | readIo | writeIo | acknowledgeInterrupt =>
      exact ⟨_, _, _, _, rfl, rfl, rfl, rfl, agree, outside⟩

/-- The frame rule of the CPU: a session whose reads and writes all stay inside a
region runs over any other RAM that agrees there, with the same replies, bus
calls, CPU and devices after every call.  At its end the two RAMs agree inside
the region, and outside neither has changed. -/
theorem session_frame {State : Type} (devices : Devices State) (inside : Word → Prop)
    (s last : Machine (Memory × State)) (history : List (Action (Memory × State)))
    (run : Run (Act (ramBeside devices)) s history last)
    (within : ∀ action ∈ history, Within (accessesInside inside) (callsOf action))
    (memory' : Memory) (agree : ∀ address, inside address → memory' address = s.host.1 address) :
    ∃ history' last',
      Run (Act (ramBeside devices)) { z80 := s.z80, host := (memory', s.host.2) } history' last' ∧
      List.Forall₂ SameAction history history' ∧ last'.z80 = last.z80 ∧
      last'.host.2 = last.host.2 ∧
      (∀ address, inside address → last'.host.1 address = last.host.1 address) ∧
      ∀ address, ¬ inside address →
        last.host.1 address = s.host.1 address ∧ last'.host.1 address = memory' address := by
  have framed : Framed inside s.host.1 memory' s.host (memory', s.host.2) :=
    ⟨rfl, agree, fun _ _ => ⟨rfl, rfl⟩⟩
  have same : SameMachine (Framed inside s.host.1 memory') s
    { z80 := s.z80, host := (memory', s.host.2) } := ⟨rfl, framed⟩
  obtain ⟨history', last', run', sameHistory, sameLast⟩ :=
    same.run (ramBeside_servesAlike devices inside s.host.1 memory') run within
  exact ⟨history', last', run', sameHistory, sameLast.z80.symm, sameLast.host.devices.symm,
    sameLast.host.agree, sameLast.host.outside⟩

def noDevices : Devices Unit where
  onMCycle _ _ _ state := (0, state)
  readIo _ _ state := (0xFF, state)
  writeIo _ _ _ state := state
  acknowledgeInterrupt _ state := (0xFF, state)

theorem session_frame_push : ∃ history' last',
    Run (Act (ramBeside noDevices))
      { z80 := { regs := { sp := 4 } }, host := (programAt 0 [0xF5, 0, 0, 0] 9, ()) }
      history' last' ∧
    last'.z80.regs.sp = 2 ∧ last'.host.1 4 = 9 := by
  have run := Run.next (@Run.start _ _ (Act (ramBeside noDevices))
    { z80 := { regs := { sp := 4 } }, host := (programAt 0 [0xF5] 0, ()) })
    (@Act.stepped _ _ _ 0 _ rfl)
  have agree (address : Word) (inside : address.toNat < 4) :
      programAt 0 [0xF5, 0, 0, 0] 9 address = programAt 0 [0xF5] 0 address := by
    have listed : address = 0 ∨ address = 1 ∨ address = 2 ∨ address = 3 := by bv_omega
    rcases listed with rfl | rfl | rfl | rfl <;> rfl
  obtain ⟨history', last', run', -, z80, -, -, outside⟩ := session_frame noDevices
    (fun address => address.toNat < 4) _ _ _ run
    (List.forall_mem_singleton.mpr fun call member => of_decide_eq_true
      (List.all_eq_true.mp (rfl : List.all _ (fun call : BusCall => decide
        (accessesInside (fun address => address.toNat < 4) call.request)) = true) call member))
    _ agree
  refine ⟨history', last', run', ?_, (outside 4 (by decide)).2⟩
  rw [z80]
  rfl

end Z80f
