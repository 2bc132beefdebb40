import Z80f.Encoding.Consumption
import Z80f.Prefix.Conjugation
import Z80f.Timing.Waits

/-! # The last of several prefixes wins

In front of another prefix, a prefix is a four-cycle NOP: `dispatchIndex_succ`
says so of the loop in `dispatch_index`, and the induction is on the prefixes. -/

set_option autoImplicit false

namespace Z80f

open Interaction Stateful Z80M

/-- `dearer` does what `m` does and returns `extra` more. -/
def Dearer (extra : Int) (dearer m : Z80M Int) : Prop :=
  dearer = do let cost ← m; return extra + cost

theorem Dearer.bind {α : Type} {extra : Int} {m : Z80M α} {f f' : α → Z80M Int}
    (rest : ∀ v, Dearer extra (f' v) (f v)) : Dearer extra (m >>= f') (m >>= f) := by
  rw [Dearer, bind_assoc]
  exact congrArg (m >>= ·) (funext rest)

theorem Dearer.pure (t extra c : Int) :
    Dearer extra (Pure.pure (t + extra + c)) (Pure.pure (t + c)) := by
  rw [Dearer, pure_bind, Int.add_comm t, Int.add_assoc]

theorem indexArm_dearer (x : IndexReg) (op : Byte) (t extra : Int) :
    Dearer extra (indexArm x op (t + extra)) (indexArm x op t) := by
  by_cases listed : op ∈ indexOpcodes
  case neg =>
    rw [indexArm_unlisted x _ listed, indexArm_unlisted x _ listed]
    exact Dearer.bind fun cost => Dearer.pure t extra cost
  fun_cases indexArm x op t
  all_goals
    first
    | simp only [imp_false] at *
      simp only [indexOpcodes, List.mem_cons, List.not_mem_nil, or_false, *] at listed
    | repeat
        first
        | exact Dearer.pure t extra _
        | refine Dearer.bind fun _ => ?_

/-- `dispatch_index` after its first fetch. -/
def prefixLoop (fuel : Nat) (x : IndexReg) (op : Byte) (t : Int) : Z80M (Option Int) := do
  match ← consumePrefixes fuel x op t with
  | none => return none
  | some (x, op, t) => return some (← indexArm x op t)

section Loop
variable (fuel : Nat) (x : IndexReg) {op : Byte} (t extra : Int)

theorem dispatchIndex_loop : dispatchIndex fuel x = (do
    modifyRegs fun r => { r with q := 0 }
    prefixLoop fuel x (← fetchOpcode) 4) := rfl

theorem prefixLoop_last (last : isIndexPrefix op = false) :
    prefixLoop fuel x op t = (do return some (← indexArm x op t)) := by
  rw [prefixLoop, consumePrefixes_stops last, pure_bind]

theorem prefixLoop_stuck (isPrefix : isIndexPrefix op = true) :
    prefixLoop 0 x op t = return none := by
  simp [prefixLoop, consumePrefixes, isPrefix]

theorem prefixLoop_next (isPrefix : isIndexPrefix op = true) :
    prefixLoop (fuel + 1) x op t =
      (do prefixLoop fuel (prefixReg op) (← fetchOpcode) (t + 4)) := by
  simp only [prefixLoop, consumePrefixes, isPrefix, if_true, bind_assoc]

theorem prefixLoop_dearer_last (last : isIndexPrefix op = false) :
    prefixLoop fuel x op (t + extra) = do
      let cost ← prefixLoop fuel x op t
      return cost.map (extra + ·) := by
  rw [prefixLoop_last _ _ _ last, prefixLoop_last _ _ _ last, indexArm_dearer x op t extra]
  simp only [bind_assoc, pure_bind, Option.map_some]

theorem prefixLoop_dearer (op : Byte) :
    prefixLoop fuel x op (t + extra) = do
      let cost ← prefixLoop fuel x op t
      return cost.map (extra + ·) := by
  induction fuel generalizing x op t with
  | zero =>
      cases isPrefix : isIndexPrefix op with
      | false => exact prefixLoop_dearer_last 0 x t extra isPrefix
      | true => rw [prefixLoop_stuck _ _ isPrefix, prefixLoop_stuck _ _ isPrefix, pure_bind,
          Option.map_none]
  | succ fuel ih =>
      cases isPrefix : isIndexPrefix op with
      | false => exact prefixLoop_dearer_last (fuel + 1) x t extra isPrefix
      | true =>
          rw [prefixLoop_next _ _ _ isPrefix, prefixLoop_next _ _ _ isPrefix, bind_assoc,
            Int.add_right_comm]
          exact congrArg (fetchOpcode >>= ·) (funext fun next => ih _ _ next)

/-- Behind a prefix a second one starts over, and the first has cost four more. -/
theorem prefixLoop_again (isPrefix : isIndexPrefix op = true) :
    (do modifyRegs fun r => { r with q := 0 }
        prefixLoop (fuel + 1) x op 4) = (do
      let cost ← dispatchIndex fuel (prefixReg op)
      return cost.map (4 + ·)) := by
  have dearer (next : Byte) := prefixLoop_dearer fuel (prefixReg op) 4 4 next
  rw [prefixLoop_next _ _ _ isPrefix, dispatchIndex_loop]
  simp only [bind_assoc, dearer]

theorem clear_fetch {α : Type} (f : Byte → Z80M α) :
    (do modifyRegs fun r => { r with q := 0 }
        let op ← fetchOpcode
        f op) = (do
      let op ← fetchOpcode
      modifyRegs fun r => { r with q := 0 }
      f op) := rfl

end Loop

/-! ## On a host -/

section Host
variable {Host : Type} {bus : Bus Host} (fuel : Nat) {s : Machine Host} {p q : Byte}

theorem exec_twoPrefixes (isPrefix : isIndexPrefix p = true) (another : isIndexPrefix q = true)
    (first : (exec bus fetchOpcode s).value = p)
    (second : (exec bus fetchOpcode (exec bus fetchOpcode s).machine).value = q) :
    exec bus (fetchAndDispatch (fuel + 1)) s =
      let fetched := exec bus fetchOpcode s
      let rest := exec bus (fetchAndDispatch fuel) fetched.machine
      ⟨rest.value.map (4 + ·), rest.machine, fetched.calls ++ rest.calls⟩ := by
  have left : dispatchUnprefixed (fuel + 1) p = (do
      let op ← fetchOpcode
      modifyRegs fun r => { r with q := 0 }
      prefixLoop (fuel + 1) (prefixReg p) op 4) := by
    rw [dispatchUnprefixed, if_pos isPrefix, dispatchIndex_loop, clear_fetch]
  have right : dispatchUnprefixed fuel q = dispatchIndex fuel (prefixReg q) := by
    rw [dispatchUnprefixed, if_pos another]
  have again := prefixLoop_again fuel (prefixReg p) another
  rw [fetchAndDispatch, exec_then _ first, left, exec_then _ second, again, exec_return]
  dsimp only
  rw [fetchAndDispatch, exec_then _ second, right]

def fetchOpcodes : Nat → Z80M Unit
  | 0 => return ()
  | count + 1 => do
      let _ ← fetchOpcode
      fetchOpcodes count

def fetchPath : Word → List Byte → Path
  | _, [] => []
  | pc, byte :: rest => cycle pc 4 :: readOf .fetch pc byte :: fetchPath (pc + 1) rest

def Cpu.opcodesFetched (count : Nat) (cpu : Cpu) : Cpu :=
  { cpu with regs := { cpu.regs with
    pc := cpu.regs.pc + BitVec.ofNat 16 count, r := advanceR count cpu.regs.r } }

theorem opcodesFetched_succ (count : Nat) (cpu : Cpu) :
    cpu.opcodeFetched.opcodesFetched count = cpu.opcodesFetched (count + 1) := by
  simp only [Cpu.opcodesFetched, Cpu.opcodeFetched, Registers.incR, next_address, advanceR,
    Function.iterate_succ_apply]

theorem masked_split (high low : Byte) :
    ((high &&& 0x80#8) ||| (low &&& 0x7F#8)).toNat = high.toNat / 128 * 128 + low.toNat % 128 := by
  have top : ∀ high : Byte, (high &&& 0x80#8).toNat = (high.toNat / 128) <<< 7 := by decide
  have rest : ∀ low : Byte, (low &&& 0x7F#8).toNat = low.toNat % 128 := by decide
  have small : low.toNat % 128 < 2 ^ 7 := by omega
  rw [BitVec.toNat_or, top, rest, ← Nat.shiftLeft_add_eq_or_of_lt small, Nat.shiftLeft_eq]

theorem advanceR_eq (count : Nat) (r : Byte) :
    advanceR count r = (r &&& 0x80#8) ||| ((r + BitVec.ofNat 8 count) &&& 0x7F#8) := by
  induction count with
  | zero =>
      have whole : ∀ r : Byte, r = (r &&& 0x80#8) ||| ((r + 0#8) &&& 0x7F#8) := by decide
      exact whole r
  | succ count ih =>
      have step : advanceR (count + 1) r =
          (advanceR count r &&& 0x80#8) ||| ((advanceR count r + 1) &&& 0x7F#8) :=
        Function.iterate_succ_apply' _ count r
      apply BitVec.eq_of_toNat_eq
      have bound := r.isLt
      have before := congrArg BitVec.toNat ih
      rw [masked_split, BitVec.toNat_add, BitVec.toNat_ofNat] at before
      have one : (1 : Byte).toNat = 1 := rfl
      rw [step, masked_split, masked_split, BitVec.toNat_add, before, BitVec.toNat_add,
        BitVec.toNat_ofNat, one]
      omega

theorem nominal_fetchPath (pc : Word) (bytes : List Byte) :
    nominal (fetchPath pc bytes) = 4 * bytes.length := by
  induction bytes generalizing pc with
  | nil => rfl
  | cons byte rest ih =>
      simp only [fetchPath, nominal_cons, ih, tStatesOf, List.length_cons]
      push_cast
      omega

end Host

section Ram
variable {Host : Type} (bus : RamBus Host) {s : Machine Host}

theorem RamBus.exec_fetchOpcode :
    let fetched := exec bus.toBus fetchOpcode s
    fetched.value = bus.memory s.host s.z80.regs.pc ∧
      bus.memory fetched.machine.host = bus.memory s.host := by
  obtain ⟨reads, memory⟩ := bus.exec_replays fetchOpcode s
  rw [(Z80f.exec_fetchOpcode bus.toBus s).2] at reads memory
  exact ⟨reads.1, memory⟩

theorem RamBus.exec_secondFetch :
    let fetched := exec bus.toBus fetchOpcode s
    let behind := bus.memory s.host (s.z80.regs.pc + 1)
    (exec bus.toBus fetchOpcode fetched.machine).value = behind ∧
      (exec bus.toBus fetchOpcode (afterPrefix bus.toBus s)).value = behind := by
  intro fetched behind
  have memory : bus.memory fetched.machine.host = bus.memory s.host := bus.exec_fetchOpcode.2
  have pc : fetched.machine.z80.regs.pc = s.z80.regs.pc + 1 :=
    congrArg (fun cpu : Cpu => cpu.regs.pc) (Z80f.exec_fetchOpcode bus.toBus s).1
  constructor
  · rw [bus.exec_fetchOpcode.1, memory, pc]
  · rw [bus.exec_fetchOpcode.1]
    change bus.memory fetched.machine.host fetched.machine.z80.regs.pc = behind
    rw [memory, pc]

theorem exec_prefixes {fuel : Nat} (fuel' : Nat) {prefixes : List Byte} {p op : Byte}
    (arePrefixes : ∀ q ∈ prefixes, isIndexPrefix q = true) (isPrefix : isIndexPrefix p = true)
    (last : isIndexPrefix op = false)
    (code : bytesAt (bus.memory s.host) s.z80.regs.pc (prefixes.length + 2) = prefixes ++ [p, op])
    (enough : prefixes.length ≤ fuel) :
    let opening := exec bus.toBus (fetchOpcodes prefixes.length) s
    let short := exec bus.toBus (fetchAndDispatch fuel') opening.machine
    (exec bus.toBus (fetchAndDispatch fuel) s =
        ⟨short.value.map (4 * (prefixes.length : Int) + ·), short.machine,
          opening.calls ++ short.calls⟩ ∧
      short.value.isSome = true) ∧
    opening.machine.z80.toCpu = s.z80.toCpu.opcodesFetched prefixes.length ∧
    opening.calls.map Exchange.answered = fetchPath s.z80.regs.pc prefixes := by
  induction prefixes generalizing s fuel with
  | nil =>
      rw [List.length_nil, bytesAt_succ, bytesAt_succ] at code
      obtain ⟨here, later⟩ := List.cons.inj code
      obtain ⟨next, -⟩ := List.cons.inj later
      have first : (exec bus.toBus fetchOpcode s).value = p := bus.exec_fetchOpcode.1.trans here
      have second := bus.exec_secondFetch.2.trans next
      have opening : exec bus.toBus (fetchOpcodes 0) s = ⟨(), s, []⟩ := rfl
      have none : s.z80.toCpu.opcodesFetched 0 = s.z80.toCpu := by simp [Cpu.opcodesFetched]
      rw [List.length_nil, opening, none]
      dsimp only
      rw [exec_prefixed last isPrefix first second, exec_prefixed last isPrefix first second]
      simp [fetchPath]
  | cons q rest ih =>
      rw [List.length_cons] at enough
      obtain ⟨less, rfl⟩ : ∃ less, fuel = less + 1 := ⟨fuel - 1, by omega⟩
      rw [List.length_cons, Nat.add_right_comm, bytesAt_succ, List.cons_append] at code
      obtain ⟨here, later⟩ := List.cons.inj code
      have isPrefixQ : isIndexPrefix q = true := arePrefixes q List.mem_cons_self
      have another : isIndexPrefix (bus.memory s.host (s.z80.regs.pc + 1)) = true := by
        rw [bytesAt_succ] at later
        cases rest with
        | nil => rwa [(List.cons.inj later).1]
        | cons next rest =>
            rw [(List.cons.inj later).1]
            exact arePrefixes next (by simp)
      obtain ⟨value, memory⟩ := bus.exec_fetchOpcode (s := s)
      obtain ⟨cpu, path⟩ := Z80f.exec_fetchOpcode bus.toBus s
      have fetched := exec_twoPrefixes less isPrefixQ another (value.trans here)
        bus.exec_secondFetch.1
      have pc : (exec bus.toBus fetchOpcode s).machine.z80.regs.pc = s.z80.regs.pc + 1 :=
        congrArg (fun cpu : Cpu => cpu.regs.pc) cpu
      obtain ⟨⟨same, returns⟩, shifted, fetches⟩ := ih
        (s := (exec bus.toBus fetchOpcode s).machine)
        (fun q member => arePrefixes q (List.mem_cons_of_mem _ member))
        (by rw [memory, pc]; exact later) (by omega : rest.length ≤ less)
      have opening : exec bus.toBus (fetchOpcodes (rest.length + 1)) s =
          let more := exec bus.toBus (fetchOpcodes rest.length)
            (exec bus.toBus fetchOpcode s).machine
          ⟨(), more.machine, (exec bus.toBus fetchOpcode s).calls ++ more.calls⟩ :=
        exec_bind _ _ _
      rw [List.length_cons, opening, fetched]
      dsimp only
      refine ⟨⟨?_, returns⟩, ?_, ?_⟩
      · have sum (cost : Int) : 4 + (4 * (rest.length : Int) + cost) =
            4 * ((rest.length + 1 : Nat) : Int) + cost := by
          push_cast
          omega
        rw [same]
        simp only [Option.map_map, List.append_assoc, Function.comp_def, sum]
      · exact shifted.trans (by rw [cpu, opcodesFetched_succ])
      · rw [List.map_append, path, fetches, pc, value, here]
        rfl

section Timeless
variable {Data : Type} {side : DataSide Data} {data : Host → Data}
  (answers : AnswersFrom bus.toBus side data)
include answers

theorem fetchOpcodes_data (still : ∀ address d, (side.readMemory address d).2 = d) (count : Nat)
    (s : Machine Host) :
    data (exec bus.toBus (fetchOpcodes count) s).machine.host = data s.host := by
  induction count generalizing s with
  | zero => rfl
  | succ count ih =>
      have fetch : data (exec bus.toBus fetchOpcode s).machine.host = data s.host := by
        have read := answers.readMemory
          (runMachineCycle bus.toBus s.z80.regs.pc 4 s.z80.toClock s.host).2.1.cycles
          s.z80.regs.pc (runMachineCycle bus.toBus s.z80.regs.pc 4 s.z80.toClock s.host).2.2
        refine (congrArg Prod.snd read).trans ((still _ _).trans ?_)
        exact answers.onMCycle _ _ _ _
      have opening : exec bus.toBus (fetchOpcodes (count + 1)) s = _ :=
        exec_bind fetchOpcode (fun _ => fetchOpcodes count) s
      exact (congrArg (fun ran : Ran Host Unit => data ran.machine.host) opening).trans
        ((ih _).trans fetch)

theorem memory_of_data {host host' : Host} (same : data host = data host') :
    bus.memory host = bus.memory host' := by
  funext address
  have left := congrArg Prod.fst (answers.readMemory 0 address host)
  have right := congrArg Prod.fst (answers.readMemory 0 address host')
  rw [← same] at right
  exact (bus.readMemory_answer 0 address host).symm.trans
    (left.trans (right.symm.trans (bus.readMemory_answer 0 address host')))

end Timeless
end Ram

/-- A sequence of prefixes does what its last one does: the others only move PC
and R and cost four each.  On any RAM host the short run starts behind their
fetches; on a host that does not know the time it may start from the same data. -/
theorem last_prefix_wins {Host : Type} (bus : RamBus Host) (fuel fuel' : Nat)
    (prefixes : List Byte) (p op : Byte) (s : Machine Host)
    (arePrefixes : ∀ q ∈ prefixes, isIndexPrefix q = true) (isPrefix : isIndexPrefix p = true)
    (last : isIndexPrefix op = false)
    (code : bytesAt (bus.memory s.host) s.z80.regs.pc (prefixes.length + 2) = prefixes ++ [p, op])
    (enough : prefixes.length ≤ fuel) :
    let r := s.z80.regs
    let extra : Int := 4 * prefixes.length
    let shifted : Cpu := { s.z80.toCpu with regs := { r with
      pc := r.pc + BitVec.ofNat 16 prefixes.length
      r := (r.r &&& 0x80#8) ||| ((r.r + BitVec.ofNat 8 prefixes.length) &&& 0x7F#8) } }
    let opening := exec bus.toBus (fetchOpcodes prefixes.length) s
    let whole := exec bus.toBus (fetchAndDispatch fuel) s
    whole.value.isSome = true ∧
    (opening.machine.z80.toCpu = shifted ∧
      opening.calls.map Exchange.answered = fetchPath r.pc prefixes ∧
      let short := exec bus.toBus (fetchAndDispatch fuel') opening.machine
      whole.value = short.value.map (extra + ·) ∧ whole.machine = short.machine ∧
        whole.calls = opening.calls ++ short.calls) ∧
    (∀ (Data : Type) (side : DataSide Data) (data : Host → Data),
      AnswersFrom bus.toBus side data → (∀ address d, (side.readMemory address d).2 = d) →
      ∀ t : Machine Host, t.z80.toCpu = shifted → data t.host = data s.host →
      let short := exec bus.toBus (fetchAndDispatch fuel') t
      whole.value = short.value.map (extra + ·) ∧
        whole.machine.z80.toCpu = short.machine.z80.toCpu ∧
        data whole.machine.host = data short.machine.host ∧
        bus.memory whole.machine.host = bus.memory short.machine.host ∧
        whole.calls.map Exchange.answered =
          fetchPath r.pc prefixes ++ short.calls.map Exchange.answered ∧
        nominal (whole.calls.map Exchange.answered) =
          extra + nominal (short.calls.map Exchange.answered)) := by
  intro r extra shifted opening whole
  obtain ⟨⟨same, returns⟩, cpu, fetches⟩ :=
    exec_prefixes bus fuel' arePrefixes isPrefix last code enough
  rw [Cpu.opcodesFetched, advanceR_eq] at cpu
  refine ⟨?_, ⟨cpu, fetches, ?_⟩, ?_⟩
  · simp only [whole, same, Option.isSome_map, returns]
  · simp only [whole, same]
    exact ⟨rfl, rfl, rfl⟩
  · intro Data side data answers still t sameCpu sameData short
    have start : SameComputation data data opening.machine t :=
      ⟨cpu.trans sameCpu.symm, (fetchOpcodes_data bus answers still _ s).trans sameData.symm⟩
    obtain ⟨value, ⟨finalCpu, finalData⟩, path⟩ :=
      start.run answers answers (fetchAndDispatch fuel')
    have wholePath : whole.calls.map Exchange.answered =
        fetchPath r.pc prefixes ++ short.calls.map Exchange.answered := by
      simp only [whole, same]
      rw [List.map_append, fetches, path]
    refine ⟨?_, ?_, ?_, ?_, wholePath, ?_⟩
    · simp only [whole, same]
      exact congrArg (Option.map _) value
    · simp only [whole, same]
      exact finalCpu
    · simp only [whole, same]
      exact finalData
    · simp only [whole, same]
      exact memory_of_data bus answers finalData
    · rw [wholePath, nominal_append, nominal_fetchPath]

/-- FD DD 23 is INC IX, four cycles later. -/
theorem last_prefix_wins_fddd23 :
    let s : Machine Memory := { z80 := {}, host := programAt 0 [0xFD, 0xDD, 0x23] 0 }
    let t : Machine Memory :=
      { z80 := { regs := { pc := 1, r := 1 } }, host := programAt 0 [0xFD, 0xDD, 0x23] 0 }
    (exec flatRam.toBus (fetchAndDispatch 1) s).machine.z80.toCpu =
      (exec flatRam.toBus (fetchAndDispatch 0) t).machine.z80.toCpu :=
  ((last_prefix_wins flatRam 1 0 [0xFD] 0xDD 0x23
    { z80 := {}, host := programAt 0 [0xFD, 0xDD, 0x23] 0 } (by decide) rfl rfl rfl
    (by decide)).2.2 Memory flatSide id flatRam_answers (fun _ _ => rfl)
    { z80 := { regs := { pc := 1, r := 1 } }, host := programAt 0 [0xFD, 0xDD, 0x23] 0 }
    rfl rfl).2.1

end Z80f
