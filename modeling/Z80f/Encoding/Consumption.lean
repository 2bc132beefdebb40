import Z80f.Encoding.StepCase

/-! # Program bytes are consumed in order

`Consumes` puts the fetches of an instruction before its data accesses; on a
RAM host the bytes are those of memory, and they determine the length. -/

set_option autoImplicit false

namespace Z80f

open Interaction Stateful Z80M

def instructionLength (bytes : List Byte) : Nat := (instructionProfile bytes).bytes

theorem plainRest_append {op : Byte} {rest : List Byte}
    (complete : rest.length = (plainRest op rest).bytes) (more : List Byte) :
    plainRest op (rest ++ more) = plainRest op rest := by
  by_cases ed : op = 0xED#8
  · cases rest with
    | nil =>
        rw [plainRest, if_pos ed] at complete
        exact absurd complete (Nat.succ_ne_zero _).symm
    | cons second rest => rw [plainRest, plainRest, if_pos ed, if_pos ed]; rfl
  · rw [plainRest, plainRest, if_neg ed, if_neg ed]

theorem prefixedRest_append {x : IndexReg} {rest : List Byte}
    (complete : rest.length = (prefixedRest x rest).bytes) (more : List Byte) :
    prefixedRest x (rest ++ more) = prefixedRest x rest := by
  induction rest generalizing x with
  | nil => exact absurd complete Nat.zero_ne_one
  | cons op rest ih =>
      rw [List.cons_append, prefixedRest_cons, prefixedRest_cons]
      rw [prefixedRest_cons] at complete
      have behind : rest.length = (prefixedBy x op rest).bytes := Nat.succ.inj complete
      congr 1
      unfold prefixedBy at behind ⊢
      by_cases more : isIndexPrefix op = true
      · rw [if_pos more] at behind
        rw [if_pos more, if_pos more]
        exact ih behind
      · rw [if_neg more, indexedRest] at behind
        rw [if_neg more, if_neg more, indexedRest, indexedRest]
        by_cases ed : op = 0xED#8
        · rw [if_pos ed] at behind
          rw [if_pos ed, if_pos ed]
          exact plainRest_append behind _
        · rw [if_neg ed, if_neg ed]

theorem instructionProfile_append {bytes : List Byte}
    (complete : bytes.length = instructionLength bytes) (more : List Byte) :
    instructionProfile (bytes ++ more) = instructionProfile bytes := by
  cases bytes with
  | nil => exact absurd complete Nat.zero_ne_one
  | cons op rest =>
      have behind : rest.length = (unprefixedRest op rest).bytes := Nat.succ.inj complete
      change (unprefixedRest op (rest ++ more)).behindOpcode = (unprefixedRest op rest).behindOpcode
      congr 1
      unfold unprefixedRest at behind ⊢
      by_cases pre : isIndexPrefix op = true
      · rw [if_pos pre] at behind
        rw [if_pos pre, if_pos pre]
        exact prefixedRest_append behind more
      · rw [if_neg pre] at behind
        rw [if_neg pre, if_neg pre]
        exact plainRest_append behind more

def isAccess : Request → Bool
  | .machineCycle _ _ => false
  | _ => true

def accesses (path : Path) : Path := path.filter fun answered => isAccess answered.1

def bytesAt (memory : Memory) (pc : Word) (count : Nat) : List Byte :=
  (List.range count).map fun k => memory (pc + BitVec.ofNat 16 k)

def fetchesAt (memory : Memory) (pc : Word) (count : Nat) : Path :=
  (List.range count).map fun k =>
    readOf .fetch (pc + BitVec.ofNat 16 k) (memory (pc + BitVec.ofNat 16 k))

section Consecutive
variable (memory : Memory) (pc : Word) (count : Nat)

theorem bytesAt_succ :
    bytesAt memory pc (count + 1) = memory pc :: bytesAt memory (pc + 1) count := by
  simp only [bytesAt, List.range_succ_eq_map, List.map_cons, List.map_map, Function.comp_def,
    Nat.succ_eq_add_one, next_address]
  rw [BitVec.ofNat_eq_ofNat, BitVec.add_zero]

theorem bytesAt_last : bytesAt memory pc (count + 1) =
    bytesAt memory pc count ++ [memory (pc + BitVec.ofNat 16 count)] := by
  rw [bytesAt, List.range_succ, List.map_append]
  rfl

theorem fetchesAt_succ : fetchesAt memory pc (count + 1) =
    readOf .fetch pc (memory pc) :: fetchesAt memory (pc + 1) count := by
  simp only [fetchesAt, List.range_succ_eq_map, List.map_cons, List.map_map, Function.comp_def,
    Nat.succ_eq_add_one, next_address]
  rw [BitVec.ofNat_eq_ofNat, BitVec.add_zero]

end Consecutive

theorem Consumes.exhausted {pc : Word} {path : Path} (consumes : Consumes pc 0 path) :
    fetchedBytes path = [] ∧ ∀ answered ∈ accesses path, isData answered.1 = true := by
  induction path with
  | nil => exact ⟨rfl, by simp [accesses]⟩
  | cons answered rest ih =>
      obtain ⟨request, answer⟩ := answered
      cases request with
      | machineCycle address tStates => exact ih consumes
      | readMemory kind address =>
          cases kind with
          | fetch => exact absurd consumes.1 (lt_irrefl 0)
          | data => exact (ih consumes.2).imp_right fun later => List.forall_mem_cons.mpr ⟨rfl, later⟩
      | writeMemory | readIo | writeIo | acknowledgeInterrupt =>
          exact (ih consumes.2).imp_right fun later => List.forall_mem_cons.mpr ⟨rfl, later⟩

theorem Consumes.length {pc : Word} {count : Nat} {path : Path}
    (consumes : Consumes pc count path) : (fetchedBytes path).length = count := by
  induction path generalizing pc count with
  | nil => exact ((consumes_nil pc count).mp consumes).symm
  | cons answered rest ih =>
      obtain ⟨request, answer⟩ := answered
      cases request with
      | machineCycle address tStates => exact ih consumes
      | readMemory kind address =>
          cases kind with
          | fetch =>
              obtain ⟨positive, -, later⟩ := consumes
              have tail := ih later
              change (fetchedBytes rest).length + 1 = count
              omega
          | data => exact (ih consumes.2).trans consumes.1.symm
      | writeMemory | readIo | writeIo | acknowledgeInterrupt =>
          exact (ih consumes.2).trans consumes.1.symm

theorem Consumes.fetchedAt {pc : Word} {count : Nat} {path : Path} {front back : List Byte}
    {byte : Byte} (consumes : Consumes pc count path)
    (split : fetchedBytes path = front ++ byte :: back) :
    readOf .fetch (pc + BitVec.ofNat 16 front.length) byte ∈ path := by
  induction path generalizing pc count front with
  | nil => simp at split
  | cons answered rest ih =>
      obtain ⟨request, answer⟩ := answered
      cases request with
      | machineCycle address tStates => exact List.mem_cons_of_mem _ (ih consumes split)
      | readMemory kind address =>
          cases kind with
          | fetch =>
              obtain ⟨-, rfl, later⟩ := consumes
              rw [fetchedBytes] at split
              cases front with
              | nil =>
                  obtain ⟨rfl, -⟩ := List.cons.inj split
                  have here : address + BitVec.ofNat 16 ([] : List Byte).length = address :=
                    BitVec.add_zero address
                  exact List.mem_cons.mpr (.inl (congrArg (readOf .fetch · answer) here))
              | cons first front =>
                  obtain ⟨-, split⟩ := List.cons.inj split
                  rw [List.length_cons, next_address]
                  exact List.mem_cons_of_mem _ (ih later split)
          | data => exact List.mem_cons_of_mem _ (ih consumes.2 split)
      | writeMemory | readIo | writeIo | acknowledgeInterrupt =>
          exact List.mem_cons_of_mem _ (ih consumes.2 split)

theorem Consumes.fetchesFirst {memory : Memory} {pc : Word} {count : Nat} {path : Path}
    (consumes : Consumes pc count path) (reads : ReadsFrom memory path) :
    fetchedBytes path = bytesAt memory pc count ∧
      ∃ data, accesses path = fetchesAt memory pc count ++ data ∧
        ∀ answered ∈ data, isData answered.1 = true := by
  induction path generalizing pc count with
  | nil =>
      rw [consumes_nil] at consumes
      subst consumes
      exact ⟨rfl, [], rfl, by simp⟩
  | cons answered rest ih =>
      have exhausted (last : Consumes pc 0 (answered :: rest)) (none : count = 0) :
          fetchedBytes (answered :: rest) = bytesAt memory pc count ∧
            ∃ data, accesses (answered :: rest) = fetchesAt memory pc count ++ data ∧
              ∀ answered ∈ data, isData answered.1 = true := by
        subst none
        exact ⟨last.exhausted.1, _, rfl, last.exhausted.2⟩
      obtain ⟨request, answer⟩ := answered
      cases request with
      | machineCycle address tStates => exact ih consumes reads
      | readMemory kind address =>
          cases kind with
          | fetch =>
              obtain ⟨positive, rfl, later⟩ := consumes
              obtain ⟨fewer, rfl⟩ : ∃ fewer, count = fewer + 1 := ⟨count - 1, by omega⟩
              obtain ⟨rfl, reads⟩ := reads
              obtain ⟨bytes, data, split, allData⟩ := ih later reads
              rw [Nat.add_sub_cancel] at bytes split
              rw [bytesAt_succ, fetchesAt_succ]
              exact ⟨congrArg _ bytes, data, congrArg _ split, allData⟩
          | data => exact exhausted ⟨rfl, consumes.2⟩ consumes.1
      | writeMemory | readIo | writeIo | acknowledgeInterrupt =>
          exact exhausted ⟨rfl, consumes.2⟩ consumes.1

/-- Every instruction consumes the `L` program bytes from PC on, each once, in
order and before any data access; `L` is determined by these bytes, and PC ends
behind them unless the instruction diverts. -/
theorem step_consumes_program {Host : Type} (bus : RamBus Host) (fuel : Nat) (s : Machine Host)
    (stepped : Stepped Host) (t : Int) (returns : step bus.toBus fuel s = some stepped)
    (isInstruction : stepped.kind = .instruction t) :
    let memory := bus.memory s.host
    let pc := s.z80.regs.pc
    ∃ L data,
      accesses (stepped.calls.map Exchange.answered) = fetchesAt memory pc L ++ data ∧
      (∀ answered ∈ data, isData answered.1 = true) ∧
      (∀ more, instructionLength (bytesAt memory pc L ++ more) = L) ∧
      ((instructionProfile (bytesAt memory pc L)).diverts s.z80.regs.operands memory = false →
        stepped.machine.z80.regs.pc = pc + BitVec.ofNat 16 L) := by
  have case := step_case returns
  obtain ⟨reads, -⟩ := bus.step_replays returns
  generalize stepped.calls.map Exchange.answered = path at case reads ⊢
  generalize stepped.machine.z80.toCpu = next at case ⊢
  rw [isInstruction] at case
  cases case with
  | instruction noNmi noInt running t settled path met =>
      obtain ⟨signature, meets, -⟩ := met
      have consumes : Consumes s.z80.regs.pc signature.fetched path :=
        meets.signed.consumes meets.inOrder
      obtain ⟨bytes, data, split, allData⟩ := consumes.fetchesFirst reads
      have length : (bytesAt (bus.memory s.host) s.z80.regs.pc signature.fetched).length =
          instructionLength (bytesAt (bus.memory s.host) s.z80.regs.pc signature.fetched) := by
        rw [← bytes, instructionLength, ← meets.bytes, bytes, bytesAt, List.length_map,
          List.length_range]
      refine ⟨signature.fetched, data, split, allData, fun more => ?_, fun straight => ?_⟩
      · rw [instructionLength, instructionProfile_append length]
        refine length.symm.trans ?_
        rw [bytesAt, List.length_map, List.length_range]
      · have noJump : signature.jumps = false := by
          rw [Bool.eq_false_iff]
          intro jumps
          have diverts := meets.diverts jumps _ reads
          rw [bytes] at diverts
          exact Bool.noConfusion (diverts.symm.trans straight)
        exact meets.signed.pc noJump

theorem step_consumes_program_ldA :
    let memory := programAt 0xFFFF [0x3E, 0x2A] 0
    ∃ stepped L data,
      step flatRam.toBus 0 { z80 := { regs := { pc := 0xFFFF } }, host := memory } = some stepped ∧
        accesses (stepped.calls.map Exchange.answered) = fetchesAt memory 0xFFFF L ++ data ∧
        instructionLength (bytesAt memory 0xFFFF L) = L ∧ stepped.machine.z80.regs.a = 0x2A := by
  obtain ⟨L, data, split, -, length, -⟩ := step_consumes_program flatRam 0
    { z80 := { regs := { pc := 0xFFFF } }, host := programAt 0xFFFF [0x3E, 0x2A] 0 } _ 7 rfl rfl
  refine ⟨_, L, data, rfl, split, ?_, rfl⟩
  have alone := length []
  rwa [List.append_nil] at alone

end Z80f
