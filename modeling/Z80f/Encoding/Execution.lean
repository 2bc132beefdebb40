import Z80f.Encoding.Conformance

/-! # Every instruction meets its profile

The prelude, the second bytes and the prefix loop complete the pass over the
opcodes.  What an instruction does is then said by the bytes it fetched. -/

set_option autoImplicit false

namespace Z80f

open Interaction Stateful Z80M Flags

def fetchedBytes : Path → List Byte
  | [] => []
  | ⟨.readMemory .fetch _, value⟩ :: rest => value :: fetchedBytes rest
  | _ :: rest => fetchedBytes rest

section Fetched
variable (a : Word) (v : Byte) (path rest : Path)

@[simp] theorem fetchedBytes_nil : fetchedBytes [] = [] := rfl
@[simp] theorem fetchedBytes_cycle (t : Int) :
    fetchedBytes (cycle a t :: rest) = fetchedBytes rest := rfl
@[simp] theorem fetchedBytes_fetch :
    fetchedBytes (readOf .fetch a v :: rest) = v :: fetchedBytes rest := rfl
@[simp] theorem fetchedBytes_read :
    fetchedBytes (readOf .data a v :: rest) = fetchedBytes rest := rfl
@[simp] theorem fetchedBytes_write :
    fetchedBytes (writeOf a v :: rest) = fetchedBytes rest := rfl
@[simp] theorem fetchedBytes_acknowledge :
    fetchedBytes (acknowledgeOf v :: rest) = fetchedBytes rest := rfl

@[simp] theorem fetchedBytes_append :
    fetchedBytes (path ++ rest) = fetchedBytes path ++ fetchedBytes rest := by
  induction path with
  | nil => rfl
  | cons answered path ih =>
      obtain ⟨request, answer⟩ := answered
      cases request with
      | readMemory kind address =>
          cases kind with
          | fetch => exact congrArg (answer :: ·) ih
          | data => exact ih
      | machineCycle | writeMemory | readIo | writeIo | acknowledgeInterrupt => exact ih

end Fetched

theorem NoData.memoryAfter {path : Path} (noData : NoData path) (memory : Memory) :
    memoryAfter memory path = memory := by
  induction path generalizing memory with
  | nil => rfl
  | cons answered rest ih =>
      have here := noData answered List.mem_cons_self
      have later : NoData rest := fun other member => noData other (List.mem_cons_of_mem _ member)
      obtain ⟨request, answer⟩ := answered
      cases request with
      | machineCycle | readMemory => exact ih later memory
      | writeMemory | readIo | writeIo | acknowledgeInterrupt => cases here

def Signature.quiet (s : Signature) : Bool :=
  s.inOrder && !s.data && !s.jumps && !s.setsR && !s.flagged && s.touched.all (· == .q)

def Profile.after (p : Profile) (s : Signature) : Profile :=
  { p with bytes := s.fetched + p.bytes, opcodes := s.opcodes + p.opcodes }

theorem Profile.after_idle (p : Profile) {s : Signature} (fetched : s.fetched = 0)
    (opcodes : s.opcodes = 0) : p.after s = p := by
  rw [Profile.after, fetched, opcodes, Nat.zero_add, Nat.zero_add]

theorem Meets.behind {first s : Signature} {p : Profile} {core mid next : Cpu} {path tail : Path}
    (left : Signed first core mid path) (quiet : first.quiet = true)
    (right : Meets p s mid next tail) :
    Meets (p.after first) (first + s) core next (path ++ tail) := by
  simp only [Signature.quiet, Bool.and_eq_true, Bool.not_eq_true', List.all_eq_true,
    beq_iff_eq] at quiet
  obtain ⟨⟨⟨⟨⟨inOrder, noData⟩, noJump⟩, noR⟩, unflagged⟩, onlyQ⟩ := quiet
  have same (field : Field) (other : field ≠ .q) : SameField core mid field :=
    left.same field fun member => other (onlyQ field member)
  have split {field : Field} (member : field ∈ (first + s).touched) :
      field = .q ∨ field ∈ s.touched := (List.mem_append.mp member).imp_left (onlyQ field)
  have operands : mid.regs.operands = core.regs.operands := by
    have a : mid.regs.a = core.regs.a := same .a (by decide)
    have flags : mid.regs.flags = core.regs.flags := same .flags (by decide)
    have b : mid.regs.b = core.regs.b := same .b (by decide)
    have c : mid.regs.c = core.regs.c := same .c (by decide)
    have h : mid.regs.h = core.regs.h := same .h (by decide)
    have l : mid.regs.l = core.regs.l := same .l (by decide)
    simp only [Registers.operands, a, flags, b, c, h, l]
  have control : mid.regs.control = core.regs.control := by
    refine left.control ?_
    rw [List.all_eq_true]
    intro field member
    have other : field ≠ .q := by
      rintro rfl
      revert member
      decide
    simpa using fun touched => other (onlyQ field touched)
  exact
    { signed := left.comp right.signed
      inOrder := by
        change (first.inOrder && s.inOrder && (s.fetched == 0 || !first.data && !first.jumps)) = true
        simp [inOrder, right.inOrder, noData, noJump]
      bytes := congrArg (first.fetched + ·) right.bytes
      opcodes := congrArg (first.opcodes + ·) right.opcodes
      setsR := by
        change (first.setsR || s.setsR) = p.setsR
        rw [noR, Bool.false_or, right.setsR]
      stores := by
        intro field touched isGuarded
        rcases split touched with rfl | later
        · exact absurd isGuarded (by decide)
        · exact right.stores field later isGuarded
      storesF := by
        intro touched
        rcases split touched with impossible | later
        · cases impossible
        · refine (right.storesF later).imp_left fun flagged => ?_
          change (first.flagged || s.flagged) = true
          rw [flagged, Bool.or_true]
      diverts := by
        intro jumps memory reads
        have later : s.jumps = true := by
          have either : (first.jumps || s.jumps) = true := jumps
          rwa [noJump, Bool.false_or] at either
        rw [readsFrom_append, (left.noData noData).memoryAfter] at reads
        have diverts := right.diverts later memory reads.2
        rwa [operands] at diverts
      control := by rw [right.control, control]; rfl
      halts := by
        intro running halted
        have midRunning : mid.regs.halted = false :=
          (congrArg Control.halted control).trans running
        obtain ⟨laterNoData, pc⟩ := right.halts midRunning halted
        constructor
        · change (first.data || s.data) = false
          rw [noData, laterNoData]
          rfl
        · change next.regs.pc = core.regs.pc + BitVec.ofNat 16 (first.fetched + s.fetched) - 1
          rw [pc, left.pc noJump, BitVec.ofNat_add, BitVec.add_assoc] }

theorem Met.behind {first : Signature} {p : Profile} {spent t : Int} {core mid next : Cpu}
    {path tail : Path} (left : Signed first core mid path) (quiet : first.quiet = true)
    (right : Met p (spent + first.tStates) mid t next tail) :
    Met (p.after first) spent core t next (path ++ tail) := by
  obtain ⟨s, meets, cost⟩ := right
  refine ⟨first + s, meets.behind left quiet, ?_⟩
  rw [add_tStates]
  omega

theorem HasEffect.signed {α : Type} {m : Z80M α} {s : Signature} [effect : HasEffect signature m s]
    (cpu : Cpu) : m.Holds (fun _ next path => Signed s cpu next path) cpu :=
  effect.holds cpu

theorem signed_fetchOpcode (cpu : Cpu) (op : Byte) :
    Signed { tStates := 4, fetched := 1, opcodes := 1 } cpu cpu.opcodeFetched
      [cycle cpu.regs.pc 4, readOf .fetch cpu.regs.pc op] :=
  (holds_fetchOpcode cpu).mp (HasEffect.signed cpu) op

theorem Met.fetched {p : Profile} {spent t : Int} {core next : Cpu} {tail : Path} (op : Byte)
    (rest : Met p (spent + 4) core.opcodeFetched t next tail) :
    Met p.behindOpcode spent core t next
      (cycle core.regs.pc 4 :: readOf .fetch core.regs.pc op :: tail) := by
  have behind := rest.behind (signed_fetchOpcode core op) rfl
  have profile : p.after { tStates := 4, fetched := 1, opcodes := 1 } = p.behindOpcode := by
    rw [Profile.after, Profile.behindOpcode, Nat.add_comm, Nat.add_comm 1]
  rwa [profile] at behind

/-- The profile of the path is read off the bytes behind it. -/
abbrev ConformsTo (profile : List Byte → Profile) (spent : Int) (m : Z80M Int) : Prop :=
  ∀ cpu, m.Holds (fun t next path => Met (profile (fetchedBytes path)) spent cpu t next path) cpu

theorem dispatchEd_conforms : ConformsTo (plainRest 0xED) 4 dispatchEd := by
  intro cpu
  simp only [dispatchEd, holds_bind, holds_fetchOpcode]
  intro op
  refine (edArm_conforms op _).mono ?_
  intro t next path met
  exact Met.fetched op met

theorem dispatchOpcode_conforms (op : Byte) (single : isIndexPrefix op = false) :
    ConformsTo (plainRest op) 4 (dispatchOpcode op) := by
  intro cpu
  simp only [isIndexPrefix, Bool.or_eq_false_iff, beq_eq_false_iff_ne] at single
  by_cases ed : op = 0xED#8
  · subst ed
    exact dispatchEd_conforms cpu
  · have profile (rest : List Byte) : plainRest op rest = opcodeProfile op := if_neg ed
    simp only [profile, dispatchOpcode, holds_bind, holds_opcodePrelude]
    refine (opcodeArm_conforms op ed single.1 single.2 cpu).mono ?_
    intro t next path met
    have prelude : Signed { tStates := preludeLength op } cpu cpu
        (idleCycles cpu.regs.refreshAddress (preludeLength op)) :=
      (holds_opcodePrelude cpu op).mp (HasEffect.signed cpu)
    have behind := met.behind prelude rfl
    rwa [Profile.after_idle _ rfl rfl] at behind

/-! ## Prefixed opcodes -/

theorem Met.weaken {p q : Profile} {spent t : Int} {core next : Cpu} {path : Path}
    (met : Met p spent core t next path) (stores : ∀ field ∈ p.stores, field ∈ q.stores)
    (same : q = { p with stores := q.stores }) : Met q spent core t next path := by
  obtain ⟨s, meets, cost⟩ := met
  refine ⟨s, ?_, cost⟩
  rw [same]
  exact
    { meets with
      stores := fun field touched isGuarded => stores field (meets.stores field touched isGuarded) }

theorem Met.later {p : Profile} {spent t start : Int} {core next : Cpu} {path : Path}
    (met : Met p spent core t next path) : Met p (start + spent) core (start + t) next path := by
  obtain ⟨s, meets, cost⟩ := met
  exact ⟨s, meets, by omega⟩

theorem operand_listed : ∀ op : Byte, (hasHlOperand op || op == 0xCB#8) = true →
    op ∈ indexOpcodes := by
  decide

/-- `t` is the cost of the prefixes but one; the first was fetched by `step`. -/
theorem indexArm_conforms (x : IndexReg) (op : Byte) (single : isIndexPrefix op = false)
    (t : Int) : ConformsTo (indexedRest x op) (t + 4) (indexArm x op t) := by
  by_cases listed : op ∈ indexOpcodes
  case neg =>
    have noIndex : (hasHlOperand op || op == 0xCB#8) = false := by
      rw [Bool.eq_false_iff]
      exact fun indexed => listed (operand_listed op indexed)
    have cb : op ≠ 0xCB#8 := by
      rintro rfl
      exact listed (by decide)
    rw [indexArm_unlisted x t listed]
    intro cpu
    simp only [holds_bind, holds_pure, List.append_nil]
    refine (dispatchOpcode_conforms op single cpu).mono ?_
    intro cost next path met
    by_cases ed : op = 0xED#8
    · rw [indexedRest, if_pos ed]
      exact met.later
    · rw [indexedRest, if_neg ed]
      rw [plainRest, if_neg ed] at met
      refine Met.weaken met.later ?_ ?_
      · exact fun field member => List.mem_cons_of_mem _ member
      · simp [indexProfile, opcodeProfile, indexOperandBytes, noIndex, cb]
  by_cases cb : op = 0xCB#8
  · subst cb
    rw [indexArm_cb]
    intro cpu
    simp only [holds_bind, holds_pure, List.append_nil]
    refine (dispatchIndexCb_conforms x cpu).mono ?_
    intro cost next path met
    refine Met.weaken met.later ?_ ?_
    · simp
    · rfl
  fun_cases indexArm x op t
  all_goals
    first
    | exact absurd rfl cb
    | apply Conforms.of_signature
      repeat refine After.bind fun _ => ?_
      refine conforms_return ?_ ?_ ?_ (fun _ => rfl) ?_
      · cases x <;> rfl
      · simp only [zero_tStates, add_tStates]
        omega
      · cases x <;> rfl
      · first
        | exact .inl rfl
        | exact .inr fun _ _ => rfl
    | simp only [imp_false] at *
      simp only [indexOpcodes, List.mem_cons, List.not_mem_nil, or_false, *] at listed

/-- The prefixes on `path` turn what the last opcode does into what the whole does. -/
def Completes (x : IndexReg) (op : Byte) (t : Int) (core : Cpu)
    (found : Option (IndexReg × Byte × Int)) (mid : Cpu) (path : Path) : Prop :=
  ∀ x' op' t', found = some (x', op', t') → isIndexPrefix op' = false ∧ ∀ cost next tail,
    Met (indexedRest x' op' (fetchedBytes tail)) (t' + 4) mid cost next tail →
      Met (prefixedBy x op (fetchedBytes (path ++ tail))) (t + 4) core cost next (path ++ tail)

theorem completes_last (x : IndexReg) {op : Byte} (t : Int) (core : Cpu)
    (single : isIndexPrefix op = false) : Completes x op t core (some (x, op, t)) core [] := by
  rintro _ _ _ ⟨rfl, rfl, rfl⟩
  refine ⟨single, fun cost next tail met => ?_⟩
  rw [prefixedBy, single]
  exact met

theorem consumePrefixes_stops {op : Byte} (last : isIndexPrefix op = false) (fuel : Nat)
    (x : IndexReg) (t : Int) : consumePrefixes fuel x op t = return some (x, op, t) := by
  cases fuel <;> simp [consumePrefixes, last]

theorem consumePrefixes_conforms (fuel : Nat) (x : IndexReg) (op : Byte) (t : Int) (cpu : Cpu) :
    (consumePrefixes fuel x op t).Holds (Completes x op t cpu) cpu := by
  induction fuel generalizing x op t cpu with
  | zero =>
      by_cases more : isIndexPrefix op = true
      · simp [consumePrefixes, more, Completes]
      · simpa [consumePrefixes, more] using completes_last x t cpu (Bool.eq_false_iff.mpr more)
  | succ fuel ih =>
      by_cases more : isIndexPrefix op = true
      · simp only [consumePrefixes, more, if_true, holds_bind, holds_fetchOpcode]
        intro byte
        refine (ih (prefixReg op) byte (t + 4) cpu.opcodeFetched).mono ?_
        intro found mid path completes x' op' t' eq
        obtain ⟨single, rest⟩ := completes x' op' t' eq
        refine ⟨single, fun cost next tail met => ?_⟩
        rw [prefixedBy, if_pos more]
        exact (rest cost next tail met).fetched byte
      · simpa [consumePrefixes, more] using completes_last x t cpu (Bool.eq_false_iff.mpr more)

/-- As `ConformsTo`, for code that may run out of fuel. -/
abbrev ConformsFuel (profile : List Byte → Profile) (spent : Int) (m : Z80M (Option Int)) : Prop :=
  ∀ cpu, m.Holds (fun found next path => ∀ t, found = some t →
    Met (profile (fetchedBytes path)) spent cpu t next path) cpu

theorem dispatchIndex_conforms (fuel : Nat) (x : IndexReg) :
    ConformsFuel (prefixedRest x) 4 (dispatchIndex fuel x) := by
  intro cpu
  simp only [dispatchIndex, holds_bind, holds_modifyRegs, holds_fetchOpcode]
  intro op
  refine (consumePrefixes_conforms fuel x op 4 _).mono ?_
  intro found mid path completes
  cases found with
  | none => simp
  | some found =>
      obtain ⟨x', op', t'⟩ := found
      obtain ⟨single, rest⟩ := completes x' op' t' rfl
      simp only [holds_bind, holds_pure, List.append_nil]
      refine (indexArm_conforms x' op' single t' mid).mono ?_
      rintro t final tail met _ ⟨rfl⟩
      let start : Cpu := { cpu with regs := { cpu.regs with q := 0 } }
      have cleared : Signed { touched := [.q] } cpu start [] := by
        simp [start, signed_iff]
      have body : Met _ (4 + 0 + 4) start.opcodeFetched t final _ := rest t final tail met
      have behind := (body.fetched op).behind cleared rfl
      rwa [Profile.after_idle _ rfl rfl] at behind

theorem dispatchUnprefixed_conforms (fuel : Nat) (op : Byte) :
    ConformsFuel (unprefixedRest op) 4 (dispatchUnprefixed fuel op) := by
  intro cpu
  by_cases pre : isIndexPrefix op = true
  · simp only [dispatchUnprefixed, unprefixedRest, pre, if_true]
    exact dispatchIndex_conforms fuel _ cpu
  · rw [Bool.not_eq_true] at pre
    simp only [dispatchUnprefixed, unprefixedRest, pre, holds_ite, holds_bind, holds_pure,
      List.append_nil]
    refine ⟨by simp, fun _ => (dispatchOpcode_conforms op pre cpu).mono ?_⟩
    rintro t next path met _ ⟨rfl⟩
    exact met

/-- An instruction does what its own bytes say; Q is stored last. -/
theorem executeInstruction_conforms (fuel : Nat) (cpu : Cpu) :
    (executeInstruction fuel).Holds (fun found next path => ∀ kind, found = some kind →
      ∃ t settled, kind = .instruction t ∧ next = settled.settleQ ∧
        Met (instructionProfile (fetchedBytes path)) 0 cpu t settled path) cpu := by
  rw [holds_executeInstruction]
  intro op
  refine (dispatchUnprefixed_conforms fuel op _).mono ?_
  intro found next path conforms
  cases found with
  | none => simp
  | some t =>
      rintro _ ⟨rfl⟩
      exact ⟨t, next, rfl, rfl, (conforms t rfl).fetched op⟩

end Z80f
