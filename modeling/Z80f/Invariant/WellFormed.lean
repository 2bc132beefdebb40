import Z80f.Encoding.Consumption

/-! # Well-formed states

A relation between the flip-flops, Q and the PC of a halted CPU.  One case of
`StepCase` after the other keeps it; the case of an instruction is a fact about
its profile. -/

set_option autoImplicit false

namespace Z80f

open Interaction Stateful

structure Control.Sound (control : Control) : Prop where
  iff1 : control.iff1 = true → control.iff2 = true
  ei : control.eiPending = true → control.iff2 = true
  im : control.im = 0 ∨ control.im = 1 ∨ control.im = 2

section Control
variable {control : Control}

theorem controlAfter_sound (op : Byte) (sound : control.Sound)
    (noShadow : control.eiPending = false) : (controlAfter op control).Sound := by
  unfold controlAfter
  split
  · exact ⟨sound.iff1, sound.ei, sound.im⟩
  · refine ⟨Bool.noConfusion, fun shadow => ?_, sound.im⟩
    exact absurd (shadow.symm.trans noShadow) (by decide)
  · exact ⟨fun _ => rfl, fun _ => rfl, sound.im⟩
  · exact sound

theorem edControlAfter_sound (op : Byte) (sound : control.Sound) :
    (edControlAfter op control).Sound := by
  unfold edControlAfter
  split
  iterate 8 exact ⟨id, sound.ei, sound.im⟩
  iterate 4 exact ⟨sound.iff1, sound.ei, .inl rfl⟩
  iterate 2 exact ⟨sound.iff1, sound.ei, .inr (.inl rfl)⟩
  iterate 2 exact ⟨sound.iff1, sound.ei, .inr (.inr rfl)⟩
  exact sound

theorem controlOf_sound (bytes : List Byte) (sound : control.Sound)
    (noShadow : control.eiPending = false) : (controlOf bytes control).Sound := by
  cases bytes with
  | nil => exact sound
  | cons op rest =>
      rw [controlOf]
      split
      · exact edControlAfter_sound _ sound
      · exact controlAfter_sound op sound noShadow

theorem controlOf_halted {bytes : List Byte} (running : control.halted = false)
    (halted : (controlOf bytes control).halted = true) : ∃ rest, bytes = 0x76#8 :: rest := by
  cases bytes with
  | nil => exact absurd (halted.symm.trans running) (by decide)
  | cons op rest =>
      by_cases ed : op = 0xED#8
      · rw [controlOf, if_pos ed] at halted
        have same : (edControlAfter (rest.headD 0) control).halted = control.halted := by
          unfold edControlAfter
          split <;> rfl
        exact absurd (halted.symm.trans (same.trans running)) (by decide)
      · rw [controlOf, if_neg ed] at halted
        unfold controlAfter at halted
        split at halted
        · exact ⟨rest, rfl⟩
        · exact absurd (halted.symm.trans running) (by decide)
        · exact absurd (halted.symm.trans running) (by decide)
        · exact absurd (halted.symm.trans running) (by decide)

theorem prefixedRest_halt {x : IndexReg} {rest more : List Byte}
    (halt : rest.dropWhile isIndexPrefix = 0x76#8 :: more) :
    (prefixedRest x rest).bytes + more.length = rest.length := by
  induction rest generalizing x with
  | nil => cases halt
  | cons op rest ih =>
      rw [prefixedRest_cons, prefixedBy]
      rw [List.dropWhile_cons] at halt
      by_cases pre : isIndexPrefix op = true
      · rw [if_pos pre] at halt ⊢
        have behind := ih (x := prefixReg op) halt
        simp only [Profile.behindOpcode, List.length_cons]
        omega
      · rw [if_neg pre] at halt ⊢
        obtain ⟨rfl, rfl⟩ := List.cons.inj halt
        exact Nat.add_comm 1 _

theorem instructionProfile_halt {bytes more : List Byte}
    (halt : bytes.dropWhile isIndexPrefix = 0x76#8 :: more) :
    (instructionProfile bytes).bytes + more.length = bytes.length := by
  cases bytes with
  | nil => cases halt
  | cons op rest =>
      change (unprefixedRest op rest).bytes + 1 + more.length = rest.length + 1
      rw [unprefixedRest]
      rw [List.dropWhile_cons] at halt
      by_cases pre : isIndexPrefix op = true
      · rw [if_pos pre] at halt ⊢
        have behind := prefixedRest_halt (x := prefixReg op) halt
        omega
      · rw [if_neg pre] at halt ⊢
        obtain ⟨rfl, rfl⟩ := List.cons.inj halt
        exact Nat.add_comm 1 _

end Control

structure WellFormed (memory : Memory) (r : Registers) : Prop where
  sound : r.control.Sound
  q : r.q = 0 ∨ r.q = r.flags
  halted : r.halted = true → r.eiPending = false ∧ memory r.pc = 0x76

theorem wellFormed_atReset (memory : Memory) : WellFormed memory Registers.atReset :=
  ⟨⟨Bool.noConfusion, Bool.noConfusion, .inl rfl⟩, .inl rfl, Bool.noConfusion⟩

section Step
variable {memory : Memory} {cpu next : Cpu} {kind : StepKind} {path : Path}

/-- The end of an instruction that halts: PC is on the HALT it fetched last. -/
theorem Meets.halted {s : Signature}
    (meets : Meets (instructionProfile (fetchedBytes path)) s cpu next path)
    (reads : ReadsFrom memory path) (running : cpu.regs.halted = false)
    (halted : next.regs.halted = true) : next.regs.eiPending = cpu.regs.eiPending ∧
      memoryAfter memory path next.regs.pc = 0x76 := by
  have control := meets.control
  rw [instructionProfile_control] at control
  have halts : (controlOf ((fetchedBytes path).dropWhile isIndexPrefix) cpu.regs.control).halted =
      true := (congrArg Control.halted control).symm.trans halted
  obtain ⟨more, halt⟩ := controlOf_halted running halts
  constructor
  · rw [halt] at control
    exact congrArg Control.eiPending control
  · obtain ⟨noData, pc⟩ := meets.halts running halted
    obtain ⟨bytes, -⟩ := (meets.signed.consumes meets.inOrder).fetchesFirst reads
    have length : (fetchedBytes path).length = s.fetched :=
      (meets.signed.consumes meets.inOrder).length
    have whole := instructionProfile_halt halt
    rw [← meets.bytes, length] at whole
    have nothing : more = [] := List.length_eq_zero_iff.mp (by omega)
    have split := List.takeWhile_append_dropWhile (p := isIndexPrefix) (l := fetchedBytes path)
    set prefixes := (fetchedBytes path).takeWhile isIndexPrefix
    rw [halt, nothing] at split
    have count : s.fetched = prefixes.length + 1 := by
      rw [← length, ← split, List.length_append, List.length_singleton]
    rw [bytes, count, bytesAt_last] at split
    have last := (List.append_inj' split rfl).2
    rw [(meets.signed.noData noData).memoryAfter, pc, count, BitVec.ofNat_add, ← BitVec.add_assoc]
    exact (congrArg memory (BitVec.add_sub_cancel _ _)).trans (List.singleton_inj.mp last).symm

theorem StepCase.wellFormed (case : StepCase cpu kind next path) (reads : ReadsFrom memory path)
    (formed : WellFormed memory cpu.regs) : WellFormed (memoryAfter memory path) next.regs := by
  obtain ⟨⟨iff1, ei, im⟩, q, onHalt⟩ := formed
  cases case with
  | nmi pending =>
      rw [Registers.nmiEntry_eq]
      exact ⟨⟨Bool.noConfusion, ei, im⟩, .inl rfl, Bool.noConfusion⟩
  | int noNmi accepts databus pc wz tail vectored =>
      have noShadow : cpu.regs.eiPending = false := by
        simp only [Cpu.acceptsInt, Bool.and_eq_true, Bool.not_eq_true'] at accepts
        exact accepts.2
      rw [Registers.intEntry_eq]
      refine ⟨⟨Bool.noConfusion, fun shadow => ?_, im⟩, .inl rfl,
        Bool.noConfusion⟩
      exact absurd (shadow.symm.trans noShadow) (by decide)
  | halted noNmi noInt halted v =>
      exact ⟨⟨iff1, Bool.noConfusion, im⟩, .inl rfl,
        fun _ => ⟨rfl, (onHalt halted).2⟩⟩
  | instruction noNmi noInt running t settled path met =>
      obtain ⟨s, meets, -⟩ := met
      have control := meets.control
      rw [instructionProfile_control] at control
      have sound : settled.regs.control.Sound := by
        rw [control]
        exact controlOf_sound _ ⟨iff1, Bool.noConfusion, im⟩ rfl
      refine ⟨sound, ?_, fun halted => meets.halted reads running halted⟩
      unfold Cpu.settleQ
      split
      · exact .inr rfl
      · exact .inl rfl

end Step
end Z80f
