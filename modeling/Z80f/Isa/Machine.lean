import Z80f.Encoding.Consumption
import Z80f.Isa.Decode

/-! # The machine that a program runs on

Instructions, HALT and the two interrupts, without cycles and without lines.
What comes from outside is in the events: the answer of a port, the byte of an
acknowledge, and that there is an interrupt. -/

set_option autoImplicit false

namespace Z80f.Isa

inductive Event where
  | instruction (bytes : List Byte) (input : Byte)
  | halted
  | nmi
  | int (databus : Byte)

/-- Where mode 0 goes: an RST on the data bus, or 0x38. -/
def restart (databus : Byte) : Word :=
  match mainTable {} databus [] with
  | some (.rst target) => target
  | _ => 0x38

namespace State

/-- HALT is left, and the return address is pushed. -/
def interrupted (s : State) : State :=
  let s := s.onRegs fun r =>
    { r with
      pc := if r.halted then r.pc + 1 else r.pc
      halted := false
      r := advanceR 1 r.r
      iff1 := false
      q := 0 }
  s.push s.regs.pc

def vectored (databus : Byte) (s : State) : State :=
  if s.regs.im = 0 then s.jump (restart databus)
  else if s.regs.im = 1 then s.jump 0x38
  else if s.regs.im = 2 then
    let vector := word s.regs.i databus
    s.jump (word (s.memory (vector + 1)) (s.memory vector))
  else s

def after (s : State) : Event → Option State
  | .instruction bytes input =>
      if s.regs.halted = false ∧ bytes = bytesAt s.memory s.regs.pc bytes.length then
        interpret bytes input s
      else none
  | .halted =>
      if s.regs.halted then
        some (s.onRegs fun r => { r with r := advanceR 1 r.r, eiPending := false, q := 0 })
      else none
  | .nmi => some (s.interrupted.jump 0x66)
  | .int databus =>
      if s.regs.iff1 && !s.regs.eiPending then
        some ((s.interrupted.onRegs fun r => { r with iff2 := false }).vectored databus)
      else none

/-- The state after a history, the newest event first. -/
def replay (s : State) : List Event → Option State
  | [] => some s
  | event :: earlier => (s.replay earlier).bind fun s => s.after event

end State
end Z80f.Isa
