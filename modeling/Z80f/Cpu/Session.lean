import Z80f.Interaction.Run
import Z80f.Cpu.Step

/-! # Sessions

What a host does with a CPU between the calls of `step`: it moves the lines and
pulses INT, in any order.  A session is a run of these actions. -/

set_option autoImplicit false

namespace Z80f

open Interaction

inductive Action (Host : Type) where
  | setNmiLine (active : Bool)
  | setIntLine (active : Bool)
  | pulseIntLine
  | stepped (result : Stepped Host)

inductive Act {Host : Type} (bus : Bus Host) : Machine Host → Action Host → Machine Host → Prop where
  | setNmiLine (s : Machine Host) (active : Bool) :
      Act bus s (.setNmiLine active) (s.onZ80 (Z80.setNmiLine active))
  | setIntLine (s : Machine Host) (active : Bool) :
      Act bus s (.setIntLine active) (s.onZ80 (Z80.setIntLine active))
  | pulseIntLine (s : Machine Host) : Act bus s .pulseIntLine (s.onZ80 Z80.pulseIntLine)
  | stepped {s : Machine Host} {fuel : Nat} {result : Stepped Host}
      (returns : step bus fuel s = some result) : Act bus s (.stepped result) result.machine

/-- A session that begins with a reset. -/
abbrev FromReset {Host : Type} (bus : Bus Host) (initial : Z80) (host : Host) :
    List (Action Host) → Machine Host → Prop :=
  Run (Act bus) { z80 := initial.reset, host := host }

end Z80f
