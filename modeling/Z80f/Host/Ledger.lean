import Z80f.Cpu.Session
import Z80f.Cpu.StepRules
import Z80f.Interaction.Ledger

/-! # What a host remembers of a session

The ledger of a session: its bus calls, the first one first, decide every part
of the host that each call updates in a way of its own. -/

set_option autoImplicit false

namespace Z80f

open Interaction

section Ledger
variable {Host Part : Type} {bus : Bus Host}

/-- Every call changes `part` of the host by `update`. -/
def Remembers (bus : Bus Host) (part : Host → Part) (update : Part → Sigma Answer → Part) : Prop :=
  (environment bus).Keeps (fun state => part state.2) update

/-- `part` of the host decides how `asked` is answered. -/
def Shows (bus : Bus Host) (part : Host → Part) (asked : Request)
    (answer : Part → Answer asked) : Prop :=
  (environment bus).Tells (fun state => part state.2) asked answer

/-- The answered calls of a session, in order. -/
def sessionPath : List (Action Host) → Path
  | [] => []
  | .stepped result :: earlier => sessionPath earlier ++ result.calls.map Exchange.answered
  | _ :: earlier => sessionPath earlier

variable {part : Host → Part} {update : Part → Sigma Answer → Part}

theorem step_remembers (remembers : Remembers bus part update)
    {fuel : Nat} {s : Machine Host} {result : Stepped Host}
    (returns : step bus fuel s = some result) :
    part result.machine.host =
      (result.calls.map Exchange.answered).foldl update (part s.host) := by
  obtain ⟨-, machine, calls, -⟩ := step_returns returns
  rw [machine, calls]
  exact remembers.run ((stepBody fuel).run s.started.z80.toCpu) (s.started.z80.toClock, s.host)

theorem session_remembers (remembers : Remembers bus part update)
    {s last : Machine Host} {history : List (Action Host)}
    (run : Run (Act bus) s history last) :
    part last.host = (sessionPath history).foldl update (part s.host) := by
  induction run with
  | start => rfl
  | next run act ih =>
      cases act with
      | setNmiLine | setIntLine | pulseIntLine => exact ih
      | stepped returns =>
          rw [sessionPath, List.foldl_append, ← ih]
          exact step_remembers remembers returns

theorem step_shows (remembers : Remembers bus part update)
    {asked : Request} {answer : Part → Answer asked}
    (told : Shows bus part asked answer) {fuel : Nat}
    {s : Machine Host} {result : Stepped Host} (returns : step bus fuel s = some result)
    {earlier later : Path} {value : Answer asked}
    (split : result.calls.map Exchange.answered = earlier ++ ⟨asked, value⟩ :: later) :
    value = answer (earlier.foldl update (part s.host)) := by
  obtain ⟨-, -, calls, -⟩ := step_returns returns
  rw [calls] at split
  exact remembers.tells told ((stepBody fuel).run s.started.z80.toCpu)
    (s.started.z80.toClock, s.host) split

theorem session_shows (remembers : Remembers bus part update)
    {asked : Request} {answer : Part → Answer asked}
    (told : Shows bus part asked answer)
    {s last : Machine Host} {history : List (Action Host)} (run : Run (Act bus) s history last)
    {earlier later : Path} {value : Answer asked}
    (split : sessionPath history = earlier ++ ⟨asked, value⟩ :: later) :
    value = answer (earlier.foldl update (part s.host)) := by
  induction run generalizing earlier later with
  | start => exact absurd split (by simp [sessionPath])
  | next run act ih =>
      cases act with
      | setNmiLine | setIntLine | pulseIntLine => exact ih split
      | stepped returns =>
          have inStep (middle : Path) (tail : _ = middle ++ ⟨asked, value⟩ :: later) :=
            step_shows remembers told returns tail
          rw [session_remembers remembers run] at inStep
          rw [sessionPath] at split
          rcases List.append_eq_append_iff.mp split with ⟨middle, rfl, tail⟩ | ⟨rest, head, tail⟩
          · rw [List.foldl_append]
            exact inStep middle tail
          · cases rest with
            | nil =>
                rw [List.append_nil] at head
                rw [← head]
                exact inStep [] tail.symm
            | cons first rest =>
                obtain ⟨rfl, -⟩ := List.cons.inj tail
                exact ih head

end Ledger
end Z80f
