import Z80f.Host.Ledger
import Z80f.Host.Locality

/-! # The ZX Spectrum host

The host of the Spectrum example: ROM below 0x4000, the border and the speaker
on the even ports, and a count of the machine cycles in contended memory. -/

set_option autoImplicit false

namespace Z80f

open Interaction

structure Spectrum where
  memory : Memory := fun _ => 0
  border : Byte := 0
  lastSpeaker : Byte := 0
  contendedAccesses : BitVec 64 := 0

/-- `SpectrumBus`; `acknowledge_interrupt` is the one of `Bus`. -/
def spectrumBus : Bus Spectrum where
  onMCycle _ address _ host :=
    (0, if 0x4000 ≤ address ∧ address ≤ 0x7FFF then
        { host with contendedAccesses := host.contendedAccesses + 1 }
      else host)
  readMemory _ address host := (host.memory address, host)
  writeMemory _ address value host :=
    if address < 0x4000 then host
    else { host with memory := Function.update host.memory address value }
  readIo _ port host := if port &&& 1 = 0 then (0xFF, host) else (0xFF, host)
  writeIo _ port value host :=
    if port &&& 1 = 0 then
      { host with border := value &&& 0x07, lastSpeaker := (value >>> 4) &&& 1 }
    else host
  acknowledgeInterrupt _ host := (0xFF, host)

namespace Spectrum

def stored (address : Word) : Sigma Answer → Option Byte
  | ⟨.writeMemory target value, _⟩ =>
      if target = address ∧ ¬ address < 0x4000 then some value else none
  | _ => none

def ulaOut : Sigma Answer → Option Byte
  | ⟨.writeIo port value, _⟩ => if port &&& 1 = 0 then some value else none
  | _ => none

def contended : Sigma Answer → Bool
  | ⟨.machineCycle address _, _⟩ => decide (0x4000 ≤ address ∧ address ≤ 0x7FFF)
  | _ => false

theorem keeps_memory (address : Word) : Remembers spectrumBus (fun host => host.memory address)
    (fun byte call => (stored address call).getD byte) := by
  rintro request ⟨clock, host⟩
  cases request with
  | machineCycle target tStates =>
      simp only [environment, serve, runMachineCycle, spectrumBus, stored]
      split <;> rfl
  | writeMemory target value =>
      by_cases rom : target < 0x4000
      · have spared : ¬ (target = address ∧ ¬ address < 0x4000) := by
          rintro ⟨rfl, notRom⟩
          exact notRom rom
        simp only [environment, serve, spectrumBus, stored, if_pos rom, if_neg spared]
        rfl
      · by_cases here : target = address
        · subst here
          simp only [environment, serve, spectrumBus, stored, rom, not_false_eq_true, and_self,
            if_true, if_false, Function.update_self]
          rfl
        · simp only [environment, serve, spectrumBus, stored, if_neg rom, here, false_and, if_false,
            Function.update_of_ne (Ne.symm here)]
          rfl
  | writeIo port value =>
      simp only [environment, serve, spectrumBus, stored]
      split <;> rfl
  | readIo port =>
      simp only [environment, serve, spectrumBus, stored]
      split <;> rfl
  | readMemory | acknowledgeInterrupt => rfl

theorem keeps_ula {Latch : Type} (latch : Spectrum → Latch) (decode : Byte → Latch)
    (ram : ∀ (host : Spectrum) memory, latch { host with memory := memory } = latch host)
    (counter : ∀ (host : Spectrum) count,
      latch { host with contendedAccesses := count } = latch host)
    (out : ∀ (host : Spectrum) value, latch { host with
      border := value &&& 0x07, lastSpeaker := (value >>> 4) &&& 1 } = decode value) :
    Remembers spectrumBus latch (fun held call => ((ulaOut call).map decode).getD held) := by
  rintro request ⟨clock, host⟩
  cases request with
  | machineCycle target tStates =>
      simp only [environment, serve, runMachineCycle, spectrumBus, ulaOut]
      split
      · exact counter _ _
      · rfl
  | writeMemory target value =>
      simp only [environment, serve, spectrumBus, ulaOut]
      split
      · rfl
      · exact ram _ _
  | writeIo port value =>
      simp only [environment, serve, spectrumBus, ulaOut]
      split
      · exact out _ _
      · rfl
  | readIo port =>
      simp only [environment, serve, spectrumBus, ulaOut]
      split <;> rfl
  | readMemory | acknowledgeInterrupt => rfl

theorem keeps_contended : Remembers spectrumBus Spectrum.contendedAccesses
    (fun count call => if contended call then count + 1 else count) := by
  rintro request ⟨clock, host⟩
  cases request with
  | machineCycle target tStates =>
      simp only [environment, serve, runMachineCycle, spectrumBus, contended, decide_eq_true_eq]
      split <;> rfl
  | writeMemory target value =>
      simp only [environment, serve, spectrumBus, contended]
      split <;> rfl
  | writeIo port value =>
      simp only [environment, serve, spectrumBus, contended]
      split <;> rfl
  | readIo port =>
      simp only [environment, serve, spectrumBus, contended]
      split <;> rfl
  | readMemory | acknowledgeInterrupt => rfl

theorem shows_memory (kind : ReadKind) (address : Word) : Shows spectrumBus
    (fun host => host.memory address) (.readMemory kind address) id := fun _ => rfl

theorem latest_rom {address : Word} (rom : address < 0x4000) (path : Path) :
    latest (stored address) path = none := by
  induction path with
  | nil => rfl
  | cons call later ih =>
      obtain ⟨request, answer⟩ := call
      rw [latest, ih, Option.none_or]
      cases request with
      | writeMemory target value => exact if_neg fun both => both.2 rom
      | machineCycle | readMemory | readIo | writeIo | acknowledgeInterrupt => rfl

/-- Stores below 0x4000 are lost, those of flat RAM are not. -/
def sparesRom : Request → Prop
  | .writeMemory address _ => ¬ address < 0x4000
  | _ => True

instance (request : Request) : Decidable (sparesRom request) :=
  match request with
  | .writeMemory address _ => inferInstanceAs (Decidable (¬ address < 0x4000))
  | .machineCycle _ _ | .readMemory _ _ | .readIo _ | .writeIo _ _ | .acknowledgeInterrupt =>
      isTrue trivial

theorem servesAlike_flatRam : ServesAlike spectrumBus flatRam.toBus sparesRom
    (fun host memory => host.memory = memory) := by
  rintro request ⟨clock, host⟩ ⟨_, _⟩ allowed ⟨⟨⟩, rfl⟩
  cases request with
  | machineCycle address tStates =>
      refine ⟨_, _, _, _, rfl, rfl, rfl, ?_⟩
      simp only [spectrumBus]
      split <;> rfl
  | readMemory kind address => exact ⟨_, _, _, _, rfl, rfl, rfl, rfl⟩
  | writeMemory address value =>
      refine ⟨_, _, _, _, rfl, rfl, rfl, ?_⟩
      simp only [spectrumBus, if_neg allowed]
      rfl
  | readIo port =>
      have answers : spectrumBus.readIo clock.cycles port host = (0xFF, host) := ite_self _
      refine ⟨(0xFF : Byte), (clock, host), (clock, host.memory), _, ?_, rfl, rfl, rfl⟩
      simp only [environment, serve, answers]
  | writeIo port value =>
      refine ⟨_, _, _, _, rfl, rfl, rfl, ?_⟩
      simp only [spectrumBus]
      split <;> rfl
  | acknowledgeInterrupt => exact ⟨_, _, _, _, rfl, rfl, rfl, rfl⟩

end Spectrum

open Spectrum

/-- The Spectrum host after any session, with interrupts at any time: every cell
reads as the latest store to it, or as it was if there is none, the ROM as it
was; border and speaker are those of the latest OUT to an even port, and the
counter has counted every machine cycle in contended memory. -/
theorem spectrum_session (s last : Machine Spectrum) (history : List (Action Spectrum))
    (run : Run (Act spectrumBus) s history last) :
    let path := sessionPath history
    (∀ earlier kind address value later, path = earlier ++ readOf kind address value :: later →
      value = (latest (stored address) earlier).getD (s.host.memory address)) ∧
    (∀ address, last.host.memory address =
      (latest (stored address) path).getD (s.host.memory address)) ∧
    (∀ address, address < 0x4000 → last.host.memory address = s.host.memory address) ∧
    last.host.border = ((latest ulaOut path).map (· &&& 0x07)).getD s.host.border ∧
    last.host.lastSpeaker =
      ((latest ulaOut path).map fun out : Byte => (out >>> 4) &&& 1).getD s.host.lastSpeaker ∧
    last.host.contendedAccesses =
      s.host.contendedAccesses + BitVec.ofNat 64 (path.countP contended) := by
  intro path
  have cells (address : Word) := session_remembers (keeps_memory address) run
  simp only [foldl_latest] at cells
  refine ⟨?_, cells, ?_, ?_, ?_, ?_⟩
  · intro earlier kind address value later split
    rw [← foldl_latest]
    exact session_shows (keeps_memory address) (shows_memory kind address) run split
  · intro address rom
    rw [cells, latest_rom rom]
    rfl
  · rw [← latest_map, ← foldl_latest]
    exact session_remembers (keeps_ula Spectrum.border (· &&& 0x07)
      (fun _ _ => rfl) (fun _ _ => rfl) fun _ _ => rfl) run
  · rw [← latest_map, ← foldl_latest]
    exact session_remembers (keeps_ula Spectrum.lastSpeaker (fun out => (out >>> 4) &&& 1)
      (fun _ _ => rfl) (fun _ _ => rfl) fun _ _ => rfl) run
  · rw [← foldl_count]
    exact session_remembers keeps_contended run

/-- The program of the example: `LD A,7` and `OUT (0xFE),A`. -/
theorem spectrum_session_border : ∃ history last,
    Run (Act spectrumBus)
      { z80 := { regs := { pc := 0x8000 } }
        host := { memory := programAt 0x8000 [0x3E, 0x07, 0xD3, 0xFE, 0x76] 0 } } history last ∧
    last.host.border = 7 ∧ last.host.contendedAccesses = 0 := by
  have run := Run.next (Run.next (@Run.start _ _ (Act spectrumBus)
    { z80 := { regs := { pc := 0x8000 } }
      host := { memory := programAt 0x8000 [0x3E, 0x07, 0xD3, 0xFE, 0x76] 0 } })
    (@Act.stepped _ _ _ 0 _ rfl)) (@Act.stepped _ _ _ 0 _ rfl)
  obtain ⟨-, -, -, border, -, counted⟩ := spectrum_session _ _ _ run
  exact ⟨_, _, run, border, counted⟩

/-- A session that never stores below 0x4000 runs on flat RAM, call by call, and
leaves it as the memory of the Spectrum. -/
theorem spectrum_as_flatRam (s last : Machine Spectrum) (history : List (Action Spectrum))
    (run : Run (Act spectrumBus) s history last)
    (within : ∀ action ∈ history, Within sparesRom (callsOf action)) :
    ∃ history' last',
      Run (Act flatRam.toBus) { z80 := s.z80, host := s.host.memory } history' last' ∧
      List.Forall₂ SameAction history history' ∧ last'.z80 = last.z80 ∧
      last'.host = last.host.memory := by
  have same : SameMachine (fun host memory => host.memory = memory) s
    { z80 := s.z80, host := s.host.memory } := ⟨rfl, rfl⟩
  obtain ⟨history', last', run', sameHistory, sameLast⟩ := same.run servesAlike_flatRam run within
  exact ⟨history', last', run', sameHistory, sameLast.z80.symm, sameLast.host.symm⟩

theorem spectrum_as_flatRam_store : ∃ history' last',
    Run (Act flatRam.toBus)
      { z80 := { regs := { a := 5, pc := 0x8000 } }
        host := programAt 0x8000 [0x32, 0x00, 0x90] 0 } history' last' ∧
    last'.z80.regs.pc = 0x8003 ∧ last'.host 0x9000 = 5 := by
  have run := Run.next (@Run.start _ _ (Act spectrumBus)
    { z80 := { regs := { a := 5, pc := 0x8000 } }
      host := { memory := programAt 0x8000 [0x32, 0x00, 0x90] 0 } })
    (@Act.stepped _ _ _ 0 _ rfl)
  obtain ⟨history', last', run', -, z80, host⟩ := spectrum_as_flatRam _ _ _ run
    (List.forall_mem_singleton.mpr fun call member => of_decide_eq_true
      (List.all_eq_true.mp (rfl : List.all _ (fun call : BusCall => decide
        (sparesRom call.request)) = true) call member))
  refine ⟨history', last', run', ?_, ?_⟩
  · rw [z80]
    rfl
  · rw [host]
    rfl

end Z80f
