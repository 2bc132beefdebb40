import Z80f.Host.Ledger
import Z80f.Host.Ram

/-! # The Mega Drive sound host

The host of the Mega Drive example: 8 KiB of RAM seen twice, the latches of the
two sound chips, and a bank register that takes one bit a write. -/

set_option autoImplicit false

namespace Z80f

open Interaction

/-- The members of `MegadriveSoundBus` that its callbacks use. -/
structure MegaDrive where
  z80Ram : BitVec 13 → Byte := fun _ => 0
  bankRegister : Word := 0
  lastYmAddress : Byte := 0
  lastYmData : Byte := 0
  lastPsg : Byte := 0

namespace MegaDrive

def readMemory (address : Word) (host : MegaDrive) : Byte :=
  if address < 0x2000 then host.z80Ram (address.setWidth 13)
  else if address < 0x4000 then host.z80Ram ((address - 0x2000).setWidth 13)
  else if 0x4000 ≤ address ∧ address ≤ 0x4003 then 0x00
  else if address = 0x7F11 then host.lastPsg
  else if 0x8000 ≤ address then 0xFF
  else 0xFF

/-- The bank register after a write of `value` to 0x6000. -/
def shiftedBank (bank : Word) (value : Byte) : Word :=
  (bank >>> 1) ||| ((value &&& 1#8).setWidth 16 <<< 8)

def writeMemory (address : Word) (value : Byte) (host : MegaDrive) : MegaDrive :=
  if address < 0x2000 then
    { host with z80Ram := Function.update host.z80Ram (address.setWidth 13) value }
  else if address < 0x4000 then
    { host with z80Ram := Function.update host.z80Ram ((address - 0x2000).setWidth 13) value }
  else if address = 0x4000 ∨ address = 0x4002 then { host with lastYmAddress := value }
  else if address = 0x4001 ∨ address = 0x4003 then { host with lastYmData := value }
  else if address = 0x7F11 then { host with lastPsg := value }
  else if address = 0x6000 then
    { host with bankRegister := shiftedBank host.bankRegister value }
  else host

end MegaDrive

def megaDriveBus : Bus MegaDrive where
  onMCycle _ _ _ host := (0, host)
  readMemory _ address host := (host.readMemory address, host)
  writeMemory _ address value host := host.writeMemory address value
  readIo _ _ host := (0xFF, host)
  writeIo _ _ _ host := host
  acknowledgeInterrupt _ host := (0xFF, host)

namespace MegaDrive

inductive Place where
  | ram (cell : BitVec 13)
  | ymAddress | ymData | psg | bank | nowhere
deriving DecidableEq

def place (address : Word) : Place :=
  if address < 0x4000 then .ram (address.setWidth 13)
  else if address = 0x4000 ∨ address = 0x4002 then .ymAddress
  else if address = 0x4001 ∨ address = 0x4003 then .ymData
  else if address = 0x7F11 then .psg
  else if address = 0x6000 then .bank
  else .nowhere

def written (p : Place) : Sigma Answer → Option Byte
  | ⟨.writeMemory address value, _⟩ => if place address = p then some value else none
  | _ => none

theorem mirrored (address : Word) : (address - 0x2000).setWidth 13 = address.setWidth 13 := by
  bv_omega

theorem writeMemory_place (address : Word) (value : Byte) (host : MegaDrive) :
    host.writeMemory address value = match place address with
      | .ram cell => { host with z80Ram := Function.update host.z80Ram cell value }
      | .ymAddress => { host with lastYmAddress := value }
      | .ymData => { host with lastYmData := value }
      | .psg => { host with lastPsg := value }
      | .bank => { host with bankRegister := shiftedBank host.bankRegister value }
      | .nowhere => host := by
  unfold writeMemory place
  by_cases low : address < 0x2000
  · have ram : address < 0x4000 := by bv_omega
    rw [if_pos low, if_pos ram]
  · rw [if_neg low]
    by_cases ram : address < 0x4000
    · rw [if_pos ram, if_pos ram, mirrored]
    · rw [if_neg ram, if_neg ram]
      split
      · rfl
      split
      · rfl
      split
      · rfl
      split <;> rfl

theorem readMemory_ram {address : Word} (ram : address < 0x4000) (host : MegaDrive) :
    host.readMemory address = host.z80Ram (address.setWidth 13) := by
  unfold readMemory
  by_cases low : address < 0x2000
  · rw [if_pos low]
  · rw [if_neg low, if_pos ram, mirrored]

theorem remembers_latch (latch : MegaDrive → Byte) (p : Place)
    (write : ∀ address value host, latch (writeMemory address value host) =
      if place address = p then value else latch host) :
    Remembers megaDriveBus latch (fun byte call => (written p call).getD byte) := by
  rintro request ⟨clock, host⟩
  cases request with
  | writeMemory address value =>
      change latch (host.writeMemory address value) = (written p _).getD (latch host)
      rw [write, written]
      split <;> rfl
  | machineCycle | readMemory | readIo | writeIo | acknowledgeInterrupt => rfl

theorem write_ram (cell : BitVec 13) (address : Word) (value : Byte) (host : MegaDrive) :
    (host.writeMemory address value).z80Ram cell =
      if place address = .ram cell then value else host.z80Ram cell := by
  rw [writeMemory_place]
  cases place address with
  | ram other =>
      by_cases here : cell = other
      · subst here
        simp
      · have apart : ¬ other = cell := fun same => here same.symm
        simp [here, apart]
  | ymAddress | ymData | psg | bank | nowhere => simp

theorem write_ymAddress (address : Word) (value : Byte) (host : MegaDrive) :
    (host.writeMemory address value).lastYmAddress =
      if place address = .ymAddress then value else host.lastYmAddress := by
  rw [writeMemory_place]
  cases place address <;> simp

theorem write_ymData (address : Word) (value : Byte) (host : MegaDrive) :
    (host.writeMemory address value).lastYmData =
      if place address = .ymData then value else host.lastYmData := by
  rw [writeMemory_place]
  cases place address <;> simp

theorem write_psg (address : Word) (value : Byte) (host : MegaDrive) :
    (host.writeMemory address value).lastPsg =
      if place address = .psg then value else host.lastPsg := by
  rw [writeMemory_place]
  cases place address <;> simp

theorem remembers_bank : Remembers megaDriveBus bankRegister (fun bank call =>
    (written .bank call).elim bank (shiftedBank bank)) := by
  rintro request ⟨clock, host⟩
  cases request with
  | writeMemory address value =>
      change (host.writeMemory address value).bankRegister = _
      rw [writeMemory_place]
      simp only [written]
      cases place address <;> simp
  | machineCycle | readMemory | readIo | writeIo | acknowledgeInterrupt => rfl

theorem shiftedBank_small (bank : Word) (small : bank < 0x200) (value : Byte) :
    shiftedBank bank value < 0x200 := by
  have bound : bank.toNat < 512 := small
  have bit : (value &&& 1#8).toNat < 2 := by
    rw [BitVec.toNat_and]
    exact Nat.lt_succ_of_le Nat.and_le_right
  have high : ((value &&& 1#8).setWidth 16 <<< 8).toNat < 2 ^ 9 := by
    rw [BitVec.toNat_shiftLeft, BitVec.toNat_setWidth, Nat.shiftLeft_eq]
    omega
  have low : (bank >>> 1).toNat < 2 ^ 9 := by
    rw [BitVec.toNat_ushiftRight, Nat.shiftRight_eq_div_pow]
    omega
  change (shiftedBank bank value).toNat < 2 ^ 9
  rw [shiftedBank, BitVec.toNat_or]
  exact Nat.or_lt_two_pow low high

theorem shiftedBank_bit {bank : Word} (small : bank < 0x200) (value : Byte) {i : Nat}
    (inside : i < 9) : (shiftedBank bank value).getLsbD i =
      if i = 8 then value.getLsbD 0 else bank.getLsbD (i + 1) := by
  have top : bank.getLsbD 9 = false := by
    rw [BitVec.getLsbD]
    exact Nat.testBit_lt_two_pow small
  rw [shiftedBank, BitVec.getLsbD_or, BitVec.getLsbD_ushiftRight, Nat.add_comm 1 i]
  by_cases last : i = 8
  · subst last
    rw [if_pos rfl, top, Bool.false_or]
    simp
  · rw [if_neg last]
    have below : i < 8 := by omega
    simp [below]

/-- The latest nine bits, and behind them what was there before. -/
theorem bank_bits (values : List Byte) {bank : Word} (small : bank < 0x200) {i : Nat}
    (inside : i < 9) : (values.foldl shiftedBank bank).getLsbD i =
      ((values.reverse[8 - i]?).map fun value : Byte => value.getLsbD 0).getD
        (bank.getLsbD (i + values.length)) := by
  induction values generalizing bank with
  | nil => rfl
  | cons value values ih =>
      rw [List.foldl_cons, ih (shiftedBank_small bank small value), List.reverse_cons,
        List.length_cons, ← Nat.add_assoc]
      rcases Nat.lt_trichotomy (8 - i) values.length with before | here | behind
      · rw [List.getElem?_append_left (by rwa [List.length_reverse])]
        rw [List.getElem?_eq_getElem (by rwa [List.length_reverse])]
        rfl
      · rw [List.getElem?_append_right (by rw [List.length_reverse, here])]
        rw [List.getElem?_eq_none (by rw [List.length_reverse, here]), here, List.length_reverse]
        have place : i + values.length = 8 := by omega
        rw [Nat.sub_self, place, shiftedBank_bit small value (by decide), if_pos rfl]
        rfl
      · have within : i + values.length < 9 := by omega
        have other : i + values.length ≠ 8 := by omega
        rw [List.getElem?_eq_none, List.getElem?_eq_none, Option.map_none, Option.getD_none,
          Option.getD_none, shiftedBank_bit small value within, if_neg other]
        · rw [List.length_append, List.length_reverse, List.length_singleton]
          omega
        · rw [List.length_reverse]
          omega

theorem shows_ram (kind : ReadKind) {address : Word} (ram : address < 0x4000) :
    Shows megaDriveBus (fun host => host.z80Ram (address.setWidth 13))
      (.readMemory kind address) id := by
  rintro ⟨clock, host⟩
  exact readMemory_ram ram host

theorem shows_psg (kind : ReadKind) :
    Shows megaDriveBus lastPsg (.readMemory kind 0x7F11) id := fun _ => rfl

end MegaDrive

open MegaDrive

/-- The Mega Drive host after any session: a cell of the RAM holds the latest
byte written to it through either image and reads so through both, the latches
of the chips hold the latest byte written to their ports, the PSG latch reads
back, and the bank register holds the bits of the latest nine writes, the latest
one at the top. -/
theorem megaDrive_session (s last : Machine MegaDrive) (history : List (Action MegaDrive))
    (run : Run (Act megaDriveBus) s history last) (small : s.host.bankRegister < 0x200) :
    let path := sessionPath history
    let banked := path.filterMap (written .bank)
    (∀ earlier kind address value later, path = earlier ++ readOf kind address value :: later →
      (address < 0x4000 →
        value = (latest (written (.ram (address.setWidth 13))) earlier).getD
          (s.host.z80Ram (address.setWidth 13))) ∧
      (address = 0x7F11 → value = (latest (written .psg) earlier).getD s.host.lastPsg)) ∧
    (∀ cell, last.host.z80Ram cell =
      (latest (written (.ram cell)) path).getD (s.host.z80Ram cell)) ∧
    last.host.lastYmAddress = (latest (written .ymAddress) path).getD s.host.lastYmAddress ∧
    last.host.lastYmData = (latest (written .ymData) path).getD s.host.lastYmData ∧
    last.host.lastPsg = (latest (written .psg) path).getD s.host.lastPsg ∧
    ∀ i < 9, last.host.bankRegister.getLsbD i =
      ((banked.reverse[8 - i]?).map fun value : Byte => value.getLsbD 0).getD
        (s.host.bankRegister.getLsbD (i + banked.length)) := by
  intro path banked
  have ram (cell : BitVec 13) :=
    remembers_latch (fun host => host.z80Ram cell) (.ram cell) (write_ram cell)
  have cells (cell : BitVec 13) := session_remembers (ram cell) run
  have ymAddress := session_remembers (remembers_latch _ _ write_ymAddress) run
  have ymData := session_remembers (remembers_latch _ _ write_ymData) run
  have psg := session_remembers (remembers_latch _ _ write_psg) run
  have bank := session_remembers remembers_bank run
  simp only [foldl_latest] at cells ymAddress ymData psg
  refine ⟨?_, cells, ymAddress, ymData, psg, fun i inside => ?_⟩
  · intro earlier kind address value later split
    rw [← foldl_latest, ← foldl_latest]
    constructor
    · intro isRam
      exact session_shows (ram _) (shows_ram kind isRam) run split
    · rintro rfl
      exact session_shows (remembers_latch _ _ write_psg) (shows_psg kind) run split
  · rw [bank, foldl_loads]
    exact bank_bits banked small inside

theorem megaDrive_session_bank : ∃ history last,
    Run (Act megaDriveBus)
      { z80 := { regs := { a := 3 } }
        host :=
          { z80Ram := fun cell => programAt 0 [0x32, 0, 0x60] 0 (cell.setWidth 16) } }
      history last ∧
    last.host.bankRegister.getLsbD 8 = true := by
  have run := Run.next (@Run.start _ _ (Act megaDriveBus)
    { z80 := { regs := { a := 3 } }
      host := { z80Ram := fun cell => programAt 0 [0x32, 0, 0x60] 0 (cell.setWidth 16) } })
    (@Act.stepped _ _ _ 0 _ rfl)
  obtain ⟨-, -, -, -, -, bank⟩ := megaDrive_session _ _ _ run (by decide)
  exact ⟨_, _, run, bank 8 (by decide)⟩

end Z80f
