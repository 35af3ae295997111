import Mathlib.Data.List.Basic
import Accumulator.Proofs.Machine.Replay
import Accumulator.Proofs.Text.Digits

/-!
# What the devices deliver and emit

* `Console.remaining`, `Bus.remaining?` — the words that a console still has to deliver. A read takes
  the first of them, and it faults if there is none.
* `Bus.Fresh` — nothing has been read and nothing written; `Fresh.connect` builds such a bus.
* `Console.sequence`, `Bus.sequence_of_remaining?` — all that a fresh console delivers, and how what
  was read on its port begins it.
* `Device.emission_console`, `Device.emission_decimal` — the bytes of one write.
-/

namespace Accumulator

/-! ## What a console still has to deliver -/

/-- The bytes of a console behind its cursor, as words. -/
def Console.unread (c : Console) : List Word := (c.input.toList.drop c.cursor).map UInt8.toUInt32

/-- The words that a console has not delivered yet: the length of its input, then the bytes. -/
def Console.remaining (c : Console) : List Word :=
  if c.lengthSent then c.unread else UInt32.ofNat c.input.size :: c.unread

/-- The words that a device has not delivered yet, if it can be read at all. -/
def Device.remaining? : Device → Option (List Word)
  | .console c => some c.remaining
  | .decimal => none

/-- The words that the device on a port has not delivered yet, if it is there and can be read. -/
def Bus.remaining? (bus : Bus) (port : Port) : Option (List Word) :=
  (bus.device? port).bind Device.remaining?

namespace Console

variable {c next : Console} {value : Word}

theorem unread_of_getElem? {byte : UInt8} (h : c.input[c.cursor]? = some byte) :
    c.unread = byte.toUInt32 :: { c with cursor := c.cursor + 1 : Console }.unread := by
  obtain ⟨hlt, hbyte⟩ := Array.getElem?_eq_some_iff.mp h
  have hlt' : c.cursor < c.input.toList.length := by simpa using hlt
  have hdrop : c.input.toList.drop c.cursor = byte :: c.input.toList.drop (c.cursor + 1) := by
    rw [List.drop_eq_getElem_cons hlt', Array.getElem_toList, hbyte]
  rw [unread, hdrop, List.map_cons]
  rfl

/-- A read takes the first of the words that remain. -/
theorem remaining_of_read (h : c.read = .ok (value, next)) :
    c.remaining = value :: next.remaining := by
  rw [read_eq] at h
  split at h
  · next hsent =>
    split at h
    · next byte hbyte =>
      cases h
      show c.remaining = _ :: { c with cursor := c.cursor + 1 : Console }.remaining
      rw [remaining, remaining, if_pos hsent, if_pos hsent]
      exact unread_of_getElem? hbyte
    · cases h
  · next hsent =>
    cases h
    rw [remaining, if_neg hsent]
    rfl

theorem read_of_remaining_nil (h : c.remaining = []) : c.read = .error .exhausted := by
  unfold remaining at h
  split at h
  · next hsent =>
    have hlength : c.input.size ≤ c.cursor := by simpa [unread] using h
    rw [read_eq, if_pos hsent, Array.getElem?_eq_none hlength]
  · cases h

end Console

namespace Device

variable {device next : Device} {value : Word}

theorem remaining?_of_read (h : device.read = .ok (value, next)) :
    ∃ rest, device.remaining? = some (value :: rest) ∧ next.remaining? = some rest := by
  cases device with
  | decimal => cases h
  | console c =>
    rw [read_console] at h
    cases hread : c.read with
    | error e => rw [hread] at h; cases h
    | ok result =>
      rw [hread] at h
      cases h
      exact ⟨_, congrArg some (Console.remaining_of_read hread), rfl⟩

theorem read_of_remaining?_nil (h : device.remaining? = some []) :
    device.read = .error .exhausted := by
  cases device with
  | decimal => cases h
  | console c =>
    have hread : c.read = .error .exhausted := Console.read_of_remaining_nil (Option.some.inj h)
    rw [read_console, hread]
    rfl

end Device

namespace Bus

variable {bus bus' : Bus} {pc : Address} {port : Port} {value : Word}

/-- A read takes the first word that remains on its port, and none on another. -/
theorem remaining?_of_read (h : bus.read pc port = .ok (value, bus')) :
    ∃ rest, bus.remaining? port = some (value :: rest) ∧
      ∀ other, bus'.remaining? other = if other = port then some rest else bus.remaining? other := by
  obtain ⟨device, next, hdevice, hread, rfl⟩ := read_eq_ok h
  obtain ⟨rest, hbefore, hafter⟩ := Device.remaining?_of_read hread
  refine ⟨rest, ?_, fun other => ?_⟩
  · rw [remaining?, hdevice]
    exact hbefore
  · rw [remaining?, device?_connect]
    by_cases hother : other = port
    · rw [if_pos hother, if_pos hother]
      exact hafter
    · rw [if_neg hother, if_neg hother]
      rfl

theorem read_of_remaining?_nil (pc : Address) (h : bus.remaining? port = some []) :
    bus.read pc port = .error (.inputExhausted pc) := by
  obtain ⟨device, hdevice, hremaining⟩ := Option.bind_eq_some_iff.mp h
  rw [read_eq, hdevice]
  simp only [Device.read_of_remaining?_nil hremaining]
  rfl

/-- A read leaves every device of the kind that it is. -/
theorem emission?_of_read (h : bus.read pc port = .ok (value, bus')) (other : Port) :
    (bus'.device? other).map Device.emission = (bus.device? other).map Device.emission := by
  obtain ⟨device, next, hdevice, hread, rfl⟩ := read_eq_ok h
  rw [device?_connect]
  by_cases hother : other = port
  · rw [if_pos hother, hother, hdevice, Option.map_some, Option.map_some,
      Device.emission_of_read hread]
  · rw [if_neg hother]

end Bus

/-! ## Fresh devices -/

/-- The numbers that a fresh console delivers: the length of its input, modulo the word size, and
then each byte of it. -/
def Console.sequence (c : Console) : List Nat :=
  c.input.size % UInt32.size :: c.input.toList.map UInt8.toNat

/-- A console with an input of which nothing has been read. -/
def Console.fresh (input : Array UInt8) : Console := { input }

/-- Nothing of the device has been read. -/
def Device.Untouched : Device → Prop
  | .console c => c = .fresh c.input
  | .decimal => True

/-- Nothing has been read and nothing written. Any devices may be on any ports. -/
structure Bus.Fresh (bus : Bus) : Prop where
  output : bus.output = #[]
  devices : ∀ port device, bus.device? port = some device → device.Untouched

theorem Device.untouched_console (input : Array UInt8) : (console (.fresh input)).Untouched := rfl

theorem Console.remaining_of_untouched {c : Console} (h : c = .fresh c.input) :
    c.remaining.map UInt32.toNat = c.sequence := by
  rw [h]
  simp [fresh, remaining, unread, sequence, UInt32.size, Function.comp_def]

namespace Bus

variable {bus : Bus}

theorem fresh_empty : ({} : Bus).Fresh := ⟨rfl, nofun⟩

theorem Fresh.connect {device : Device} (h : bus.Fresh) (port : Port) (hdevice : device.Untouched) :
    (bus.connect port device).Fresh := by
  refine ⟨h.output, fun other found hfound => ?_⟩
  rw [device?_connect] at hfound
  by_cases hother : other = port
  · rw [if_pos hother] at hfound
    cases hfound
    exact hdevice
  · rw [if_neg hother] at hfound
    exact h.devices other found hfound

/-- What is read on the port of a fresh console is the beginning of what the console delivers, and
once that has been read nothing is left. -/
theorem sequence_of_remaining? {bus' : Bus} {port : Port} {c : Console} {values : List Word}
    (h : bus.Fresh) (hdevice : bus.device? port = some (.console c))
    (hremaining : bus.remaining? port = (bus'.remaining? port).map (values ++ ·)) :
    values.map UInt32.toNat <+: c.sequence ∧
      (values.map UInt32.toNat = c.sequence → bus'.remaining? port = some []) := by
  have hbefore : bus.remaining? port = some c.remaining := by
    rw [remaining?, hdevice]
    rfl
  rw [hbefore] at hremaining
  obtain ⟨rest, hrest, hvalues⟩ := Option.map_eq_some_iff.mp hremaining.symm
  have hsequence : values.map UInt32.toNat ++ rest.map UInt32.toNat = c.sequence := by
    rw [← List.map_append, hvalues]
    exact Console.remaining_of_untouched (h.devices port _ hdevice)
  refine ⟨⟨_, hsequence⟩, fun hall => ?_⟩
  have hnil : rest.map UInt32.toNat = [] := by
    rw [← hall] at hsequence
    exact List.append_right_eq_self.mp hsequence
  rw [hrest, List.map_eq_nil_iff.mp hnil]

end Bus

/-! ## What the devices emit -/

/-- The bytes of an ASCII text are the codes of its characters. -/
theorem Text.bytes_of_ascii {text : String} (h : ∀ c ∈ text.toList, c.toNat < 128) :
    text.toUTF8.data.toList = text.toList.map fun c => UInt8.ofNat c.toNat := by
  have hchar : ∀ c ∈ text.toList, String.utf8EncodeChar c = [UInt8.ofNat c.toNat] := by
    intro c hc
    have hsize : c.utf8Size = 1 := Char.utf8Size_eq_one_iff.mpr (Nat.le_of_lt_succ (h c hc))
    rw [String.utf8EncodeChar_eq_singleton hsize]
    rfl
  rw [String.toUTF8_eq_toByteArray, ← String.utf8Encode_toList, List.utf8Encode,
    List.data_toByteArray, List.map_eq_flatMap]
  exact List.flatMap_congr hchar

namespace Device

theorem emission_console (c : Console) (value : Word) :
    (console c).emission value = [UInt8.ofNat (value.toNat % 256)] := by
  show [value.toUInt8] = _
  congr 1
  apply UInt8.toNat_inj.mp
  simp

/-- A decimal printer emits the text of the number and a line feed. -/
theorem emission_decimal (value : Word) :
    decimal.emission value = (toString value.toNat ++ "\n").toUTF8.data.toList := by
  have hchars : (toString value.toNat ++ "\n").toList = Nat.toDigits 10 value.toNat ++ ['\n'] := by
    rw [String.toList_append, Nat.toString_eq_repr, Nat.repr, String.toList_ofList]
    rfl
  have hascii : ∀ c ∈ (toString value.toNat ++ "\n").toList, c.toNat < 128 := by
    intro c hc
    rw [hchars, List.mem_append, List.mem_singleton] at hc
    rcases hc with hc | rfl
    · obtain ⟨d, hd, rfl⟩ := Text.exists_digit_of_mem_toDigits (by decide) hc
      exact (by decide : ∀ d < 10, d.digitChar.toNat < 128) d hd
    · decide
  rw [Text.bytes_of_ascii hascii, hchars]
  rfl

end Device

end Accumulator
