import Accumulator.Computation
import Accumulator.Machine.Fault

/-!
# Devices and the bus

* `Console` — reads yield the length of the input and then its bytes; writes emit the low byte.
* `Device` — a console, or a decimal printer, which cannot be read.
* `Bus` — the devices on their ports and the output of all of them, in the order of the writes.
* `Console.next`, `Device.next`, `Bus.next` — a read as a computation, which has a device behind it also
  where it fails; `Bus.restores_next` — that one is as it was.
-/

namespace Accumulator

/-- A console with its input. -/
structure Console where
  input : Array UInt8
  /-- Whether the length of the input has been read. -/
  lengthSent : Bool := false
  /-- The number of bytes that have been read. -/
  cursor : Nat := 0
  deriving DecidableEq, Repr

/-- Why a device cannot be read. -/
inductive DeviceError where
  | writeOnly
  | exhausted
  deriving DecidableEq, Repr

/-- The next word of a console: the length of its input first, modulo the word size. -/
def Console.next : EStateM DeviceError Console Word := fun c =>
  if c.lengthSent then
    match c.input[c.cursor]? with
    | some byte => .ok byte.toUInt32 { c with cursor := c.cursor + 1 }
    | none => .error .exhausted c
  else .ok (UInt32.ofNat c.input.size) { c with lengthSent := true }

/-- The next word of a console, and the console behind it. -/
def Console.read (c : Console) : Except DeviceError (Word × Console) := answer next c

theorem Console.read_eq (c : Console) : c.read =
    if c.lengthSent then
      match c.input[c.cursor]? with
      | some byte => .ok (byte.toUInt32, { c with cursor := c.cursor + 1 })
      | none => .error .exhausted
    else .ok (UInt32.ofNat c.input.size, { c with lengthSent := true }) := by
  unfold read answer next
  cases c.lengthSent with
  | true => cases c.input[c.cursor]? <;> rfl
  | false => rfl

theorem Console.restores_next : Restores next := by
  intro c c' error h
  unfold next at h
  split at h
  · split at h <;> cases h
    rfl
  · cases h

/-- A device. -/
inductive Device where
  | console (console : Console)
  | decimal
  deriving DecidableEq, Repr

namespace Device

/-- The next word of a device. -/
def next : EStateM DeviceError Device Word
  | console c =>
    match Console.next c with
    | .ok value c => .ok value (console c)
    | .error error c => .error error (console c)
  | decimal => .error .writeOnly decimal

/-- The next word of a device, and the device behind it. -/
def read (device : Device) : Except DeviceError (Word × Device) := answer next device

theorem read_console (c : Console) :
    (console c).read = c.read.map fun (value, c) => (value, console c) := by
  simp only [read, Console.read, answer, next]
  cases Console.next c <;> rfl

theorem restores_next : Restores next := by
  intro device device' error h
  cases device with
  | console c =>
    rw [next] at h
    split at h <;> cases h
    next hc => rw [Console.restores_next hc]
  | decimal =>
    cases h
    rfl

/-- The bytes that a device emits for a word. -/
def emission : Device → Word → List UInt8
  | console _, value => [value.toUInt8]
  | decimal, value => ((Nat.toDigits 10 value.toNat) ++ ['\n']).map fun c => UInt8.ofNat c.toNat

end Device

/-- The devices, and the output so far. -/
structure Bus where
  /-- Each port with a device, and that device. -/
  devices : List (Port × Device) := []
  output : Array UInt8 := #[]
  deriving DecidableEq, Repr

namespace Bus

/-- Puts a device on a port, in the place of the one that is there. -/
def assign (port : Port) (device : Device) : List (Port × Device) → List (Port × Device)
  | [] => [(port, device)]
  | entry :: rest =>
    if entry.1 = port then (port, device) :: rest else entry :: assign port device rest

/-- The device on a port. -/
def device? (bus : Bus) (port : Port) : Option Device := bus.devices.lookup port

/-- Connects a device. -/
def connect (bus : Bus) (port : Port) (device : Device) : Bus :=
  { bus with devices := assign port device bus.devices }

/-- The usual devices: a console on port 0 and a decimal printer on port 1. -/
def standard (input : Array UInt8) : Bus :=
  (({} : Bus).connect 0 (.console { input })).connect 1 .decimal

/-- The fault of the instruction at `pc` that a device error becomes. -/
def faultOf (pc : Address) (port : Port) : DeviceError → Fault
  | .writeOnly => .writeOnly pc port
  | .exhausted => .inputExhausted pc

/-- The next word from a port. What a read makes of the device stays, also if it is refused. -/
def next (pc : Address) (port : Port) : EStateM Fault Bus Word := fun bus =>
  match bus.device? port with
  | none => .error (.noDevice pc port) bus
  | some device =>
    match Device.next device with
    | .ok value device => .ok value (bus.connect port device)
    | .error error device => .error (faultOf pc port error) (bus.connect port device)

/-- The next word from a port, and the bus after the read. -/
def read (bus : Bus) (pc : Address) (port : Port) : Except Fault (Word × Bus) :=
  answer (next pc port) bus

theorem read_eq (bus : Bus) (pc : Address) (port : Port) : bus.read pc port =
    match bus.device? port with
    | none => .error (.noDevice pc port)
    | some device =>
      match device.read with
      | .ok (value, device) => .ok (value, bus.connect port device)
      | .error error => .error (faultOf pc port error) := by
  simp only [read, Device.read, answer, next]
  cases bus.device? port with
  | none => rfl
  | some device =>
    dsimp only
    cases Device.next device <;> rfl

/-- The bytes that a write to a port emits. -/
def emission (bus : Bus) (pc : Address) (port : Port) (value : Word) : Except Fault (List UInt8) :=
  match bus.device? port with
  | none => .error (.noDevice pc port)
  | some device => .ok (device.emission value)

/-- Puts bytes behind the output. -/
def emit (bus : Bus) (bytes : List UInt8) : Bus := { bus with output := bus.output ++ bytes }

/-- The bus after a write. -/
def write (bus : Bus) (pc : Address) (port : Port) (value : Word) : Except Fault Bus :=
  (bus.emission pc port value).map bus.emit

theorem lookup_assign (port other : Port) (device : Device) (devices : List (Port × Device)) :
    (assign port device devices).lookup other =
      if other = port then some device else devices.lookup other := by
  induction devices with
  | nil => by_cases h : other = port <;> simp [assign, List.lookup_cons, h, beq_false_of_ne]
  | cons entry rest ih =>
    obtain ⟨p, d⟩ := entry
    by_cases hp : p = port <;> by_cases h : other = port <;> by_cases ho : other = p <;>
      simp_all [assign, List.lookup_cons, beq_false_of_ne]

theorem device?_connect (bus : Bus) (port other : Port) (device : Device) :
    (bus.connect port device).device? other =
      if other = port then some device else bus.device? other :=
  lookup_assign port other device bus.devices

/-- A device that is on its port already changes nothing there. -/
theorem assign_of_lookup {port : Port} {device : Device} {devices : List (Port × Device)}
    (h : devices.lookup port = some device) : assign port device devices = devices := by
  induction devices with
  | nil => cases h
  | cons entry rest ih =>
    obtain ⟨p, d⟩ := entry
    by_cases hp : port = p
    · obtain rfl := hp
      rw [List.lookup_cons_self] at h
      cases h
      exact if_pos rfl
    · rw [List.lookup_cons, beq_false_of_ne hp] at h
      rw [assign, if_neg (Ne.symm hp), ih h]

theorem connect_of_device? {bus : Bus} {port : Port} {device : Device}
    (h : bus.device? port = some device) : bus.connect port device = bus := by
  rw [connect, assign_of_lookup h]

/-- **A read that fails leaves the bus as it was.** -/
theorem restores_next (pc : Address) (port : Port) : Restores (next pc port) := by
  intro bus bus' fault h
  unfold next at h
  split at h
  · cases h
    rfl
  · next hdevice =>
    split at h <;> cases h
    next hnext =>
      obtain rfl := Device.restores_next hnext
      exact connect_of_device? hdevice

end Bus

end Accumulator
