import Accumulator.Isa.Register
import Accumulator.Machine.Device
import Accumulator.Program.Basic

/-!
# The machine

* `Machine` — memory, registers, status and bus.
* `Machine.reset` — a machine with cleared memory.
* `Machine.loading`, `Machine.load` — writes a program into memory, if all of it may be written.
-/

namespace Accumulator

/-- How far a machine has come. -/
inductive Status where
  | ready
  | running
  | halted
  | faulted (fault : Fault)
  deriving DecidableEq, Repr

/-- The state of a machine. -/
structure Machine where
  memory : Array Word
  accumulator : Word := 0
  /-- The address of the next instruction. It is one past the address space after the last cell of
  a full memory. -/
  pc : Nat := 0
  flags : Flags := {}
  status : Status := .ready
  bus : Bus := {}
  deriving DecidableEq, Repr

namespace Machine

/-- A machine with `memorySize` cleared words. -/
def reset (memorySize : Nat) (bus : Bus) : Machine :=
  { memory := Array.replicate memorySize 0, bus }

/-- The number of words in memory. -/
def memorySize (m : Machine) : Nat := m.memory.size

/-- The word in a cell. -/
def word? (m : Machine) (address : Address) : Option Word := m.memory[address.toNat]?

/-- Everything written so far. -/
def output (m : Machine) : Array UInt8 := m.bus.output

/-- Memory with the given cells written, in order. -/
def writeCells (memory : Array Word) (cells : List (Nat × Word)) : Array Word :=
  cells.foldl (fun memory cell => memory.setIfInBounds cell.1 cell.2) memory

/-- Writes a program into memory. Nothing is written unless all of it may be. -/
def loading (p : Program) : EStateM ProgramError Machine Unit := fun m =>
  match p.validate m.memorySize with
  | .ok () => .ok () { m with memory := writeCells m.memory p.cells }
  | .error error => .error error m

/-- The machine with a program in memory. -/
def load (m : Machine) (p : Program) : Except ProgramError Machine :=
  (answer (loading p) m).map (·.2)

theorem load_eq (m : Machine) (p : Program) : m.load p =
    match p.validate m.memorySize with
    | .ok () => .ok { m with memory := writeCells m.memory p.cells }
    | .error error => .error error := by
  unfold load answer loading
  cases p.validate m.memorySize <;> rfl

/-- Stops the machine with a fault. -/
def abort (m : Machine) (fault : Fault) : Machine := { m with status := .faulted fault }

end Machine

end Accumulator
