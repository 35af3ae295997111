import Accumulator.Isa.Arithmetic
import Accumulator.Machine.Basic
import Accumulator.Machine.Effect

/-!
# Executing one instruction

* `Machine.effectiveAddress` — the address that an operand denotes for the instruction at `pc`. Relative
  and indirect operands count from the next cell, modulo the address space.
* `Execution` — a computation on a machine that may fault. What it did before the fault stays done,
  so an instruction has to find its faults first.
* `Lookup` — answers to what an instruction asks about its operand; `Lookup.standard`, those of the machine.
* `Execution.executeBy` — what each operation does, its effects and where it jumps, by such answers.
* `Machine.stepBy`, `Machine.step` — fetches, decodes and executes one instruction.
-/

namespace Accumulator

namespace Machine

/-- The word in a cell. -/
def readCell (m : Machine) (pc address : Address) : Except Fault Word :=
  match m.word? address with
  | some word => .ok word
  | none => .error (.addressOutOfRange pc address.toUInt32)

/-- The address that an operand denotes. No decoded instruction asks it for another mode than the
three that write addresses. -/
def effectiveAddress (m : Machine) (pc : Address) (i : Instruction) : Except Fault Address :=
  match i.mode with
  | .absolute => .ok i.operand
  | .relative => .ok (pc + 1 + i.operand)
  | .indirect =>
    match m.readCell pc (pc + 1 + i.operand) with
    | .error fault => .error fault
    | .ok pointer =>
      match Address.ofNat? pointer.toNat with
      | some address => .ok address
      | none => .error (.addressOutOfRange pc pointer)
  | .implied | .immediate => .ok i.operand

/-- The address and the word of the next instruction. -/
def fetch (m : Machine) : Except Fault (Address × Word) :=
  match Address.ofNat? m.pc with
  | none => .error (.pcOutOfRange m.pc)
  | some pc =>
    match m.word? pc with
    | none => .error (.pcOutOfRange m.pc)
    | some word => .ok (pc, word)

end Machine

/-- The instruction of a word fetched at `pc`. -/
def Instruction.decodeAt (pc : Address) (word : Word) : Except Fault Instruction :=
  (Instruction.decode word).mapError (.illegalInstruction pc word)

/-- The port of an instruction fetched as `word` at `pc`. -/
def Instruction.port (i : Instruction) (pc : Address) (word : Word) : Except Fault Port :=
  match Port.ofNat? i.operand.toNat with
  | some port => .ok port
  | none => .error (.illegalInstruction pc word (.portOutOfRange i.operand))

/-- A computation on a machine that may fault. -/
abbrev Execution := EStateM Fault Machine

/-- Answers to what an instruction asks about its operand: the port that it names, and the address that it
denotes. -/
structure Lookup where
  port : Address → Word → Instruction → Execution Port
  address : Address → Instruction → Execution Address

/-- What an instruction leaves behind: its effects, and the target of a taken jump. -/
structure Completion where
  effects : List Effect
  target : Option Address := none
  deriving DecidableEq, Repr

namespace Execution

/-- What a function of the machine yields. -/
def observe {α : Type} (reader : Machine → Except Fault α) : Execution α := fun m =>
  match reader m with
  | .ok value => .ok value m
  | .error fault => .error fault m

/-- Writes a cell. -/
def writeCell (pc address : Address) (value : Word) : Execution Unit := fun m =>
  if address.toNat < m.memorySize then
    .ok () { m with memory := m.memory.setIfInBounds address.toNat value }
  else .error (.addressOutOfRange pc address.toUInt32) m

/-- Reads the next word from a port. -/
def readPort (pc : Address) (port : Port) : Execution Word := fun m =>
  match Bus.next pc port m.bus with
  | .ok value bus => .ok value { m with bus }
  | .error fault bus => .error fault { m with bus }

/-- Writes a word to a port. -/
def writePort (pc : Address) (port : Port) (value : Word) : Execution Unit := fun m =>
  match m.bus.emission pc port value with
  | .ok bytes => .ok () { m with bus := m.bus.emit bytes }
  | .error fault => .error fault m

/-- Sets the accumulator. -/
def setAccumulator (value : Word) : Execution (List Effect) := fun m =>
  .ok [.accumulator value] { m with accumulator := value }

/-- Sets the flags from a result. -/
def setFlags (result : ArithmeticResult) : Execution (List Effect) := fun m =>
  let flags : Flags := ⟨result.zero, result.carry⟩
  .ok [.flags flags] { m with flags }

/-- Replaces the accumulator by the result of an operation on it. -/
def calculate (op : Operation) (operand : Word) : Execution Completion := do
  let result := op.apply (← get).accumulator operand
  let value ← setAccumulator result.value
  let flags ← setFlags result
  pure { effects := value ++ flags }

/-- The value that an operand denotes: the operand itself, or the word in the cell it denotes. -/
def valueBy (l : Lookup) (pc : Address) (i : Instruction) : Execution Word :=
  match i.mode with
  | .immediate => pure i.operand.toUInt32
  | _ => do
    let address ← l.address pc i
    observe (·.readCell pc address)

/-- Jumps if the condition holds. The target of a jump that is not taken is never looked at. -/
def jumpBy (l : Lookup) (taken : Bool) (pc : Address) (i : Instruction) : Execution Completion :=
  if taken then do
    let target ← l.address pc i
    pure { effects := [.jump target], target := some target }
  else pure { effects := [] }

/-- What the instruction `i`, fetched as `word` at `pc`, does. -/
def executeBy (l : Lookup) (pc : Address) (word : Word) (i : Instruction) : Execution Completion :=
  match i.opcode with
  | .input => do
    let port ← l.port pc word i
    let value ← readPort pc port
    let effects ← setAccumulator value
    pure { effects := .input port value :: effects }
  | .output => do
    let port ← l.port pc word i
    let value := (← get).accumulator
    writePort pc port value
    pure { effects := [.output port value] }
  | .load => do
    let value ← valueBy l pc i
    let effects ← setAccumulator value
    pure { effects }
  | .store => do
    let address ← l.address pc i
    let value := (← get).accumulator
    writeCell pc address value
    pure { effects := [.store address value] }
  | .add => do
    let value ← valueBy l pc i
    calculate .add value
  | .increment => calculate .add 1
  | .and => do
    let value ← valueBy l pc i
    calculate .and value
  | .compare => do
    let value ← valueBy l pc i
    let effects ← setFlags (Operation.subtract.apply (← get).accumulator value)
    pure { effects }
  | .shiftLeft => calculate .shiftLeft 0
  | .shiftRight => calculate .shiftRight 0
  | .jumpZeroClear => do jumpBy l (!(← get).flags.zero) pc i
  | .jumpZeroSet => do jumpBy l (← get).flags.zero pc i
  | .jumpCarrySet => do jumpBy l (← get).flags.carry pc i
  | .jumpCarryClear => do jumpBy l (!(← get).flags.carry) pc i
  | .jump => jumpBy l true pc i
  | .nop => pure { effects := [] }
  | .halt => pure { effects := [.halted] }

/-- Moves the program counter to the target of a taken jump, else by one. -/
def moveOn (completion : Completion) : Execution Unit := fun m =>
  .ok () { m with pc := match completion.target with
    | some target => target.toNat
    | none => m.pc + 1 }

/-- One instruction. The program counter moves last. -/
def retireBy (l : Lookup) : Execution Retired := do
  let (pc, word) ← observe Machine.fetch
  let i ← observe fun _ => Instruction.decodeAt pc word
  let completion ← executeBy l pc word i
  moveOn completion
  pure ⟨pc, i, completion.effects⟩

end Execution

/-- What came of a step. -/
inductive Progress where
  | retired (retired : Retired)
  | halted
  | faulted (fault : Fault)
  deriving DecidableEq, Repr

/-- One step. A halted machine stays as it is, and a faulted one reports its fault again. -/
def Machine.stepBy (l : Lookup) (m : Machine) : Progress × Machine :=
  match m.status with
  | .halted => (.halted, m)
  | .faulted fault => (.faulted fault, m)
  | .ready | .running =>
    match Execution.retireBy l { m with status := .running } with
    | .ok retired m =>
      if retired.instruction.opcode = .halt then (.retired retired, { m with status := .halted })
      else (.retired retired, m)
    | .error fault m => (.faulted fault, m.abort fault)

/-! ## The answers of the machine -/

/-- The answers of the machine. -/
def Lookup.standard : Lookup where
  port pc word i := Execution.observe fun _ => i.port pc word
  address pc i := Execution.observe (·.effectiveAddress pc i)

/-- The value that an operand denotes. -/
def Machine.operandValue (m : Machine) (pc : Address) (i : Instruction) : Except Fault Word :=
  (answer (Execution.valueBy .standard pc i) m).map (·.1)

namespace Execution

/-- Jumps if the condition holds. -/
def jumpIf (taken : Bool) (pc : Address) (i : Instruction) : Execution Completion :=
  jumpBy .standard taken pc i

/-- What the instruction `i`, fetched as `word` at `pc`, does. -/
def execute (pc : Address) (word : Word) (i : Instruction) : Execution Completion :=
  executeBy .standard pc word i

/-- One instruction. -/
def retire : Execution Retired := retireBy .standard

end Execution

/-- One step of the machine. -/
def Machine.step (m : Machine) : Progress × Machine := m.stepBy .standard

end Accumulator
