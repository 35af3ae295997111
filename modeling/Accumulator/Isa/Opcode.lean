import Accumulator.Word

/-!
# Opcodes and addressing modes

* `Opcode` — the seventeen operations, each with a code byte and a canonical name.
* `Mode` — how the operand field of an instruction word is read.
* `OperandKind` — the shape of operand that an operation takes; `OperandKind.allows` says which
  modes fit it.
* `Opcode.ofMnemonic?` — reads an operation in any letter case, canonical name or alias.
-/

namespace Accumulator

/-- An operation of the machine. -/
inductive Opcode where
  | input
  | output
  | load
  | store
  | add
  | increment
  | and
  | compare
  | shiftLeft
  | shiftRight
  | jumpZeroClear
  | jumpZeroSet
  | jumpCarrySet
  | jumpCarryClear
  | jump
  | nop
  | halt
  deriving DecidableEq, Repr

/-- How the operand field is read. Relative and indirect operands count from the next cell. -/
inductive Mode where
  | implied
  | immediate
  | absolute
  | relative
  | indirect
  deriving DecidableEq, Repr

/-- The shape of operand that an operation takes. -/
inductive OperandKind where
  | none
  | port
  | address
  | value
  deriving DecidableEq, Repr

namespace Opcode

/-- Every operation, in code order. -/
def all : List Opcode :=
  [.input, .output, .load, .store, .add, .increment, .and, .compare, .shiftLeft, .shiftRight,
    .jumpZeroClear, .jumpZeroSet, .jumpCarrySet, .jumpCarryClear, .jump, .nop, .halt]

/-- The byte that stands for the operation in an instruction word. -/
def code : Opcode → UInt8
  | .input => 0x01
  | .output => 0x02
  | .load => 0x03
  | .store => 0x04
  | .add => 0x05
  | .increment => 0x06
  | .and => 0x07
  | .compare => 0x08
  | .shiftLeft => 0x09
  | .shiftRight => 0x0A
  | .jumpZeroClear => 0x0B
  | .jumpZeroSet => 0x0C
  | .jumpCarrySet => 0x0D
  | .jumpCarryClear => 0x0E
  | .jump => 0x0F
  | .nop => 0x10
  | .halt => 0x11

/-- The canonical name. -/
def name : Opcode → String
  | .input => "IN"
  | .output => "OUT"
  | .load => "LOAD"
  | .store => "STORE"
  | .add => "ADD"
  | .increment => "INC"
  | .and => "AND"
  | .compare => "CMP"
  | .shiftLeft => "SHL"
  | .shiftRight => "SHR"
  | .jumpZeroClear => "JZC"
  | .jumpZeroSet => "JZS"
  | .jumpCarrySet => "JCS"
  | .jumpCarryClear => "JCC"
  | .jump => "JUMP"
  | .nop => "NOP"
  | .halt => "HALT"

/-- The names besides the canonical one. -/
def aliases : Opcode → List String
  | .shiftLeft => ["SHIFT_LEFT"]
  | .shiftRight => ["SHIFT_RIGHT"]
  | .jumpZeroSet => ["JZ"]
  | .jumpCarrySet => ["JC"]
  | _ => []

/-- The shape of operand that the operation takes. -/
def operandKind : Opcode → OperandKind
  | .input | .output => .port
  | .load | .add | .and | .compare => .value
  | .store | .jumpZeroClear | .jumpZeroSet | .jumpCarrySet | .jumpCarryClear | .jump => .address
  | .increment | .shiftLeft | .shiftRight | .nop | .halt => .none

/-- The operation with the given code byte. -/
def ofCode? (byte : UInt8) : Option Opcode := all.find? (·.code == byte)

/-- The operation with the given canonical name. -/
def ofName? (text : String) : Option Opcode := all.find? (·.name == text)

/-- The operation that a mnemonic names, in any case of the ASCII letters. -/
def ofMnemonic? (text : List Char) : Option Opcode :=
  let upper := String.ofList (text.map Char.toUpper)
  all.find? fun op => op.name == upper || op.aliases.contains upper

@[simp] theorem ofCode?_code (op : Opcode) : ofCode? op.code = some op := by cases op <;> decide

@[simp] theorem ofName?_name (op : Opcode) : ofName? op.name = some op := by cases op <;> decide

end Opcode

namespace Mode

/-- Every mode, in code order. -/
def all : List Mode := [.implied, .immediate, .absolute, .relative, .indirect]

/-- The byte that stands for the mode in an instruction word. -/
def code : Mode → UInt8
  | .implied => 0
  | .immediate => 1
  | .absolute => 2
  | .relative => 3
  | .indirect => 4

/-- The name of the mode. -/
def name : Mode → String
  | .implied => "implied"
  | .immediate => "immediate"
  | .absolute => "absolute"
  | .relative => "relative"
  | .indirect => "indirect"

/-- The mode with the given code byte. -/
def ofCode? (byte : UInt8) : Option Mode := all.find? (·.code == byte)

/-- The mode with the given name. -/
def ofName? (text : String) : Option Mode := all.find? (·.name == text)

@[simp] theorem ofCode?_code (mode : Mode) : ofCode? mode.code = some mode := by
  cases mode <;> decide

@[simp] theorem ofName?_name (mode : Mode) : ofName? mode.name = some mode := by
  cases mode <;> decide

end Mode

/-- Whether an operand of this kind may be written in the given mode. -/
def OperandKind.allows : OperandKind → Mode → Bool
  | .none, .implied => true
  | .port, .immediate => true
  | .address, .absolute | .address, .relative | .address, .indirect => true
  | .value, .immediate | .value, .absolute | .value, .relative | .value, .indirect => true
  | _, _ => false

end Accumulator
