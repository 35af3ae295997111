import Accumulator.Source.Error
import Accumulator.Source.Operand
import Accumulator.Text.Blank
import Accumulator.Text.Fields

/-!
# Statements

* `Statement` — an origin, a row of data words or an instruction.
* `Statement.read` — the statement of a text; blanks and commas separate its arguments.
* `Statement.size` — the cells it takes.
-/

namespace Accumulator

/-- An instruction as written. -/
structure Code where
  opcode : Opcode
  argument : Argument
  deriving DecidableEq, Repr

/-- A statement. -/
inductive Statement where
  | origin (address : Address)
  | words (items : List Immediate)
  | instruction (code : Code)
  deriving DecidableEq, Repr

/-- The cells that a statement takes. -/
def Statement.size : Statement → Nat
  | .origin _ => 0
  | .words items => items.length
  | .instruction _ => 1

/-- The only argument of an operation. -/
def onlyArgument (operation : List Char) : List (List Char) → Except AssemblyError (List Char)
  | [] => .error (.missingArgument (String.ofList operation))
  | [argument] => .ok argument
  | _ :: extra :: _ => .error (.extraArgument (String.ofList extra))

/-- What a reader makes of an argument, or the complaint that it is not what it had to be. -/
def readArgument {α : Type} (reader : List Char → Option α) (role : ArgumentRole)
    (argument : List Char) : Except AssemblyError α :=
  match reader argument with
  | some value => .ok value
  | none => .error (.unreadableArgument (String.ofList argument) role)

namespace Code

/-- The mode of the instruction. -/
def mode (code : Code) : Mode := code.argument.mode

/-- The instruction in its colours. -/
def coloured (code : Code) : String :=
  Text.paint [.red] (Text.padRight 6 code.opcode.name) ++ code.argument.coloured

/-- The operations that take an immediate value under a name of their own. -/
def immediateOperation? (name : String) : Option Opcode :=
  match name with
  | "LOADI" => some .load
  | "ADDI" => some .add
  | "ANDI" => some .and
  | "CMPI" => some .compare
  | _ => none

/-- The argument of an operation of the given kind. -/
def readOperand (kind : OperandKind) (operation : List Char) (arguments : List (List Char)) :
    Except AssemblyError Argument :=
  match kind with
  | .none =>
    match arguments with
    | [] => .ok .none
    | extra :: _ => .error (.extraArgument (String.ofList extra))
  | .port => do readArgument Argument.readPort? .port (← onlyArgument operation arguments)
  | .address | .value => do
    readArgument Argument.readAddress? .address (← onlyArgument operation arguments)

/-- The instruction with the given operation and arguments. -/
def read (operation : List Char) (arguments : List (List Char)) : Except AssemblyError Code :=
  match immediateOperation? (String.ofList (operation.map Char.toUpper)) with
  | some opcode => do
    let argument ← onlyArgument operation arguments
    let value ← readArgument Argument.readImmediate? .immediate argument
    .ok ⟨opcode, value⟩
  | none =>
    match Opcode.ofMnemonic? operation with
    | none => .error (.unknownOperation (String.ofList operation))
    | some opcode => do
      let argument ← readOperand opcode.operandKind operation arguments
      .ok ⟨opcode, argument⟩

end Code

namespace Statement

/-- The origin that an argument denotes. -/
def readOrigin? (text : List Char) : Option Address :=
  (Numeral.read? text).bind fun value => Address.ofNat? value.toNat

/-- Whether a character separates arguments. -/
def separatesArguments (c : Char) : Bool := c == ',' || Text.isBlank c

/-- The statement with the given operation and arguments. -/
def ofParts (operation : List Char) (arguments : List (List Char)) :
    Except AssemblyError Statement :=
  match String.ofList (operation.map Char.toUpper) with
  | "ORG" => do
    let argument ← onlyArgument operation arguments
    let address ← readArgument readOrigin? .address argument
    .ok (.origin address)
  | "WORD" =>
    match arguments with
    | [] => .error (.missingArgument (String.ofList operation))
    | _ => do
      let items ← arguments.mapM (readArgument Immediate.read? .word)
      .ok (.words items)
  | _ => do
    let code ← Code.read operation arguments
    .ok (.instruction code)

/-- The statement of a text, if it holds one. The operation ends at the first blank. -/
def read (text : List Char) : Except AssemblyError (Option Statement) :=
  match Text.trim text with
  | [] => .ok none
  | text => do
    let operation := text.takeWhile fun c => !Text.isBlank c
    let rest := text.dropWhile fun c => !Text.isBlank c
    let statement ← ofParts operation (Text.fields separatesArguments rest)
    .ok (some statement)

end Statement

end Accumulator
