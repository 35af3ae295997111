import Accumulator.Json.Reader
import Accumulator.Program.Basic

/-!
# Artifacts

An artifact is a program as a JSON text with a line feed behind it.

* `Program.toJson`, `Program.artifact` — the text of a program.
* `Program.ofJson?`, `Program.decode` — reads it back. A record may also be written as the array of its
  fields, and an opcode or mode as an object that maps its name to null. What is refused is refused in
  words of the reader.
* `Program.ofArtifact` — checks the version too, once the rest is well formed.
-/

namespace Accumulator

/-- The value of an instruction. -/
def Instruction.toJson (i : Instruction) : Json :=
  .object [("opcode", .string i.opcode.name), ("mode", .string i.mode.name),
    ("operand", .number i.operand.toNat)]

/-- The value of a cell. -/
def Item.toJson : Item → Json
  | .command instruction => .object [("command", instruction.toJson)]
  | .data word => .object [("data", .number word.toNat)]

/-- The value of a section. -/
def Section.toJson (s : Section) : Json :=
  .object [("start", .number s.start.toNat), ("items", .array (s.items.map Item.toJson))]

namespace Json

/-- A natural number below `bound`. -/
def below? (bound : Nat) : Json → Option Nat
  | .number value => if value < bound then some value else none
  | _ => none

/-- The name of an alternative without content. -/
def alternative? : Json → Option String
  | .string name => some name
  | .object [(name, .null)] => some name
  | _ => none

/-- The values of a record's fields: an object with exactly these names, or an array of as many
values. -/
def fields? (names : List String) : Json → Option (List Json)
  | .object members =>
    if members.length = names.length then names.mapM fun name => members.lookup name else none
  | .array values => if values.length = names.length then some values else none
  | _ => none

end Json

/-- The instruction that a value describes. Its mode need not fit its opcode. -/
def Instruction.ofJson? (json : Json) : Option Instruction :=
  match json.fields? ["opcode", "mode", "operand"] with
  | some [opcode, mode, operand] => do
    let opcode ← Opcode.ofName? (← opcode.alternative?)
    let mode ← Mode.ofName? (← mode.alternative?)
    let operand ← operand.below? UInt16.size
    some ⟨opcode, mode, UInt16.ofNat operand⟩
  | _ => none

/-- The cell that a value describes. -/
def Item.ofJson? : Json → Option Item
  | .object [("command", value)] => (Instruction.ofJson? value).map .command
  | .object [("data", value)] => (value.below? UInt32.size).map fun word => .data (UInt32.ofNat word)
  | _ => none

/-- The section that a value describes. -/
def Section.ofJson? (json : Json) : Option Section :=
  match json.fields? ["start", "items"] with
  | some [start, .array items] => do
    let start ← start.below? UInt16.size
    let items ← items.mapM Item.ofJson?
    some ⟨UInt16.ofNat start, items⟩
  | _ => none

namespace Program

/-- The value of a program. -/
def toJson (p : Program) : Json :=
  .object [("version", .number p.version.toNat), ("sections", .array (p.sections.map Section.toJson))]

/-- The artifact of a program. -/
def artifact (p : Program) : String := p.toJson.render ++ "\n"

/-- The program that a value describes, in whatever version. -/
def ofJson? (json : Json) : Option Program :=
  match json.fields? ["version", "sections"] with
  | some [version, .array sections] => do
    let version ← version.below? UInt32.size
    let sections ← sections.mapM Section.ofJson?
    some ⟨UInt32.ofNat version, sections⟩
  | _ => none

/-- The program that bytes hold, in whatever version, or why they hold none. -/
def decode (bytes : ByteArray) : Except String Program :=
  match String.fromUTF8? bytes with
  | none => .error "the bytes are not UTF-8"
  | some text =>
    match Json.read? text.toList with
    | none => .error "the text is not JSON"
    | some json =>
      match ofJson? json with
      | none => .error "the value is not a program"
      | some p => .ok p

/-- The program of an artifact. -/
def ofArtifact (bytes : ByteArray) : Except ProgramError Program :=
  match decode bytes with
  | .error reason => .error (@ProgramError.malformed reason)
  | .ok p => if p.version = formatVersion then .ok p else .error (.unsupportedVersion p.version)

end Program

end Accumulator
