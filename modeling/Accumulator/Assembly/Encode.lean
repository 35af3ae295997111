import Accumulator.Assembly.Layout
import Accumulator.Collect
import Accumulator.Program.Basic

/-!
# Encoding

The second pass replaces labels by their addresses.

* `Immediate.resolve` — the value of an immediate.
* `Code.resolve` — the instruction of a line. A relative or indirect operand is the distance from
  the next cell, modulo the address space.
* `Layout.encode` — the program of a layout, or one error for each line with a label that is not
  defined.
* `assemble` — the program of a source.
-/

namespace Accumulator

/-- The value of an immediate. -/
def Immediate.resolve (labels : SymbolTable) : Immediate → Except AssemblyError Word
  | .literal value => .ok value
  | .label name =>
    match labels.address? name with
    | some address => .ok address.toUInt32
    | none => .error (.undefinedLabel name)

/-- The operand field of an argument in the cell `address`. -/
def Argument.resolve (labels : SymbolTable) (address : Address) :
    Argument → Except AssemblyError UInt16
  | .none => .ok 0
  | .port number => .ok number.toUInt16
  | .immediate value => (value.resolve labels).map (·.toUInt16)
  | .address .absolute target => (target.resolve labels).map (·.toUInt16)
  | .address .relative target | .address .indirect target =>
    (target.resolve labels).map (·.toUInt16 - (address + 1))

/-- The instruction of a line in the cell `address`. -/
def Code.resolve (labels : SymbolTable) (address : Address) (code : Code) :
    Except AssemblyError Instruction :=
  (code.argument.resolve labels address).map (⟨code.opcode, code.mode, ·⟩)

/-- The cells of a statement that starts at `address`. -/
def Statement.resolve (labels : SymbolTable) (address : Address) :
    Statement → Except AssemblyError (List Item)
  | .origin _ => .ok []
  | .words items => items.mapM fun item => (item.resolve labels).map .data
  | .instruction code => (code.resolve labels address).map ([.command ·])

/-- The cells of a placed line. -/
def Placed.resolve (labels : SymbolTable) (placed : Placed) : Except LineError (List Item) :=
  match placed.line.statement with
  | none => .ok []
  | some statement =>
    (statement.resolve labels placed.address).mapError (⟨placed.line.number, ·⟩)

/-- The section of a block, or every error in it. -/
def Block.resolve (labels : SymbolTable) (block : Block) : Except (List LineError) Section :=
  (collect (block.lines.map (Placed.resolve labels))).map (⟨block.start, ·.flatten⟩)

/-- The program of a layout. -/
def Layout.encode (layout : Layout) : Except (List LineError) Program :=
  match collect (layout.blocks.map (Block.resolve layout.labels)) with
  | .ok sections => .ok (.ofSections sections)
  | .error errors => .error errors.flatten

/-- The program of a source, or the errors of the first stage that fails: reading, layout,
encoding. -/
def assemble (source : String) : Except (List LineError) Program := do
  let lines ← Line.readAll source
  let layout ← Layout.build lines
  layout.encode

end Accumulator
