import Std.Data.HashMap
import Accumulator.Assembly.SymbolTable
import Accumulator.Source.Line

/-!
# Layout

The first pass walks the lines with a cursor. An origin moves the cursor and opens a block; every
other statement takes cells from the cursor on. A label is bound to the next cell that is taken,
whatever lies between, or to the last cursor if no cell follows.

* `Walk.step` — one line. A line past the address space takes no cells but moves the cursor; a line
  that meets a cell with an owner is reported at that cell and takes it over.
* `Layout.build` — the blocks of placed lines and the labels, or every error.
-/

namespace Accumulator

/-- A line that takes cells, with the first of them. -/
structure Placed where
  address : Address
  line : Line
  deriving DecidableEq, Repr

/-- The lines placed by one origin. -/
structure Block where
  start : Address
  lines : List Placed
  deriving DecidableEq, Repr

/-- Every label bound and every cell placed. -/
structure Layout where
  labels : SymbolTable
  blocks : List Block
  deriving DecidableEq, Repr

/-- A label whose address is not known yet. -/
structure PendingLabel where
  name : String
  line : Nat
  deriving DecidableEq, Repr

/-- What is known in front of a line. -/
structure Walk where
  /-- The next cell to take. It may lie past the address space. -/
  cursor : Nat := 0
  /-- The labels since the last cell, first one first. -/
  pending : List PendingLabel := []
  labels : SymbolTable := {}
  /-- The line that owns each taken cell. -/
  owners : Std.HashMap Nat Nat := {}
  /-- The blocks before the current one. -/
  closed : Array Block := #[]
  /-- The start of the current block. -/
  start : Address := 0
  /-- The lines of the current block. -/
  lines : Array Placed := #[]
  errors : Array LineError := #[]

namespace Walk

/-- Reports an error. -/
def report (w : Walk) (line : Nat) (error : AssemblyError) : Walk :=
  { w with errors := w.errors.push ⟨line, error⟩ }

/-- Binds a label to the cursor. -/
def bindLabel (w : Walk) (label : PendingLabel) : Walk :=
  match Address.ofNat? w.cursor with
  | none => w.report label.line (.addressOverflow w.cursor)
  | some address =>
    match w.labels.define label.name ⟨label.line, address⟩ with
    | .ok labels => { w with labels }
    | .error first => w.report label.line (.redefinedLabel label.name first.line)

/-- Binds every pending label to the cursor. -/
def bindPending (w : Walk) : Walk :=
  w.pending.foldl bindLabel { w with pending := [] }

/-- Enters a line as the owner of `count` cells from `cell` on. The first of them that has an owner
is the last one entered; it is returned with that owner. -/
def occupy (owners : Std.HashMap Nat Nat) (line cell : Nat) :
    (count : Nat) → Std.HashMap Nat Nat × Option (Nat × Nat)
  | 0 => (owners, none)
  | count + 1 =>
    match owners[cell]? with
    | some owner => (owners.insert cell line, some (cell, owner))
    | none => occupy (owners.insert cell line) line (cell + 1) count

/-- Takes the cells of a line. -/
def place (w : Walk) (line : Line) : Walk :=
  let w := w.bindPending
  let stop := w.cursor + line.size
  if addressSpace < stop then
    { w.report line.number (.addressOverflow (stop - 1)) with cursor := stop }
  else
    let (owners, collision) := occupy w.owners line.number w.cursor line.size
    let w := { w with
      owners
      lines := w.lines.push ⟨UInt16.ofNat w.cursor, line⟩
      cursor := stop }
    match collision with
    | none => w
    | some (cell, owner) => w.report line.number (.overlap cell owner)

/-- The blocks so far, the current one last. -/
def allBlocks (w : Walk) : Array Block := w.closed.push ⟨w.start, w.lines.toList⟩

/-- Opens a block. -/
def moveTo (w : Walk) (address : Address) : Walk :=
  { w with cursor := address.toNat, closed := w.allBlocks, start := address, lines := #[] }

/-- One line. -/
def step (w : Walk) (line : Line) : Walk :=
  let w := { w with pending := w.pending ++ line.labels.map fun name => ⟨name, line.number⟩ }
  match line.statement with
  | none => w
  | some (.origin address) => w.moveTo address
  | some (.words _) | some (.instruction _) => w.place line

/-- All lines, and the end of the program for the labels behind the last cell. -/
def ofLines (lines : List Line) : Walk := (lines.foldl step {}).bindPending

end Walk

namespace Layout

/-- The layout of the lines, or every error. Blocks without lines are left out. -/
def build (lines : List Line) : Except (List LineError) Layout :=
  let w := Walk.ofLines lines
  if w.errors.isEmpty then
    .ok ⟨w.labels, w.allBlocks.toList.filter fun block => !block.lines.isEmpty⟩
  else .error w.errors.toList

/-- Every placed line. -/
def placed (layout : Layout) : List Placed := layout.blocks.flatMap (·.lines)

/-- The first cell of the line with the given number; of the last such line, if there are several. -/
def addressOf? (layout : Layout) (number : Nat) : Option Address :=
  (layout.placed.reverse.find? (·.line.number == number)).map (·.address)

end Layout

end Accumulator
