import Accumulator.Isa.Instruction

/-!
# Programs

A program is a list of sections, each a run of consecutive cells.

* `Program.cells` — every address with its word, in section order.
* `Program.validate` — whether a program may be written into a memory: every section fits, and no
  cell is written twice. The first section that does not fit is reported before any overlap, and of
  the overlaps the lowest cell.
-/

namespace Accumulator

/-- The content of a cell. -/
inductive Item where
  | command (instruction : Instruction)
  | data (word : Word)
  deriving DecidableEq, Repr

/-- The word in memory. -/
def Item.word : Item → Word
  | .command instruction => instruction.encode
  | .data word => word

/-- Consecutive cells from `start` on. -/
structure Section where
  start : Address
  items : List Item
  deriving DecidableEq, Repr

/-- One past the last cell. -/
def Section.stop (s : Section) : Nat := s.start.toNat + s.items.length

/-- Every cell of the section. -/
def Section.cells (s : Section) : List (Nat × Word) :=
  (s.items.zipIdx s.start.toNat).map fun (item, address) => (address, item.word)

/-- A program with the version of its format. -/
structure Program where
  version : UInt32
  sections : List Section
  deriving DecidableEq, Repr

/-- Why a program is refused. -/
inductive ProgramError where
  /-- The bytes hold no program, for the reason that their reader gives. -/
  | malformed {reason : String}
  | unsupportedVersion (found : UInt32)
  | doesNotFit (start : Address) (length memorySize : Nat)
  | overlap (cell : Nat)
  deriving DecidableEq, Repr

namespace Program

/-- The version of the format that is read and written. -/
def formatVersion : UInt32 := 1

/-- A program in the current format. -/
def ofSections (sections : List Section) : Program := ⟨formatVersion, sections⟩

/-- Every cell, in section order. An address may lie past the address space. -/
def cells (p : Program) : List (Nat × Word) := p.sections.flatMap Section.cells

/-- A stretch of cells, its start first. -/
abbrev Span := Nat × Nat

/-- The order of spans by start, then by end. -/
def Span.before (a b : Span) : Bool := decide (a.1 < b.1) || (a.1 == b.1 && decide (a.2 ≤ b.2))

/-- The start of the first span, in a sorted list, that begins inside the one before it. -/
def firstOverlap? : List Span → Option Nat
  | a :: b :: rest => if b.1 < a.2 then some b.1 else firstOverlap? (b :: rest)
  | _ => none

/-- The cells that the sections write, as sorted spans. -/
def spans (p : Program) : List Span :=
  ((p.sections.filter fun s => !s.items.isEmpty).map fun s => (s.start.toNat, s.stop)).mergeSort
    Span.before

/-- Checks that the program may be written into a memory of `memorySize` words. -/
def validate (p : Program) (memorySize : Nat) : Except ProgramError Unit :=
  match p.sections.find? fun s => memorySize < s.stop with
  | some s => .error (.doesNotFit s.start s.items.length memorySize)
  | none =>
    match firstOverlap? p.spans with
    | some cell => .error (.overlap cell)
    | none => .ok ()

end Program

/-- The error as it is printed. -/
def ProgramError.message : ProgramError → String
  | @malformed reason => "malformed artifact: " ++ reason
  | .unsupportedVersion found =>
    "artifact format version " ++ Text.decimal found.toNat ++ " is not supported (expected " ++
      Text.decimal Program.formatVersion.toNat ++ ")"
  | .doesNotFit start length memorySize =>
    "section at 0x" ++ Text.hex 4 start.toNat ++ " with " ++ Text.decimal length ++
      " cells does not fit into " ++ Text.decimal memorySize ++ " words of memory"
  | .overlap cell => "cell 0x" ++ Text.hex 4 cell ++ " is written by more than one section"

end Accumulator
