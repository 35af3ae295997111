import Accumulator.Collect
import Accumulator.Source.Statement

/-!
# Source lines

* `Line.read` — the labels and the statement of a line, less its comment. A comment starts at a
  semicolon or at two slashes.
* `Line.readAll` — every line of a source, or every error.
-/

namespace Accumulator

/-- A line of a source. -/
structure Line where
  number : Nat
  labels : List String
  statement : Option Statement
  deriving DecidableEq, Repr

namespace Line

/-- The text before the first comment. -/
def stripComment : List Char → List Char
  | [] => []
  | ';' :: _ => []
  | '/' :: '/' :: _ => []
  | c :: rest => c :: stripComment rest

/-- The label of a text in front of a colon. -/
def readLabel (text : List Char) : Except AssemblyError String :=
  let name := Text.trim text
  if isIdentifier name then .ok (String.ofList name)
  else .error (.invalidLabel (String.ofList name))

/-- The labels, each ended by a colon, and the statement behind the last of them. -/
def read (number : Nat) (text : List Char) : Except AssemblyError Line := do
  let pieces := Text.split (· == ':') (stripComment text)
  let labels ← pieces.dropLast.mapM readLabel
  let statement ← Statement.read (pieces.getLastD [])
  .ok ⟨number, labels, statement⟩

/-- The cells that the line takes. -/
def size (line : Line) : Nat :=
  match line.statement with
  | some statement => statement.size
  | none => 0

/-- Reads a numbered line. -/
def readNumbered (number : Nat) (text : List Char) : Except LineError Line :=
  (read number text).mapError (⟨number, ·⟩)

/-- Every line of a source, or every error in it. -/
def readAll (source : String) : Except (List LineError) (List Line) :=
  collect (((Text.lines source.toList).zipIdx 1).map fun (text, number) => readNumbered number text)

end Line

end Accumulator
