import Accumulator.Assembly.Encode

/-!
# Listings

A listing shows every line of a source, and beside it the cells that the line takes.

* `Row` — a line without cells, or one cell; the first cell of a line carries the line.
* `Layout.rows` — the rows of a source, line by line.
* `Layout.listing` — their text. A cell whose label is not defined shows a mark in place of a word.
-/

namespace Accumulator

/-- A row of a listing. A word is missing where a label is not defined. -/
inductive Row where
  | bare (line : Nat) (source : String)
  | first (cell : Nat) (word : Option Word) (line : Nat) (source : String)
  | further (cell : Nat) (word : Option Word)
  deriving DecidableEq, Repr

namespace Row

/-- The four bytes of a word. -/
def bytes (word : Word) : String :=
  Text.hex 2 (word.toNat / 0x1000000) ++ " " ++ Text.hex 2 (word.toNat / 0x10000 % 256) ++ " " ++
    Text.hex 2 (word.toNat / 0x100 % 256) ++ " " ++ Text.hex 2 (word.toNat % 256)

/-- A word, or the mark for a missing one. -/
def wordText : Option Word → String
  | some word => bytes word
  | none => Text.paint [.red, .bold] "!! !! !! !!"

/-- A cell. -/
def cellText (cell : Nat) (word : Option Word) : String :=
  "[" ++ Text.hex 4 cell ++ "] " ++ wordText word ++ " |"

/-- A line with its number. -/
def lineText (line : Nat) (source : String) : String :=
  " " ++ Text.padLeft 4 ' ' (Text.decimal line) ++ ": " ++ source

/-- The row as it is printed. -/
def text : Row → String
  | bare line source => Text.padRight 19 "" ++ "|" ++ lineText line source
  | first cell word line source => cellText cell word ++ lineText line source
  | further cell word => cellText cell word

/-- The cell that the row shows. -/
def cell? : Row → Option (Nat × Option Word)
  | bare _ _ => none
  | first cell word _ _ | further cell word => some (cell, word)

end Row

namespace Layout

/-- The words of a line, as far as they can be resolved. -/
def words (layout : Layout) (line : Line) : List (Option Word) :=
  match line.statement, layout.addressOf? line.number with
  | some (.instruction code), some address =>
    [(code.resolve layout.labels address).toOption.map Instruction.encode]
  | some (.words items), some _ => items.map fun item => (item.resolve layout.labels).toOption
  | _, _ => []

/-- What a label in an operand is bound to. -/
def targetNote (layout : Layout) (argument : Argument) : String :=
  match argument.immediate? with
  | some (.label name) =>
    match layout.labels.address? name with
    | some address =>
      " " ++ Text.paint [.green] ("; " ++ name ++ " = 0x" ++ Text.hex 4 address.toNat)
    | none => " " ++ Text.paint [.red, .underline] ("; " ++ name ++ " undefined")
  | _ => ""

/-- The source of a line as a listing shows it: an instruction in its colours with a note on its
label, anything else as written. -/
def sourceText (layout : Layout) (line : Line) (raw : List Char) : String :=
  let labels := String.intercalate " " (line.labels.map fun name => Text.paint [.green] (name ++ ":"))
  let statement :=
    match line.statement with
    | some (.instruction code) => code.coloured ++ layout.targetNote code.argument
    | _ => String.ofList (Text.trim raw)
  String.ofList (Text.trim (labels ++ " " ++ statement).toList)

/-- The rows of a line. -/
def lineRows (layout : Layout) (line : Line) (raw : List Char) : List Row :=
  let source := layout.sourceText line raw
  let start := ((layout.addressOf? line.number).map (·.toNat)).getD 0
  match layout.words line with
  | [] => [.bare line.number source]
  | word :: rest =>
    .first start word line.number source ::
      (rest.zipIdx (start + 1)).map fun (word, cell) => .further cell word

/-- The rows of a source. -/
def rows (layout : Layout) (source : String) (lines : List Line) : List Row :=
  (lines.zip (Text.lines source.toList)).flatMap fun (line, raw) => layout.lineRows line raw

/-- The listing of a source. -/
def listing (layout : Layout) (source : String) (lines : List Line) : List String :=
  (layout.rows source lines).map Row.text

end Layout

end Accumulator
