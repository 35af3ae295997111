/-!
# Places in a YAML text

* `normalize?` — the text with one line feed for every end of a line, if it holds no character that
  a YAML text must not hold.
* `isSpace`, `isBreak`, `atSpace` — blanks within a line, line breaks, and where a word ends.
* `Place`, `Cursor` — where a reader stands, and the text from there on.
* `Cursor.atMarker` — whether a line starts with a document marker.
-/

namespace Accumulator.Yaml

/-- Code points that a text may hold, as inclusive ranges. -/
def printableRanges : List (Nat × Nat) :=
  [(0x09, 0x0A), (0x0D, 0x0D), (0x20, 0x7E), (0x85, 0x85), (0xA0, 0xD7FF), (0xE000, 0xFFFD),
    (0x10000, 0x10FFFF)]

/-- Whether a text may hold a character. -/
def isPrintable (c : Char) : Bool :=
  printableRanges.any fun r => r.1 ≤ c.toNat && c.toNat ≤ r.2

/-- The text with a line feed for each carriage return, each carriage return before a line feed, and
each next line character. -/
def unifyBreaks : List Char → List Char
  | '\r' :: '\n' :: rest => '\n' :: unifyBreaks rest
  | '\r' :: rest | '\u0085' :: rest => '\n' :: unifyBreaks rest
  | c :: rest => c :: unifyBreaks rest
  | [] => []

/-- The text with unified line breaks. -/
def normalize? (text : List Char) : Option (List Char) :=
  if text.all isPrintable then some (unifyBreaks text) else none

/-- Whether a character is a blank within a line. -/
def isSpace (c : Char) : Bool := c == ' ' || c == '\t'

/-- Whether a character ends a line: a line feed, or the separator of lines or of paragraphs. -/
def isBreak (c : Char) : Bool := c == '\n' || c == '\u2028' || c == '\u2029'

/-- Whether a text is at its end, a blank or a line break. -/
def atSpace : List Char → Bool
  | [] => true
  | c :: _ => isSpace c || isBreak c

/-- A line and a column, both from 0. -/
structure Place where
  line : Nat := 0
  column : Nat := 0
  deriving DecidableEq, Repr

/-- The place behind a character. -/
def Place.after (place : Place) (c : Char) : Place :=
  if isBreak c then ⟨place.line + 1, 0⟩ else ⟨place.line, place.column + 1⟩

/-- A place and the text from there on. -/
structure Cursor where
  place : Place
  rest : List Char
  deriving DecidableEq, Repr

/-- Whether a document marker of the given character starts at a cursor. It fills the first columns
of a line. -/
def Cursor.atMarker (cursor : Cursor) (mark : Char) : Bool :=
  cursor.place.column == 0 &&
    match cursor.rest with
    | a :: b :: c :: rest => a == mark && b == mark && c == mark && atSpace rest
    | _ => false

end Accumulator.Yaml
