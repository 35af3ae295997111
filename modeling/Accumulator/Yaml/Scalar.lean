import Accumulator.Text.Digits
import Accumulator.Yaml.Cursor

/-!
# YAML scalars

* `Folding` — a scalar while it is read. Blanks at the ends of its lines are dropped, and its line
  breaks are folded: one line feed is a blank, and of several the first one is dropped.
* `plainScalar` — a scalar without quotes. It ends at a comment, at a colon before a blank and, inside
  brackets, at their marks; it goes on over line breaks as long as the lines are indented.
* `singleQuoted`, `doubleQuoted` — the rest of a scalar in quotes.
-/

namespace Accumulator.Yaml

/-- The line breaks behind the last character of a scalar: the first one, unless a backslash stands
in front of it, and the further ones, latest first. -/
structure Breaks where
  first : Option Char
  further : List Char := []
  deriving DecidableEq, Repr

/-- What line breaks leave behind, latest first. Only a line feed that comes first is folded. -/
def Breaks.folded : Breaks → List Char
  | ⟨some '\n', []⟩ => [' ']
  | ⟨some '\n', further⟩ => further
  | ⟨first, further⟩ => further ++ first.toList

/-- What is read of a scalar: the characters kept, and behind them the blanks, which are kept unless
the line ends, or the line breaks. All are latest first. -/
structure Folding where
  kept : List Char := []
  blanks : List Char := []
  breaks : Option Breaks := none
  deriving DecidableEq, Repr

namespace Folding

/-- What stands behind the last character if more of the scalar follows. -/
def gap (f : Folding) : List Char :=
  match f.breaks with
  | some breaks => breaks.folded
  | none => f.blanks

/-- Whether the last character lies further back. -/
def isBehind (f : Folding) : Bool := f.breaks.isSome || !f.blanks.isEmpty

/-- One more character. -/
def push (f : Folding) (c : Char) : Folding := { kept := c :: (f.gap ++ f.kept) }

/-- One more blank; at the start of a line it is dropped. -/
def space (f : Folding) (c : Char) : Folding :=
  if f.breaks.isSome then f else { f with blanks := c :: f.blanks }

/-- One more line break. -/
def newline (f : Folding) (c : Char) : Folding :=
  match f.breaks with
  | some breaks => { kept := f.kept, breaks := some { breaks with further := c :: breaks.further } }
  | none => { kept := f.kept, breaks := some ⟨some c, []⟩ }

/-- A line break behind a backslash, which leaves nothing behind. -/
def join (f : Folding) : Folding := { kept := f.gap ++ f.kept, breaks := some ⟨none, []⟩ }

/-- The scalar without the gap at its end. -/
def text (f : Folding) : String := String.ofList f.kept.reverse

/-- The scalar with the gap at its end. -/
def quotedText (f : Folding) : String := String.ofList (f.gap ++ f.kept).reverse

end Folding

/-- Whether a character is a mark of a bracket. -/
def isFlowMark (c : Char) : Bool := c == ',' || c == '[' || c == ']' || c == '{' || c == '}'

/-- Whether a plain scalar, of which `f` is read, ends in front of a text. -/
def endsPlain (flow : Bool) (indent : Nat) (f : Folding) (place : Place) (text : List Char) : Bool :=
  let cursor : Cursor := ⟨place, text⟩
  (!flow && f.breaks.isSome && place.column < indent) || cursor.atMarker '-' || cursor.atMarker '.' ||
    match text with
    | [] => true
    | c :: rest =>
      (c == '#' && f.isBehind) || (c == ':' && atSpace rest) || (flow && isFlowMark c)

/-- The rest of a plain scalar, of which `f` is read, with the blanks and line breaks behind it.
Outside brackets its further lines start at column `indent` or later; a tab must not stand before
that column. Inside brackets, a colon must not stand before a mark. -/
def plainScalar (flow : Bool) (indent : Nat) (f : Folding) (place : Place) :
    List Char → Option (Folding × Cursor)
  | [] => some (f, ⟨place, []⟩)
  | c :: rest =>
    if isBreak c then plainScalar flow indent (f.newline c) (place.after c) rest
    else if isSpace c then
      if c == '\t' && f.breaks.isSome && place.column < indent then none
      else plainScalar flow indent (f.space c) (place.after c) rest
    else if endsPlain flow indent f place (c :: rest) then some (f, ⟨place, c :: rest⟩)
    else if flow && c == ':' && (rest.head?.any fun next => isFlowMark next || next == '?') then none
    else plainScalar flow indent (f.push c) (place.after c) rest

/-- Whether a document marker cuts a scalar in quotes off. -/
def cutsQuoted (place : Place) (text : List Char) : Bool :=
  let cursor : Cursor := ⟨place, text⟩
  cursor.atMarker '-' || cursor.atMarker '.'

/-- The rest of a scalar in single quotes, in which a quote is written twice. -/
def singleQuoted (f : Folding) (place : Place) : List Char → Option (String × Cursor)
  | [] => none
  | '\'' :: '\'' :: rest => singleQuoted (f.push '\'') ((place.after '\'').after '\'') rest
  | '\'' :: rest => some (f.quotedText, ⟨place.after '\'', rest⟩)
  | c :: rest =>
    if isBreak c then singleQuoted (f.newline c) (place.after c) rest
    else if isSpace c then singleQuoted (f.space c) (place.after c) rest
    else if cutsQuoted place (c :: rest) then none
    else singleQuoted (f.push c) (place.after c) rest

/-- The character that one letter stands for after a backslash. -/
def escape? (c : Char) : Option Char :=
  [('0', '\x00'), ('a', '\x07'), ('b', '\x08'), ('t', '\t'), ('\t', '\t'), ('n', '\n'),
    ('v', '\x0b'), ('f', '\x0c'), ('r', '\r'), ('e', '\x1b'), (' ', ' '), ('"', '"'), ('/', '/'),
    ('\\', '\\'), ('N', '\u0085'), ('_', '\u00a0'), ('L', '\u2028'), ('P', '\u2029')].lookup c

/-- The number of digits of a character number after a backslash and the given letter. -/
def escapeWidth? : Char → Option Nat
  | 'x' => some 2
  | 'u' => some 4
  | 'U' => some 8
  | _ => none

/-- The character with the given number in hexadecimal. -/
def numbered? (digits : List Char) : Option Char :=
  (Text.ofDigits? 16 digits).bind fun code =>
    if code.isValidChar then some (Char.ofNat code) else none

/-- The rest of a scalar in double quotes. While `digits` is set, that many digits of a character
number are still to come behind those in `number`. -/
def doubleQuoted (f : Folding) (digits : Nat) (number : List Char) (place : Place) :
    List Char → Option (String × Cursor)
  | [] => none
  | c :: rest =>
    match digits with
    | 1 =>
      match numbered? (c :: number).reverse with
      | some char => doubleQuoted (f.push char) 0 [] (place.after c) rest
      | none => none
    | digits + 2 => doubleQuoted f (digits + 1) (c :: number) (place.after c) rest
    | 0 =>
      if c = '"' then some (f.quotedText, ⟨place.after c, rest⟩)
      else if isBreak c then doubleQuoted (f.newline c) 0 [] (place.after c) rest
      else if isSpace c then doubleQuoted (f.space c) 0 [] (place.after c) rest
      else if cutsQuoted place (c :: rest) then none
      else if c = '\\' then
        match rest with
        | [] => none
        | letter :: rest =>
          let place := (place.after c).after letter
          if isBreak letter then doubleQuoted f.join 0 [] place rest
          else
            match escape? letter, escapeWidth? letter with
            | some char, _ => doubleQuoted (f.push char) 0 [] place rest
            | none, some width => doubleQuoted f width [] place rest
            | none, none => none
      else doubleQuoted (f.push c) 0 [] (place.after c) rest

end Accumulator.Yaml
