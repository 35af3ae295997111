import Accumulator.Yaml.Scalar

/-!
# YAML tokens

* `Token` — the marks and scalars of a text, with marks where a block begins and ends.
* `Scan` — the tokens so far, and what decides on the next ones: the columns of the open blocks, and
  the token that becomes a key if a colon follows.
* `tokens?` — the tokens of a text, from left to right.

A key is known only by its colon. So the mark of the key, and that of the block which the key begins,
are put in front of a token that is there already. Tags, anchors, directives and block scalars are
refused.
-/

namespace Accumulator.Yaml

/-- A token. Blocks have marks of their own, although nothing is written for them. -/
inductive Token where
  | scalar (plain : Bool) (text : String)
  | openSequence
  | closeSequence
  | openMapping
  | closeMapping
  | comma
  | blockSequence
  | blockMapping
  | blockEnd
  | dash
  | key
  | value
  | documentStart
  | documentEnd
  deriving DecidableEq, Repr

/-- A token that becomes a key if a colon follows. -/
structure Candidate where
  /-- The number of tokens in front of it. -/
  index : Nat
  place : Place
  /-- Whether only a key may stand there. -/
  required : Bool
  deriving DecidableEq, Repr

/-- The number of columns within which a colon follows the start of its key. -/
def keyWidth : Nat := 1024

/-- Whether a colon at a place comes too late: a key and its colon share a line. -/
def Candidate.isPast (candidate : Candidate) (place : Place) : Bool :=
  candidate.place.line < place.line || candidate.place.column + keyWidth < place.column

/-- Whether a plain scalar may start with a character that is no mark where it stands. -/
def startsPlain (c : Char) : Bool :=
  !isSpace c && !isFlowMark c && !("#&*!|>'\"%@\x60".toList.contains c)

/-- The text after blanks, line breaks and comments, and whether a key may start there. A line break
allows one outside brackets. A tab is no blank where one may start, and a byte order mark is a blank
at the start of a line. -/
def skipBlanks (inFlow keyAllowed comment : Bool) (place : Place) : List Char → Bool × Cursor
  | [] => (keyAllowed, ⟨place, []⟩)
  | c :: rest =>
    let blank := c == ' ' || (c == '\t' && (inFlow || !keyAllowed)) ||
      (c == '\ufeff' && place.column == 0)
    if isBreak c then skipBlanks inFlow (keyAllowed || !inFlow) false (place.after c) rest
    else if comment || blank then skipBlanks inFlow keyAllowed comment (place.after c) rest
    else if c == '#' then skipBlanks inFlow keyAllowed true (place.after c) rest
    else (keyAllowed, ⟨place, c :: rest⟩)

/-- The tokens of the text so far. -/
structure Scan where
  tokens : Array Token := #[]
  /-- The columns of the open blocks, innermost first. -/
  indents : List Nat := []
  candidate : Option Candidate := none
  /-- The candidates in front of the open brackets, innermost first. -/
  outer : List (Option Candidate) := []
  /-- Whether a key may start here. -/
  keyAllowed : Bool := true
  deriving Repr

namespace Scan

/-- Whether a bracket is open. -/
def inFlow (s : Scan) : Bool := !s.outer.isEmpty

/-- One more token. -/
def emit (s : Scan) (token : Token) : Scan := { s with tokens := s.tokens.push token }

/-- Ends the innermost blocks. -/
def closeBlocks (s : Scan) (count : Nat) : Scan :=
  { s with tokens := s.tokens ++ Array.replicate count .blockEnd, indents := s.indents.drop count }

/-- Ends the blocks that are indented further than a column. Brackets hold no blocks. -/
def dedent (s : Scan) (column : Nat) : Scan :=
  if s.inFlow then s else s.closeBlocks (s.indents.takeWhile (column < ·)).length

/-- Begins a block in front of the token with the given index, if the column is further in than the
innermost block. -/
def indent (s : Scan) (column index : Nat) (start : Token) : Scan :=
  if s.inFlow || s.indents.head?.any (column ≤ ·) then s
  else
    { s with
      tokens := s.tokens.insertIdxIfInBounds index start
      indents := column :: s.indents }

/-- Drops the candidate of the innermost level, unless only a key may stand there. -/
def dropCandidate? (s : Scan) : Option Scan :=
  if s.candidate.any (·.required) then none else some { s with candidate := none }

/-- Drops the candidate of the innermost level if a colon at a place would come too late for it. The
candidates further out are looked at once their bracket is closed. -/
def expire? (s : Scan) (place : Place) : Option Scan :=
  if s.candidate.any (·.isPast place) then s.dropCandidate? else some s

/-- Makes the next token a candidate, if a key may start here. At the column of a block of keys, only
a key may start. -/
def markCandidate? (s : Scan) (place : Place) : Option Scan :=
  if s.keyAllowed then do
    let s ← s.dropCandidate?
    let required := !s.inFlow && s.indents.head? == some place.column
    some { s with candidate := some ⟨s.tokens.size, place, required⟩ }
  else some s

/-- An opening bracket. The sequence or mapping may be a key. -/
def opener? (s : Scan) (place : Place) (token : Token) : Option Scan := do
  let s ← s.markCandidate? place
  some { s.emit token with candidate := none, outer := s.candidate :: s.outer, keyAllowed := true }

/-- A closing bracket. The candidate in front of the opening one counts again. -/
def closer? (s : Scan) (token : Token) : Option Scan := do
  let s ← s.dropCandidate?
  let s := { s.emit token with keyAllowed := false }
  match s.outer with
  | [] => some s
  | candidate :: outer => some { s with candidate, outer }

/-- A comma. -/
def comma? (s : Scan) : Option Scan := do
  let s ← s.dropCandidate?
  some { s.emit .comma with keyAllowed := true }

/-- The dash of an item. -/
def dash? (s : Scan) (column : Nat) : Option Scan := do
  if !s.inFlow && !s.keyAllowed then none
  let s ← (s.indent column s.tokens.size .blockSequence).dropCandidate?
  some { s.emit .dash with keyAllowed := true }

/-- The question mark of a key. -/
def question? (s : Scan) (column : Nat) : Option Scan := do
  if !s.inFlow && !s.keyAllowed then none
  let s ← (s.indent column s.tokens.size .blockMapping).dropCandidate?
  some { s.emit .key with keyAllowed := !s.inFlow }

/-- The colon of a value. It makes the candidate a key; without any, the key is behind a question mark
or left out. -/
def colon? (s : Scan) (column : Nat) : Option Scan :=
  match s.candidate with
  | some candidate =>
    let s := { s with tokens := s.tokens.insertIdxIfInBounds candidate.index .key }
    let s := s.indent candidate.place.column candidate.index .blockMapping
    some { s.emit .value with candidate := none, keyAllowed := false }
  | none =>
    if !s.inFlow && !s.keyAllowed then none
    else some { (s.indent column s.tokens.size .blockMapping).emit .value with keyAllowed := !s.inFlow }

/-- The marker in front of a document or behind it, which ends all blocks. -/
def marker? (s : Scan) (token : Token) : Option Scan := do
  let s ← (s.closeBlocks s.indents.length).dropCandidate?
  some { s.emit token with keyAllowed := false }

/-- A scalar in quotes. -/
def quoted? (s : Scan) (place : Place) (found : Option (String × Cursor)) :
    Option (Scan × Cursor) := do
  let s ← s.markCandidate? place
  let (text, cursor) ← found
  some ({ s.emit (.scalar false text) with keyAllowed := false }, cursor)

/-- A plain scalar, which may go on further in than the innermost block. If line breaks follow it, a
key may start behind them. -/
def plain? (s : Scan) (cursor : Cursor) : Option (Scan × Cursor) := do
  let indent := s.indents.head?.elim 0 (· + 1)
  let (found, behind) ← plainScalar s.inFlow indent {} cursor.place cursor.rest
  let s ← s.markCandidate? cursor.place
  some ({ s.emit (.scalar true found.text) with keyAllowed := found.breaks.isSome }, behind)

/-- The scan behind the token that starts with a character, and the cursor behind it. -/
def token? (s : Scan) (place : Place) (c : Char) (rest : List Char) : Option (Scan × Cursor) :=
  let here : Cursor := ⟨place, c :: rest⟩
  let behind : Cursor := ⟨place.after c, rest⟩
  let behindMarker : Cursor := ⟨⟨place.line, 3⟩, rest.drop 2⟩
  if here.atMarker '-' then (s.marker? .documentStart).map (·, behindMarker)
  else if here.atMarker '.' then (s.marker? .documentEnd).map (·, behindMarker)
  else
    match c with
    | '[' => (s.opener? place .openSequence).map (·, behind)
    | '{' => (s.opener? place .openMapping).map (·, behind)
    | ']' => (s.closer? .closeSequence).map (·, behind)
    | '}' => (s.closer? .closeMapping).map (·, behind)
    | ',' => s.comma?.map (·, behind)
    | '-' => if atSpace rest then (s.dash? place.column).map (·, behind) else s.plain? here
    | '?' =>
      if s.inFlow || atSpace rest then (s.question? place.column).map (·, behind) else s.plain? here
    | ':' =>
      if s.inFlow || atSpace rest then (s.colon? place.column).map (·, behind) else s.plain? here
    | '\'' => s.quoted? place (singleQuoted {} behind.place rest)
    | '"' => s.quoted? place (doubleQuoted {} 0 [] behind.place rest)
    | _ => if startsPlain c then s.plain? here else none

/-- The scan at the next token, and where it starts. -/
def seek (s : Scan) (cursor : Cursor) : Scan × Cursor :=
  let (keyAllowed, next) := skipBlanks s.inFlow s.keyAllowed false cursor.place cursor.rest
  ({ s with keyAllowed }, next)

/-- The tokens of a text from a cursor on. Every token takes a character, so the length of the text
bounds their number. -/
def run : Nat → Scan → Cursor → Option (List Token)
  | 0, _, _ => none
  | fuel + 1, s, cursor =>
    let (s, next) := s.seek cursor
    match s.expire? next.place with
    | none => none
    | some s =>
      match next.rest with
      | [] => ((s.closeBlocks s.indents.length).dropCandidate?).map (·.tokens.toList)
      | c :: rest =>
        match (s.dedent next.place.column).token? next.place c rest with
        | none => none
        | some (s, behind) => run fuel s behind

end Scan

/-- The tokens of a text with unified line breaks. -/
def tokens? (text : List Char) : Option (List Token) :=
  Scan.run (text.length + 1) {} ⟨{}, text⟩

end Accumulator.Yaml
