import Accumulator.Yaml.Basic
import Accumulator.Yaml.Token

/-!
# Reading YAML

* `readNode` — the value at the start of a row of tokens, and the tokens behind it.
* `readDocument` — the value of a row of tokens that holds one document.
* `Yaml.read?` — the value of a text.

Fuel bounds the number of calls within calls. At most three calls in a row take no token, so four
times the number of tokens is enough.
-/

namespace Accumulator.Yaml

/-- Whether the part of a block in front of these tokens is left out. -/
def omitsBlockPart : List Token → Bool
  | .dash :: _ | .key :: _ | .value :: _ | .blockEnd :: _ => true
  | _ => false

/-- Whether the part of a bracket in front of these tokens is left out. -/
def omitsFlowPart : List Token → Bool
  | .value :: _ | .comma :: _ | .closeSequence :: _ | .closeMapping :: _ => true
  | _ => false

mutual

/-- A value. -/
def readNode : Nat → List Token → Option (Yaml × List Token)
  | 0, _ => none
  | fuel + 1, tokens =>
    match tokens with
    | .scalar plain text :: rest => some (.scalar plain text, rest)
    | .openSequence :: rest => readFlowItems fuel [] rest
    | .openMapping :: rest => readFlowEntries fuel [] rest
    | .blockSequence :: rest =>
      match readItems fuel [] rest with
      | some (items, .blockEnd :: rest) => some (items, rest)
      | _ => none
    | .blockMapping :: rest => readEntries fuel [] rest
    | _ => none

/-- The rest of a sequence in brackets, from an item or the end on. A key among the items begins a
mapping of one entry. -/
def readFlowItems : Nat → List Yaml → List Token → Option (Yaml × List Token)
  | 0, _, _ => none
  | _ + 1, seen, .closeSequence :: rest => some (.sequence seen.reverse, rest)
  | fuel + 1, seen, tokens =>
    let found : Option (Yaml × List Token) :=
      match tokens with
      | .key :: _ => (readFlowEntry fuel tokens).map fun (entry, rest) => (mapping [entry], rest)
      | _ => readNode fuel tokens
    match found with
    | some (item, .comma :: rest) => readFlowItems fuel (item :: seen) rest
    | some (item, .closeSequence :: rest) => some (.sequence (item :: seen).reverse, rest)
    | _ => none

/-- The rest of a mapping in brackets, from an entry or the end on. -/
def readFlowEntries : Nat → List (Yaml × Yaml) → List Token → Option (Yaml × List Token)
  | 0, _, _ => none
  | _ + 1, seen, .closeMapping :: rest => some (.mapping seen.reverse, rest)
  | fuel + 1, seen, tokens =>
    match readFlowEntry fuel tokens with
    | some (entry, .comma :: rest) => readFlowEntries fuel (entry :: seen) rest
    | some (entry, .closeMapping :: rest) => some (.mapping (entry :: seen).reverse, rest)
    | _ => none

/-- An entry in brackets. What is not marked as a key is one without a value. -/
def readFlowEntry : Nat → List Token → Option ((Yaml × Yaml) × List Token)
  | 0, _ => none
  | fuel + 1, .key :: rest =>
    match readFlowPart fuel rest with
    | none => none
    | some (key, .value :: rest) =>
      (readFlowPart fuel rest).map fun (value, rest) => ((key, value), rest)
    | some (key, rest) => some ((key, blank), rest)
  | fuel + 1, tokens => (readNode fuel tokens).map fun (key, rest) => ((key, blank), rest)

/-- A key or a value in brackets, which may be left out. -/
def readFlowPart : Nat → List Token → Option (Yaml × List Token)
  | 0, _ => none
  | fuel + 1, tokens => if omitsFlowPart tokens then some (blank, tokens) else readNode fuel tokens

/-- The items of a row of dashes. -/
def readItems : Nat → List Yaml → List Token → Option (Yaml × List Token)
  | 0, _, _ => none
  | fuel + 1, seen, .dash :: rest =>
    match if omitsBlockPart rest then some (blank, rest) else readNode fuel rest with
    | none => none
    | some (item, rest) => readItems fuel (item :: seen) rest
  | _ + 1, seen, tokens => some (.sequence seen.reverse, tokens)

/-- The rest of a block of keys. -/
def readEntries : Nat → List (Yaml × Yaml) → List Token → Option (Yaml × List Token)
  | 0, _, _ => none
  | _ + 1, seen, .blockEnd :: rest => some (.mapping seen.reverse, rest)
  | fuel + 1, seen, .key :: rest =>
    match readBlockPart fuel rest with
    | none => none
    | some (key, .value :: rest) =>
      match readBlockPart fuel rest with
      | none => none
      | some (value, rest) => readEntries fuel ((key, value) :: seen) rest
    | some (key, rest) => readEntries fuel ((key, blank) :: seen) rest
  | _ + 1, _, _ => none

/-- A key or a value in a block of keys, which may be left out. A row of dashes need not be indented
further than its key. -/
def readBlockPart : Nat → List Token → Option (Yaml × List Token)
  | 0, _ => none
  | fuel + 1, .dash :: rest => readItems fuel [] (.dash :: rest)
  | fuel + 1, tokens => if omitsBlockPart tokens then some (blank, tokens) else readNode fuel tokens

end

/-- The value of the document at the start of a row of tokens, and the tokens behind it. Nothing needs
to be written behind the marker of a document, and in an empty text. -/
def readContent (tokens : List Token) : Option (Yaml × List Token) :=
  let fuel := 4 * (tokens.length + 1)
  match tokens with
  | [] => some (blank, [])
  | .documentStart :: rest =>
    match rest with
    | [] | .documentStart :: _ | .documentEnd :: _ => some (blank, rest)
    | _ => readNode fuel rest
  | _ => readNode fuel tokens

/-- The value of a row of tokens that holds one document. -/
def readDocument (tokens : List Token) : Option Yaml := do
  let (value, rest) ← readContent tokens
  if (rest.dropWhile (· == .documentEnd)).isEmpty then some value else none

/-- The value of a text that holds one document. A text without any has the blank value. -/
def read? (text : List Char) : Option Yaml := do
  readDocument (← tokens? (← normalize? text))

end Accumulator.Yaml
