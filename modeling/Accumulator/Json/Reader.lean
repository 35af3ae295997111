import Accumulator.Json.Basic

/-!
# Reading JSON

A reader takes a value off the front of a text and returns what follows it.

* `readText` — the rest of a string literal whose opening quote is taken.
* `readNumber` — a natural number without leading zeros.
* `readValue` — a value. Each value and each entry of an array or object costs one unit of fuel,
  and each takes at least one character, so a text never needs more fuel than its length.
* `Json.read?` — the value of a whole text.

The language is strict JSON, less the numbers with a sign, a fraction or an exponent and the
escapes of surrogates: no artifact holds one.
-/

namespace Accumulator.Json

/-- The characters allowed between tokens. -/
def isSpace (c : Char) : Bool := c == ' ' || c == '\n' || c == '\r' || c == '\t'

/-- The text after the blanks in front. -/
def skipSpace (text : List Char) : List Char := text.dropWhile isSpace

/-- The character that four hexadecimal digits number, unless it is a surrogate. -/
def unicodeEscape? (digits : List Char) : Option Char :=
  (Text.ofDigits? 16 digits).bind fun code =>
    if code.isValidChar then some (Char.ofNat code) else none

/-- The character that one letter stands for after a backslash. -/
def simpleEscape? : Char → Option Char
  | '"' => some '"'
  | '\\' => some '\\'
  | '/' => some '/'
  | 'b' => some '\x08'
  | 'f' => some '\x0c'
  | 'n' => some '\n'
  | 'r' => some '\r'
  | 't' => some '\t'
  | _ => none

/-- The rest of a string literal, after the characters `seen`, latest first. -/
def readText (seen : List Char) : List Char → Option (String × List Char)
  | '"' :: rest => some (String.ofList seen.reverse, rest)
  | '\\' :: 'u' :: a :: b :: c :: d :: rest =>
    match unicodeEscape? [a, b, c, d] with
    | some char => readText (char :: seen) rest
    | none => none
  | '\\' :: letter :: rest =>
    match simpleEscape? letter with
    | some char => readText (char :: seen) rest
    | none => none
  | char :: rest => if char.toNat < 0x20 then none else readText (char :: seen) rest
  | [] => none

/-- A natural number: a lone zero, or digits that start with another one. -/
def readNumber (text : List Char) : Option (Nat × List Char) :=
  match text with
  | '0' :: rest => some (0, rest)
  | _ =>
    (Text.ofDigits? 10 (text.takeWhile Char.isDigit)).map fun value =>
      (value, text.dropWhile Char.isDigit)

/-- The name of an object member and the colon behind it. -/
def readName (text : List Char) : Option (String × List Char) :=
  match skipSpace text with
  | '"' :: rest =>
    match readText [] rest with
    | some (name, rest) =>
      match skipSpace rest with
      | ':' :: rest => some (name, rest)
      | _ => none
    | none => none
  | _ => none

mutual

/-- A value, with the blanks in front of it. -/
def readValue : Nat → List Char → Option (Json × List Char)
  | 0, _ => none
  | fuel + 1, text =>
    match skipSpace text with
    | '{' :: rest =>
      match skipSpace rest with
      | '}' :: rest => some (.object [], rest)
      | _ => readMembers fuel [] rest
    | '[' :: rest =>
      match skipSpace rest with
      | ']' :: rest => some (.array [], rest)
      | _ => readItems fuel [] rest
    | '"' :: rest => (readText [] rest).map fun (value, rest) => (.string value, rest)
    | 'n' :: 'u' :: 'l' :: 'l' :: rest => some (.null, rest)
    | 't' :: 'r' :: 'u' :: 'e' :: rest => some (.boolean true, rest)
    | 'f' :: 'a' :: 'l' :: 's' :: 'e' :: rest => some (.boolean false, rest)
    | text => (readNumber text).map fun (value, rest) => (.number value, rest)

/-- The rest of an array, from an item on, after the items `seen`, latest first. -/
def readItems : Nat → List Json → List Char → Option (Json × List Char)
  | 0, _, _ => none
  | fuel + 1, seen, text =>
    match readValue fuel text with
    | none => none
    | some (item, rest) =>
      match skipSpace rest with
      | ',' :: rest => readItems fuel (item :: seen) rest
      | ']' :: rest => some (.array (item :: seen).reverse, rest)
      | _ => none

/-- The rest of an object, from a member on, after the members `seen`, latest first. -/
def readMembers : Nat → List (String × Json) → List Char → Option (Json × List Char)
  | 0, _, _ => none
  | fuel + 1, seen, text =>
    match readName text with
    | none => none
    | some (name, rest) =>
      match readValue fuel rest with
      | none => none
      | some (value, rest) =>
        match skipSpace rest with
        | ',' :: rest => readMembers fuel ((name, value) :: seen) rest
        | '}' :: rest => some (.object ((name, value) :: seen).reverse, rest)
        | _ => none

end

/-- The value of a text that holds one value and blanks. -/
def read? (text : List Char) : Option Json :=
  match readValue (text.length + 1) text with
  | some (value, rest) => if (skipSpace rest).isEmpty then some value else none
  | none => none

end Accumulator.Json
