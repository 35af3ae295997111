import Accumulator.Text.Digits

/-!
# JSON values and their text

* `Json` — the values that an artifact is made of. Its numbers are natural numbers.
* `Json.quote` — a string literal.
* `Json.render` — a value on indented lines, two blanks a level; an empty array or object stays on
  its line.
-/

namespace Accumulator

/-- A JSON value. -/
inductive Json where
  | null
  | boolean (value : Bool)
  | number (value : Nat)
  | string (value : String)
  | array (items : List Json)
  | object (members : List (String × Json))

namespace Json

/-- A character inside a string literal. -/
def escape (c : Char) : List Char :=
  match c with
  | '"' => ['\\', '"']
  | '\\' => ['\\', '\\']
  | '\n' => ['\\', 'n']
  | '\r' => ['\\', 'r']
  | '\t' => ['\\', 't']
  | '\x08' => ['\\', 'b']
  | '\x0c' => ['\\', 'f']
  | c =>
    if c.toNat < 0x20 then '\\' :: 'u' :: (Nat.toDigits 16 c.toNat).leftpad 4 '0' else [c]

/-- The literal of a string. -/
def quote (text : String) : String :=
  "\"" ++ String.ofList (text.toList.flatMap escape) ++ "\""

/-- A line break, and the blanks of the given level. -/
def newline (level : Nat) : String := "\n" ++ String.ofList (List.replicate (2 * level) ' ')

/-- Entries between brackets, each on a line of the level inside. -/
def enclose (opening closing : String) (level : Nat) : List String → String
  | [] => opening ++ closing
  | entries =>
    opening ++ newline (level + 1) ++ String.intercalate ("," ++ newline (level + 1)) entries ++
      newline level ++ closing

/-- The text of a value that starts on a line of the given level. -/
def renderAt (level : Nat) : Json → String
  | .null => "null"
  | .boolean value => if value then "true" else "false"
  | .number value => Text.decimal value
  | .string value => quote value
  | .array items => enclose "[" "]" level (items.map (renderAt (level + 1)))
  | .object members =>
    enclose "\x7b" "\x7d" level
      (members.map fun member => quote member.1 ++ ": " ++ renderAt (level + 1) member.2)
termination_by value => sizeOf value
decreasing_by
  · have := List.sizeOf_lt_of_mem ‹_ ∈ items›
    simp only [Json.array.sizeOf_spec]
    omega
  · have := List.sizeOf_lt_of_mem ‹member ∈ members›
    have : sizeOf member.2 < sizeOf member := by
      cases member
      simp only [Prod.mk.sizeOf_spec]
      omega
    simp only [Json.object.sizeOf_spec]
    omega

/-- The text of a value. -/
def render (value : Json) : String := renderAt 0 value

end Json

end Accumulator
