import Accumulator.Text.Digits
import Accumulator.Word

/-!
# Numerals

A numeral is written in decimal, or in another radix behind its mark. Underscores are ignored
wherever they stand, and one plus sign may come before the digits.

* `Numeral.read` — the word that a numeral denotes, or the first thing wrong with it.
-/

namespace Accumulator.Numeral

/-- Why a text is no numeral. -/
inductive Error where
  | empty
  | invalidDigit
  | overflow
  deriving DecidableEq, Repr

/-- The error as it is printed. -/
def Error.message : Error → String
  | .empty => "cannot parse integer from empty string"
  | .invalidDigit => "invalid digit found in string"
  | .overflow => "number too large to fit in target type"

/-- Reads digits behind those that make up `value`. The first character that is no digit, or that
takes the value past a word, decides. -/
def readDigits (radix value : Nat) : List Char → Except Error Nat
  | [] => .ok value
  | c :: rest =>
    match Text.digit? radix c with
    | none => .error .invalidDigit
    | some digit =>
      let next := value * radix + digit
      if next < UInt32.size then readDigits radix next rest else .error .overflow

/-- Reads digits that may have a sign in front. A sign alone is an invalid digit. -/
def readSigned (radix : Nat) : List Char → Except Error Nat
  | [] => .error .empty
  | ['+'] => .error .invalidDigit
  | '+' :: digits => readDigits radix 0 digits
  | digits => readDigits radix 0 digits

/-- The radix that a text is marked with, and what follows the mark. -/
def splitRadix : List Char → Nat × List Char
  | '0' :: 'b' :: digits => (2, digits)
  | '0' :: 'o' :: digits => (8, digits)
  | '0' :: 'x' :: digits => (16, digits)
  | digits => (10, digits)

/-- The word that a numeral denotes. -/
def read (text : List Char) : Except Error Word :=
  let (radix, digits) := splitRadix (text.filter (· != '_'))
  (readSigned radix digits).map UInt32.ofNat

/-- The word that a numeral denotes, if it denotes one. -/
def read? (text : List Char) : Option Word :=
  match read text with
  | .ok value => some value
  | .error _ => none

end Accumulator.Numeral
