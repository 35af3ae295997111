/-!
# Numbers as text

* `decimal`, `hex` — the digits of a number, hexadecimal ones in upper case.
* `digit?`, `ofDigits?` — the value of a digit, and of a row of digits.
* `padLeft`, `padRight` — columns. A text wider than its column is never cut, so a number that
  outgrows its column stays readable.
-/

namespace Accumulator.Text

/-- The text, with `fill` in front until it is `width` characters wide. -/
def padLeft (width : Nat) (fill : Char) (text : String) : String :=
  String.ofList (text.toList.leftpad width fill)

/-- The text, with blanks behind until it is `width` characters wide. -/
def padRight (width : Nat) (text : String) : String :=
  String.ofList (text.toList.rightpad width ' ')

/-- The decimal digits of `n`. -/
def decimal (n : Nat) : String := String.ofList (Nat.toDigits 10 n)

/-- The decimal digits of `n`, at least `width` of them. -/
def paddedDecimal (width n : Nat) : String := padLeft width '0' (decimal n)

/-- The upper-case hexadecimal digits of `n`, at least `width` of them. -/
def hex (width n : Nat) : String :=
  padLeft width '0' (String.ofList ((Nat.toDigits 16 n).map Char.toUpper))

/-- The value of a digit in the given radix; letters of either case go on after nine. -/
def digit? (radix : Nat) (c : Char) : Option Nat :=
  let value :=
    if '0' ≤ c ∧ c ≤ '9' then c.toNat - '0'.toNat
    else if 'a' ≤ c ∧ c ≤ 'z' then c.toNat - 'a'.toNat + 10
    else if 'A' ≤ c ∧ c ≤ 'Z' then c.toNat - 'A'.toNat + 10
    else radix
  if value < radix then some value else none

/-- The value of a row of digits, if it holds one and nothing else. -/
def ofDigits? (radix : Nat) (digits : List Char) : Option Nat :=
  if digits.isEmpty then none
  else digits.foldlM (fun value c => (digit? radix c).map (value * radix + ·)) 0

end Accumulator.Text
