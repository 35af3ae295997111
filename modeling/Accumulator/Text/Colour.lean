/-!
# Terminal colours

A style switches a terminal attribute on before a text and off behind it.

* `Style` — the attributes in use, with the codes that switch them.
* `paint` — a text between the codes of its styles; both rows of codes come in the given order.
-/

namespace Accumulator.Text

/-- A terminal attribute. -/
inductive Style where
  | red
  | green
  | yellow
  | blue
  | bold
  | underline
  deriving DecidableEq, Repr

/-- The code that switches the attribute on. -/
def Style.on : Style → Nat
  | .red => 31
  | .green => 32
  | .yellow => 33
  | .blue => 34
  | .bold => 1
  | .underline => 4

/-- The code that switches the attribute off. -/
def Style.off : Style → Nat
  | .red | .green | .yellow | .blue => 39
  | .bold => 22
  | .underline => 24

/-- The control sequence of a code. -/
def controlSequence (code : Nat) : String := "\x1b[" ++ toString code ++ "m"

/-- The text in the given styles. -/
def paint (styles : List Style) (text : String) : String :=
  String.join (styles.map (controlSequence ·.on)) ++ text ++
    String.join (styles.map (controlSequence ·.off))

end Accumulator.Text
