import Accumulator.Isa.Opcode
import Accumulator.Source.Numeral
import Accumulator.Text.Colour
import Accumulator.Text.Digits

/-!
# Operands as written

* `isIdentifier` — whether a text may name a label.
* `Immediate` — a literal or the name of a label. A text that starts with a digit is a literal,
  whatever follows.
* `Addressing` — the three ways to write an address: bare, behind `!`, in parentheses.
* `Argument` — the operand of an instruction.
-/

namespace Accumulator

/-- Whether a character may start a name. -/
def startsIdentifier (c : Char) : Bool := c.isAlpha || c == '_'

/-- Whether a text is a name: a letter or underscore, then letters, digits and underscores, all of
them ASCII. -/
def isIdentifier : List Char → Bool
  | [] => false
  | head :: rest => startsIdentifier head && rest.all fun c => c.isAlphanum || c == '_'

/-- A literal or the name of a label. -/
inductive Immediate where
  | literal (value : Word)
  | label (name : String)
  deriving DecidableEq, Repr

namespace Immediate

/-- The immediate that a text denotes. -/
def read? (text : List Char) : Option Immediate :=
  match text with
  | [] => none
  | head :: _ =>
    if head.isDigit then (Numeral.read? text).map .literal
    else if isIdentifier text then some (.label (String.ofList text))
    else none

/-- Whether sixteen bits hold the immediate. A label always denotes an address. -/
def fitsAddress : Immediate → Bool
  | .literal value => value ≤ 0xFFFF
  | .label _ => true

/-- The immediate that a text denotes, if it fits sixteen bits. -/
def readNarrow? (text : List Char) : Option Immediate := (read? text).filter fitsAddress

/-- The immediate in its colours. -/
def coloured : Immediate → String
  | .literal value => Text.paint [.yellow] ("0x" ++ Text.hex 4 value.toNat)
  | .label name => Text.paint [.green] name

end Immediate

/-- How an address is written. -/
inductive Addressing where
  | absolute
  | relative
  | indirect
  deriving DecidableEq, Repr

/-- The mode of the instruction. -/
def Addressing.mode : Addressing → Mode
  | .absolute => .absolute
  | .relative => .relative
  | .indirect => .indirect

/-- The operand of an instruction. -/
inductive Argument where
  | none
  | port (number : Port)
  | immediate (value : Immediate)
  | address (addressing : Addressing) (target : Immediate)
  deriving DecidableEq, Repr

namespace Argument

/-- The port that a text denotes. -/
def readPort? (text : List Char) : Option Argument :=
  ((Numeral.read? text).bind fun value => Port.ofNat? value.toNat).map .port

/-- The immediate operand that a text denotes. -/
def readImmediate? (text : List Char) : Option Argument :=
  (Immediate.readNarrow? text).map .immediate

/-- The address operand that a text denotes. -/
def readAddress? : List Char → Option Argument
  | '!' :: inner => (Immediate.readNarrow? inner).map (.address .absolute)
  | '(' :: inner =>
    match inner.getLast? with
    | some ')' => (Immediate.readNarrow? inner.dropLast).map (.address .indirect)
    | _ => Option.none
  | text => (Immediate.readNarrow? text).map (.address .relative)

/-- The mode of the instruction. -/
def mode : Argument → Mode
  | .none => .implied
  | .port _ | .immediate _ => .immediate
  | .address addressing _ => addressing.mode

/-- The immediate inside the operand. -/
def immediate? : Argument → Option Immediate
  | .none | .port _ => Option.none
  | .immediate value => some value
  | .address _ target => some target

/-- The operand in its colours. -/
def coloured : Argument → String
  | .none => ""
  | .port number => Text.paint [.yellow] (Text.decimal number.toNat)
  | .immediate value => "#" ++ value.coloured
  | .address .absolute target => "!" ++ target.coloured
  | .address .relative target => target.coloured
  | .address .indirect target => "(" ++ target.coloured ++ ")"

end Argument

end Accumulator
