import Accumulator.Text.Digits
import Accumulator.Word

/-!
# Registers and flags

* `Register.format` — a register and its value; the digits widen where the value needs it.
* `Flags` — the status flags. After a reset the zero flag is set, since the accumulator is zero.
-/

namespace Accumulator

/-- A register that is printed. -/
inductive Register where
  | accumulator
  | programCounter
  deriving DecidableEq, Repr

/-- The name of the register. -/
def Register.name : Register → String
  | .accumulator => "AC"
  | .programCounter => "PC"

/-- The number of hexadecimal digits that the register is printed with. -/
def Register.width : Register → Nat
  | .accumulator => 8
  | .programCounter => 4

/-- The register with its value. -/
def Register.format (r : Register) (value : Nat) : String :=
  r.name ++ "=0x" ++ Text.hex r.width value

/-- The status flags. -/
structure Flags where
  zero : Bool := true
  carry : Bool := false
  deriving DecidableEq, Repr

/-- A flag as a digit. -/
def Flags.digit (flag : Bool) : String := if flag then "1" else "0"

/-- Both flags as they are printed. -/
def Flags.text (flags : Flags) : String :=
  "Z=" ++ Flags.digit flags.zero ++ " C=" ++ Flags.digit flags.carry

end Accumulator
