import Accumulator.Isa.Instruction
import Accumulator.Isa.Register

/-!
# Effects of instructions

* `Effect` — one visible consequence of an instruction.
* `Retired` — an instruction that completed, with its effects in the order in which they occurred.
-/

namespace Accumulator

/-- One visible consequence of an instruction. -/
inductive Effect where
  | input (port : Port) (value : Word)
  | output (port : Port) (value : Word)
  | store (address : Address) (value : Word)
  | accumulator (value : Word)
  | flags (value : Flags)
  | jump (target : Address)
  | halted
  deriving DecidableEq, Repr

/-- The effect as it is printed. -/
def Effect.text : Effect → String
  | .input port value => "IN[" ++ Text.decimal port.toNat ++ "]=0x" ++ Text.hex 8 value.toNat
  | .output port value => "OUT[" ++ Text.decimal port.toNat ++ "]=0x" ++ Text.hex 8 value.toNat
  | .store address value => "M[0x" ++ Text.hex 4 address.toNat ++ "]=0x" ++ Text.hex 8 value.toNat
  | .accumulator value => Register.accumulator.format value.toNat
  | .flags value => value.text
  | .jump target => Register.programCounter.format target.toNat
  | .halted => "HALTED"

/-- An instruction that completed. -/
structure Retired where
  pc : Address
  instruction : Instruction
  effects : List Effect
  deriving DecidableEq, Repr

/-- The effects of an instruction as they are printed. -/
def Retired.effectText (r : Retired) : String :=
  if r.effects.isEmpty then "-" else String.intercalate " " (r.effects.map Effect.text)

/-- The instruction with its address and its effects. -/
def Retired.text (r : Retired) : String :=
  Text.hex 4 r.pc.toNat ++ ": " ++ Text.padRight 16 r.instruction.text ++ " " ++ r.effectText

end Accumulator
