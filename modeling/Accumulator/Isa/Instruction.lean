import Accumulator.Isa.Opcode
import Accumulator.Text.Digits

/-!
# Instructions and their words

An instruction word holds the opcode in its highest byte, the mode in the next byte and the operand
in its lower half.

* `Instruction.encode` — the word of an instruction.
* `Instruction.decode` — the instruction of a word, or the first check that the word fails: its
  opcode byte, its mode byte, whether the two fit together, the range of a port.
* `Instruction.text` — the instruction as it is printed.
-/

namespace Accumulator

/-- An instruction whose operand is a number. -/
structure Instruction where
  opcode : Opcode
  mode : Mode
  operand : UInt16
  deriving DecidableEq, Repr

/-- Why a word is no instruction. -/
inductive DecodeError where
  | unknownOpcode (byte : UInt8)
  | unknownMode (byte : UInt8)
  | illegalMode (opcode : Opcode) (mode : Mode)
  | portOutOfRange (operand : UInt16)
  deriving DecidableEq, Repr

/-- The error as it is printed. -/
def DecodeError.message : DecodeError → String
  | .unknownOpcode byte => "unknown opcode 0x" ++ Text.hex 2 byte.toNat
  | .unknownMode byte => "unknown addressing mode 0x" ++ Text.hex 2 byte.toNat
  | .illegalMode opcode mode => opcode.name ++ " does not accept " ++ mode.name ++ " operand"
  | .portOutOfRange operand => "port " ++ Text.decimal operand.toNat ++ " is out of range"

namespace Instruction

/-- The opcode byte of a word. -/
def opcodeByte (word : Word) : UInt8 := UInt8.ofNat (word.toNat / 0x1000000)

/-- The mode byte of a word. -/
def modeByte (word : Word) : UInt8 := UInt8.ofNat (word.toNat / 0x10000)

/-- The operand field of a word. -/
def operandField (word : Word) : UInt16 := UInt16.ofNat word.toNat

/-- The word of an instruction. -/
def encode (i : Instruction) : Word :=
  UInt32.ofNat (i.opcode.code.toNat * 0x1000000 + i.mode.code.toNat * 0x10000 + i.operand.toNat)

/-- The instruction of a word. -/
def decode (word : Word) : Except DecodeError Instruction :=
  match Opcode.ofCode? (opcodeByte word) with
  | none => .error (.unknownOpcode (opcodeByte word))
  | some opcode =>
    match Mode.ofCode? (modeByte word) with
    | none => .error (.unknownMode (modeByte word))
    | some mode =>
      if opcode.operandKind.allows mode then
        if opcode.operandKind = .port ∧ 0xFF < operandField word then
          .error (.portOutOfRange (operandField word))
        else .ok ⟨opcode, mode, operandField word⟩
      else .error (.illegalMode opcode mode)

/-- The operand as it is printed: nothing for an operation without one, a port in decimal, all
else in hexadecimal between the marks of its mode. -/
def operandText (i : Instruction) : String :=
  match i.opcode.operandKind, i.mode with
  | .none, _ => ""
  | .port, _ => Text.decimal i.operand.toNat
  | _, .implied => ""
  | _, .immediate => "#0x" ++ Text.hex 4 i.operand.toNat
  | _, .absolute => "!0x" ++ Text.hex 4 i.operand.toNat
  | _, .relative => "0x" ++ Text.hex 4 i.operand.toNat
  | _, .indirect => "(0x" ++ Text.hex 4 i.operand.toNat ++ ")"

/-- The instruction as it is printed. -/
def text (i : Instruction) : String :=
  if i.operandText = "" then i.opcode.name else i.opcode.name ++ " " ++ i.operandText

end Instruction

end Accumulator
