import Accumulator.Isa.Instruction

/-!
# Faults

A fault is the reason why an instruction could not retire. Each holds the program counter of that
instruction; only a fetch can see one past the address space, so those faults hold a number.
-/

namespace Accumulator

/-- Why execution stopped before a halt. -/
inductive Fault where
  | pcOutOfRange (pc : Nat)
  | illegalInstruction (pc : Address) (word : Word) (reason : DecodeError)
  | addressOutOfRange (pc : Address) (address : Word)
  | noDevice (pc : Address) (port : Port)
  | writeOnly (pc : Address) (port : Port)
  | inputExhausted (pc : Address)
  | tickLimit (pc limit : Nat)
  deriving DecidableEq, Repr

namespace Fault

/-- The program counter of the instruction that did not retire. -/
def pc : Fault → Nat
  | pcOutOfRange pc | tickLimit pc _ => pc
  | illegalInstruction pc _ _ | addressOutOfRange pc _ | noDevice pc _ | writeOnly pc _
  | inputExhausted pc => pc.toNat

/-- The fault as it is printed. -/
def message : Fault → String
  | pcOutOfRange _ => "program counter is outside of memory"
  | illegalInstruction _ word reason =>
    "illegal instruction 0x" ++ Text.hex 8 word.toNat ++ ": " ++ reason.message
  | addressOutOfRange _ address => "address 0x" ++ Text.hex 4 address.toNat ++ " is out of range"
  | noDevice _ port => "no device on port " ++ Text.decimal port.toNat
  | writeOnly _ port => "port " ++ Text.decimal port.toNat ++ " is write-only"
  | inputExhausted _ => "input exhausted"
  | tickLimit _ limit => "tick limit of " ++ Text.decimal limit ++ " instructions reached"

end Fault

end Accumulator
