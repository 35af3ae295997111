import Accumulator.Proofs.Isa.Instruction
import Accumulator.Source.Operand

/-!
# Operands and their fields

* `Operand` — an operand with a number for its target, of the shape that its operation takes.
* `Operand.encode` — the mode and the field that represent an operand in a cell: a relative or
  indirect target stands there as its distance from the next cell.
* `legal_of_encode` — an instruction that represents an operand of its opcode is legal.
-/

namespace Accumulator

/-- An operand with a number for its target. -/
inductive Operand : OperandKind → Type
  | none : Operand .none
  | port (number : Port) : Operand .port
  | address (addressing : Addressing) (target : Address) : Operand .address
  | value (value : Address) : Operand .value
  | cell (addressing : Addressing) (target : Address) : Operand .value

/-- The operand field for a target, in the cell `address`. -/
def Addressing.field (address target : Address) : Addressing → UInt16
  | .absolute => target
  | .relative | .indirect => target - (address + 1)

/-- The mode and the operand field that represent an operand in the cell `address`. -/
def Operand.encode {kind : OperandKind} (address : Address) (operand : Operand kind) :
    Mode × UInt16 :=
  match operand with
  | .none => (.implied, 0)
  | .port number => (.immediate, number.toUInt16)
  | .value word => (.immediate, word)
  | .address addressing target | .cell addressing target =>
    (addressing.mode, addressing.field address target)

theorem Addressing.mode_ne_immediate (addressing : Addressing) : addressing.mode ≠ .immediate := by
  cases addressing <;> decide

theorem Addressing.address_allows (addressing : Addressing) :
    OperandKind.address.allows addressing.mode = true := by
  cases addressing <;> rfl

theorem Addressing.value_allows (addressing : Addressing) :
    OperandKind.value.allows addressing.mode = true := by
  cases addressing <;> rfl

/-- An address is written in one of the three ways. -/
theorem OperandKind.exists_of_address_allows {mode : Mode} (h : OperandKind.address.allows mode = true) :
    ∃ addressing : Addressing, mode = addressing.mode := by
  cases mode with
  | absolute => exact ⟨.absolute, rfl⟩
  | relative => exact ⟨.relative, rfl⟩
  | indirect => exact ⟨.indirect, rfl⟩
  | implied | immediate => cases h

/-- A value is written as such, or as the address of its cell. -/
theorem OperandKind.exists_of_value_allows {mode : Mode} (h : OperandKind.value.allows mode = true)
    (hmode : mode ≠ .immediate) : ∃ addressing : Addressing, mode = addressing.mode := by
  cases mode with
  | immediate => exact absurd rfl hmode
  | absolute | relative | indirect => exact exists_of_address_allows rfl
  | implied => cases h

/-- An instruction that represents an operand of its opcode is legal. -/
theorem Operand.legal_of_encode {kind : OperandKind} {operand : Operand kind} {i : Instruction}
    {address : Address} (hkind : i.opcode.operandKind = kind)
    (h : operand.encode address = (i.mode, i.operand)) : i.Legal := by
  obtain ⟨hmode, hfield⟩ := Prod.mk.inj h
  unfold Instruction.Legal
  rw [hkind, ← hmode, ← hfield]
  cases operand with
  | none => exact ⟨rfl, nofun⟩
  | port number => 
    refine ⟨rfl, fun _ => UInt16.le_iff_toNat_le.mpr ?_⟩
    have := UInt8.toNat_lt number
    show number.toNat ≤ 255
    omega
  | address addressing target => exact ⟨addressing.address_allows, nofun⟩
  | value word => exact ⟨rfl, nofun⟩
  | cell addressing target => exact ⟨addressing.value_allows, nofun⟩

end Accumulator
