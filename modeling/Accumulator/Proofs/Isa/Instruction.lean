import Accumulator.Isa.Instruction

/-!
# Instruction words are decoded

* `Instruction.Legal` — the mode fits the opcode, and a port fits its byte.
* `opcodeByte_encode`, `modeByte_encode`, `operandField_encode` — the fields of an instruction word.
* `decode_encode`, `legal_of_decode` — a legal instruction is the decoding of its word, and what is
  decoded is legal.
-/

namespace Accumulator.Instruction

/-- What the decoder checks of an instruction. -/
def Legal (i : Instruction) : Prop :=
  i.opcode.operandKind.allows i.mode = true ∧ (i.opcode.operandKind = .port → i.operand ≤ 0xFF)

theorem toNat_encode (i : Instruction) :
    i.encode.toNat =
      i.opcode.code.toNat * 0x1000000 + i.mode.code.toNat * 0x10000 + i.operand.toNat := by
  have hopcode := UInt8.toNat_lt i.opcode.code
  have hmode := UInt8.toNat_lt i.mode.code
  have hoperand := UInt16.toNat_lt i.operand
  exact UInt32.toNat_ofNat_of_lt' (by rw [UInt32.size]; omega)

theorem opcodeByte_encode (i : Instruction) : opcodeByte i.encode = i.opcode.code := by
  have hmode := UInt8.toNat_lt i.mode.code
  have hoperand := UInt16.toNat_lt i.operand
  have hquotient : i.encode.toNat / 0x1000000 = i.opcode.code.toNat := by
    rw [toNat_encode]
    omega
  rw [opcodeByte, hquotient, UInt8.ofNat_toNat]

theorem modeByte_encode (i : Instruction) : modeByte i.encode = i.mode.code := by
  have hmode := UInt8.toNat_lt i.mode.code
  have hoperand := UInt16.toNat_lt i.operand
  apply UInt8.toNat_inj.mp
  rw [modeByte, UInt8.toNat_ofNat', toNat_encode]
  omega

theorem operandField_encode (i : Instruction) : operandField i.encode = i.operand := by
  have hoperand := UInt16.toNat_lt i.operand
  apply UInt16.toNat_inj.mp
  rw [operandField, UInt16.toNat_ofNat', toNat_encode]
  omega

/-- **A legal instruction is the decoding of its word.** -/
theorem decode_encode {i : Instruction} (h : i.Legal) : decode i.encode = .ok i := by
  have hport : ¬ (i.opcode.operandKind = .port ∧ 0xFF < i.operand) := by
    rintro ⟨hkind, hlt⟩
    exact absurd hlt (UInt16.not_lt.mpr (h.2 hkind))
  rw [decode, opcodeByte_encode, modeByte_encode, operandField_encode, Opcode.ofCode?_code,
    Mode.ofCode?_code]
  simp only [h.1, hport, if_true, if_false]

/-- **What is decoded is legal.** -/
theorem legal_of_decode {word : Word} {i : Instruction} (h : decode word = .ok i) : i.Legal := by
  unfold decode at h
  split at h
  · cases h
  · split at h
    · cases h
    · split at h
      · next hallows =>
        split at h
        · cases h
        · next hport =>
          cases h
          exact ⟨hallows, fun hkind => UInt16.not_lt.mp fun hlt => hport ⟨hkind, hlt⟩⟩
      · cases h

end Accumulator.Instruction
