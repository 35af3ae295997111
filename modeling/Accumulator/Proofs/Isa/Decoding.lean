import Accumulator.Proofs.Isa.Instruction

/-!
# Which words are instructions

* `toNat_eq_fields` — a word is put together from its opcode byte, its mode byte and its operand field.
* `encode_of_decode` — an instruction that a word is decoded to has this word.
* `Refused` — the first check that a word fails, said of its fields.
* `decode_exact` — a word is decoded to the one legal instruction that has it, and any other word is refused
  for the first check that it fails.
-/

namespace Accumulator

theorem Opcode.ofCode?_eq_some_iff {byte : UInt8} {op : Opcode} : ofCode? byte = some op ↔ op.code = byte := by
  constructor
  · intro h
    simpa using List.find?_some h
  · rintro rfl
    exact ofCode?_code op

theorem Mode.ofCode?_eq_some_iff {byte : UInt8} {mode : Mode} :
    ofCode? byte = some mode ↔ mode.code = byte := by
  constructor
  · intro h
    simpa using List.find?_some h
  · rintro rfl
    exact ofCode?_code mode

namespace Instruction

variable {word : Word} {i : Instruction}

/-- The fields of a word, each in its place, make up the word. -/
theorem toNat_eq_fields (word : Word) :
    word.toNat = (opcodeByte word).toNat * 0x1000000 + (modeByte word).toNat * 0x10000 +
      (operandField word).toNat := by
  have hword := UInt32.toNat_lt word
  rw [opcodeByte, modeByte, operandField, UInt8.toNat_ofNat', UInt8.toNat_ofNat', UInt16.toNat_ofNat']
  omega

/-- What is decoded has its fields from the word. -/
theorem fields_of_decode (h : decode word = .ok i) :
    i.opcode.code = opcodeByte word ∧ i.mode.code = modeByte word ∧ i.operand = operandField word := by
  unfold decode at h
  split at h
  · cases h
  · next op hop =>
    split at h
    · cases h
    · next mode hmode =>
      split at h
      · split at h
        · cases h
        · cases h
          exact ⟨Opcode.ofCode?_eq_some_iff.mp hop, Mode.ofCode?_eq_some_iff.mp hmode, rfl⟩
      · cases h

/-- **What a word is decoded to has this word.** -/
theorem encode_of_decode (h : decode word = .ok i) : i.encode = word := by
  obtain ⟨hopcode, hmode, hoperand⟩ := fields_of_decode h
  apply UInt32.toNat_inj.mp
  rw [toNat_encode, hopcode, hmode, hoperand, ← toNat_eq_fields]

/-- The first check that a word fails. Each check is made only of a word that passes those before it. -/
inductive Refused (word : Word) : DecodeError → Prop
  | unknownOpcode (unknown : ∀ op : Opcode, op.code ≠ opcodeByte word) :
      Refused word (.unknownOpcode (opcodeByte word))
  | unknownMode {op : Opcode} (opcode : op.code = opcodeByte word)
      (unknown : ∀ mode : Mode, mode.code ≠ modeByte word) : Refused word (.unknownMode (modeByte word))
  | illegalMode {op : Opcode} {mode : Mode} (opcode : op.code = opcodeByte word)
      (known : mode.code = modeByte word) (illegal : op.operandKind.allows mode = false) :
      Refused word (.illegalMode op mode)
  | portOutOfRange {op : Opcode} {mode : Mode} (opcode : op.code = opcodeByte word)
      (known : mode.code = modeByte word) (legal : op.operandKind.allows mode = true)
      (port : op.operandKind = .port) (large : 0xFF < operandField word) :
      Refused word (.portOutOfRange (operandField word))

/-- A word that is refused fails the check that is reported, and no check before it. -/
theorem refused_of_decode {e : DecodeError} (h : decode word = .error e) : Refused word e := by
  unfold decode at h
  split at h
  · next hnone =>
    cases h
    refine .unknownOpcode fun op hop => ?_
    rw [Opcode.ofCode?_eq_some_iff.mpr hop] at hnone
    cases hnone
  · next op hop =>
    have hopcode := Opcode.ofCode?_eq_some_iff.mp hop
    split at h
    · next hnone =>
      cases h
      refine .unknownMode hopcode fun mode hmode => ?_
      rw [Mode.ofCode?_eq_some_iff.mpr hmode] at hnone
      cases hnone
    · next mode hmode =>
      have hknown := Mode.ofCode?_eq_some_iff.mp hmode
      split at h
      · next hlegal =>
        split at h
        · next hport =>
          cases h
          exact .portOutOfRange hopcode hknown hlegal hport.1 hport.2
        · cases h
      · next hillegal =>
        cases h
        exact .illegalMode hopcode hknown (Bool.eq_false_iff.mpr hillegal)

/-- A word that fails a check is refused for it. -/
theorem decode_of_refused {e : DecodeError} (h : Refused word e) : decode word = .error e := by
  unfold decode
  cases h with
  | unknownOpcode unknown =>
    have hnone : Opcode.ofCode? (opcodeByte word) = none :=
      Option.eq_none_iff_forall_ne_some.mpr fun op hop => unknown op (Opcode.ofCode?_eq_some_iff.mp hop)
    rw [hnone]
  | unknownMode opcode unknown =>
    have hnone : Mode.ofCode? (modeByte word) = none :=
      Option.eq_none_iff_forall_ne_some.mpr fun mode hmode => unknown mode (Mode.ofCode?_eq_some_iff.mp hmode)
    simp only [Opcode.ofCode?_eq_some_iff.mpr opcode, hnone]
  | illegalMode opcode known illegal =>
    simp only [Opcode.ofCode?_eq_some_iff.mpr opcode, Mode.ofCode?_eq_some_iff.mpr known]
    exact if_neg (Bool.eq_false_iff.mp illegal)
  | portOutOfRange opcode known legal port large =>
    simp only [Opcode.ofCode?_eq_some_iff.mpr opcode, Mode.ofCode?_eq_some_iff.mpr known]
    rw [if_pos legal, if_pos ⟨port, large⟩]

/-- **Decoding is the inverse of encoding on the legal instructions.** A word has an opcode byte, a mode byte
and an operand field, which make it up. It is decoded to an instruction exactly if it is the word of this
instruction, the mode fits the opcode, and a port fits its byte. It is refused for an error exactly if that is
the first check that it fails: the opcode byte, the mode byte, whether the two fit together, the range of a
port. -/
theorem decode_exact (word : Word) :
    word.toNat = (opcodeByte word).toNat * 0x1000000 + (modeByte word).toNat * 0x10000 +
        (operandField word).toNat ∧
      (∀ i, decode word = .ok i ↔ i.encode = word ∧ i.opcode.operandKind.allows i.mode = true ∧
        (i.opcode.operandKind = .port → i.operand ≤ 0xFF)) ∧
      ∀ e, decode word = .error e ↔ Refused word e := by
  refine ⟨toNat_eq_fields word, fun i => ⟨fun h => ?_, ?_⟩, fun e => ⟨refused_of_decode, decode_of_refused⟩⟩
  · exact ⟨encode_of_decode h, legal_of_decode h⟩
  · rintro ⟨rfl, hlegal⟩
    exact decode_encode hlegal

end Instruction

end Accumulator
