import Accumulator.Proofs.Machine.Perform

/-!
# What an instruction asks for

To find its operand an instruction asks at most one question: for the port that the operand names, or for
the address that it leads to. The machine has answers also where no decoded instruction asks: for a port
above 255, and for an address in a mode that writes none.

* `Instruction.Answered` — an instruction asks for its port or its address only where there is one.
* `executeBy_eq` — an instruction asks for nothing but that.
* `Lookup.Agrees`, `stepBy_of_agrees` — answers that agree on the ports of a byte and on the modes that
  write addresses lead to the same steps, whatever they are elsewhere.
* `step_illegal_iff` — an instruction is refused exactly if its word cannot be decoded.
* `unasked_of_active` — what both say of a step of an active machine.
-/

namespace Accumulator

/-- The answers are those of the machine to every question about a port that fits its byte, and about an
address in a mode that writes one. -/
structure Lookup.Agrees (l : Lookup) : Prop where
  port : ∀ pc word i, i.operand ≤ 0xFF → l.port pc word i = standard.port pc word i
  address : ∀ pc i addressing, i.mode = Addressing.mode addressing →
    l.address pc i = standard.address pc i

theorem Lookup.standard_agrees : standard.Agrees where
  port _ _ _ _ := rfl
  address _ _ _ _ := rfl

/-! ## Questions that are asked -/

/-- An instruction asks for its port or its address only where there is one: the operand of an input or an
output fits a byte, and a store, a jump and an operation on a cell have a mode that writes an address. -/
structure Instruction.Answered (i : Instruction) : Prop where
  port : i.opcode ∈ [.input, .output] → i.operand ≤ 0xFF
  address : i.opcode ∈ [.store, .jumpZeroClear, .jumpZeroSet, .jumpCarrySet, .jumpCarryClear, .jump] →
    ∃ addressing : Addressing, i.mode = addressing.mode
  value : i.opcode ∈ [.load, .add, .and, .compare] → i.mode ≠ .immediate →
    ∃ addressing : Addressing, i.mode = addressing.mode

/-- The kind of its operand answers what an operation asks. -/
theorem Instruction.Legal.answered {i : Instruction} (h : i.Legal) : i.Answered := by
  obtain ⟨hallows, hfits⟩ := h
  have hport : ∀ op ∈ [Opcode.input, .output], op.operandKind = .port := by decide
  have haddress : ∀ op ∈ [Opcode.store, .jumpZeroClear, .jumpZeroSet, .jumpCarrySet, .jumpCarryClear,
      .jump], op.operandKind = .address := by decide
  have hvalue : ∀ op ∈ [Opcode.load, .add, .and, .compare], op.operandKind = .value := by decide
  refine ⟨fun hopcode => hfits (hport _ hopcode), fun hopcode => ?_, fun hopcode => ?_⟩
  · rw [haddress _ hopcode] at hallows
    exact OperandKind.exists_of_address_allows hallows
  · rw [hvalue _ hopcode] at hallows
    exact OperandKind.exists_of_value_allows hallows

namespace Execution

variable {l : Lookup} {pc : Address} {word : Word} {i : Instruction}

theorem valueBy_eq (h : i.mode ≠ .immediate → l.address pc i = Lookup.standard.address pc i) :
    valueBy l pc i = valueBy .standard pc i := by
  unfold valueBy
  split
  · rfl
  · next hmode => rw [h hmode]

theorem jumpBy_eq {taken : Bool} (h : l.address pc i = Lookup.standard.address pc i) :
    jumpBy l taken pc i = jumpBy .standard taken pc i := by
  rw [jumpBy, jumpBy, h]

/-- **An instruction asks for nothing but its port, its address or the address of its value**, and for each
only if its operation is one that needs it. -/
theorem executeBy_eq
    (hport : i.opcode ∈ [.input, .output] → l.port pc word i = Lookup.standard.port pc word i)
    (haddress : i.opcode ∈
        [.store, .jumpZeroClear, .jumpZeroSet, .jumpCarrySet, .jumpCarryClear, .jump] →
      l.address pc i = Lookup.standard.address pc i)
    (hvalue : i.opcode ∈ [.load, .add, .and, .compare] → i.mode ≠ .immediate →
      l.address pc i = Lookup.standard.address pc i) :
    executeBy l pc word i = execute pc word i := by
  unfold execute executeBy
  cases hopcode : i.opcode with
  | input | output =>
    rw [hopcode] at hport
    simp only [hport (by decide)]
  | load | add | and | compare =>
    rw [hopcode] at hvalue
    simp only [valueBy_eq (hvalue (by decide))]
  | store =>
    rw [hopcode] at haddress
    simp only [haddress (by decide)]
  | jumpZeroClear | jumpZeroSet | jumpCarrySet | jumpCarryClear | jump =>
    rw [hopcode] at haddress
    simp only [jumpBy_eq (haddress (by decide))]
  | increment | shiftLeft | shiftRight | nop | halt => rfl

theorem executeBy_of_agrees (h : l.Agrees) (hanswered : i.Answered) :
    executeBy l pc word i = execute pc word i := by
  refine executeBy_eq (fun hopcode => h.port pc word i (hanswered.port hopcode)) (fun hopcode => ?_)
    fun hopcode himmediate => ?_
  · obtain ⟨addressing, hmode⟩ := hanswered.address hopcode
    exact h.address pc i addressing hmode
  · obtain ⟨addressing, hmode⟩ := hanswered.value hopcode himmediate
    exact h.address pc i addressing hmode

theorem retireBy_of_agrees (h : l.Agrees) : retireBy l = retire := by
  funext m
  rw [retire]
  cases hfetch : m.fetch with
  | error fault => rw [retireBy_of_fetch_error hfetch, retireBy_of_fetch_error hfetch]
  | ok found =>
    obtain ⟨pc, word⟩ := found
    cases hdecode : Instruction.decode word with
    | error reason =>
      rw [retireBy_of_decode_error hfetch hdecode, retireBy_of_decode_error hfetch hdecode]
    | ok i =>
      have hlegal := Instruction.legal_of_decode hdecode
      rw [retireBy_of_decode hfetch hdecode, retireBy_of_decode hfetch hdecode,
        executeBy_of_agrees h hlegal.answered, execute]

end Execution

namespace Machine

variable {m : Machine} {l : Lookup} {pc : Address} {word : Word} {reason : DecodeError}

/-- **Answers that agree where a decoded instruction asks lead to the same steps.** -/
theorem stepBy_of_agrees (h : l.Agrees) (m : Machine) : m.stepBy l = m.step := by
  rw [step, stepBy, Execution.retireBy_of_agrees h]
  rfl

/-- A fetch fails only for the program counter. -/
theorem eq_pcOutOfRange_of_fetch {fault : Fault} (h : m.fetch = .error fault) :
    fault = .pcOutOfRange m.pc := by
  unfold fetch at h
  split at h
  · cases h
    rfl
  · split at h <;> cases h
    rfl

/-- **An instruction is refused exactly if its word cannot be decoded**, for the reason that the decoder
gives. -/
theorem step_illegal_iff (hactive : m.Active) :
    (∃ m', m.step = (.faulted (.illegalInstruction pc word reason), m')) ↔
      m.fetch = .ok (pc, word) ∧ Instruction.decode word = .error reason := by
  rw [step_of_active hactive]
  constructor
  · rintro ⟨m', h⟩
    split at h
    · split at h <;> cases h
    · next hretire =>
      cases h
      obtain ⟨-, hfetch | ⟨pc', word', hfetch, ⟨reason', hdecode, hfault⟩ | ⟨-, hhinders⟩⟩⟩ :=
        Execution.retire_error hretire
      · cases eq_pcOutOfRange_of_fetch hfetch
      · cases hfault
        exact ⟨hfetch, hdecode⟩
      · cases hhinders
  · rintro ⟨hfetch, hdecode⟩
    have hfetch : fetch { m with status := .running } = .ok (pc, word) := hfetch
    refine ⟨abort { m with status := .running } (.illegalInstruction pc word reason), ?_⟩
    rw [Execution.retire, Execution.retireBy_of_decode_error hfetch hdecode]

/-- **No instruction asks for a port above 255, or for an address in a mode that writes none.** An instruction
that was decoded asks only where there is an answer. Whatever the answer were elsewhere, and
whatever it did to the machine, every step of an active machine would be the same. So an instruction is
refused exactly if its word cannot be decoded, for the reason that the decoder gives. -/
theorem unasked_of_active (hactive : m.Active) :
    (∀ word i, Instruction.decode word = .ok i → i.Answered) ∧
      m.stepBy .standard = m.step ∧ (∀ l : Lookup, l.Agrees → m.stepBy l = m.step) ∧
      ∀ pc word reason, (∃ m', m.step = (.faulted (.illegalInstruction pc word reason), m')) ↔
        m.fetch = .ok (pc, word) ∧ Instruction.decode word = .error reason :=
  ⟨fun _ _ hdecode => (Instruction.legal_of_decode hdecode).answered,
    stepBy_of_agrees Lookup.standard_agrees m, fun _ h => stepBy_of_agrees h m,
    fun _ _ _ => step_illegal_iff hactive⟩

/-- Answers that clear the memory where no decoded instruction asks. -/
def wrecking : Lookup where
  port pc word i := if i.operand ≤ 0xFF then Lookup.standard.port pc word i
    else fun m => .ok 0 { m with memory := #[] }
  address pc i := match i.mode with
    | .implied | .immediate => fun m => .ok 0 { m with memory := #[] }
    | .absolute | .relative | .indirect => Lookup.standard.address pc i

/-- A machine about to store into an immediate value. -/
def misdirected : Machine where
  memory := #[0x04010001]

theorem unasked_of_misdirected :
    misdirected.Active ∧ wrecking.Agrees ∧ misdirected.stepBy wrecking = misdirected.step ∧
      ∃ m', misdirected.step =
        (.faulted (.illegalInstruction 0 0x04010001 (.illegalMode .store .immediate)), m') := by
  have hactive : misdirected.Active := by decide
  have hagrees : wrecking.Agrees := by
    refine ⟨fun pc word i hfits => if_pos hfits, fun pc i addressing hmode => ?_⟩
    cases addressing <;> simp only [wrecking, hmode, Addressing.mode]
  obtain ⟨-, -, hunasked, hillegal⟩ := unasked_of_active hactive
  exact ⟨hactive, hagrees, hunasked wrecking hagrees, (hillegal _ _ _).mpr ⟨rfl, rfl⟩⟩

end Machine

end Accumulator
