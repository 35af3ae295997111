import Accumulator.Assembly.Encode
import Accumulator.Proofs.Isa.Operand
import Accumulator.Proofs.Source.WellFormed

/-!
# What an operand as written stands for

* `Immediate.Denotes` — a literal stands for itself and a label for its address.
* `Argument.Denotes` — the operand that an argument stands for, wherever its line is placed.
* `exists_operand` — an argument that resolves stands for an operand, which the field represents.
* `legal_of_resolve` — a line that was read resolves to a legal instruction only.
-/

namespace Accumulator

/-- The word that an immediate stands for. -/
inductive Immediate.Denotes (labels : SymbolTable) : Immediate → Word → Prop
  | literal (value : Word) : Denotes labels (.literal value) value
  | label {name : String} {address : Address} (bound : labels.address? name = some address) :
      Denotes labels (.label name) address.toUInt32

namespace Immediate

variable {labels : SymbolTable} {immediate : Immediate} {word : Word}

theorem resolve_eq_ok_iff : immediate.resolve labels = .ok word ↔ immediate.Denotes labels word := by
  constructor
  · intro h
    cases immediate with
    | literal value =>
      cases h
      exact .literal word
    | label name =>
      rw [resolve] at h
      split at h
      · next address bound =>
        cases h
        exact .label bound
      · cases h
  · intro h
    cases h with
    | literal => rfl
    | label bound => rw [resolve, bound]

/-- Sixteen bits hold what an address operand stands for. -/
theorem Denotes.toUInt16 (h : immediate.Denotes labels word) (hfits : immediate.fitsAddress = true) :
    word.toUInt16.toUInt32 = word := by
  cases h with
  | literal =>
    have hle : word.toNat ≤ 65535 := by
      simpa [fitsAddress, UInt32.le_iff_toNat_le] using hfits
    apply UInt32.toNat_inj.mp
    rw [UInt16.toNat_toUInt32, UInt32.toNat_toUInt16]
    omega
  | label bound => rw [UInt16.toUInt16_toUInt32]

end Immediate

/-- The operand that an argument stands for. -/
inductive Argument.Denotes (labels : SymbolTable) :
    {kind : OperandKind} → Argument → Operand kind → Prop
  | none : Denotes labels .none Operand.none
  | port (number : Port) : Denotes labels (.port number) (Operand.port number)
  | address {addressing : Addressing} {immediate : Immediate} {target : Address}
      (denotes : immediate.Denotes labels target.toUInt32) :
      Denotes labels (.address addressing immediate) (Operand.address addressing target)
  | value {immediate : Immediate} {value : Address}
      (denotes : immediate.Denotes labels value.toUInt32) :
      Denotes labels (.immediate immediate) (Operand.value value)
  | cell {addressing : Addressing} {immediate : Immediate} {target : Address}
      (denotes : immediate.Denotes labels target.toUInt32) :
      Denotes labels (.address addressing immediate) (Operand.cell addressing target)

namespace Argument

variable {labels : SymbolTable} {address : Address}

theorem resolve_address_eq_ok {addressing : Addressing} {immediate : Immediate} {field : UInt16}
    (hfits : immediate.fitsAddress = true)
    (h : (Argument.address addressing immediate).resolve labels address = .ok field) :
    ∃ target : Address, immediate.Denotes labels target.toUInt32 ∧
      field = addressing.field address target := by
  cases addressing with
  | absolute =>
    obtain ⟨word, hword, rfl⟩ := Except.map_eq_ok.mp h
    have hdenotes := Immediate.resolve_eq_ok_iff.mp hword
    exact ⟨word.toUInt16, (hdenotes.toUInt16 hfits).symm ▸ hdenotes, rfl⟩
  | relative | indirect =>
    obtain ⟨word, hword, rfl⟩ := Except.map_eq_ok.mp h
    have hdenotes := Immediate.resolve_eq_ok_iff.mp hword
    exact ⟨word.toUInt16, (hdenotes.toUInt16 hfits).symm ▸ hdenotes, rfl⟩

/-- **An argument that resolves stands for an operand, and the field represents it.** -/
theorem exists_operand {kind : OperandKind} {argument : Argument} {field : UInt16}
    (hsuits : argument.Suits kind) (h : argument.resolve labels address = .ok field) :
    ∃ operand : Operand kind, argument.Denotes labels operand ∧
      operand.encode address = (argument.mode, field) := by
  cases hsuits with
  | none =>
    cases h
    exact ⟨.none, .none, rfl⟩
  | port number =>
    cases h
    exact ⟨.port number, .port number, rfl⟩
  | address addressing fits =>
    obtain ⟨target, hdenotes, rfl⟩ := resolve_address_eq_ok fits h
    exact ⟨.address addressing target, .address hdenotes, rfl⟩
  | immediate fits =>
    obtain ⟨word, hword, rfl⟩ := Except.map_eq_ok.mp h
    have hdenotes := Immediate.resolve_eq_ok_iff.mp hword
    exact ⟨.value word.toUInt16, .value ((hdenotes.toUInt16 fits).symm ▸ hdenotes), rfl⟩
  | cell addressing fits =>
    obtain ⟨target, hdenotes, rfl⟩ := resolve_address_eq_ok fits h
    exact ⟨.cell addressing target, .cell hdenotes, rfl⟩

end Argument

namespace Code

variable {labels : SymbolTable} {address : Address} {code : Code} {i : Instruction}

theorem resolve_eq_ok_iff : code.resolve labels address = .ok i ↔
    ∃ field, code.argument.resolve labels address = .ok field ∧
      i = ⟨code.opcode, code.mode, field⟩ := by
  rw [resolve, Except.map_eq_ok]
  simp only [eq_comm]

/-- **A line that was read resolves to a legal instruction only.** -/
theorem legal_of_resolve (hcode : code.WellFormed) (h : code.resolve labels address = .ok i) :
    i.Legal := by
  obtain ⟨field, hfield, rfl⟩ := resolve_eq_ok_iff.mp h
  obtain ⟨operand, -, hencode⟩ := Argument.exists_operand hcode hfield
  exact Operand.legal_of_encode rfl hencode

end Code

end Accumulator
