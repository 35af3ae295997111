import Accumulator.Proofs.Isa.Operand
import Accumulator.Proofs.Machine.Execution

/-!
# What an instruction does with its operand

* `Machine.perform` — what an operation does with an operand, said without modes and offsets.
* `effectiveAddress_eq_locate`, `operandValue_eq_operandWord` — the distance in an operand field leads
  to the target again, from every cell and across the end of the address space.
* `execute_eq_perform`, `step_eq_stepWith` — the machine does with an instruction what its operation
  does with the operand that the instruction represents.
-/

namespace Accumulator

namespace Machine

/-- The address that a target leads to: the target itself, or the address in its cell. -/
def locate (m : Machine) (pc target : Address) : Addressing → Except Fault Address
  | .absolute | .relative => .ok target
  | .indirect =>
    match m.word? target with
    | none => .error (.addressOutOfRange pc target.toUInt32)
    | some pointer =>
      if pointer.toNat ≤ 0xFFFF then .ok pointer.toUInt16
      else .error (.addressOutOfRange pc pointer)

/-- The word that an operand stands for: a value itself, or the word in the cell that it leads to. -/
def operandWord (m : Machine) (pc : Address) : Operand .value → Except Fault Word
  | .value word => .ok word.toUInt32
  | .cell addressing target => do
    let address ← m.locate pc target addressing
    match m.word? address with
    | some word => .ok word
    | none => .error (.addressOutOfRange pc address.toUInt32)

/-- The accumulator and the flags after an operation on the accumulator. -/
def calculated (m : Machine) (op : Operation) (word : Word) : Completion × Machine :=
  let result := op.apply m.accumulator word
  let flags : Flags := ⟨result.zero, result.carry⟩
  (⟨[.accumulator result.value, .flags flags], none⟩,
    { m with accumulator := result.value, flags })

/-- A jump to where an operand leads, if it is taken. -/
def jumped (m : Machine) (pc : Address) (taken : Bool) :
    Operand .address → Except Fault (Completion × Machine)
  | .address addressing target =>
    if taken then do
      let address ← m.locate pc target addressing
      .ok (⟨[.jump address], some address⟩, m)
    else .ok (⟨[], none⟩, m)

/-- What an operation at `pc` does with its operand. -/
def perform (m : Machine) (pc : Address) (opcode : Opcode) (operand : Operand opcode.operandKind) :
    Except Fault (Completion × Machine) :=
  match opcode, operand with
  | .input, .port number => do
    let (value, bus) ← m.bus.read pc number
    .ok (⟨[.input number value, .accumulator value], none⟩, { m with bus, accumulator := value })
  | .output, .port number => do
    let bytes ← m.bus.emission pc number m.accumulator
    .ok (⟨[.output number m.accumulator], none⟩, { m with bus := m.bus.emit bytes })
  | .load, operand => do
    let value ← m.operandWord pc operand
    .ok (⟨[.accumulator value], none⟩, { m with accumulator := value })
  | .store, .address addressing target => do
    let address ← m.locate pc target addressing
    if address.toNat < m.memorySize then
      .ok (⟨[.store address m.accumulator], none⟩,
        { m with memory := m.memory.setIfInBounds address.toNat m.accumulator })
    else .error (.addressOutOfRange pc address.toUInt32)
  | .add, operand => do
    let value ← m.operandWord pc operand
    .ok (m.calculated .add value)
  | .increment, .none => .ok (m.calculated .add 1)
  | .and, operand => do
    let value ← m.operandWord pc operand
    .ok (m.calculated .and value)
  | .compare, operand => do
    let value ← m.operandWord pc operand
    let result := Operation.subtract.apply m.accumulator value
    let flags : Flags := ⟨result.zero, result.carry⟩
    .ok (⟨[.flags flags], none⟩, { m with flags })
  | .shiftLeft, .none => .ok (m.calculated .shiftLeft 0)
  | .shiftRight, .none => .ok (m.calculated .shiftRight 0)
  | .jumpZeroClear, operand => m.jumped pc (!m.flags.zero) operand
  | .jumpZeroSet, operand => m.jumped pc m.flags.zero operand
  | .jumpCarrySet, operand => m.jumped pc m.flags.carry operand
  | .jumpCarryClear, operand => m.jumped pc (!m.flags.carry) operand
  | .jump, operand => m.jumped pc true operand
  | .nop, .none => .ok (⟨[], none⟩, m)
  | .halt, .none => .ok (⟨[.halted], none⟩, m)

/-- The step of an active machine that finds the instruction `i` at `pc`. -/
def stepWith (m : Machine) (pc : Address) (i : Instruction)
    (operand : Operand i.opcode.operandKind) : Progress × Machine :=
  match perform { m with status := .running } pc i.opcode operand with
  | .ok (completion, m') =>
    (.retired ⟨pc, i, completion.effects⟩,
      { m' with
        pc := match completion.target with
          | some target => target.toNat
          | none => m'.pc + 1
        status := if i.opcode = .halt then .halted else m'.status })
  | .error fault => (.faulted fault, m.abort fault)

/-! ## Operands -/

variable {m : Machine} {pc : Address} {i : Instruction}

/-- The distance from the next cell leads to the target again. -/
theorem next_add_distance (pc target : Address) : pc + 1 + (target - (pc + 1)) = target := by
  rw [UInt16.add_comm, UInt16.sub_add_cancel]

theorem effectiveAddress_eq_locate {addressing : Addressing} {target : Address}
    (hmode : i.mode = addressing.mode) (hfield : i.operand = addressing.field pc target) :
    m.effectiveAddress pc i = m.locate pc target addressing := by
  cases addressing with
  | absolute =>
    simp only [effectiveAddress, hmode, hfield, Addressing.mode, Addressing.field, locate]
  | relative =>
    simp only [effectiveAddress, hmode, hfield, Addressing.mode, Addressing.field, locate,
      next_add_distance]
  | indirect =>
    simp only [effectiveAddress, hmode, hfield, Addressing.mode, Addressing.field, locate,
      next_add_distance, readCell]
    cases m.word? target with
    | none => rfl
    | some pointer =>
      by_cases hfits : pointer.toNat ≤ 0xFFFF
      · have haddress : Address.ofNat? pointer.toNat = some pointer.toUInt16 :=
          if_pos (Nat.lt_succ_of_le hfits)
        simp only [haddress, if_pos hfits]
      · have haddress : Address.ofNat? pointer.toNat = none :=
          if_neg (fun hlt => hfits (Nat.le_of_lt_succ hlt))
        simp only [haddress, if_neg hfits]

theorem operandValue_eq_readCell (h : i.mode ≠ .immediate) :
    m.operandValue pc i = match m.effectiveAddress pc i with
      | .ok address => m.readCell pc address
      | .error fault => .error fault := by
  rw [operandValue_eq]
  split
  · next himmediate => exact absurd himmediate h
  · rfl

theorem operandValue_eq_operandWord {operand : Operand .value}
    (h : operand.encode pc = (i.mode, i.operand)) :
    m.operandValue pc i = m.operandWord pc operand := by
  cases operand with
  | value word =>
    have hmode : .immediate = i.mode := congrArg Prod.fst h
    have hfield : word = i.operand := congrArg Prod.snd h
    simp only [operandValue_eq, ← hmode, ← hfield, operandWord]
  | cell addressing target =>
    have hmode : addressing.mode = i.mode := congrArg Prod.fst h
    have hfield : addressing.field pc target = i.operand := congrArg Prod.snd h
    have himmediate : i.mode ≠ .immediate := hmode ▸ addressing.mode_ne_immediate
    rw [operandValue_eq_readCell himmediate, effectiveAddress_eq_locate hmode.symm hfield.symm,
      operandWord]
    cases m.locate pc target addressing <;> rfl

end Machine

namespace Execution

variable {m : Machine} {pc : Address} {word : Word} {i : Instruction}

/-- The result of an instruction, as the outcome of its operation. -/
def ofOutcome (m : Machine) :
    Except Fault (Completion × Machine) → EStateM.Result Fault Machine Completion
  | .ok (completion, m') => .ok completion m'
  | .error fault => .error fault m

theorem jumpIf_eq_jumped {taken : Bool} {operand : Operand .address}
    (h : operand.encode pc = (i.mode, i.operand)) :
    jumpIf taken pc i m = ofOutcome m (m.jumped pc taken operand) := by
  cases operand with
  | address addressing target =>
    have hmode : addressing.mode = i.mode := congrArg Prod.fst h
    have hfield : addressing.field pc target = i.operand := congrArg Prod.snd h
    rw [jumpIf_eq, Machine.jumped, Machine.effectiveAddress_eq_locate hmode.symm hfield.symm]
    cases taken with
    | false => rfl
    | true => cases m.locate pc target addressing <;> rfl

theorem port_of_encode {number : Port}
    (h : (Operand.port number).encode pc = (i.mode, i.operand)) : i.port pc word = .ok number := by
  have hfield : number.toUInt16 = i.operand := congrArg Prod.snd h
  have hnumber : Port.ofNat? i.operand.toNat = some number := by
    rw [← hfield, UInt8.toNat_toUInt16, Port.ofNat?_toNat]
  rw [Instruction.port, hnumber]

/-- **An instruction does what its operation does with the operand that it represents.** -/
theorem execute_eq_perform {operand : Operand i.opcode.operandKind}
    (h : operand.encode pc = (i.mode, i.operand)) :
    execute pc word i m = ofOutcome m (m.perform pc i.opcode operand) := by
  obtain ⟨opcode, mode, field⟩ := i
  cases opcode with
  | input =>
    cases operand with
    | port number =>
      have hport := @port_of_encode pc word ⟨.input, mode, field⟩ number h
      simp only [execute, executeBy, port_standard, bind_observe, hport, Machine.perform]
      rw [bind_apply, readPort_eq]
      cases m.bus.read pc number <;> rfl
  | output =>
    cases operand with
    | port number =>
      have hport := @port_of_encode pc word ⟨.output, mode, field⟩ number h
      simp only [execute, executeBy, port_standard, bind_observe, hport, bind_get, Machine.perform]
      change EStateM.bind (writePort pc number m.accumulator) _ m = _
      unfold EStateM.bind writePort
      cases m.bus.emission pc number m.accumulator <;> rfl
  | store =>
    cases operand with
    | address addressing target =>
      have haddress := @Machine.effectiveAddress_eq_locate m pc ⟨.store, mode, field⟩ addressing
        target (congrArg Prod.fst h).symm (congrArg Prod.snd h).symm
      simp only [execute, executeBy, address_standard, bind_observe, haddress, bind_get, Machine.perform]
      cases m.locate pc target addressing with
      | error fault => rfl
      | ok address =>
        change EStateM.bind (writeCell pc address m.accumulator) _ m =
          ofOutcome m (if _ then _ else _)
        unfold EStateM.bind writeCell
        by_cases hinside : address.toNat < m.memorySize
        · rw [if_pos hinside, if_pos hinside]
          rfl
        · rw [if_neg hinside, if_neg hinside]
          rfl
  | load =>
    simp only [execute, executeBy, valueBy_standard, bind_observe, Machine.operandValue_eq_operandWord h,
      Machine.perform]
    cases m.operandWord pc operand <;> rfl
  | add =>
    simp only [execute, executeBy, valueBy_standard, bind_observe, Machine.operandValue_eq_operandWord h,
      Machine.perform]
    cases m.operandWord pc operand <;> rfl
  | and =>
    simp only [execute, executeBy, valueBy_standard, bind_observe, Machine.operandValue_eq_operandWord h,
      Machine.perform]
    cases m.operandWord pc operand <;> rfl
  | compare =>
    simp only [execute, executeBy, valueBy_standard, bind_observe, Machine.operandValue_eq_operandWord h,
      Machine.perform]
    cases m.operandWord pc operand <;> rfl
  | increment | shiftLeft | shiftRight | nop | halt =>
    cases operand
    rfl
  | jumpZeroClear | jumpZeroSet | jumpCarrySet | jumpCarryClear | jump =>
    simp only [execute, executeBy, bind_get]
    exact jumpIf_eq_jumped h

theorem retire_eq_perform {operand : Operand i.opcode.operandKind}
    (hfetch : m.fetch = .ok (pc, word)) (hdecode : Instruction.decode word = .ok i)
    (h : operand.encode pc = (i.mode, i.operand)) :
    retire m = match m.perform pc i.opcode operand with
      | .ok (completion, m') => .ok ⟨pc, i, completion.effects⟩
          { m' with pc := match completion.target with
            | some target => target.toNat
            | none => m'.pc + 1 }
      | .error fault => .error fault m := by
  rw [retire_of_decode hfetch hdecode, bind_apply, execute_eq_perform h]
  cases m.perform pc i.opcode operand <;> rfl

end Execution

/-- **A step does what the operation of its instruction does with the operand.** -/
theorem Machine.step_eq_stepWith {m : Machine} {pc : Address} {word : Word} {i : Instruction}
    {operand : Operand i.opcode.operandKind} (hactive : m.Active) (hpc : m.pc = pc.toNat)
    (hword : m.word? pc = some word) (hdecode : Instruction.decode word = .ok i)
    (h : operand.encode pc = (i.mode, i.operand)) : m.step = m.stepWith pc i operand := by
  have hfetch : fetch { m with status := .running } = .ok (pc, word) :=
    fetch_eq_ok.mpr ⟨hpc.symm, hword⟩
  rw [step_of_active hactive, Execution.retire_eq_perform hfetch hdecode h, stepWith]
  cases perform { m with status := .running } pc i.opcode operand with
  | error fault => rfl
  | ok outcome =>
    by_cases hhalt : i.opcode = .halt
    · simp only [if_pos hhalt]
    · simp only [if_neg hhalt]

end Accumulator
