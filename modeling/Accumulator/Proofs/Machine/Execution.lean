import Accumulator.Machine.Step
import Accumulator.Proofs.Isa.Instruction
import Accumulator.Proofs.Results

/-!
# What one instruction can do

* `Execution.bind_apply`, `bind_eq_ok`, `bind_eq_error` — a sequence completes exactly if its parts do,
  and it faults where one of them faults.
* `Completes` — every way in which an instruction can complete: what it has to find, the effects it
  reports, and the machine it leaves.
* `Hinders` — the faults that stop an instruction behind its decoding.
* `execute_ok`, `execute_error` — an instruction that completes does it in one of these ways, and
  one that faults has changed nothing.
* `retire_error` — the three places where an instruction is stopped: fetch, decoding, execution.
* `step_retired`, `step_faulted`, `step_halted` — the three things that a step can come to.
* `step_of_decode` — an instruction that the machine finds is retired or hindered, but not refused.
-/

namespace Accumulator

namespace Execution

variable {α β : Type}

theorem bind_apply (x : Execution α) (f : α → Execution β) (m : Machine) :
    (x >>= f) m = match x m with
      | .ok a m₁ => f a m₁
      | .error fault m₁ => .error fault m₁ := by
  change EStateM.bind x f m = _
  unfold EStateM.bind
  cases x m <;> rfl

theorem bind_eq_ok {x : Execution α} {f : α → Execution β} {m m' : Machine} {b : β} :
    (x >>= f) m = .ok b m' ↔ ∃ a m₁, x m = .ok a m₁ ∧ f a m₁ = .ok b m' := by
  rw [bind_apply]
  cases x m with
  | ok a m₁ => simp [and_assoc]
  | error fault m₁ => simp

theorem bind_eq_error {x : Execution α} {f : α → Execution β} {m m' : Machine} {fault : Fault} :
    (x >>= f) m = .error fault m' ↔
      x m = .error fault m' ∨ ∃ a m₁, x m = .ok a m₁ ∧ f a m₁ = .error fault m' := by
  rw [bind_apply]
  cases x m with
  | ok a m₁ => simp [and_assoc]
  | error fault m₁ => simp

@[simp] theorem bind_get {f : Machine → Execution β} {m : Machine} :
    ((get : Execution Machine) >>= f) m = f m m := rfl

theorem bind_observe (reader : Machine → Except Fault α) (f : α → Execution β) (m : Machine) :
    (observe reader >>= f) m = match reader m with
      | .ok value => f value m
      | .error fault => .error fault m := by
  rw [bind_apply, observe]
  cases reader m <;> rfl

theorem bind_observe_eq_ok {reader : Machine → Except Fault α} {f : α → Execution β}
    {m m' : Machine} {b : β} : (observe reader >>= f) m = .ok b m' ↔
      ∃ a, reader m = .ok a ∧ f a m = .ok b m' := by
  rw [bind_observe]
  cases reader m <;> simp

theorem bind_observe_eq_error {reader : Machine → Except Fault α} {f : α → Execution β}
    {m m' : Machine} {fault : Fault} : (observe reader >>= f) m = .error fault m' ↔
      (reader m = .error fault ∧ m' = m) ∨ ∃ a, reader m = .ok a ∧ f a m = .error fault m' := by
  rw [bind_observe]
  cases reader m <;> simp [eq_comm]

/-! ## The answers of the machine -/

theorem port_standard (pc : Address) (word : Word) (i : Instruction) :
    Lookup.standard.port pc word i = observe fun _ => i.port pc word := rfl

theorem address_standard (pc : Address) (i : Instruction) :
    Lookup.standard.address pc i = observe (·.effectiveAddress pc i) := rfl

theorem map_answer_observe (reader : Machine → Except Fault α) (m : Machine) :
    (answer (observe reader) m).map (·.1) = reader m := by
  unfold answer observe
  cases reader m <;> rfl

/-- To find an operand changes nothing. -/
theorem valueBy_eq_observe (pc : Address) (i : Instruction) :
    valueBy .standard pc i = observe fun m =>
      match i.mode with
      | .immediate => .ok i.operand.toUInt32
      | _ =>
        match m.effectiveAddress pc i with
        | .ok address => m.readCell pc address
        | .error fault => .error fault := by
  funext m
  unfold valueBy
  generalize i.mode = mode
  cases mode with
  | immediate => rfl
  | implied | absolute | relative | indirect =>
    dsimp only
    rw [address_standard, bind_observe]
    dsimp only [observe]
    cases m.effectiveAddress pc i <;> rfl

end Execution

theorem Machine.operandValue_eq (m : Machine) (pc : Address) (i : Instruction) :
    m.operandValue pc i = match i.mode with
      | .immediate => .ok i.operand.toUInt32
      | _ =>
        match m.effectiveAddress pc i with
        | .ok address => m.readCell pc address
        | .error fault => .error fault := by
  rw [operandValue, Execution.valueBy_eq_observe, Execution.map_answer_observe]

/-- An operand denotes the same whatever the status is. -/
theorem Machine.operandValue_status (m : Machine) (status : Status) (pc : Address) (i : Instruction) :
    { m with status }.operandValue pc i = m.operandValue pc i := by
  rw [operandValue_eq, operandValue_eq]
  rfl

namespace Execution

theorem valueBy_standard (pc : Address) (i : Instruction) :
    valueBy .standard pc i = observe (·.operandValue pc i) := by
  rw [valueBy_eq_observe]
  exact congrArg observe (funext fun m => (m.operandValue_eq pc i).symm)

theorem jumpIf_eq (taken : Bool) (pc : Address) (i : Instruction) (m : Machine) :
    jumpIf taken pc i m =
      if taken then
        match m.effectiveAddress pc i with
        | .ok target => .ok { effects := [.jump target], target := some target } m
        | .error fault => .error fault m
      else .ok { effects := [] } m := by
  unfold jumpIf jumpBy
  cases taken with
  | false => rfl
  | true =>
    rw [if_pos rfl, if_pos rfl, address_standard, bind_observe]
    cases m.effectiveAddress pc i <;> rfl

/-! ## What each action can come to -/

theorem readPort_eq (pc : Address) (port : Port) (m : Machine) :
    readPort pc port m = match m.bus.read pc port with
      | .ok (value, bus) => .ok value { m with bus }
      | .error fault => .error fault m := by
  rw [readPort, (Bus.restores_next pc port).eq_answer m.bus, Bus.read]
  cases answer (Bus.next pc port) m.bus <;> rfl

theorem readPort_eq_ok {pc : Address} {port : Port} {m m' : Machine} {value : Word} :
    readPort pc port m = .ok value m' ↔
      ∃ bus, m.bus.read pc port = .ok (value, bus) ∧ m' = { m with bus } := by
  rw [readPort_eq]
  cases h : m.bus.read pc port with
  | ok result =>
    obtain ⟨v, bus⟩ := result
    simp only [EStateM.Result.ok.injEq, Except.ok.injEq, Prod.mk.injEq]
    constructor
    · rintro ⟨rfl, rfl⟩
      exact ⟨bus, ⟨rfl, rfl⟩, rfl⟩
    · rintro ⟨_, ⟨rfl, rfl⟩, rfl⟩
      exact ⟨rfl, rfl⟩
  | error fault => simp

theorem readPort_eq_error {pc : Address} {port : Port} {m m' : Machine} {fault : Fault} :
    readPort pc port m = .error fault m' ↔ m.bus.read pc port = .error fault ∧ m = m' := by
  rw [readPort_eq]
  cases m.bus.read pc port <;> simp

theorem writePort_eq_ok {pc : Address} {port : Port} {value : Word} {m m' : Machine} :
    writePort pc port value m = .ok () m' ↔
      ∃ bytes, m.bus.emission pc port value = .ok bytes ∧
        m' = { m with bus := m.bus.emit bytes } := by
  unfold writePort
  cases m.bus.emission pc port value with
  | ok bytes => simp [eq_comm]
  | error fault => simp

theorem writePort_eq_error {pc : Address} {port : Port} {value : Word} {m m' : Machine}
    {fault : Fault} : writePort pc port value m = .error fault m' ↔
      m.bus.emission pc port value = .error fault ∧ m = m' := by
  unfold writePort
  cases m.bus.emission pc port value <;> simp

theorem writeCell_eq_ok {pc address : Address} {value : Word} {m m' : Machine} :
    writeCell pc address value m = .ok () m' ↔
      address.toNat < m.memorySize ∧
        m' = { m with memory := m.memory.setIfInBounds address.toNat value } := by
  unfold writeCell
  split
  · next h => simp [h, eq_comm]
  · next h => simp [h]

theorem writeCell_eq_error {pc address : Address} {value : Word} {m m' : Machine}
    {fault : Fault} : writeCell pc address value m = .error fault m' ↔
      m.memorySize ≤ address.toNat ∧ fault = .addressOutOfRange pc address.toUInt32 ∧ m = m' := by
  unfold writeCell
  split
  · next h => simp [Nat.not_le_of_lt h]
  · next h => simp [Nat.le_of_not_lt h, eq_comm]

theorem jumpIf_eq_ok {taken : Bool} {pc : Address} {i : Instruction} {m m' : Machine}
    {completion : Completion} : jumpIf taken pc i m = .ok completion m' ↔
      (taken = true ∧ ∃ target, m.effectiveAddress pc i = .ok target ∧
        completion = ⟨[.jump target], some target⟩ ∧ m' = m) ∨
      (taken = false ∧ completion = ⟨[], none⟩ ∧ m' = m) := by
  rw [jumpIf_eq]
  cases taken with
  | true => cases m.effectiveAddress pc i <;> simp [eq_comm]
  | false => simp [eq_comm]

theorem jumpIf_eq_error {taken : Bool} {pc : Address} {i : Instruction} {m m' : Machine}
    {fault : Fault} : jumpIf taken pc i m = .error fault m' ↔
      taken = true ∧ m.effectiveAddress pc i = .error fault ∧ m = m' := by
  rw [jumpIf_eq]
  cases taken with
  | true => cases m.effectiveAddress pc i <;> simp
  | false => simp

end Execution

/-- The faults that can stop an instruction at `pc` once it is decoded: an address outside of the memory,
or a device that is missing or refuses. -/
inductive Fault.Hinders (pc : Address) : Fault → Prop
  | address (address : Word) : Hinders pc (.addressOutOfRange pc address)
  | noDevice (port : Port) : Hinders pc (.noDevice pc port)
  | writeOnly (port : Port) : Hinders pc (.writeOnly pc port)
  | exhausted : Hinders pc (.inputExhausted pc)

theorem Fault.Hinders.pc_eq {pc : Address} {fault : Fault} (h : fault.Hinders pc) :
    fault.pc = pc.toNat := by
  cases h <;> rfl

namespace Machine

theorem readCell_eq_error {m : Machine} {pc address : Address} {fault : Fault} :
    m.readCell pc address = .error fault ↔
      m.word? address = none ∧ fault = .addressOutOfRange pc address.toUInt32 := by
  unfold readCell
  cases m.word? address <;> simp [eq_comm]

theorem hinders_of_effectiveAddress {m : Machine} {pc : Address} {i : Instruction}
    {fault : Fault} (h : m.effectiveAddress pc i = .error fault) : fault.Hinders pc := by
  unfold effectiveAddress at h
  split at h
  · cases h
  · cases h
  · split at h
    · next hread =>
      cases h
      rw [(readCell_eq_error.mp hread).2]
      exact .address _
    · split at h <;> cases h
      exact .address _
  · cases h
  · cases h

theorem hinders_of_operandValue {m : Machine} {pc : Address} {i : Instruction}
    {fault : Fault} (h : m.operandValue pc i = .error fault) : fault.Hinders pc := by
  rw [operandValue_eq] at h
  split at h
  · cases h
  · split at h
    · rw [(readCell_eq_error.mp h).2]
      exact .address _
    · next haddress =>
      cases h
      exact hinders_of_effectiveAddress haddress

theorem fetch_eq_ok {m : Machine} {pc : Address} {word : Word} :
    m.fetch = .ok (pc, word) ↔ pc.toNat = m.pc ∧ m.word? pc = some word := by
  unfold fetch
  constructor
  · intro h
    split at h
    · cases h
    · next hpc =>
      split at h
      · cases h
      · next hword =>
        cases h
        exact ⟨Address.toNat_of_ofNat? hpc, hword⟩
  · rintro ⟨hpc, hword⟩
    rw [← hpc, Address.ofNat?_toNat]
    simp [hword]

theorem pc_of_fetch_eq_error {m : Machine} {fault : Fault} (h : m.fetch = .error fault) :
    fault.pc = m.pc := by
  unfold fetch at h
  split at h
  · cases h; rfl
  · split at h <;> cases h
    rfl

end Machine

namespace Bus

theorem hinders_of_read {bus : Bus} {pc : Address} {port : Port} {fault : Fault}
    (h : bus.read pc port = .error fault) : fault.Hinders pc := by
  rw [read_eq] at h
  split at h
  · cases h
    exact .noDevice port
  · split at h
    · cases h
    · next e _ =>
      cases h
      cases e with
      | writeOnly => exact .writeOnly port
      | exhausted => exact .exhausted

theorem hinders_of_emission {bus : Bus} {pc : Address} {port : Port} {value : Word}
    {fault : Fault} (h : bus.emission pc port value = .error fault) : fault.Hinders pc := by
  unfold emission at h
  split at h <;> cases h
  exact .noDevice port

end Bus

namespace Instruction

theorem decodeAt_eq_ok {pc : Address} {word : Word} {i : Instruction} :
    decodeAt pc word = .ok i ↔ decode word = .ok i := Except.mapError_eq_ok

theorem decodeAt_eq_error {pc : Address} {word : Word} {fault : Fault} :
    decodeAt pc word = .error fault ↔
      ∃ reason, decode word = .error reason ∧ fault = .illegalInstruction pc word reason :=
  Except.mapError_eq_error

end Instruction

/-- The condition under which a jump is taken, for the operations that jump. -/
def Opcode.taken? (flags : Flags) : Opcode → Option Bool
  | .jumpZeroClear => some !flags.zero
  | .jumpZeroSet => some flags.zero
  | .jumpCarrySet => some flags.carry
  | .jumpCarryClear => some !flags.carry
  | .jump => some true
  | _ => none

/-- The operation that an instruction applies to the accumulator, with its second word. -/
def Machine.calculation? (m : Machine) (pc : Address) (i : Instruction) :
    Option (Operation × Except Fault Word) :=
  match i.opcode with
  | .add => some (.add, m.operandValue pc i)
  | .increment => some (.add, .ok 1)
  | .and => some (.and, m.operandValue pc i)
  | .shiftLeft => some (.shiftLeft, .ok 0)
  | .shiftRight => some (.shiftRight, .ok 0)
  | _ => none

namespace Execution

/-- The ways in which the instruction `i` at `pc` can complete. Each names what was found before the
machine changed, the effects, and the machine after the change. -/
inductive Completes (pc : Address) (i : Instruction) (m : Machine) : Completion → Machine → Prop
  | input {port : Port} {value : Word} {bus : Bus} (opcode : i.opcode = .input)
      (number : port.toNat = i.operand.toNat) (read : m.bus.read pc port = .ok (value, bus)) :
      Completes pc i m ⟨[.input port value, .accumulator value], none⟩
        { m with bus, accumulator := value }
  | output {port : Port} {bytes : List UInt8} (opcode : i.opcode = .output)
      (number : port.toNat = i.operand.toNat)
      (emission : m.bus.emission pc port m.accumulator = .ok bytes) :
      Completes pc i m ⟨[.output port m.accumulator], none⟩ { m with bus := m.bus.emit bytes }
  | load {value : Word} (opcode : i.opcode = .load) (found : m.operandValue pc i = .ok value) :
      Completes pc i m ⟨[.accumulator value], none⟩ { m with accumulator := value }
  | store {address : Address} (opcode : i.opcode = .store)
      (found : m.effectiveAddress pc i = .ok address) (inside : address.toNat < m.memorySize) :
      Completes pc i m ⟨[.store address m.accumulator], none⟩
        { m with memory := m.memory.setIfInBounds address.toNat m.accumulator }
  | calculate {op : Operation} {value : Word}
      (calculation : m.calculation? pc i = some (op, .ok value)) :
      Completes pc i m
        ⟨[.accumulator (op.apply m.accumulator value).value,
          .flags ⟨(op.apply m.accumulator value).zero, (op.apply m.accumulator value).carry⟩], none⟩
        { m with
          accumulator := (op.apply m.accumulator value).value
          flags := ⟨(op.apply m.accumulator value).zero, (op.apply m.accumulator value).carry⟩ }
  | compare {value : Word} (opcode : i.opcode = .compare)
      (found : m.operandValue pc i = .ok value) :
      Completes pc i m
        ⟨[.flags ⟨(Operation.subtract.apply m.accumulator value).zero,
          (Operation.subtract.apply m.accumulator value).carry⟩], none⟩
        { m with flags := ⟨(Operation.subtract.apply m.accumulator value).zero,
            (Operation.subtract.apply m.accumulator value).carry⟩ }
  | jump {target : Address} (taken : i.opcode.taken? m.flags = some true)
      (found : m.effectiveAddress pc i = .ok target) :
      Completes pc i m ⟨[.jump target], some target⟩ m
  | fallThrough (taken : i.opcode.taken? m.flags = some false) : Completes pc i m ⟨[], none⟩ m
  | nop (opcode : i.opcode = .nop) : Completes pc i m ⟨[], none⟩ m
  | halt (opcode : i.opcode = .halt) : Completes pc i m ⟨[.halted], none⟩ m

theorem calculate_eq_ok {op : Operation} {value : Word} {m m' : Machine} {completion : Completion} :
    calculate op value m = .ok completion m' ↔
      completion = ⟨[.accumulator (op.apply m.accumulator value).value,
        .flags ⟨(op.apply m.accumulator value).zero, (op.apply m.accumulator value).carry⟩], none⟩ ∧
      m' = { m with
        accumulator := (op.apply m.accumulator value).value
        flags := ⟨(op.apply m.accumulator value).zero, (op.apply m.accumulator value).carry⟩ } := by
  change EStateM.Result.ok _ _ = _ ↔ _
  simp [eq_comm]

theorem calculate_ne_error {op : Operation} {value : Word} {m m' : Machine} {fault : Fault} :
    calculate op value m ≠ .error fault m' := nofun

theorem port_eq_ok {i : Instruction} {pc : Address} {word : Word} {port : Port}
    (h : i.port pc word = .ok port) : port.toNat = i.operand.toNat := by
  unfold Instruction.port at h
  split at h
  · next found =>
    cases h
    exact Port.toNat_of_ofNat? found
  · cases h

/-- A legal instruction for a port names one. -/
theorem exists_port {i : Instruction} (h : i.Legal) (kind : i.opcode.operandKind = .port)
    (pc : Address) (word : Word) : ∃ port, i.port pc word = .ok port := by
  have hle : i.operand.toNat ≤ 255 := UInt16.le_iff_toNat_le.mp (h.2 kind)
  have hport : Port.ofNat? i.operand.toNat = some (UInt8.ofNat i.operand.toNat) :=
    if_pos (Nat.lt_succ_of_le hle)
  exact ⟨_, by rw [Instruction.port, hport]⟩

theorem execute_ok {pc : Address} {word : Word} {i : Instruction} {m m' : Machine}
    {completion : Completion} (h : execute pc word i m = .ok completion m') :
    Completes pc i m completion m' := by
  cases opcode : i.opcode with
  | input =>
    simp only [execute, executeBy, opcode] at h
    obtain ⟨port, hport, h⟩ := bind_observe_eq_ok.mp h
    obtain ⟨value, m₁, hread, h⟩ := bind_eq_ok.mp h
    obtain ⟨bus, hbus, rfl⟩ := readPort_eq_ok.mp hread
    cases h
    exact .input opcode (port_eq_ok hport) hbus
  | output =>
    simp only [execute, executeBy, opcode] at h
    obtain ⟨port, hport, h⟩ := bind_observe_eq_ok.mp h
    rw [bind_get] at h
    obtain ⟨_, m₁, hwrite, h⟩ := bind_eq_ok.mp h
    obtain ⟨bytes, hbytes, rfl⟩ := writePort_eq_ok.mp hwrite
    cases h
    exact .output opcode (port_eq_ok hport) hbytes
  | load =>
    simp only [execute, executeBy, valueBy_standard, opcode] at h
    obtain ⟨value, hvalue, h⟩ := bind_observe_eq_ok.mp h
    cases h
    exact .load opcode hvalue
  | store =>
    simp only [execute, executeBy, opcode] at h
    obtain ⟨address, haddress, h⟩ := bind_observe_eq_ok.mp h
    rw [bind_get] at h
    obtain ⟨_, m₁, hwrite, h⟩ := bind_eq_ok.mp h
    obtain ⟨inside, rfl⟩ := writeCell_eq_ok.mp hwrite
    cases h
    exact .store opcode haddress inside
  | add | and =>
    simp only [execute, executeBy, valueBy_standard, opcode] at h
    obtain ⟨value, hvalue, h⟩ := bind_observe_eq_ok.mp h
    obtain ⟨rfl, rfl⟩ := calculate_eq_ok.mp h
    exact .calculate (by simp [Machine.calculation?, opcode, hvalue])
  | compare =>
    simp only [execute, executeBy, valueBy_standard, opcode] at h
    obtain ⟨value, hvalue, h⟩ := bind_observe_eq_ok.mp h
    cases h
    exact .compare opcode hvalue
  | increment | shiftLeft | shiftRight =>
    simp only [execute, executeBy, opcode] at h
    obtain ⟨rfl, rfl⟩ := calculate_eq_ok.mp h
    exact .calculate (by simp [Machine.calculation?, opcode])
  | jumpZeroClear | jumpZeroSet | jumpCarrySet | jumpCarryClear | jump =>
    simp only [execute, executeBy, opcode, bind_get] at h
    rcases jumpIf_eq_ok.mp h with ⟨taken, target, htarget, rfl, rfl⟩ | ⟨taken, rfl, rfl⟩
    · exact .jump (by simp [Opcode.taken?, opcode, taken]) htarget
    · exact .fallThrough (by simp [Opcode.taken?, opcode, taken])
  | nop =>
    simp only [execute, executeBy, opcode] at h
    cases h
    exact .nop opcode
  | halt =>
    simp only [execute, executeBy, opcode] at h
    cases h
    exact .halt opcode

/-- A legal instruction that faults has changed nothing. -/
theorem execute_error {pc : Address} {word : Word} {i : Instruction} {m m' : Machine}
    {fault : Fault} (hlegal : i.Legal) (h : execute pc word i m = .error fault m') :
    m' = m ∧ fault.Hinders pc := by
  cases opcode : i.opcode with
  | input =>
    obtain ⟨port, hport⟩ := exists_port hlegal (by rw [opcode]; rfl) pc word
    simp only [execute, executeBy, port_standard, opcode, bind_observe, hport] at h
    rcases bind_eq_error.mp h with h | ⟨value, m₁, -, h⟩
    · obtain ⟨hread, rfl⟩ := readPort_eq_error.mp h
      exact ⟨rfl, Bus.hinders_of_read hread⟩
    · cases h
  | output =>
    obtain ⟨port, hport⟩ := exists_port hlegal (by rw [opcode]; rfl) pc word
    simp only [execute, executeBy, port_standard, opcode, bind_observe, hport, bind_get] at h
    rcases bind_eq_error.mp h with h | ⟨_, m₁, -, h⟩
    · obtain ⟨hbytes, rfl⟩ := writePort_eq_error.mp h
      exact ⟨rfl, Bus.hinders_of_emission hbytes⟩
    · cases h
  | store =>
    simp only [execute, executeBy, opcode] at h
    rcases bind_observe_eq_error.mp h with ⟨haddress, rfl⟩ | ⟨address, -, h⟩
    · exact ⟨rfl, Machine.hinders_of_effectiveAddress haddress⟩
    rw [bind_get] at h
    rcases bind_eq_error.mp h with h | ⟨_, m₁, -, h⟩
    · obtain ⟨-, rfl, rfl⟩ := writeCell_eq_error.mp h
      exact ⟨rfl, .address _⟩
    · cases h
  | load | compare =>
    simp only [execute, executeBy, valueBy_standard, opcode] at h
    rcases bind_observe_eq_error.mp h with ⟨hvalue, rfl⟩ | ⟨value, -, h⟩
    · exact ⟨rfl, Machine.hinders_of_operandValue hvalue⟩
    · cases h
  | add | and =>
    simp only [execute, executeBy, valueBy_standard, opcode] at h
    rcases bind_observe_eq_error.mp h with ⟨hvalue, rfl⟩ | ⟨value, -, h⟩
    · exact ⟨rfl, Machine.hinders_of_operandValue hvalue⟩
    · exact absurd h calculate_ne_error
  | increment | shiftLeft | shiftRight =>
    simp only [execute, executeBy, opcode] at h
    exact absurd h calculate_ne_error
  | jumpZeroClear | jumpZeroSet | jumpCarrySet | jumpCarryClear | jump =>
    simp only [execute, executeBy, opcode, bind_get] at h
    obtain ⟨-, htarget, rfl⟩ := jumpIf_eq_error.mp h
    exact ⟨rfl, Machine.hinders_of_effectiveAddress htarget⟩
  | nop | halt =>
    simp only [execute, executeBy, opcode] at h
    cases h

/-! ## Where an instruction comes from -/

section Retirement

variable {l : Lookup} {m : Machine} {pc : Address} {word : Word} {i : Instruction}

theorem retireBy_of_fetch_error {fault : Fault} (h : m.fetch = .error fault) :
    retireBy l m = .error fault m := by
  rw [retireBy, bind_observe, h]

theorem retireBy_of_decode_error {reason : DecodeError} (hfetch : m.fetch = .ok (pc, word))
    (hdecode : Instruction.decode word = .error reason) :
    retireBy l m = .error (.illegalInstruction pc word reason) m := by
  rw [retireBy, bind_observe, hfetch]
  simp only [bind_observe, Instruction.decodeAt_eq_error.mpr ⟨reason, hdecode, rfl⟩]

theorem retireBy_of_decode (hfetch : m.fetch = .ok (pc, word))
    (hdecode : Instruction.decode word = .ok i) :
    retireBy l m = (executeBy l pc word i >>= fun completion => do
      moveOn completion
      pure ⟨pc, i, completion.effects⟩) m := by
  rw [retireBy, bind_observe, hfetch]
  simp only [bind_observe, Instruction.decodeAt_eq_ok.mpr hdecode]

/-- An instruction that is found and decoded is executed, and then the program counter moves. -/
theorem retire_of_decode (hfetch : m.fetch = .ok (pc, word))
    (hdecode : Instruction.decode word = .ok i) :
    retire m = (execute pc word i >>= fun completion => do
      moveOn completion
      pure ⟨pc, i, completion.effects⟩) m :=
  retireBy_of_decode hfetch hdecode

end Retirement

theorem retire_eq_ok {m m' : Machine} {r : Retired} (h : retire m = .ok r m') :
    ∃ word completion m₁, m.fetch = .ok (r.pc, word) ∧
      Instruction.decode word = .ok r.instruction ∧
      Completes r.pc r.instruction m completion m₁ ∧ r.effects = completion.effects ∧
      m' = { m₁ with pc := match completion.target with
        | some target => target.toNat
        | none => m₁.pc + 1 } := by
  obtain ⟨⟨pc, word⟩, hfetch, h⟩ := bind_observe_eq_ok.mp h
  obtain ⟨i, hdecode, h⟩ := bind_observe_eq_ok.mp h
  obtain ⟨completion, m₁, hexecute, h⟩ := bind_eq_ok.mp h
  cases h
  exact ⟨word, completion, m₁, hfetch, Instruction.decodeAt_eq_ok.mp hdecode, execute_ok hexecute,
    rfl, rfl⟩

/-- **Where an instruction is stopped.** The machine has not changed; the word could not be fetched, it
could not be decoded, or its instruction was hindered. -/
theorem retire_error {m m' : Machine} {fault : Fault} (h : retire m = .error fault m') :
    m' = m ∧ (m.fetch = .error fault ∨ ∃ pc word, m.fetch = .ok (pc, word) ∧
      ((∃ reason, Instruction.decode word = .error reason ∧
        fault = .illegalInstruction pc word reason) ∨
      (∃ i, Instruction.decode word = .ok i) ∧ fault.Hinders pc)) := by
  rcases bind_observe_eq_error.mp h with ⟨hfetch, rfl⟩ | ⟨⟨pc, word⟩, hfetch, h⟩
  · exact ⟨rfl, .inl hfetch⟩
  rcases bind_observe_eq_error.mp h with ⟨hdecode, rfl⟩ | ⟨i, hdecode, h⟩
  · exact ⟨rfl, .inr ⟨pc, word, hfetch, .inl (Instruction.decodeAt_eq_error.mp hdecode)⟩⟩
  have hdecode := Instruction.decodeAt_eq_ok.mp hdecode
  rcases bind_eq_error.mp h with h | ⟨completion, m₁, -, h⟩
  · obtain ⟨rfl, hinders⟩ := execute_error (Instruction.legal_of_decode hdecode) h
    exact ⟨rfl, .inr ⟨pc, word, hfetch, .inr ⟨⟨i, hdecode⟩, hinders⟩⟩⟩
  · cases h

theorem retire_eq_error {m m' : Machine} {fault : Fault} (h : retire m = .error fault m') :
    m' = m ∧ fault.pc = m.pc := by
  obtain ⟨rfl, hfetch | ⟨pc, word, hfetch, hstopped⟩⟩ := retire_error h
  · exact ⟨rfl, Machine.pc_of_fetch_eq_error hfetch⟩
  · have hpc : pc.toNat = m'.pc := (Machine.fetch_eq_ok.mp hfetch).1
    rcases hstopped with ⟨reason, -, rfl⟩ | ⟨-, hinders⟩
    · exact ⟨rfl, hpc⟩
    · exact ⟨rfl, hinders.pc_eq.trans hpc⟩

end Execution

namespace Machine

/-- A machine that a step can still change. -/
def Active (m : Machine) : Prop := m.status = .ready ∨ m.status = .running

instance (m : Machine) : Decidable m.Active := inferInstanceAs (Decidable (_ ∨ _))

theorem step_of_active {m : Machine} (h : m.Active) :
    m.step = match Execution.retire { m with status := .running } with
      | .ok retired m =>
        if retired.instruction.opcode = .halt then (.retired retired, { m with status := .halted })
        else (.retired retired, m)
      | .error fault m => (.faulted fault, m.abort fault) := by
  unfold step stepBy
  split
  · next hs => simp [Active, hs] at h
  · next hs => simp [Active, hs] at h
  · rfl
  · rfl

/-- **A step that retires an instruction.** The machine was active, the instruction is the decoding
of the word at the program counter, it completed, and the program counter moved last. -/
theorem step_retired {m m' : Machine} {r : Retired} (h : m.step = (.retired r, m')) :
    m.Active ∧ ∃ word completion m₁, r.pc.toNat = m.pc ∧ m.word? r.pc = some word ∧
      Instruction.decode word = .ok r.instruction ∧
      Execution.Completes r.pc r.instruction { m with status := .running } completion m₁ ∧
      r.effects = completion.effects ∧
      m' = { m₁ with
        pc := match completion.target with
          | some target => target.toNat
          | none => m₁.pc + 1
        status := if r.instruction.opcode = .halt then .halted else m₁.status } := by
  have hactive : m.Active := by
    unfold step stepBy at h
    split at h
    · cases h
    · cases h
    · next hs => exact .inl hs
    · next hs => exact .inr hs
  refine ⟨hactive, ?_⟩
  rw [step_of_active hactive] at h
  cases hretire : Execution.retire { m with status := .running } with
  | error fault m₂ =>
    rw [hretire] at h
    cases h
  | ok r₂ m₂ =>
    rw [hretire] at h
    obtain ⟨word, completion, m₁, hfetch, hdecode, hcompletes, heffects, rfl⟩ :=
      Execution.retire_eq_ok hretire
    obtain ⟨hpc, hword⟩ := fetch_eq_ok.mp hfetch
    simp only at h
    split at h
    · next hhalt =>
      cases h
      exact ⟨word, completion, m₁, hpc, hword, hdecode, hcompletes, heffects, by rw [if_pos hhalt]⟩
    · next hhalt =>
      cases h
      exact ⟨word, completion, m₁, hpc, hword, hdecode, hcompletes, heffects, by rw [if_neg hhalt]⟩

/-- **A step that faults.** Of an active machine only the status changes, and the fault names the
instruction that did not retire. -/
theorem step_faulted {m m' : Machine} {fault : Fault} (h : m.step = (.faulted fault, m')) :
    (m.status = .faulted fault ∧ m' = m) ∨
      (m.Active ∧ m' = m.abort fault ∧ fault.pc = m.pc) := by
  by_cases hactive : m.Active
  · refine .inr ⟨hactive, ?_⟩
    rw [step_of_active hactive] at h
    cases hretire : Execution.retire { m with status := .running } with
    | ok r m₁ =>
      rw [hretire] at h
      simp only at h
      split at h <;> cases h
    | error fault₁ m₁ =>
      rw [hretire] at h
      cases h
      obtain ⟨rfl, hpc⟩ := Execution.retire_eq_error hretire
      exact ⟨rfl, hpc⟩
  · unfold step stepBy at h
    split at h
    · cases h
    · next hs => cases h; exact .inl ⟨hs, rfl⟩
    · next hs => exact absurd (.inl hs) hactive
    · next hs => exact absurd (.inr hs) hactive

/-- A step finds nothing to do only in a halted machine. -/
theorem step_halted {m m' : Machine} (h : m.step = (.halted, m')) :
    m.status = .halted ∧ m' = m := by
  by_cases hactive : m.Active
  · rw [step_of_active hactive] at h
    split at h
    · split at h <;> cases h
    · cases h
  · unfold step stepBy at h
    split at h
    · next hs => cases h; exact ⟨hs, rfl⟩
    · cases h
    · next hs => exact absurd (.inl hs) hactive
    · next hs => exact absurd (.inr hs) hactive

/-- **A step of an active machine that finds an instruction.** The instruction retires, or it is
hindered; it is not refused. -/
theorem step_of_decode {m : Machine} {pc : Address} {word : Word} {i : Instruction}
    (hactive : m.Active) (hpc : pc.toNat = m.pc) (hword : m.word? pc = some word)
    (hdecode : Instruction.decode word = .ok i) :
    (∃ r m', m.step = (.retired r, m') ∧ r.pc = pc ∧ r.instruction = i) ∨
      ∃ fault m', m.step = (.faulted fault, m') ∧ fault.Hinders pc := by
  have hfetch : fetch { m with status := .running } = .ok (pc, word) :=
    fetch_eq_ok.mpr ⟨hpc, hword⟩
  rw [step_of_active hactive]
  cases hretire : Execution.retire { m with status := .running } with
  | ok r m₁ =>
    obtain ⟨word', completion, m₂, hfetch', hdecode', -⟩ := Execution.retire_eq_ok hretire
    cases hfetch.symm.trans hfetch'
    cases hdecode.symm.trans hdecode'
    by_cases hhalt : r.instruction.opcode = .halt
    · exact .inl ⟨r, _, if_pos hhalt, rfl, rfl⟩
    · exact .inl ⟨r, _, if_neg hhalt, rfl, rfl⟩
  | error fault m₁ =>
    obtain ⟨-, hfetch' | ⟨pc', word', hfetch', hstopped⟩⟩ := Execution.retire_error hretire
    · cases hfetch.symm.trans hfetch'
    cases hfetch.symm.trans hfetch'
    rcases hstopped with ⟨reason, hdecode', -⟩ | ⟨-, hinders⟩
    · cases hdecode.symm.trans hdecode'
    · exact .inr ⟨fault, _, rfl, hinders⟩

end Machine

end Accumulator
