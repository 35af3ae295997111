import Accumulator.Proofs.Isa.Arithmetic
import Accumulator.Proofs.Machine.Execution

/-!
# Branches behind a comparison and behind a sum

* `Machine.OperandIs` — the value of an operand in each of the four modes that have one.
* `Machine.BranchesOn` — the next instruction, if it is the given jump, is taken exactly under a condition.
  `branchesOn_of_taken?` — the flags are that condition.
* `Machine.Compared`, `Machine.Added` — what a comparison and a sum leave behind, and how each conditional
  jump behind them goes.
* `branch_on_order` — a comparison leaves the unsigned order of the two words to the jump behind it, a sum
  whether it fits a word.
-/

namespace Accumulator

namespace Machine

/-- The value of the operand of an instruction at `pc`: the operand itself, or the word in the cell that it
leads to. Relative and indirect operands count from the next cell, modulo the address space. -/
inductive OperandIs (m : Machine) (pc : Address) (i : Instruction) : Word → Prop
  | immediate (mode : i.mode = .immediate) : OperandIs m pc i i.operand.toUInt32
  | absolute {word : Word} (mode : i.mode = .absolute)
      (cell : m.memory[i.operand.toNat]? = some word) : OperandIs m pc i word
  | relative {word : Word} (mode : i.mode = .relative)
      (cell : m.memory[(pc.toNat + 1 + i.operand.toNat) % addressSpace]? = some word) :
      OperandIs m pc i word
  | indirect {pointer word : Word} (mode : i.mode = .indirect)
      (pointed : m.memory[(pc.toNat + 1 + i.operand.toNat) % addressSpace]? = some pointer)
      (short : pointer.toNat < addressSpace) (cell : m.memory[pointer.toNat]? = some word) :
      OperandIs m pc i word

/-- If the next instruction is the given jump, it is taken exactly under the condition. A taken jump goes
where its operand leads, or faults if that is nowhere. A jump that is not taken has no effects and goes on
to the next cell, whatever its operand is. -/
def BranchesOn (m : Machine) (opcode : Opcode) (condition : Prop) : Prop :=
  ∀ pc word i, m.fetch = .ok (pc, word) → Instruction.decode word = .ok i → i.opcode = opcode →
    (condition → m.step = match m.effectiveAddress pc i with
      | .ok target => (.retired ⟨pc, i, [.jump target]⟩, { m with pc := target.toNat })
      | .error fault => (.faulted fault, m.abort fault)) ∧
    (¬ condition → m.step = (.retired ⟨pc, i, []⟩, { m with pc := m.pc + 1 }))

/-- The machine `m₁` behind a comparison of the accumulator of `m` with `value`. -/
structure Compared (m : Machine) (value : Word) (m₁ : Machine) : Prop where
  /-- Only the flags change, and the program counter goes on. -/
  frame : m₁ = { m with flags := m₁.flags, pc := m.pc + 1, status := .running }
  zeroSet : m₁.BranchesOn .jumpZeroSet (m.accumulator.toNat = value.toNat)
  zeroClear : m₁.BranchesOn .jumpZeroClear (m.accumulator.toNat ≠ value.toNat)
  carrySet : m₁.BranchesOn .jumpCarrySet (value.toNat ≤ m.accumulator.toNat)
  carryClear : m₁.BranchesOn .jumpCarryClear (m.accumulator.toNat < value.toNat)

/-- The machine `m₁` behind an addition of `value` to the accumulator of `m`. -/
structure Added (m : Machine) (value : Word) (m₁ : Machine) : Prop where
  /-- Only the accumulator and the flags change, and the program counter goes on. -/
  frame : m₁ = { m with
    accumulator := m₁.accumulator, flags := m₁.flags, pc := m.pc + 1, status := .running }
  accumulator : m₁.accumulator.toNat = (m.accumulator.toNat + value.toNat) % UInt32.size
  zeroSet : m₁.BranchesOn .jumpZeroSet ((m.accumulator.toNat + value.toNat) % UInt32.size = 0)
  zeroClear : m₁.BranchesOn .jumpZeroClear ((m.accumulator.toNat + value.toNat) % UInt32.size ≠ 0)
  carrySet : m₁.BranchesOn .jumpCarrySet (UInt32.size ≤ m.accumulator.toNat + value.toNat)
  carryClear : m₁.BranchesOn .jumpCarryClear (m.accumulator.toNat + value.toNat < UInt32.size)

variable {m m₁ : Machine} {pc address : Address} {i : Instruction} {word value : Word} {r : Retired}

/-! ## Operands -/

theorem toNat_next_add (pc offset : Address) :
    (pc + 1 + offset).toNat = (pc.toNat + 1 + offset.toNat) % addressSpace := by
  rw [UInt16.toNat_add, UInt16.toNat_add, addressSpace]
  simp only [UInt16.reduceToNat]
  omega

theorem readCell_eq_ok : m.readCell pc address = .ok word ↔ m.memory[address.toNat]? = some word := by
  unfold readCell word?
  cases m.memory[address.toNat]? <;> simp

/-- What the machine finds for an operand is its value, if the mode fits a value. -/
theorem operandIs_of_operandValue (hallows : OperandKind.value.allows i.mode = true)
    (h : m.operandValue pc i = .ok word) : m.OperandIs pc i word := by
  rw [operandValue_eq] at h
  cases mode : i.mode with
  | implied =>
    rw [mode] at hallows
    cases hallows
  | immediate =>
    simp only [mode] at h
    cases h
    exact .immediate mode
  | absolute =>
    simp only [mode, effectiveAddress] at h
    exact .absolute mode (readCell_eq_ok.mp h)
  | relative =>
    simp only [mode, effectiveAddress] at h
    exact .relative mode (toNat_next_add pc i.operand ▸ readCell_eq_ok.mp h)
  | indirect =>
    simp only [mode, effectiveAddress] at h
    cases hpointer : m.readCell pc (pc + 1 + i.operand) with
    | error fault => simp [hpointer] at h
    | ok pointer =>
      cases haddress : Address.ofNat? pointer.toNat with
      | none => simp [hpointer, haddress] at h
      | some address =>
        simp only [hpointer, haddress] at h
        have hpointed := toNat_next_add pc i.operand ▸ readCell_eq_ok.mp hpointer
        have hsame : address.toNat = pointer.toNat := Address.toNat_of_ofNat? haddress
        exact .indirect mode hpointed (hsame ▸ UInt16.toNat_lt address) (hsame ▸ readCell_eq_ok.mp h)

/-! ## Jumps -/

/-- The flags are the condition of a jump. -/
theorem execute_of_taken? {taken : Bool} (h : i.opcode.taken? m.flags = some taken) :
    Execution.execute pc word i m = Execution.jumpIf taken pc i m := by
  unfold Opcode.taken? at h
  split at h <;> cases h <;> 
    simp only [Execution.execute, Execution.executeBy, Execution.jumpIf, *, Execution.bind_get]

/-- **A running machine takes a jump exactly if its flags say so.** -/
theorem branchesOn_of_taken? {opcode : Opcode} {taken : Bool} (hrunning : m.status = .running)
    (h : opcode.taken? m.flags = some taken) : m.BranchesOn opcode (taken = true) := by
  intro pc word i hfetch hdecode hopcode
  subst hopcode
  have hsame : { m with status := .running } = m := by rw [← hrunning]
  have hhalt : i.opcode ≠ .halt := fun hhalt => by
    rw [hhalt] at h
    cases h
  have hretire : Execution.retire m = (Execution.jumpIf taken pc i >>= fun completion => do
      Execution.moveOn completion
      pure ⟨pc, i, completion.effects⟩) m := by
    rw [Execution.retire_of_decode hfetch hdecode, Execution.bind_apply, Execution.bind_apply,
      execute_of_taken? h]
  rw [step_of_active (.inr hrunning), hsame, hretire, Execution.bind_apply, Execution.jumpIf_eq]
  constructor
  · rintro rfl
    rw [if_pos rfl]
    cases m.effectiveAddress pc i with
    | error fault => rfl
    | ok target => exact if_neg hhalt
  · intro hclear
    rw [if_neg hclear]
    exact if_neg hhalt

/-- A jump behind a result is taken under what its flags say of it. -/
theorem branchesOn_of_flags {zero carry : Prop} [Decidable zero] [Decidable carry]
    (hrunning : m.status = .running) (hflags : m.flags = ⟨decide zero, decide carry⟩) :
    m.BranchesOn .jumpZeroSet zero ∧ m.BranchesOn .jumpZeroClear (¬ zero) ∧
      m.BranchesOn .jumpCarrySet carry ∧ m.BranchesOn .jumpCarryClear (¬ carry) := by
  have hbranch (opcode : Opcode) (taken : Bool) (condition : Prop) (hiff : taken = true ↔ condition)
      (h : opcode.taken? m.flags = some taken) : m.BranchesOn opcode condition :=
    propext hiff ▸ branchesOn_of_taken? hrunning h
  refine ⟨hbranch _ (decide zero) zero ?_ ?_, hbranch _ (!decide zero) (¬ zero) ?_ ?_,
    hbranch _ (decide carry) carry ?_ ?_, hbranch _ (!decide carry) (¬ carry) ?_ ?_⟩ <;>
    simp [Opcode.taken?, hflags]

end Machine

/-! ## Comparisons and sums -/

namespace Execution.Completes

variable {m m₁ : Machine} {pc : Address} {i : Instruction} {completion : Completion}

/-- A comparison finds its operand and sets the flags of the difference. -/
theorem of_compare (h : Completes pc i m completion m₁) (hopcode : i.opcode = .compare) :
    ∃ value, m.operandValue pc i = .ok value ∧ completion.target = none ∧
      m₁ = { m with flags := ⟨(Operation.subtract.apply m.accumulator value).zero,
        (Operation.subtract.apply m.accumulator value).carry⟩ } := by
  cases h with
  | compare _ found => exact ⟨_, found, rfl, rfl⟩
  | calculate calculation => simp [Machine.calculation?, hopcode] at calculation
  | jump taken | fallThrough taken => simp [Opcode.taken?, hopcode] at taken
  | input opcode | output opcode | load opcode | store opcode | nop opcode | halt opcode =>
    cases hopcode.symm.trans opcode

/-- An operation on the accumulator finds its second word and leaves its result. -/
theorem of_calculation? (h : Completes pc i m completion m₁) {op : Operation} {operand : Except Fault Word}
    (hcalculation : m.calculation? pc i = some (op, operand)) :
    ∃ value, operand = .ok value ∧ completion.target = none ∧
      m₁ = { m with
        accumulator := (op.apply m.accumulator value).value
        flags := ⟨(op.apply m.accumulator value).zero, (op.apply m.accumulator value).carry⟩ } := by
  cases h with
  | calculate calculation =>
    cases hcalculation.symm.trans calculation
    exact ⟨_, rfl, rfl, rfl⟩
  | jump taken | fallThrough taken =>
    unfold Machine.calculation? at hcalculation
    split at hcalculation <;> simp_all [Opcode.taken?]
  | input opcode | output opcode | load opcode | store opcode | compare opcode | nop opcode
  | halt opcode => simp [Machine.calculation?, opcode] at hcalculation

end Execution.Completes

namespace Machine

variable {m m₁ : Machine} {value : Word} {r : Retired}

theorem compared_of_flags (h : m₁ = { m with
    flags := ⟨(Operation.subtract.apply m.accumulator value).zero,
      (Operation.subtract.apply m.accumulator value).carry⟩
    pc := m.pc + 1
    status := .running }) : Compared m value m₁ := by
  rw [Operation.apply_subtract] at h
  obtain ⟨hzeroSet, hzeroClear, hcarrySet, hcarryClear⟩ :=
    branchesOn_of_flags (m := m₁) (by rw [h]) (by rw [h])
  rw [Nat.not_le] at hcarryClear
  exact ⟨by rw [h], hzeroSet, hzeroClear, hcarrySet, hcarryClear⟩

theorem added_of_calculated (h : m₁ = { m with
    accumulator := (Operation.add.apply m.accumulator value).value
    flags := ⟨(Operation.add.apply m.accumulator value).zero,
      (Operation.add.apply m.accumulator value).carry⟩
    pc := m.pc + 1
    status := .running }) : Added m value m₁ := by
  rw [Operation.apply_add] at h
  obtain ⟨hzeroSet, hzeroClear, hcarrySet, hcarryClear⟩ :=
    branchesOn_of_flags (m := m₁) (by rw [h]) (by rw [h])
  rw [Nat.not_le] at hcarryClear
  have hsum : m₁.accumulator.toNat = (m.accumulator.toNat + value.toNat) % UInt32.size := by
    rw [h]
    exact UInt32.toNat_add m.accumulator value
  exact ⟨by rw [h], hsum, hzeroSet, hzeroClear, hcarrySet, hcarryClear⟩

/-- **A conditional jump decides on the unsigned order of the words that were compared, and on whether a sum
fits a word.** A comparison that retires changes no register and no cell. Behind it a jump on the zero flag
is taken exactly if the accumulator and the operand are equal, and one on the carry exactly if the operand
is not above the accumulator. An addition that retires leaves the sum modulo the word size. Behind it a jump
on the zero flag is taken exactly if that is zero, and one on the carry exactly if the sum does not fit. A
jump that is not taken looks at no address. -/
theorem branch_on_order (h : m.step = (.retired r, m₁)) :
    (r.instruction.opcode = .compare →
      ∃ value, m.OperandIs r.pc r.instruction value ∧ m.Compared value m₁) ∧
    (r.instruction.opcode = .add →
      ∃ value, m.OperandIs r.pc r.instruction value ∧ m.Added value m₁) ∧
    (r.instruction.opcode = .increment → m.Added 1 m₁) := by
  obtain ⟨-, word, completion, m₂, -, -, hdecode, hcompletes, -, hm₁⟩ := step_retired h
  obtain ⟨hallows, -⟩ := Instruction.legal_of_decode hdecode
  refine ⟨fun hopcode => ?_, fun hopcode => ?_, fun hopcode => ?_⟩
  · obtain ⟨value, hvalue, htarget, rfl⟩ := hcompletes.of_compare hopcode
    rw [hopcode] at hallows
    rw [operandValue_status] at hvalue
    rw [htarget, if_neg (by rw [hopcode]; decide)] at hm₁
    exact ⟨value, operandIs_of_operandValue hallows hvalue, compared_of_flags hm₁⟩
  · obtain ⟨value, hvalue, htarget, rfl⟩ := hcompletes.of_calculation? (by rw [calculation?, hopcode])
    rw [hopcode] at hallows
    rw [operandValue_status] at hvalue
    rw [htarget, if_neg (by rw [hopcode]; decide)] at hm₁
    exact ⟨value, operandIs_of_operandValue hallows hvalue, added_of_calculated hm₁⟩
  · obtain ⟨value, hvalue, htarget, rfl⟩ := hcompletes.of_calculation? (by rw [calculation?, hopcode])
    cases hvalue
    rw [htarget, if_neg (by rw [hopcode]; decide)] at hm₁
    exact added_of_calculated hm₁

/-- A machine about to compare a cleared accumulator with a cleared cell behind a pointer. The jump behind
that names a pointer outside of the memory. -/
def cleared : Machine where
  memory := #[0x08040001, 0x0E040100, 3, 0]

/-- Zero is not below zero, so the jump is not taken and its pointer is not looked at. -/
theorem branch_of_cleared :
    ∃ r m₁, cleared.step = (.retired r, m₁) ∧ r.instruction.opcode = .compare ∧
      m₁.accumulator = 0 ∧ m₁.memory = cleared.memory ∧
      m₁.effectiveAddress 1 ⟨.jumpCarryClear, .indirect, 0x100⟩ = .error (.addressOutOfRange 1 0x102) ∧
      m₁.step = (.retired ⟨1, ⟨.jumpCarryClear, .indirect, 0x100⟩, []⟩, { m₁ with pc := 2 }) := by
  have hstep : cleared.step = (.retired ⟨0, ⟨.compare, .indirect, 1⟩, [.flags ⟨true, true⟩]⟩,
      { cleared with flags := ⟨true, true⟩, pc := 1, status := .running }) := rfl
  obtain ⟨value, hvalue, hcompared⟩ := (branch_on_order hstep).1 rfl
  have hzero : value = 0 := by
    cases hvalue with
    | indirect mode pointed short cell =>
      cases pointed
      cases cell
      rfl
    | immediate mode | absolute mode | relative mode => cases mode
  obtain ⟨-, hclear⟩ :=
    hcompared.carryClear 1 0x0E040100 ⟨.jumpCarryClear, .indirect, 0x100⟩ rfl rfl rfl
  exact ⟨_, _, hstep, rfl, rfl, rfl, rfl, hclear (by rw [hzero]; decide)⟩

end Machine

end Accumulator
