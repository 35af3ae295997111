import Accumulator.Proofs.Machine.Calls
import Accumulator.Proofs.Machine.Perform
import Accumulator.Proofs.Machine.Replay

/-!
# What holds of every machine that calls lead to

* `step_moves` — a step that retires leaves the size of memory, and moves the program counter to the
  target of a taken jump or by one.
* `Machine.Consistent` — memory has its size, the program counter is at most one past the address
  space, and a fault names it; `kept_consistent` — no call ends this.
* `Machine.Guarded` — every access to memory lies inside of it or is answered by a fault.
* `step_of_size_le_pc` — a machine that ran past its memory faults.
* `consistent_of_answersAll` — all of this holds after every sequence of calls on a fresh machine.
-/

namespace Accumulator

namespace Execution

variable {pc : Address} {i : Instruction} {m m₁ : Machine} {completion : Completion}

theorem Completes.memorySize (h : Completes pc i m completion m₁) :
    m₁.memorySize = m.memorySize := by
  cases h with
  | store _ _ _ => exact Array.size_setIfInBounds
  | _ => rfl

theorem Completes.pc_eq (h : Completes pc i m completion m₁) : m₁.pc = m.pc := by
  cases h <;> rfl

/-- Only a taken jump has a target, and it reports it. -/
theorem Completes.target_eq_some_iff (h : Completes pc i m completion m₁) (target : Address) :
    completion.target = some target ↔ .jump target ∈ completion.effects := by
  cases h <;> simp [eq_comm]

end Execution

namespace Machine

variable {size n : Nat} {bus : Bus} {calls : List Call} {m m' : Machine}

/-- **Where a retired instruction leads.** It lay in memory, and the program counter goes to the
target of a taken jump or on by one. -/
theorem step_moves {r : Retired} (h : m.step = (.retired r, m')) :
    m.pc < m.memorySize ∧ m'.memorySize = m.memorySize ∧
      ((∃ target, .jump target ∈ r.effects ∧ m'.pc = target.toNat) ∨
        (∀ target, .jump target ∉ r.effects) ∧ m'.pc = m.pc + 1) := by
  obtain ⟨-, word, completion, m₁, hpc, hword, -, hcompletes, heffects, rfl⟩ := step_retired h
  have hinside : m.pc < m.memorySize := by
    rw [← hpc]
    exact (Array.getElem?_eq_some_iff.mp hword).1
  refine ⟨hinside, hcompletes.memorySize, ?_⟩
  rw [heffects]
  have htarget := hcompletes.target_eq_some_iff
  cases hcompletion : completion.target with
  | some target => exact .inl ⟨target, (htarget target).mp hcompletion, rfl⟩
  | none =>
    refine .inr ⟨fun target hmem => ?_, congrArg (· + 1) hcompletes.pc_eq⟩
    rw [← htarget, hcompletion] at hmem
    cases hmem

/-- Memory has its size, the program counter is at most one past the address space, and that only
behind a full memory, and a fault names the program counter. -/
structure Consistent (size : Nat) (m : Machine) : Prop where
  memorySize : m.memorySize = size
  pc_le : m.pc ≤ addressSpace
  full : m.pc = addressSpace → size = addressSpace
  fault : ∀ fault, m.status = .faulted fault → fault.pc = m.pc

theorem consistent_reset (size : Nat) (bus : Bus) : (reset size bus).Consistent size where
  memorySize := by simp [Machine.memorySize, reset]
  pc_le := Nat.zero_le _
  full := nofun
  fault := nofun

theorem Consistent.of_retired {r : Retired} (hsize : size ≤ addressSpace) (h : m.Consistent size)
    (hstep : m.step = (.retired r, m')) : m'.Consistent size := by
  obtain ⟨hinside, hmemory, hmoves⟩ := step_moves hstep
  rw [h.memorySize] at hinside hmemory
  have hstatus : ∀ fault, m'.status ≠ .faulted fault := by
    intro fault
    rw [(step_logged hstep).status]
    split <;> nofun
  refine ⟨hmemory, ?_, ?_, fun fault hfault => absurd hfault (hstatus fault)⟩
  · rcases hmoves with ⟨target, -, hpc⟩ | ⟨-, hpc⟩
    · rw [hpc]
      exact Nat.le_of_lt target.toNat_lt
    · omega
  · intro hpast
    rcases hmoves with ⟨target, -, hpc⟩ | ⟨-, hpc⟩
    · exact absurd (hpc ▸ hpast) (Nat.ne_of_lt target.toNat_lt)
    · omega

/-- A machine that stops with a fault of its own stays consistent. -/
theorem Consistent.abort {fault : Fault} (h : m.Consistent size) (hfault : fault.pc = m.pc) :
    (m.abort fault).Consistent size where
  memorySize := h.memorySize
  pc_le := h.pc_le
  full := h.full
  fault := by
    intro fault' hstatus
    cases hstatus
    exact hfault

theorem kept_consistent (hsize : size ≤ addressSpace) : Kept (Consistent size) where
  step := by
    intro m m' progress h hstep
    cases progress with
    | retired r => exact h.of_retired hsize hstep
    | halted => rwa [(step_halted hstep).2]
    | faulted fault =>
      rcases step_faulted hstep with ⟨-, rfl⟩ | ⟨-, rfl, hpc⟩
      · exact h
      · exact h.abort hpc
  load := by
    intro m m' program h hload
    obtain ⟨-, rfl⟩ := load_eq_ok hload
    exact ⟨(size_writeCells _ _).trans h.memorySize, h.pc_le, h.full, h.fault⟩
  cut := fun _ h => h.abort rfl

/-! ## Access to memory -/

theorem fetch_of_size_le (h : m.memorySize ≤ m.pc) : m.fetch = .error (.pcOutOfRange m.pc) := by
  unfold fetch
  split
  · rfl
  · next pc hpc =>
    have hword : m.word? pc = none := by
      rw [word?, Address.toNat_of_ofNat? hpc]
      exact Array.getElem?_eq_none h
    rw [hword]

/-- A machine that ran past its memory faults. -/
theorem step_of_size_le_pc (hactive : m.Active) (h : m.memorySize ≤ m.pc) :
    m.step = (.faulted (.pcOutOfRange m.pc), m.abort (.pcOutOfRange m.pc)) := by
  have hfetch : fetch { m with status := .running } = .error (.pcOutOfRange m.pc) :=
    fetch_of_size_le h
  rw [step_of_active hactive, Execution.retire, Execution.retireBy_of_fetch_error hfetch]
  rfl

/-- Every fetch, read, write and load lies in memory, or it is answered by a fault or refused. -/
structure Guarded (m : Machine) : Prop where
  fetch : (m.pc < m.memorySize ∧ ∃ pc word, pc.toNat = m.pc ∧ m.fetch = .ok (pc, word)) ∨
    m.memorySize ≤ m.pc ∧ m.fetch = .error (.pcOutOfRange m.pc)
  read : ∀ pc address,
    (address.toNat < m.memorySize ∧ ∃ word, m.readCell pc address = .ok word) ∨
      m.memorySize ≤ address.toNat ∧
        m.readCell pc address = .error (.addressOutOfRange pc address.toUInt32)
  write : ∀ pc address value,
    (address.toNat < m.memorySize ∧ ∃ m', Execution.writeCell pc address value m = .ok () m') ∨
      m.memorySize ≤ address.toNat ∧
        Execution.writeCell pc address value m = .error (.addressOutOfRange pc address.toUInt32) m
  load : ∀ program,
    ((∀ cell ∈ program.cells, cell.1 < m.memorySize) ∧ ∃ m', m.load program = .ok m') ∨
      ∃ error, m.load program = .error error

theorem word?_of_lt {address : Address} (h : address.toNat < m.memorySize) :
    ∃ word, m.word? address = some word := ⟨_, Array.getElem?_eq_getElem h⟩

/-- Memory that sixteen address bits can reach is guarded. -/
theorem guarded (hsize : m.memorySize ≤ addressSpace) : m.Guarded where
  fetch := by
    by_cases hpc : m.pc < m.memorySize
    · have haddress : (UInt16.ofNat m.pc).toNat = m.pc :=
        UInt16.toNat_ofNat_of_lt' (Nat.lt_of_lt_of_le hpc hsize)
      obtain ⟨word, hword⟩ := word?_of_lt (haddress.symm ▸ hpc)
      exact .inl ⟨hpc, _, word, haddress, fetch_eq_ok.mpr ⟨haddress, hword⟩⟩
    · exact .inr ⟨Nat.le_of_not_lt hpc, fetch_of_size_le (Nat.le_of_not_lt hpc)⟩
  read := by
    intro pc address
    by_cases h : address.toNat < m.memorySize
    · obtain ⟨word, hword⟩ := word?_of_lt h
      exact .inl ⟨h, word, by rw [readCell, hword]⟩
    · have hnone : m.word? address = none := Array.getElem?_eq_none (Nat.le_of_not_lt h)
      exact .inr ⟨Nat.le_of_not_lt h, readCell_eq_error.mpr ⟨hnone, rfl⟩⟩
  write := by
    intro pc address value
    by_cases h : address.toNat < m.memorySize
    · exact .inl ⟨h, _, Execution.writeCell_eq_ok.mpr ⟨h, rfl⟩⟩
    · exact .inr ⟨Nat.le_of_not_lt h,
        Execution.writeCell_eq_error.mpr ⟨Nat.le_of_not_lt h, rfl, rfl⟩⟩
  load := by
    intro program
    cases hload : m.load program with
    | ok m' => exact .inl ⟨fun _ => Program.lt_of_validate (load_eq_ok hload).1, m', rfl⟩
    | error error => exact .inr ⟨error, rfl⟩

/-- **What holds after every sequence of calls on a fresh machine.** Memory keeps its size, the
program counter is at most one past the address space, and that only behind a full memory, so that
its successor is a word, and a fault names it. Every access to memory is guarded. A machine that ran
past its memory faults there, and only a taken jump moves the program counter otherwise than by
one. -/
theorem consistent_of_answersAll (hsize : size ≤ addressSpace)
    (h : (reset size bus).AnswersAll calls n m) :
    m.Consistent size ∧ m.pc + 1 < UInt32.size ∧ m.Guarded ∧
      (m.Active → size ≤ m.pc →
        m.step = (.faulted (.pcOutOfRange m.pc), m.abort (.pcOutOfRange m.pc))) ∧
      ∀ r m', m.step = (.retired r, m') → (∀ target, .jump target ∉ r.effects) →
        m'.pc = m.pc + 1 := by
  have hm : m.Consistent size := (kept_consistent hsize).answersAll h (consistent_reset size bus)
  refine ⟨hm, ?_, guarded (hm.memorySize.symm ▸ hsize), ?_, ?_⟩
  · exact Nat.lt_of_le_of_lt (Nat.succ_le_succ hm.pc_le) (by decide)
  · intro hactive hpast
    exact step_of_size_le_pc hactive (hm.memorySize.symm ▸ hpast)
  · intro r m' hstep hjump
    obtain ⟨-, -, ⟨target, hmem, -⟩ | ⟨-, hpc⟩⟩ := step_moves hstep
    · exact absurd hmem (hjump target)
    · exact hpc

/-- A jump to the last cell of a full memory, and an instruction in that cell. -/
def lastCellProgram : Program :=
  .ofSections [⟨0, [.command ⟨.jump, .absolute, 0xFFFF⟩]⟩, ⟨0xFFFF, [.command ⟨.nop, .implied, 0⟩]⟩]

theorem validate_lastCellProgram : lastCellProgram.validate addressSpace = .ok () :=
  Program.validate_eq_ok_iff.mpr ⟨by decide, by decide⟩

/-- Two steps lead from the first cell over the last one past the address space. -/
theorem answersAll_lastCellProgram :
    ∃ m, (reset addressSpace {}).AnswersAll [.load lastCellProgram, .step, .step] 2 m ∧
      m.Active ∧ m.pc = addressSpace := by
  have hsize : (reset addressSpace {}).memorySize = addressSpace := Array.size_replicate
  obtain ⟨m, hload⟩ : ∃ m, (reset addressSpace {}).load lastCellProgram = .ok m :=
    exists_load_iff.mpr (hsize.symm ▸ validate_lastCellProgram)
  have hfirst : m.word? 0 = some (Instruction.encode ⟨.jump, .absolute, 0xFFFF⟩) :=
    getElem?_of_load hload (.head _)
  have hlast : m.word? 0xFFFF = some (Instruction.encode ⟨.nop, .implied, 0⟩) :=
    getElem?_of_load hload (.tail _ (.head _))
  obtain ⟨-, hm⟩ := load_eq_ok hload
  have hjump : m.step = m.stepWith 0 ⟨.jump, .absolute, 0xFFFF⟩ (.address .absolute 0xFFFF) :=
    step_eq_stepWith (.inl (by rw [hm]; rfl)) (by rw [hm]; rfl) hfirst
      (Instruction.decode_encode ⟨rfl, nofun⟩) rfl
  have hnop : ({ m with pc := 0xFFFF, status := .running } : Machine).step =
      stepWith { m with pc := 0xFFFF, status := .running } 0xFFFF ⟨.nop, .implied, 0⟩ .none :=
    step_eq_stepWith (.inr rfl) rfl hlast (Instruction.decode_encode ⟨rfl, nofun⟩) rfl
  exact ⟨_, .cons (.loaded (loading_eq_ok.mpr hload)) (.cons (.retired hjump) (.cons (.retired hnop) .nil)),
    .inr rfl, rfl⟩

theorem consistent_past_lastCell :
    addressSpace ≤ addressSpace ∧ ∃ m,
      (reset addressSpace {}).AnswersAll [.load lastCellProgram, .step, .step] 2 m ∧
      m.Consistent addressSpace ∧ m.pc = addressSpace ∧
      m.step = (.faulted (.pcOutOfRange addressSpace), m.abort (.pcOutOfRange addressSpace)) := by
  obtain ⟨m, hcalls, hactive, hpc⟩ := answersAll_lastCellProgram
  obtain ⟨hconsistent, -, -, hpast, -⟩ := consistent_of_answersAll (Nat.le_refl _) hcalls
  have hstep := hpast hactive (Nat.le_of_eq hpc.symm)
  rw [hpc] at hstep
  exact ⟨Nat.le_refl _, m, hcalls, hconsistent, hpc, hstep⟩

end Machine

end Accumulator
