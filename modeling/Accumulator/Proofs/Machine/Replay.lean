import Accumulator.Proofs.Machine.Ending

/-!
# Replaying the log

The effects of retired instructions are all that happened to what a machine shows.

* `Snapshot` — memory, registers, flags and output; `Snapshot.replay` applies the effects of one
  instruction, `Snapshot.replayAll` those of a list of instructions.
* `Bus.emitted` — what a write emits. It depends on the kinds of the devices alone, so that no
  instruction changes it.
* `Logged` — what a retired instruction says about the step that retired it.
* `snapshot_of_retires` — instructions that retire replay to the state behind them.
* `log_determines_state` — every step is logged, and every run is the replay of its log.
-/

namespace Accumulator

namespace Effect

/-- The new accumulator. -/
def accumulator? : Effect → Option Word
  | .accumulator value => some value
  | _ => none

/-- The new flags. -/
def flags? : Effect → Option Flags
  | .flags value => some value
  | _ => none

/-- The cell that is written, with its new word. -/
def store? : Effect → Option (Address × Word)
  | .store address value => some (address, value)
  | _ => none

/-- The target of a taken jump. -/
def target? : Effect → Option Address
  | .jump target => some target
  | _ => none

/-- The bytes that come out, if `emits` says what a write to a port emits. -/
def bytes (emits : Port → Word → List UInt8) : Effect → List UInt8
  | .output port value => emits port value
  | _ => []

end Effect

/-- What a write to a port emits. -/
def Bus.emitted (bus : Bus) (port : Port) (value : Word) : List UInt8 :=
  match bus.device? port with
  | some device => device.emission value
  | none => []

/-- What a machine shows of itself. -/
structure Snapshot where
  memory : Array Word
  accumulator : Word
  pc : Nat
  flags : Flags
  output : Array UInt8
  deriving DecidableEq, Repr

/-- The present state as far as it shows. -/
def Machine.snapshot (m : Machine) : Snapshot where
  memory := m.memory
  accumulator := m.accumulator
  pc := m.pc
  flags := m.flags
  output := m.output

namespace Snapshot

/-- The state after an instruction with the given effects: registers and flags take their last
value, stores are written, the program counter follows the jump or goes on by one, and the output
grows by what each write emits. -/
def replay (emits : Port → Word → List UInt8) (s : Snapshot) (effects : List Effect) : Snapshot where
  memory := (effects.filterMap Effect.store?).foldl
    (fun memory cell => memory.setIfInBounds cell.1.toNat cell.2) s.memory
  accumulator := (effects.filterMap Effect.accumulator?).getLast?.getD s.accumulator
  pc := match (effects.filterMap Effect.target?).getLast? with
    | some target => target.toNat
    | none => s.pc + 1
  flags := (effects.filterMap Effect.flags?).getLast?.getD s.flags
  output := s.output ++ effects.flatMap (Effect.bytes emits)

/-- The state after a list of retired instructions. -/
def replayAll (emits : Port → Word → List UInt8) (s : Snapshot) (rs : List Retired) : Snapshot :=
  rs.foldl (fun s r => s.replay emits r.effects) s

theorem replayAll_cons (emits : Port → Word → List UInt8) (s : Snapshot) (r : Retired)
    (rs : List Retired) :
    s.replayAll emits (r :: rs) = (s.replay emits r.effects).replayAll emits rs := rfl

end Snapshot

/-! ## The devices keep their kinds -/

namespace Device

/-- A device that has been read emits what it emitted before. -/
theorem emission_of_read {device next : Device} {value : Word}
    (h : device.read = .ok (value, next)) : next.emission = device.emission := by
  cases device with
  | decimal => cases h
  | console c =>
    rw [read_console] at h
    cases hread : c.read with
    | error e => rw [hread] at h; cases h
    | ok result => rw [hread] at h; cases h; rfl

end Device

namespace Bus

theorem read_eq_ok {bus bus' : Bus} {pc : Address} {port : Port} {value : Word}
    (h : bus.read pc port = .ok (value, bus')) :
    ∃ device next, bus.device? port = some device ∧ device.read = .ok (value, next) ∧
      bus' = bus.connect port next := by
  rw [read_eq] at h
  cases hdevice : bus.device? port with
  | none => rw [hdevice] at h; cases h
  | some device =>
    rw [hdevice] at h
    simp only at h
    cases hread : device.read with
    | error e => rw [hread] at h; cases h
    | ok result => rw [hread] at h; cases h; exact ⟨device, _, rfl, hread, rfl⟩

theorem emission_eq_ok {bus : Bus} {pc : Address} {port : Port} {value : Word}
    {bytes : List UInt8} (h : bus.emission pc port value = .ok bytes) :
    ∃ device, bus.device? port = some device ∧ bytes = bus.emitted port value := by
  unfold emission at h
  cases hdevice : bus.device? port with
  | none => rw [hdevice] at h; cases h
  | some device =>
    rw [hdevice] at h
    cases h
    exact ⟨device, rfl, by simp [emitted, hdevice]⟩

theorem emitted_of_read {bus bus' : Bus} {pc : Address} {port : Port} {value : Word}
    (h : bus.read pc port = .ok (value, bus')) : bus'.emitted = bus.emitted := by
  obtain ⟨device, next, hdevice, hread, rfl⟩ := read_eq_ok h
  funext other written
  unfold emitted
  rw [device?_connect]
  by_cases hother : other = port
  · rw [if_pos hother, hother, hdevice]
    exact congrFun (Device.emission_of_read hread) written
  · rw [if_neg hother]

theorem output_of_read {bus bus' : Bus} {pc : Address} {port : Port} {value : Word}
    (h : bus.read pc port = .ok (value, bus')) : bus'.output = bus.output := by
  obtain ⟨device, next, -, -, rfl⟩ := read_eq_ok h
  rfl

theorem emitted_emit (bus : Bus) (bytes : List UInt8) : (bus.emit bytes).emitted = bus.emitted :=
  rfl

end Bus

/-! ## One step -/

/-- What the retired instruction `r` says about the step from `m` to `m'`. -/
structure Logged (m : Machine) (r : Retired) (m' : Machine) : Prop where
  pc : r.pc.toNat = m.pc
  decoded : ∃ word, m.word? r.pc = some word ∧ Instruction.decode word = .ok r.instruction
  replay : m'.snapshot = m.snapshot.replay m.bus.emitted r.effects
  /-- At most one cell is written, and it lies in memory. -/
  stores : (r.effects.filterMap Effect.store?).length ≤ 1 ∧
    ∀ address value, Effect.store address value ∈ r.effects → address.toNat < m.memorySize
  jumps : (r.effects.filterMap Effect.target?).length ≤ 1
  /-- At most one word is written to a port, and that port has a device. -/
  outputs : (r.effects.filter fun e => e matches .output _ _).length ≤ 1 ∧
    ∀ port value, Effect.output port value ∈ r.effects → (m.bus.device? port).isSome
  emitted : m'.bus.emitted = m.bus.emitted
  status : m'.status = if .halted ∈ r.effects then .halted else .running

namespace Execution

variable {pc : Address} {i : Instruction} {m m₁ : Machine} {completion : Completion}

/-- The effects of an instruction replay to the machine it leaves, moved on. -/
theorem Completes.replay (h : Completes pc i m completion m₁) :
    Snapshot.replay m.bus.emitted m.snapshot completion.effects =
      { m₁.snapshot with pc := match completion.target with
        | some target => target.toNat
        | none => m₁.pc + 1 } := by
  cases h with
  | input _ _ read =>
    simp [Snapshot.replay, Machine.snapshot, Machine.output, List.filterMap_cons,
      Effect.store?, Effect.accumulator?, Effect.target?, Effect.flags?, Effect.bytes,
      Bus.output_of_read read]
  | output _ _ emission =>
    obtain ⟨device, hdevice, rfl⟩ := Bus.emission_eq_ok emission
    simp [Snapshot.replay, Machine.snapshot, Machine.output, List.filterMap_cons,
      Effect.store?, Effect.accumulator?, Effect.target?, Effect.flags?, Effect.bytes, Bus.emit]
  | _ =>
    simp [Snapshot.replay, Machine.snapshot, Machine.output, List.filterMap_cons,
      Effect.store?, Effect.accumulator?, Effect.target?, Effect.flags?, Effect.bytes]

theorem Completes.emitted (h : Completes pc i m completion m₁) :
    m₁.bus.emitted = m.bus.emitted := by
  cases h with
  | input _ _ read => exact Bus.emitted_of_read read
  | output _ _ _ => exact Bus.emitted_emit _ _
  | _ => rfl

theorem Completes.status (h : Completes pc i m completion m₁) : m₁.status = m.status := by
  cases h <;> rfl

/-- Only a halt reports that the machine has halted. -/
theorem Completes.halted_mem_iff (h : Completes pc i m completion m₁) :
    .halted ∈ completion.effects ↔ i.opcode = .halt := by
  cases h with
  | calculate calculation =>
    unfold Machine.calculation? at calculation
    split at calculation <;> simp_all
  | jump taken _ | fallThrough taken =>
    unfold Opcode.taken? at taken
    split at taken <;> simp_all
  | _ => simp_all

/-- An instruction stores, jumps and writes to a port at most once, into a cell or to a device that
is there. -/
theorem Completes.bounded (h : Completes pc i m completion m₁) :
    ((completion.effects.filterMap Effect.store?).length ≤ 1 ∧
      ∀ address value, Effect.store address value ∈ completion.effects →
        address.toNat < m.memorySize) ∧
    (completion.effects.filterMap Effect.target?).length ≤ 1 ∧
    ((completion.effects.filter fun e => e matches .output _ _).length ≤ 1 ∧
      ∀ port value, Effect.output port value ∈ completion.effects →
        (m.bus.device? port).isSome) := by
  cases h with
  | output _ _ emission =>
    obtain ⟨device, hdevice, -⟩ := Bus.emission_eq_ok emission
    simp [List.filterMap_cons, Effect.store?, Effect.target?, hdevice]
  | store _ _ inside =>
    simp [List.filterMap_cons, Effect.store?, Effect.target?, inside]
  | _ => simp [List.filterMap_cons, Effect.store?, Effect.target?]

end Execution

namespace Machine

/-- **A step that retires an instruction is logged.** -/
theorem step_logged {m m' : Machine} {r : Retired} (h : m.step = (.retired r, m')) :
    Logged m r m' := by
  obtain ⟨-, word, completion, m₁, hpc, hword, hdecode, hcompletes, heffects, rfl⟩ := step_retired h
  obtain ⟨hstores, hjumps, houtputs⟩ := hcompletes.bounded
  constructor
  · exact hpc
  · exact ⟨word, hword, hdecode⟩
  · rw [heffects]
    exact hcompletes.replay.symm
  · rw [heffects]
    exact hstores
  · rw [heffects]
    exact hjumps
  · rw [heffects]
    exact houtputs
  · exact hcompletes.emitted
  · simp only [heffects, hcompletes.halted_mem_iff, hcompletes.status]

/-- **Instructions that retire replay to the state behind them.** The induction carries that the
devices go on emitting what they emitted at the start. -/
theorem snapshot_of_retires {m m' : Machine} {rs : List Retired} (h : m.Retires rs m') :
    m'.snapshot = m.snapshot.replayAll m.bus.emitted rs := by
  induction h with
  | nil => rfl
  | cons step _ ih =>
    have hlogged := step_logged step
    rw [ih, Snapshot.replayAll_cons, hlogged.replay, hlogged.emitted]

/-- However a run ends, its end shows what the recorded instructions replay to. -/
theorem snapshot_of_run {m : Machine} {limit : Option Nat} {fuel : Nat}
    {finished : Finished (List Retired)} (h : m.run .recorder limit fuel [] = some finished) :
    finished.machine.snapshot = m.snapshot.replayAll m.bus.emitted finished.observed := by
  obtain ⟨rs, last, hrs, -, hadvance, hobserved⟩ := run_eq_some h
  have hseen : finished.observed = rs := by
    rw [hobserved]
    cases finished.outcome <;> exact Observer.watch_recorder 0 m rs []
  rw [hseen, ← snapshot_of_retires hrs, eq_of_advance_progress hadvance]
  rfl

/-- **The log determines the state.** Every step that retires an instruction is logged: the record
names the program counter and the decoded instruction, and its effects replay to the machine after
the step. Hence the records of any number of steps, and those of any run, replay from the first
state to the last. -/
theorem log_determines_state :
    (∀ (m m' : Machine) (r : Retired), m.step = (.retired r, m') → Logged m r m') ∧
    (∀ (m m' : Machine) (rs : List Retired), m.Retires rs m' →
      m'.snapshot = m.snapshot.replayAll m.bus.emitted rs) ∧
    ∀ (m : Machine) (limit : Option Nat) (fuel : Nat) (finished : Finished (List Retired)),
      m.run .recorder limit fuel [] = some finished →
      finished.machine.snapshot = m.snapshot.replayAll m.bus.emitted finished.observed :=
  ⟨fun _ _ _ => step_logged, fun _ _ _ => snapshot_of_retires, fun _ _ _ _ => snapshot_of_run⟩

/-- A machine about to read the length of its input, print it, store it over its first instruction
and halt. -/
def lengthPrinter : Machine where
  memory := #[0x01010000, 0x02010001, 0x04020000, 0x11000000]
  bus := Bus.standard #[7, 7]

theorem log_of_lengthPrinter :
    ∃ r m₁ rs m₂ finished,
      lengthPrinter.step = (.retired r, m₁) ∧ Logged lengthPrinter r m₁ ∧
      lengthPrinter.Retires rs m₂ ∧ rs.length = 3 ∧
      m₂.snapshot = lengthPrinter.snapshot.replayAll lengthPrinter.bus.emitted rs ∧
      lengthPrinter.run .recorder (some 9) 10 [] = some finished ∧
      finished.machine.snapshot =
        lengthPrinter.snapshot.replayAll lengthPrinter.bus.emitted finished.observed ∧
      finished.machine.snapshot =
        ⟨#[2, 0x02010001, 0x04020000, 0x11000000], 2, 4, {}, #[50, 10]⟩ := by
  have hstep : lengthPrinter.step =
      (.retired ⟨0, ⟨.input, .immediate, 0⟩, [.input 0 2, .accumulator 2]⟩, _) := rfl
  have hretires : lengthPrinter.Retires
      [⟨0, ⟨.input, .immediate, 0⟩, [.input 0 2, .accumulator 2]⟩,
        ⟨1, ⟨.output, .immediate, 1⟩, [.output 1 2]⟩,
        ⟨2, ⟨.store, .absolute, 0⟩, [.store 0 2]⟩] _ :=
    .cons rfl (.cons rfl (.cons rfl .nil))
  exact ⟨_, _, _, _, _, hstep, log_determines_state.1 _ _ _ hstep, hretires, rfl,
    log_determines_state.2.1 _ _ _ hretires, rfl,
    log_determines_state.2.2 _ (some 9) 10 _ rfl, rfl⟩

end Machine

end Accumulator
