import Accumulator.Proofs.Machine.Devices
import Accumulator.Proofs.Machine.Loading

/-!
# Input and output in order

What a program reads on a port is what the console there was given, and what comes out is what the
program wrote, each in the order of the instructions.

* `Request`, `Machine.serve`, `Machine.serveAll` — steps and loads, one after the other, with the
  instructions that retire in them.
* `Delivered` — what the retired instructions say about the input and the output between two
  machines: `delivered_of_step` for one step, `Delivered.trans` for two stretches,
  `delivered_serveAll` for every sequence of requests.
* `ReadsNext.step_eq` — what a step that reads comes to.
* `io_in_order` — the law of a machine with fresh devices, whatever is asked of it.
-/

namespace Accumulator

/-! ## Steps and loads -/

/-- What is asked of a machine. -/
inductive Request where
  | step
  | load (program : Program)
  deriving DecidableEq, Repr

namespace Machine

/-- The instruction that retires in answer to a request, if one does, and the machine after it. -/
def serve (m : Machine) : Request → Option Retired × Machine
  | .step =>
    match m.step with
    | (.retired r, m') => (some r, m')
    | (.halted, m') | (.faulted _, m') => (none, m')
  | .load program =>
    match loading program m with
    | .ok () m' | .error _ m' => (none, m')

/-- The instructions that retire in answer to one request after the other, and the last machine. -/
def serveAll (m : Machine) : List Request → List Retired × Machine
  | [] => ([], m)
  | request :: requests =>
    let (r?, m₁) := m.serve request
    let (rs, m') := m₁.serveAll requests
    (r?.toList ++ rs, m')

end Machine

/-- The value that is read on a port. -/
def Effect.inputOn? (port : Port) : Effect → Option Word
  | .input p value => if p = port then some value else none
  | _ => none

/-- The values that instructions read on a port, in the order in which they retired. -/
def inputsOn (port : Port) (rs : List Retired) : List Word :=
  (rs.flatMap Retired.effects).filterMap (Effect.inputOn? port)

/-- The bytes that instructions emit, in the order in which they retired, if `emits` says what a
write to a port emits. -/
def outputsOf (emits : Port → Word → List UInt8) (rs : List Retired) : List UInt8 :=
  (rs.flatMap Retired.effects).flatMap (Effect.bytes emits)

theorem inputsOn_append (port : Port) (rs ss : List Retired) :
    inputsOn port (rs ++ ss) = inputsOn port rs ++ inputsOn port ss := by
  rw [inputsOn, List.flatMap_append, List.filterMap_append]
  rfl

theorem outputsOf_append (emits : Port → Word → List UInt8) (rs ss : List Retired) :
    outputsOf emits (rs ++ ss) = outputsOf emits rs ++ outputsOf emits ss := by
  rw [outputsOf, List.flatMap_append, List.flatMap_append]
  rfl

/-- What the instructions `rs`, which retired between `m` and `m'`, say about input and output. -/
structure Delivered (m : Machine) (rs : List Retired) (m' : Machine) : Prop where
  /-- What a console had to deliver is what was read, and then what is left. -/
  input : ∀ port, m.bus.remaining? port =
    (m'.bus.remaining? port).map (inputsOn port rs ++ ·)
  output : m'.output.toList = m.output.toList ++ outputsOf m.bus.emitted rs
  /-- A port keeps the kind of its device. -/
  devices : ∀ port, (m'.bus.device? port).map Device.emission =
    (m.bus.device? port).map Device.emission
  emitted : m'.bus.emitted = m.bus.emitted
  /-- Every write went to a device. -/
  connected : ∀ port value, .output port value ∈ rs.flatMap Retired.effects →
    (m.bus.device? port).isSome

namespace Execution

variable {pc : Address} {i : Instruction} {m m₁ : Machine} {completion : Completion}

theorem Completes.remaining? (h : Completes pc i m completion m₁) (port : Port) :
    m.bus.remaining? port = (m₁.bus.remaining? port).map
      (completion.effects.filterMap (Effect.inputOn? port) ++ ·) := by
  cases h with
  | @input p value bus _ _ read =>
    obtain ⟨rest, hbefore, hafter⟩ := Bus.remaining?_of_read read
    rw [hafter]
    by_cases hport : port = p
    · subst hport
      simp [hbefore, List.filterMap_cons, Effect.inputOn?]
    · simp [hport, Ne.symm hport, List.filterMap_cons, Effect.inputOn?]
  | output _ _ _ =>
    simp only [List.filterMap_cons, Effect.inputOn?, List.filterMap_nil, List.nil_append,
      Option.map_id']
    rfl
  | _ => simp [List.filterMap_cons, Effect.inputOn?]

theorem Completes.devices (h : Completes pc i m completion m₁) (port : Port) :
    (m₁.bus.device? port).map Device.emission = (m.bus.device? port).map Device.emission := by
  cases h with
  | input _ _ read => exact Bus.emission?_of_read read port
  | _ => rfl

end Execution

namespace Machine

variable {m m' : Machine}

theorem delivered_of_bus (h : m'.bus = m.bus) : Delivered m [] m' where
  input port := by simp [h, inputsOn]
  output := by simp [output, h, outputsOf]
  devices port := by rw [h]
  emitted := by rw [h]
  connected port value hmem := by cases hmem

/-- **A step that retires an instruction delivers what the instruction says.** -/
theorem delivered_of_step {r : Retired} (h : m.step = (.retired r, m')) : Delivered m [r] m' := by
  have hlogged := step_logged h
  have houtput : m'.output = m.output ++ r.effects.flatMap (Effect.bytes m.bus.emitted) :=
    congrArg Snapshot.output hlogged.replay
  obtain ⟨-, word, completion, m₁, -, -, -, hcompletes, heffects, rfl⟩ := step_retired h
  have hflat : [r].flatMap Retired.effects = completion.effects := by
    rw [List.flatMap_singleton, heffects]
  constructor
  · intro port
    rw [inputsOn, hflat]
    exact hcompletes.remaining? port
  · rw [houtput, outputsOf, hflat, heffects, Array.toList_appendList]
  · exact hcompletes.devices
  · exact hlogged.emitted
  · intro port value hmem
    rw [List.flatMap_singleton] at hmem
    exact hlogged.outputs.2 port value hmem

end Machine

namespace Delivered

variable {m m₁ m' : Machine} {rs ss : List Retired}

/-- **What two stretches deliver, they deliver one after the other.** -/
theorem trans (first : Delivered m rs m₁) (second : Delivered m₁ ss m') :
    Delivered m (rs ++ ss) m' where
  input port := by
    rw [first.input, second.input, Option.map_map, inputsOn_append]
    congr 1
    funext rest
    exact (List.append_assoc ..).symm
  output := by
    rw [second.output, first.output, first.emitted, outputsOf_append, List.append_assoc]
  devices port := by rw [second.devices, first.devices]
  emitted := by rw [second.emitted, first.emitted]
  connected port value hmem := by
    rw [List.flatMap_append, List.mem_append] at hmem
    rcases hmem with hmem | hmem
    · exact first.connected port value hmem
    · have hkind : ((m₁.bus.device? port).map Device.emission).isSome =
          ((m.bus.device? port).map Device.emission).isSome := by rw [first.devices]
      rw [Option.isSome_map, Option.isSome_map] at hkind
      rw [← hkind]
      exact second.connected port value hmem

end Delivered

namespace Machine

theorem delivered_serve (m : Machine) (request : Request) :
    Delivered m (m.serve request).1.toList (m.serve request).2 := by
  cases request with
  | step =>
    rcases hstep : m.step with ⟨progress, m'⟩
    cases progress with
    | retired r =>
      simp only [serve, hstep]
      exact delivered_of_step hstep
    | halted =>
      simp only [serve, hstep]
      exact delivered_of_bus (congrArg bus (step_halted hstep).2)
    | faulted fault =>
      simp only [serve, hstep]
      rw [eq_abort_of_step hstep]
      exact delivered_of_bus rfl
  | load program =>
    cases hload : loading program m with
    | ok u m' =>
      simp only [serve, hload]
      rw [(load_eq_ok (loading_eq_ok.mp hload)).2]
      exact delivered_of_bus rfl
    | error error m' =>
      simp only [serve, hload]
      rw [(loading_eq_error.mp hload).2]
      exact delivered_of_bus rfl

/-- **Every sequence of requests delivers what its instructions say.** -/
theorem delivered_serveAll (m : Machine) (requests : List Request) :
    Delivered m (m.serveAll requests).1 (m.serveAll requests).2 := by
  induction requests generalizing m with
  | nil => exact delivered_of_bus rfl
  | cons request requests ih =>
    exact (m.delivered_serve request).trans (ih (m.serve request).2)

end Machine

/-! ## The law -/

namespace Machine

/-- The next step of the machine executes, at `pc`, an instruction that reads from a port. -/
structure ReadsNext (m : Machine) (pc : Address) (port : Port) : Prop where
  active : m.Active
  instruction : ∃ word i, m.fetch = .ok (pc, word) ∧ Instruction.decode word = .ok i ∧
    i.opcode = .input ∧ i.operand.toNat = port.toNat

/-- A step that reads from a port comes to what the read comes to. -/
theorem ReadsNext.step_eq {m : Machine} {pc : Address} {port : Port} (h : m.ReadsNext pc port) :
    ∃ i : Instruction, i.opcode = .input ∧
      m.step = match m.bus.read pc port with
        | .ok (value, bus) => (.retired ⟨pc, i, [.input port value, .accumulator value]⟩,
            { m with bus, accumulator := value, pc := m.pc + 1, status := .running })
        | .error fault => (.faulted fault, m.abort fault) := by
  obtain ⟨word, i, hfetch, hdecode, hopcode, hoperand⟩ := h.instruction
  have hfetched : fetch { m with status := .running } = .ok (pc, word) := hfetch
  have hport : i.port pc word = .ok port := by
    rw [Instruction.port, hoperand, Port.ofNat?_toNat]
  have hretire : Execution.retire { m with status := .running } =
      match m.bus.read pc port with
      | .ok (value, bus) => .ok ⟨pc, i, [.input port value, .accumulator value]⟩
          { m with bus, accumulator := value, pc := m.pc + 1, status := .running }
      | .error fault => .error fault { m with status := .running } := by
    rw [Execution.retire_of_decode hfetched hdecode, Execution.bind_apply]
    simp only [Execution.execute, Execution.executeBy, Execution.port_standard, hopcode,
      Execution.bind_observe, hport]
    rw [Execution.bind_apply, Execution.readPort_eq]
    cases m.bus.read pc port <;> rfl
  refine ⟨i, hopcode, ?_⟩
  rw [step_of_active h.active, hretire]
  cases m.bus.read pc port with
  | ok result => simp [hopcode]
  | error fault => rfl

/-- A read from a console that has delivered everything faults. -/
theorem ReadsNext.step_of_remaining?_nil {m : Machine} {pc : Address} {port : Port}
    (h : m.ReadsNext pc port) (hremaining : m.bus.remaining? port = some []) :
    m.step = (.faulted (.inputExhausted pc), m.abort (.inputExhausted pc)) := by
  obtain ⟨i, -, hstep⟩ := h.step_eq
  rw [hstep, Bus.read_of_remaining?_nil pc hremaining]

/-- **Input and output are in order, without loss and without duplication.** Let a machine start with
fresh devices and serve any steps and loads. What its instructions read on the port of a console is a
beginning of what that console delivers, and a read after all of it faults. What has come out is what
each write emitted, in the order of the writes on all ports together: the low byte on a console, the
decimal digits and a line feed on a decimal printer. -/
theorem io_in_order (memorySize : Nat) {bus : Bus} (fresh : bus.Fresh) (requests : List Request)
    {rs : List Retired} {m' : Machine} (h : (reset memorySize bus).serveAll requests = (rs, m')) :
    (∀ port c, bus.device? port = some (.console c) →
      (inputsOn port rs).map UInt32.toNat <+: c.sequence ∧
      ((inputsOn port rs).map UInt32.toNat = c.sequence → ∀ pc, m'.ReadsNext pc port →
        m'.step = (.faulted (.inputExhausted pc), m'.abort (.inputExhausted pc)))) ∧
    m'.output.toList = outputsOf bus.emitted rs ∧
    ∀ port value, .output port value ∈ rs.flatMap Retired.effects →
      (∃ c, bus.device? port = some (.console c) ∧
        bus.emitted port value = [UInt8.ofNat (value.toNat % 256)]) ∨
      (bus.device? port = some .decimal ∧
        bus.emitted port value = (toString value.toNat ++ "\n").toUTF8.data.toList) := by
  have hdelivered : Delivered (reset memorySize bus) rs m' := by
    have hserved := delivered_serveAll (reset memorySize bus) requests
    rwa [h] at hserved
  refine ⟨fun port c hdevice => ?_, ?_, fun port value hmem => ?_⟩
  · obtain ⟨hread, hall⟩ := Bus.sequence_of_remaining? fresh hdevice (hdelivered.input port)
    exact ⟨hread, fun hwhole pc hnext => hnext.step_of_remaining?_nil (hall hwhole)⟩
  · have houtput : (reset memorySize bus).output = #[] := fresh.output
    rw [hdelivered.output, houtput]
    rfl
  · obtain ⟨device, hdevice⟩ := Option.isSome_iff_exists.mp (hdelivered.connected port value hmem)
    have hemitted : bus.emitted port value = device.emission value := by
      unfold Bus.emitted
      rw [show bus.device? port = some device from hdevice]
    cases device with
    | console c => exact .inl ⟨c, hdevice, hemitted.trans (Device.emission_console c value)⟩
    | decimal => exact .inr ⟨hdevice, hemitted.trans (Device.emission_decimal value)⟩

/-- Reads the lengths and a byte from two consoles and writes each to a decimal printer or back. -/
def exchangeProgram : Program :=
  .ofSections [⟨0, [.data 0x01010000, .data 0x02010001, .data 0x01010003, .data 0x02010000,
    .data 0x01010000, .data 0x02010000, .data 0x01010000]⟩]

/-- Two consoles, one of them without input, and a decimal printer. -/
def exchangeBus : Bus :=
  ((({} : Bus).connect 0 (.console (.fresh #[7]))).connect 3 (.console (.fresh #[]))).connect 1 .decimal

/-- The machine with that program and those devices. -/
def exchange : Machine :=
  { reset 8 exchangeBus with memory := writeCells (.replicate 8 0) exchangeProgram.cells }

theorem load_exchangeProgram : (reset 8 exchangeBus).load exchangeProgram = .ok exchange := by
  have hvalid : exchangeProgram.validate (reset 8 exchangeBus).memorySize = .ok () :=
    Program.validate_eq_ok_iff.mpr ⟨by decide, by decide⟩
  rw [load_eq, hvalid]
  rfl

theorem io_in_order_of_exchange :
    exchangeBus.Fresh ∧ ∃ rs m',
      (reset 8 exchangeBus).serveAll (.load exchangeProgram :: List.replicate 6 .step) = (rs, m') ∧
      (inputsOn 0 rs).map UInt32.toNat = (Console.fresh #[7]).sequence ∧
      m'.ReadsNext 6 0 ∧
      m'.step = (.faulted (.inputExhausted 6), m'.abort (.inputExhausted 6)) ∧
      (inputsOn 3 rs).map UInt32.toNat <+: (Console.fresh #[]).sequence ∧
      m'.output.toList = outputsOf exchangeBus.emitted rs ∧ m'.output = #[49, 10, 0, 7] := by
  have fresh : exchangeBus.Fresh :=
    ((Bus.fresh_empty.connect 0 (Device.untouched_console #[7])).connect 3
      (Device.untouched_console #[])).connect 1 trivial
  have hserved : (reset 8 exchangeBus).serveAll (.load exchangeProgram :: List.replicate 6 .step) =
      exchange.serveAll (List.replicate 6 .step) := by
    rw [serveAll, serve, loading_eq_ok.mpr load_exchangeProgram]
    rfl
  obtain ⟨hinput, houtput, -⟩ := io_in_order 8 fresh _ hserved
  obtain ⟨-, hexhausted⟩ := hinput 0 _ rfl
  obtain ⟨hread, -⟩ := hinput 3 _ rfl
  have hnext : (exchange.serveAll (List.replicate 6 .step)).2.ReadsNext 6 0 :=
    ⟨.inr rfl, 0x01010000, ⟨.input, .immediate, 0⟩, rfl, rfl, rfl, rfl⟩
  exact ⟨fresh, _, _, hserved, rfl, hnext, hexhausted rfl 6 hnext, hread, houtput, rfl⟩

end Machine

end Accumulator
