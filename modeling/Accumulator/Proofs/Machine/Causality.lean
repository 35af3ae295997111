import Accumulator.Proofs.Machine.Embedding

/-!
# Input is consumed in order

A machine cannot tell two inputs apart before it has read the first byte in which they differ.

* `Machine.steps` — what each of the next steps comes to, and the machine behind them.
* `Embedding.feed` — another input in every console. It goes unnoticed by a read of the length if the
  inputs are equally long, and by a read of a byte if they agree there.
* `Bus.Consumed` — how much of the input has been read at most; `Machine.consumed_of_step` says what
  one step adds to it.
* `steps_feed` — the steps of a machine that reads only what the inputs have in common.
* `input_causal` — the law of a fresh machine with the usual devices.
-/

namespace Accumulator

/-- The instruction that a step retired. -/
def Progress.retired? : Progress → Option Retired
  | .retired r => some r
  | .halted | .faulted _ => none

/-- What each of the next `n` steps comes to, and the machine behind them. -/
def Machine.steps : Nat → Machine → List Progress × Machine
  | 0, m => ([], m)
  | n + 1, m =>
    let (progress, m₁) := m.step
    let (rest, m') := m₁.steps n
    (progress :: rest, m')

/-! ## Another input -/

/-- The device with another input, if it has one. -/
def Device.feed (input : Array UInt8) : Device → Device
  | .console c => .console { c with input }
  | .decimal => .decimal

namespace Bus

/-- The bus with another input in every console. -/
def feed (input : Array UInt8) (bus : Bus) : Bus :=
  { bus with devices := bus.devices.map fun entry => (entry.1, entry.2.feed input) }

theorem device?_feed (input : Array UInt8) (bus : Bus) (port : Port) :
    (bus.feed input).device? port = (bus.device? port).map (Device.feed input) := by
  unfold device? feed
  induction bus.devices with
  | nil => rfl
  | cons entry rest ih =>
    obtain ⟨other, device⟩ := entry
    simp only [List.map_cons, List.lookup_cons]
    cases port == other with
    | true => rfl
    | false => exact ih

theorem feed_connect (input : Array UInt8) (bus : Bus) (port : Port) (device : Device) :
    (bus.connect port device).feed input = (bus.feed input).connect port (device.feed input) := by
  have hassign : ∀ devices : List (Port × Device),
      (assign port device devices).map (fun entry => (entry.1, entry.2.feed input)) =
        assign port (device.feed input)
          (devices.map fun entry => (entry.1, entry.2.feed input)) := by
    intro devices
    induction devices with
    | nil => rfl
    | cons entry rest ih =>
      simp only [assign, List.map_cons]
      split
      · rfl
      · rw [List.map_cons, ih]
  rw [connect, feed, connect, feed, hassign]

theorem emission_feed (input : Array UInt8) (bus : Bus) (pc : Address) (port : Port) (value : Word) :
    (bus.feed input).emission pc port value = bus.emission pc port value := by
  rw [emission, emission, device?_feed]
  cases bus.device? port with
  | none => rfl
  | some device => cases device <;> rfl

end Bus

/-- Another input in every console. -/
def Embedding.feed (input : Array UInt8) : Embedding where
  memory cells := cells
  bus := Bus.feed input
  word h := h
  store _ _ := rfl
  emission := Bus.emission_feed input
  emit _ _ := rfl

namespace Embedding

theorem exact_feed (input : Array UInt8) : (feed input).Exact := fun _ => Nat.le_refl _

/-- A read comes to the same if the inputs are equally long and agree in the byte that is due. -/
theorem readsAlike_feed {input : Array UInt8} {bus : Bus} {port : Port} (pc : Address)
    (h : ∀ c, bus.device? port = some (.console c) →
      c.input.size = input.size ∧ (c.lengthSent = true → c.input[c.cursor]? = input[c.cursor]?)) :
    (feed input).ReadsAlike bus pc port := by
  show (bus.feed input).read pc port =
    (bus.read pc port).map fun result => (result.1, result.2.feed input)
  rw [Bus.read_eq, Bus.read_eq, Bus.device?_feed]
  cases hdevice : bus.device? port with
  | none => rfl
  | some device =>
    cases device with
    | decimal => rfl
    | console c =>
      obtain ⟨hsize, hbyte⟩ := h c hdevice
      simp only [Option.map_some, Device.feed, Device.read_console, Console.read_eq]
      cases hsent : c.lengthSent with
      | false => simp [hsize, Except.map, Bus.feed_connect, Device.feed]
      | true =>
        rw [if_pos rfl, if_pos rfl, ← hbyte hsent]
        cases c.input[c.cursor]? with
        | none => rfl
        | some byte => simp [Except.map, Bus.feed_connect, Device.feed]

end Embedding

/-! ## How much of the input has been read -/

/-- The number of words that have been read from a console. -/
def Console.consumed (c : Console) : Nat := if c.lengthSent then c.cursor + 1 else c.cursor

theorem Console.consumed_of_read {c next : Console} {value : Word} (h : c.read = .ok (value, next)) :
    next.input = c.input ∧ next.consumed = c.consumed + 1 := by
  rw [read_eq] at h
  split at h
  · next hsent =>
    split at h
    · cases h
      exact ⟨rfl, by rw [consumed, consumed, if_pos hsent, if_pos hsent]⟩
    · cases h
  · next hsent =>
    cases h
    exact ⟨rfl, by rw [consumed, consumed, if_pos rfl, if_neg hsent]⟩

/-- The only console is on port 0. It has this input, and at most `count` words have been read. -/
def Bus.Consumed (input : Array UInt8) (count : Nat) (bus : Bus) : Prop :=
  ∀ port c, bus.device? port = some (.console c) →
    port = 0 ∧ c.input = input ∧ c.consumed ≤ count

theorem Bus.consumed_standard (input : Array UInt8) : (Bus.standard input).Consumed input 0 := by
  intro port c hdevice
  rw [standard, device?_connect, device?_connect] at hdevice
  split at hdevice
  · cases hdevice
  · split at hdevice
    · next hport =>
      cases hdevice
      exact ⟨hport, rfl, Nat.le_refl 0⟩
    · cases hdevice

theorem Bus.Consumed.read {input : Array UInt8} {count : Nat} {bus bus' : Bus} {pc : Address}
    {port : Port} {value : Word} (h : bus.Consumed input count)
    (hread : bus.read pc port = .ok (value, bus')) :
    port = 0 ∧ bus'.Consumed input (count + 1) := by
  obtain ⟨device, next, hdevice, hnext, rfl⟩ := Bus.read_eq_ok hread
  cases device with
  | decimal => cases hnext
  | console c =>
    obtain ⟨rfl, hinput, hcount⟩ := h port c hdevice
    rw [Device.read_console] at hnext
    obtain ⟨⟨value', c'⟩, hconsole, heq⟩ := Except.map_eq_ok.mp hnext
    cases heq
    obtain ⟨hinput', hcount'⟩ := Console.consumed_of_read hconsole
    refine ⟨rfl, fun other found hfound => ?_⟩
    rw [Bus.device?_connect] at hfound
    split at hfound
    · next hother =>
      cases hfound
      exact ⟨hother, hinput'.trans hinput, by omega⟩
    · obtain ⟨hother, hsame, hle⟩ := h other found hfound
      exact ⟨hother, hsame, Nat.le_succ_of_le hle⟩

namespace Execution

/-- An instruction consumes as much of the input as it reports. -/
theorem Completes.consumed {pc : Address} {i : Instruction} {m m₁ : Machine}
    {completion : Completion} {input : Array UInt8} {count : Nat}
    (h : Completes pc i m completion m₁) (hconsumed : m.bus.Consumed input count) :
    m₁.bus.Consumed input
      (count + (completion.effects.filterMap (Effect.inputOn? 0)).length) := by
  cases h with
  | input _ _ read =>
    obtain ⟨rfl, hread⟩ := hconsumed.read read
    exact hread
  | _ => exact hconsumed

end Execution

namespace Machine

variable {m m₁ : Machine} {progress : Progress} {a b : Array UInt8} {j count n : Nat}

theorem consumed_of_step (h : m.step = (progress, m₁)) (hconsumed : m.bus.Consumed a count) :
    m₁.bus.Consumed a (count + (inputsOn 0 progress.retired?.toList).length) := by
  cases progress with
  | retired r =>
    obtain ⟨-, word, completion, m₂, -, -, -, hcompletes, heffects, rfl⟩ := step_retired h
    have hinputs : inputsOn 0 [r] = completion.effects.filterMap (Effect.inputOn? 0) := by
      rw [inputsOn, List.flatMap_singleton, heffects]
    show m₂.bus.Consumed a (count + (inputsOn 0 [r]).length)
    rw [hinputs]
    exact hcompletes.consumed hconsumed
  | halted =>
    rw [(step_halted h).2]
    exact hconsumed
  | faulted fault =>
    rw [eq_abort_of_step h]
    exact hconsumed

/-- The next read comes to the same: either nothing is left to read, or the byte that is due is one
of the first `j`. -/
theorem readsAlike_of_step (hsize : a.size = b.size) (hagree : ∀ k < j, a[k]? = b[k]?)
    (hconsumed : m.bus.Consumed a count) (hstep : m.step = (progress, m₁))
    (hreads : count + (inputsOn 0 progress.retired?.toList).length ≤ j + 1) {pc : Address}
    {port : Port} (hnext : m.ReadsNext pc port) : (Embedding.feed b).ReadsAlike m.bus pc port := by
  refine Embedding.readsAlike_feed pc fun c hdevice => ?_
  obtain ⟨rfl, rfl, hcount⟩ := hconsumed port c hdevice
  refine ⟨hsize, fun hsent => ?_⟩
  cases hbyte : c.input[c.cursor]? with
  | none =>
    have hend : b.size ≤ c.cursor := hsize ▸ Array.getElem?_eq_none_iff.mp hbyte
    exact (Array.getElem?_eq_none hend).symm
  | some byte =>
    have hread : m.bus.read pc 0 =
        .ok (byte.toUInt32, m.bus.connect 0 (.console { c with cursor := c.cursor + 1 })) := by
      rw [Bus.read_eq, hdevice]
      simp only [Device.read_console, Console.read_eq, if_pos hsent, hbyte]
      rfl
    -- The step reads this byte. It counts against the bound, so that the byte is one of the first.
    obtain ⟨i, -, hretired⟩ := hnext.step_eq
    rw [hread, hstep] at hretired
    cases hretired
    have hone : count + 1 ≤ j + 1 := hreads
    have hcursor : c.cursor + 1 ≤ count := by rwa [Console.consumed, if_pos hsent] at hcount
    rw [← hbyte]
    exact hagree c.cursor (by omega)

/-- **Steps that read only what two inputs have in common are the same with either of them.** The
induction carries how much has been read. -/
theorem steps_feed (hsize : a.size = b.size) (hagree : ∀ k < j, a[k]? = b[k]?)
    (hconsumed : m.bus.Consumed a count)
    (hreads : count + (inputsOn 0 ((m.steps n).1.filterMap Progress.retired?)).length ≤ j + 1) :
    ((Embedding.feed b).image m).steps n =
      ((m.steps n).1, (Embedding.feed b).image (m.steps n).2) := by
  induction n generalizing m count with
  | zero => rfl
  | succ n ih =>
    cases hstep : m.step with
    | mk progress m₁ =>
      have hinputs : inputsOn 0 ((m.steps (n + 1)).1.filterMap Progress.retired?) =
          inputsOn 0 progress.retired?.toList ++
            inputsOn 0 ((m₁.steps n).1.filterMap Progress.retired?) := by
        rw [← inputsOn_append]
        simp only [steps, hstep]
        cases progress <;> rfl
      rw [hinputs, List.length_append] at hreads
      have hrest := ih (consumed_of_step hstep hconsumed) (by omega)
      have himage := Embedding.step_image
        (fun pc port => readsAlike_of_step hsize hagree hconsumed hstep (by omega)) hstep
        (Embedding.carriesOver_of_exact (Embedding.exact_feed b) progress)
      simp only [steps, hstep, himage, hrest]

/-- **Input is consumed causally.** Let a program be loaded into a fresh machine with the usual devices,
once with each of two inputs that are equally long and agree in their first `j` bytes. Then no number
of steps in which the one machine reads the console at most `j + 1` times tells them apart: every step
comes to the same on both, the same instruction with the same effects or the same fault, and behind the
steps memory, registers, flags, output and status are equal. -/
theorem input_causal {memorySize : Nat} {program : Program} (hsize : a.size = b.size)
    (hagree : ∀ k < j, a[k]? = b[k]?)
    (hload : (reset memorySize (.standard a)).load program = .ok m)
    (hreads : (inputsOn 0 ((m.steps n).1.filterMap Progress.retired?)).length ≤ j + 1) :
    ∃ m', (reset memorySize (.standard b)).load program = .ok m' ∧
      (m'.steps n).1 = (m.steps n).1 ∧
      (m'.steps n).2.snapshot = (m.steps n).2.snapshot ∧
      (m'.steps n).2.status = (m.steps n).2.status := by
  have hload' := Embedding.load_image (e := Embedding.feed b) hload
  have hconsumed : m.bus.Consumed a 0 := by
    rw [(load_eq_ok hload).2]
    exact Bus.consumed_standard a
  have hsteps := steps_feed (n := n) hsize hagree hconsumed (by rwa [Nat.zero_add])
  refine ⟨_, hload', ?_, ?_, ?_⟩
  · rw [hsteps]
  · rw [hsteps]
    rfl
  · rw [hsteps]
    rfl

/-- Reads the length of the input, prints the first byte of it and writes the second one back. -/
def firstByteProgram : Program :=
  .ofSections [⟨0, [.data 0x01010000, .data 0x01010000, .data 0x02010001, .data 0x01010000,
    .data 0x02010000, .data 0x11000000]⟩]

/-- The machine with that program and an input. -/
def firstByte (input : Array UInt8) : Machine :=
  { reset 6 (.standard input) with memory := writeCells (.replicate 6 0) firstByteProgram.cells }

theorem load_firstByteProgram (input : Array UInt8) :
    (reset 6 (.standard input)).load firstByteProgram = .ok (firstByte input) := by
  have hvalid : firstByteProgram.validate 6 = .ok () :=
    Program.validate_eq_ok_iff.mpr ⟨by decide, by decide⟩
  rw [load_eq, show (reset 6 (.standard input)).memorySize = 6 from rfl, hvalid]
  rfl

theorem input_causal_of_firstByte :
    (#[5, 7] : Array UInt8).size = (#[5, 9] : Array UInt8).size ∧
      (∀ k < 1, (#[5, 7] : Array UInt8)[k]? = (#[5, 9] : Array UInt8)[k]?) ∧
      (inputsOn 0 (((firstByte #[5, 7]).steps 3).1.filterMap Progress.retired?)).length = 2 ∧
      ∃ m', (reset 6 (.standard #[5, 9])).load firstByteProgram = .ok m' ∧
        (m'.steps 3).1 = [
          .retired ⟨0, ⟨.input, .immediate, 0⟩, [.input 0 2, .accumulator 2]⟩,
          .retired ⟨1, ⟨.input, .immediate, 0⟩, [.input 0 5, .accumulator 5]⟩,
          .retired ⟨2, ⟨.output, .immediate, 1⟩, [.output 1 5]⟩] ∧
        (m'.steps 3).2.snapshot = ((firstByte #[5, 7]).steps 3).2.snapshot ∧
        (m'.steps 3).2.output = #[53, 10] ∧ (m'.steps 3).2.status = .running := by
  have hsize : (#[5, 7] : Array UInt8).size = (#[5, 9] : Array UInt8).size := rfl
  have hagree : ∀ k < 1, (#[5, 7] : Array UInt8)[k]? = (#[5, 9] : Array UInt8)[k]? := by decide
  obtain ⟨m', hload, hsteps, hsnapshot, hstatus⟩ :=
    input_causal (n := 3) hsize hagree (load_firstByteProgram #[5, 7]) (Nat.le_refl 2)
  have houtput : (m'.steps 3).2.output = ((firstByte #[5, 7]).steps 3).2.output :=
    congrArg Snapshot.output hsnapshot
  exact ⟨hsize, hagree, rfl, m', hload, hsteps, hsnapshot, houtput, hstatus⟩

end Machine

end Accumulator
