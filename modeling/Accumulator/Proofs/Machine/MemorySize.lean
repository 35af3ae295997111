import Accumulator.Observer.Trace
import Accumulator.Proofs.Machine.Embedding

/-!
# A larger memory

A program that runs in a small memory runs in a larger one in the same way.

* `Embedding.grow` — the memory with more cells behind it. A machine notices them only where it would
  have faulted without them.
* `reset_grow` — a fresh machine of the larger size is a fresh one of the smaller size, grown.
* `larger_memory` — loads, retired instructions and runs carry over to the larger memory.
-/

namespace Accumulator

namespace Embedding

/-- More cells behind the memory. -/
def grow (tail : Array Word) : Embedding where
  memory cells := cells ++ tail
  bus b := b
  word h := (Array.getElem?_append_left (Array.getElem?_eq_some_iff.mp h).1).trans h
  store h _ := (Array.setIfInBounds_append_left h).symm
  emission _ _ _ _ := rfl
  emit _ _ := rfl

theorem readsAlike_grow (tail : Array Word) (bus : Bus) (pc : Address) (port : Port) :
    (grow tail).ReadsAlike bus pc port := by
  show bus.read pc port = (bus.read pc port).map id
  cases bus.read pc port <;> rfl

end Embedding

/-- The log does not look at the machine. -/
theorem Trace.overlooks (e : Embedding) : Trace.observer.Overlooks e where
  start _ _ := rfl
  retired _ _ _ _ := rfl
  faulted _ _ _ _ := rfl
  finish _ _ := rfl

namespace Machine

theorem reset_grow {small large : Nat} (h : small ≤ large) (bus : Bus) :
    reset large bus = (Embedding.grow (.replicate (large - small) 0)).image (reset small bus) := by
  have hmemory : Array.replicate large (0 : Word) =
      .replicate small 0 ++ .replicate (large - small) 0 := by
    rw [Array.replicate_append_replicate, Nat.add_sub_cancel' h]
  exact congrArg (fun memory => ({ memory, bus } : Machine)) hmemory

/-- **A larger memory never changes a run that fits.** A program that loads into a fresh machine loads
into a fresh machine with more memory and the same devices. Whatever instructions retire there retire
here: the same instructions with the same effects at the same addresses, and behind them the machines
show the same but for the cleared cells at the end of the larger memory. A run that ends there, unless
with a fault for a cell that is not in memory, ends here with the same outcome, log and output. -/
theorem larger_memory {small large : Nat} (hle : small ≤ large) (bus : Bus) (program : Program)
    {m : Machine} (hload : (reset small bus).load program = .ok m) :
    ∃ m', (reset large bus).load program = .ok m' ∧
      (∀ rs last, m.Retires rs last → ∃ last', m'.Retires rs last' ∧
        last'.snapshot = { last.snapshot with
          memory := last.memory ++ Array.replicate (large - small) 0 } ∧
        last'.status = last.status) ∧
      ∀ limit fuel log finished, m.run Trace.observer limit fuel log = some finished →
        (∀ fault, finished.outcome.progress = .faulted fault → fault.isRange = false) →
        ∃ finished', m'.run Trace.observer limit fuel log = some finished' ∧
          finished'.outcome = finished.outcome ∧ finished'.observed = finished.observed ∧
          finished'.machine.output = finished.machine.output := by
  have hreads := Embedding.readsAlike_grow (.replicate (large - small) 0)
  refine ⟨(Embedding.grow (.replicate (large - small) 0)).image m, ?_, ?_, ?_⟩
  · rw [reset_grow hle]
    exact Embedding.load_image hload
  · intro rs last hrs
    exact ⟨_, Embedding.retires_image hreads hrs, rfl, rfl⟩
  · intro limit fuel log finished hrun hfits
    have hcarries : (Embedding.grow (.replicate (large - small) 0)).CarriesOver
        finished.outcome.progress := by
      cases houtcome : finished.outcome with
      | halted ticks => trivial
      | faulted ticks fault =>
        intro hrange
        rw [hfits fault (by rw [houtcome]; rfl)] at hrange
        cases hrange
    have himage := Embedding.run_image hreads (Trace.overlooks _) hcarries hrun
    exact ⟨_, himage, rfl, rfl, rfl⟩

/-- The program of `lengthPrinter`. -/
def lengthPrinterProgram : Program :=
  .ofSections [⟨0, [.data 0x01010000, .data 0x02010001, .data 0x04020000, .data 0x11000000]⟩]

/-- `lengthPrinter` after its halt. -/
def lengthPrinted : Machine where
  memory := #[2, 0x02010001, 0x04020000, 0x11000000]
  accumulator := 2
  pc := 4
  status := .halted
  bus := ⟨[(0, .console ⟨#[7, 7], true, 0⟩), (1, .decimal)], #[50, 10]⟩

theorem load_lengthPrinter :
    (reset 4 (Bus.standard #[7, 7])).load lengthPrinterProgram = .ok lengthPrinter := by
  have hvalid : lengthPrinterProgram.validate (reset 4 (Bus.standard #[7, 7])).memorySize = .ok () :=
    Program.validate_eq_ok_iff.mpr ⟨by decide, by decide⟩
  rw [load_eq, hvalid]
  rfl

theorem larger_memory_of_lengthPrinter :
    4 ≤ 6 ∧ (reset 4 (Bus.standard #[7, 7])).load lengthPrinterProgram = .ok lengthPrinter ∧
      ∃ rs m' last' finished finished', rs.length = 4 ∧ lengthPrinter.Retires rs lengthPrinted ∧
        (reset 6 (Bus.standard #[7, 7])).load lengthPrinterProgram = .ok m' ∧
        m'.Retires rs last' ∧
        last'.snapshot = ⟨#[2, 0x02010001, 0x04020000, 0x11000000, 0, 0], 2, 4, {}, #[50, 10]⟩ ∧
        lengthPrinter.run Trace.observer none 5 "" = some finished ∧
        m'.run Trace.observer none 5 "" = some finished' ∧ finished'.outcome = .halted 4 ∧
        finished'.observed = finished.observed ∧ finished'.machine.output = #[50, 10] := by
  have hretires : lengthPrinter.Retires
      [⟨0, ⟨.input, .immediate, 0⟩, [.input 0 2, .accumulator 2]⟩,
        ⟨1, ⟨.output, .immediate, 1⟩, [.output 1 2]⟩, ⟨2, ⟨.store, .absolute, 0⟩, [.store 0 2]⟩,
        ⟨3, ⟨.halt, .implied, 0⟩, [.halted]⟩] lengthPrinted :=
    .cons rfl (.cons rfl (.cons rfl (.cons rfl .nil)))
  have hlimit : ∀ n, (none : Option Nat) = some n → 4 ≤ n := nofun
  have hticks : (Outcome.halted 4).ticks = 4 := rfl
  have hhalted : ∀ fault, (Outcome.halted 4).progress = .faulted fault → fault.isRange = false :=
    nofun
  have hrun := run_of_advance hretires hlimit hticks rfl (by decide : 4 < 5) Trace.observer ""
  obtain ⟨m', hload, hcarries, hruns⟩ :=
    larger_memory (by decide : 4 ≤ 6) (Bus.standard #[7, 7]) lengthPrinterProgram load_lengthPrinter
  obtain ⟨last', hretires', hsnapshot, -⟩ := hcarries _ _ hretires
  obtain ⟨finished', hrun', houtcome, hobserved, houtput⟩ := hruns none 5 "" _ hrun hhalted
  exact ⟨by decide, load_lengthPrinter, _, m', last', _, finished', rfl, hretires, hload, hretires',
    hsnapshot, hrun, hrun', houtcome, hobserved, houtput⟩

end Machine

end Accumulator
