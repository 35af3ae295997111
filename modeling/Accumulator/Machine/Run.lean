import Accumulator.Machine.Step

/-!
# Running a machine

* `Observer` — what is kept of a run: it sees the start, every retired instruction with the machine
  after it, a fault, and the end. A tick is the number of instructions that retired before.
* `Machine.run` — steps a machine until it halts or faults. With a limit, the run faults once that
  many instructions have retired. Fuel bounds the steps of a run that does not end; a run that ends
  does so with any fuel above its ticks.
-/

namespace Accumulator

/-- What is kept of a run. -/
structure Observer (σ : Type) where
  start : Machine → σ → σ := fun _ s => s
  retired : Nat → Retired → Machine → σ → σ
  faulted : Nat → Fault → Machine → σ → σ := fun _ _ _ s => s
  finish : Machine → σ → σ := fun _ s => s

/-- Two observers of the same run. -/
def Observer.both {σ τ : Type} (a : Observer σ) (b : Observer τ) : Observer (σ × τ) where
  start m s := (a.start m s.1, b.start m s.2)
  retired tick r m s := (a.retired tick r m s.1, b.retired tick r m s.2)
  faulted tick fault m s := (a.faulted tick fault m s.1, b.faulted tick fault m s.2)
  finish m s := (a.finish m s.1, b.finish m s.2)

/-- How a run ended, and after how many instructions. -/
inductive Outcome where
  | halted (ticks : Nat)
  | faulted (ticks : Nat) (fault : Fault)
  deriving DecidableEq, Repr

/-- The end of a run. -/
structure Finished (σ : Type) where
  outcome : Outcome
  machine : Machine
  observed : σ

namespace Machine

/-- One step of a run, or the end of the run at its limit. -/
def advance (limit : Option Nat) (tick : Nat) (m : Machine) : Progress × Machine :=
  match limit with
  | some limit =>
    if limit ≤ tick then
      let fault := Fault.tickLimit m.pc limit
      (.faulted fault, m.abort fault)
    else m.step
  | none => m.step

variable {σ : Type}

/-- The rest of a run in which `tick` instructions have retired. -/
def runFrom (observer : Observer σ) (limit : Option Nat) :
    (fuel tick : Nat) → Machine → σ → Option (Finished σ)
  | 0, _, _, _ => none
  | fuel + 1, tick, m, s =>
    match m.advance limit tick with
    | (.retired retired, m) =>
      runFrom observer limit fuel (tick + 1) m (observer.retired tick retired m s)
    | (.halted, m) => some ⟨.halted tick, m, s⟩
    | (.faulted fault, m) => some ⟨.faulted tick fault, m, observer.faulted tick fault m s⟩

/-- A run from the current state on, if it ends within the fuel. -/
def run (observer : Observer σ) (limit : Option Nat) (fuel : Nat) (m : Machine) (s : σ) :
    Option (Finished σ) :=
  (runFrom observer limit fuel 0 m (observer.start m s)).map fun finished =>
    { finished with observed := observer.finish finished.machine finished.observed }

end Machine

end Accumulator
