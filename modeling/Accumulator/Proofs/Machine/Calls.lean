import Accumulator.Proofs.Machine.Ending
import Accumulator.Proofs.Machine.Loading

/-!
# Sequences of calls on a machine

* `Call` — what can be asked of a machine: a step, a load, a run.
* `Machine.Answers`, `Machine.AnswersAll` — what a call, or one call after the other, makes of a
  machine, and how many instructions retire in it.
* `Kept` — a property that neither a step nor a load nor the limit of a run takes from a machine;
  `Kept.answersAll` — such a property survives every sequence of calls.
-/

namespace Accumulator

/-- A call on a machine. -/
inductive Call where
  | step
  | load (program : Program)
  | run (limit : Option Nat)
  deriving DecidableEq, Repr

namespace Machine

/-- The machine answers a call: so many instructions retire, and it becomes another machine. A run
may be watched by any observer. One that does not end gives no answer; the machines on its way are
those of single steps. -/
inductive Answers (m : Machine) : Call → Nat → Machine → Prop
  | retired {r : Retired} {m' : Machine} (step : m.step = (.retired r, m')) : Answers m .step 1 m'
  | halted {m' : Machine} (step : m.step = (.halted, m')) : Answers m .step 0 m'
  | faulted {fault : Fault} {m' : Machine} (step : m.step = (.faulted fault, m')) :
      Answers m .step 0 m'
  | loaded {program : Program} {m' : Machine} (load : loading program m = .ok () m') :
      Answers m (.load program) 0 m'
  | refused {program : Program} {error : ProgramError} {m' : Machine}
      (load : loading program m = .error error m') : Answers m (.load program) 0 m'
  | ran {σ : Type} {observer : Observer σ} {limit : Option Nat} {fuel : Nat} {s : σ}
      {finished : Finished σ} (run : m.run observer limit fuel s = some finished) :
      Answers m (.run limit) finished.outcome.ticks finished.machine

/-- The machine answers one call after the other. -/
inductive AnswersAll : Machine → List Call → Nat → Machine → Prop
  | nil {m : Machine} : AnswersAll m [] 0 m
  | cons {m m₁ m' : Machine} {call : Call} {calls : List Call} {k n : Nat}
      (first : m.Answers call k m₁) (rest : AnswersAll m₁ calls n m') :
      AnswersAll m (call :: calls) (k + n) m'

variable {m m' : Machine} {call : Call} {calls : List Call} {n : Nat}

/-- A property that no part of a call takes from a machine. -/
structure Kept (P : Machine → Prop) : Prop where
  step : ∀ {m m' : Machine} {progress : Progress}, P m → m.step = (progress, m') → P m'
  load : ∀ {m m' : Machine} {program : Program}, P m → m.load program = .ok m' → P m'
  cut : ∀ {m : Machine} (n : Nat), P m → P (m.abort (.tickLimit m.pc n))

namespace Kept

variable {P : Machine → Prop}

theorem retires (kept : Kept P) {rs : List Retired} (h : m.Retires rs m') (hm : P m) : P m' := by
  induction h with
  | nil => exact hm
  | cons step _ ih => exact ih (kept.step hm step)

theorem advance (kept : Kept P) {limit : Option Nat} {tick : Nat} {progress : Progress}
    (h : m.advance limit tick = (progress, m')) (hm : P m) : P m' := by
  rcases advance_eq_step_or_cut limit tick m with hstep | ⟨n, -, -, hcut⟩
  · exact kept.step hm (hstep ▸ h)
  · rw [hcut] at h
    cases h
    exact kept.cut n hm

theorem answers (kept : Kept P) (h : m.Answers call n m') (hm : P m) : P m' := by
  cases h with
  | retired step | halted step | faulted step => exact kept.step hm step
  | loaded load => exact kept.load hm (loading_eq_ok.mp load)
  | refused load =>
    obtain ⟨-, rfl⟩ := loading_eq_error.mp load
    exact hm
  | ran run =>
    obtain ⟨rs, last, hrs, -, hadvance, -⟩ := run_eq_some run
    exact kept.advance hadvance (kept.retires hrs hm)

/-- **What every part of a call keeps, every sequence of calls keeps.** -/
theorem answersAll (kept : Kept P) (h : m.AnswersAll calls n m') (hm : P m) : P m' := by
  induction h with
  | nil => exact hm
  | cons first _ ih => exact ih (kept.answers first hm)

end Kept

end Machine

end Accumulator
