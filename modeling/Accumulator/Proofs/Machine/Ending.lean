import Accumulator.Proofs.Machine.Retirement

/-!
# How runs end

* `step_of_halted`, `step_of_faulted` — the steps of a machine that has stopped.
* `advance_halted`, `advance_faulted` — the last step of a run changes nothing but the status.
* `run_eq_some`, `run_of_advance` — the runs that end are the retirements of instructions up to a last
  step that halts or faults.
-/

namespace Accumulator

/-- The number of instructions that retired in a run. -/
def Outcome.ticks : Outcome → Nat
  | .halted ticks | .faulted ticks _ => ticks

/-- What the last step of a run came to. -/
def Outcome.progress : Outcome → Progress
  | .halted _ => .halted
  | .faulted _ fault => .faulted fault

/-- What an observer makes of the end of a run. -/
def Observer.conclude {σ : Type} (observer : Observer σ) (m : Machine) (s : σ) : Outcome → σ
  | .halted _ => observer.finish m s
  | .faulted tick fault => observer.finish m (observer.faulted tick fault m s)

namespace Machine

variable {σ : Type} {observer : Observer σ} {limit : Option Nat} {tick fuel : Nat} {m m' : Machine}
  {fault : Fault}

theorem step_of_halted (h : m.status = .halted) : m.step = (.halted, m) := by
  unfold step stepBy
  rw [h]

theorem step_of_faulted (h : m.status = .faulted fault) : m.step = (.faulted fault, m) := by
  unfold step stepBy
  rw [h]

theorem abort_of_status (h : m.status = .faulted fault) : m.abort fault = m := by
  rw [abort, ← h]

/-- A step that faults changes nothing but the status, and nothing at all the second time. -/
theorem eq_abort_of_step (h : m.step = (.faulted fault, m')) : m' = m.abort fault := by
  rcases step_faulted h with ⟨hstatus, rfl⟩ | ⟨-, rfl, -⟩
  · rw [abort_of_status hstatus]
  · rfl

/-- A run that is not cut at its limit steps. -/
theorem advance_eq_step_or_cut (limit : Option Nat) (tick : Nat) (m : Machine) :
    m.advance limit tick = m.step ∨ ∃ n, limit = some n ∧ n ≤ tick ∧
      m.advance limit tick = (.faulted (.tickLimit m.pc n), m.abort (.tickLimit m.pc n)) := by
  cases limit with
  | none => exact .inl rfl
  | some n =>
    by_cases htick : n ≤ tick
    · exact .inr ⟨n, rfl, htick, advance_of_le htick⟩
    · exact .inl (advance_of_lt (Nat.lt_of_not_le htick))

theorem advance_faulted (h : m.advance limit tick = (.faulted fault, m')) : m' = m.abort fault := by
  rcases advance_eq_step_or_cut limit tick m with hstep | ⟨n, -, -, hcut⟩
  · exact eq_abort_of_step (hstep ▸ h)
  · rw [hcut] at h
    cases h
    rfl

theorem advance_halted (h : m.advance limit tick = (.halted, m')) : m.status = .halted ∧ m' = m := by
  rcases advance_eq_step_or_cut limit tick m with hstep | ⟨n, -, -, hcut⟩
  · exact step_halted (hstep ▸ h)
  · rw [hcut] at h
    cases h

/-- The end of a run changes nothing but the status. -/
theorem eq_of_advance_progress {outcome : Outcome}
    (h : m.advance limit tick = (outcome.progress, m')) : m' = { m with status := m'.status } := by
  cases outcome with
  | halted ticks => rw [(advance_halted h).2]
  | faulted ticks fault => rw [advance_faulted h, abort]

/-- **Every run that ends is a retirement of instructions and a last step.** Its outcome counts the
instructions and says what the last step came to. -/
theorem run_eq_some {s : σ} {finished : Finished σ}
    (h : m.run observer limit fuel s = some finished) :
    ∃ rs last, m.Retires rs last ∧ rs.length = finished.outcome.ticks ∧
      last.advance limit rs.length = (finished.outcome.progress, finished.machine) ∧
      finished.observed = observer.conclude finished.machine
        (observer.watch 0 m rs (observer.start m s)) finished.outcome := by
  obtain ⟨ending, hrun, rfl⟩ := Option.map_eq_some_iff.mp h
  obtain ⟨rs, last, hrs, hend⟩ := runFrom_eq_some hrun
  rw [Nat.zero_add] at hend
  refine ⟨rs, last, hrs, ?_⟩
  rcases hend with ⟨hadvance, houtcome, hobserved⟩ | ⟨fault, hadvance, houtcome, hobserved⟩
  · simp only [houtcome, hobserved]
    exact ⟨rfl, hadvance, rfl⟩
  · simp only [houtcome, hobserved]
    exact ⟨rfl, hadvance, rfl⟩

/-- A retirement of instructions and a last step are a run that ends, with enough fuel. -/
theorem run_of_advance {rs : List Retired} {last : Machine} {outcome : Outcome}
    (hrs : m.Retires rs last) (hlimit : ∀ n, limit = some n → rs.length ≤ n)
    (hticks : outcome.ticks = rs.length)
    (hadvance : last.advance limit rs.length = (outcome.progress, m')) (hfuel : rs.length < fuel)
    (observer : Observer σ) (s : σ) :
    m.run observer limit fuel s = some ⟨outcome, m',
      observer.conclude m' (observer.watch 0 m rs (observer.start m s)) outcome⟩ := by
  obtain ⟨spare, rfl⟩ : ∃ spare, fuel = spare + 1 + rs.length := ⟨fuel - rs.length - 1, by omega⟩
  have hrun := runFrom_retires hrs observer (spare + 1) 0 (observer.start m s)
    (by simpa using hlimit)
  rw [runFrom, Nat.zero_add, hadvance] at hrun
  unfold run
  rw [hrun]
  cases outcome with
  | halted ticks =>
    cases hticks
    rfl
  | faulted ticks fault =>
    cases hticks
    rfl

end Machine

end Accumulator
