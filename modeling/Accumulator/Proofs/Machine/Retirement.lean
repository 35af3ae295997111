import Accumulator.Machine.Run
import Accumulator.Proofs.Machine.Execution

/-!
# Retired instructions and runs

* `Machine.Retires` — successive steps of a machine retire a list of instructions.
* `Retires.eq_of_length_eq` — how many instructions retire says which ones, and where they lead.
* `retires_or_stops` — within `n` steps a machine retires `n` instructions or stops before.
* `Observer.watch`, `Observer.recorder` — what an observer makes of retired instructions, and the
  observer that keeps all of them.
* `runFrom_retires`, `runFrom_eq_some` — a run is the retirement of instructions up to its first
  other step: steps that retire can be taken off its front, and every run that ends is of this form.
* `run_contains`, `run_both` — an observer sees the same run when it is a part of another one, so also
  whatever other observer watches beside it.
-/

namespace Accumulator

namespace Machine

/-- Successive steps retire the instructions of a list, in order. -/
inductive Retires : Machine → List Retired → Machine → Prop
  | nil {m : Machine} : Retires m [] m
  | cons {m m₁ m' : Machine} {r : Retired} {rs : List Retired} (step : m.step = (.retired r, m₁))
      (rest : Retires m₁ rs m') : Retires m (r :: rs) m'

/-- The `k`-th instruction from here on halts the machine. -/
def HaltsAt (m : Machine) (k : Nat) : Prop :=
  ∃ rs last, m.Retires rs last ∧ rs.length = k ∧ last.status = .halted

/-- The instruction behind the next `k` ones faults. -/
def FaultsAfter (m : Machine) (k : Nat) (fault : Fault) : Prop :=
  ∃ rs last next, m.Retires rs last ∧ rs.length = k ∧ last.step = (.faulted fault, next)

namespace Retires

variable {m m₁ m₂ m' : Machine} {rs rs₁ rs₂ : List Retired}

/-- Steps are deterministic, so the number of retired instructions fixes them. -/
theorem eq_of_length_eq (h₁ : Retires m rs₁ m₁) (h₂ : Retires m rs₂ m₂)
    (hlength : rs₁.length = rs₂.length) : rs₁ = rs₂ ∧ m₁ = m₂ := by
  induction h₁ generalizing rs₂ with
  | nil =>
    cases h₂ with
    | nil => exact ⟨rfl, rfl⟩
    | cons _ _ => simp at hlength
  | cons step₁ _ ih =>
    cases h₂ with
    | nil => simp at hlength
    | cons step₂ rest₂ =>
      rw [step₁] at step₂
      cases step₂
      obtain ⟨rfl, rfl⟩ := ih rest₂ (by simpa using hlength)
      exact ⟨rfl, rfl⟩

/-- A longer list of retired instructions goes on from where a shorter one ends. -/
theorem drop_of_length_le (h₁ : Retires m rs₁ m₁) (h₂ : Retires m rs₂ m₂)
    (hlength : rs₁.length ≤ rs₂.length) : Retires m₁ (rs₂.drop rs₁.length) m₂ := by
  induction h₁ generalizing rs₂ with
  | nil => exact h₂
  | cons step₁ _ ih =>
    cases h₂ with
    | nil => simp at hlength
    | cons step₂ rest₂ =>
      rw [step₁] at step₂
      cases step₂
      exact ih rest₂ (by simpa using hlength)

/-- Nothing retires behind a step that does not. -/
theorem length_le_of_stop (h₁ : Retires m rs₁ m₁) (hstop : ∀ r m₂, m₁.step ≠ (.retired r, m₂))
    (h₂ : Retires m rs₂ m₂) : rs₂.length ≤ rs₁.length := by
  by_cases hlength : rs₁.length ≤ rs₂.length
  · have hrest := h₁.drop_of_length_le h₂ hlength
    generalize hdrop : rs₂.drop rs₁.length = ds at hrest
    cases hrest with
    | nil => exact List.drop_eq_nil_iff.mp hdrop
    | cons step _ => exact absurd step (hstop _ _)
  · omega

end Retires

/-- **Progress.** A machine retires `n` instructions, or it stops before the `n`-th of them. -/
theorem retires_or_stops (m : Machine) (n : Nat) :
    (∃ rs last, m.Retires rs last ∧ rs.length = n) ∨
      ∃ rs last, m.Retires rs last ∧ rs.length < n ∧ ∀ r next, last.step ≠ (.retired r, next) := by
  induction n generalizing m with
  | zero => exact .inl ⟨[], m, .nil, rfl⟩
  | succ n ih =>
    by_cases h : ∃ r next, m.step = (.retired r, next)
    · obtain ⟨r, next, step⟩ := h
      rcases ih next with ⟨rs, last, hrs, hlength⟩ | ⟨rs, last, hrs, hlength, hstop⟩
      · exact .inl ⟨r :: rs, last, .cons step hrs, by simp [hlength]⟩
      · exact .inr ⟨r :: rs, last, .cons step hrs, by simpa using hlength, hstop⟩
    · exact .inr ⟨[], m, .nil, Nat.succ_pos n, fun r next step => h ⟨r, next, step⟩⟩

end Machine

/-- What an observer makes of instructions that retire from a machine on. -/
def Observer.watch {σ : Type} (observer : Observer σ) : Nat → Machine → List Retired → σ → σ
  | _, _, [], s => s
  | tick, m, r :: rs, s =>
    observer.watch (tick + 1) m.step.2 rs (observer.retired tick r m.step.2 s)

/-- Keeps every retired instruction. -/
def Observer.recorder : Observer (List Retired) where
  retired _ r _ rs := rs ++ [r]

theorem Observer.watch_recorder (tick : Nat) (m : Machine) (rs seen : List Retired) :
    recorder.watch tick m rs seen = seen ++ rs := by
  induction rs generalizing tick m seen with
  | nil => simp [watch]
  | cons r rs ih =>
    rw [watch, ih]
    simp [recorder]

namespace Machine

variable {σ : Type} {observer : Observer σ} {limit : Option Nat} {m m' : Machine}
  {rs : List Retired} {s : σ}

theorem advance_of_lt {n tick : Nat} (h : tick < n) : m.advance (some n) tick = m.step := by
  simp [advance, Nat.not_le_of_lt h]

theorem advance_of_le {n tick : Nat} (h : n ≤ tick) :
    m.advance (some n) tick = (.faulted (.tickLimit m.pc n), m.abort (.tickLimit m.pc n)) := by
  simp [advance, h]

/-- Below the limit a run steps. -/
theorem advance_eq_step {tick : Nat} (h : ∀ n, limit = some n → tick < n) :
    m.advance limit tick = m.step := by
  cases limit with
  | none => rfl
  | some n => exact advance_of_lt (h n rfl)

/-- Only a step retires. -/
theorem advance_retired {tick : Nat} {r : Retired}
    (h : m.advance limit tick = (.retired r, m')) : m.step = (.retired r, m') := by
  cases limit with
  | none => exact h
  | some n =>
    by_cases htick : n ≤ tick
    · rw [advance_of_le htick] at h
      cases h
    · rwa [advance_of_lt (Nat.lt_of_not_le htick)] at h

/-- **Instructions that retire come off the front of a run.** -/
theorem runFrom_retires (h : m.Retires rs m') (observer : Observer σ) (fuel tick : Nat) (s : σ)
    (hlimit : ∀ n, limit = some n → tick + rs.length ≤ n) :
    runFrom observer limit (fuel + rs.length) tick m s =
      runFrom observer limit fuel (tick + rs.length) m' (observer.watch tick m rs s) := by
  induction h generalizing tick s with
  | nil => rfl
  | @cons m m₁ m' r rs step _ ih =>
    have hadvance : m.advance limit tick = (.retired r, m₁) := by
      rw [← step]
      refine advance_eq_step fun n hn => ?_
      have := hlimit n hn
      simp only [List.length_cons] at this
      omega
    have hticks : tick + 1 + rs.length = tick + (r :: rs).length := by
      simp only [List.length_cons]
      omega
    have hrest := ih (tick + 1) (observer.retired tick r m₁ s)
      (fun n hn => by rw [hticks]; exact hlimit n hn)
    rw [hticks] at hrest
    rw [List.length_cons, ← Nat.add_assoc, runFrom, hadvance]
    simp only [Observer.watch, step]
    exact hrest

/-- **Every run that ends is a retirement of instructions and one more step**, which halts or
faults at the tick that the outcome names. -/
theorem runFrom_eq_some {fuel tick : Nat} {finished : Finished σ}
    (h : runFrom observer limit fuel tick m s = some finished) :
    ∃ rs last, m.Retires rs last ∧
      ((last.advance limit (tick + rs.length) = (.halted, finished.machine) ∧
        finished.outcome = .halted (tick + rs.length) ∧
        finished.observed = observer.watch tick m rs s) ∨
      ∃ fault, last.advance limit (tick + rs.length) = (.faulted fault, finished.machine) ∧
        finished.outcome = .faulted (tick + rs.length) fault ∧
        finished.observed =
          observer.faulted (tick + rs.length) fault finished.machine
            (observer.watch tick m rs s)) := by
  induction fuel generalizing tick m s with
  | zero => cases h
  | succ fuel ih =>
    rw [runFrom] at h
    split at h
    · next r m₁ hadvance =>
      have step := advance_retired hadvance
      obtain ⟨rs, last, hrs, hend⟩ := ih h
      have hticks : tick + 1 + rs.length = tick + (r :: rs).length := by
        simp only [List.length_cons]
        omega
      rw [hticks] at hend
      refine ⟨r :: rs, last, .cons step hrs, ?_⟩
      simpa only [Observer.watch, step] using hend
    · next hadvance =>
      cases h
      exact ⟨[], m, .nil, .inl ⟨hadvance, rfl, rfl⟩⟩
    · next fault m₁ hadvance =>
      cases h
      exact ⟨[], m, .nil, .inr ⟨fault, hadvance, rfl, rfl⟩⟩

/-! ## Observers beside each other -/

end Machine

/-- What `a` keeps has in it what `b` keeps: `part` takes it out, before and after every call. -/
structure Observer.Contains {σ τ : Type} (part : σ → τ) (a : Observer σ) (b : Observer τ) : Prop where
  start : ∀ m s, part (a.start m s) = b.start m (part s)
  retired : ∀ tick r m s, part (a.retired tick r m s) = b.retired tick r m (part s)
  faulted : ∀ tick fault m s, part (a.faulted tick fault m s) = b.faulted tick fault m (part s)
  finish : ∀ m s, part (a.finish m s) = b.finish m (part s)

/-- The end of a run with a part of what was kept of it. -/
def Finished.map {σ τ : Type} (part : σ → τ) (finished : Finished σ) : Finished τ :=
  ⟨finished.outcome, finished.machine, part finished.observed⟩

namespace Machine

theorem runFrom_contains {τ : Type} {part : σ → τ} {a : Observer σ} {b : Observer τ}
    (h : a.Contains part b) (limit : Option Nat) (fuel tick : Nat) (m : Machine) (s : σ) :
    (runFrom a limit fuel tick m s).map (Finished.map part) =
      runFrom b limit fuel tick m (part s) := by
  induction fuel generalizing tick m s with
  | zero => rfl
  | succ fuel ih =>
    rw [runFrom, runFrom]
    split
    · rw [ih, h.retired]
    · rfl
    · rw [Option.map_some, Finished.map, h.faulted]

/-- **An observer sees the same run when it is a part of another one.** -/
theorem run_contains {τ : Type} {part : σ → τ} {a : Observer σ} {b : Observer τ}
    (h : a.Contains part b) (limit : Option Nat) (fuel : Nat) (m : Machine) (s : σ) :
    (m.run a limit fuel s).map (Finished.map part) = m.run b limit fuel (part s) := by
  unfold run
  rw [← h.start, ← runFrom_contains h, Option.map_map, Option.map_map]
  congr 1
  funext finished
  simp only [Function.comp_apply, Finished.map, h.finish]

/-- **An observer sees the same run whatever other observer watches beside it.** -/
theorem run_both {τ : Type} (a : Observer σ) (b : Observer τ) (limit : Option Nat) (fuel : Nat)
    (m : Machine) (s : σ × τ) :
    (m.run (a.both b) limit fuel s).map
        (fun finished => ⟨finished.outcome, finished.machine, finished.observed.1⟩) =
      m.run a limit fuel s.1 := by
  have hleft : (a.both b).Contains Prod.fst a := ⟨by intros; rfl, by intros; rfl, by intros; rfl,
    by intros; rfl⟩
  exact run_contains hleft limit fuel m s

end Machine

end Accumulator
