import Accumulator.Proofs.Machine.Ending

/-!
# Faults change nothing

An instruction finds its faults before it changes anything, and a fault that was found stays.

* `Machine.stepped` — the machine after a number of steps, whatever comes of them.
  `Retires.step_of_getElem?` — instructions that retire, each as the step that it is.
* `step_faulted_unchanged` — of a machine whose step faults only the status changes, and every later
  step reports the fault again.
-/

namespace Accumulator.Machine

/-- The machine after `k` steps, whatever comes of them. -/
def stepped (m : Machine) : Nat → Machine
  | 0 => m
  | k + 1 => (m.stepped k).step.2

theorem stepped_succ (m : Machine) (k : Nat) : m.stepped (k + 1) = m.step.2.stepped k := by
  induction k with
  | zero => rfl
  | succ k ih => rw [stepped, ih, stepped]

theorem Retires.eq_stepped {m m' : Machine} {rs : List Retired} (h : m.Retires rs m') :
    m' = m.stepped rs.length := by
  induction h with
  | nil => rfl
  | cons step _ ih => rw [ih, List.length_cons, stepped_succ, step]

/-- **Of the instructions that retire each one is a step**, from the machine behind as many steps as there
are instructions in front of it. -/
theorem Retires.step_of_getElem? {m m' : Machine} {rs : List Retired} (h : m.Retires rs m') {i : Nat}
    {r : Retired} (hr : rs[i]? = some r) : (m.stepped i).step = (.retired r, m.stepped (i + 1)) := by
  induction h generalizing i with
  | nil => cases hr
  | @cons m m₁ last r₀ rs step _ ih =>
    cases i with
    | zero =>
      cases hr
      rw [stepped, stepped, stepped, step]
    | succ i =>
      rw [stepped_succ, stepped_succ m (i + 1), step]
      exact ih hr

theorem stepped_of_status {m : Machine} {fault : Fault} (h : m.status = .faulted fault) (k : Nat) :
    m.stepped k = m := by
  induction k with
  | zero => rfl
  | succ k ih => rw [stepped, ih, step_of_faulted h]

/-- **A step that faults leaves the machine as it was.** Memory, registers, flags, the output and
every device with all that it has delivered are the same; only the status tells of the fault. The
fault names the instruction that did not retire, and every later step reports it and does nothing. -/
theorem step_faulted_unchanged {m m' : Machine} {fault : Fault} (hactive : m.Active)
    (h : m.step = (.faulted fault, m')) :
    m' = { m with status := .faulted fault } ∧ fault.pc = m.pc ∧
      ∀ k, (m'.stepped k).step = (.faulted fault, m') := by
  rcases step_faulted h with ⟨hstatus, -⟩ | ⟨-, rfl, hpc⟩
  · rcases hactive with hs | hs <;> rw [hs] at hstatus <;> cases hstatus
  · have hstatus : (m.abort fault).status = .faulted fault := rfl
    refine ⟨rfl, hpc, fun k => ?_⟩
    rw [stepped_of_status hstatus, step_of_faulted hstatus]

/-- A machine in the middle of a run, about to read once more from a console that has delivered its
length and its only byte. -/
def drained : Machine where
  memory := #[0x02010001, 0x01010000]
  accumulator := 9
  pc := 1
  flags := ⟨false, true⟩
  status := .running
  bus := { devices := [(0, .console ⟨#[9], true, 1⟩), (1, .decimal)], output := #[57, 10] }

theorem step_drained_unchanged :
    drained.Active ∧ ∃ m', drained.step = (.faulted (.inputExhausted 1), m') ∧
      m' = { drained with status := .faulted (.inputExhausted 1) } ∧
      (Fault.inputExhausted 1).pc = drained.pc ∧
      ∀ k, (m'.stepped k).step = (.faulted (.inputExhausted 1), m') := by
  have hactive : drained.Active := by decide
  have hstep : drained.step =
      (.faulted (.inputExhausted 1), drained.abort (.inputExhausted 1)) := rfl
  exact ⟨hactive, _, hstep, step_faulted_unchanged hactive hstep⟩

end Accumulator.Machine
