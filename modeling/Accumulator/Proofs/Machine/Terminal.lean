import Accumulator.Proofs.Machine.Calls

/-!
# Machines that have stopped

A machine that has halted or faulted is meant to stay as it is. A run looks at its limit before it
looks at the status, so that a run without any instruction left puts its fault in the place of what
stopped the machine:

* `Machine.Terminal` — the machine has halted or faulted.
* `Machine.Rests` — registers, flags and the bus are those of another machine.
* `answersAll_of_terminal` — what a sequence of calls makes of a machine that has stopped.
* `status_of_terminal_iff` — its status stays exactly if no run among the calls has the limit zero.
* `halt_cut_by_run` — a machine that has halted, faulted by a run with the limit zero.
-/

namespace Accumulator.Machine

variable {m m₁ m' : Machine} {call : Call} {calls : List Call} {n : Nat}

/-- The machine has halted or faulted. -/
def Terminal (m : Machine) : Prop := m.status = .halted ∨ ∃ fault, m.status = .faulted fault

/-- Registers, flags and the bus, with the output, are as they were. -/
structure Rests (m m' : Machine) : Prop where
  accumulator : m'.accumulator = m.accumulator
  pc : m'.pc = m.pc
  flags : m'.flags = m.flags
  bus : m'.bus = m.bus

namespace Rests

theorem refl (m : Machine) : m.Rests m := ⟨rfl, rfl, rfl, rfl⟩

theorem trans (h : m.Rests m₁) (h' : m₁.Rests m') : m.Rests m' :=
  ⟨h'.accumulator.trans h.accumulator, h'.pc.trans h.pc, h'.flags.trans h.flags,
    h'.bus.trans h.bus⟩

end Rests

/-- The status that a run with no instruction left leaves. -/
def cutStatus (m : Machine) : Status := .faulted (.tickLimit m.pc 0)

/-- A machine that has stopped does not step. -/
theorem step_of_terminal (h : m.Terminal) :
    ∃ progress, m.step = (progress, m) ∧ ∀ r, progress ≠ .retired r := by
  rcases h with hs | ⟨fault, hs⟩
  · exact ⟨_, step_of_halted hs, nofun⟩
  · exact ⟨_, step_of_faulted hs, nofun⟩

theorem eq_of_step_of_terminal {progress : Progress} (h : m.Terminal)
    (hstep : m.step = (progress, m')) : m' = m ∧ ∀ r, progress ≠ .retired r := by
  obtain ⟨progress', hstep', hne⟩ := step_of_terminal h
  cases hstep.symm.trans hstep'
  exact ⟨rfl, hne⟩

theorem eq_nil_of_retires {rs : List Retired} (h : m.Terminal) (hrs : m.Retires rs m') :
    rs = [] ∧ m' = m := by
  cases hrs with
  | nil => exact ⟨rfl, rfl⟩
  | cons step _ => exact absurd rfl ((eq_of_step_of_terminal h step).2 _)

/-- At the first tick of a run only the limit zero cuts it. -/
theorem eq_of_advance_of_terminal {limit : Option Nat} {progress : Progress} (h : m.Terminal)
    (hadvance : m.advance limit 0 = (progress, m')) :
    m' = if limit = some 0 then m.abort (.tickLimit m.pc 0) else m := by
  match limit with
  | none => exact (eq_of_step_of_terminal h hadvance).1
  | some 0 =>
    rw [advance_of_le (Nat.le_refl 0)] at hadvance
    cases hadvance
    rfl
  | some (k + 1) =>
    rw [advance_of_lt (Nat.succ_pos k)] at hadvance
    rw [if_neg (by simp)]
    exact (eq_of_step_of_terminal h hadvance).1

/-- What a call makes of a machine that has stopped. -/
theorem answers_of_terminal (h : m.Terminal) (hcall : m.Answers call n m') :
    n = 0 ∧ m.Rests m' ∧
      m'.status = if call = .run (some 0) then m.cutStatus else m.status := by
  cases hcall with
  | retired step => exact absurd rfl ((eq_of_step_of_terminal h step).2 _)
  | halted step | faulted step =>
    obtain ⟨rfl, -⟩ := eq_of_step_of_terminal h step
    exact ⟨rfl, .refl _, rfl⟩
  | loaded load =>
    obtain ⟨-, rfl⟩ := load_eq_ok (loading_eq_ok.mp load)
    exact ⟨rfl, ⟨rfl, rfl, rfl, rfl⟩, rfl⟩
  | refused load =>
    obtain ⟨-, rfl⟩ := loading_eq_error.mp load
    exact ⟨rfl, .refl _, rfl⟩
  | @ran _ _ limit _ _ finished run =>
    obtain ⟨rs, last, hrs, hticks, hadvance, -⟩ := run_eq_some run
    obtain ⟨rfl, rfl⟩ := eq_nil_of_retires h hrs
    refine ⟨hticks.symm, ?_⟩
    rw [eq_of_advance_of_terminal h hadvance]
    simp only [Call.run.injEq]
    split
    · exact ⟨⟨rfl, rfl, rfl, rfl⟩, rfl⟩
    · exact ⟨.refl _, rfl⟩

/-- A call leaves a machine that has stopped stopped. -/
theorem terminal_of_answers (h : m.Terminal) (hcall : m.Answers call n m') : m'.Terminal := by
  obtain ⟨-, -, hstatus⟩ := answers_of_terminal h hcall
  unfold Terminal
  rw [hstatus]
  split
  · exact .inr ⟨_, rfl⟩
  · exact h

/-- **What a sequence of calls makes of a machine that has stopped.** The fault of a run with no
instruction left is the same wherever in the sequence it comes, since the program counter rests. -/
theorem answersAll_of_terminal (h : m.Terminal) (hcalls : m.AnswersAll calls n m') :
    n = 0 ∧ m.Rests m' ∧
      m'.status = if .run (some 0) ∈ calls then m.cutStatus else m.status := by
  induction hcalls with
  | nil => exact ⟨rfl, .refl _, rfl⟩
  | @cons m m₁ m' call calls k n first _ ih =>
    obtain ⟨rfl, hrests, hstatus⟩ := answers_of_terminal h first
    obtain ⟨rfl, hrests', hstatus'⟩ := ih (terminal_of_answers h first)
    refine ⟨rfl, hrests.trans hrests', ?_⟩
    have hcut : m₁.cutStatus = m.cutStatus := by rw [cutStatus, cutStatus, hrests.pc]
    rw [hstatus', hcut, hstatus]
    by_cases hcall : call = .run (some 0)
    · simp [hcall]
    · simp [hcall, Ne.symm hcall]

/-- A run of a machine that has stopped ends at once. -/
theorem exists_outcome_of_terminal (h : m.Terminal) (limit : Option Nat) :
    ∃ (outcome : Outcome) (m' : Machine),
      outcome.ticks = 0 ∧ m.advance limit 0 = (outcome.progress, m') := by
  rcases advance_eq_step_or_cut limit 0 m with hstep | ⟨n, -, -, hcut⟩
  · rcases h with hs | ⟨fault, hs⟩
    · exact ⟨.halted 0, m, rfl, hstep.trans (step_of_halted hs)⟩
    · exact ⟨.faulted 0 fault, m, rfl, hstep.trans (step_of_faulted hs)⟩
  · exact ⟨.faulted 0 _, _, rfl, hcut⟩

/-- Every call on a machine that has stopped is answered. -/
theorem exists_answers (h : m.Terminal) (call : Call) : ∃ m', m.Answers call 0 m' := by
  cases call with
  | step =>
    rcases h with hs | ⟨fault, hs⟩
    · exact ⟨m, .halted (step_of_halted hs)⟩
    · exact ⟨m, .faulted (step_of_faulted hs)⟩
  | load program =>
    cases hload : m.load program with
    | ok m' => exact ⟨m', .loaded (loading_eq_ok.mpr hload)⟩
    | error error => exact ⟨m, .refused (loading_eq_error.mpr ⟨hload, rfl⟩)⟩
  | run limit =>
    obtain ⟨outcome, m', hticks, hadvance⟩ := exists_outcome_of_terminal h limit
    have hanswers := Answers.ran (run_of_advance .nil (fun n _ => Nat.zero_le n) hticks hadvance
      (Nat.lt_succ_self 0) .recorder [])
    rw [hticks] at hanswers
    exact ⟨m', hanswers⟩

theorem exists_answersAll (h : m.Terminal) (calls : List Call) :
    ∃ m', m.AnswersAll calls 0 m' := by
  induction calls generalizing m with
  | nil => exact ⟨m, .nil⟩
  | cons call calls ih =>
    obtain ⟨m₁, first⟩ := exists_answers h call
    obtain ⟨m', rest⟩ := ih (terminal_of_answers h first)
    exact ⟨m', .cons first rest⟩

/-- **The status of a machine that has stopped.** Every sequence of calls on it is answered. No
instruction retires, and registers, flags and output stay. The status stays as well, exactly if no
run among the calls has the limit zero or that limit is what stopped the machine already; such a run
leaves its own fault. -/
theorem status_of_terminal_iff (h : m.Terminal) (calls : List Call) :
    (∃ m', m.AnswersAll calls 0 m') ∧
      ∀ n m', m.AnswersAll calls n m' →
        n = 0 ∧ m'.accumulator = m.accumulator ∧ m'.pc = m.pc ∧ m'.flags = m.flags ∧
        m'.output = m.output ∧
        (m'.status = m.status ↔
          .run (some 0) ∉ calls ∨ m.status = .faulted (.tickLimit m.pc 0)) ∧
        (.run (some 0) ∈ calls → m'.status = .faulted (.tickLimit m.pc 0)) := by
  refine ⟨exists_answersAll h calls, fun n m' hcalls => ?_⟩
  obtain ⟨hn, hrests, hstatus⟩ := answersAll_of_terminal h hcalls
  refine ⟨hn, hrests.accumulator, hrests.pc, hrests.flags, congrArg Bus.output hrests.bus, ?_, ?_⟩
  · rw [hstatus]
    by_cases hmem : .run (some 0) ∈ calls
    · rw [if_pos hmem]
      exact ⟨fun heq => .inr heq.symm, fun heq => (heq.resolve_left (absurd hmem)).symm⟩
    · rw [if_neg hmem]
      exact iff_of_true rfl (.inl hmem)
  · intro hmem
    rw [hstatus, if_pos hmem, cutStatus]

/-- A machine that has executed its only instruction, a halt. -/
def spent : Machine where
  memory := #[0x11000000]
  pc := 1
  status := .halted

theorem status_of_spent :
    spent.Terminal ∧ ∃ m', spent.AnswersAll
      [.step, .load (.ofSections [⟨0, [.data 7]⟩]), .run none, .run (some 1), .step] 0 m' ∧
        m'.status = .halted ∧ m'.pc = 1 := by
  have hterminal : spent.Terminal := .inl rfl
  obtain ⟨⟨m', hcalls⟩, hall⟩ := status_of_terminal_iff hterminal
    [.step, .load (.ofSections [⟨0, [.data 7]⟩]), .run none, .run (some 1), .step]
  obtain ⟨-, -, hpc, -, -, hstatus, -⟩ := hall 0 m' hcalls
  exact ⟨hterminal, m', hcalls, hstatus.mpr (.inl (by decide)), hpc⟩

/-- A halt does not stand against a run with the limit zero. -/
theorem halt_cut_by_run :
    ({ memory := #[0x11000000] } : Machine).step =
        (.retired ⟨0, ⟨.halt, .implied, 0⟩, [.halted]⟩, spent) ∧
      spent.status = .halted ∧
      ∃ m', spent.AnswersAll [.run (some 0)] 0 m' ∧ m'.status = .faulted (.tickLimit 1 0) := by
  have hrun : spent.run .recorder (some 0) 1 [] =
      some ⟨.faulted 0 (.tickLimit 1 0), spent.abort (.tickLimit 1 0), []⟩ := rfl
  exact ⟨rfl, rfl, _, .cons (.ran hrun) .nil, rfl⟩

end Accumulator.Machine
