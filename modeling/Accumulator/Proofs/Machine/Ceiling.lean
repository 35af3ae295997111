import Accumulator.Proofs.Machine.Ending

/-!
# The instruction ceiling of a run

A ceiling of `n` instructions is meant to cut only runs that have not halted: `CeilingEnding` says
how such a run should end. A run looks at its ceiling before it looks at the status, so it ends that
way unless its `n`-th instruction is the one that halts:

* `run_of_retires` — once `n` instructions have retired the run is cut, halted or not.
* `run_of_stop` — a machine that stops before decides the end of the run itself.
* `run_ceilingEnding_iff` — a run ends as it should exactly if its `n`-th instruction does not halt.
* `run_cut_at_halt` — a program of one halt, cut by a ceiling of one.
-/

namespace Accumulator.Machine

variable {σ : Type} {m last : Machine} {rs : List Retired} {n fuel : Nat}

/-- How a run with a ceiling of `n` instructions should end, and in which status. -/
inductive CeilingEnding (m : Machine) (n : Nat) : Outcome → Status → Prop
  | halted {k : Nat} (within : k ≤ n) (halts : m.HaltsAt k) : CeilingEnding m n (.halted k) .halted
  | faulted {k : Nat} {fault : Fault} (before : k < n) (faults : m.FaultsAfter k fault) :
      CeilingEnding m n (.faulted k fault) (.faulted fault)
  | cut {rs : List Retired} {last : Machine} (retires : m.Retires rs last) (length : rs.length = n)
      (going : last.status ≠ .halted) :
      CeilingEnding m n (.faulted n (.tickLimit last.pc n)) (.faulted (.tickLimit last.pc n))

/-- Once `n` instructions have retired, the run is cut, whether or not the last of them halted. -/
theorem run_of_retires (h : m.Retires rs last) (hlength : rs.length = n) (hfuel : n < fuel)
    (observer : Observer σ) (s : σ) :
    ∃ finished, m.run observer (some n) fuel s = some finished ∧
      finished.outcome = .faulted n (.tickLimit last.pc n) ∧
      finished.machine = last.abort (.tickLimit last.pc n) := by
  subst hlength
  have hbelow : ∀ limit, some rs.length = some limit → rs.length ≤ limit := by
    rintro _ ⟨⟩
    exact Nat.le_refl _
  have hcut : last.advance (some rs.length) rs.length =
      ((Outcome.faulted rs.length (.tickLimit last.pc rs.length)).progress,
        last.abort (.tickLimit last.pc rs.length)) := advance_of_le (Nat.le_refl _)
  exact ⟨_, run_of_advance h hbelow rfl hcut hfuel observer s, rfl, rfl⟩

/-- A machine that stops below the ceiling decides the end of the run. -/
theorem run_of_stop (h : m.Retires rs last) (hlength : rs.length < n)
    (hstop : ∀ r next, last.step ≠ (.retired r, next)) (hfuel : n < fuel)
    (observer : Observer σ) (s : σ) :
    ∃ finished, m.run observer (some n) fuel s = some finished ∧
      ((last.status = .halted ∧ finished.outcome = .halted rs.length ∧ finished.machine = last) ∨
        ∃ fault, last.step = (.faulted fault, finished.machine) ∧
          finished.outcome = .faulted rs.length fault) := by
  have hbelow : ∀ limit, some n = some limit → rs.length ≤ limit := by
    rintro _ ⟨⟩
    exact Nat.le_of_lt hlength
  have hadvance : last.advance (some n) rs.length = last.step := advance_of_lt hlength
  have hbound : rs.length < fuel := Nat.lt_trans hlength hfuel
  cases hstep : last.step with
  | mk progress next =>
    cases progress with
    | retired r => exact absurd hstep (hstop r next)
    | halted =>
      obtain ⟨hstatus, rfl⟩ := step_halted hstep
      have hend : next.advance (some n) rs.length = ((Outcome.halted rs.length).progress, next) :=
        hadvance.trans hstep
      exact ⟨_, run_of_advance h hbelow rfl hend hbound observer s, .inl ⟨hstatus, rfl, rfl⟩⟩
    | faulted fault =>
      have hend : last.advance (some n) rs.length =
          ((Outcome.faulted rs.length fault).progress, next) := hadvance.trans hstep
      exact ⟨_, run_of_advance h hbelow rfl hend hbound observer s, .inr ⟨fault, rfl, rfl⟩⟩

/-- A fault leaves its mark in the status. -/
theorem status_of_step_faulted {m' : Machine} {fault : Fault}
    (h : m.step = (.faulted fault, m')) : m'.status = .faulted fault := by
  rw [eq_abort_of_step h]
  rfl

/-- Behind a halt at the ceiling, a fault at the ceiling is not how the run should end. -/
theorem not_ceilingEnding_of_haltsAt (hhalts : m.HaltsAt n) {outcome : Outcome} {status : Status}
    {fault : Fault} (houtcome : outcome = .faulted n fault) :
    ¬ CeilingEnding m n outcome status := by
  intro hend
  obtain ⟨rs, last, hrs, hlength, hhalted⟩ := hhalts
  cases hend with
  | halted _ _ => cases houtcome
  | faulted before _ =>
    cases houtcome
    exact absurd before (Nat.lt_irrefl _)
  | cut retires length going =>
    obtain ⟨-, rfl⟩ := hrs.eq_of_length_eq retires (by omega)
    exact going hhalted

/-- **A ceiling of `n` instructions cuts a run too early exactly if the `n`-th instruction halts.**
Every run with a ceiling ends. It ends as it should if its `n`-th instruction does not halt the
machine; if it does, the run reports the ceiling and the halt is lost. -/
theorem run_ceilingEnding_iff (m : Machine) (observer : Observer σ) (s : σ) (hfuel : n < fuel) :
    ∃ finished, m.run observer (some n) fuel s = some finished ∧
      (CeilingEnding m n finished.outcome finished.machine.status ↔ ¬ m.HaltsAt n) ∧
      ∀ rs last, m.Retires rs last → rs.length = n → last.status = .halted →
        finished.outcome = .faulted n (.tickLimit last.pc n) ∧
        finished.machine = last.abort (.tickLimit last.pc n) := by
  rcases m.retires_or_stops n with ⟨rs, last, hrs, hlength⟩ | ⟨rs, last, hrs, hlength, hstop⟩
  · obtain ⟨finished, hrun, houtcome, hmachine⟩ := run_of_retires hrs hlength hfuel observer s
    refine ⟨finished, hrun, ?_, ?_⟩
    · constructor
      · exact fun hend hhalts => not_ceilingEnding_of_haltsAt hhalts houtcome hend
      · intro hhalts
        rw [houtcome, hmachine]
        exact .cut hrs hlength fun hhalted => hhalts ⟨rs, last, hrs, hlength, hhalted⟩
    · intro rs' last' hrs' hlength' _
      obtain ⟨-, rfl⟩ := hrs.eq_of_length_eq hrs' (by omega)
      exact ⟨houtcome, hmachine⟩
  · obtain ⟨finished, hrun, hend⟩ := run_of_stop hrs hlength hstop hfuel observer s
    -- Fewer than `n` instructions retire at all, so none of them is the `n`-th.
    have hshort : ∀ rs' last', m.Retires rs' last' → rs'.length ≠ n := fun rs' last' hrs' => by
      have := hrs.length_le_of_stop hstop hrs'
      omega
    refine ⟨finished, hrun, iff_of_true ?_ ?_, ?_⟩
    · rcases hend with ⟨hhalted, houtcome, hmachine⟩ | ⟨fault, hstep, houtcome⟩
      · rw [houtcome, hmachine, hhalted]
        exact .halted (by omega) ⟨rs, last, hrs, rfl, hhalted⟩
      · rw [houtcome, status_of_step_faulted hstep]
        exact .faulted hlength ⟨rs, last, _, hrs, rfl, hstep⟩
    · rintro ⟨rs', last', hrs', hlength', -⟩
      exact hshort rs' last' hrs' hlength'
    · intro rs' last' hrs' hlength'
      exact absurd hlength' (hshort rs' last' hrs')

theorem run_ceilingEnding_below_ceiling :
    3 < 4 ∧ ∃ finished,
      ({ memory := #[0x10000000, 0x11000000] } : Machine).run .recorder (some 3) 4 [] =
        some finished ∧
      CeilingEnding { memory := #[0x10000000, 0x11000000] } 3 finished.outcome
        finished.machine.status := by
  refine ⟨by decide, ?_⟩
  obtain ⟨finished, hrun, hend, -⟩ :=
    run_ceilingEnding_iff { memory := #[0x10000000, 0x11000000] } .recorder []
      (by decide : 3 < 4)
  refine ⟨finished, hrun, hend.mpr ?_⟩
  -- The second instruction halts, so there is no third one.
  rintro ⟨rs, last, hrs, hlength, -⟩
  have hhalt : ({ memory := #[0x10000000, 0x11000000] } : Machine).Retires
      [⟨0, ⟨.nop, .implied, 0⟩, []⟩, ⟨1, ⟨.halt, .implied, 0⟩, [.halted]⟩] _ :=
    .cons rfl (.cons rfl .nil)
  have hlast := hhalt.length_le_of_stop (fun r next h => by cases h) hrs
  simp only [List.length_cons, List.length_nil] at hlast
  omega

/-- A program of one halt has halted when its first instruction has retired, and yet a ceiling of
one instruction ends its run with a fault. -/
theorem run_cut_at_halt :
    CeilingEnding { memory := #[0x11000000] } 1 (.halted 1) .halted ∧
      (({ memory := #[0x11000000] } : Machine).run .recorder (some 1) 2 []).map
          (fun finished => (finished.outcome, finished.machine.status)) =
        some (.faulted 1 (.tickLimit 1 1), .faulted (.tickLimit 1 1)) := by
  have hhalt : ({ memory := #[0x11000000] } : Machine).Retires
      [⟨0, ⟨.halt, .implied, 0⟩, [.halted]⟩] _ := .cons rfl .nil
  exact ⟨.halted (Nat.le_refl 1) ⟨_, _, hhalt, rfl, rfl⟩, rfl⟩

end Accumulator.Machine
