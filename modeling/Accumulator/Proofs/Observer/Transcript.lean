import Accumulator.Proofs.Observer.Streaming

/-!
# Transcripts of runs

* `Machine.RunsTo` — the run of a machine as a relation, step by step, without fuel.
* `run_of_runsTo`, `runsTo_of_run` — with enough fuel a machine is run as the relation says, and every run
  that ends is one.
* `RunsTo.unique` — a machine has at most one run.
* `transcribe_of_runsTo`, `runsTo_of_transcribe` — the transcript of a run holds its lines and its output.
-/

namespace Accumulator

namespace Machine

/-- The run of a machine in which `tick` instructions have retired: instructions retire, one in each step,
until a step ends the run. -/
inductive RunsTo (limit : Option Nat) : (tick : Nat) → Machine → List Retired → Outcome → Machine → Prop
  | ended {tick : Nat} {m m' : Machine} {outcome : Outcome} (hticks : outcome.ticks = tick)
    (h : m.advance limit tick = (outcome.progress, m')) : RunsTo limit tick m [] outcome m'
  | retired {tick : Nat} {m m₁ m' : Machine} {r : Retired} {rs : List Retired} {outcome : Outcome}
    (h : m.advance limit tick = (.retired r, m₁)) (hrest : RunsTo limit (tick + 1) m₁ rs outcome m') :
    RunsTo limit tick m (r :: rs) outcome m'

variable {σ : Type} {limit : Option Nat} {fuel tick : Nat} {m m' last : Machine} {rs rs' : List Retired}
  {outcome outcome' : Outcome}

/-- A machine has at most one run. -/
theorem RunsTo.unique (h : RunsTo limit tick m rs outcome last) (h' : RunsTo limit tick m rs' outcome' m') :
    rs = rs' ∧ outcome = outcome' ∧ last = m' := by
  induction h generalizing rs' with
  | @ended tick m last outcome hticks h =>
    cases h' with
    | ended hticks' h' =>
      obtain ⟨hprogress, rfl⟩ := Prod.mk.inj (h.symm.trans h')
      refine ⟨rfl, ?_, rfl⟩
      cases outcome <;> cases outcome' <;> cases hprogress <;> cases hticks <;> cases hticks' <;> rfl
    | retired h' => cases outcome <;> cases h.symm.trans h'
  | @retired tick m m₁ last r rs outcome h hrest ih =>
    cases h' with
    | ended hticks' h' => cases outcome' <;> cases h.symm.trans h'
    | retired h' hrest' =>
      cases h.symm.trans h'
      obtain ⟨rfl, rfl, rfl⟩ := ih hrest'
      exact ⟨rfl, rfl, rfl⟩

/-- The instructions of a run retire one after the other, and the last step ends it. -/
theorem RunsTo.exists_retires (h : RunsTo limit tick m rs outcome last) : ∃ before,
    m.Retires rs before ∧ before.advance limit (tick + rs.length) = (outcome.progress, last) := by
  induction h with
  | @ended tick m last outcome hticks h => exact ⟨m, .nil, h⟩
  | @retired tick m m₁ last r rs outcome h hrest ih =>
    obtain ⟨before, hretires, hadvance⟩ := ih
    refine ⟨before, .cons (advance_retired h) hretires, ?_⟩
    rwa [List.length_cons, Nat.add_comm rs.length, ← Nat.add_assoc]

theorem RunsTo.ticks_eq (h : RunsTo limit tick m rs outcome last) : outcome.ticks = tick + rs.length := by
  induction h with
  | ended hticks h => exact hticks
  | retired h hrest ih =>
    rw [ih, List.length_cons]
    omega

/-- No more instructions retire than the limit allows. -/
theorem RunsTo.length_le (h : RunsTo limit tick m rs outcome last) {n : Nat} (hlimit : limit = some n)
    (htick : tick ≤ n) : tick + rs.length ≤ n := by
  induction h with
  | ended hticks h => exact htick
  | @retired tick m m₁ last r rs outcome h hrest ih =>
    have hlt : tick < n := by
      refine Nat.lt_of_not_le fun hle => ?_
      rw [hlimit, advance_of_le hle] at h
      cases h
    have hle := ih hlt
    rw [List.length_cons]
    omega

/-- A run that ends within the fuel is a run of the machine. -/
theorem runsTo_of_runFrom {observer : Observer σ} {s : σ} {finished : Finished σ}
    (h : runFrom observer limit fuel tick m s = some finished) :
    ∃ rs, RunsTo limit tick m rs finished.outcome finished.machine ∧ rs.length < fuel := by
  induction fuel generalizing tick m s with
  | zero => cases h
  | succ fuel ih =>
    rw [runFrom] at h
    rcases advance_cases limit tick m with ⟨r, m₁, hadvance⟩ | ⟨outcome, m₁, hticks, hadvance⟩
    · rw [hadvance] at h
      obtain ⟨rs, hrest, hlength⟩ := ih h
      exact ⟨r :: rs, .retired hadvance hrest, Nat.succ_lt_succ hlength⟩
    · rw [hadvance] at h
      refine ⟨[], ?_, Nat.succ_pos fuel⟩
      cases outcome <;> cases h <;> exact .ended rfl hadvance

/-- **With enough fuel a machine is run to its end**, and an observer sees the instructions and the end. -/
theorem run_of_runsTo (h : RunsTo limit 0 m rs outcome last) (hfuel : rs.length < fuel)
    (observer : Observer σ) (s : σ) : m.run observer limit fuel s = some ⟨outcome, last,
      observer.conclude last (observer.watch 0 m rs (observer.start m s)) outcome⟩ := by
  obtain ⟨before, hretires, hadvance⟩ := h.exists_retires
  have hticks := h.ticks_eq
  rw [Nat.zero_add] at hticks hadvance
  have hlimit (n : Nat) (hn : limit = some n) : rs.length ≤ n := by
    have hle := h.length_le hn (Nat.zero_le n)
    rwa [Nat.zero_add] at hle
  exact run_of_advance hretires hlimit hticks hadvance hfuel observer s

/-- **A run that ends within the fuel is a run of the machine.** -/
theorem runsTo_of_run {observer : Observer σ} {s : σ} {finished : Finished σ}
    (h : m.run observer limit fuel s = some finished) :
    ∃ rs, RunsTo limit 0 m rs finished.outcome finished.machine ∧ rs.length < fuel := by
  obtain ⟨ending, hending, rfl⟩ := Option.map_eq_some_iff.mp h
  obtain ⟨rs, hruns, hlength⟩ := runsTo_of_runFrom hending
  exact ⟨rs, hruns, hlength⟩

end Machine

/-! ## Observers beside each other -/

namespace Observer

variable {σ τ : Type}

theorem watch_both (a : Observer σ) (b : Observer τ) (tick : Nat) (m : Machine) (rs : List Retired)
    (s : σ × τ) : (a.both b).watch tick m rs s = (a.watch tick m rs s.1, b.watch tick m rs s.2) := by
  induction rs generalizing tick m s with
  | nil => rfl
  | cons r rs ih =>
    rw [watch, ih]
    rfl

theorem conclude_both (a : Observer σ) (b : Observer τ) (m : Machine) (s : σ × τ) (outcome : Outcome) :
    (a.both b).conclude m s outcome = (a.conclude m s.1 outcome, b.conclude m s.2 outcome) := by
  cases outcome <;> rfl

end Observer

/-- The stream is caught up with the machine when the run ends. -/
theorem Serial.conclude_watch {m before last : Machine} {rs : List Retired} (h : m.Retires rs before)
    (houtput : last.output = before.output) (outcome : Outcome) :
    observer.conclude last (observer.watch 0 m rs {}) outcome = caughtUp last := by
  have hbegins : Begins last (observer.watch 0 m rs {}) := by
    cases rs with
    | nil => exact begins_fresh last
    | cons r rs =>
      rw [watch_of_begins h (List.cons_ne_nil r rs) (begins_fresh m)]
      exact (begins_caughtUp before).mono (houtput ▸ List.prefix_refl _)
  cases outcome with
  | halted ticks => exact forward_of_begins hbegins
  | faulted ticks fault =>
    have hforward : forward last (observer.watch 0 m rs {}) = caughtUp last := forward_of_begins hbegins
    have hagain : forward last (caughtUp last) = caughtUp last := forward_of_begins (begins_caughtUp last)
    rw [← hforward] at hagain ⊢
    exact hagain

/-! ## Transcripts -/

namespace Machine

variable {limit : Option Nat} {fuel : Nat} {m last : Machine} {rs : List Retired} {outcome : Outcome}

/-- **The transcript of a run** holds the lines of the run, and the output of the machine. -/
theorem transcribe_of_runsTo (h : RunsTo limit 0 m rs outcome last) (hfuel : rs.length < fuel)
    (plan : DumpPlan) : ∃ t, m.transcribe plan limit fuel = some t ∧ t.outcome = outcome ∧
      t.log = Text.unlines (Trace.lines rs outcome) ∧ t.sent = last.output := by
  obtain ⟨before, hretires, hadvance⟩ := h.exists_retires
  have hrun := run_of_runsTo h hfuel (Trace.observer.both (Serial.observer.both plan.observer)) ("", {}, "")
  refine ⟨_, congrArg (Option.map _) hrun, rfl, ?_, ?_⟩
  · dsimp only
    rw [Observer.watch_both, Observer.conclude_both]
    exact (Trace.conclude_watch m last rs "" outcome).trans (String.empty_append)
  · dsimp only
    rw [Observer.watch_both, Observer.conclude_both, Observer.watch_both, Observer.conclude_both]
    exact congrArg Serial.written (Serial.conclude_watch hretires (output_of_advance hadvance) outcome)

/-- A run that is transcribed is a run of the machine. -/
theorem runsTo_of_transcribe {plan : DumpPlan} {t : Transcript} (h : m.transcribe plan limit fuel = some t) :
    ∃ rs last, RunsTo limit 0 m rs t.outcome last ∧
      t.log = Text.unlines (Trace.lines rs t.outcome) ∧ t.sent = last.output := by
  obtain ⟨finished, hrun, rfl⟩ := Option.map_eq_some_iff.mp h
  obtain ⟨rs, hruns, hlength⟩ := runsTo_of_run hrun
  obtain ⟨t, ht, -, hlog, hsent⟩ := transcribe_of_runsTo hruns hlength plan
  cases h.symm.trans ht
  exact ⟨rs, _, hruns, hlog, hsent⟩

end Machine

end Accumulator
