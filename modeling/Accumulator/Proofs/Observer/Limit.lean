import Accumulator.Proofs.Machine.Delivery
import Accumulator.Proofs.Observer.Log

/-!
# A tighter limit

A run with a limit is the beginning of the run with a larger limit, or with none.

* `Machine.turns` — the first turns of a run, whether or not the run ends: what they retire, and the
  machine behind them.
* `take_turns`, `output_turns` — fewer turns retire the first of the instructions, and their output begins
  the output.
* `turns_of_limit` — a limit leaves the turns below it as they are.
* `turns_of_run`, `exists_run` — a run that ends is all of its turns, and a run ends once it retires
  less than one instruction a turn.
* `Trace.tighter_limit` — the log and the output of a run with a tighter limit.
-/

namespace Accumulator

namespace Machine

/-- The first `count` turns of a run in which `tick` instructions have retired: the instructions that
they retire, and the machine behind them. A run that ends takes no further turns. -/
def turns (limit : Option Nat) : (count tick : Nat) → Machine → List Retired × Machine
  | 0, _, m => ([], m)
  | count + 1, tick, m =>
    match m.advance limit tick with
    | (.retired r, m₁) =>
      let (rs, m') := turns limit count (tick + 1) m₁
      (r :: rs, m')
    | (.halted, m') | (.faulted _, m') => ([], m')

variable {σ : Type} {observer : Observer σ} {limit : Option Nat} {count tick : Nat} {m m₁ : Machine}

theorem turns_retired {r : Retired} (h : m.advance limit tick = (.retired r, m₁)) :
    m.turns limit (count + 1) tick =
      (r :: (m₁.turns limit count (tick + 1)).1, (m₁.turns limit count (tick + 1)).2) := by
  rw [turns, h]

theorem turns_ended {outcome : Outcome} (h : m.advance limit tick = (outcome.progress, m₁)) :
    m.turns limit (count + 1) tick = ([], m₁) := by
  rw [turns, h]
  cases outcome <;> rfl

/-- A turn retires an instruction or ends the run. -/
theorem advance_cases (limit : Option Nat) (tick : Nat) (m : Machine) :
    (∃ r m₁, m.advance limit tick = (.retired r, m₁)) ∨
      ∃ (outcome : Outcome) (m₁ : Machine), outcome.ticks = tick ∧
        m.advance limit tick = (outcome.progress, m₁) := by
  cases hadvance : m.advance limit tick with
  | mk progress m₁ =>
    cases progress with
    | retired r => exact .inl ⟨r, m₁, rfl⟩
    | halted => exact .inr ⟨.halted tick, m₁, rfl, rfl⟩
    | faulted fault => exact .inr ⟨.faulted tick fault, m₁, rfl, rfl⟩

theorem output_of_advance {outcome : Outcome} (h : m.advance limit tick = (outcome.progress, m₁)) :
    m₁.output = m.output := by
  rw [eq_of_advance_progress h]
  rfl

/-! ## The turns of one run -/

theorem retires_turns (limit : Option Nat) (count tick : Nat) (m : Machine) :
    ∃ last, m.Retires (m.turns limit count tick).1 last := by
  induction count generalizing tick m with
  | zero => exact ⟨m, .nil⟩
  | succ count ih =>
    rcases advance_cases limit tick m with ⟨r, m₁, hadvance⟩ | ⟨outcome, m₁, -, hadvance⟩
    · obtain ⟨last, hrest⟩ := ih (tick + 1) m₁
      rw [turns_retired hadvance]
      exact ⟨last, .cons (advance_retired hadvance) hrest⟩
    · rw [turns_ended hadvance]
      exact ⟨m, .nil⟩

theorem length_turns_le (limit : Option Nat) (count tick : Nat) (m : Machine) :
    (m.turns limit count tick).1.length ≤ count := by
  induction count generalizing tick m with
  | zero => exact Nat.le_refl 0
  | succ count ih =>
    rcases advance_cases limit tick m with ⟨r, m₁, hadvance⟩ | ⟨outcome, m₁, -, hadvance⟩
    · rw [turns_retired hadvance]
      exact Nat.succ_le_succ (ih (tick + 1) m₁)
    · rw [turns_ended hadvance]
      exact Nat.zero_le _

/-- **Fewer turns retire the first of the instructions.** -/
theorem take_turns {fewer : Nat} (h : fewer ≤ count) (limit : Option Nat) (tick : Nat) (m : Machine) :
    (m.turns limit count tick).1.take fewer = (m.turns limit fewer tick).1 := by
  induction fewer generalizing count tick m with
  | zero => rfl
  | succ fewer ih =>
    obtain ⟨count, rfl⟩ : ∃ k, count = k + 1 := ⟨count - 1, by omega⟩
    rcases advance_cases limit tick m with ⟨r, m₁, hadvance⟩ | ⟨outcome, m₁, -, hadvance⟩
    · rw [turns_retired hadvance, turns_retired hadvance, List.take_succ_cons,
        ih (Nat.le_of_succ_le_succ h)]
    · rw [turns_ended hadvance, turns_ended hadvance, List.take_nil]

/-- Turns add to the output. -/
theorem output_le_turns (limit : Option Nat) (count tick : Nat) (m : Machine) :
    m.output.toList <+: (m.turns limit count tick).2.output.toList := by
  induction count generalizing tick m with
  | zero => exact List.prefix_refl _
  | succ count ih =>
    rcases advance_cases limit tick m with ⟨r, m₁, hadvance⟩ | ⟨outcome, m₁, -, hadvance⟩
    · have houtput := (delivered_of_step (advance_retired hadvance)).output
      rw [turns_retired hadvance]
      exact List.IsPrefix.trans ⟨_, houtput.symm⟩ (ih (tick + 1) m₁)
    · have hsame : (m.turns limit (count + 1) tick).2.output = m.output := by
        rw [turns_ended hadvance, output_of_advance hadvance]
      exact hsame ▸ List.prefix_refl _

/-- **The output of fewer turns begins the output.** -/
theorem output_turns {fewer : Nat} (h : fewer ≤ count) (limit : Option Nat) (tick : Nat)
    (m : Machine) : (m.turns limit fewer tick).2.output.toList <+:
      (m.turns limit count tick).2.output.toList := by
  induction fewer generalizing count tick m with
  | zero => exact output_le_turns limit count tick m
  | succ fewer ih =>
    obtain ⟨count, rfl⟩ : ∃ k, count = k + 1 := ⟨count - 1, by omega⟩
    rcases advance_cases limit tick m with ⟨r, m₁, hadvance⟩ | ⟨outcome, m₁, -, hadvance⟩
    · rw [turns_retired hadvance, turns_retired hadvance]
      exact ih (Nat.le_of_succ_le_succ h) (tick + 1) m₁
    · have hsame : m.turns limit (count + 1) tick = m.turns limit (fewer + 1) tick := by
        rw [turns_ended hadvance, turns_ended hadvance]
      exact hsame ▸ List.prefix_refl _

/-! ## Turns and runs -/

theorem turns_of_runFrom {fuel : Nat} {s : σ} {finished : Finished σ}
    (h : runFrom observer limit fuel tick m s = some finished) (hle : fuel ≤ count) :
    finished.outcome.ticks = tick + (m.turns limit count tick).1.length ∧
      finished.machine = (m.turns limit count tick).2 := by
  induction fuel generalizing count tick m s with
  | zero => cases h
  | succ fuel ih =>
    obtain ⟨count, rfl⟩ : ∃ k, count = k + 1 := ⟨count - 1, by omega⟩
    rw [runFrom] at h
    rcases advance_cases limit tick m with ⟨r, m₁, hadvance⟩ | ⟨outcome, m₁, hticks, hadvance⟩
    · rw [hadvance] at h
      obtain ⟨hlength, hmachine⟩ := ih h (Nat.le_of_succ_le_succ hle)
      rw [turns_retired hadvance, List.length_cons]
      exact ⟨by omega, hmachine⟩
    · rw [hadvance] at h
      rw [turns_ended hadvance]
      cases outcome <;> cases h <;> exact ⟨rfl, rfl⟩

/-- **A run that ends is all of its turns**, however many more it is given. -/
theorem turns_of_run {fuel : Nat} {s : σ} {finished : Finished σ}
    (h : m.run observer limit fuel s = some finished) (hle : fuel ≤ count) :
    finished.outcome.ticks = (m.turns limit count 0).1.length ∧
      finished.machine = (m.turns limit count 0).2 := by
  obtain ⟨ending, hrun, rfl⟩ := Option.map_eq_some_iff.mp h
  have hturns := turns_of_runFrom hrun hle
  rwa [Nat.zero_add] at hturns

theorem exists_runFrom (observer : Observer σ) (s : σ)
    (h : (m.turns limit count tick).1.length < count) :
    ∃ finished, runFrom observer limit count tick m s = some finished := by
  induction count generalizing tick m s with
  | zero => cases h
  | succ count ih =>
    rw [runFrom]
    rcases advance_cases limit tick m with ⟨r, m₁, hadvance⟩ | ⟨outcome, m₁, -, hadvance⟩
    · rw [turns_retired hadvance] at h
      rw [hadvance]
      exact ih _ (Nat.lt_of_succ_lt_succ h)
    · rw [hadvance]
      cases outcome <;> exact ⟨_, rfl⟩

/-- A run ends once it has retired less than one instruction a turn. -/
theorem exists_run (observer : Observer σ) (s : σ) (h : (m.turns limit count 0).1.length < count) :
    ∃ finished, m.run observer limit count s = some finished := by
  obtain ⟨ending, hrun⟩ := exists_runFrom observer (observer.start m s) h
  exact ⟨_, Option.map_eq_some_iff.mpr ⟨ending, hrun, rfl⟩⟩

/-! ## Two limits -/

/-- **A limit leaves the turns below it as they are.** With a limit that is `k` instructions away, any
number of turns from `k` on retires what `k` turns with a larger limit retire, and writes the same. -/
theorem turns_of_limit {a k : Nat} {b : Option Nat} (hle : ∀ n, b = some n → a ≤ n)
    (hk : tick + k = a) (hcount : k ≤ count) :
    (m.turns (some a) count tick).1 = (m.turns b k tick).1 ∧
      (m.turns (some a) count tick).2.output = (m.turns b k tick).2.output := by
  induction k generalizing count tick m with
  | zero =>
    cases count with
    | zero => exact ⟨rfl, rfl⟩
    | succ count =>
      -- At the limit the run is cut, whatever the machine would have done.
      have hcut : m.advance (some a) tick = ((Outcome.faulted tick (.tickLimit m.pc a)).progress,
          m.abort (.tickLimit m.pc a)) := advance_of_le (Nat.le_of_eq hk.symm)
      rw [turns_ended hcut]
      exact ⟨rfl, rfl⟩
  | succ k ih =>
    obtain ⟨count, rfl⟩ : ∃ n, count = n + 1 := ⟨count - 1, by omega⟩
    have hsame : m.advance (some a) tick = m.advance b tick := by
      rw [advance_of_lt (by omega), advance_eq_step]
      exact fun n hn => Nat.lt_of_lt_of_le (by omega) (hle n hn)
    rcases advance_cases b tick m with ⟨r, m₁, hadvance⟩ | ⟨outcome, m₁, -, hadvance⟩
    · have hk' : tick + 1 + k = a := by omega
      obtain ⟨hrest, houtput⟩ := ih (m := m₁) hk' (Nat.le_of_succ_le_succ hcount)
      rw [turns_retired hadvance, turns_retired (hsame.trans hadvance), hrest]
      exact ⟨rfl, houtput⟩
    · rw [turns_ended hadvance, turns_ended (hsame.trans hadvance)]
      exact ⟨rfl, rfl⟩

end Machine

namespace Trace

open Machine Text

variable {m : Machine} {limit : Option Nat} {fuel count : Nat} {log : String}
  {finished : Finished String}

/-- The log of a run that ends has the records of what its turns retire. -/
theorem log_of_turns (h : m.run observer limit fuel log = some finished) (hle : fuel ≤ count) :
    finished.observed = log ++ unlines (lines (m.turns limit count 0).1 finished.outcome) := by
  obtain ⟨rs, last, hrs, hlength, -, hobserved⟩ := run_eq_some h
  obtain ⟨last', hrs'⟩ := m.retires_turns limit count 0
  obtain ⟨rfl, -⟩ := hrs.eq_of_length_eq hrs' (hlength.trans (turns_of_run h hle).1)
  rw [hobserved]
  exact conclude_watch m finished.machine _ log finished.outcome

/-- **A tighter limit gives a prefix of the same run.** A run with the limit `a` always ends, after at
most `a` instructions. Take the run of the same machine with a limit `b` that is not smaller, or with
none. The instructions that the first run logs are the first `a` of those that the turns of the second
one retire, and its output is a prefix of the output behind them; so it is with the records and the output
of the second run if that ends, and if it does not end, every turn of it retires an instruction. -/
theorem tighter_limit (m : Machine) {a : Nat} {b : Option Nat} (hle : ∀ n, b = some n → a ≤ n)
    {fuel : Nat} (hfuel : a < fuel) (log : String) :
    ∃ finished rs, m.run observer (some a) fuel log = some finished ∧
      finished.outcome.ticks ≤ a ∧ rs.length = finished.outcome.ticks ∧
      finished.observed = log ++ unlines (lines rs finished.outcome) ∧
      (∀ count, a ≤ count → rs = (m.turns b count 0).1.take a ∧
        finished.machine.output.toList <+: (m.turns b count 0).2.output.toList) ∧
      (∀ fuel' log' finished', m.run observer b fuel' log' = some finished' →
        ∃ rs', rs'.length = finished'.outcome.ticks ∧
          finished'.observed = log' ++ unlines (lines rs' finished'.outcome) ∧
          rs = rs'.take a ∧
          finished.machine.output.toList <+: finished'.machine.output.toList) ∧
      ((∀ fuel', m.run observer b fuel' log = none) →
        ∀ count, (m.turns b count 0).1.length = count) := by
  obtain ⟨hrs, houtput⟩ := turns_of_limit (m := m) hle (Nat.zero_add a) (Nat.le_of_lt hfuel)
  have hshort := length_turns_le b a 0 m
  have hends : (m.turns (some a) fuel 0).1.length < fuel := by
    rw [hrs]
    exact Nat.lt_of_le_of_lt hshort hfuel
  obtain ⟨finished, hrun⟩ := exists_run observer log hends
  obtain ⟨hticks, hmachine⟩ := turns_of_run hrun (Nat.le_refl fuel)
  have hlog := log_of_turns hrun (Nat.le_refl fuel)
  rw [hrs] at hticks hlog
  have hturns : ∀ count, a ≤ count → (m.turns b a 0).1 = (m.turns b count 0).1.take a ∧
      finished.machine.output.toList <+: (m.turns b count 0).2.output.toList := by
    intro count hcount
    refine ⟨(take_turns hcount b 0 m).symm, ?_⟩
    rw [hmachine, houtput]
    exact output_turns hcount b 0 m
  refine ⟨finished, (m.turns b a 0).1, hrun, ?_, hticks.symm, hlog, hturns, ?_, ?_⟩
  · rw [hticks]
    exact hshort
  · intro fuel' log' finished' hrun'
    -- So many turns are all of the second run, and not fewer than the first one takes.
    obtain ⟨hticks', hmachine'⟩ := turns_of_run hrun' (Nat.le_max_right a fuel')
    obtain ⟨htake, hprefix⟩ := hturns (max a fuel') (Nat.le_max_left a fuel')
    rw [← hmachine'] at hprefix
    exact ⟨_, hticks'.symm, log_of_turns hrun' (Nat.le_max_right a fuel'), htake, hprefix⟩
  · intro hendless count
    by_contra hne
    have hlt : (m.turns b count 0).1.length < count :=
      Nat.lt_of_le_of_ne (length_turns_le b count 0 m) hne
    obtain ⟨finished', hrun'⟩ := exists_run observer log hlt
    rw [hendless count] at hrun'
    cases hrun'

/-- A machine that prints its accumulator without end. -/
def endlessPrinter : Machine where
  memory := #[0x02010001, 0x0F020000]
  bus := Bus.standard #[]

theorem tighter_limit_of_endlessPrinter :
    (∀ n, (none : Option Nat) = some n → 3 ≤ n) ∧ 3 < 4 ∧
      ∃ finished rs, endlessPrinter.run observer (some 3) 4 "" = some finished ∧
        finished.outcome.ticks ≤ 3 ∧ finished.observed = "" ++ unlines (lines rs finished.outcome) ∧
        rs = [⟨0, ⟨.output, .immediate, 1⟩, [.output 1 0]⟩, ⟨1, ⟨.jump, .absolute, 0⟩, [.jump 0]⟩,
          ⟨0, ⟨.output, .immediate, 1⟩, [.output 1 0]⟩] ∧
        (endlessPrinter.turns none 5 0).1.length = 5 ∧
        finished.machine.output.toList <+: [48, 10, 48, 10, 48, 10] := by
  have hle : ∀ n, (none : Option Nat) = some n → 3 ≤ n := nofun
  obtain ⟨finished, rs, hrun, hticks, -, hlog, hturns, -⟩ :=
    tighter_limit endlessPrinter hle (by decide : 3 < 4) ""
  obtain ⟨hrs, houtput⟩ := hturns 5 (by decide)
  exact ⟨hle, by decide, finished, rs, hrun, hticks, hlog, hrs, rfl, houtput⟩

end Trace

end Accumulator
