import Accumulator.Observer.Transcript
import Accumulator.Proofs.Observer.Limit

/-!
# The streamed output

What has been sent on is the output, at every moment at which the stream is called.

* `Observer.journal` — an observer together with a journal of its calls: what it was shown and what it
  held afterwards.
* `Serial.Begins`, `forward_of_begins` — what was sent begins the output, and sending the rest of it
  leaves nothing out and repeats nothing.
* `watch_of_begins` — behind the instructions that retire the stream has caught up with the machine.
* `journal_of_runFrom` — every call of a run leaves the stream caught up with the machine of its turn.
* `streamed_of_run` — the law of a run with a fresh stream.
-/

namespace Accumulator

namespace Observer

variable {σ : Type}

/-- Keeps with what an observer holds a journal: for each of its calls during the run and at the end, the
machine that it was shown and what it held after the call. -/
def journal (o : Observer σ) : Observer (σ × List (Machine × σ)) where
  start m s := (o.start m s.1, s.2)
  retired tick r m s :=
    let held := o.retired tick r m s.1
    (held, s.2 ++ [(m, held)])
  faulted tick fault m s :=
    let held := o.faulted tick fault m s.1
    (held, s.2 ++ [(m, held)])
  finish m s :=
    let held := o.finish m s.1
    (held, s.2 ++ [(m, held)])

theorem journal_contains (o : Observer σ) : o.journal.Contains Prod.fst o where
  start _ _ := rfl
  retired _ _ _ _ := rfl
  faulted _ _ _ _ := rfl
  finish _ _ := rfl

end Observer

namespace Serial

variable {m m' : Machine} {s : Serial}

/-- The stream that has sent all of the output of a machine. -/
def caughtUp (m : Machine) : Serial := ⟨m.output.size, m.output⟩

/-- The stream has counted what it sent, and that begins the output of the machine. -/
structure Begins (m : Machine) (s : Serial) : Prop where
  sent : s.sent = s.written.size
  written : s.written.toList <+: m.output.toList

theorem begins_fresh (m : Machine) : Begins m {} := ⟨rfl, List.nil_prefix⟩

theorem begins_caughtUp (m : Machine) : Begins m (caughtUp m) := ⟨rfl, List.prefix_refl _⟩

/-- A stream stays behind an output that grows. -/
theorem Begins.mono (h : Begins m s) (hgrows : m.output.toList <+: m'.output.toList) : Begins m' s :=
  ⟨h.sent, h.written.trans hgrows⟩

theorem Begins.advance {r : Retired} (h : Begins m s) (hstep : m.step = (.retired r, m')) :
    Begins m' s :=
  h.mono ⟨_, (Machine.delivered_of_step hstep).output.symm⟩

/-- **Sending what is new sends all of the output**, each byte once and in its place. -/
theorem forward_of_begins (h : Begins m s) : forward m s = caughtUp m := by
  obtain ⟨rest, hrest⟩ := h.written
  have hsize : s.sent + rest.length = m.output.size := by
    simpa [h.sent] using congrArg List.length hrest
  have hnew : s.written ++ m.output.extract s.sent = m.output := by
    apply Array.toList_inj.mp
    have hstop : m.output.size - s.written.size = rest.length := by rw [← h.sent]; omega
    simp [h.sent, ← hrest, List.extract, hstop]
  unfold forward caughtUp
  split
  · rw [hnew]
  · -- nothing is new, so nothing stands behind what was sent
    have hnil : rest = [] := List.eq_nil_of_length_eq_zero (by omega)
    rw [hnil, List.append_nil] at hrest
    have hall : s = ⟨s.sent, s.written⟩ := rfl
    rw [hall, h.sent, Array.toList_inj.mp hrest]

/-! ## The calls of a run -/

variable {limit : Option Nat} {fuel tick : Nat}

/-- **The stream is caught up as soon as it was called**, also in a run that does not end. -/
theorem watch_of_begins {rs : List Retired} {last : Machine} (h : m.Retires rs last) (hne : rs ≠ [])
    (hs : Begins m s) : observer.watch tick m rs s = caughtUp last := by
  induction h generalizing tick s with
  | nil => exact absurd rfl hne
  | @cons m m₁ last r rs hstep hrest ih =>
    have hsent : observer.retired tick r m₁ s = caughtUp m₁ := forward_of_begins (hs.advance hstep)
    rw [Observer.watch, hstep, hsent]
    cases hrest with
    | nil => rfl
    | cons _ _ => exact ih (List.cons_ne_nil _ _) (begins_caughtUp m₁)

/-- The machine behind the turn `i` of a run, and the stream that has caught up with it. -/
def heard (limit : Option Nat) (tick : Nat) (m : Machine) (i : Nat) : Machine × Serial :=
  let seen := (m.turns limit (i + 1) tick).2
  (seen, caughtUp seen)

/-- **Every call catches up.** The calls of a run, from the machine `m` on, are one for each turn and one
at the end, which follows no turn of its own. -/
theorem journal_of_runFrom {calls : List (Machine × Serial)}
    {finished : Finished (Serial × List (Machine × Serial))} (hs : Begins m s)
    (h : Machine.runFrom observer.journal limit fuel tick m (s, calls) = some finished) :
    ∃ count, tick + count = finished.outcome.lineCount + 1 ∧
      observer.journal.finish finished.machine finished.observed =
        (caughtUp finished.machine, calls ++ (List.range count).map (heard limit tick m)) := by
  induction fuel generalizing tick m s calls with
  | zero => cases h
  | succ fuel ih =>
    rw [Machine.runFrom] at h
    rcases Machine.advance_cases limit tick m with ⟨r, m₁, hadvance⟩ | ⟨outcome, m₁, hticks, hadvance⟩
    · rw [hadvance] at h
      simp only at h
      have hs₁ : Begins m₁ s := hs.advance (Machine.advance_retired hadvance)
      have hsent : observer.journal.retired tick r m₁ (s, calls) =
          (caughtUp m₁, calls ++ [(m₁, caughtUp m₁)]) := by
        simp only [Observer.journal, observer, forward_of_begins hs₁]
      rw [hsent] at h
      obtain ⟨count, hcount, hcalls⟩ := ih (begins_caughtUp m₁) h
      have hturn (i : Nat) : heard limit tick m (i + 1) = heard limit (tick + 1) m₁ i := by
        rw [heard, heard, Machine.turns_retired hadvance]
      have hfirst : heard limit tick m 0 = (m₁, caughtUp m₁) := by
        rw [heard, Machine.turns_retired hadvance]
        rfl
      refine ⟨count + 1, by omega, ?_⟩
      rw [hcalls, List.range_succ_eq_map, List.map_cons, List.map_map, hfirst, List.append_assoc]
      simp only [Function.comp_def, Nat.succ_eq_add_one, hturn, List.singleton_append]
    · rw [hadvance] at h
      have hs₁ : Begins m₁ s := hs.mono (Machine.output_of_advance hadvance ▸ List.prefix_refl _)
      have hturn (i : Nat) : heard limit tick m i = (m₁, caughtUp m₁) := by
        rw [heard, Machine.turns_ended hadvance]
      cases outcome with
      | halted ticks =>
        cases h
        refine ⟨1, rfl, ?_⟩
        simp only [Observer.journal, observer, forward_of_begins hs₁, List.range_one,
          List.map_singleton, hturn]
      | faulted ticks fault =>
        cases h
        refine ⟨2, rfl, ?_⟩
        simp only [Observer.journal, observer, forward_of_begins hs₁,
          forward_of_begins (begins_caughtUp m₁), List.range_succ_eq_map, List.range_zero,
          List.map_cons, List.map_nil, hturn, List.append_assoc, List.singleton_append]

/-- The calls of a whole run with a fresh stream. -/
theorem journal_of_run {finished : Finished (Serial × List (Machine × Serial))}
    (h : m.run observer.journal limit fuel ({}, []) = some finished) :
    finished.observed = (caughtUp finished.machine,
      (List.range (finished.outcome.lineCount + 1)).map (heard limit 0 m)) := by
  obtain ⟨ending, hrun, rfl⟩ := Option.map_eq_some_iff.mp h
  obtain ⟨count, hcount, hcalls⟩ := journal_of_runFrom (begins_fresh m) hrun
  rw [Nat.zero_add] at hcount
  subst hcount
  exact hcalls

/-- A run is transcribed if it ends, and with the same end. -/
theorem exists_transcript (plan : DumpPlan) {finished : Finished Serial}
    (h : m.run observer limit fuel {} = some finished) :
    ∃ t, m.transcribe plan limit fuel = some t ∧ t.outcome = finished.outcome ∧
      t.machine = finished.machine ∧ t.sent = finished.observed.written := by
  have hbeside : (Trace.observer.both (observer.both plan.observer)).Contains (fun s => s.2.1)
      observer := ⟨by intros; rfl, by intros; rfl, by intros; rfl, by intros; rfl⟩
  have hall := Machine.run_contains hbeside limit fuel m ("", {}, "")
  rw [h, Option.map_eq_some_iff] at hall
  obtain ⟨_, hall, rfl⟩ := hall
  exact ⟨_, congrArg (Option.map _) hall, rfl, rfl, rfl⟩

/-- **The streamed output is the output of the machine**, whatever was in it before, whatever the limit is
and however the run ends. After each of its calls the fresh stream has written exactly the output of the
machine that it was shown, the one behind the turn of the call; there is a call for each retired
instruction, one for a fault and one at the end, and what is written is only added to. So it is with
the log and the dumps beside the stream, and behind every instruction of a run that does not end. -/
theorem streamed_of_run (m : Machine) (limit : Option Nat) :
    (∀ fuel finished, m.run observer limit fuel {} = some finished →
      finished.observed.written = finished.machine.output ∧
      (∃ calls : List (Machine × Serial),
        m.run observer.journal limit fuel ({}, []) =
          some ⟨finished.outcome, finished.machine, (finished.observed, calls)⟩ ∧
        calls.length = finished.outcome.lineCount + 1 ∧
        (∀ i call, calls[i]? = some call →
          call.1 = (m.turns limit (i + 1) 0).2 ∧ call.2.written = call.1.output) ∧
        calls.Pairwise fun before after => before.2.written.toList <+: after.2.written.toList) ∧
      ∀ plan, ∃ t, m.transcribe plan limit fuel = some t ∧ t.outcome = finished.outcome ∧
        t.machine = finished.machine ∧ t.sent = t.machine.output) ∧
    ∀ rs last, m.Retires rs last → rs ≠ [] →
      (observer.watch 0 m rs {}).written = last.output := by
  refine ⟨fun fuel finished h => ?_, fun rs last hrs hne => ?_⟩
  · have hjournal := Machine.run_contains observer.journal_contains limit fuel m ({}, [])
    rw [h, Option.map_eq_some_iff] at hjournal
    obtain ⟨⟨outcome, last, held, calls⟩, hrun, rfl⟩ := hjournal
    have hheld : (held, calls) = (caughtUp last,
        (List.range (outcome.lineCount + 1)).map (heard limit 0 m)) := journal_of_run hrun
    obtain ⟨rfl, rfl⟩ := Prod.mk.inj hheld
    refine ⟨rfl, ⟨_, hrun, ?_, fun i call hcall => ?_, ?_⟩, fun plan => ?_⟩
    · rw [List.length_map, List.length_range]
      rfl
    · rw [List.getElem?_map, Option.map_eq_some_iff] at hcall
      obtain ⟨i', hi', rfl⟩ := hcall
      obtain ⟨-, rfl⟩ := List.getElem?_eq_some_iff.mp hi'
      rw [List.getElem_range]
      exact ⟨rfl, rfl⟩
    · rw [List.pairwise_map]
      refine List.pairwise_lt_range.imp fun {i j} hlt => ?_
      exact Machine.output_turns (Nat.succ_le_succ (Nat.le_of_lt hlt)) limit 0 m
    · obtain ⟨t, ht, houtcome, hmachine, hsent⟩ := exists_transcript plan h
      exact ⟨t, ht, houtcome, hmachine, hmachine ▸ hsent⟩
  · rw [watch_of_begins hrs hne (begins_fresh m)]
    rfl

/-- A machine that prints its accumulator without end. Something was printed before. -/
def resumedPrinter : Machine where
  memory := #[0x02010001, 0x0F020000]
  bus := { Bus.standard #[] with output := #[72, 105] }

theorem streamed_of_resumedPrinter :
    ∃ finished, resumedPrinter.run observer (some 3) 4 {} = some finished ∧
      finished.outcome = .faulted 3 (.tickLimit 1 3) ∧
      finished.observed.written = #[72, 105, 48, 10, 48, 10] ∧
      ∃ calls : List (Machine × Serial), resumedPrinter.run observer.journal (some 3) 4 ({}, []) =
          some ⟨finished.outcome, finished.machine, (finished.observed, calls)⟩ ∧
        calls.length = 5 ∧
        ∀ call ∈ calls, call.2.written = call.1.output := by
  obtain ⟨finished, hrun⟩ : ∃ finished, resumedPrinter.run observer (some 3) 4 {} = some finished :=
    ⟨_, rfl⟩
  obtain ⟨hwritten, ⟨calls, hjournal, hlength, hcalls, -⟩, -⟩ :=
    (streamed_of_run resumedPrinter (some 3)).1 4 finished hrun
  have houtcome : finished.outcome = .faulted 3 (.tickLimit 1 3) :=
    (congrArg Finished.outcome (Option.some.inj hrun)).symm
  have houtput : finished.machine.output = #[72, 105, 48, 10, 48, 10] :=
    (congrArg (fun f => f.machine.output) (Option.some.inj hrun)).symm
  rw [houtcome] at hlength
  refine ⟨finished, hrun, houtcome, hwritten.trans houtput, calls, hjournal, hlength,
    fun call hcall => ?_⟩
  obtain ⟨i, hi⟩ := List.getElem?_of_mem hcall
  exact (hcalls i call hi).2

end Serial

end Accumulator
