import Accumulator.Observer.Trace
import Accumulator.Proofs.Machine.Ending
import Accumulator.Proofs.Text.Lines

/-!
# The log of a run

* `printable_record`, `printable_faultRecord` — no line of a log holds a line end.
* `Trace.lines` — the lines of a log: a record for each retired instruction, in order, and a last line
  for a fault.
* `log_of_run` — the log of a run is the text of these lines, and the machine is the one behind the
  instructions that retired, but for its status.
-/

namespace Accumulator

open Text

/-! ## Every line is printable -/

@[simp] theorem Opcode.printable_name (op : Opcode) : Printable op.name := by cases op <;> decide

@[simp] theorem Mode.printable_name (mode : Mode) : Printable mode.name := by cases mode <;> decide

@[simp] theorem Register.printable_name (r : Register) : Printable r.name := by cases r <;> decide

theorem Instruction.printable_operandText (i : Instruction) : Printable i.operandText := by
  unfold operandText
  split
  · decide
  · exact printable_decimal _
  · decide
  · exact .append (by decide) (printable_hex _ _)
  · exact .append (by decide) (printable_hex _ _)
  · exact .append (by decide) (printable_hex _ _)
  · exact .append (.append (by decide) (printable_hex _ _)) (by decide)

@[simp] theorem Instruction.printable_text (i : Instruction) : Printable i.text := by
  unfold text
  split
  · exact i.opcode.printable_name
  · simp only [printable_append, Opcode.printable_name, i.printable_operandText, and_true, true_and]
    decide

@[simp] theorem Register.printable_format (r : Register) (value : Nat) :
    Printable (r.format value) := by
  simp only [format, printable_append, printable_name, printable_hex, and_true, true_and]
  decide

@[simp] theorem Flags.printable_text (flags : Flags) : Printable flags.text := by
  obtain ⟨zero, carry⟩ := flags
  cases zero <;> cases carry <;> decide

theorem Effect.printable_text (e : Effect) : Printable e.text := by
  cases e <;> simp only [text, printable_append, printable_decimal, printable_hex,
    Register.printable_format, Flags.printable_text, and_true] <;> decide

@[simp] theorem Retired.printable_effectText (r : Retired) : Printable r.effectText := by
  unfold effectText
  split
  · decide
  · refine printable_intercalate (by decide) fun text htext => ?_
    obtain ⟨e, -, rfl⟩ := List.mem_map.mp htext
    exact e.printable_text

@[simp] theorem Retired.printable_text (r : Retired) : Printable r.text := by
  simp only [text, printable_append, printable_hex, printable_padRight,
    Instruction.printable_text, printable_effectText, and_true, true_and]
  decide

@[simp] theorem DecodeError.printable_message (e : DecodeError) : Printable e.message := by
  cases e with
  | unknownOpcode byte => exact .append (by decide) (printable_hex _ _)
  | unknownMode byte => exact .append (by decide) (printable_hex _ _)
  | illegalMode opcode mode =>
    have hname : Printable (opcode.name ++ " does not accept ") :=
      .append opcode.printable_name (by decide)
    exact .append (hname.append mode.printable_name) (by decide)
  | portOutOfRange operand => exact .append (.append (by decide) (printable_decimal _)) (by decide)

@[simp] theorem Fault.printable_message (fault : Fault) : Printable fault.message := by
  cases fault with
  | pcOutOfRange pc =>
    show Printable "program counter is outside of memory"
    decide
  | illegalInstruction pc word reason =>
    have hword : Printable ("illegal instruction 0x" ++ hex 8 word.toNat) :=
      .append (by decide) (printable_hex _ _)
    exact .append (hword.append (by decide)) reason.printable_message
  | addressOutOfRange pc address => exact .append (.append (by decide) (printable_hex _ _)) (by decide)
  | noDevice pc port => exact .append (by decide) (printable_decimal _)
  | writeOnly pc port => exact .append (.append (by decide) (printable_decimal _)) (by decide)
  | inputExhausted pc =>
    show Printable "input exhausted"
    decide
  | tickLimit pc limit => exact .append (.append (by decide) (printable_decimal _)) (by decide)

/-! ## The log -/

/-- The number of lines in the log of a run: one for each instruction, and one more for a fault. -/
def Outcome.lineCount : Outcome → Nat
  | .halted ticks => ticks
  | .faulted ticks _ => ticks + 1

namespace Trace

theorem printable_record (tick : Nat) (r : Retired) : Printable (record tick r) := by
  refine printable_trimEnd ?_
  simp only [printable_append, printable_paddedDecimal, Retired.printable_text, and_true]
  decide

theorem printable_faultRecord (tick : Nat) (fault : Fault) : Printable (faultRecord tick fault) := by
  simp only [faultRecord, printable_append, printable_paddedDecimal, printable_hex,
    Fault.printable_message, and_true]
  decide

/-- The lines of a log: the records of the instructions that retired, the `i`-th with the tick `i`,
then the record of a fault. -/
def lines (rs : List Retired) : Outcome → List String
  | .halted _ => rs.mapIdx record
  | .faulted tick fault => rs.mapIdx record ++ [faultRecord tick fault]

theorem printable_of_mem_lines {rs : List Retired} {outcome : Outcome} {line : String}
    (h : line ∈ lines rs outcome) : Printable line := by
  have hrecords : ∀ line ∈ rs.mapIdx record, Printable line := by
    intro line hline
    obtain ⟨i, hi, rfl⟩ := List.mem_mapIdx.mp hline
    exact printable_record i rs[i]
  cases outcome with
  | halted ticks => exact hrecords line h
  | faulted tick fault =>
    rcases List.mem_append.mp h with h | h
    · exact hrecords line h
    · rw [List.mem_singleton.mp h]
      exact printable_faultRecord tick fault

theorem length_lines {rs : List Retired} {outcome : Outcome} (h : rs.length = outcome.ticks) :
    (lines rs outcome).length = outcome.lineCount := by
  cases outcome with
  | halted ticks => exact List.length_mapIdx.trans h
  | faulted ticks fault =>
    rw [lines, List.length_append, List.length_mapIdx, h]
    rfl

theorem watch_observer (tick : Nat) (m : Machine) (rs : List Retired) (log : String) :
    observer.watch tick m rs log = log ++ unlines (rs.mapIdx fun i => record (tick + i)) := by
  induction rs generalizing tick m log with
  | nil => simp [Observer.watch]
  | cons r rs ih =>
    rw [Observer.watch, ih, List.mapIdx_cons, unlines_cons]
    simp only [observer, String.append_assoc, Nat.add_zero, Nat.add_assoc, Nat.add_comm 1]

theorem conclude_watch (m m' : Machine) (rs : List Retired) (log : String) (outcome : Outcome) :
    observer.conclude m' (observer.watch 0 m rs log) outcome = log ++ unlines (lines rs outcome) := by
  rw [watch_observer]
  simp only [Nat.zero_add]
  cases outcome with
  | halted ticks => rfl
  | faulted tick fault =>
    simp only [lines, unlines_append, unlines_cons, unlines_nil, String.append_empty,
      ← String.append_assoc]
    rfl

/-- **The log of a run is the fold of its steps.** The run retires as many instructions as its
outcome counts, and its last step comes to what the outcome says. The log grows by the records of
these instructions in order and the record of a fault, each a line of its own. The machine is the one
behind the instructions, but for its status. Another observer beside the log changes none of this. -/
theorem log_of_run {m : Machine} {limit : Option Nat} {fuel : Nat} {log : String}
    {finished : Finished String} (h : m.run observer limit fuel log = some finished) :
    ∃ rs last, m.Retires rs last ∧ rs.length = finished.outcome.ticks ∧
      last.advance limit rs.length = (finished.outcome.progress, finished.machine) ∧
      finished.machine = { last with status := finished.machine.status } ∧
      finished.observed = log ++ unlines (lines rs finished.outcome) ∧
      (∀ line ∈ lines rs finished.outcome, '\n' ∉ line.toList ∧ '\r' ∉ line.toList) ∧
      Text.lines (unlines (lines rs finished.outcome)).toList =
        (lines rs finished.outcome).map String.toList ∧
      (lines rs finished.outcome).length = finished.outcome.lineCount ∧
      ∀ (τ : Type) (other : Observer τ) (t : τ), ∃ beside,
        m.run (observer.both other) limit fuel (log, t) = some beside ∧
        beside.outcome = finished.outcome ∧ beside.machine = finished.machine ∧
        beside.observed.1 = finished.observed := by
  obtain ⟨rs, last, hrs, hticks, hadvance, hobserved⟩ := Machine.run_eq_some h
  refine ⟨rs, last, hrs, hticks, hadvance, Machine.eq_of_advance_progress hadvance, ?_,
    fun line hline => ?_, lines_unlines fun _ => printable_of_mem_lines, length_lines hticks,
    fun τ other t => ?_⟩
  · rw [hobserved]
    exact conclude_watch m finished.machine rs log finished.outcome
  · have hprintable := printable_of_mem_lines hline
    exact ⟨hprintable.newline_not_mem, hprintable.return_not_mem⟩
  · have hboth := Machine.run_both observer other limit fuel m (log, t)
    rw [h, Option.map_eq_some_iff] at hboth
    obtain ⟨beside, hbeside, rfl⟩ := hboth
    exact ⟨beside, hbeside, rfl, rfl, rfl⟩

/-- A machine about to load a one and store it past the end of its memory. -/
def overrun : Machine where
  memory := #[0x03010001, 0x04020010]

/-- The machine behind the load, stopped by the store. -/
def overrunStopped : Machine where
  memory := #[0x03010001, 0x04020010]
  accumulator := 1
  pc := 1
  status := .faulted (.addressOutOfRange 1 0x10)

theorem log_of_overrun :
    overrun.run observer none 2 "" = some ⟨.faulted 1 (.addressOutOfRange 1 0x10), overrunStopped,
      unlines ["[0000] 0000: LOAD #0x0001     AC=0x00000001",
        "[0001] 0001: FAULT address 0x0010 is out of range"]⟩ ∧
      ∃ rs last, overrun.Retires rs last ∧ rs.length = 1 ∧
        overrunStopped = { last with status := overrunStopped.status } ∧
        (lines rs (.faulted 1 (.addressOutOfRange 1 0x10))).length = 2 := by
  have hrun : overrun.run observer none 2 "" =
      some ⟨.faulted 1 (.addressOutOfRange 1 0x10), overrunStopped, _⟩ := rfl
  obtain ⟨rs, last, hrs, hticks, -, hmachine, -, -, -, hlength, -⟩ := log_of_run hrun
  exact ⟨hrun, rs, last, hrs, hticks, hmachine, hlength⟩

end Trace

end Accumulator
