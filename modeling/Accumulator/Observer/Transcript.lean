import Accumulator.Observer.Dump
import Accumulator.Observer.Serial
import Accumulator.Observer.Trace

/-!
# Transcripts

* `Machine.transcribe` — a run with its log, its output as it was sent on, and its dumps.
-/

namespace Accumulator

/-- A run that ended, and what was kept of it. -/
structure Transcript where
  outcome : Outcome
  machine : Machine
  log : String
  sent : Array UInt8
  dump : String

/-- Runs a machine and keeps a transcript, if the run ends within the fuel. -/
def Machine.transcribe (m : Machine) (plan : DumpPlan) (limit : Option Nat) (fuel : Nat) :
    Option Transcript :=
  let observer := Trace.observer.both (Serial.observer.both plan.observer)
  (m.run observer limit fuel ("", {}, "")).map fun finished =>
    let (log, serial, dump) := finished.observed
    { outcome := finished.outcome, machine := finished.machine, log, sent := serial.written, dump }

end Accumulator
