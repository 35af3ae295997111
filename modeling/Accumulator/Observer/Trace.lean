import Accumulator.Machine.Run
import Accumulator.Text.Blank

/-!
# The execution log

One line for each retired instruction, then a line for the fault if the run did not halt.
-/

namespace Accumulator.Trace

/-- The line of a retired instruction. -/
def record (tick : Nat) (r : Retired) : String :=
  let line := "[" ++ Text.paddedDecimal 4 tick ++ "] " ++ r.text
  String.ofList (Text.trimEnd line.toList)

/-- The line of a fault. -/
def faultRecord (tick : Nat) (fault : Fault) : String :=
  "[" ++ Text.paddedDecimal 4 tick ++ "] " ++ Text.hex 4 fault.pc ++ ": FAULT " ++ fault.message

/-- Keeps the log. -/
def observer : Observer String where
  retired tick r _ log := log ++ record tick r ++ "\n"
  faulted tick fault _ log := log ++ faultRecord tick fault ++ "\n"

end Accumulator.Trace
