import Accumulator.Machine.Run

/-!
# Streaming the output

After every instruction, and again at a fault and at the end, the output that has not been sent is
sent on.
-/

namespace Accumulator

/-- What has been sent. -/
structure Serial where
  sent : Nat := 0
  written : Array UInt8 := #[]
  deriving DecidableEq, Repr

namespace Serial

/-- Sends the output that is new. -/
def forward (m : Machine) (s : Serial) : Serial :=
  if s.sent < m.output.size then
    { sent := m.output.size, written := s.written ++ m.output.extract s.sent }
  else s

/-- Keeps what is sent. -/
def observer : Observer Serial where
  retired _ _ m s := forward m s
  faulted _ _ m s := forward m s
  finish m s := forward m s

end Serial

end Accumulator
