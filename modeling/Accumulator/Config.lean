import Accumulator.Observer.Dump

/-!
# Configuration

* `Config` — the settings of a run.
* `Config.Decoder` — a reader of settings, for whatever language they are written in.
* `Config.readWith` — the configuration that such a reader finds. A memory size that the address space
  cannot hold is refused.
-/

namespace Accumulator

/-- The settings of a run. -/
structure Config where
  memorySize : Nat := defaultMemorySize
  /-- The number of instructions after which the run faults. -/
  limit : Option Nat := none
  /-- The path of the execution log. -/
  log : String := "cpu.log"
  truncateLog : Bool := false
  /-- The cells to dump after the instruction at each of these addresses. -/
  dump : List (Address × List Address) := []
  deriving DecidableEq, Repr

/-- Why a configuration is refused. -/
inductive ConfigError where
  /-- The text holds no settings, for the reason that their reader gives. -/
  | malformed {reason : String}
  | memorySize (size : Nat)
  deriving DecidableEq, Repr

/-- The error as it is printed. -/
def ConfigError.message : ConfigError → String
  | @malformed reason => "Malformed config: " ++ reason
  | .memorySize size =>
    "memory_size " ++ Text.decimal size ++ " is out of range 1..=" ++ Text.decimal addressSpace

namespace Config

/-- A reader of settings: the settings that a text holds, or the reason why it holds none. -/
abbrev Decoder := String → Except String Config

/-- The configuration that a text holds for a reader of settings. -/
def readWith (decode : Decoder) (text : String) : Except ConfigError Config :=
  match decode text with
  | .error reason => .error (@ConfigError.malformed reason)
  | .ok config =>
    if config.memorySize = 0 ∨ addressSpace < config.memorySize then
      .error (.memorySize config.memorySize)
    else .ok config

end Config

end Accumulator
