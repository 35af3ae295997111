import Accumulator.CommandLine.Arguments
import Accumulator.CommandLine.Script
import Accumulator.Text.Colour

/-!
# Commands

* `Tool` — a command with its grammar and the texts about it.
* `Tool.start` — reads the arguments of a call and hands them on, or answers a request for help or
  for the version, or explains a mistake.
* `failure` — the line that reports why a command failed.
-/

namespace Accumulator

/-- The status of a command that could not do its work. -/
def failureStatus : Nat := 1

/-- The status of a command that was called wrongly, and of a run that faulted. -/
def refusalStatus : Nat := 2

/-- The line that reports why a command failed. -/
def failure (message : String) : String :=
  Text.paint [.red, .bold] "error" ++ ": " ++ message ++ "\n"

/-- A text of the caller between back quotes. -/
def quotePath (path : String) : String := "\x60" ++ path ++ "\x60"

/-- A command. -/
structure Tool where
  name : String
  grammar : Grammar
  usage : String
  help : String

namespace Tool

/-- The version of the commands. -/
def version : String := "0.1.0"

/-- Starts a command with the arguments of a call. -/
def start {α : Type} (tool : Tool) (arguments : List String) (exit : Nat → α)
    (command : Arguments → Script α) : Script α :=
  match tool.grammar.parse arguments with
  | .ok arguments => command arguments
  | .error .help => do
    Script.output tool.help.toUTF8
    pure (exit 0)
  | .error .version => do
    Script.output (tool.name ++ " " ++ version ++ "\n").toUTF8
    pure (exit 0)
  | .error (.mistake description) => do
    Script.report ("error: " ++ description ++ "\n\nUsage: " ++ tool.usage ++
      "\n\nFor more information, try '--help'.\n")
    pure (exit refusalStatus)

end Tool

end Accumulator
