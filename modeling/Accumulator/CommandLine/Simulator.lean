import Accumulator.CommandLine.Tool
import Accumulator.Observer.Transcript
import Accumulator.Program.Artifact
import Accumulator.Yaml.Config

/-!
# The simulator command

* `Setup` — the settings of a run, the program in memory and the input on its console.
* `Simulator.prepare` — reads all that a run needs. Options count before the configuration. The reader of
  the settings in a file is given, whatever it accepts.
* `Simulator.commandWith` — runs a program. The log is touched only by a run that starts; it is appended
  to unless it is to be truncated.
* `Simulator.command` — the same with the reader of settings in YAML.
-/

namespace Accumulator.Simulator

/-- Whether a text is a number of instructions: decimal digits, with or without a plus sign. -/
def limit? (text : String) : Option Nat :=
  let digits :=
    match text.toList with
    | '+' :: rest => rest
    | digits => digits
  (Text.ofDigits? 10 digits).filter (· < UInt64.size)

/-- The command. -/
def tool : Tool where
  name := "acemu"
  grammar := {
    options := [
      { name := "config", letter := some 'c' },
      { name := "tmax", letter := some 't', accepts := fun value => (limit? value).isSome },
      { name := "log", letter := some 'l' },
      { name := "truncate-log", isSwitch := true },
      { name := "dump-all", letter := some 'a', isSwitch := true }]
    required := ["PROGRAM", "INPUT"] }
  usage := "acemu [OPTIONS] <PROGRAM> <INPUT>"
  help := "Simulator for the AC32 architecture

Usage: acemu [OPTIONS] <PROGRAM> <INPUT>

Arguments:
  <PROGRAM>  Machine-code artifact produced by acasm
  <INPUT>    File fed to the console device

Options:
  -c, --config <CONFIG>  YAML machine config
  -t, --tmax <TMAX>      Fault after this many instructions
  -l, --log <LOG>        Execution log [default: cpu.log]
      --truncate-log     Start the execution log from scratch instead of appending
  -a, --dump-all         Dump registers after every instruction
  -h, --help             Print help
  -V, --version          Print version
"

/-- What a run needs. -/
structure Setup where
  machine : Machine
  plan : DumpPlan
  limit : Option Nat
  log : String
  truncateLog : Bool

/-- The content of a file, or why there is none. -/
def readInput (path : String) : Script (Except String ByteArray) := do
  match ← Script.readFile path with
  | .ok bytes => pure (.ok bytes)
  | .error error => pure (.error ("Failed to read " ++ quotePath path ++ ": " ++ error.message))

/-- The configuration in a file, or the usual one if no file is named. -/
def readConfig (decode : Config.Decoder) (path? : Option String) : Script (Except String Config) := do
  match path? with
  | none => pure (.ok {})
  | some path =>
    match (← Script.readFile path).bind FileError.decodeText with
    | .error error =>
      pure (.error ("Failed to read config " ++ quotePath path ++ ": " ++ error.message))
    | .ok text => pure ((Config.readWith decode text).mapError ConfigError.message)

/-- The report on a program that cannot be used. -/
def refusedProgram (error : ProgramError) : String := "Failed to load program: " ++ error.message

/-- Reads the configuration, the program and the input, in this order, and loads the program. -/
def prepare (decode : Config.Decoder) (arguments : Arguments) (program input : String) :
    Script (Except String Setup) := do
  match ← readConfig decode (arguments.value? "config") with
  | .error message => pure (.error message)
  | .ok config =>
    match ← readInput program with
    | .error message => pure (.error message)
    | .ok bytes =>
      match Program.ofArtifact bytes with
      | .error error => pure (.error (refusedProgram error))
      | .ok p =>
        match ← readInput input with
        | .error message => pure (.error message)
        | .ok bytes =>
          match (Machine.reset config.memorySize (Bus.standard bytes.data)).load p with
          | .error error => pure (.error (refusedProgram error))
          | .ok machine =>
            pure (.ok {
              machine
              plan := ⟨config.dump, arguments.isSet "dump-all"⟩
              limit := ((arguments.value? "tmax").bind limit?).or config.limit
              log := (arguments.value? "log").getD config.log
              truncateLog := arguments.isSet "truncate-log" || config.truncateLog })

/-- The line that reports how a run ended, and the status of the command. -/
def verdict : Outcome → String × Nat
  | .halted _ => ("", 0)
  | .faulted ticks fault =>
    (Text.paint [.red, .bold] "fault" ++ ": " ++ fault.message ++ " (pc 0x" ++
      Text.hex 4 fault.pc ++ ", tick " ++ Text.decimal ticks ++ ")\n", refusalStatus)

/-- Reports a failure. -/
def fail (message : String) : Script (Option Nat) := do
  Script.report (failure message)
  pure (some failureStatus)

/-- Opens the log and runs the machine. A run that does not end within the fuel has no status. -/
def simulate (fuel : Nat) (setup : Setup) : Script (Option Nat) := do
  match ← Script.writeFile setup.log (!setup.truncateLog) ByteArray.empty with
  | .error error => fail ("I/O error: " ++ error.message)
  | .ok () =>
    match setup.machine.transcribe setup.plan setup.limit fuel with
    | none => pure none
    | some t =>
      match ← Script.writeFile setup.log true t.log.toUTF8 with
      | .error error => fail ("I/O error: " ++ error.message)
      | .ok () =>
        Script.output ⟨t.sent⟩
        let (message, status) := verdict t.outcome
        Script.report (t.dump ++ message)
        pure (some status)

/-- The command with the arguments of a call. It returns its status, if the run ends. -/
def commandWith (decode : Config.Decoder) (fuel : Nat) (arguments : List String) : Script (Option Nat) :=
  tool.start arguments some fun arguments =>
    match arguments.operands with
    | [program, input] => do
      match ← prepare decode arguments program input with
      | .error message => fail message
      | .ok setup => simulate fuel setup
    | _ => pure (some refusalStatus)

/-- The command with settings in YAML. -/
def command (fuel : Nat) (arguments : List String) : Script (Option Nat) :=
  commandWith Config.decode fuel arguments

end Accumulator.Simulator
