import Accumulator.Assembly.Listing
import Accumulator.CommandLine.Tool
import Accumulator.Path
import Accumulator.Program.Artifact

/-!
# The assembler command

* `LineError.diagnostic`, `diagnostics` — errors with the source lines they are about.
* `Assembler.command` — reads a source, assembles it and writes the artifact. Nothing is written
  unless all of the source assembles.
-/

namespace Accumulator

/-- An error with the line that it is about. -/
def LineError.diagnostic (file : String) (lines : List (List Char)) (e : LineError) : String :=
  let bar := "      " ++ Text.paint [.blue] "|" ++ "\n"
  let text := String.ofList (lines.getD (e.line - 1) [])
  Text.paint [.red, .bold] e.error.errorClass.text ++ ": " ++ e.error.message ++ "\n" ++
    "     " ++ Text.paint [.blue] "-->" ++ " " ++
      Text.paint [.underline] (file ++ ":" ++ Text.decimal e.line) ++ "\n" ++
    bar ++
    " " ++ Text.paint [.blue] (Text.padLeft 4 ' ' (Text.decimal e.line) ++ " |") ++ " " ++ text ++
      "\n" ++
    bar

/-- All errors of a source, and their number. -/
def diagnostics (file source : String) (errors : List LineError) : String :=
  let lines := Text.lines source.toList
  let plural := if errors.length = 1 then "" else "s"
  String.join (errors.map (LineError.diagnostic file lines)) ++
    failure ("aborting due to " ++ Text.decimal errors.length ++ " previous error" ++ plural)

namespace Assembler

/-- The line above and below a listing. -/
def rule : String :=
  Text.paint [.bold] "-------------------+-----------------------------------------------------" ++
    "\n"

/-- The listing of a source as it is printed. -/
def listing (layout : Layout) (source : String) (lines : List Line) : String :=
  rule ++ String.join ((layout.listing source lines).map (· ++ "\n")) ++ rule

/-- The command. -/
def tool : Tool where
  name := "acasm"
  grammar := {
    options := [{ name := "dump", letter := some 'd', isSwitch := true }]
    required := ["SOURCE"]
    optional := ["OUTPUT"] }
  usage := "acasm [OPTIONS] <SOURCE> [OUTPUT]"
  help := "acasm 0.1.0
  Two-pass assembler for the AC32 architecture

Usage:
  acasm [OPTIONS] <SOURCE> [OUTPUT]

Arguments:
  <SOURCE>  Assembly source file
  [OUTPUT]  Output artifact [default: <source stem>.json]

Options:
  -d, --dump     Print the assembled listing to stderr
  -h, --help     Print help
  -V, --version  Print version
"

/-- Assembles the source `path`, shows its listing if asked to, and writes the artifact. -/
def assembleFile (path target : String) (showListing : Bool) : Script Nat := do
  match (← Script.readFile path).bind FileError.decodeText with
  | .error error =>
    Script.report (failure ("Failed to open file " ++ quotePath path ++ ": " ++ error.message))
    pure failureStatus
  | .ok source =>
    let result : Except (List LineError) (List Line × Layout × Program) := do
      let lines ← Line.readAll source
      let layout ← Layout.build lines
      let program ← layout.encode
      .ok (lines, layout, program)
    match result with
    | .error errors =>
      Script.report (diagnostics path source errors)
      pure failureStatus
    | .ok (lines, layout, program) =>
      if showListing then
        Script.report (listing layout source lines)
      match ← Script.writeFile target false program.artifact.toUTF8 with
      | .ok () => pure 0
      | .error error =>
        Script.report
          (failure ("Failed to write file " ++ quotePath target ++ ": " ++ error.message))
        pure failureStatus

/-- The command with the arguments of a call. It returns its status. -/
def command (arguments : List String) : Script Nat :=
  tool.start arguments id fun arguments =>
    match arguments.operands with
    | [] => pure refusalStatus
    | path :: rest =>
      assembleFile path ((rest.head?).getD (Path.defaultOutput path)) (arguments.isSet "dump")

end Assembler

end Accumulator
