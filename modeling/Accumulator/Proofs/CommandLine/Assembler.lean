import Accumulator.Proofs.CommandLine.Call
import Accumulator.Proofs.CommandLine.Files

/-!
# The assembler command writes all or nothing

* `Assembler.command_of_call` — a well-formed call assembles its source.
* `Assembler.outcome` — the status and the files that a source and a target come to. A listing is no
  part of it: `result_assembleFile` holds with and without one.
* `Assembler.allOrNothing_of_call` — a call stores the artifact of its source and changes nothing else,
  or it fails and changes nothing at all.
-/

namespace Accumulator.Assembler

/-- **A well-formed call assembles its source**, into the default output if it names no other. -/
theorem command_of_call {arguments : List String} {source : String} {output : Option String} {dump : Bool}
    (h : Call arguments (source :: output.toList) dump) :
    command arguments = assembleFile source (output.getD (Path.defaultOutput source)) dump := by
  have hparse := parse_eq_ok_iff.mpr ⟨source, output, dump, h, rfl⟩
  rw [command, Tool.start, hparse]
  cases output <;> cases dump <;> rfl

/-! ## Assembling a file -/

/-- Writes the artifact of a program. -/
def save (target : String) (program : Program) : Script Nat := do
  match ← Script.writeFile target false program.artifact.toUTF8 with
  | .ok () => pure 0
  | .error error =>
    Script.report (failure ("Failed to write file " ++ quotePath target ++ ": " ++ error.message))
    pure failureStatus

/-- The status and the files that a program and a target come to. -/
def saved (files : FileTree) (target : String) (program : Program) : Nat × FileTree :=
  match files.write target false program.artifact.toUTF8 with
  | .ok after => (0, after)
  | .error _ => (failureStatus, files)

/-- The status and the files that a source and a target come to. -/
def outcome (files : FileTree) (path target : String) : Nat × FileTree :=
  match files.readText path with
  | .error _ => (failureStatus, files)
  | .ok source =>
    match assemble source with
    | .error _ => (failureStatus, files)
    | .ok program => saved files target program

/-- The status of a script and the files that it leaves. -/
def result (script : Script Nat) (world : World) : Nat × FileTree :=
  ((script.run world).1, (script.run world).2.files)

theorem result_save (target : String) (program : Program) (world : World) :
    result (save target program) world = saved world.files target program := by
  rw [result, save, Script.run_bind, saved]
  cases hwrite : world.files.write target false program.artifact.toUTF8 with
  | ok after =>
    rw [Script.run_writeFile_ok hwrite]
    rfl
  | error error =>
    rw [Script.run_writeFile_error hwrite]
    rfl

/-- **A file is assembled as its text is**, whether its listing is shown or not. -/
theorem result_assembleFile (path target : String) (dump : Bool) (world : World) :
    result (assembleFile path target dump) world = outcome world.files path target := by
  rw [outcome, FileTree.readText, result, assembleFile, Script.run_bind, Script.run_readFile]
  dsimp only
  cases (world.files.read path).bind FileError.decodeText with
  | error error => rfl
  | ok source =>
    dsimp only
    rw [assemble]
    cases Line.readAll source with
    | error errors => rfl
    | ok lines =>
      dsimp only [bind, Except.bind]
      cases Layout.build lines with
      | error errors => rfl
      | ok layout =>
        dsimp only
        cases layout.encode with
        | error errors => rfl
        | ok program =>
          cases dump with
          | false => exact result_save target program world
          | true => exact result_save target program { world with complaints := _ }

/-! ## All or nothing -/

/-- What a source and a target come to: a source that cannot be read, or not as UTF-8, or not be assembled
fails and changes no file; of any other the artifact is stored, and nothing else is changed. -/
structure AllOrNothing (before after : FileTree) (source target : String) (status : Nat) : Prop where
  unreadable : ∀ error, before.readText source = .error error → status = 1 ∧ after = before
  rejected : ∀ text errors, before.readText source = .ok text → assemble text = .error errors →
    status = 1 ∧ after = before
  assembled : ∀ text program, before.readText source = .ok text → assemble text = .ok program →
    (∃ written, before.write target false program.artifact.toUTF8 = .ok written) →
    status = 0 ∧ ∃ place, FileTree.Stored before after target place program.artifact.toUTF8

theorem allOrNothing_outcome (files : FileTree) (source target : String) :
    AllOrNothing files (outcome files source target).2 source target (outcome files source target).1 := by
  refine ⟨fun error htext => ?_, fun text errors htext hassemble => ?_,
    fun text program htext hassemble hwrite => ?_⟩
  · rw [outcome, htext]
    exact ⟨rfl, rfl⟩
  · have hfailed : outcome files source target = (failureStatus, files) := by
      simp only [outcome, htext, hassemble]
    rw [hfailed]
    exact ⟨rfl, rfl⟩
  · obtain ⟨written, hwrite⟩ := hwrite
    have hdone : outcome files source target = (0, written) := by
      simp only [outcome, htext, hassemble, saved, hwrite]
    rw [hdone]
    exact ⟨rfl, FileTree.stored_of_write hwrite⟩

/-- **A well-formed call stores the artifact of its source and changes nothing else, or fails and changes
nothing at all.** Whether it asks for a listing makes no difference to the status or to the files. -/
theorem allOrNothing_of_call {arguments : List String} {source : String} {output : Option String}
    {dump : Bool} (h : Call arguments (source :: output.toList) dump) (world : World) :
    AllOrNothing world.files ((command arguments).run world).2.files source
        (output.getD (Path.defaultOutput source)) ((command arguments).run world).1 ∧
      ∀ arguments' dump', Call arguments' (source :: output.toList) dump' →
        ((command arguments').run world).1 = ((command arguments).run world).1 ∧
          ((command arguments').run world).2.files = ((command arguments).run world).2.files := by
  have hcall {arguments : List String} {dump : Bool}
      (h : Call arguments (source :: output.toList) dump) :
      result (command arguments) world =
        outcome world.files source (output.getD (Path.defaultOutput source)) := by
    rw [command_of_call h, result_assembleFile]
  have hresult := hcall h
  refine ⟨?_, fun arguments' dump' h' => ?_⟩
  · have hall := allOrNothing_outcome world.files source (output.getD (Path.defaultOutput source))
    rwa [← hresult] at hall
  · exact Prod.mk.inj ((hcall h').trans hresult.symm)

/-- A world with one source. -/
def haltingWorld : World := { files := ⟨[(Location.ofNames ["a.asm".toList], "HALT".toUTF8)]⟩ }

theorem stored_of_haltingWorld :
    ((command ["-d", "a.asm"]).run haltingWorld).1 = 0 ∧ ∃ place, FileTree.Stored haltingWorld.files
      ((command ["-d", "a.asm"]).run haltingWorld).2.files "a.json" place
      (Program.ofSections [⟨0, [.command ⟨.halt, .implied, 0⟩]⟩]).artifact.toUTF8 := by
  have hcall : Call ["-d", "a.asm"] ("a.asm" :: Option.toList none) true :=
    .dump (.inl rfl) (.operand (by decide) .done)
  have hall := (allOrNothing_of_call hcall haltingWorld).1
  exact hall.assembled "HALT" _ (by rfl) (by decide +kernel) ⟨_, rfl⟩

end Accumulator.Assembler
