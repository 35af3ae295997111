import Accumulator.CommandLine.Simulator
import Accumulator.Proofs.CommandLine.Files
import Accumulator.Proofs.CommandLine.Parsing
import Accumulator.Proofs.Observer.Transcript

/-!
# What a call of the simulator does

* `Starts` — a call starts a run: what it needs can be read, is accepted and can be loaded. Whatever reads the
  settings in a file, all of this is the same.
* `run_prepare`, `run_command` — a well-formed call is carried out if it starts a run, and fails if not.
* `Entry` — what a run does to its log; `run_simulate` — a run that ends does it, and prints its output.
* `Fails`, `CarriesOut`, `Lawful` — what a call comes to; `lawful` — every well-formed call comes to that.
-/

namespace Accumulator.Simulator

theorem sane_grammar : tool.grammar.Sane := ⟨by decide, by decide, by decide, by decide⟩

/-! ## Calls that start a run -/

/-- The configuration of a call: the usual one, or the settings in the file that is named, if their reader
accepts it and they ask for a memory that has a cell and fits the address space. -/
inductive Configured (decode : Config.Decoder) (files : FileTree) : Option String → Config → Prop
  | usual : Configured decode files none {}
  | named {path text : String} {config : Config} (htext : files.readText path = .ok text)
    (hdecode : decode text = .ok config) (hsome : 0 < config.memorySize)
    (hspace : config.memorySize ≤ addressSpace) : Configured decode files (some path) config

/-- A reader of settings makes a configuration of them exactly if their memory size can be had. -/
theorem readWith_eq_ok_iff {decode : Config.Decoder} {text : String} {config : Config} :
    Config.readWith decode text = .ok config ↔
      decode text = .ok config ∧ 0 < config.memorySize ∧ config.memorySize ≤ addressSpace := by
  unfold Config.readWith
  cases decode text with
  | error reason => exact iff_of_false nofun fun h => nomatch h.1
  | ok found =>
    dsimp only
    split
    · next hsize =>
      refine iff_of_false nofun fun h => ?_
      cases h.1
      omega
    · next hsize =>
      constructor
      · intro h
        cases h
        exact ⟨rfl, by omega, by omega⟩
      · intro h
        exact congrArg Except.ok (Except.ok.inj h.1)

/-- The settings of a run. Options count before the configuration. -/
def settle (given : Arguments) (config : Config) (machine : Machine) : Setup where
  machine
  plan := ⟨config.dump, given.isSet "dump-all"⟩
  limit := ((given.value? "tmax").bind limit?).or config.limit
  log := (given.value? "log").getD config.log
  truncateLog := given.isSet "truncate-log" || config.truncateLog

/-- A call starts a run: its configuration, its artifact and its input can be read and are accepted, and
the program can be loaded. -/
inductive Starts (decode : Config.Decoder) (files : FileTree) (given : Arguments) : Setup → Prop
  | intro {artifactPath inputPath : String} {config : Config} {artifact input : ByteArray}
    {program : Program} {machine : Machine} (hoperands : given.operands = [artifactPath, inputPath])
    (hconfig : Configured decode files (given.value? "config") config)
    (hartifact : files.read artifactPath = .ok artifact) (hprogram : Program.ofArtifact artifact = .ok program)
    (hinput : files.read inputPath = .ok input)
    (hmachine : (Machine.reset config.memorySize (Bus.standard input.data)).load program = .ok machine) :
    Starts decode files given (settle given config machine)

/-- Reads answer from the files as they are. -/
theorem run_readConfig (decode : Config.Decoder) (path? : Option String) (world : World) : ∃ answer,
    (readConfig decode path?).run world = (answer, world) ∧
      ∀ config, answer = .ok config ↔ Configured decode world.files path? config := by
  cases path? with
  | none =>
    refine ⟨.ok {}, rfl, fun config => ⟨fun h => ?_, fun h => ?_⟩⟩
    · cases h
      exact .usual
    · cases h
      rfl
  | some path =>
    rw [readConfig, Script.run_bind, Script.run_readFile]
    cases htext : world.files.readText path with
    | error error =>
      rw [FileTree.readText] at htext
      rw [htext]
      refine ⟨_, rfl, fun config => iff_of_false nofun fun h => ?_⟩
      cases h with
      | named htext' => cases htext.symm.trans htext'
    | ok text =>
      have htext' := htext
      rw [FileTree.readText] at htext'
      rw [htext']
      refine ⟨_, rfl, fun config => Except.mapError_eq_ok.trans (readWith_eq_ok_iff.trans ⟨?_, fun h => ?_⟩)⟩
      · rintro ⟨hdecode, hsome, hspace⟩
        exact .named htext hdecode hsome hspace
      · cases h with
        | named htext'' hdecode hsome hspace =>
          cases htext.symm.trans htext''
          exact ⟨hdecode, hsome, hspace⟩

theorem run_readInput (path : String) (world : World) : ∃ answer,
    (readInput path).run world = (answer, world) ∧
      ∀ bytes, answer = .ok bytes ↔ world.files.read path = .ok bytes := by
  rw [readInput, Script.run_bind, Script.run_readFile]
  cases world.files.read path with
  | error error => exact ⟨_, rfl, fun bytes => iff_of_false nofun nofun⟩
  | ok bytes =>
    refine ⟨_, rfl, fun bytes' => ⟨fun h => ?_, fun h => ?_⟩⟩
    · cases h
      rfl
    · cases h
      rfl

/-- **A call is prepared exactly if it starts a run**, and preparing changes nothing. -/
theorem run_prepare (decode : Config.Decoder) {given : Arguments} {artifactPath inputPath : String}
    (hoperands : given.operands = [artifactPath, inputPath]) (world : World) : ∃ answer,
      (prepare decode given artifactPath inputPath).run world = (answer, world) ∧
        ∀ setup, answer = .ok setup ↔ Starts decode world.files given setup := by
  obtain ⟨config?, hconfigRun, hconfig⟩ := run_readConfig decode (given.value? "config") world
  obtain ⟨artifact?, hartifactRun, hartifact⟩ := run_readInput artifactPath world
  obtain ⟨input?, hinputRun, hinput⟩ := run_readInput inputPath world
  -- A run needs what was read, and nothing else.
  have hneeds {setup : Setup} (h : Starts decode world.files given setup) : ∃ config artifact program input machine,
      config? = .ok config ∧ artifact? = .ok artifact ∧ Program.ofArtifact artifact = .ok program ∧
        input? = .ok input ∧
        (Machine.reset config.memorySize (Bus.standard input.data)).load program = .ok machine ∧
        setup = settle given config machine := by
    cases h with
    | intro hoperands' hconfig' hartifact' hprogram hinput' hmachine =>
      cases hoperands.symm.trans hoperands'
      exact ⟨_, _, _, _, _, (hconfig _).mpr hconfig', (hartifact _).mpr hartifact', hprogram,
        (hinput _).mpr hinput', hmachine, rfl⟩
  have hrefused (message : String) (h : ∀ setup, ¬Starts decode world.files given setup) (setup : Setup) :
      (.error message : Except String Setup) = .ok setup ↔ Starts decode world.files given setup :=
    iff_of_false nofun (h setup)
  rw [prepare, Script.run_bind, hconfigRun]
  cases config? with
  | error message =>
    refine ⟨_, rfl, hrefused message fun setup h => ?_⟩
    obtain ⟨_, _, _, _, _, ⟨⟩, -⟩ := hneeds h
  | ok config =>
    dsimp only
    rw [Script.run_bind, hartifactRun]
    cases artifact? with
    | error message =>
      refine ⟨_, rfl, hrefused message fun setup h => ?_⟩
      obtain ⟨_, _, _, _, _, -, ⟨⟩, -⟩ := hneeds h
    | ok artifact =>
      dsimp only
      cases hprogram : Program.ofArtifact artifact with
      | error error =>
        refine ⟨_, rfl, hrefused (refusedProgram error) fun setup h => ?_⟩
        obtain ⟨_, _, _, _, _, -, ⟨⟩, h, -⟩ := hneeds h
        cases hprogram.symm.trans h
      | ok program =>
        dsimp only
        rw [Script.run_bind, hinputRun]
        cases input? with
        | error message =>
          refine ⟨_, rfl, hrefused message fun setup h => ?_⟩
          obtain ⟨_, _, _, _, _, -, -, -, ⟨⟩, -⟩ := hneeds h
        | ok input =>
          dsimp only
          cases hmachine : (Machine.reset config.memorySize (Bus.standard input.data)).load program with
          | error error =>
            refine ⟨_, rfl, hrefused (refusedProgram error) fun setup h => ?_⟩
            obtain ⟨_, _, _, _, _, ⟨⟩, ⟨⟩, hsame, ⟨⟩, h, -⟩ := hneeds h
            cases hprogram.symm.trans hsame
            cases hmachine.symm.trans h
          | ok machine =>
            refine ⟨.ok (settle given config machine), rfl, fun setup => ⟨fun h => ?_, fun h => ?_⟩⟩
            · cases h
              exact .intro hoperands ((hconfig _).mp rfl) ((hartifact _).mp rfl) hprogram
                ((hinput _).mp rfl) hmachine
            · obtain ⟨_, _, _, _, _, ⟨⟩, ⟨⟩, hsame, ⟨⟩, h, rfl⟩ := hneeds h
              cases hprogram.symm.trans hsame
              cases hmachine.symm.trans h
              rfl

/-! ## Runs and the log -/

/-- What a run does to its log: it may empty it first, and then it adds a text. -/
structure Entry where
  truncates : Bool
  text : String

namespace Entry

/-- What the log holds behind a run. -/
def behind (held : ByteArray) (entry : Entry) : ByteArray :=
  (if entry.truncates then ByteArray.empty else held) ++ entry.text.toUTF8

end Entry

/-- What a run of these settings that retires these instructions does to its log. -/
def Setup.entry (setup : Setup) (rs : List Retired) (outcome : Outcome) : Entry :=
  ⟨setup.truncateLog, Text.unlines (Trace.lines rs outcome)⟩

/-- A run that ends has printed its output, and its trace stands in the log. -/
theorem run_simulate {setup : Setup} {place : Location} {fuel : Nat} {t : Transcript} {world : World}
    (hlog : world.files.locateTarget setup.log = .ok place)
    (ht : setup.machine.transcribe setup.plan setup.limit fuel = some t) : ∃ files complaints,
      (simulate fuel setup).run world =
        (some (verdict t.outcome).2, ⟨files, world.printed ++ ⟨t.sent⟩, complaints⟩) ∧
      FileTree.Stored world.files files setup.log place
        (Entry.behind (world.files.contents place) ⟨setup.truncateLog, t.log⟩) := by
  obtain ⟨opened, after, hopened, hafter, hstored⟩ :=
    FileTree.exists_write_behind hlog (!setup.truncateLog) t.log.toUTF8
  refine ⟨after, world.complaints ++ (t.dump ++ (verdict t.outcome).1), ?_, ?_⟩
  · have hadded : (Script.writeFile setup.log true t.log.toUTF8).run { world with files := opened } =
        (.ok (), { world with files := after }) := Script.run_writeFile_ok hafter
    rw [simulate, Script.run_bind, Script.run_writeFile_ok hopened]
    dsimp only
    rw [ht]
    dsimp only
    rw [Script.run_bind, hadded]
    rfl
  · rw [Entry.behind]
    cases htruncate : setup.truncateLog with
    | false => rwa [htruncate] at hstored
    | true => rwa [htruncate] at hstored

/-- A run that does not end within the fuel has no status. -/
theorem run_simulate_none {setup : Setup} {place : Location} {fuel : Nat} {world : World}
    (hlog : world.files.locateTarget setup.log = .ok place)
    (ht : setup.machine.transcribe setup.plan setup.limit fuel = none) :
    ((simulate fuel setup).run world).1 = none := by
  obtain ⟨opened, hopened, -⟩ := FileTree.exists_write hlog (!setup.truncateLog) ByteArray.empty
  rw [simulate, Script.run_bind, Script.run_writeFile_ok hopened]
  dsimp only
  rw [ht]
  rfl

/-! ## The law of a call -/

/-- A call ends with a status, and leaves the world behind. -/
def Ends (decode : Config.Decoder) (arguments : List String) (before : World) (status : Nat) (after : World) : Prop :=
  ∃ fuel, (commandWith decode fuel arguments).run before = (some status, after)

/-- A call fails: it has status 1, prints nothing and changes no file. -/
structure Fails (decode : Config.Decoder) (arguments : List String) (before : World) : Prop where
  ends : ∃ after, Ends decode arguments before 1 after
  unchanged : ∀ status after, Ends decode arguments before status after →
    status = 1 ∧ after.printed = before.printed ∧ after.files = before.files

/-- A call has carried out a run: it has status 0 exactly if the run halted and 2 exactly if it faulted,
prints the output of the run, and its log holds the trace behind what it held, or the trace alone if the log
was to be truncated. No other file is changed. -/
structure CarriesOut (before : World) (setup : Setup) (place : Location) (rs : List Retired)
    (outcome : Outcome) (last : Machine) (status : Nat) (after : World) : Prop where
  runs : setup.machine.RunsTo setup.limit 0 rs outcome last
  halted : status = 0 ↔ ∃ ticks, outcome = .halted ticks
  faulted : status = 2 ↔ ∃ ticks fault, outcome = .faulted ticks fault
  printed : after.printed = before.printed ++ ⟨last.output⟩
  log : FileTree.Stored before.files after.files setup.log place
    ((setup.entry rs outcome).behind (before.files.contents place))

/-- What a call comes to: it fails if it does not start a run; it ends exactly if its run does, and then it
has carried it out. -/
structure Lawful (decode : Config.Decoder) (arguments : List String) (given : Arguments) (before : World) :
    Prop where
  fails : (∀ setup, ¬Starts decode before.files given setup) → Fails decode arguments before
  ends : ∀ setup place, Starts decode before.files given setup →
    before.files.locateTarget setup.log = .ok place →
    ((∃ status after, Ends decode arguments before status after) ↔
      ∃ rs outcome last, setup.machine.RunsTo setup.limit 0 rs outcome last)
  carriesOut : ∀ setup place status after, Starts decode before.files given setup →
    before.files.locateTarget setup.log = .ok place → Ends decode arguments before status after →
    ∃ rs outcome last, CarriesOut before setup place rs outcome last status after

/-- What follows the preparation of a call. -/
def proceed (fuel : Nat) : Except String Setup → Script (Option Nat)
  | .error message => fail message
  | .ok setup => simulate fuel setup

/-- A well-formed call is prepared, and runs if it starts. -/
theorem run_command (decode : Config.Decoder) {arguments : List String} {given : Arguments}
    (hgiven : tool.grammar.WellFormed arguments given) (world : World) :
    ((∀ setup, ¬Starts decode world.files given setup) → ∀ fuel, ∃ complaints,
      (commandWith decode fuel arguments).run world = (some 1, { world with complaints })) ∧
    ∀ setup, Starts decode world.files given setup → ∀ fuel,
      (commandWith decode fuel arguments).run world = (simulate fuel setup).run world := by
  obtain ⟨artifactPath, inputPath, hoperands⟩ : ∃ artifactPath inputPath,
      given.operands = [artifactPath, inputPath] :=
    List.length_eq_two.mp (Nat.le_antisymm hgiven.room hgiven.enough)
  obtain ⟨answer, hrun, hanswer⟩ := run_prepare decode hoperands world
  have hcommand (fuel : Nat) :
      (commandWith decode fuel arguments).run world = (proceed fuel answer).run world := by
    rw [commandWith, Tool.start, (Grammar.parse_eq_ok_iff sane_grammar).mpr hgiven]
    dsimp only
    rw [hoperands]
    dsimp only
    rw [Script.run_bind, hrun]
    cases answer <;> rfl
  refine ⟨fun hnot fuel => ?_, fun setup hstarts fuel => ?_⟩
  · cases answer with
    | error message => exact ⟨_, hcommand fuel⟩
    | ok setup => exact absurd ((hanswer setup).mp rfl) (hnot setup)
  · obtain rfl := (hanswer setup).mpr hstarts
    exact hcommand fuel

theorem lawful (decode : Config.Decoder) {arguments : List String} {given : Arguments}
    (hgiven : tool.grammar.WellFormed arguments given) (before : World) :
    Lawful decode arguments given before := by
  obtain ⟨hfails, hstarts⟩ := run_command decode hgiven before
  have hcarriesOut {setup : Setup} {place : Location} {status : Nat} {after : World}
      (hstart : Starts decode before.files given setup) (hlog : before.files.locateTarget setup.log = .ok place)
      (hends : Ends decode arguments before status after) :
      ∃ rs outcome last, CarriesOut before setup place rs outcome last status after := by
    obtain ⟨fuel, hrun⟩ := hends
    rw [hstarts setup hstart] at hrun
    cases ht : setup.machine.transcribe setup.plan setup.limit fuel with
    | none =>
      have hnone := run_simulate_none hlog ht
      rw [hrun] at hnone
      cases hnone
    | some t =>
      obtain ⟨files, complaints, hdone, hstored⟩ := run_simulate hlog ht
      cases hdone.symm.trans hrun
      obtain ⟨rs, last, hruns, hlogged, hsent⟩ := Machine.runsTo_of_transcribe ht
      rw [hlogged] at hstored
      refine ⟨rs, t.outcome, last, hruns, ?_, ?_, ?_, hstored⟩
      · cases t.outcome <;> simp [verdict, refusalStatus]
      · cases t.outcome <;> simp [verdict, refusalStatus]
      · rw [hsent]
  refine ⟨fun hnot => ⟨?_, fun status after hends => ?_⟩, fun setup place hstart hlog => ⟨?_, ?_⟩,
    fun setup place status after hstart hlog hends => hcarriesOut hstart hlog hends⟩
  · obtain ⟨complaints, hrun⟩ := hfails hnot 0
    exact ⟨_, 0, hrun⟩
  · obtain ⟨fuel, hrun⟩ := hends
    obtain ⟨complaints, hfailed⟩ := hfails hnot fuel
    cases hfailed.symm.trans hrun
    exact ⟨rfl, rfl, rfl⟩
  · rintro ⟨status, after, hends⟩
    obtain ⟨rs, outcome, last, hdone⟩ := hcarriesOut hstart hlog hends
    exact ⟨rs, outcome, last, hdone.runs⟩
  · rintro ⟨rs, outcome, last, hruns⟩
    obtain ⟨t, ht, -⟩ := Machine.transcribe_of_runsTo hruns (Nat.lt_succ_self _) setup.plan
    obtain ⟨files, complaints, hdone, -⟩ := run_simulate hlog ht
    exact ⟨_, _, rs.length + 1, (hstarts setup hstart _).trans hdone⟩

end Accumulator.Simulator
