import Accumulator.Proofs.CommandLine.Simulator
import Accumulator.Proofs.Program.Artifact

/-!
# Calls of the simulator one after the other

* `Session` — calls that end, each in the world that the one before it has left, with what their runs do to
  one log.
* `contents_of_session` — the log holds what its entries make of it.
* `log_of_session` — the law of every call, and the log behind any number of them: the traces since the last
  truncation, in order. It holds for every reader of settings.
* `letterWorld` — files with settings in YAML, and a session on them: a call that is refused, a run that is
  cut, one that empties the log, and one that adds to it.
-/

namespace Accumulator.Simulator

/-! ## Entries one after the other -/

namespace Entry

/-- The texts of runs, one after the other. -/
def texts (entries : List Entry) : ByteArray := (String.join (entries.map Entry.text)).toUTF8

theorem texts_cons (entry : Entry) (entries : List Entry) :
    texts (entry :: entries) = entry.text.toUTF8 ++ texts entries := by
  rw [texts, List.map_cons, String.join_cons, String.toUTF8_eq_toByteArray, String.toByteArray_append]
  rfl

/-- Without a truncation the log is added to. -/
theorem foldl_behind {entries : List Entry} (h : ∀ entry ∈ entries, entry.truncates = false)
    (held : ByteArray) : entries.foldl behind held = held ++ texts entries := by
  induction entries generalizing held with
  | nil => exact ByteArray.append_empty.symm
  | cons entry entries ih =>
    rw [List.forall_mem_cons] at h
    rw [List.foldl_cons, ih h.2, behind, h.1, if_neg Bool.false_ne_true, texts_cons,
      ByteArray.append_assoc]

/-- Behind the last truncation nothing else counts. -/
theorem foldl_behind_truncated {first : Entry} {later : List Entry} (hfirst : first.truncates = true)
    (hlater : ∀ entry ∈ later, entry.truncates = false) (earlier : List Entry) (held : ByteArray) :
    (earlier ++ first :: later).foldl behind held = texts (first :: later) := by
  rw [List.foldl_append, List.foldl_cons, foldl_behind hlater, behind, if_pos hfirst,
    ByteArray.empty_append, texts_cons]

end Entry

/-! ## Sessions -/

/-- Well-formed calls one after the other, all of which end, and the entries of those that start a run. All
of these have their log at one place. -/
inductive Session (decode : Config.Decoder) (place : Location) : World → List Entry → World → Prop
  | done {world : World} : Session decode place world [] world
  | failed {arguments : List String} {given : Arguments} {before middle after : World} {status : Nat}
    {entries : List Entry} (hgiven : tool.grammar.WellFormed arguments given)
    (hnot : ∀ setup, ¬Starts decode before.files given setup)
    (hends : Ends decode arguments before status middle)
    (h : Session decode place middle entries after) : Session decode place before entries after
  | ran {arguments : List String} {given : Arguments} {setup : Setup} {before middle after : World}
    {status : Nat} {rs : List Retired} {outcome : Outcome} {last : Machine} {entries : List Entry}
    (hgiven : tool.grammar.WellFormed arguments given) (hstarts : Starts decode before.files given setup)
    (hlog : before.files.locateTarget setup.log = .ok place)
    (hruns : setup.machine.RunsTo setup.limit 0 rs outcome last)
    (hends : Ends decode arguments before status middle)
    (h : Session decode place middle entries after) :
    Session decode place before (setup.entry rs outcome :: entries) after

variable {decode : Config.Decoder} {place : Location} {before after : World} {entries : List Entry}

namespace Lawful

variable {arguments : List String} {given : Arguments} {setup : Setup} {status : Nat} {rs : List Retired}
  {outcome : Outcome} {last : Machine}

/-- A call that ends has carried out the run that it starts. -/
theorem carriesOut_of_runs (h : Lawful decode arguments given before)
    (hstarts : Starts decode before.files given setup)
    (hlog : before.files.locateTarget setup.log = .ok place)
    (hruns : setup.machine.RunsTo setup.limit 0 rs outcome last)
    (hends : Ends decode arguments before status after) :
    CarriesOut before setup place rs outcome last status after := by
  obtain ⟨rs', outcome', last', hdone⟩ := h.carriesOut setup place status after hstarts hlog hends
  obtain ⟨rfl, rfl, rfl⟩ := hruns.unique hdone.runs
  exact hdone

/-- A call whose run ends carries it out. -/
theorem exists_carriesOut (h : Lawful decode arguments given before)
    (hstarts : Starts decode before.files given setup)
    (hlog : before.files.locateTarget setup.log = .ok place)
    (hruns : setup.machine.RunsTo setup.limit 0 rs outcome last) :
    ∃ status after, Ends decode arguments before status after ∧
      CarriesOut before setup place rs outcome last status after := by
  obtain ⟨status, after, hends⟩ := (h.ends setup place hstarts hlog).mpr ⟨rs, outcome, last, hruns⟩
  exact ⟨status, after, hends, h.carriesOut_of_runs hstarts hlog hruns hends⟩

end Lawful

/-- **The log holds what its entries make of it.** -/
theorem contents_of_session (h : Session decode place before entries after)
    (hplace : place ≠ Location.nullDevice) :
    after.files.contents place = entries.foldl Entry.behind (before.files.contents place) := by
  induction h with
  | done => rfl
  | @failed arguments given before middle after status entries hgiven hnot hends h ih =>
    rw [ih, (((lawful decode hgiven before).fails hnot).unchanged status middle hends).2.2]
  | @ran arguments given setup before middle after status rs outcome last entries hgiven hstarts hlog hruns
      hends h ih =>
    have hdone := (lawful decode hgiven before).carriesOut_of_runs hstarts hlog hruns hends
    rw [ih, hdone.log.contents_eq hplace, List.foldl_cons]

/-- **The log of the simulator.** Let the settings in a file be read by any reader. A well-formed call fails
with status 1, without output and with every file as it was, if it does not start a run. Any other call ends
exactly if its run does, with status 0 or 2 as the run halted or faulted, prints exactly the output of the
run, and changes nothing but its log, to which it adds the trace, after emptying it if it is to be truncated.
So behind any number of calls a log holds the traces since the last truncation, in order, and what it held
before if there was none. -/
theorem log_of_session (decode : Config.Decoder) :
    (∀ arguments given before, tool.grammar.WellFormed arguments given →
      Lawful decode arguments given before) ∧
      ∀ place before entries after, place ≠ Location.nullDevice →
        Session decode place before entries after →
        ((∀ entry ∈ entries, entry.truncates = false) →
          after.files.contents place = before.files.contents place ++ Entry.texts entries) ∧
        ∀ earlier first later, entries = earlier ++ first :: later → first.truncates = true →
          (∀ entry ∈ later, entry.truncates = false) →
          after.files.contents place = Entry.texts (first :: later) := by
  refine ⟨fun arguments given before hgiven => lawful decode hgiven before,
    fun place before entries after hplace h => ⟨fun hkept => ?_, fun earlier first later hentries => ?_⟩⟩
  · rw [contents_of_session h hplace, Entry.foldl_behind hkept]
  · intro hfirst hlater
    rw [contents_of_session h hplace, hentries, Entry.foldl_behind_truncated hfirst hlater]

/-! ## A session -/

/-- Settings of a small memory, and of a log in a directory of its own. -/
def addText : String := "memory_size: 4\nlog: logs/run.log\n"

/-- The same settings, and that the log be emptied first. -/
def freshText : String := addText ++ "truncate_log: true\n"

/-- Settings of a memory that is larger than the address space. -/
def hugeText : String := "memory_size: 65537\n"

/-- The settings of a run that adds to the log. -/
def addConfig : Config := { memorySize := 4, log := "logs/run.log" }

/-- Prints a letter and halts. -/
def letterProgram : Program := .ofSections
  [⟨0, [.command ⟨.load, .immediate, 0x41⟩, .command ⟨.output, .immediate, 0⟩,
    .command ⟨.halt, .implied, 0⟩]⟩]

/-- The machine with that program and no input. -/
def letterMachine : Machine where
  memory := #[0x03010041, 0x02010000, 0x11000000, 0]
  bus := Bus.standard #[]

theorem load_letterProgram : (Machine.reset 4 (Bus.standard #[])).load letterProgram = .ok letterMachine := by
  have hvalid : letterProgram.validate (Machine.reset 4 (Bus.standard #[])).memorySize = .ok () :=
    Program.validate_eq_ok_iff.mpr ⟨by decide, by decide⟩
  rw [Machine.load_eq, hvalid]
  rfl

/-- The first instruction, which retires in every run of the session. -/
def letterLoaded : Retired := ⟨0, ⟨.load, .immediate, 0x41⟩, [.accumulator 0x41]⟩

/-- All three instructions. -/
def letterRun : List Retired :=
  [letterLoaded, ⟨1, ⟨.output, .immediate, 0⟩, [.output 0 0x41]⟩, ⟨2, ⟨.halt, .implied, 0⟩, [.halted]⟩]

theorem runsTo_cut : ∃ last, letterMachine.RunsTo (some 1) 0 [letterLoaded] (.faulted 1 (.tickLimit 1 1)) last ∧
    last.output = #[] :=
  ⟨_, .retired rfl (.ended rfl rfl), rfl⟩

theorem runsTo_letter : ∃ last, letterMachine.RunsTo none 0 letterRun (.halted 3) last ∧
    last.output = #[0x41] :=
  ⟨_, .retired rfl (.retired rfl (.retired rfl (.ended rfl rfl))), rfl⟩

theorem decode_addText : Config.decode addText = .ok addConfig := by decide +kernel

theorem decode_freshText : Config.decode freshText = .ok { addConfig with truncateLog := true } := by
  decide +kernel

theorem decode_hugeText : Config.decode hugeText = .ok { memorySize := 65537 } := by decide +kernel

/-- A file that holds the bytes of a text is read as the text. -/
theorem readText_of_supplies {files : FileTree} {path text : String} {found : Location}
    (h : files.Supplies path found text.toUTF8) : files.readText path = .ok text := by
  have hdecode : FileError.decodeText text.toUTF8 = .ok text := by
    rw [FileError.decodeText, fromUTF8?_toUTF8]
  rw [FileTree.readText, h.read]
  exact hdecode

/-- A file in the working directory. -/
def inWork (name : String) : Location := Location.ofNames [name.toList]

/-- The place of the log. -/
def logPlace : Location := Location.ofNames ["logs".toList, "run.log".toList]

/-- The files of the session, and a directory for the log that is empty. -/
def letterWorld : World where
  files := FileTree.makeDirectory ⟨[(inWork "add.yaml", addText.toUTF8), (inWork "fresh.yaml", freshText.toUTF8),
    (inWork "huge.yaml", hugeText.toUTF8), (inWork "letter.json", letterProgram.artifact.toUTF8),
    (inWork "in.txt", ByteArray.empty)]⟩ (inWork "logs")

/-- What the runs of the session find in the files. -/
structure Stocked (files : FileTree) : Prop where
  add : files.Supplies "add.yaml" (inWork "add.yaml") addText.toUTF8
  fresh : files.Supplies "fresh.yaml" (inWork "fresh.yaml") freshText.toUTF8
  program : files.Supplies "letter.json" (inWork "letter.json") letterProgram.artifact.toUTF8
  input : files.Supplies "in.txt" (inWork "in.txt") ByteArray.empty
  log : files.locateTarget "logs/run.log" = .ok logPlace

theorem stocked_letterWorld : Stocked letterWorld.files where
  add := ⟨rfl, rfl⟩
  fresh := ⟨rfl, rfl⟩
  program := ⟨rfl, rfl⟩
  input := ⟨rfl, rfl⟩
  log := rfl

/-- A run leaves the files as stocked as they were. -/
theorem Stocked.of_stored {files after : FileTree} {bytes : ByteArray} (h : Stocked files)
    (hstored : files.Stored after "logs/run.log" logPlace bytes) : Stocked after where
  add := h.add.of_stored hstored (by decide)
  fresh := h.fresh.of_stored hstored (by decide)
  program := h.program.of_stored hstored (by decide)
  input := h.input.of_stored hstored (by decide)
  log := FileTree.locateTarget_of_directories hstored.directories h.log

/-- The arguments of a call with the settings in a file. -/
def letterArguments (settings : String) : Arguments :=
  { operands := ["letter.json", "in.txt"], values := [("config", settings)] }

/-- The arguments of a call that is cut behind one instruction. -/
def cutArguments : Arguments :=
  { operands := ["letter.json", "in.txt"], values := [("config", "add.yaml"), ("tmax", "1")] }

/-- A call with one of the settings carries its run out, and leaves the files stocked. -/
theorem Stocked.run {before : World} (h : Stocked before.files) {arguments : List String}
    {given : Arguments} {path text : String} {config : Config} {found : Location} {rs : List Retired}
    {outcome : Outcome} {last : Machine} (hgiven : tool.grammar.parse arguments = .ok given)
    (hoperands : given.operands = ["letter.json", "in.txt"]) (hpath : given.value? "config" = some path)
    (hsettings : before.files.Supplies path found text.toUTF8) (hdecode : Config.decode text = .ok config)
    (hsize : config.memorySize = 4) (hlog : (settle given config letterMachine).log = "logs/run.log")
    (hruns : letterMachine.RunsTo (settle given config letterMachine).limit 0 rs outcome last) :
    ∃ status after, Ends Config.decode arguments before status after ∧
      CarriesOut before (settle given config letterMachine) logPlace rs outcome last status after ∧
      Starts Config.decode before.files given (settle given config letterMachine) ∧
      Stocked after.files := by
  have hstarts : Starts Config.decode before.files given (settle given config letterMachine) := by
    refine .intro hoperands ?_ h.program.read (Program.ofArtifact_artifact letterProgram) h.input.read ?_
    · rw [hpath]
      exact .named (readText_of_supplies hsettings) hdecode (by omega) (by rw [hsize]; decide)
    · rw [hsize]
      exact load_letterProgram
  have hplace : before.files.locateTarget (settle given config letterMachine).log = .ok logPlace :=
    hlog ▸ h.log
  have hlawful := lawful Config.decode ((Grammar.parse_eq_ok_iff sane_grammar).mp hgiven) before
  obtain ⟨status, after, hends, hdone⟩ := hlawful.exists_carriesOut hstarts hplace hruns
  exact ⟨status, after, hends, hdone, hstarts, h.of_stored (hlog ▸ hdone.log)⟩

/-- A call with settings of too large a memory starts no run. -/
theorem not_starts_huge (setup : Setup) :
    ¬Starts Config.decode letterWorld.files (letterArguments "huge.yaml") setup := by
  rintro ⟨-, hconfig, -⟩
  have hhuge : letterWorld.files.Supplies "huge.yaml" (inWork "huge.yaml") hugeText.toUTF8 := ⟨rfl, rfl⟩
  cases hconfig with
  | named htext hdecode hsome hspace =>
    cases (readText_of_supplies hhuge).symm.trans htext
    cases decode_hugeText.symm.trans hdecode
    exact absurd hspace (by decide)

/-- The trace of the run that is cut. -/
def cutText : String := "[0000] 0000: LOAD #0x0041     AC=0x00000041
[0001] 0001: FAULT tick limit of 1 instructions reached
"

/-- The trace of a run that prints its letter. -/
def letterText : String := "[0000] 0000: LOAD #0x0041     AC=0x00000041
[0001] 0001: OUT 0            OUT[0]=0x00000041
[0002] 0002: HALT             HALTED
"

theorem trace_cut : Text.unlines (Trace.lines [letterLoaded] (.faulted 1 (.tickLimit 1 1))) = cutText := by
  decide +kernel

theorem trace_letter : Text.unlines (Trace.lines letterRun (.halted 3)) = letterText := by decide +kernel

/-- **A session.** A call with refused settings changes no file. A run that is cut makes its log in the empty
directory, and faults. A run that empties the log prints its letter and halts, and so does one that does not:
behind it the log holds the traces of these two. -/
theorem log_of_letterWorld : ∃ refused cut fresh after : World,
    Ends Config.decode ["--config", "huge.yaml", "letter.json", "in.txt"] letterWorld 1 refused ∧
      refused.files = letterWorld.files ∧
    Ends Config.decode ["-cadd.yaml", "-t1", "letter.json", "in.txt"] refused 2 cut ∧
      cut.files.contents logPlace = cutText.toUTF8 ∧ cut.printed = refused.printed ∧
    Ends Config.decode ["-cfresh.yaml", "letter.json", "in.txt"] cut 0 fresh ∧
      fresh.printed = cut.printed ++ "A".toUTF8 ∧
    Ends Config.decode ["-cadd.yaml", "letter.json", "in.txt"] fresh 0 after ∧
      after.printed = fresh.printed ++ "A".toUTF8 ∧
    Session Config.decode logPlace letterWorld [⟨false, cutText⟩, ⟨true, letterText⟩, ⟨false, letterText⟩] after ∧
      after.files.contents logPlace = (letterText ++ letterText).toUTF8 := by
  obtain ⟨hlawful, hlog⟩ := log_of_session Config.decode
  have hwellFormed {arguments : List String} {given : Arguments}
      (h : tool.grammar.parse arguments = .ok given) : tool.grammar.WellFormed arguments given :=
    (Grammar.parse_eq_ok_iff sane_grammar).mp h
  obtain ⟨stopped, hstops, hnothing⟩ := runsTo_cut
  obtain ⟨halted, hhalts, hletter⟩ := runsTo_letter
  -- The call that is refused.
  have hhuge : tool.grammar.WellFormed ["--config", "huge.yaml", "letter.json", "in.txt"]
      (letterArguments "huge.yaml") := hwellFormed rfl
  obtain ⟨⟨refused, hrefused⟩, hunchanged⟩ := (hlawful _ _ letterWorld hhuge).fails not_starts_huge
  obtain ⟨-, -, hsame⟩ := hunchanged 1 refused hrefused
  have hstocked₀ : Stocked refused.files := hsame ▸ stocked_letterWorld
  -- The run that is cut.
  have hcut : tool.grammar.parse ["-cadd.yaml", "-t1", "letter.json", "in.txt"] = .ok cutArguments := rfl
  obtain ⟨status, cut, hends₁, hdone₁, hstarts₁, hstocked₁⟩ :=
    hstocked₀.run hcut rfl rfl hstocked₀.add decode_addText rfl rfl hstops
  obtain rfl : status = 2 := hdone₁.faulted.mpr ⟨_, _, rfl⟩
  -- The run that empties the log.
  have hfresh : tool.grammar.parse ["-cfresh.yaml", "letter.json", "in.txt"] =
      .ok (letterArguments "fresh.yaml") := rfl
  obtain ⟨status, fresh, hends₂, hdone₂, hstarts₂, hstocked₂⟩ :=
    hstocked₁.run hfresh rfl rfl hstocked₁.fresh decode_freshText rfl rfl hhalts
  obtain rfl : status = 0 := hdone₂.halted.mpr ⟨_, rfl⟩
  -- The run that adds to it.
  have hadd : tool.grammar.parse ["-cadd.yaml", "letter.json", "in.txt"] =
      .ok (letterArguments "add.yaml") := rfl
  obtain ⟨status, after, hends₃, hdone₃, hstarts₃, -⟩ :=
    hstocked₂.run hadd rfl rfl hstocked₂.add decode_addText rfl rfl hhalts
  obtain rfl : status = 0 := hdone₃.halted.mpr ⟨_, rfl⟩
  have hsession : Session Config.decode logPlace letterWorld
      [⟨false, cutText⟩, ⟨true, letterText⟩, ⟨false, letterText⟩] after :=
    trace_cut ▸ trace_letter ▸ .failed hhuge not_starts_huge hrefused
      (.ran (hwellFormed hcut) hstarts₁ hstocked₀.log hstops hends₁
        (.ran (hwellFormed hfresh) hstarts₂ hstocked₁.log hhalts hends₂
          (.ran (hwellFormed hadd) hstarts₃ hstocked₂.log hhalts hends₃ .done)))
  have hcutContents : cut.files.contents logPlace = cutText.toUTF8 := by
    have hempty : refused.files.contents logPlace = ByteArray.empty := hsame ▸ rfl
    rw [hdone₁.log.contents_eq (by decide), hempty, ← trace_cut]
    exact ByteArray.empty_append
  have hcutPrinted : cut.printed = refused.printed := by
    rw [hdone₁.printed, hnothing]
    exact ByteArray.append_empty
  have hfreshPrinted : fresh.printed = cut.printed ++ "A".toUTF8 := by
    rw [hdone₂.printed, hletter]
    rfl
  have hafterPrinted : after.printed = fresh.printed ++ "A".toUTF8 := by
    rw [hdone₃.printed, hletter]
    rfl
  have hcontents : after.files.contents logPlace = (letterText ++ letterText).toUTF8 := by
    rw [(hlog _ _ _ _ (by decide) hsession).2 [⟨false, cutText⟩] ⟨true, letterText⟩ [⟨false, letterText⟩]
      rfl rfl (List.forall_mem_singleton.mpr rfl)]
    simp [Entry.texts, String.join_cons]
  exact ⟨refused, cut, fresh, after, hrefused, hsame, hends₁, hcutContents, hcutPrinted, hends₂,
    hfreshPrinted, hends₃, hafterPrinted, hsession, hcontents⟩

end Accumulator.Simulator
