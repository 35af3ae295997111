import Accumulator.Proofs.Results
import Accumulator.Source.Line

/-!
# What reading promises

* `Argument.Suits` — an argument is of the shape that an operation of the given kind takes, and
  sixteen bits hold a literal in it.
* `Line.WellFormed` — the statement of a line suits its operation; a row of words is not empty.
* `readAll_wellFormed`, `number_readAll` — lines that were read are well formed and carry the
  numbers from one on.
-/

namespace Accumulator

/-- The arguments that an operation of the given kind takes. -/
inductive Argument.Suits : OperandKind → Argument → Prop
  | none : Suits .none .none
  | port (number : Port) : Suits .port (.port number)
  | address (addressing : Addressing) {target : Immediate} (fits : target.fitsAddress = true) :
      Suits .address (.address addressing target)
  | immediate {value : Immediate} (fits : value.fitsAddress = true) :
      Suits .value (.immediate value)
  | cell (addressing : Addressing) {target : Immediate} (fits : target.fitsAddress = true) :
      Suits .value (.address addressing target)

/-- The argument suits the operation. -/
def Code.WellFormed (code : Code) : Prop := code.argument.Suits code.opcode.operandKind

/-- Instructions are well formed, and a row of words holds one. -/
def Statement.WellFormed : Statement → Prop
  | .origin _ => True
  | .words items => items ≠ []
  | .instruction code => code.WellFormed

/-- The statement of the line is well formed, if it has one. -/
def Line.WellFormed (line : Line) : Prop :=
  ∀ statement, line.statement = some statement → statement.WellFormed

/-! ## Arguments -/

namespace Argument

theorem fits_of_readNarrow? {text : List Char} {value : Immediate}
    (h : Immediate.readNarrow? text = some value) : value.fitsAddress = true :=
  (Option.filter_eq_some_iff.mp h).2

theorem suits_of_readPort? {text : List Char} {argument : Argument}
    (h : readPort? text = some argument) : argument.Suits .port := by
  obtain ⟨number, -, rfl⟩ := Option.map_eq_some_iff.mp h
  exact .port number

theorem suits_of_readImmediate? {text : List Char} {argument : Argument}
    (h : readImmediate? text = some argument) : argument.Suits .value := by
  obtain ⟨value, hvalue, rfl⟩ := Option.map_eq_some_iff.mp h
  exact .immediate (fits_of_readNarrow? hvalue)

/-- An address operand is a way of addressing and a target that fits. -/
theorem readAddress?_eq_some {text : List Char} {argument : Argument}
    (h : readAddress? text = some argument) :
    ∃ addressing target, target.fitsAddress = true ∧ argument = .address addressing target := by
  unfold readAddress? at h
  split at h
  · obtain ⟨target, htarget, rfl⟩ := Option.map_eq_some_iff.mp h
    exact ⟨_, target, fits_of_readNarrow? htarget, rfl⟩
  · split at h
    · obtain ⟨target, htarget, rfl⟩ := Option.map_eq_some_iff.mp h
      exact ⟨_, target, fits_of_readNarrow? htarget, rfl⟩
    · cases h
  · obtain ⟨target, htarget, rfl⟩ := Option.map_eq_some_iff.mp h
    exact ⟨_, target, fits_of_readNarrow? htarget, rfl⟩

end Argument

theorem readArgument_eq_ok {α : Type} {reader : List Char → Option α} {role : ArgumentRole}
    {text : List Char} {value : α} (h : readArgument reader role text = .ok value) :
    reader text = some value := by
  unfold readArgument at h
  split at h
  · next hvalue =>
    cases h
    exact hvalue
  · cases h

/-! ## Instructions -/

namespace Code

theorem suits_of_readOperand {kind : OperandKind} {operation : List Char}
    {arguments : List (List Char)} {argument : Argument}
    (h : readOperand kind operation arguments = .ok argument) : argument.Suits kind := by
  cases kind with
  | none =>
    cases arguments with
    | nil => cases h; exact .none
    | cons extra rest => cases h
  | port =>
    obtain ⟨text, -, h⟩ := Except.bind_eq_ok.mp h
    exact Argument.suits_of_readPort? (readArgument_eq_ok h)
  | address =>
    obtain ⟨text, -, h⟩ := Except.bind_eq_ok.mp h
    obtain ⟨addressing, target, fits, rfl⟩ := Argument.readAddress?_eq_some (readArgument_eq_ok h)
    exact .address addressing fits
  | value =>
    obtain ⟨text, -, h⟩ := Except.bind_eq_ok.mp h
    obtain ⟨addressing, target, fits, rfl⟩ := Argument.readAddress?_eq_some (readArgument_eq_ok h)
    exact .cell addressing fits

/-- The operations with an immediate name take a value. -/
theorem operandKind_of_immediateOperation? {name : String} {opcode : Opcode}
    (h : immediateOperation? name = some opcode) : opcode.operandKind = .value := by
  unfold immediateOperation? at h
  split at h <;> cases h <;> rfl

theorem wellFormed_of_read {operation : List Char} {arguments : List (List Char)} {code : Code}
    (h : read operation arguments = .ok code) : code.WellFormed := by
  unfold read at h
  split at h
  · next opcode hopcode =>
    obtain ⟨text, -, h⟩ := Except.bind_eq_ok.mp h
    obtain ⟨value, hvalue, h⟩ := Except.bind_eq_ok.mp h
    cases h
    unfold WellFormed
    rw [operandKind_of_immediateOperation? hopcode]
    exact Argument.suits_of_readImmediate? (readArgument_eq_ok hvalue)
  · split at h
    · cases h
    · obtain ⟨argument, hargument, h⟩ := Except.bind_eq_ok.mp h
      cases h
      exact suits_of_readOperand hargument

end Code

/-! ## Lines -/

namespace Statement

theorem wellFormed_of_ofParts {operation : List Char} {arguments : List (List Char)}
    {statement : Statement} (h : ofParts operation arguments = .ok statement) :
    statement.WellFormed := by
  unfold ofParts at h
  split at h
  · obtain ⟨text, -, h⟩ := Except.bind_eq_ok.mp h
    obtain ⟨address, -, h⟩ := Except.bind_eq_ok.mp h
    cases h
    trivial
  · split at h
    · cases h
    · next hne =>
      obtain ⟨items, hitems, h⟩ := Except.bind_eq_ok.mp h
      cases h
      rintro rfl
      exact hne (List.map_eq_nil_iff.mp (mapM_eq_ok_iff.mp hitems))
  · obtain ⟨code, hcode, h⟩ := Except.bind_eq_ok.mp h
    cases h
    exact Code.wellFormed_of_read hcode

theorem wellFormed_of_read {text : List Char} {statement : Statement}
    (h : read text = .ok (some statement)) : statement.WellFormed := by
  unfold read at h
  split at h
  · cases h
  · obtain ⟨found, hfound, h⟩ := Except.bind_eq_ok.mp h
    cases h
    exact wellFormed_of_ofParts hfound

end Statement

namespace Line

theorem read_eq_ok {number : Nat} {text : List Char} {line : Line}
    (h : read number text = .ok line) : line.number = number ∧ line.WellFormed := by
  obtain ⟨labels, -, h⟩ := Except.bind_eq_ok.mp h
  obtain ⟨statement, hstatement, h⟩ := Except.bind_eq_ok.mp h
  cases h
  refine ⟨rfl, fun found hfound => ?_⟩
  cases hfound
  exact Statement.wellFormed_of_read hstatement

/-- Reading a source reads each of its lines under its number. -/
theorem readAll_eq_ok_iff {source : String} {lines : List Line} :
    readAll source = .ok lines ↔
      ((Text.lines source.toList).zipIdx 1).map (fun entry => read entry.2 entry.1) =
        lines.map .ok := by
  unfold readAll
  rw [collect_eq_ok_iff]
  generalize (Text.lines source.toList).zipIdx 1 = texts
  induction texts generalizing lines with
  | nil => cases lines <;> simp
  | cons entry texts ih =>
    cases lines with
    | nil => simp
    | cons line lines =>
      have hentry : readNumbered entry.2 entry.1 = .ok line ↔ read entry.2 entry.1 = .ok line :=
        Except.mapError_eq_ok
      simp only [List.map_cons, List.cons.injEq, ih, hentry]

/-- No line is lost. -/
theorem length_readAll {source : String} {lines : List Line} (h : readAll source = .ok lines) :
    lines.length = (Text.lines source.toList).length := by
  simpa using (congrArg List.length (readAll_eq_ok_iff.mp h)).symm

/-- Lines are numbered from one on. -/
theorem number_readAll {source : String} {lines : List Line} (h : readAll source = .ok lines) :
    lines.map (·.number) = List.range' 1 lines.length := by
  have hread := readAll_eq_ok_iff.mp h
  have hlength := length_readAll h
  apply List.ext_getElem
  · simp
  · intro k hk _
    have hk' : k < lines.length := by simpa using hk
    have hline := congrArg (·[k]?) hread
    simp only [List.getElem?_map, List.getElem?_zipIdx, List.getElem?_eq_getElem hk',
      List.getElem?_eq_getElem (hlength ▸ hk' : k < (Text.lines source.toList).length),
      Option.map_some, Option.some.injEq] at hline
    simp [(read_eq_ok hline).1]

theorem nodup_number {source : String} {lines : List Line} (h : readAll source = .ok lines) :
    (lines.map (·.number)).Nodup := by
  rw [number_readAll h]
  exact List.nodup_range'

/-- **Every line that was read is well formed.** -/
theorem readAll_wellFormed {source : String} {lines : List Line} (h : readAll source = .ok lines) :
    ∀ line ∈ lines, line.WellFormed := by
  intro line hline
  have hread := readAll_eq_ok_iff.mp h
  have hmem : Except.ok line ∈ lines.map (Except.ok : Line → Except AssemblyError Line) :=
    List.mem_map_of_mem hline
  rw [← hread] at hmem
  obtain ⟨entry, -, hentry⟩ := List.mem_map.mp hmem
  exact (read_eq_ok hentry).2

end Line

end Accumulator
