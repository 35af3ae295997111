import Accumulator.Proofs.Assembly.References

/-!
# Labels that no line defines

Encoding fails for labels that are used and not defined, and for nothing else.

* `Line.names`, `Line.FirstUndefined` — the labels that a line uses, in order, and the first of them that no
  line defines.
* `Placed.failure?_resolve` — a placed line stops at the first label that is not in the table.
* `failures_placed` — each line that uses such a label is reported once, in the order of the lines.
* `Layout.encode_undefined` — when a layout is encoded, and the report if it is not.
-/

namespace Accumulator

/-! ## The first label that is missing -/

/-- The labels that a line uses, in order. -/
def Line.names (line : Line) : List String := line.references.filterMap id

theorem Line.mem_names {line : Line} {name : String} : name ∈ line.names ↔ some name ∈ line.references := by
  simp [names]

namespace SymbolTable

/-- The label of a reference, if it is not in the table. -/
def missing? (labels : SymbolTable) (reference : Option String) : Option String :=
  reference.filter fun name => (labels.address? name).isNone

/-- The first label that a line uses and that is not in the table. -/
def undefined? (labels : SymbolTable) (line : Line) : Option String :=
  line.names.find? fun name => (labels.address? name).isNone

/-- The report of the lines that use labels that are not in the table. -/
def undefinedErrors (labels : SymbolTable) (lines : List Line) : List LineError :=
  lines.filterMap fun line => (labels.undefined? line).map (⟨line.number, .undefinedLabel ·⟩)

theorem findSome?_missing? (labels : SymbolTable) (references : List (Option String)) :
    references.findSome? labels.missing? =
      (references.filterMap id).find? fun name => (labels.address? name).isNone := by
  induction references with
  | nil => rfl
  | cons reference references ih =>
    cases reference with
    | none => exact ih
    | some name =>
      have hnames : (some name :: references).filterMap id = name :: references.filterMap id := rfl
      rw [List.findSome?_cons, hnames, List.find?_cons, missing?, Option.filter_some]
      cases (labels.address? name).isNone
      · exact ih
      · rfl

end SymbolTable

section Failures

variable (labels : SymbolTable)

theorem Immediate.failure?_resolve (immediate : Immediate) :
    failure? (immediate.resolve labels) = (labels.missing? immediate.label?).map .undefinedLabel := by
  cases immediate with
  | literal value => rfl
  | label name =>
    rw [resolve, label?, SymbolTable.missing?, Option.filter_some]
    cases labels.address? name <;> rfl

theorem Argument.failure?_resolve (argument : Argument) (address : Address) :
    failure? (argument.resolve labels address) =
      (labels.missing? (argument.immediate?.bind Immediate.label?)).map .undefinedLabel := by
  cases argument with
  | none | port number => rfl
  | immediate value => exact (failure?_map _ _).trans (value.failure?_resolve labels)
  | address addressing target =>
    cases addressing with
    | absolute | relative | indirect => exact (failure?_map _ _).trans (target.failure?_resolve labels)

/-- A statement stops at the first reference that is missing. -/
theorem Statement.failure?_resolve (statement : Statement) (address : Address) :
    failure? (statement.resolve labels address) =
      (statement.references.findSome? labels.missing?).map .undefinedLabel := by
  cases statement with
  | origin address => rfl
  | words items =>
    rw [resolve, failure?_mapM, references, List.findSome?_map, List.map_findSome?]
    simp only [failure?_map, Immediate.failure?_resolve, Function.comp_def]
  | instruction code =>
    rw [resolve, failure?_map, Code.resolve, failure?_map, Argument.failure?_resolve, references,
      List.findSome?_singleton]

/-- **A placed line stops at the first label that is not in the table.** -/
theorem Placed.failure?_resolve (q : Placed) :
    failure? (q.resolve labels) =
      (labels.undefined? q.line).map (⟨q.line.number, .undefinedLabel ·⟩) := by
  rw [SymbolTable.undefined?, Line.names, ← SymbolTable.findSome?_missing?, Line.references]
  unfold resolve
  cases q.line.statement with
  | none => rfl
  | some statement =>
    rw [failure?_mapError, Statement.failure?_resolve, Option.map_map]
    rfl

end Failures

/-! ## Names that a source defines -/

namespace Line

/-- Some line has a label of the name. -/
def Defined (lines : List Line) (name : String) : Prop := ∃ line ∈ lines, name ∈ line.labels

/-- The name is the first one that the line uses and no line defines. -/
def FirstUndefined (lines : List Line) (line : Line) (name : String) : Prop :=
  ∃ before after, line.names = before ++ name :: after ∧ ¬ Defined lines name ∧
    ∀ earlier ∈ before, Defined lines earlier

end Line

namespace Layout

variable {source : String} {lines : List Line} {layout : Layout} {name : String}

/-- The names that are missing in the table of a layout are those that no line defines. -/
theorem isNone_address?_iff (hbuild : build lines = .ok layout) :
    (layout.labels.address? name).isNone = true ↔ ¬ Line.Defined lines name := by
  rw [SymbolTable.address?, Option.isNone_map, Option.isNone_iff_eq_none, SymbolTable.find?_eq_none_iff,
    (labels_of_build hbuild).1, Line.map_name_bindings, List.mem_flatMap, Line.Defined]

theorem undefined?_eq_some_iff (hbuild : build lines = .ok layout) {line : Line} :
    layout.labels.undefined? line = some name ↔ line.FirstUndefined lines name := by
  rw [SymbolTable.undefined?, List.find?_eq_some_iff_append, isNone_address?_iff hbuild]
  have hbound (earlier : String) :
      (!(layout.labels.address? earlier).isNone) = true ↔ Line.Defined lines earlier := by
    rw [Bool.not_eq_true', ← Bool.not_eq_true, isNone_address?_iff hbuild, not_not]
  simp only [hbound]
  constructor
  · rintro ⟨hname, before, after, hnames, hbefore⟩
    exact ⟨before, after, hnames, hname, hbefore⟩
  · rintro ⟨before, after, hnames, hname, hbefore⟩
    exact ⟨hname, before, after, hnames, hbefore⟩

theorem lacks_eq_false_iff (hbuild : build lines = .ok layout) {reference : Option String} :
    layout.labels.lacks reference = false ↔ ∀ name, reference = some name → Line.Defined lines name := by
  cases reference with
  | none => exact iff_of_true rfl nofun
  | some name =>
    rw [SymbolTable.lacks, Option.any_some, ← Bool.not_eq_true, isNone_address?_iff hbuild, not_not]
    exact ⟨fun h _ hname => Option.some_inj.mp hname ▸ h, fun h => h name rfl⟩

/-! ## The report -/

/-- Each line that uses a label that is not in the table is reported, in the order of the lines. Lines
without cells use none, so that it makes no difference that they are not placed. -/
theorem failures_placed (hbuild : build lines = .ok layout) (hlines : ∀ line ∈ lines, line.WellFormed)
    (labels : SymbolTable) :
    failures (layout.placed.map (Placed.resolve labels)) = labels.undefinedErrors lines := by
  have hbare (line : Line) (hline : line.occupies = false) :
      ((labels.undefined? line).map fun name => (⟨line.number, .undefinedLabel name⟩ : LineError)).toList =
        [] := by
    rw [SymbolTable.undefined?, Line.names, line.references_of_not_occupies hline]
    rfl
  rw [SymbolTable.undefinedErrors, List.filterMap_eq_flatMap_toList, flatMap_placed hbuild hlines hbare,
    failures_map, List.filterMap_eq_flatMap_toList]
  simp only [Placed.failure?_resolve]

theorem mem_undefinedErrors (hbuild : build lines = .ok layout) {e : LineError} :
    e ∈ layout.labels.undefinedErrors lines ↔
      ∃ line ∈ lines, ∃ name, line.FirstUndefined lines name ∧ e = ⟨line.number, .undefinedLabel name⟩ := by
  simp only [SymbolTable.undefinedErrors, List.mem_filterMap, Option.map_eq_some_iff,
    undefined?_eq_some_iff hbuild, eq_comm (b := e)]

/-- **When a layout is encoded, and the report if it is not.** It is encoded exactly if every label that a line
uses is a label of the source. Otherwise the errors follow the lines: each line that uses a label that no line
defines has exactly one error, for the first such label, and no other line has any. -/
theorem encode_undefined (hread : Line.readAll source = .ok lines) (hbuild : build lines = .ok layout) :
    ((∃ p, layout.encode = .ok p) ↔ ∀ line ∈ lines, ∀ name ∈ line.names, Line.Defined lines name) ∧
      ((∃ p, layout.encode = .ok p) ∨ ∃ errors, layout.encode = .error errors ∧
        (errors.map (·.line)).Pairwise (· < ·) ∧
        ∀ e, e ∈ errors ↔ ∃ line ∈ lines, ∃ name, line.FirstUndefined lines name ∧
          e = ⟨line.number, .undefinedLabel name⟩) := by
  have hlines := Line.readAll_wellFormed hread
  refine ⟨?_, ?_⟩
  · rw [exists_encode_iff hbuild hlines layout.labels, List.forall_mem_flatMap]
    refine forall₂_congr fun line _ => ⟨fun h name hname => ?_, fun h reference hreference => ?_⟩
    · exact (lacks_eq_false_iff hbuild).mp (h _ (Line.mem_names.mp hname)) name rfl
    · exact (lacks_eq_false_iff hbuild).mpr fun name hname => h name (Line.mem_names.mpr (hname ▸ hreference))
  · cases hencode : layout.encode with
    | ok p => exact .inl ⟨p, rfl⟩
    | error errors =>
      refine .inr ⟨errors, rfl, ?_, fun e => ?_⟩
      · have hnumbers := (errors_of_encode hbuild hlines hencode).2.1
        rw [Line.number_readAll hread] at hnumbers
        exact (List.pairwise_lt_range' _).sublist hnumbers
      · rw [← (encode_eq_error_iff.mp hencode).1, failures_placed hbuild hlines]
        exact mem_undefinedErrors hbuild

end Layout

namespace Dangling

/-- A label that is used in front of its definition, and three uses of labels that no line defines. -/
def source : String := "JUMP NEXT\nWORD NEXT, 1, LAST, X\nNEXT: LOADI X\n"

def jump : Line := ⟨1, [], some (.instruction ⟨.jump, .address .relative (.label "NEXT")⟩)⟩

def row : Line := ⟨2, [], some (.words [.label "NEXT", .literal 1, .label "LAST", .label "X"])⟩

def next : Line := ⟨3, ["NEXT"], some (.instruction ⟨.load, .immediate (.label "X")⟩)⟩

def layout : Layout where
  labels := ⟨[("NEXT", ⟨3, 5⟩)]⟩
  blocks := [⟨0, [⟨0, jump⟩, ⟨1, row⟩, ⟨5, next⟩]⟩]

/-- The second line is reported once, for the first of its labels that is missing. -/
def errors : List LineError := [⟨2, .undefinedLabel "LAST"⟩, ⟨3, .undefinedLabel "X"⟩]

theorem build_lines : Layout.build [jump, row, next] = .ok layout := by
  simp [Layout.build, Walk.ofLines, Walk.step, Walk.bindPending, Walk.bindLabel, Walk.place,
    Walk.occupy, Walk.allBlocks, Line.size, Statement.size, addressSpace, Address.ofNat?,
    SymbolTable.define, SymbolTable.find?, layout, jump, row, next]

theorem encode_undefined_of_dangling :
    Line.readAll source = .ok [jump, row, next] ∧ Layout.build [jump, row, next] = .ok layout ∧
      layout.encode = .error errors ∧
      ∀ e, e ∈ errors ↔ ∃ line ∈ [jump, row, next], ∃ name,
        line.FirstUndefined [jump, row, next] name ∧ e = ⟨line.number, .undefinedLabel name⟩ := by
  have hread : Line.readAll source = .ok [jump, row, next] := rfl
  have hencode : layout.encode = .error errors := rfl
  refine ⟨hread, build_lines, hencode, ?_⟩
  obtain ⟨-, ⟨p, hp⟩ | ⟨found, hfound, -, hmem⟩⟩ := Layout.encode_undefined hread build_lines
  · cases hencode.symm.trans hp
  · cases hencode.symm.trans hfound
    exact hmem

end Dangling

end Accumulator
