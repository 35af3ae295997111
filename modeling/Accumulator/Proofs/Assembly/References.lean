import Accumulator.Proofs.Assembly.Reports

/-!
# The labels that cells refer to

A cell of an assembled program depends on the label table through one label at most.

* `Line.references` — the label that each cell of a line refers to, if it refers to one.
* `SymbolTable.lacks` — whether a reference is to a label that is not defined.
* `RefersTo` — a result that depends on the label table through one reference; `RefersTo.toOption_eq`
  compares it in a table and in a larger one.
* `SymbolTable.Supplements` — a larger table in which nothing is missing; `exists_supplement` gives one.
* `Layout.exists_encode_iff` — a layout is encoded exactly if no reference is lacking.
-/

namespace Accumulator

variable {ε α β : Type}

/-! ## References -/

/-- The label that an immediate names. -/
def Immediate.label? : Immediate → Option String
  | .literal _ => none
  | .label name => some name

/-- The label that each cell of a statement refers to, if it refers to one. -/
def Statement.references : Statement → List (Option String)
  | .origin _ => []
  | .words items => items.map Immediate.label?
  | .instruction code => [code.argument.immediate?.bind Immediate.label?]

/-- The label that each cell of a line refers to, if it refers to one. -/
def Line.references (line : Line) : List (Option String) :=
  match line.statement with
  | some statement => statement.references
  | none => []

theorem Line.length_references (line : Line) : line.references.length = line.size := by
  unfold references size
  cases line.statement with
  | none => rfl
  | some statement =>
    cases statement with
    | origin address => rfl
    | words items => exact List.length_map _
    | instruction code => rfl

theorem Line.statement_of_not_occupies {line : Line} (h : line.occupies = false) :
    line.statement = none ∨ ∃ address, line.statement = some (.origin address) := by
  unfold occupies at h
  cases hstatement : line.statement with
  | none => exact .inl rfl
  | some statement =>
    rw [hstatement] at h
    cases statement with
    | origin address => exact .inr ⟨address, rfl⟩
    | words items => cases h
    | instruction code => cases h

theorem Line.references_of_not_occupies (line : Line) (h : line.occupies = false) :
    line.references = [] := by
  unfold references
  obtain hstatement | ⟨address, hstatement⟩ := statement_of_not_occupies h
  · rw [hstatement]
  · rw [hstatement]
    rfl

namespace SymbolTable

/-- Whether a cell refers to a label that is not defined. -/
def lacks (labels : SymbolTable) (reference : Option String) : Bool :=
  reference.any fun name => (labels.address? name).isNone

/-- The table binds what `labels` binds, in the same way, and every label that the lines refer to. -/
structure Supplements (labels' labels : SymbolTable) (lines : List Line) : Prop where
  keeps : ∀ name address, labels.address? name = some address →
    labels'.address? name = some address
  defines : ∀ reference ∈ lines.flatMap Line.references, labels'.lacks reference = false

theorem exists_supplement (labels : SymbolTable) (lines : List Line) :
    ∃ labels', Supplements labels' labels lines := by
  let names := (lines.flatMap Line.references).filterMap id
  refine ⟨⟨labels.entries ++ names.map fun name => (name, ⟨0, 0⟩)⟩, ?_, ?_⟩
  · intro name address hbound
    obtain ⟨symbol, hsymbol, rfl⟩ := Option.map_eq_some_iff.mp hbound
    have hfound : labels.entries.lookup name = some symbol := hsymbol
    rw [address?, find?, List.lookup_append, hfound]
    rfl
  · intro reference hreference
    cases reference with
    | none => rfl
    | some name =>
      have hname : name ∈ names := List.mem_filterMap.mpr ⟨some name, hreference, rfl⟩
      have hadded := List.lookup_graph (fun _ => (⟨0, 0⟩ : Symbol)) hname
      rw [lacks, Option.any_some, address?, find?, List.lookup_append, hadded]
      cases labels.entries.lookup name <;> rfl

end SymbolTable

/-- The result depends on the label table through the reference alone. -/
def RefersTo (reference : Option String) (result : SymbolTable → Except AssemblyError α) : Prop :=
  match reference with
  | none => ∃ value, ∀ labels, result labels = .ok value
  | some name => ∃ f : Address → α, ∀ labels, (result labels).toOption = (labels.address? name).map f

namespace RefersTo

variable {reference : Option String} {result : SymbolTable → Except AssemblyError α}
  {labels labels' : SymbolTable}

theorem map (h : RefersTo reference result) (f : α → β) :
    RefersTo reference fun labels => (result labels).map f := by
  cases reference with
  | none =>
    obtain ⟨value, hvalue⟩ := h
    exact ⟨f value, fun labels => congrArg (Except.map f) (hvalue labels)⟩
  | some name =>
    obtain ⟨g, hg⟩ := h
    have hmap (x : Except AssemblyError α) : (x.map f).toOption = x.toOption.map f := by
      cases x <;> rfl
    refine ⟨f ∘ g, fun labels => ?_⟩
    rw [hmap, hg, Option.map_map]

theorem exists_iff (h : RefersTo reference result) (labels : SymbolTable) :
    (∃ value, result labels = .ok value) ↔ labels.lacks reference = false := by
  cases reference with
  | none =>
    obtain ⟨value, hvalue⟩ := h
    exact iff_of_true ⟨value, hvalue labels⟩ rfl
  | some name =>
    obtain ⟨f, hf⟩ := h
    have hresult := hf labels
    rw [SymbolTable.lacks, Option.any_some]
    cases hvalue : result labels with
    | ok value =>
      rw [hvalue] at hresult
      obtain ⟨address, hname, -⟩ := Option.map_eq_some_iff.mp hresult.symm
      rw [hname]
      exact iff_of_true ⟨value, rfl⟩ rfl
    | error error =>
      rw [hvalue] at hresult
      rw [Option.map_eq_none_iff.mp hresult.symm]
      exact iff_of_false nofun nofun

/-- **What a larger table gives, the table gives too, unless the reference is lacking.** -/
theorem toOption_eq (h : RefersTo reference result)
    (hkeeps : ∀ name address, labels.address? name = some address →
      labels'.address? name = some address) {value : α} (hvalue : result labels' = .ok value) :
    (result labels).toOption = if labels.lacks reference then none else some value := by
  cases reference with
  | none =>
    obtain ⟨known, hknown⟩ := h
    rw [hknown] at hvalue ⊢
    cases hvalue
    rfl
  | some name =>
    obtain ⟨f, hf⟩ := h
    have hlarger := hf labels'
    rw [hvalue] at hlarger
    show _ = if (labels.address? name).isNone then none else some value
    rw [hf]
    cases hname : labels.address? name with
    | none => rfl
    | some address =>
      rw [hkeeps name address hname] at hlarger
      exact hlarger.symm

end RefersTo

theorem Immediate.refersTo (immediate : Immediate) :
    RefersTo immediate.label? fun labels => immediate.resolve labels := by
  cases immediate with
  | literal value => exact ⟨value, fun labels => rfl⟩
  | label name =>
    refine ⟨UInt16.toUInt32, fun labels => ?_⟩
    simp only [resolve]
    cases labels.address? name <;> rfl

theorem Argument.refersTo (argument : Argument) (address : Address) :
    RefersTo (argument.immediate?.bind Immediate.label?) fun labels =>
      argument.resolve labels address := by
  cases argument with
  | none => exact ⟨0, fun labels => rfl⟩
  | port number => exact ⟨number.toUInt16, fun labels => rfl⟩
  | immediate value => exact value.refersTo.map _
  | address addressing target =>
    cases addressing with
    | absolute | relative | indirect => exact target.refersTo.map _

theorem Code.refersTo (code : Code) (address : Address) :
    RefersTo (code.argument.immediate?.bind Immediate.label?) fun labels =>
      code.resolve labels address :=
  (code.argument.refersTo address).map _

/-! ## Placed lines -/

theorem exists_mapM_eq_ok_iff {f : α → Except ε β} {xs : List α} :
    (∃ ys, xs.mapM f = .ok ys) ↔ ∀ x ∈ xs, ∃ y, f x = .ok y := by
  constructor
  · rintro ⟨ys, hys⟩ x hx
    have hmem := List.mem_map_of_mem (f := f) hx
    rw [mapM_eq_ok_iff.mp hys] at hmem
    obtain ⟨y, -, hy⟩ := List.mem_map.mp hmem
    exact ⟨y, hy.symm⟩
  · intro h
    cases hys : xs.mapM f with
    | ok ys => exact ⟨ys, rfl⟩
    | error e =>
      obtain ⟨x, hx, hfail⟩ := exists_of_mapM_eq_error hys
      obtain ⟨y, hy⟩ := h x hx
      rw [hfail] at hy
      cases hy

namespace Placed

variable {labels labels' : SymbolTable} {q : Placed}

/-- A placed line resolves exactly if none of its references is lacking. -/
theorem exists_resolve_iff : (∃ items, q.resolve labels = .ok items) ↔
    ∀ reference ∈ q.line.references, labels.lacks reference = false := by
  unfold resolve Line.references
  cases q.line.statement with
  | none => exact iff_of_true ⟨[], rfl⟩ nofun
  | some statement =>
    simp only [Except.mapError_eq_ok]
    cases statement with
    | origin address => exact iff_of_true ⟨[], rfl⟩ nofun
    | words words =>
      simp only [Statement.resolve, Statement.references, List.forall_mem_map]
      rw [exists_mapM_eq_ok_iff]
      exact forall₂_congr fun word _ => (word.refersTo.map Item.data).exists_iff labels
    | instruction code =>
      simp only [Statement.resolve, Statement.references, List.forall_mem_singleton]
      exact ((code.refersTo q.address).map _).exists_iff labels

end Placed

namespace Layout

variable {lines : List Line} {layout : Layout}

/-- A layout is encoded exactly if every placed line resolves. -/
theorem exists_encode_iff_resolve : (∃ p, layout.encode = .ok p) ↔
    ∀ q ∈ layout.placed, ∃ items, q.resolve layout.labels = .ok items := by
  constructor
  · rintro ⟨p, hencode⟩ q hq
    cases hresolve : q.resolve layout.labels with
    | ok items => exact ⟨items, rfl⟩
    | error e =>
      have hmem : e ∈ failures (layout.placed.map (Placed.resolve layout.labels)) :=
        mem_failures.mpr (hresolve ▸ List.mem_map_of_mem hq)
      have hfails := encode_eq_error_iff.mpr ⟨rfl, List.ne_nil_of_mem hmem⟩
      rw [hencode] at hfails
      cases hfails
  · intro h
    cases hencode : layout.encode with
    | ok p => exact ⟨p, rfl⟩
    | error errors =>
      obtain ⟨hfailures, hne⟩ := encode_eq_error_iff.mp hencode
      obtain ⟨e, he⟩ := List.exists_mem_of_ne_nil errors hne
      obtain ⟨q, hq, hresolve⟩ := List.mem_map.mp (mem_failures.mp (hfailures ▸ he))
      obtain ⟨items, hitems⟩ := h q hq
      rw [hitems] at hresolve
      cases hresolve

/-- What only lines with cells contribute is contributed by the placed lines. -/
theorem flatMap_placed (h : build lines = .ok layout) (hlines : ∀ line ∈ lines, line.WellFormed)
    {f : Line → List α} (hf : ∀ line : Line, line.occupies = false → f line = []) :
    lines.flatMap f = layout.placed.flatMap fun q => f q.line := by
  have hfilter : (lines.filter (·.occupies)).flatMap f = lines.flatMap f := by
    clear h hlines
    induction lines with
    | nil => rfl
    | cons line lines ih =>
      rw [List.filter_cons, List.flatMap_cons, ← ih]
      cases hoccupies : line.occupies with
      | true => rw [if_pos rfl, List.flatMap_cons]
      | false => rw [if_neg Bool.false_ne_true, hf line hoccupies, List.nil_append]
  rw [← hfilter, ← map_line_placed h hlines, List.flatMap_map]

/-- **A layout is encoded exactly if no reference is lacking.** -/
theorem exists_encode_iff (h : build lines = .ok layout) (hlines : ∀ line ∈ lines, line.WellFormed)
    (labels : SymbolTable) : (∃ p, { layout with labels }.encode = .ok p) ↔
      ∀ reference ∈ lines.flatMap Line.references, labels.lacks reference = false := by
  rw [flatMap_placed h hlines Line.references_of_not_occupies, List.forall_mem_flatMap,
    exists_encode_iff_resolve]
  exact forall₂_congr fun q _ => q.exists_resolve_iff

end Layout

end Accumulator
