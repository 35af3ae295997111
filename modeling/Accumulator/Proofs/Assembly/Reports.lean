import Accumulator.Proofs.Assembly.Acceptance
import Accumulator.Proofs.Source.Errors

/-!
# The report of a source that does not assemble

* `Walk.Reports` — a label or a line is reported at most once, and with an error of the layout.
* `Walk.Ordered`, `Ordered.step` — the errors of a walk and the labels that it waits with follow the
  lines. A label is reported late, at a later line, but nothing is reported in between.
* `encode_eq_error_iff` — the errors of encoding are those of the placed lines, in their order.
* `errors_of_assemble` — the errors of a source come from one stage and follow the lines.
-/

namespace Accumulator

/-! ## Layout -/

/-- Whether an error can come from the layout. -/
def AssemblyError.isPlacement : AssemblyError → Bool
  | .redefinedLabel _ _ | .addressOverflow _ | .overlap _ _ => true
  | _ => false

theorem AssemblyError.errorClass_of_isPlacement {error : AssemblyError}
    (h : error.isPlacement = true) : error.errorClass = .resolution := by
  cases error <;> first | rfl | cases h

/-- The number of a line, once for each of its labels and once for its cells. -/
def Line.marks (line : Line) : List Nat := List.replicate (line.labels.length + 1) line.number

theorem Line.mem_marks {lines : List Line} {number : Nat} (h : number ∈ lines.flatMap marks) :
    number ∈ lines.map (·.number) := by
  obtain ⟨line, hline, hmark⟩ := List.mem_flatMap.mp h
  rw [List.eq_of_mem_replicate hmark]
  exact List.mem_map_of_mem hline

theorem Line.pairwise_marks {lines : List Line} (h : (lines.map (·.number)).Pairwise (· ≤ ·)) :
    (lines.flatMap marks).Pairwise (· ≤ ·) := by
  rw [List.pairwise_flatMap]
  refine ⟨fun line _ => List.pairwise_replicate.mpr (.inr (Nat.le_refl _)), ?_⟩
  refine (List.pairwise_map.mp h).imp fun {line other} hle number hnumber number' hnumber' => ?_
  rw [List.eq_of_mem_replicate hnumber, List.eq_of_mem_replicate hnumber']
  exact hle

namespace Walk

/-- What is attributed to `number` is reported at most once, with an error of the layout. -/
inductive Reports (number : Nat) (errors : Array LineError) : Array LineError → Prop
  | none : Reports number errors errors
  | one {error : AssemblyError} (placement : error.isPlacement = true) :
      Reports number errors (errors.push ⟨number, error⟩)

theorem reports_bindLabel (w : Walk) (label : PendingLabel) :
    Reports label.line w.errors (w.bindLabel label).errors := by
  unfold bindLabel
  split
  · exact .one rfl
  · split
    · exact .none
    · exact .one rfl

theorem reports_place (w : Walk) (line : Line) :
    Reports line.number w.bindPending.errors (w.place line).errors := by
  unfold place
  simp only
  split
  · exact .one rfl
  · split
    · exact .none
    · exact .one rfl

/-- The errors are errors of the layout. Their lines, and behind them those of the labels that wait,
are among `numbers` in this order. -/
structure Ordered (errors : Array LineError) (waiting : List PendingLabel) (numbers : List Nat) :
    Prop where
  lines : (errors.toList.map (·.line) ++ waiting.map (·.line)).Sublist numbers
  placement : ∀ e ∈ errors, e.error.isPlacement = true

namespace Ordered

variable {errors errors' : Array LineError} {waiting : List PendingLabel} {numbers : List Nat}

theorem reports {number : Nat} (hlines : (errors.toList.map (·.line) ++
      number :: waiting.map (·.line)).Sublist numbers)
    (hplacement : ∀ e ∈ errors, e.error.isPlacement = true) (h : Reports number errors errors') :
    Ordered errors' waiting numbers := by
  cases h with
  | none =>
    refine ⟨List.Sublist.trans ?_ hlines, hplacement⟩
    exact (List.Sublist.refl _).append (List.sublist_cons_self _ _)
  | one placement =>
    refine ⟨by simpa using hlines, fun e he => ?_⟩
    rcases Array.mem_push.mp he with he | rfl
    · exact hplacement e he
    · exact placement

theorem foldl_bindLabel {w : Walk} (h : Ordered w.errors waiting numbers) :
    Ordered (waiting.foldl bindLabel w).errors [] numbers := by
  induction waiting generalizing w with
  | nil => exact h
  | cons label waiting ih =>
    exact ih (reports h.lines h.placement (w.reports_bindLabel label))

theorem bindPending {w : Walk} (h : Ordered w.errors w.pending numbers) :
    Ordered w.bindPending.errors [] numbers :=
  foldl_bindLabel (w := { w with pending := [] }) h

/-- **A line keeps the order.** It adds its own number, once for each label that begins to wait and once
for the report of its cells. -/
theorem step {w : Walk} (line : Line) (h : Ordered w.errors w.pending numbers) :
    Ordered (w.step line).errors (w.step line).pending (numbers ++ line.marks) := by
  have hnumbers : line.pending.map (·.line) = List.replicate line.labels.length line.number := by
    rw [Line.pending, List.map_map]
    exact List.map_const'
  have hwaiting : Ordered w.errors (w.pending ++ line.pending)
      (numbers ++ List.replicate line.labels.length line.number) := by
    refine ⟨?_, h.placement⟩
    rw [List.map_append, ← List.append_assoc, hnumbers]
    exact h.lines.append (List.Sublist.refl _)
  rw [Line.marks, List.replicate_succ', ← List.append_assoc]
  cases hoccupies : line.occupies with
  | false =>
    obtain ⟨-, hpending, -, -, herrors⟩ := step_of_not_occupies (w := w) hoccupies
    rw [hpending, herrors]
    exact ⟨hwaiting.lines.trans (List.sublist_append_left _ _), hwaiting.placement⟩
  | true =>
    rw [step_of_occupies hoccupies, (place_eq _ line).2.1]
    have hbound := hwaiting.bindPending (w := { w with pending := w.pending ++ line.pending })
    refine reports ?_ hbound.placement (reports_place _ line)
    exact (List.append_nil _ ▸ hbound.lines).append (List.Sublist.refl _)

theorem foldl_step {w : Walk} {lines : List Line} (h : Ordered w.errors w.pending numbers) :
    Ordered (lines.foldl Walk.step w).errors (lines.foldl Walk.step w).pending
      (numbers ++ lines.flatMap Line.marks) := by
  induction lines generalizing w numbers with
  | nil => simpa using h
  | cons line lines ih =>
    rw [List.flatMap_cons, ← List.append_assoc]
    exact ih (h.step line)

end Ordered

theorem ordered_ofLines (lines : List Line) :
    Ordered (ofLines lines).errors [] (lines.flatMap Line.marks) :=
  have hempty : Ordered ({} : Walk).errors ({} : Walk).pending [] := ⟨List.Sublist.slnil, by simp⟩
  hempty.foldl_step.bindPending

end Walk

namespace Layout

variable {lines : List Line} {layout : Layout} {errors : List LineError}

/-- **The errors of the layout follow the lines.** -/
theorem errors_of_build (h : build lines = .error errors) :
    errors ≠ [] ∧ (errors.map (·.line)).Sublist (lines.flatMap Line.marks) ∧
      ∀ e ∈ errors, e.error.isPlacement = true := by
  obtain ⟨hlines, hplacement⟩ := Walk.ordered_ofLines lines
  simp only [build] at h
  split at h
  · cases h
  · next hempty =>
    cases h
    rw [List.map_nil, List.append_nil] at hlines
    refine ⟨fun hnil => hempty ?_, hlines, fun e he => hplacement e (Array.mem_toList_iff.mp he)⟩
    rw [Array.isEmpty_iff, ← Array.toList_eq_nil_iff, hnil]

end Layout

/-! ## Encoding -/

theorem Immediate.exists_of_resolve_eq_error {labels : SymbolTable} {immediate : Immediate}
    {error : AssemblyError} (h : immediate.resolve labels = .error error) :
    ∃ name, error = .undefinedLabel name := by
  cases immediate with
  | literal value => cases h
  | label name =>
    rw [resolve] at h
    split at h <;> cases h
    exact ⟨name, rfl⟩

theorem Argument.exists_of_resolve_eq_error {labels : SymbolTable} {address : Address}
    {argument : Argument} {error : AssemblyError} (h : argument.resolve labels address = .error error) :
    ∃ name, error = .undefinedLabel name := by
  cases argument with
  | none => cases h
  | port number => cases h
  | immediate value => exact value.exists_of_resolve_eq_error (Except.map_eq_error.mp h)
  | address addressing target =>
    cases addressing with
    | absolute | relative | indirect =>
      exact target.exists_of_resolve_eq_error (Except.map_eq_error.mp h)

theorem Statement.exists_of_resolve_eq_error {labels : SymbolTable} {address : Address}
    {statement : Statement} {error : AssemblyError}
    (h : statement.resolve labels address = .error error) : ∃ name, error = .undefinedLabel name := by
  cases statement with
  | origin address => cases h
  | words items =>
    obtain ⟨item, -, hitem⟩ := exists_of_mapM_eq_error h
    exact item.exists_of_resolve_eq_error (Except.map_eq_error.mp hitem)
  | instruction code =>
    exact code.argument.exists_of_resolve_eq_error
      (Except.map_eq_error.mp (Except.map_eq_error.mp h))

/-- A placed line is reported for a label that is not defined, under its own number. -/
theorem Placed.exists_of_resolve_eq_error {labels : SymbolTable} {p : Placed} {e : LineError}
    (h : p.resolve labels = .error e) :
    e.line = p.line.number ∧ ∃ name, e.error = .undefinedLabel name := by
  unfold resolve at h
  split at h
  · cases h
  · obtain ⟨error, herror, rfl⟩ := Except.mapError_eq_error.mp h
    exact ⟨rfl, Statement.exists_of_resolve_eq_error herror⟩

theorem Block.resolve_eq_error_iff {labels : SymbolTable} {block : Block} {errors : List LineError} :
    block.resolve labels = .error errors ↔
      failures (block.lines.map (Placed.resolve labels)) = errors ∧ errors ≠ [] := by
  rw [resolve, Except.map_eq_error, collect_eq_error_iff]

/-- The errors of the blocks, one behind the other, are those of the lines. -/
theorem Block.flatten_failures (labels : SymbolTable) (blocks : List Block) :
    (failures (blocks.map (resolve labels))).flatten =
      failures ((blocks.flatMap (·.lines)).map (Placed.resolve labels)) := by
  induction blocks with
  | nil => rfl
  | cons block blocks ih =>
    rw [List.map_cons, List.flatMap_cons, List.map_append, failures_append]
    cases hblock : block.resolve labels with
    | ok s =>
      obtain ⟨rows, hrows, -⟩ := resolve_eq_ok_iff.mp hblock
      rw [failures_ok_cons, ih, hrows, failures_map_ok, List.nil_append]
    | error errors =>
      rw [failures_error_cons, List.flatten_cons, ih, (resolve_eq_error_iff.mp hblock).1]

namespace Layout

variable {layout : Layout} {errors : List LineError}

/-- **The errors of encoding are those of the placed lines, in their order.** -/
theorem encode_eq_error_iff :
    layout.encode = .error errors ↔
      failures (layout.placed.map (Placed.resolve layout.labels)) = errors ∧ errors ≠ [] := by
  rw [placed, ← Block.flatten_failures]
  unfold encode
  cases hblocks : collect (layout.blocks.map (Block.resolve layout.labels)) with
  | ok sections =>
    rw [failures_of_collect_eq_ok hblocks]
    simp [eq_comm]
  | error reports =>
    obtain ⟨hreports, hne⟩ := failures_of_collect_eq_error hblocks
    -- a block that fails has an error, so the reports hold one
    have hflatten : reports.flatten ≠ [] := by
      obtain ⟨report, hreport⟩ := List.exists_mem_of_ne_nil reports hne
      obtain ⟨block, -, hblock⟩ := List.mem_map.mp (mem_failures.mp (hreports ▸ hreport))
      obtain ⟨e, he⟩ := List.exists_mem_of_ne_nil report (Block.resolve_eq_error_iff.mp hblock).2
      exact List.ne_nil_of_mem (List.mem_flatten_of_mem hreport he)
    rw [hreports, Except.error.injEq]
    exact ⟨fun h => ⟨h, h ▸ hflatten⟩, And.left⟩

/-- The errors of encoding follow the lines, and no line has two. -/
theorem errors_of_encode {lines : List Line} (hbuild : build lines = .ok layout)
    (hlines : ∀ line ∈ lines, line.WellFormed) (h : layout.encode = .error errors) :
    errors ≠ [] ∧ (errors.map (·.line)).Sublist (lines.map (·.number)) ∧
      ∀ e ∈ errors, ∃ name, e.error = .undefinedLabel name := by
  obtain ⟨rfl, hne⟩ := encode_eq_error_iff.mp h
  refine ⟨hne, ?_, fun e he => ?_⟩
  · have hplaced : (layout.placed.map fun q => q.line.number) =
        (lines.filter (·.occupies)).map (·.number) := by
      rw [← map_line_placed hbuild hlines, List.map_map]
      rfl
    have hnumbers : (layout.placed.map fun q => q.line.number).Sublist (lines.map (·.number)) := by
      rw [hplaced]
      exact List.filter_sublist.map _
    exact List.Sublist.trans
      (sublist_map_failures (fun q e hq => (Placed.exists_of_resolve_eq_error hq).1) _) hnumbers
  · obtain ⟨q, -, hq⟩ := List.mem_map.mp (mem_failures.mp he)
    exact (Placed.exists_of_resolve_eq_error hq).2

end Layout

/-! ## The stages -/

theorem assemble_eq_error_iff {source : String} {errors : List LineError} :
    assemble source = .error errors ↔
      Line.readAll source = .error errors ∨ ∃ lines, Line.readAll source = .ok lines ∧
        (Layout.build lines = .error errors ∨
          ∃ layout, Layout.build lines = .ok layout ∧ layout.encode = .error errors) := by
  unfold assemble
  simp only [Except.bind_eq_error]

/-- Whichever stage fails, its errors follow the lines of the source. -/
theorem exists_numbers_of_assemble {source : String} {errors : List LineError}
    (h : assemble source = .error errors) :
    errors ≠ [] ∧ ∃ numbers : List Nat, (errors.map (·.line)).Sublist numbers ∧
      numbers.Pairwise (· ≤ ·) ∧
      ∀ n ∈ numbers, n ∈ List.range' 1 (Text.lines source.toList).length := by
  have hsorted (count : Nat) : (List.range' 1 count).Pairwise (· ≤ ·) :=
    (List.pairwise_lt_range' _).imp Nat.le_of_lt
  rcases assemble_eq_error_iff.mp h with hread | ⟨lines, hread, hbuild | ⟨layout, hbuild, hencode⟩⟩
  · obtain ⟨rfl, hne⟩ := Line.readAll_eq_error_iff.mp hread
    exact ⟨hne, _, Line.sublist_line_readErrors source, hsorted _, fun n hn => hn⟩
  · have hnumbers := Line.length_readAll hread ▸ Line.number_readAll hread
    obtain ⟨hne, hlines, -⟩ := Layout.errors_of_build hbuild
    exact ⟨hne, _, hlines, Line.pairwise_marks (hnumbers ▸ hsorted _),
      fun n hn => hnumbers ▸ Line.mem_marks hn⟩
  · have hnumbers := Line.length_readAll hread ▸ Line.number_readAll hread
    obtain ⟨hne, hlines, -⟩ :=
      Layout.errors_of_encode hbuild (Line.readAll_wellFormed hread) hencode
    exact ⟨hne, _, hnumbers ▸ hlines, hsorted _, fun n hn => hn⟩

/-- **The report of a source that does not assemble.** It is not empty, and its lines are lines of the
source that never decrease. If some line cannot be read, the report holds one reading error for each
such line, the one that reading the line gives, and nothing else. Otherwise it holds resolution errors
only, those of the layout or, if there is a layout, labels that are not defined. -/
theorem errors_of_assemble {source : String} {errors : List LineError}
    (h : assemble source = .error errors) :
    errors ≠ [] ∧ (errors.map (·.line)).Pairwise (· ≤ ·) ∧
      (∀ e ∈ errors, 1 ≤ e.line ∧ e.line ≤ (Text.lines source.toList).length) ∧
      (Line.Unreadable source →
        (∀ e ∈ errors, e.error.errorClass = .reading) ∧
        (errors.map (·.line)).Pairwise (· < ·) ∧
        ∀ e, e ∈ errors ↔
          ∃ text, (text, e.line) ∈ Line.numbered source ∧ Line.read e.line text = .error e.error) ∧
      (¬ Line.Unreadable source →
        (∀ e ∈ errors, e.error.errorClass = .resolution) ∧
        ∃ lines, Line.readAll source = .ok lines ∧
          ((Layout.build lines = .error errors ∧
              ∀ e ∈ errors, ∀ name, e.error ≠ .undefinedLabel name) ∨
            ∃ layout, Layout.build lines = .ok layout ∧ layout.encode = .error errors ∧
              ∀ e ∈ errors, ∃ name, e.error = .undefinedLabel name)) := by
  obtain ⟨hne, numbers, hlines, hsorted, hmem⟩ := exists_numbers_of_assemble h
  refine ⟨hne, hsorted.sublist hlines, fun e he => ?_, fun hunreadable => ?_, fun hreadable => ?_⟩
  · have hline := List.mem_range'_1.mp (hmem e.line (hlines.subset (List.mem_map_of_mem he)))
    omega
  · rcases assemble_eq_error_iff.mp h with hread | ⟨lines, hread, -⟩
    · obtain ⟨rfl, -⟩ := Line.readAll_eq_error_iff.mp hread
      refine ⟨fun e he => ?_, ?_, fun e => Line.mem_readErrors⟩
      · obtain ⟨text, -, hfail⟩ := Line.mem_readErrors.mp he
        exact Line.reading_read _ _ _ hfail
      · exact (List.pairwise_lt_range' _).sublist (Line.sublist_line_readErrors source)
    · exact absurd hunreadable (Line.not_unreadable_of_readAll hread)
  · rcases assemble_eq_error_iff.mp h with hread | ⟨lines, hread, hbuild | ⟨layout, hbuild, hencode⟩⟩
    · obtain ⟨rfl, hne⟩ := Line.readAll_eq_error_iff.mp hread
      exact absurd (Line.unreadable_iff.mpr hne) hreadable
    · obtain ⟨-, -, hplacement⟩ := Layout.errors_of_build hbuild
      refine ⟨fun e he => AssemblyError.errorClass_of_isPlacement (hplacement e he), lines, hread,
        .inl ⟨hbuild, fun e he name hundefined => ?_⟩⟩
      have he := hplacement e he
      rw [hundefined] at he
      cases he
    · obtain ⟨-, -, hundefined⟩ :=
        Layout.errors_of_encode hbuild (Line.readAll_wellFormed hread) hencode
      refine ⟨fun e he => ?_, lines, hread, .inr ⟨layout, hbuild, hencode, hundefined⟩⟩
      obtain ⟨name, hname⟩ := hundefined e he
      rw [hname]
      rfl

namespace Clashing

/-- A label that is bound three times, and a second block in the place of the first. -/
def source : String := "X: NOP\nX:\n\nORG 0\nX: NOP\n"

def lines : List Line :=
  [⟨1, ["X"], some (.instruction ⟨.nop, .none⟩)⟩, ⟨2, ["X"], none⟩, ⟨3, [], none⟩,
    ⟨4, [], some (.origin 0)⟩, ⟨5, ["X"], some (.instruction ⟨.nop, .none⟩)⟩]

/-- The label of the second line waits until the fifth. -/
def errors : List LineError :=
  [⟨2, .redefinedLabel "X" 1⟩, ⟨5, .redefinedLabel "X" 1⟩, ⟨5, .overlap 0 1⟩]

theorem build_lines : Layout.build lines = .error errors := by
  simp [Layout.build, Walk.ofLines, Walk.step, Walk.bindPending, Walk.bindLabel, Walk.place,
    Walk.occupy, Walk.report, Walk.allBlocks, Walk.moveTo, Line.size, Statement.size, addressSpace,
    Address.ofNat?, SymbolTable.define, SymbolTable.find?, lines, errors]

theorem errors_of_clashing :
    assemble source = .error errors ∧ errors ≠ [] ∧ (errors.map (·.line)).Pairwise (· ≤ ·) ∧
      (∀ e ∈ errors, 1 ≤ e.line ∧ e.line ≤ 5) ∧
      (∀ e ∈ errors, e.error.errorClass = .resolution) ∧
      ∀ e ∈ errors, ∀ name, e.error ≠ .undefinedLabel name := by
  have hread : Line.readAll source = .ok lines := rfl
  have herrors : assemble source = .error errors :=
    assemble_eq_error_iff.mpr (.inr ⟨lines, hread, .inl build_lines⟩)
  obtain ⟨hne, hsorted, hbounds, -, hresolution⟩ := errors_of_assemble herrors
  obtain ⟨hclass, lines', hread', hstage⟩ := hresolution (Line.not_unreadable_of_readAll hread)
  cases hread.symm.trans hread'
  refine ⟨herrors, hne, hsorted, hbounds, hclass, ?_⟩
  rcases hstage with ⟨-, hdefined⟩ | ⟨layout, hbuild, -⟩
  · exact hdefined
  · cases build_lines.symm.trans hbuild

end Clashing

end Accumulator
