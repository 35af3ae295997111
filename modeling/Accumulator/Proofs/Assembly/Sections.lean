import Accumulator.Proofs.Assembly.Acceptance
import Accumulator.Proofs.Machine.Loading
import Accumulator.Proofs.Program.Artifact
import Accumulator.Proofs.Program.Validation

/-!
# The sections of an assembled program

* `Line.runs` — a source cut at its origins.
* `blocks_of_build` — the blocks of a layout are the runs in which a line takes cells, in their order.
* `sections_eq` — each run gives a section with the items of its lines, and the empty ones are left
  out.
* `sections_of_assemble` — a memory takes an assembled program exactly if every cell lies in it.
-/

namespace Accumulator

/-! ## Runs -/

/-- The lines between two origins. -/
structure Run where
  origin : Address
  lines : List Line
  deriving DecidableEq

/-- The run with only the lines that take cells. -/
def Run.occupied (run : Run) : Run := ⟨run.origin, run.lines.filter (·.occupies)⟩

namespace Line

/-- The lines cut at the origins among them. Since the last origin, which is `origin`, the lines
`seen` have come by. -/
def runs (origin : Address) (seen : List Line) : List Line → List Run
  | [] => [⟨origin, seen⟩]
  | line :: rest =>
    match line.statement with
    | some (.origin address) => ⟨origin, seen⟩ :: runs address [] rest
    | _ => runs origin (seen ++ [line]) rest

theorem runs_of_not_origin {origin : Address} {seen rest : List Line} {line : Line}
    (h : ∀ address, line.statement ≠ some (.origin address)) :
    runs origin seen (line :: rest) = runs origin (seen ++ [line]) rest := by
  rw [runs]
  split
  · next address hstatement => exact absurd hstatement (h address)
  · rfl

/-- A run holds lines that have come by or are to come. -/
theorem mem_of_mem_runs {origin : Address} {seen lines : List Line} {run : Run}
    (hrun : run ∈ runs origin seen lines) {line : Line} (hline : line ∈ run.lines) :
    line ∈ seen ++ lines := by
  induction lines generalizing origin seen with
  | nil =>
    cases List.mem_singleton.mp hrun
    exact List.mem_append_left _ hline
  | cons other lines ih =>
    rw [runs] at hrun
    split at hrun
    · rcases List.mem_cons.mp hrun with rfl | hrun
      · exact List.mem_append_left _ hline
      · exact List.mem_append_right _ (List.mem_cons_of_mem other (ih hrun))
    · rw [List.append_cons]
      exact ih hrun

end Line

/-! ## Blocks -/

/-- The block without the addresses of its lines. -/
def Block.run (block : Block) : Run := ⟨block.start, block.lines.map (·.line)⟩

namespace Walk

theorem toList_allBlocks (w : Walk) :
    w.allBlocks.toList = w.closed.toList ++ [⟨w.start, w.lines.toList⟩] := Array.toList_push

/-- **A walk without errors closes a block for every run.** -/
theorem map_run_foldl {lines seen : List Line} {w : Walk} (h : (lines.foldl step w).errors = #[])
    (hseen : w.lines.toList.map (·.line) = seen.filter (·.occupies)) :
    (lines.foldl step w).allBlocks.toList.map Block.run =
      w.closed.toList.map Block.run ++ (Line.runs w.start seen lines).map Run.occupied := by
  induction lines generalizing w seen with
  | nil => simp [toList_allBlocks, Line.runs, Block.run, Run.occupied, hseen]
  | cons line lines ih =>
    have hstep := step_advances (errors_of_foldl h : (w.step line).errors = #[])
    rw [List.foldl_cons] at h ⊢
    generalize w.step line = w' at h hstep ⊢
    cases hstep with
    | bare hstatement =>
      rw [Line.runs_of_not_origin (by simp [hstatement])]
      exact ih h (by simpa [Line.occupies, hstatement] using hseen)
    | @origin address pending hstatement =>
      have hnone : [] = ([] : List Line).filter (·.occupies) := rfl
      rw [ih h hnone, Line.runs, hstatement]
      simp [moveTo, toList_allBlocks, Block.run, Run.occupied, hseen]
    | place hoccupies =>
      have hstatement : ∀ address, line.statement ≠ some (.origin address) := by
        intro address hstatement
        simp [Line.occupies, hstatement] at hoccupies
      rw [Line.runs_of_not_origin hstatement]
      exact ih h (by simp [hseen, hoccupies])

end Walk

namespace Layout

variable {lines : List Line} {layout : Layout}

/-- **The blocks of a layout are the runs in which a line takes cells, in their order.** -/
theorem blocks_of_build (h : build lines = .ok layout) :
    layout.blocks.map Block.run =
      ((Line.runs 0 [] lines).map Run.occupied).filter fun run => !run.lines.isEmpty := by
  obtain ⟨labels, errors, hbind⟩ := Walk.bindPending_frame (lines.foldl Walk.step {})
  simp only [build, Walk.ofLines, hbind] at h
  split at h
  · next hempty =>
    cases h
    have herrors := (Array.append_eq_empty_iff.mp (Array.isEmpty_iff.mp hempty)).1
    have hnone : [] = ([] : List Line).filter (·.occupies) := rfl
    have hruns : (lines.foldl Walk.step {}).allBlocks.toList.map Block.run =
        (Line.runs 0 [] lines).map Run.occupied := Walk.map_run_foldl (w := {}) herrors hnone
    have hblock : (fun run : Run => !run.lines.isEmpty) ∘ Block.run =
        fun block => !block.lines.isEmpty := by
      funext block
      simp [Block.run]
    rw [← hruns, List.filter_map, hblock]
    rfl
  · cases h

/-- The items of a line, resolved at the address found for it. -/
def itemsOf (layout : Layout) (line : Line) : List Item :=
  match layout.addressOf? line.number with
  | some address => Placed.items layout.labels ⟨address, line⟩
  | none => []

/-- The section of a run: the items of its lines, one behind the other, from its origin on. -/
def sectionOf (layout : Layout) (run : Run) : Section :=
  ⟨run.origin, run.lines.flatMap layout.itemsOf⟩

end Layout

/-! ## Sections -/

namespace Assembles

variable {source : String} {lines : List Line} {layout : Layout} {p : Program}

theorem itemsOf_of_placed (h : Assembles source lines layout p) {q : Placed}
    (hq : q ∈ layout.placed) : layout.itemsOf q.line = q.items layout.labels := by
  rw [Layout.itemsOf, h.addressOf?_of_placed hq]

/-- A line gives no item exactly if it takes no cell. -/
theorem itemsOf_eq_nil_iff (h : Assembles source lines layout p) {line : Line} (hline : line ∈ lines) :
    layout.itemsOf line = [] ↔ line.occupies = false := by
  cases hoccupies : line.occupies with
  | true =>
    obtain ⟨address, hfound, hplaced⟩ := h.exists_address hline hoccupies
    have hlength := Placed.length_of_resolve (h.resolve_of_placed hplaced)
    have hpos := (h.wellFormed line hline).size_pos hoccupies
    rw [h.itemsOf_of_placed hplaced, ← List.length_eq_zero_iff, hlength]
    simp only [Bool.true_eq_false, iff_false]
    exact Nat.ne_of_gt hpos
  | false =>
    have hnone : layout.addressOf? line.number = none := by
      refine Layout.addressOf?_eq_none h.placed h.wellFormed fun other hother hother' hnumber => ?_
      rw [List.inj_on_of_nodup_map (Line.nodup_number h.read) hother hline hnumber] at hother'
      rw [hother'] at hoccupies
      cases hoccupies
    simp [Layout.itemsOf, hnone]

/-- The section of a run is empty exactly if no line of the run takes cells. -/
theorem items_sectionOf_eq_nil_iff (h : Assembles source lines layout p) {run : Run}
    (hrun : ∀ line ∈ run.lines, line ∈ lines) :
    (layout.sectionOf run).items = [] ↔ run.occupied.lines = [] := by
  rw [Layout.sectionOf, List.flatMap_eq_nil_iff, Run.occupied, List.filter_eq_nil_iff]
  refine forall₂_congr fun line hline => ?_
  rw [h.itemsOf_eq_nil_iff (hrun line hline), Bool.not_eq_true]

/-- Lines that take no cell add nothing to the section of a run. -/
theorem sectionOf_occupied (h : Assembles source lines layout p) {run : Run}
    (hrun : ∀ line ∈ run.lines, line ∈ lines) :
    layout.sectionOf run.occupied = layout.sectionOf run := by
  obtain ⟨origin, members⟩ := run
  have hitems : (members.filter (·.occupies)).flatMap layout.itemsOf =
      members.flatMap layout.itemsOf := by
    induction members with
    | nil => rfl
    | cons line members ih =>
      have hmembers := ih fun other hother => hrun other (List.mem_cons_of_mem line hother)
      have hline := h.itemsOf_eq_nil_iff (hrun line List.mem_cons_self)
      cases hoccupies : line.occupies with
      | true => rw [List.filter_cons_of_pos hoccupies, List.flatMap_cons, List.flatMap_cons, hmembers]
      | false =>
        rw [List.filter_cons_of_neg (by simp [hoccupies]), hmembers, List.flatMap_cons,
          hline.mpr hoccupies, List.nil_append]
  rw [Layout.sectionOf, Run.occupied, hitems, Layout.sectionOf]

theorem eq_sectionOf_of_resolve (h : Assembles source lines layout p) {block : Block}
    (hblock : block ∈ layout.blocks) {s : Section} (hs : block.resolve layout.labels = .ok s) :
    s = layout.sectionOf block.run := by
  obtain ⟨rows, hrows, rfl⟩ := Block.resolve_eq_ok_iff.mp hs
  have hitems : ∀ q ∈ block.lines, ∀ row, q.resolve layout.labels = .ok row →
      row = layout.itemsOf q.line := by
    intro q hq row hrow
    have hplaced : q ∈ layout.placed := List.mem_flatMap.mpr ⟨block, hblock, hq⟩
    rw [h.itemsOf_of_placed hplaced, Placed.items, hrow]
  rw [eq_map_of_map_eq_ok hitems hrows, Layout.sectionOf, Block.run, List.flatMap_map]
  rfl

/-- **The sections are those of the runs, in the order of the source, less the empty ones.** -/
theorem sections_eq (h : Assembles source lines layout p) :
    p.sections = ((Line.runs 0 [] lines).map layout.sectionOf).filter
      fun s => !s.items.isEmpty := by
  obtain ⟨sections, hsections, rfl⟩ := Layout.encode_eq_ok_iff.mp h.encoded
  have hlines : ∀ run ∈ Line.runs 0 [] lines, ∀ line ∈ run.lines, line ∈ lines :=
    fun run hrun line hline => Line.mem_of_mem_runs hrun hline
  have hempty : ∀ run ∈ Line.runs 0 [] lines,
      (!run.occupied.lines.isEmpty) = !(layout.sectionOf run).items.isEmpty := by
    intro run hrun
    rw [Bool.eq_iff_iff]
    simp [h.items_sectionOf_eq_nil_iff (hlines run hrun)]
  calc sections
      = layout.blocks.map fun block => layout.sectionOf block.run :=
        eq_map_of_map_eq_ok (fun _ hblock _ => h.eq_sectionOf_of_resolve hblock) hsections
    _ = (layout.blocks.map Block.run).map layout.sectionOf := by rw [List.map_map]; rfl
    _ = ((Line.runs 0 [] lines).filter fun run => !run.occupied.lines.isEmpty).map
          fun run => layout.sectionOf run.occupied := by
        rw [Layout.blocks_of_build h.placed, List.filter_map, List.map_map]; rfl
    _ = ((Line.runs 0 [] lines).filter fun run => !(layout.sectionOf run).items.isEmpty).map
          layout.sectionOf := by
        rw [List.filter_congr hempty]
        exact List.map_congr_left fun run hrun =>
          h.sectionOf_occupied (hlines run (List.mem_filter.mp hrun).1)
    _ = ((Line.runs 0 [] lines).map layout.sectionOf).filter fun s => !s.items.isEmpty := by
        rw [List.filter_map]; rfl

/-- Every cell of an assembled program has an address. -/
theorem lt_of_mem_cells (h : Assembles source lines layout p) {cell : Nat × Word}
    (hcell : cell ∈ p.cells) : cell.1 < addressSpace := by
  obtain ⟨q, hq, -, hlt⟩ := h.covers_of_mem_cells hcell
  exact Nat.lt_of_lt_of_le hlt (Layout.inside_of_placed h.placed h.wellFormed hq)

theorem items_ne_nil (h : Assembles source lines layout p) : ∀ s ∈ p.sections, s.items ≠ [] := by
  intro s hs
  rw [h.sections_eq] at hs
  simpa using (List.mem_filter.mp hs).2

theorem version_eq (h : Assembles source lines layout p) : p.version = Program.formatVersion := by
  obtain ⟨sections, -, rfl⟩ := Layout.encode_eq_ok_iff.mp h.encoded
  rfl

/-- The artifact of an assembled program gives the program. -/
theorem ofArtifact_artifact (h : Assembles source lines layout p) :
    Program.ofArtifact p.artifact.toUTF8 = .ok p := by
  rw [Program.ofArtifact_artifact, if_pos h.version_eq]

/-- **A memory takes an assembled program exactly if every cell lies in it.** -/
theorem validate_eq_ok_iff (h : Assembles source lines layout p) {memorySize : Nat} :
    p.validate memorySize = .ok () ↔ ∀ cell ∈ p.cells, cell.1 < memorySize := by
  rw [Program.validate_eq_ok_iff, and_iff_left h.nodup_cells, Program.stop_le_iff h.items_ne_nil]

end Assembles

/-- **What the assembler emits, a memory takes.** The sections of an assembled program are those of the
runs of its source, in their order and from their origins on, and none is empty. The largest memory
takes the program. Any memory takes it exactly if every cell lies in it, and so does a machine, which
never refuses it for an overlap. -/
theorem sections_of_assemble {source : String} {p : Program} (h : assemble source = .ok p) :
    ∃ lines layout, Line.readAll source = .ok lines ∧ Layout.build lines = .ok layout ∧
      Program.ofArtifact p.artifact.toUTF8 = .ok p ∧
      p.sections = ((Line.runs 0 [] lines).map layout.sectionOf).filter (fun s => !s.items.isEmpty) ∧
      (∀ line ∈ lines, line.occupies = true → ∃ address,
        layout.addressOf? line.number = some address ∧
          Placed.resolve layout.labels ⟨address, line⟩ = .ok (layout.itemsOf line)) ∧
      (∀ s ∈ p.sections, s.items ≠ []) ∧
      p.validate addressSpace = .ok () ∧
      (∀ memorySize, p.validate memorySize = .ok () ↔ ∀ cell ∈ p.cells, cell.1 < memorySize) ∧
      (∀ m : Machine, (∃ m', m.load p = .ok m') ↔ ∀ cell ∈ p.cells, cell.1 < m.memorySize) ∧
      (∀ (m : Machine) cell, m.load p ≠ .error (.overlap cell)) := by
  obtain ⟨lines, layout, hassembles⟩ := assemble_eq_ok_iff.mp h
  refine ⟨lines, layout, hassembles.read, hassembles.placed, hassembles.ofArtifact_artifact,
    hassembles.sections_eq, ?_, hassembles.items_ne_nil, ?_,
    fun memorySize => hassembles.validate_eq_ok_iff, ?_, ?_⟩
  · intro line hline hoccupies
    obtain ⟨address, hfound, hplaced⟩ := hassembles.exists_address hline hoccupies
    refine ⟨address, hfound, ?_⟩
    rw [hassembles.resolve_of_placed hplaced, ← hassembles.itemsOf_of_placed hplaced]
  · exact hassembles.validate_eq_ok_iff.mpr fun cell hcell => hassembles.lt_of_mem_cells hcell
  · intro m
    rw [Machine.exists_load_iff, hassembles.validate_eq_ok_iff]
  · intro m cell hload
    exact Program.validate_ne_overlap hassembles.nodup_cells m.memorySize cell
      (Machine.load_eq_error_iff.mp hload)

/-- Blocks out of order, the last of which ends where the one before it starts. Six words take them, and
five do not. -/
theorem sections_of_scattered :
    assemble Scattered.source = .ok Scattered.program ∧
      Scattered.program.sections.map (·.start) = [0, 4, 2] ∧
      Scattered.program.sections =
        [⟨0, [Scattered.entry]⟩, ⟨4, [Scattered.last, Scattered.again]⟩, ⟨2, [Scattered.table]⟩].map
          Scattered.layout.sectionOf ∧
      Scattered.program.validate 6 = .ok () ∧ Scattered.program.validate 5 ≠ .ok () ∧
      ∃ m, (Machine.reset 6 {}).load Scattered.program = .ok m := by
  have h : assemble Scattered.source = .ok Scattered.program :=
    assemble_eq_ok_iff.mpr ⟨_, _, Scattered.assembles⟩
  obtain ⟨lines, layout, hread, hplaced, -, hsections, -, -, -, hvalidate, hload, -⟩ :=
    sections_of_assemble h
  cases Scattered.assembles.read.symm.trans hread
  cases Scattered.assembles.placed.symm.trans hplaced
  refine ⟨h, rfl, hsections, (hvalidate 6).mpr (by decide), fun hfive => ?_,
    (hload (Machine.reset 6 {})).mpr (by decide)⟩
  exact absurd ((hvalidate 5).mp hfive (5, 0x0F03FFFA) (by decide)) (by decide)

end Accumulator
