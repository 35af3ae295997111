import Accumulator.Proofs.Assembly.Cells
import Accumulator.Proofs.Assembly.Resolve
import Accumulator.Proofs.Machine.Loading
import Accumulator.Proofs.Program.Artifact

/-!
# From a source to memory

* `Machine.Holds` — the memory is the image of the lines: each line holds what it resolves to where
  it was placed, and a cell that no line covers is clear.
* `image_of_assemble` — assembling a source, writing its artifact, reading it back and loading it into
  a fresh machine leaves the image of the lines.
-/

namespace Accumulator

/-- The memory is the image of the lines. -/
structure Machine.Holds (m : Machine) (lines : List Line) (layout : Layout) : Prop where
  /-- A code line holds its instruction, resolved at its address. -/
  instruction : ∀ line ∈ lines, ∀ code, line.statement = some (.instruction code) →
    ∃ address i, layout.addressOf? line.number = some address ∧
      code.resolve layout.labels address = .ok i ∧ m.memory[address.toNat]? = some i.encode
  /-- A row of words holds each of its items, a literal or the address of a label. -/
  words : ∀ line ∈ lines, ∀ items, line.statement = some (.words items) →
    ∃ address, layout.addressOf? line.number = some address ∧
      ∀ k item, items[k]? = some item →
        ∃ word, item.Denotes layout.labels word ∧ m.memory[address.toNat + k]? = some word
  /-- A cell that no line covers is clear. -/
  clear : ∀ cell, cell < m.memorySize →
    (∀ line ∈ lines, ∀ address, layout.addressOf? line.number = some address →
      ¬ (address.toNat ≤ cell ∧ cell < address.toNat + line.size)) → m.memory[cell]? = some 0

theorem Assembles.holds_of_load {source : String} {lines : List Line} {layout : Layout}
    {p : Program} (h : Assembles source lines layout p) {memorySize : Nat} {bus : Bus} {m : Machine}
    (hload : (Machine.reset memorySize bus).load p = .ok m) : m.Holds lines layout where
  instruction line hline code hcode := by
    obtain ⟨address, i, hfound, hi, hcell⟩ := h.exists_instruction hline hcode
    exact ⟨address, i, hfound, hi, Machine.getElem?_of_load hload hcell⟩
  words line hline items hitems := by
    obtain ⟨address, hfound, hcells⟩ := h.exists_words hline hitems
    refine ⟨address, hfound, fun k item hitem => ?_⟩
    obtain ⟨word, hword, hcell⟩ := hcells k item hitem
    exact ⟨word, Immediate.resolve_eq_ok_iff.mp hword, Machine.getElem?_of_load hload hcell⟩
  clear cell hcell hfree := by
    have hout : cell ∉ p.cells.map Prod.fst := by
      intro hmem
      obtain ⟨entry, hentry, rfl⟩ := List.mem_map.mp hmem
      obtain ⟨q, hq, hcovers⟩ := h.covers_of_mem_cells hentry
      have hline := (Layout.mem_of_placed h.placed h.wellFormed hq).1
      exact hfree q.line hline q.address (h.addressOf?_of_placed hq) hcovers
    obtain ⟨-, rfl⟩ := Machine.load_eq_ok hload
    have hsize : cell < memorySize := by simpa [Machine.reset, Machine.memorySize] using hcell
    rw [Machine.getElem?_writeCells_of_not_mem hout, Machine.reset, Array.getElem?_replicate,
      if_pos hsize]

/-- **From a source to memory.** Of a source that assembles, the artifact is read back as a program
that writes no cell twice, and wherever that program loads, memory becomes the image of the lines. -/
theorem image_of_assemble {source : String} {p : Program} (h : assemble source = .ok p) :
    ∃ lines layout q, Line.readAll source = .ok lines ∧ Layout.build lines = .ok layout ∧
      Program.ofArtifact p.artifact.toUTF8 = .ok q ∧ (q.cells.map Prod.fst).Nodup ∧
      ∀ memorySize bus m, (Machine.reset memorySize bus).load q = .ok m →
        m.memorySize = memorySize ∧ m.Holds lines layout := by
  obtain ⟨lines, layout, hassembles⟩ := assemble_eq_ok_iff.mp h
  have hversion : p.version = Program.formatVersion := by
    obtain ⟨sections, -, rfl⟩ := Layout.encode_eq_ok_iff.mp hassembles.encoded
    rfl
  refine ⟨lines, layout, p, hassembles.read, hassembles.placed, ?_, hassembles.nodup_cells, ?_⟩
  · rw [Program.ofArtifact_artifact, if_pos hversion]
  · intro memorySize bus m hload
    refine ⟨?_, hassembles.holds_of_load hload⟩
    obtain ⟨-, rfl⟩ := Machine.load_eq_ok hload
    simp [Machine.memorySize, Machine.reset]

theorem Scattered.validate_program : program.validate 6 = .ok () :=
  Program.validate_eq_ok_iff.mpr ⟨by decide, by decide⟩

/-- Six words of memory hold the source with its blocks out of order. -/
theorem image_of_scattered :
    assemble Scattered.source = .ok Scattered.program ∧
      ∃ q m, Program.ofArtifact Scattered.program.artifact.toUTF8 = .ok q ∧
        (Machine.reset 6 {}).load q = .ok m ∧ m.Holds Scattered.lines Scattered.layout := by
  have h : assemble Scattered.source = .ok Scattered.program :=
    assemble_eq_ok_iff.mpr ⟨_, _, Scattered.assembles⟩
  obtain ⟨lines, layout, q, hread, hplaced, hq, -, hload⟩ := image_of_assemble h
  cases Scattered.assembles.read.symm.trans hread
  cases Scattered.assembles.placed.symm.trans hplaced
  have hprogram : Program.ofArtifact Scattered.program.artifact.toUTF8 = .ok Scattered.program :=
    Program.ofArtifact_artifact _
  cases hprogram.symm.trans hq
  have hloads : (Machine.reset 6 {}).load Scattered.program =
      .ok { Machine.reset 6 {} with
        memory := Machine.writeCells (Machine.reset 6 {}).memory Scattered.program.cells } := by
    have hvalid : Scattered.program.validate (Machine.reset 6 {}).memorySize = .ok () :=
      Scattered.validate_program
    rw [Machine.load_eq, hvalid]
  exact ⟨h, _, _, hq, hloads, (hload 6 {} _ hloads).2⟩

end Accumulator
