import Accumulator.Proofs.Assembly.Addresses
import Accumulator.Proofs.Program.Cells

/-!
# The cells of an assembled program

* `Assembles` — a source with what each stage makes of it.
* `cells_encode` — the cells of the program are the cells of the placed lines, in order: laying the
  lines of a block end to end puts each at the address it was placed at.
* `mem_cells_iff`, `nodup_cells` — a cell of the program belongs to one item of one line.
-/

namespace Accumulator

/-- A source, its lines, their layout and the program. -/
structure Assembles (source : String) (lines : List Line) (layout : Layout) (p : Program) : Prop where
  read : Line.readAll source = .ok lines
  placed : Layout.build lines = .ok layout
  encoded : layout.encode = .ok p

theorem assemble_eq_ok_iff {source : String} {p : Program} :
    assemble source = .ok p ↔ ∃ lines layout, Assembles source lines layout p := by
  unfold assemble
  constructor
  · intro h
    obtain ⟨lines, hread, h⟩ := Except.bind_eq_ok.mp h
    obtain ⟨layout, hplaced, h⟩ := Except.bind_eq_ok.mp h
    exact ⟨lines, layout, hread, hplaced, h⟩
  · rintro ⟨lines, layout, hread, hplaced, hencoded⟩
    exact Except.bind_eq_ok.mpr ⟨lines, hread, Except.bind_eq_ok.mpr ⟨layout, hplaced, hencoded⟩⟩

/-! ## Cells of placed lines -/

namespace Statement

/-- Each word of a row gives the item in its place. -/
theorem getElem?_of_resolve_words {labels : SymbolTable} {address : Address}
    {words : List Immediate} {items : List Item}
    (h : (Statement.words words).resolve labels address = .ok items) {k : Nat} {word : Immediate}
    (hword : words[k]? = some word) :
    ∃ value, word.resolve labels = .ok value ∧ items[k]? = some (.data value) := by
  have hitem := congrArg (·[k]?) (mapM_eq_ok_iff.mp h)
  simp only [List.getElem?_map, hword, Option.map_some] at hitem
  obtain ⟨item, hitems, hok⟩ := Option.map_eq_some_iff.mp hitem.symm
  obtain ⟨value, hvalue, rfl⟩ := Except.map_eq_ok.mp hok.symm
  exact ⟨value, hvalue, hitems⟩

theorem resolve_instruction_eq_ok_iff {labels : SymbolTable} {address : Address} {code : Code}
    {items : List Item} :
    (Statement.instruction code).resolve labels address = .ok items ↔
      ∃ i, code.resolve labels address = .ok i ∧ items = [.command i] := by
  rw [resolve, Except.map_eq_ok]
  simp [eq_comm]

/-- A statement resolves to one item for each of its cells. -/
theorem length_of_resolve {statement : Statement} {labels : SymbolTable} {address : Address}
    {items : List Item} (h : statement.resolve labels address = .ok items) :
    items.length = statement.size := by
  cases statement with
  | origin address =>
    cases h
    rfl
  | words words =>
    have hlength := congrArg List.length (mapM_eq_ok_iff.mp h)
    rw [List.length_map, List.length_map] at hlength
    exact hlength.symm
  | instruction code =>
    obtain ⟨i, -, rfl⟩ := resolve_instruction_eq_ok_iff.mp h
    rfl

end Statement

namespace Placed

/-- The items of a placed line, or none if it uses a label that is not defined. -/
def items (labels : SymbolTable) (p : Placed) : List Item :=
  match p.resolve labels with
  | .ok items => items
  | .error _ => []

/-- The cells of a placed line. -/
def cells (labels : SymbolTable) (p : Placed) : List (Nat × Word) :=
  cellsFrom p.address.toNat (p.items labels)

theorem length_of_resolve {p : Placed} {labels : SymbolTable} {items : List Item}
    (h : p.resolve labels = .ok items) : items.length = p.line.size := by
  unfold resolve at h
  unfold Line.size
  split at h
  · next hstatement =>
    cases h
    rw [hstatement]
    rfl
  · next statement hstatement =>
    rw [hstatement]
    exact Statement.length_of_resolve (Except.mapError_eq_ok.mp h)

/-- Lines that stand end to end give their cells at the addresses they were placed at. -/
theorem cellsFrom_flatten {labels : SymbolTable} {cursor : Nat} {placed : List Placed}
    {rows : List (List Item)} (hcontiguous : Contiguous cursor placed)
    (h : placed.map (resolve labels) = rows.map .ok) :
    cellsFrom cursor rows.flatten = placed.flatMap (cells labels) := by
  induction placed generalizing cursor rows with
  | nil =>
    cases rows with
    | nil => rfl
    | cons items rows => cases h
  | cons p placed ih =>
    cases rows with
    | nil => cases h
    | cons items rows =>
      rw [List.map_cons, List.map_cons, List.cons.injEq] at h
      obtain ⟨hp, hplaced⟩ := h
      obtain ⟨hcursor, hcontiguous⟩ := hcontiguous
      have hitems : p.items labels = items := by rw [Placed.items, hp]
      rw [List.flatten_cons, cellsFrom_append, length_of_resolve hp, ih hcontiguous hplaced,
        List.flatMap_cons, cells, hitems, hcursor]

end Placed

/-! ## Cells of the program -/

theorem Block.resolve_eq_ok_iff {labels : SymbolTable} {block : Block} {s : Section} :
    block.resolve labels = .ok s ↔
      ∃ rows : List (List Item), block.lines.map (Placed.resolve labels) = rows.map .ok ∧
        s = ⟨block.start, rows.flatten⟩ := by
  rw [Block.resolve, Except.map_eq_ok]
  simp only [collect_eq_ok_iff, @eq_comm _ _ s]

theorem Block.flatMap_cells {labels : SymbolTable} {blocks : List Block} {sections : List Section}
    (hcontiguous : ∀ block ∈ blocks, Placed.Contiguous block.start.toNat block.lines)
    (h : blocks.map (resolve labels) = sections.map .ok) :
    sections.flatMap Section.cells =
      (blocks.flatMap (·.lines)).flatMap (Placed.cells labels) := by
  induction blocks generalizing sections with
  | nil =>
    cases sections with
    | nil => rfl
    | cons s sections => cases h
  | cons block blocks ih =>
    cases sections with
    | nil => cases h
    | cons s sections =>
      rw [List.map_cons, List.map_cons, List.cons.injEq] at h
      obtain ⟨rows, hrows, rfl⟩ := resolve_eq_ok_iff.mp h.1
      rw [List.flatMap_cons, List.flatMap_cons, List.flatMap_append, Section.cells_eq,
        Placed.cellsFrom_flatten (hcontiguous block List.mem_cons_self) hrows,
        ih (fun other hother => hcontiguous other (List.mem_cons_of_mem block hother)) h.2]

theorem Layout.encode_eq_ok_iff {layout : Layout} {p : Program} :
    layout.encode = .ok p ↔
      ∃ sections, layout.blocks.map (Block.resolve layout.labels) = sections.map .ok ∧
        p = .ofSections sections := by
  unfold encode
  simp only [← collect_eq_ok_iff]
  cases collect (layout.blocks.map (Block.resolve layout.labels)) with
  | ok sections => simp [eq_comm]
  | error errors => simp

theorem Layout.cells_encode {layout : Layout} {p : Program} (h : layout.encode = .ok p)
    (hcontiguous : ∀ block ∈ layout.blocks, Placed.Contiguous block.start.toNat block.lines) :
    p.cells = layout.placed.flatMap (Placed.cells layout.labels) := by
  obtain ⟨sections, hsections, rfl⟩ := encode_eq_ok_iff.mp h
  exact Block.flatMap_cells hcontiguous hsections

namespace Assembles

variable {source : String} {lines : List Line} {layout : Layout} {p : Program}

theorem wellFormed (h : Assembles source lines layout p) : ∀ line ∈ lines, line.WellFormed :=
  Line.readAll_wellFormed h.read

/-- The placed lines carry the cells of the program, in order. -/
theorem cells_eq (h : Assembles source lines layout p) :
    p.cells = layout.placed.flatMap (Placed.cells layout.labels) :=
  Layout.cells_encode h.encoded fun _ hblock =>
    Layout.contiguous_of_block h.placed h.wellFormed hblock

theorem resolve_of_placed (h : Assembles source lines layout p) {q : Placed}
    (hq : q ∈ layout.placed) : q.resolve layout.labels = .ok (q.items layout.labels) := by
  obtain ⟨sections, hsections, -⟩ := Layout.encode_eq_ok_iff.mp h.encoded
  obtain ⟨block, hblock, hline⟩ := List.mem_flatMap.mp hq
  have hmem := List.mem_map_of_mem (f := Block.resolve layout.labels) hblock
  rw [hsections] at hmem
  obtain ⟨s, -, hs⟩ := List.mem_map.mp hmem
  obtain ⟨rows, hrows, -⟩ := Block.resolve_eq_ok_iff.mp hs.symm
  have hitems := List.mem_map_of_mem (f := Placed.resolve layout.labels) hline
  rw [hrows] at hitems
  obtain ⟨items, -, hok⟩ := List.mem_map.mp hitems
  rw [Placed.items, ← hok]

/-- The address found for a placed line is the one it was placed at. -/
theorem addressOf?_of_placed (h : Assembles source lines layout p) {q : Placed}
    (hq : q ∈ layout.placed) : layout.addressOf? q.line.number = some q.address :=
  Layout.addressOf?_of_placed h.read h.placed hq

/-- Every line that takes cells was placed. -/
theorem exists_address (h : Assembles source lines layout p) {line : Line} (hline : line ∈ lines)
    (hoccupies : line.occupies = true) :
    ∃ address, layout.addressOf? line.number = some address ∧
      (⟨address, line⟩ : Placed) ∈ layout.placed := by
  obtain ⟨address, hmem⟩ := Layout.exists_placed h.placed h.wellFormed hline hoccupies
  exact ⟨address, h.addressOf?_of_placed hmem, hmem⟩

theorem mem_cells_iff (h : Assembles source lines layout p) {cell : Nat × Word} :
    cell ∈ p.cells ↔ ∃ q ∈ layout.placed, ∃ k item, (q.items layout.labels)[k]? = some item ∧
      cell = (q.address.toNat + k, item.word) := by
  simp only [h.cells_eq, List.mem_flatMap, Placed.cells, mem_cellsFrom_iff]

/-- A code line has its instruction, resolved where it was placed, for its only cell. -/
theorem exists_instruction (h : Assembles source lines layout p) {line : Line} (hline : line ∈ lines)
    {code : Code} (hcode : line.statement = some (.instruction code)) :
    ∃ address i, layout.addressOf? line.number = some address ∧
      code.resolve layout.labels address = .ok i ∧ (address.toNat, i.encode) ∈ p.cells := by
  obtain ⟨address, hfound, hmem⟩ := h.exists_address hline (by rw [Line.occupies, hcode])
  have hitems := h.resolve_of_placed hmem
  simp only [Placed.resolve, hcode] at hitems
  obtain ⟨i, hi, hcommand⟩ := Statement.resolve_instruction_eq_ok_iff.mp
    (Except.mapError_eq_ok.mp hitems)
  have hitem : (Placed.items layout.labels ⟨address, line⟩)[0]? = some (.command i) := by
    rw [hcommand]
    rfl
  exact ⟨address, i, hfound, hi, h.mem_cells_iff.mpr ⟨_, hmem, 0, .command i, hitem, rfl⟩⟩

/-- A row of words has the word of each item in the cell of its place. -/
theorem exists_words (h : Assembles source lines layout p) {line : Line} (hline : line ∈ lines)
    {items : List Immediate} (hwords : line.statement = some (.words items)) :
    ∃ address, layout.addressOf? line.number = some address ∧
      ∀ k item, items[k]? = some item →
        ∃ word, item.resolve layout.labels = .ok word ∧ (address.toNat + k, word) ∈ p.cells := by
  obtain ⟨address, hfound, hmem⟩ := h.exists_address hline (by rw [Line.occupies, hwords])
  have hitems := h.resolve_of_placed hmem
  simp only [Placed.resolve, hwords] at hitems
  refine ⟨address, hfound, fun k item hitem => ?_⟩
  obtain ⟨word, hword, hdata⟩ := Statement.getElem?_of_resolve_words
    (Except.mapError_eq_ok.mp hitems) hitem
  exact ⟨word, hword, h.mem_cells_iff.mpr ⟨_, hmem, k, .data word, hdata, rfl⟩⟩

theorem covers_of_mem_cells (h : Assembles source lines layout p) {cell : Nat × Word}
    (hcell : cell ∈ p.cells) : ∃ q ∈ layout.placed, q.Covers cell.1 := by
  obtain ⟨q, hq, k, item, hitem, rfl⟩ := h.mem_cells_iff.mp hcell
  have hlength := Placed.length_of_resolve (h.resolve_of_placed hq)
  obtain ⟨hk, -⟩ := List.getElem?_eq_some_iff.mp hitem
  exact ⟨q, hq, Nat.le_add_right _ _, by show _ + k < _; omega⟩

/-- **No cell is written twice.** -/
theorem nodup_cells (h : Assembles source lines layout p) : (p.cells.map Prod.fst).Nodup := by
  rw [h.cells_eq, List.map_flatMap, List.nodup_flatMap]
  constructor
  · intro q _
    rw [Placed.cells, map_fst_cellsFrom]
    exact List.nodup_range'
  · refine (Layout.disjoint_placed h.placed h.wellFormed).imp_of_mem fun hq hr hdisjoint => ?_
    intro cell hcell hcell'
    simp only [Placed.cells, map_fst_cellsFrom, List.mem_range'_1] at hcell hcell'
    rw [Placed.length_of_resolve (h.resolve_of_placed hq)] at hcell
    rw [Placed.length_of_resolve (h.resolve_of_placed hr)] at hcell'
    exact hdisjoint cell hcell hcell'

end Assembles

/-! ## A source with its blocks out of order -/

namespace Scattered

/-- A source with targets ahead, behind and across the end of the address space. -/
def source : String :=
  "JUMP LAST\nORG 4\nLAST: LOAD (TABLE)\nJUMP 0\nORG 2\nTABLE: WORD 7, LAST\n"

/-- A jump ahead. -/
def entry : Line := ⟨1, [], some (.instruction ⟨.jump, .address .relative (.label "LAST")⟩)⟩

/-- A load through a pointer that lies behind. -/
def last : Line := ⟨3, ["LAST"], some (.instruction ⟨.load, .address .indirect (.label "TABLE")⟩)⟩

/-- A jump to the first cell. -/
def again : Line := ⟨4, [], some (.instruction ⟨.jump, .address .relative (.literal 0)⟩)⟩

/-- A number and a pointer. -/
def table : Line := ⟨6, ["TABLE"], some (.words [.literal 7, .label "LAST"])⟩

def lines : List Line :=
  [entry, ⟨2, [], some (.origin 4)⟩, last, again, ⟨5, [], some (.origin 2)⟩, table]

def layout : Layout where
  labels := ⟨[("TABLE", ⟨6, 2⟩), ("LAST", ⟨3, 4⟩)]⟩
  blocks := [⟨0, [⟨0, entry⟩]⟩, ⟨4, [⟨4, last⟩, ⟨5, again⟩]⟩, ⟨2, [⟨2, table⟩]⟩]

def program : Program :=
  .ofSections
    [⟨0, [.command ⟨.jump, .relative, 3⟩]⟩,
      ⟨4, [.command ⟨.load, .indirect, 0xFFFD⟩, .command ⟨.jump, .relative, 0xFFFA⟩]⟩,
      ⟨2, [.data 7, .data 4]⟩]

theorem assembles : Assembles source lines layout program where
  read := rfl
  placed := by
    simp [Layout.build, Walk.ofLines, Walk.step, Walk.bindPending, Walk.bindLabel, Walk.place,
      Walk.occupy, Walk.allBlocks, Walk.moveTo, Line.size, Statement.size, addressSpace,
      Address.ofNat?, SymbolTable.define, SymbolTable.find?, List.lookup_cons, lines, layout, entry,
      last, again, table]
  encoded := rfl

end Scattered

end Accumulator
