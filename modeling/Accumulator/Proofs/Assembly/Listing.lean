import Accumulator.Proofs.Assembly.References
import Accumulator.Proofs.Assembly.RowText

/-!
# A listing shows the program

The listing of a source places and encodes its lines once more. It agrees with the program that is
encoded from the layout.

* `Layout.outline` — the rows of a line: one for each of its cells, or one without a cell.
* `Layout.listed` — the cells that the rows of a line show.
* `words_eq` — a placed line lists what encoding gives it in any larger label table, but for the words
  that refer to a lacking label.
* `listing_shows_program` — the rows of a listing, and the cells that can be read off them.
-/

namespace Accumulator

/-- A cell as a listing shows it: without its word if the label it refers to is not defined. -/
def SymbolTable.shows (labels : SymbolTable) (reference : Option String) (cell : Nat × Word) :
    Nat × Option Word :=
  (cell.1, if labels.lacks reference then none else some cell.2)

/-- Where no label is missing, a listing shows the cells as they are. -/
theorem SymbolTable.zipWith_shows {labels : SymbolTable} {references : List (Option String)}
    {cells : List (Nat × Word)}
    (hdefined : ∀ reference ∈ references, labels.lacks reference = false)
    (hlength : references.length = cells.length) :
    List.zipWith labels.shows references cells = cells.map fun cell => (cell.1, some cell.2) := by
  induction references generalizing cells with
  | nil =>
    cases cells with
    | nil => rfl
    | cons cell cells => cases hlength
  | cons reference references ih =>
    cases cells with
    | nil => cases hlength
    | cons cell cells =>
      rw [List.forall_mem_cons] at hdefined
      rw [List.zipWith_cons_cons, List.map_cons, ih hdefined.2 (Nat.succ.inj hlength), shows,
        hdefined.1, if_neg Bool.false_ne_true]

theorem length_flatMap_congr {α β γ : Type} {f : α → List β} {g : α → List γ} {xs : List α}
    (h : ∀ x ∈ xs, (f x).length = (g x).length) :
    (xs.flatMap f).length = (xs.flatMap g).length := by
  rw [List.length_flatMap, List.length_flatMap, List.map_congr_left h]

theorem zipWith_flatMap {α β γ δ : Type} (combine : β → γ → δ) {f : α → List β} {g : α → List γ}
    {xs : List α} (h : ∀ x ∈ xs, (f x).length = (g x).length) :
    List.zipWith combine (xs.flatMap f) (xs.flatMap g) =
      xs.flatMap fun x => List.zipWith combine (f x) (g x) := by
  induction xs with
  | nil => rfl
  | cons x xs ih =>
    simp only [List.flatMap_cons]
    rw [List.zipWith_append (h x List.mem_cons_self),
      ih fun other hother => h other (List.mem_cons_of_mem x hother)]

namespace Layout

/-- The rows of a line: what each shows of the line, and whether it shows a cell. The line itself, its
number and its source, stands in the first row alone. -/
def outline (layout : Layout) (line : Line) (raw : List Char) : List (Option (Nat × String) × Bool) :=
  match line.size with
  | 0 => [(some (line.number, layout.sourceText line raw), false)]
  | count + 1 =>
    (some (line.number, layout.sourceText line raw), true) :: List.replicate count (none, true)

/-- The cells that the rows of a line show. -/
def listed (layout : Layout) (line : Line) : List (Nat × Option Word) :=
  ((layout.words line).zipIdx (((layout.addressOf? line.number).map (·.toNat)).getD 0)).map
    fun (word, cell) => (cell, word)

variable {source : String} {lines : List Line} {layout : Layout}

/-! ## The rows of one line -/

theorem filterMap_lineRows (layout : Layout) (line : Line) (raw : List Char) :
    (layout.lineRows line raw).filterMap Row.cell? = layout.listed line := by
  unfold lineRows listed
  cases layout.words line with
  | nil => rfl
  | cons word rest =>
    simp only [List.filterMap_cons, Row.cell?, List.filterMap_map, List.zipIdx_cons, List.map_cons]
    rw [← List.filterMap_eq_map]
    rfl

theorem outline_lineRows {line : Line} (h : (layout.words line).length = line.size)
    (raw : List Char) : (layout.lineRows line raw).map (fun row => (row.source?, row.cell?.isSome)) =
      layout.outline line raw := by
  unfold lineRows outline
  rw [← h]
  cases layout.words line with
  | nil => rfl
  | cons word rest =>
    simp only [List.map_cons, List.map_map, List.length_cons, List.cons.injEq]
    refine ⟨rfl, ?_⟩
    calc (rest.zipIdx _).map _ = (rest.zipIdx _).map (fun _ => (none, true)) := rfl
      _ = List.replicate rest.length (none, true) := by rw [List.map_const', List.length_zipIdx]

theorem words_of_not_occupies (layout : Layout) {line : Line} (h : line.occupies = false) :
    layout.words line = [] := by
  unfold words
  obtain hstatement | ⟨address, hstatement⟩ := Line.statement_of_not_occupies h
  · rw [hstatement]
  · rw [hstatement]

theorem listed_of_not_occupies (layout : Layout) (line : Line) (h : line.occupies = false) :
    layout.listed line = [] := by
  rw [listed, words_of_not_occupies layout h]
  rfl

/-! ## The words of a placed line -/

/-- **A placed line lists what encoding gives it in any larger label table**, but for the words that refer
to a lacking label. -/
theorem words_eq {labels' : SymbolTable} {q : Placed} {items : List Item}
    (haddress : layout.addressOf? q.line.number = some q.address)
    (hkeeps : ∀ name address, layout.labels.address? name = some address →
      labels'.address? name = some address) (hitems : q.resolve labels' = .ok items) :
    layout.words q.line = List.zipWith
      (fun reference item => if layout.labels.lacks reference then none else some item.word)
      q.line.references items := by
  unfold Placed.resolve at hitems
  unfold words Line.references
  rw [haddress]
  cases hstatement : q.line.statement with
  | none => rfl
  | some statement =>
    rw [hstatement] at hitems
    have hresolve := Except.mapError_eq_ok.mp hitems
    cases statement with
    | origin address => rfl
    | words words =>
      have hwords := mapM_eq_ok_iff.mp hresolve
      -- The induction is over the words alone: a word resolves in the same way wherever it stands.
      clear hitems hresolve hstatement
      simp only [Statement.references]
      induction words generalizing items with
      | nil => rfl
      | cons word words ih =>
        cases items with
        | nil => cases hwords
        | cons item items =>
          rw [List.map_cons, List.map_cons, List.cons.injEq] at hwords
          obtain ⟨value, hvalue, rfl⟩ := Except.map_eq_ok.mp hwords.1
          rw [List.map_cons, List.map_cons, List.zipWith_cons_cons, ih hwords.2,
            word.refersTo.toOption_eq hkeeps hvalue]
          rfl
    | instruction code =>
      obtain ⟨i, hi, rfl⟩ := Statement.resolve_instruction_eq_ok_iff.mp hresolve
      simp only [Statement.references, List.zipWith_cons_cons, List.zipWith_nil_left]
      rw [(code.refersTo q.address).toOption_eq hkeeps hi]
      split <;> rfl

theorem zipIdx_zipWith (labels : SymbolTable) (start : Nat) (references : List (Option String))
    (items : List Item) :
    ((List.zipWith (fun reference item => if labels.lacks reference then none else some item.word)
        references items).zipIdx start).map (fun (word, cell) => (cell, word)) =
      List.zipWith labels.shows references (cellsFrom start items) := by
  unfold cellsFrom
  induction references generalizing start items with
  | nil => rfl
  | cons reference references ih =>
    cases items with
    | nil => rfl
    | cons item items =>
      simp only [List.zipWith_cons_cons, List.zipIdx_cons, List.map_cons, ih]
      rfl

theorem listed_eq {labels' : SymbolTable} {q : Placed} {items : List Item}
    (haddress : layout.addressOf? q.line.number = some q.address)
    (hkeeps : ∀ name address, layout.labels.address? name = some address →
      labels'.address? name = some address) (hitems : q.resolve labels' = .ok items) :
    layout.listed q.line =
      List.zipWith layout.labels.shows q.line.references (q.cells labels') := by
  have hresolved : q.items labels' = items := by rw [Placed.items, hitems]
  rw [listed, words_eq haddress hkeeps hitems, haddress, Placed.cells, hresolved]
  exact zipIdx_zipWith layout.labels q.address.toNat q.line.references items

/-! ## The listing of a source -/

theorem flatMap_zip_lines {α : Type} (hread : Line.readAll source = .ok lines)
    (f : Line → List α) : (lines.zip (Text.lines source.toList)).flatMap (fun entry => f entry.1) =
      lines.flatMap f := by
  have hlength : lines.length ≤ (Text.lines source.toList).length :=
    Nat.le_of_eq (Line.length_readAll hread)
  rw [← List.map_fst_zip hlength, List.flatMap_map, List.map_fst_zip hlength]

theorem filterMap_listing (hread : Line.readAll source = .ok lines) :
    (layout.listing source lines).filterMap Row.readCell? = lines.flatMap layout.listed := by
  rw [listing, List.filterMap_map, show Row.readCell? ∘ Row.text = Row.cell? from
    funext Row.readCell?_text, rows, List.filterMap_flatMap, ← flatMap_zip_lines hread]
  exact List.flatMap_congr fun entry _ => layout.filterMap_lineRows entry.1 entry.2

variable (hread : Line.readAll source = .ok lines) (hbuild : build lines = .ok layout)

include hread hbuild

/-- Every line lists one word for each of its cells. -/
theorem length_words {line : Line} (hline : line ∈ lines) :
    (layout.words line).length = line.size := by
  have hlines := Line.readAll_wellFormed hread
  cases hoccupies : line.occupies with
  | false =>
    rw [words_of_not_occupies layout hoccupies, ← line.length_references,
      line.references_of_not_occupies hoccupies]
    rfl
  | true =>
    obtain ⟨address, hplaced⟩ := exists_placed hbuild hlines hline hoccupies
    have haddress : layout.addressOf? line.number = some address :=
      addressOf?_of_placed hread hbuild hplaced
    unfold words Line.size
    rw [haddress]
    cases line.statement with
    | none => rfl
    | some statement =>
      cases statement with
      | origin address => rfl
      | words items => exact List.length_map _
      | instruction code => rfl

theorem outline_listing :
    (layout.listing source lines).map (fun row => (Row.readSource? row, (Row.readCell? row).isSome)) =
      (lines.zip (Text.lines source.toList)).flatMap fun (line, raw) => layout.outline line raw := by
  have hrow : (fun row => (Row.readSource? row, (Row.readCell? row).isSome)) ∘ Row.text =
      fun row => (row.source?, row.cell?.isSome) := by
    funext row
    rw [Function.comp_apply, Row.readSource?_text, Row.readCell?_text]
  rw [listing, List.map_map, hrow, rows, List.map_flatMap]
  refine List.flatMap_congr fun entry hentry => ?_
  exact outline_lineRows (length_words hread hbuild (List.of_mem_zip hentry).1) entry.2

/-- The cells of the program that a layout is encoded to, with whatever label table. -/
theorem cells_encode_with {labels : SymbolTable} {p : Program}
    (h : { layout with labels }.encode = .ok p) :
    p.cells = layout.placed.flatMap (Placed.cells labels) := by
  have hcontiguous : ∀ block ∈ layout.blocks,
      Placed.Contiguous block.start.toNat block.lines := fun _ hblock =>
    contiguous_of_block hbuild (Line.readAll_wellFormed hread) hblock
  have hcells := cells_encode h hcontiguous
  exact hcells

theorem references_placed :
    lines.flatMap Line.references = layout.placed.flatMap (·.line.references) :=
  flatMap_placed hbuild (Line.readAll_wellFormed hread) Line.references_of_not_occupies

/-- The numbers that the rows show are those of the lines, each once. -/
theorem numbers_listing : ((layout.listing source lines).filterMap Row.readSource?).map Prod.fst =
    List.range' 1 (Text.lines source.toList).length := by
  have houtline (line : Line) (raw : List Char) :
      ((layout.outline line raw).filterMap Prod.fst).map Prod.fst = [line.number] := by
    unfold outline
    cases line.size with
    | zero => rfl
    | succ count =>
      have hrest : (List.replicate count ((none, true) : Option (Nat × String) × Bool)).filterMap
          Prod.fst = [] := by
        rw [List.filterMap_eq_nil_iff]
        intro row hrow
        rw [List.eq_of_mem_replicate hrow]
      simp only [List.filterMap_cons, hrest, List.map_cons, List.map_nil]
  have hrows := congrArg (fun rows => (rows.filterMap Prod.fst).map Prod.fst)
    (outline_listing hread hbuild)
  simp only [List.filterMap_map, List.filterMap_flatMap, List.map_flatMap, houtline] at hrows
  calc ((layout.listing source lines).filterMap Row.readSource?).map Prod.fst
      = (lines.zip (Text.lines source.toList)).flatMap fun entry => [entry.1.number] := hrows
    _ = lines.map (·.number) := by
        rw [flatMap_zip_lines hread fun line => [line.number], List.map_eq_flatMap]
    _ = List.range' 1 (Text.lines source.toList).length := by
        rw [Line.number_readAll hread, Line.length_readAll hread]

/-- **The cells of a listing against those of a larger label table.** With the larger table the layout is
encoded, and the listing shows each cell of that program, but for the words that refer to a lacking
label. -/
theorem listing_of_supplement {labels' : SymbolTable}
    (hlabels : labels'.Supplements layout.labels lines) :
    ∃ p, { layout with labels := labels' }.encode = .ok p ∧
      (lines.flatMap Line.references).length = p.cells.length ∧
      (layout.listing source lines).filterMap Row.readCell? =
        List.zipWith layout.labels.shows (lines.flatMap Line.references) p.cells := by
  have hlines := Line.readAll_wellFormed hread
  obtain ⟨p, hencode⟩ := (exists_encode_iff hbuild hlines labels').mpr hlabels.defines
  have hitems : ∀ q ∈ layout.placed, ∃ items, q.resolve labels' = .ok items := by
    intro q hq
    refine q.exists_resolve_iff.mpr fun reference hreference => hlabels.defines reference ?_
    exact List.mem_flatMap.mpr ⟨q.line, (mem_of_placed hbuild hlines hq).1, hreference⟩
  have hlength : ∀ q ∈ layout.placed, q.line.references.length = (q.cells labels').length := by
    intro q hq
    obtain ⟨items, hresolve⟩ := hitems q hq
    have hresolved : q.items labels' = items := by rw [Placed.items, hresolve]
    rw [Line.length_references, Placed.cells, hresolved, ← Placed.length_of_resolve hresolve,
      cellsFrom, List.length_map, List.length_zipIdx]
  refine ⟨p, hencode, ?_, ?_⟩
  · rw [references_placed hread hbuild, cells_encode_with hread hbuild hencode]
    exact length_flatMap_congr hlength
  · rw [filterMap_listing hread, flatMap_placed hbuild hlines layout.listed_of_not_occupies,
      references_placed hread hbuild, cells_encode_with hread hbuild hencode,
      zipWith_flatMap _ hlength]
    refine List.flatMap_congr fun q hq => ?_
    obtain ⟨items, hresolve⟩ := hitems q hq
    exact listed_eq (addressOf?_of_placed hread hbuild hq) hlabels.keeps hresolve

/-- **A listing shows the program that is emitted.** Let a source be read and laid out. The rows of its
listing show every line of the source once, in order: a line has one row for each of its cells, or one
without a cell, and the first of them shows the number of the line and its source. If the layout is
encoded, the addresses and words that the rows show are the cells of the program. In any case there is
a larger label table that binds what the lines refer to; with every such table the layout is encoded,
and each row with a cell shows the address and the word of that cell in the program, or the mark for a
missing word exactly if its label is not defined. -/
theorem listing_shows_program :
    ((layout.listing source lines).filterMap Row.readSource?).map Prod.fst =
        List.range' 1 (Text.lines source.toList).length ∧
      (layout.listing source lines).map
          (fun row => (Row.readSource? row, (Row.readCell? row).isSome)) =
        (lines.zip (Text.lines source.toList)).flatMap
          (fun (line, raw) => layout.outline line raw) ∧
      (∀ p, layout.encode = .ok p →
        (layout.listing source lines).filterMap Row.readCell? =
          p.cells.map fun cell => (cell.1, some cell.2)) ∧
      (∃ labels' : SymbolTable, labels'.Supplements layout.labels lines) ∧
      ∀ labels' : SymbolTable, labels'.Supplements layout.labels lines →
        ∃ p, { layout with labels := labels' }.encode = .ok p ∧
          (lines.flatMap Line.references).length = p.cells.length ∧
          (layout.listing source lines).filterMap Row.readCell? =
            List.zipWith layout.labels.shows (lines.flatMap Line.references) p.cells := by
  refine ⟨numbers_listing hread hbuild, outline_listing hread hbuild, fun p hencode => ?_,
    layout.labels.exists_supplement lines, fun _ => listing_of_supplement hread hbuild⟩
  have hdefined : ∀ reference ∈ lines.flatMap Line.references,
      layout.labels.lacks reference = false :=
    (exists_encode_iff hbuild (Line.readAll_wellFormed hread) layout.labels).mp ⟨p, hencode⟩
  obtain ⟨p', hencode', hlength, hlisting⟩ :=
    listing_of_supplement hread hbuild ⟨fun _ _ hbound => hbound, hdefined⟩
  have hsame : layout.encode = .ok p' := hencode'
  cases hencode.symm.trans hsame
  rw [hlisting, SymbolTable.zipWith_shows hdefined hlength]

end Layout

/-! ## A source with a label that is not defined -/

namespace Unfinished

/-- A source that refers to a label that it defines and to one that it does not. -/
def source : String := "START: LOADI 5\n; note\nWORD 1, START, END\n"

/-- A load. -/
def entry : Line := ⟨1, ["START"], some (.instruction ⟨.load, .immediate (.literal 5)⟩)⟩

/-- A number and two pointers. -/
def table : Line := ⟨3, [], some (.words [.literal 1, .label "START", .label "END"])⟩

def lines : List Line := [entry, ⟨2, [], none⟩, table]

def layout : Layout where
  labels := ⟨[("START", ⟨1, 0⟩)]⟩
  blocks := [⟨0, [⟨0, entry⟩, ⟨1, table⟩]⟩]

/-- The labels with the one that is missing. -/
def finished : SymbolTable := ⟨[("START", ⟨1, 0⟩), ("END", ⟨4, 7⟩)]⟩

theorem build_lines : Layout.build lines = .ok layout := by
  simp [Layout.build, Walk.ofLines, Walk.step, Walk.bindPending, Walk.bindLabel, Walk.place,
    Walk.occupy, Walk.allBlocks, Line.size, Statement.size, addressSpace, Address.ofNat?,
    SymbolTable.define, SymbolTable.find?, lines, layout, entry, table]

theorem supplements_finished : finished.Supplements layout.labels lines where
  keeps name address hbound := by
    simp only [SymbolTable.address?, SymbolTable.find?, layout, finished, List.lookup_cons,
      List.lookup_nil] at hbound ⊢
    cases hname : name == "START" with
    | true => simpa [hname] using hbound
    | false => simp [hname] at hbound
  defines := by decide

theorem listing_shows_program_of_unfinished :
    Line.readAll source = .ok lines ∧ Layout.build lines = .ok layout ∧
      (layout.listing source lines).map
          (fun row => (Row.readSource? row, (Row.readCell? row).isSome)) =
        [(some (1, "\x1b[32mSTART:\x1b[39m \x1b[31mLOAD  \x1b[39m#\x1b[33m0x0005\x1b[39m"), true),
          (some (2, "; note"), false), (some (3, "WORD 1, START, END"), true), (none, true),
          (none, true)] ∧
      (layout.listing source lines).filterMap Row.readCell? =
        [(0, some 0x03010005), (1, some 1), (2, some 0), (3, none)] := by
  have hread : Line.readAll source = .ok lines := rfl
  obtain ⟨-, houtline, -, -, hcells⟩ := Layout.listing_shows_program hread build_lines
  obtain ⟨p, hencode, -, hlisting⟩ := hcells finished supplements_finished
  cases hencode
  exact ⟨hread, build_lines, houtline, hlisting⟩

end Unfinished

end Accumulator
