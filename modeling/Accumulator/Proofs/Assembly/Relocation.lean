import Accumulator.Proofs.Assembly.Sections

/-!
# Code that can be moved

Lines without origins can be laid out from any address on. Their cells and labels move along, and an operand that
counts from the next cell stays what it is.

* `Line.cursors_add`, `Line.bindings_add` — where lines without origins are placed, and where their labels are
  bound, counted from the address in front of them.
* `Line.Relocatable` — a line whose relative and indirect operands are labels of the lines, and all of whose
  other operands and words are literals.
* `Placed.resolve_moved` — such a line has the same items wherever it is placed.
* `exists_rows_of_encode` — the program of lines behind one origin, in terms of the rows of its lines.
* `relocated_of_encode` — behind two origins the programs have the same items and differ in the start.
-/

namespace Accumulator

/-! ## Distances from the origin -/

namespace Line

theorem next_add {line : Line} (h : ∀ address, line.statement ≠ some (.origin address)) (base cursor : Nat) :
    line.next (base + cursor) = base + line.next cursor := by
  unfold next
  split
  · next address hstatement => exact absurd hstatement (h address)
  · exact Nat.add_assoc base cursor line.size

variable {lines : List Line}

section

variable (h : ∀ line ∈ lines, ∀ address, line.statement ≠ some (.origin address))

include h

theorem cursors_add (base cursor : Nat) :
    cursors (base + cursor) lines = (cursors cursor lines).map fun p => (base + p.1, p.2) := by
  induction lines generalizing cursor with
  | nil => rfl
  | cons line lines ih =>
    obtain ⟨hline, hlines⟩ := List.forall_mem_cons.mp h
    rw [cursors, cursors, List.map_cons, next_add hline, ih hlines]

theorem anchor_add (base cursor : Nat) : anchor (base + cursor) lines = base + anchor cursor lines := by
  induction lines generalizing cursor with
  | nil => rfl
  | cons line lines ih =>
    obtain ⟨hline, hlines⟩ := List.forall_mem_cons.mp h
    rw [anchor, anchor, next_add hline, ih hlines]
    split <;> rfl

theorem bindings_add (base cursor : Nat) :
    bindings (base + cursor) lines = (bindings cursor lines).map fun p => (p.1, base + p.2) := by
  induction lines generalizing cursor with
  | nil => rfl
  | cons line lines ih =>
    have hline := (List.forall_mem_cons.mp h).1
    have hlines := (List.forall_mem_cons.mp h).2
    rw [bindings, bindings, List.map_append, List.map_map, next_add hline, ih hlines, anchor_add h]
    rfl

theorem runs_of_no_origin (origin : Address) (seen : List Line) :
    runs origin seen lines = [⟨origin, seen ++ lines⟩] := by
  induction lines generalizing seen with
  | nil => rw [runs, List.append_nil]
  | cons line lines ih =>
    obtain ⟨hline, hlines⟩ := List.forall_mem_cons.mp h
    rw [runs_of_not_origin hline, ih hlines, List.append_assoc]
    rfl

end

/-- The lines that take cells, each with its distance from the origin. -/
def offsets (lines : List Line) : List (Nat × Line) := (cursors 0 lines).filter (·.2.occupies)

theorem mem_of_mem_offsets {p : Nat × Line} (h : p ∈ offsets lines) : p.2 ∈ lines := by
  rw [← map_snd_cursors 0 lines]
  exact List.mem_map_of_mem (List.mem_of_mem_filter h)

/-- The line with nothing but an origin. -/
def ofOrigin (number : Nat) (address : Address) : Line := ⟨number, [], some (.origin address)⟩

end Line

/-! ## Lines that can be moved -/

/-- A relative or indirect operand is a label among the names, and any other operand is a literal. -/
inductive Argument.Relocatable (names : List String) : Argument → Prop
  | none : Relocatable names .none
  | port (number : Port) : Relocatable names (.port number)
  | immediate (value : Word) : Relocatable names (.immediate (.literal value))
  | absolute (target : Word) : Relocatable names (.address .absolute (.literal target))
  | relative {name : String} (defined : name ∈ names) : Relocatable names (.address .relative (.label name))
  | indirect {name : String} (defined : name ∈ names) : Relocatable names (.address .indirect (.label name))

/-- The statement is no origin, its words are literals, and its operand can be moved. -/
inductive Statement.Relocatable (names : List String) : Statement → Prop
  | words (values : List Word) : Relocatable names (.words (values.map .literal))
  | instruction {code : Code} (argument : code.argument.Relocatable names) :
      Relocatable names (.instruction code)

/-- The statement of the line can be moved, if it has one. -/
def Line.Relocatable (names : List String) (line : Line) : Prop :=
  ∀ statement, line.statement = some statement → statement.Relocatable names

theorem Line.Relocatable.ne_origin {names : List String} {line : Line} (h : line.Relocatable names)
    (address : Address) : line.statement ≠ some (.origin address) := fun hstatement => by
  cases h _ hstatement

/-- Each name is as far from `base` in one table as it is from `base'` in the other. -/
def SymbolTable.Moved (names : List String) (base base' : Address) (labels labels' : SymbolTable) : Prop :=
  ∀ name ∈ names, ∃ distance, labels.address? name = some (base + distance) ∧
    labels'.address? name = some (base' + distance)

section Moving

variable {names : List String} {base base' : Address} {labels labels' : SymbolTable}

/-- The distance from the next cell does not depend on the base, on whichever side of it the label is and
even where the addresses wrap. -/
theorem distance_moved (base base' distance offset : Address) :
    base + distance - (base + offset + 1) = base' + distance - (base' + offset + 1) := by
  grind

theorem Immediate.resolve_label {name : String} {address : Address}
    (h : labels.address? name = some address) : (Immediate.label name).resolve labels = .ok address.toUInt32 := by
  rw [resolve, h]

theorem Argument.resolve_moved (hlabels : labels.Moved names base base' labels') {argument : Argument}
    (h : argument.Relocatable names) (offset : Address) :
    argument.resolve labels (base + offset) = argument.resolve labels' (base' + offset) := by
  cases h with
  | none | port | immediate | absolute => rfl
  | relative defined | indirect defined =>
    obtain ⟨distance, hfound, hfound'⟩ := hlabels _ defined
    rw [resolve, resolve, Immediate.resolve_label hfound, Immediate.resolve_label hfound', Except.map,
      Except.map]
    rw [UInt16.toUInt16_toUInt32, UInt16.toUInt16_toUInt32, distance_moved base base']

theorem Statement.resolve_moved (hlabels : labels.Moved names base base' labels') {statement : Statement}
    (h : statement.Relocatable names) (offset : Address) :
    statement.resolve labels (base + offset) = statement.resolve labels' (base' + offset) := by
  cases h with
  | words values =>
    rw [resolve, resolve, List.mapM_map, List.mapM_map]
    rfl
  | instruction argument =>
    rw [resolve, resolve, Code.resolve, Code.resolve, Argument.resolve_moved hlabels argument]

/-- **A line that can be moved has the same items wherever it is placed.** -/
theorem Placed.resolve_moved (hlabels : labels.Moved names base base' labels') {line : Line}
    (h : line.Relocatable names) (offset : Address) :
    Placed.resolve labels ⟨base + offset, line⟩ = Placed.resolve labels' ⟨base' + offset, line⟩ := by
  unfold resolve
  dsimp only
  split
  · rfl
  · next statement hstatement => rw [Statement.resolve_moved hlabels (h _ hstatement)]

end Moving

/-! ## Lines behind an origin -/

namespace Layout

section Origin

variable {lines : List Line} {layout : Layout} {number : Nat} {a : Address}
  (hbuild : build (Line.ofOrigin number a :: lines) = .ok layout)
  (hfree : ∀ line ∈ lines, ∀ address, line.statement ≠ some (.origin address))

include hbuild hfree

/-- Each line is placed at its distance from the origin. -/
theorem placed_eq_offsets (hlines : ∀ line ∈ lines, line.WellFormed) :
    layout.placed = (Line.offsets lines).map fun p => ⟨a + UInt16.ofNat p.1, p.2⟩ := by
  have hall : ∀ line ∈ Line.ofOrigin number a :: lines, line.WellFormed :=
    List.forall_mem_cons.mpr ⟨fun statement hstatement => by cases hstatement; trivial, hlines⟩
  have hcursors : Line.cursors a.toNat lines = (Line.cursors 0 lines).map fun p => (a.toNat + p.1, p.2) :=
    Line.cursors_add hfree a.toNat 0
  have hplaced : layout.placed.map (fun q => (q.address.toNat, q.line)) =
      (Line.offsets lines).map fun p => (a.toNat + p.1, p.2) := by
    rw [placed_eq_cursors hbuild hall, Line.cursors, List.filter_cons_of_neg Bool.false_ne_true]
    change (Line.cursors a.toNat lines).filter _ = _
    rw [hcursors, List.filter_map]
    rfl
  have hpairs := congrArg (List.map fun p : Nat × Line => (⟨UInt16.ofNat p.1, p.2⟩ : Placed)) hplaced
  simpa [Function.comp_def, UInt16.ofNat_add] using hpairs

/-- Each label is bound at its distance from the origin. -/
theorem address?_of_origin {label : PendingLabel} {cell : Nat}
    (hlabel : (label, cell) ∈ Line.bindings 0 lines) :
    layout.labels.address? label.name = some (a + UInt16.ofNat cell) := by
  have hmem : (label, a.toNat + cell) ∈ Line.bindings 0 (Line.ofOrigin number a :: lines) := by
    have hbindings := Line.bindings_add hfree a.toNat 0
    change _ ∈ Line.bindings (a.toNat + 0) lines
    rw [hbindings]
    exact List.mem_map_of_mem hlabel
  obtain ⟨address, hfound, hcell⟩ := address?_of_mem_bindings hbuild hmem
  rw [hfound, ← UInt16.ofNat_toNat (x := address), hcell, UInt16.ofNat_add, UInt16.ofNat_toNat]

/-- The lines that take cells are one block, unless there are none. -/
theorem blocks_of_origin :
    layout.blocks = if layout.placed = [] then [] else [⟨a, layout.placed⟩] := by
  -- The run in front of the origin is empty, so the layout leaves it out.
  have hruns : layout.blocks.map Block.run =
      [Run.occupied ⟨a, lines⟩].filter fun run => !run.lines.isEmpty := by
    rw [blocks_of_build hbuild, Line.runs, Line.ofOrigin]
    dsimp only
    rw [Line.runs_of_no_origin hfree]
    rfl
  cases hempty : (Run.occupied ⟨a, lines⟩).lines.isEmpty with
  | true =>
    rw [List.filter_cons_of_neg (by simp [hempty]), List.filter_nil, List.map_eq_nil_iff] at hruns
    rw [if_pos (by rw [placed, hruns]; rfl), hruns]
  | false =>
    rw [List.filter_cons_of_pos (by simp [hempty]), List.filter_nil, List.map_eq_singleton_iff] at hruns
    obtain ⟨⟨start, members⟩, hblocks, hrun⟩ := hruns
    have hplaced : layout.placed = members := by
      rw [placed, hblocks]
      simp
    rw [Block.run, Run.occupied, Run.mk.injEq] at hrun
    obtain ⟨rfl, hmembers⟩ := hrun
    rw [hblocks, hplaced, if_neg]
    rintro rfl
    rw [Run.occupied, ← hmembers] at hempty
    cases hempty

end Origin

section Origins

variable {lines : List Line} {layout layout' : Layout} {number number' : Nat} {a b : Address}

/-- Behind two origins each label is as far from the one as from the other. -/
theorem moved_of_origins (hbuild : build (Line.ofOrigin number a :: lines) = .ok layout)
    (hbuild' : build (Line.ofOrigin number' b :: lines) = .ok layout')
    (hfree : ∀ line ∈ lines, ∀ address, line.statement ≠ some (.origin address)) :
    layout.labels.Moved (lines.flatMap (·.labels)) a b layout'.labels := by
  intro name hname
  rw [← Line.map_name_bindings 0] at hname
  obtain ⟨⟨label, cell⟩, hlabel, rfl⟩ := List.mem_map.mp hname
  exact ⟨UInt16.ofNat cell, address?_of_origin hbuild hfree hlabel, address?_of_origin hbuild' hfree hlabel⟩

/-- Behind two origins lines that can be moved resolve alike. -/
theorem map_resolve_of_origins (hbuild : build (Line.ofOrigin number a :: lines) = .ok layout)
    (hbuild' : build (Line.ofOrigin number' b :: lines) = .ok layout')
    (hwellFormed : ∀ line ∈ lines, line.WellFormed)
    (hlines : ∀ line ∈ lines, line.Relocatable (lines.flatMap (·.labels))) :
    layout.placed.map (Placed.resolve layout.labels) = layout'.placed.map (Placed.resolve layout'.labels) := by
  have hfree := fun line hline => (hlines line hline).ne_origin
  have hmoved := moved_of_origins hbuild hbuild' hfree
  rw [placed_eq_offsets hbuild hfree hwellFormed, placed_eq_offsets hbuild' hfree hwellFormed, List.map_map,
    List.map_map]
  exact List.map_congr_left fun p hp =>
    Placed.resolve_moved hmoved (hlines p.2 (Line.mem_of_mem_offsets hp)) (UInt16.ofNat p.1)

end Origins

/-- **The program of lines behind one origin**: the rows of the placed lines in one section, if there are any. -/
theorem exists_rows_of_encode {layout : Layout} {a : Address} {p : Program}
    (hblocks : layout.blocks = if layout.placed = [] then [] else [⟨a, layout.placed⟩])
    (h : layout.encode = .ok p) :
    ∃ rows : List (List Item), layout.placed.map (Placed.resolve layout.labels) = rows.map .ok ∧
      p = .ofSections (if layout.placed = [] then [] else [⟨a, rows.flatten⟩]) := by
  obtain ⟨sections, hsections, rfl⟩ := encode_eq_ok_iff.mp h
  rw [hblocks] at hsections
  by_cases hempty : layout.placed = []
  · rw [if_pos hempty] at hsections
    refine ⟨[], by rw [hempty]; rfl, ?_⟩
    rw [if_pos hempty, List.map_eq_nil_iff.mp hsections.symm]
  · rw [if_neg hempty] at hsections
    obtain ⟨s, rfl, hs⟩ := List.map_eq_singleton_iff.mp hsections.symm
    obtain ⟨rows, hrows, rfl⟩ := Block.resolve_eq_ok_iff.mp hs.symm
    exact ⟨rows, hrows, by rw [if_neg hempty]⟩

end Layout

/-- The program with each section from the given address on. -/
def Program.startingAt (start : Address) (p : Program) : Program :=
  { p with sections := p.sections.map fun s => { s with start } }

/-- **Code that can be moved is the same from every origin on.** Lines without an origin, whose relative and
indirect operands are labels of their own and whose other operands and words are literals, give the same items
behind two origins if they assemble behind both. The programs differ in the start of their only section. -/
theorem relocated_of_encode {lines : List Line}
    (hparsed : ∀ line ∈ lines, ∃ number text, Line.read number text = .ok line)
    (hlines : ∀ line ∈ lines, line.Relocatable (lines.flatMap (·.labels)))
    {number number' : Nat} {a b : Address} {p q : Program}
    (hp : (Layout.build (Line.ofOrigin number a :: lines) >>= Layout.encode) = .ok p)
    (hq : (Layout.build (Line.ofOrigin number' b :: lines) >>= Layout.encode) = .ok q) :
    q = p.startingAt b ∧ p = q.startingAt a ∧ p.sections.length ≤ 1 := by
  obtain ⟨layout, hbuild, hencode⟩ := Except.bind_eq_ok.mp hp
  obtain ⟨layout', hbuild', hencode'⟩ := Except.bind_eq_ok.mp hq
  have hfree := fun line hline => (hlines line hline).ne_origin
  have hwellFormed : ∀ line ∈ lines, line.WellFormed := fun line hline => by
    obtain ⟨number, text, hread⟩ := hparsed line hline
    exact (Line.read_eq_ok hread).2
  obtain ⟨rows, hrows, rfl⟩ :=
    Layout.exists_rows_of_encode (Layout.blocks_of_origin hbuild hfree) hencode
  obtain ⟨rows', hrows', rfl⟩ :=
    Layout.exists_rows_of_encode (Layout.blocks_of_origin hbuild' hfree) hencode'
  -- What is left are the rows, which the lines give at their distances from either origin.
  have hsame : rows = rows' := by
    have hresolve := Layout.map_resolve_of_origins hbuild hbuild' hwellFormed hlines
    rw [hrows, hrows'] at hresolve
    exact List.map_injective_iff.mpr (fun _ _ => Except.ok.inj) hresolve
  rw [Layout.placed_eq_offsets hbuild hfree hwellFormed, Layout.placed_eq_offsets hbuild' hfree hwellFormed, hsame]
  simp only [List.map_eq_nil_iff]
  by_cases hempty : Line.offsets lines = []
  · simp [hempty, Program.startingAt, Program.ofSections]
  · simp [hempty, Program.startingAt, Program.ofSections]

namespace Movable

def entry : Line := ⟨2, ["BACK"], some (.instruction ⟨.jump, .address .relative (.label "END")⟩)⟩

def row : Line := ⟨3, [], some (.words [.literal 7])⟩

def last : Line := ⟨4, ["END"], some (.instruction ⟨.load, .address .indirect (.label "BACK")⟩)⟩

def layout (start : Address) : Layout where
  labels := ⟨[("END", ⟨4, start + 2⟩), ("BACK", ⟨2, start⟩)]⟩
  blocks := [⟨start, [⟨start, entry⟩, ⟨start + 1, row⟩, ⟨start + 2, last⟩]⟩]

/-- A distance of one cell to a label that comes later, and one of three cells back. -/
def program (start : Address) : Program :=
  .ofSections [⟨start, [.command ⟨.jump, .relative, 1⟩, .data 7, .command ⟨.load, .indirect, 0xFFFD⟩]⟩]

theorem build_first : Layout.build [Line.ofOrigin 1 0, entry, row, last] = .ok (layout 0) := by
  simp [Layout.build, Walk.ofLines, Walk.step, Walk.bindPending, Walk.bindLabel, Walk.place,
    Walk.occupy, Walk.allBlocks, Walk.moveTo, Line.size, Statement.size, addressSpace,
    Address.ofNat?, SymbolTable.define, SymbolTable.find?, List.lookup_cons, layout, Line.ofOrigin,
    entry, row, last]

theorem build_last : Layout.build [Line.ofOrigin 1 0xFFFD, entry, row, last] = .ok (layout 0xFFFD) := by
  simp [Layout.build, Walk.ofLines, Walk.step, Walk.bindPending, Walk.bindLabel, Walk.place,
    Walk.occupy, Walk.allBlocks, Walk.moveTo, Line.size, Statement.size, addressSpace,
    Address.ofNat?, SymbolTable.define, SymbolTable.find?, List.lookup_cons, layout, Line.ofOrigin,
    entry, row, last]

/-- The same lines in the first and in the last cells of the address space. -/
theorem relocated_to_end :
    (Layout.build [Line.ofOrigin 1 0, entry, row, last] >>= Layout.encode) = .ok (program 0) ∧
      (Layout.build [Line.ofOrigin 1 0xFFFD, entry, row, last] >>= Layout.encode) = .ok (program 0xFFFD) ∧
      program 0xFFFD = (program 0).startingAt 0xFFFD := by
  have hfirst : (Layout.build [Line.ofOrigin 1 0, entry, row, last] >>= Layout.encode) =
      .ok (program 0) := Except.bind_eq_ok.mpr ⟨layout 0, build_first, rfl⟩
  have hlast : (Layout.build [Line.ofOrigin 1 0xFFFD, entry, row, last] >>= Layout.encode) =
      .ok (program 0xFFFD) := Except.bind_eq_ok.mpr ⟨layout 0xFFFD, build_last, rfl⟩
  have hparsed : ∀ line ∈ [entry, row, last], ∃ number text, Line.read number text = .ok line := by
    simp only [List.forall_mem_cons, List.not_mem_nil, false_imp_iff, implies_true, and_true]
    exact ⟨⟨2, "BACK: JUMP END".toList, rfl⟩, ⟨3, "WORD 7".toList, rfl⟩,
      ⟨4, "END: LOAD (BACK)".toList, rfl⟩⟩
  have hlines : ∀ line ∈ [entry, row, last], line.Relocatable ["BACK", "END"] := by
    simp only [List.forall_mem_cons, List.not_mem_nil, false_imp_iff, implies_true, and_true]
    refine ⟨?_, ?_, ?_⟩ <;> intro statement hstatement <;> cases hstatement
    · exact .instruction (.relative (by decide))
    · exact .words [7]
    · exact .instruction (.indirect (by decide))
  exact ⟨hfirst, hlast, (relocated_of_encode hparsed hlines hfirst hlast).1⟩

end Movable

end Accumulator
