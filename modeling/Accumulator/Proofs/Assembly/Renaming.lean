import Mathlib.Data.List.ReduceOption
import Mathlib.Data.Set.Function
import Accumulator.Proofs.Assembly.References

/-!
# Other names for the labels

Labels carry no meaning: an injective renaming of them changes the names in a table and in a report, and
nothing else.

* `Line.rename`, `Layout.rename`, `LineError.rename` — the labels under their new names.
* `Line.mentions` — the names that a line defines or refers to. A renaming has to be injective on these.
* `Walk.step_rename` — the walk over renamed lines is the renamed walk, line by line.
* `Layout.build_rename`, `Layout.encode_rename` — both passes commute with the renaming.
* `build_of_renamed` — the law of both passes, on success and on failure.
-/

namespace Accumulator

variable (f : String → String)

/-! ## Renaming -/

/-- The immediate with its label renamed. -/
def Immediate.rename : Immediate → Immediate
  | .literal value => .literal value
  | .label name => .label (f name)

/-- The argument with its label renamed. -/
def Argument.rename : Argument → Argument
  | .none => .none
  | .port number => .port number
  | .immediate value => .immediate (value.rename f)
  | .address addressing target => .address addressing (target.rename f)

/-- The statement with the labels it refers to renamed. -/
def Statement.rename : Statement → Statement
  | .origin address => .origin address
  | .words items => .words (items.map (Immediate.rename f))
  | .instruction code => .instruction ⟨code.opcode, code.argument.rename f⟩

/-- The line with the labels it defines and refers to renamed. -/
def Line.rename (line : Line) : Line :=
  { line with labels := line.labels.map f, statement := line.statement.map (Statement.rename f) }

/-- The error with the label of the layout or of the encoding renamed. -/
def AssemblyError.rename : AssemblyError → AssemblyError
  | .undefinedLabel name => .undefinedLabel (f name)
  | .redefinedLabel name firstLine => .redefinedLabel (f name) firstLine
  | error => error

/-- The error, on the same line, with its label renamed. -/
def LineError.rename (e : LineError) : LineError := ⟨e.line, e.error.rename f⟩

/-- The table with its names renamed. -/
def SymbolTable.rename (table : SymbolTable) : SymbolTable :=
  ⟨table.entries.map fun entry => (f entry.1, entry.2)⟩

/-- The label that waits for its address, renamed. -/
def PendingLabel.rename (label : PendingLabel) : PendingLabel := ⟨f label.name, label.line⟩

/-- The placed line with its labels renamed. -/
def Placed.rename (p : Placed) : Placed := ⟨p.address, p.line.rename f⟩

/-- The block with the labels of its lines renamed. -/
def Block.rename (block : Block) : Block := ⟨block.start, block.lines.map (Placed.rename f)⟩

/-- The layout with its labels renamed. -/
def Layout.rename (layout : Layout) : Layout :=
  ⟨layout.labels.rename f, layout.blocks.map (Block.rename f)⟩

/-- The walk with its labels renamed. -/
def Walk.rename (w : Walk) : Walk where
  cursor := w.cursor
  pending := w.pending.map (PendingLabel.rename f)
  labels := w.labels.rename f
  owners := w.owners
  closed := w.closed.map (Block.rename f)
  start := w.start
  lines := w.lines.map (Placed.rename f)
  errors := w.errors.map (LineError.rename f)

/-- The names that a line defines or refers to. -/
def Line.mentions (line : Line) : List String := line.labels ++ line.references.reduceOption

variable {f} {N : Set String}

/-! ## What a renaming leaves alone -/

@[simp] theorem Line.number_rename (line : Line) : (line.rename f).number = line.number := rfl

@[simp] theorem Line.size_rename (line : Line) : (line.rename f).size = line.size := by
  unfold size rename
  cases line.statement with
  | none => rfl
  | some statement =>
    cases statement with
    | origin address => rfl
    | words items => exact List.length_map _
    | instruction code => rfl

@[simp] theorem Line.occupies_rename (line : Line) : (line.rename f).occupies = line.occupies := by
  unfold occupies rename
  cases line.statement with
  | none => rfl
  | some statement => cases statement <;> rfl

@[simp] theorem Argument.mode_rename (argument : Argument) :
    (argument.rename f).mode = argument.mode := by
  cases argument <;> rfl

/-! ## Tables -/

namespace SymbolTable

variable {table : SymbolTable}

/-- Every name of the table is in `N`. -/
def Within (N : Set String) (table : SymbolTable) : Prop := ∀ entry ∈ table.entries, entry.1 ∈ N

/-- **A name finds under the renaming what it found before.** -/
theorem find?_rename (hf : Set.InjOn f N) (htable : table.Within N) {name : String}
    (hname : name ∈ N) : (table.rename f).find? (f name) = table.find? name := by
  obtain ⟨entries⟩ := table
  unfold find? rename
  induction entries with
  | nil => rfl
  | cons entry entries ih =>
    have hrest := ih fun other hother => htable other (List.mem_cons_of_mem entry hother)
    have hkey : (f name == f entry.1) = (name == entry.1) := by
      rw [Bool.eq_iff_iff, beq_iff_eq, beq_iff_eq]
      exact hf.eq_iff hname (htable entry List.mem_cons_self)
    change List.lookup (f name) ((f entry.1, entry.2) :: entries.map _) =
      List.lookup name ((entry.1, entry.2) :: entries)
    rw [List.lookup_cons, List.lookup_cons, hkey, show List.lookup (f name) _ = _ from hrest]

theorem address?_rename (hf : Set.InjOn f N) (htable : table.Within N) {name : String}
    (hname : name ∈ N) : (table.rename f).address? (f name) = table.address? name := by
  rw [address?, find?_rename hf htable hname, address?]

theorem define_rename (hf : Set.InjOn f N) (htable : table.Within N) {name : String}
    (hname : name ∈ N) (symbol : Symbol) :
    (table.rename f).define (f name) symbol = (table.define name symbol).map (rename f) := by
  unfold define
  rw [find?_rename hf htable hname]
  cases table.find? name <;> rfl

theorem Within.define {name : String} {symbol : Symbol} {next : SymbolTable}
    (htable : table.Within N) (hname : name ∈ N) (h : table.define name symbol = .ok next) :
    next.Within N := by
  unfold SymbolTable.define at h
  split at h
  · cases h
  · cases h
    exact List.forall_mem_cons.mpr ⟨hname, htable⟩

end SymbolTable

/-! ## The first pass -/

namespace Walk

variable {w : Walk} {label : PendingLabel} {line : Line}

/-- Every name of the walk is in `N`: the names in the table, the names that wait, and the names that the
placed lines refer to. -/
structure Within (N : Set String) (w : Walk) : Prop where
  labels : w.labels.Within N
  pending : ∀ label ∈ w.pending, label.name ∈ N
  placed : ∀ p ∈ w.placed, ∀ name ∈ p.line.mentions, name ∈ N

theorem report_rename (w : Walk) (number : Nat) (error : AssemblyError) :
    (w.rename f).report number (error.rename f) = (w.report number error).rename f := by
  simp only [report, rename, LineError.rename, Array.map_push]

theorem bindLabel_rename (hf : Set.InjOn f N) (hlabels : w.labels.Within N)
    (hlabel : label.name ∈ N) :
    (w.rename f).bindLabel (label.rename f) = (w.bindLabel label).rename f := by
  unfold bindLabel
  cases haddress : Address.ofNat? w.cursor with
  | none =>
    rw [show (w.rename f).cursor = w.cursor from rfl, haddress]
    exact w.report_rename label.line (.addressOverflow w.cursor)
  | some address =>
    rw [show (w.rename f).cursor = w.cursor from rfl, haddress]
    simp only
    rw [show (w.rename f).labels = w.labels.rename f from rfl,
      show (label.rename f).name = f label.name from rfl,
      show (label.rename f).line = label.line from rfl,
      SymbolTable.define_rename hf hlabels hlabel]
    cases w.labels.define label.name ⟨label.line, address⟩ with
    | ok labels => rfl
    | error first => exact w.report_rename label.line (.redefinedLabel label.name first.line)

theorem within_bindLabel (hlabels : w.labels.Within N) (hlabel : label.name ∈ N) :
    (w.bindLabel label).labels.Within N := by
  unfold bindLabel
  split
  · exact hlabels
  · split
    · next hdefine => exact hlabels.define hlabel hdefine
    · exact hlabels

theorem foldl_bindLabel_rename (hf : Set.InjOn f N) {pending : List PendingLabel}
    (hlabels : w.labels.Within N) (hpending : ∀ label ∈ pending, label.name ∈ N) :
    (pending.map (PendingLabel.rename f)).foldl bindLabel (w.rename f) =
        (pending.foldl bindLabel w).rename f ∧
      (pending.foldl bindLabel w).labels.Within N := by
  induction pending generalizing w with
  | nil => exact ⟨rfl, hlabels⟩
  | cons label pending ih =>
    obtain ⟨hlabel, hpending⟩ := List.forall_mem_cons.mp hpending
    rw [List.map_cons, List.foldl_cons, List.foldl_cons, bindLabel_rename hf hlabels hlabel]
    exact ih (within_bindLabel hlabels hlabel) hpending

theorem bindPending_rename (hf : Set.InjOn f N) (hlabels : w.labels.Within N)
    (hpending : ∀ label ∈ w.pending, label.name ∈ N) :
    (w.rename f).bindPending = w.bindPending.rename f ∧ w.bindPending.labels.Within N :=
  foldl_bindLabel_rename (w := { w with pending := [] }) hf hlabels hpending

/-- Taking the cells of a line involves no name but those of the labels that wait. -/
theorem place_rename (hbind : (w.rename f).bindPending = w.bindPending.rename f) (line : Line) :
    (w.rename f).place (line.rename f) = (w.place line).rename f := by
  unfold place
  rw [hbind]
  simp only [Line.size_rename, Line.number_rename]
  rw [show (w.bindPending.rename f).cursor = w.bindPending.cursor from rfl,
    show (w.bindPending.rename f).owners = w.bindPending.owners from rfl]
  by_cases hstop : addressSpace < w.bindPending.cursor + line.size
  · rw [if_pos hstop, if_pos hstop]
    simp [report, rename, LineError.rename, AssemblyError.rename]
  · rw [if_neg hstop, if_neg hstop]
    cases (occupy w.bindPending.owners line.number w.bindPending.cursor line.size).2 with
    | none => simp [rename, Placed.rename]
    | some collision => simp [report, rename, Placed.rename, LineError.rename, AssemblyError.rename]

theorem mem_placed_place {p : Placed} (h : p ∈ (w.place line).placed) : p ∈ w.placed ∨ p.line = line := by
  obtain ⟨labels, errors, hbind⟩ := bindPending_frame w
  unfold place at h
  simp only [hbind] at h
  split at h
  · exact .inl h
  · have hpush : p ∈ { w with lines := w.lines.push ⟨UInt16.ofNat w.cursor, line⟩ }.placed := by
      split at h <;> exact h
    rw [placed_push, List.mem_append, List.mem_singleton] at hpush
    exact hpush.imp id (congrArg Placed.line)

theorem step_of_bare (h : line.statement = none) :
    w.step line = { w with pending := w.pending ++ line.pending } := by
  unfold step
  rw [h]
  rfl

theorem step_of_origin {address : Address} (h : line.statement = some (.origin address)) :
    w.step line = moveTo { w with pending := w.pending ++ line.pending } address := by
  unfold step
  rw [h]
  rfl

theorem moveTo_rename (w : Walk) (address : Address) :
    (w.rename f).moveTo address = (w.moveTo address).rename f := by
  simp [moveTo, allBlocks, rename, Block.rename]

theorem placed_moveTo (w : Walk) (address : Address) : (w.moveTo address).placed = w.placed := by
  simp [placed, moveTo, allBlocks]

/-- **One line.** The step of the renamed line is the renamed step, and it brings no name but those of the
line. -/
theorem step_rename (hf : Set.InjOn f N) (hw : w.Within N) (hline : ∀ name ∈ line.mentions, name ∈ N) :
    (w.rename f).step (line.rename f) = (w.step line).rename f ∧ (w.step line).Within N := by
  have hwaits : ∀ label ∈ w.pending ++ line.pending, label.name ∈ N := by
    intro label hlabel
    rcases List.mem_append.mp hlabel with hlabel | hlabel
    · exact hw.pending label hlabel
    · obtain ⟨name, hname, rfl⟩ := List.mem_map.mp hlabel
      exact hline name (List.mem_append_left _ hname)
  have hpending : { w.rename f with pending := (w.rename f).pending ++ (line.rename f).pending } =
      ({ w with pending := w.pending ++ line.pending } : Walk).rename f := by
    simp [rename, Line.pending, Line.rename, PendingLabel.rename]
  cases hoccupies : line.occupies with
  | true =>
    have hoccupies' : (line.rename f).occupies = true := by
      rw [Line.occupies_rename, hoccupies]
    obtain ⟨hbind, hlabels⟩ := bindPending_rename (w := { w with pending := w.pending ++ line.pending })
      hf hw.labels hwaits
    rw [step_of_occupies hoccupies, step_of_occupies hoccupies', hpending]
    refine ⟨place_rename hbind line, ?_, ?_, fun p hp name hname => ?_⟩
    · rw [(place_eq _ line).2.2.1]
      exact hlabels
    · rw [(place_eq _ line).2.1]
      exact fun label hlabel => absurd hlabel List.not_mem_nil
    · rcases mem_placed_place hp with hp | rfl
      · exact hw.placed p hp name hname
      · exact hline name hname
  | false =>
    obtain hstatement | ⟨address, hstatement⟩ := Line.statement_of_not_occupies hoccupies
    · have hstatement' : (line.rename f).statement = none := by rw [Line.rename, hstatement]; rfl
      rw [step_of_bare hstatement, step_of_bare hstatement', hpending]
      exact ⟨rfl, hw.labels, hwaits, hw.placed⟩
    · have hstatement' : (line.rename f).statement = some (.origin address) := by
        rw [Line.rename, hstatement]
        rfl
      rw [step_of_origin hstatement, step_of_origin hstatement', hpending, moveTo_rename]
      refine ⟨rfl, hw.labels, hwaits, fun p hp => hw.placed p ?_⟩
      rwa [placed_moveTo] at hp

/-- **All lines.** -/
theorem foldl_step_rename (hf : Set.InjOn f N) {lines : List Line} (hw : w.Within N)
    (hlines : ∀ line ∈ lines, ∀ name ∈ line.mentions, name ∈ N) :
    (lines.map (Line.rename f)).foldl step (w.rename f) = (lines.foldl step w).rename f ∧
      (lines.foldl step w).Within N := by
  induction lines generalizing w with
  | nil => exact ⟨rfl, hw⟩
  | cons line lines ih =>
    obtain ⟨hline, hlines⟩ := List.forall_mem_cons.mp hlines
    obtain ⟨hstep, hnext⟩ := step_rename hf hw hline
    rw [List.map_cons, List.foldl_cons, List.foldl_cons, hstep]
    exact ih hnext hlines

theorem rename_empty : ({} : Walk).rename f = {} := by simp [rename, SymbolTable.rename]

theorem within_empty : ({} : Walk).Within N :=
  ⟨nofun, nofun, by simp [placed, allBlocks]⟩

/-- The walk over renamed lines is the renamed walk. -/
theorem ofLines_rename (hf : Set.InjOn f N) {lines : List Line}
    (hlines : ∀ line ∈ lines, ∀ name ∈ line.mentions, name ∈ N) :
    ofLines (lines.map (Line.rename f)) = (ofLines lines).rename f ∧ (ofLines lines).Within N := by
  obtain ⟨hfold, hw⟩ := foldl_step_rename hf (w := {}) within_empty hlines
  obtain ⟨hbind, hlabels⟩ := bindPending_rename hf hw.labels hw.pending
  rw [rename_empty] at hfold
  unfold ofLines
  rw [hfold, hbind]
  obtain ⟨labels, errors, hframe⟩ := bindPending_frame (lines.foldl step {})
  refine ⟨rfl, hlabels, ?_, ?_⟩
  · rw [hframe]
    exact nofun
  · rw [hframe]
    exact hw.placed

end Walk

namespace Layout

/-- Every name of the layout is in `N`. -/
structure Within (N : Set String) (layout : Layout) : Prop where
  labels : layout.labels.Within N
  placed : ∀ p ∈ layout.placed, ∀ name ∈ p.line.mentions, name ∈ N

/-- **The first pass commutes with a renaming**, whether it succeeds or not. -/
theorem build_rename (hf : Set.InjOn f N) {lines : List Line}
    (hlines : ∀ line ∈ lines, ∀ name ∈ line.mentions, name ∈ N) :
    build (lines.map (Line.rename f)) =
      ((build lines).map (rename f)).mapError (List.map (LineError.rename f)) := by
  obtain ⟨hwalk, -⟩ := Walk.ofLines_rename hf hlines
  unfold build
  simp only [hwalk]
  have hempty : ((Walk.ofLines lines).rename f).errors.isEmpty = (Walk.ofLines lines).errors.isEmpty := by
    simp [Walk.rename, Array.isEmpty]
  rw [hempty]
  split
  · have hblocks : ((Walk.ofLines lines).rename f).allBlocks.toList =
        (Walk.ofLines lines).allBlocks.toList.map (Block.rename f) := by
      simp [Walk.allBlocks, Walk.rename, Block.rename]
    rw [hblocks, List.filter_map]
    congr 3
    simp [Function.comp_def, Block.rename]
  · exact congrArg Except.error Array.toList_map

theorem within_of_build {lines : List Line} {layout : Layout} (h : build lines = .ok layout)
    (hlines : ∀ line ∈ lines, ∀ name ∈ line.mentions, name ∈ N) : layout.Within N := by
  -- the names stay in `N` under any renaming, so under the one that changes none
  obtain ⟨-, hw⟩ := Walk.ofLines_rename (Set.injOn_id N) hlines
  obtain ⟨-, hfold⟩ := Walk.foldl_step_rename (Set.injOn_id N) (w := {}) Walk.within_empty hlines
  refine ⟨?_, ?_⟩
  · unfold build at h
    simp only at h
    split at h
    · cases h
      exact hw.labels
    · cases h
  · rw [(build_eq_ok h).2.1]
    exact hfold.placed

theorem placed_rename (layout : Layout) :
    (layout.rename f).placed = layout.placed.map (Placed.rename f) := by
  simp [placed, rename, Block.rename, List.flatMap_map, List.map_flatMap]

theorem addressOf?_rename (layout : Layout) (number : Nat) :
    (layout.rename f).addressOf? number = layout.addressOf? number := by
  rw [addressOf?, addressOf?, placed_rename, ← List.map_reverse, List.find?_map, Option.map_map]
  rfl

end Layout

/-! ## The second pass -/

section Encoding

variable {labels : SymbolTable} (hf : Set.InjOn f N) (hlabels : labels.Within N)

include hf hlabels

theorem Immediate.resolve_rename {immediate : Immediate} (h : ∀ name ∈ immediate.label?, name ∈ N) :
    (immediate.rename f).resolve (labels.rename f) =
      (immediate.resolve labels).mapError (AssemblyError.rename f) := by
  cases immediate with
  | literal value => rfl
  | label name =>
    rw [rename, resolve, resolve, SymbolTable.address?_rename hf hlabels (h name rfl)]
    cases labels.address? name <;> rfl

theorem Argument.resolve_rename {argument : Argument} (address : Address)
    (h : ∀ name ∈ argument.immediate?.bind Immediate.label?, name ∈ N) :
    (argument.rename f).resolve (labels.rename f) address =
      (argument.resolve labels address).mapError (AssemblyError.rename f) := by
  cases argument with
  | none | port number => rfl
  | immediate value =>
    rw [rename, resolve, resolve, value.resolve_rename hf hlabels h, Except.map_mapError]
  | address addressing target =>
    have htarget := target.resolve_rename hf hlabels h
    cases addressing <;> rw [rename, resolve, resolve, htarget, Except.map_mapError]

theorem Statement.resolve_rename {statement : Statement} (address : Address)
    (h : ∀ name ∈ statement.references.reduceOption, name ∈ N) :
    (statement.rename f).resolve (labels.rename f) address =
      (statement.resolve labels address).mapError (AssemblyError.rename f) := by
  cases statement with
  | origin address => rfl
  | words items =>
    refine mapM_map_mapError fun item hitem => ?_
    rw [item.resolve_rename hf hlabels fun name hname => h name ?_, Except.map_mapError]
    exact List.reduceOption_mem_iff.mpr (List.mem_map.mpr ⟨item, hitem, hname⟩)
  | instruction code =>
    have hargument := code.argument.resolve_rename hf hlabels address fun name hname =>
      h name (List.reduceOption_mem_iff.mpr (List.mem_singleton.mpr (Option.mem_def.mp hname).symm))
    rw [rename, resolve, resolve, Code.resolve, Code.resolve, hargument, Except.map_mapError,
      Except.map_mapError]
    simp only [Code.mode, Argument.mode_rename]

theorem Placed.resolve_rename {p : Placed} (h : ∀ name ∈ p.line.mentions, name ∈ N) :
    (p.rename f).resolve (labels.rename f) = (p.resolve labels).mapError (LineError.rename f) := by
  obtain ⟨address, number, names, statement⟩ := p
  cases statement with
  | none => rfl
  | some statement =>
    have hstatement := statement.resolve_rename hf hlabels address fun name hname =>
      h name (List.mem_append_right _ hname)
    change ((statement.rename f).resolve (labels.rename f) address).mapError _ =
      ((statement.resolve labels address).mapError _).mapError _
    rw [hstatement]
    cases statement.resolve labels address <;> rfl

theorem Block.resolve_rename {block : Block}
    (h : ∀ p ∈ block.lines, ∀ name ∈ p.line.mentions, name ∈ N) :
    (block.rename f).resolve (labels.rename f) =
      (block.resolve labels).mapError (List.map (LineError.rename f)) := by
  have hlines : (block.rename f).lines.map (Placed.resolve (labels.rename f)) =
      (block.lines.map (Placed.resolve labels)).map (Except.mapError (LineError.rename f)) := by
    rw [rename, List.map_map, List.map_map]
    exact List.map_congr_left fun p hp => p.resolve_rename hf hlabels (h p hp)
  rw [resolve, resolve, hlines, collect_map_mapError, Except.map_mapError]
  rfl

end Encoding

namespace Layout

/-- **The second pass commutes with a renaming**, whether it succeeds or not. -/
theorem encode_rename (hf : Set.InjOn f N) {layout : Layout} (h : layout.Within N) :
    (layout.rename f).encode = layout.encode.mapError (List.map (LineError.rename f)) := by
  have hblocks : (layout.rename f).blocks.map (Block.resolve (layout.rename f).labels) =
      (layout.blocks.map (Block.resolve layout.labels)).map
        (Except.mapError (List.map (LineError.rename f))) := by
    rw [rename, List.map_map, List.map_map]
    refine List.map_congr_left fun block hblock => block.resolve_rename hf h.labels fun p hp => ?_
    exact h.placed p (List.mem_flatMap.mpr ⟨block, hblock, hp⟩)
  unfold encode
  rw [hblocks, collect_map_mapError]
  cases collect (layout.blocks.map (Block.resolve layout.labels)) with
  | ok sections => rfl
  | error errors => exact congrArg Except.error List.map_flatten.symm

/-- **Label names carry no meaning.** Let a renaming be injective on the names that lines define or refer
to. If the lines have a layout, the renamed lines have one in which every line has the address that it had
and every label, under its new name, the line and the address that it had; it is encoded as the same
program, or refused with the same errors under the new names. If the lines have no layout, the renamed
lines have none, with the same errors under the new names. -/
theorem build_of_renamed (lines : List Line)
    (hf : Set.InjOn f {name | name ∈ lines.flatMap Line.mentions}) :
    (∀ layout, build lines = .ok layout →
      ∃ renamed, build (lines.map (Line.rename f)) = .ok renamed ∧
        (∀ number, renamed.addressOf? number = layout.addressOf? number) ∧
        renamed.labels.toList = layout.labels.toList.map (fun entry => (f entry.1, entry.2)) ∧
        (∀ name ∈ lines.flatMap Line.mentions,
          renamed.labels.address? (f name) = layout.labels.address? name) ∧
        (∀ program, layout.encode = .ok program → renamed.encode = .ok program) ∧
        ∀ errors, layout.encode = .error errors →
          renamed.encode = .error (errors.map (LineError.rename f))) ∧
    ∀ errors, build lines = .error errors →
      build (lines.map (Line.rename f)) = .error (errors.map (LineError.rename f)) := by
  have hlines : ∀ line ∈ lines, ∀ name ∈ line.mentions,
      name ∈ {name | name ∈ lines.flatMap Line.mentions} := fun line hline name hname =>
    List.mem_flatMap.mpr ⟨line, hline, hname⟩
  have hbuild := build_rename hf hlines
  refine ⟨fun layout h => ?_, fun errors h => ?_⟩
  · have hwithin := within_of_build h hlines
    have hencode := encode_rename hf hwithin
    rw [h] at hbuild
    refine ⟨layout.rename f, hbuild, layout.addressOf?_rename, List.map_reverse.symm,
      fun name hname => SymbolTable.address?_rename hf hwithin.labels hname,
      fun program hprogram => ?_, fun errors herrors => ?_⟩
    · rw [hencode, hprogram]
      rfl
    · rw [hencode, herrors]
      rfl
  · rw [hbuild, h]
    rfl

end Layout

/-! ## Two names exchanged -/

namespace Exchanged

/-- Exchanges two names. -/
def exchange : String → String := Equiv.swap "A" "X"

/-- A jump, and pointers to a label that is defined and to one that is not. -/
def jump : Line := ⟨1, ["A"], some (.instruction ⟨.jump, .address .relative (.label "B")⟩)⟩

def pointers : Line := ⟨2, ["B"], some (.words [.label "A", .label "C"])⟩

def lines : List Line := [jump, pointers]

def layout : Layout where
  labels := ⟨[("B", ⟨2, 1⟩), ("A", ⟨1, 0⟩)]⟩
  blocks := [⟨0, [⟨0, jump⟩, ⟨1, pointers⟩]⟩]

theorem build_lines : Layout.build lines = .ok layout := by
  simp [Layout.build, Walk.ofLines, Walk.step, Walk.bindPending, Walk.bindLabel, Walk.place,
    Walk.occupy, Walk.allBlocks, Line.size, Statement.size, addressSpace, Address.ofNat?,
    SymbolTable.define, SymbolTable.find?, List.lookup_cons, lines, layout, jump, pointers]

theorem build_of_exchanged :
    Set.InjOn exchange {name | name ∈ lines.flatMap Line.mentions} ∧
      (∃ renamed, Layout.build (lines.map (Line.rename exchange)) = .ok renamed ∧
        renamed.labels.toList = [("X", ⟨1, 0⟩), ("B", ⟨2, 1⟩)] ∧
        renamed.labels.address? (exchange "A") = some 0 ∧
        renamed.encode = .error [⟨2, .undefinedLabel "C"⟩]) ∧
      Layout.build (Clashing.lines.map (Line.rename exchange)) =
        .error [⟨2, .redefinedLabel "A" 1⟩, ⟨5, .redefinedLabel "A" 1⟩, ⟨5, .overlap 0 1⟩] := by
  have hinjective : Function.Injective exchange := (Equiv.swap "A" "X").injective
  obtain ⟨hlayout, -⟩ := Layout.build_of_renamed lines hinjective.injOn
  obtain ⟨renamed, hbuild, -, htable, haddress, -, hencode⟩ := hlayout layout build_lines
  obtain ⟨-, herrors⟩ := Layout.build_of_renamed Clashing.lines hinjective.injOn
  refine ⟨hinjective.injOn, ⟨renamed, hbuild, htable, ?_, hencode [⟨2, .undefinedLabel "C"⟩] rfl⟩,
    herrors _ Clashing.build_lines⟩
  exact haddress "A" (by decide)

end Exchanged

end Accumulator
