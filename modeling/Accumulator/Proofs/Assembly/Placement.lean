import Accumulator.Assembly.Layout
import Accumulator.Proofs.Source.WellFormed
import Mathlib.Data.List.Nodup

/-!
# Where the lines are placed

* `Line.cursors` — the lines with the cursor in front of each: origins set it, sizes advance it.
* `Walk.Advances`, `step_advances` — what a line does to a walk that reports no error.
* `Walk.Sound`, `foldl_sound` — the invariant of such a walk: the placed lines lie inside the address
  space, share no cell, own theirs, and follow each other without a gap inside a block.
* `placed_eq_cursors` — the placed lines are the ones that take cells, each at its cursor.
* `addressOf?_eq_some_iff` — an address found by line number is the one the line was placed at.
-/

namespace Accumulator

/-! ## Cursors -/

namespace Line

/-- Whether the line is a row of words or an instruction. -/
def occupies (line : Line) : Bool :=
  match line.statement with
  | some (.words _) | some (.instruction _) => true
  | _ => false

/-- The cursor behind a line. -/
def next (cursor : Nat) (line : Line) : Nat :=
  match line.statement with
  | some (.origin address) => address.toNat
  | _ => cursor + line.size

/-- Each line with the cursor in front of it. -/
def cursors : Nat → List Line → List (Nat × Line)
  | _, [] => []
  | cursor, line :: rest => (cursor, line) :: cursors (line.next cursor) rest

theorem map_snd_cursors (cursor : Nat) (lines : List Line) :
    (cursors cursor lines).map Prod.snd = lines := by
  induction lines generalizing cursor with
  | nil => rfl
  | cons line lines ih => rw [cursors, List.map_cons, ih]

theorem size_of_statement_eq_none {line : Line} (h : line.statement = none) : line.size = 0 := by
  rw [size, h]

theorem WellFormed.size_pos {line : Line} (h : line.WellFormed) (hoccupies : line.occupies = true) :
    0 < line.size := by
  unfold occupies at hoccupies
  unfold size
  split at hoccupies
  · next items hstatement =>
    rw [hstatement]
    exact List.length_pos_iff.mpr (h _ hstatement)
  · next code hstatement =>
    rw [hstatement]
    exact Nat.one_pos
  · cases hoccupies

end Line

/-! ## Placed lines -/

namespace Placed

/-- The cells of a placed line. -/
def Covers (p : Placed) (cell : Nat) : Prop :=
  p.address.toNat ≤ cell ∧ cell < p.address.toNat + p.line.size

/-- No cell belongs to both lines. -/
def Disjoint (p q : Placed) : Prop := ∀ cell, p.Covers cell → ¬ q.Covers cell

/-- The number of cells that placed lines take. -/
def total : List Placed → Nat
  | [] => 0
  | p :: rest => p.line.size + total rest

/-- Each line starts where the one before it ends, the first at `cursor`. -/
def Contiguous : Nat → List Placed → Prop
  | _, [] => True
  | cursor, p :: rest => p.address.toNat = cursor ∧ Contiguous (cursor + p.line.size) rest

theorem total_concat (placed : List Placed) (p : Placed) :
    total (placed ++ [p]) = total placed + p.line.size := by
  induction placed with
  | nil => rw [List.nil_append, total, total, total, Nat.add_comm]
  | cons q placed ih => rw [List.cons_append, total, total, ih, Nat.add_assoc]

theorem contiguous_concat {cursor : Nat} {placed : List Placed} {p : Placed} :
    Contiguous cursor (placed ++ [p]) ↔
      Contiguous cursor placed ∧ p.address.toNat = cursor + total placed := by
  induction placed generalizing cursor with
  | nil => simp [Contiguous, total]
  | cons q placed ih =>
    rw [List.cons_append, Contiguous, Contiguous, ih, total, ← Nat.add_assoc, and_assoc]

end Placed

/-! ## One line -/

namespace Walk

/-- The lines placed so far. -/
def placed (w : Walk) : List Placed := w.allBlocks.toList.flatMap (·.lines)

theorem bindLabel_frame (w : Walk) (label : PendingLabel) :
    ∃ labels errors, w.bindLabel label = { w with labels, errors := w.errors ++ errors } := by
  unfold bindLabel
  split
  · exact ⟨w.labels, #[_], rfl⟩
  · split
    · next labels _ => exact ⟨labels, #[], by rw [Array.append_empty]⟩
    · exact ⟨w.labels, #[_], rfl⟩

theorem foldl_bindLabel_frame (pending : List PendingLabel) (w : Walk) :
    ∃ labels errors,
      pending.foldl bindLabel w = { w with labels, errors := w.errors ++ errors } := by
  induction pending generalizing w with
  | nil => exact ⟨w.labels, #[], by rw [Array.append_empty]; rfl⟩
  | cons label pending ih =>
    obtain ⟨labels, errors, hlabel⟩ := bindLabel_frame w label
    obtain ⟨labels', errors', hpending⟩ := ih (w.bindLabel label)
    refine ⟨labels', errors ++ errors', ?_⟩
    rw [List.foldl_cons, hpending, hlabel, ← Array.append_assoc]

/-- Binding labels places nothing. -/
theorem bindPending_frame (w : Walk) :
    ∃ labels errors,
      w.bindPending = { w with pending := [], labels, errors := w.errors ++ errors } :=
  foldl_bindLabel_frame w.pending { w with pending := [] }

/-- A line meets no owner exactly if all of its cells are free, and then it owns them. -/
theorem occupy_eq_none {owners : Std.HashMap Nat Nat} {line cell count : Nat}
    (h : (occupy owners line cell count).2 = none) :
    (∀ a, cell ≤ a → a < cell + count → owners[a]? = none) ∧
      ∀ a, (occupy owners line cell count).1[a]? =
        if cell ≤ a ∧ a < cell + count then some line else owners[a]? := by
  induction count generalizing owners cell with
  | zero =>
    refine ⟨fun a _ _ => by omega, fun a => ?_⟩
    rw [occupy, if_neg (by omega)]
  | succ count ih =>
    unfold occupy at h ⊢
    split at h
    · cases h
    · next hfree =>
      obtain ⟨hrest, howners⟩ := ih h
      refine ⟨fun a hle hlt => ?_, fun a => ?_⟩
      · rcases Nat.eq_or_lt_of_le hle with rfl | hlt'
        · exact hfree
        · have hcell : (cell == a) = false := beq_false_of_ne (by omega)
          simpa [Std.HashMap.getElem?_insert, hcell] using hrest a hlt' (by omega)
      · rw [howners a, Std.HashMap.getElem?_insert]
        by_cases ha : cell = a
        · subst ha
          rw [if_neg (by omega), if_pos (by simp), if_pos (by omega)]
        · rw [if_neg (show ¬ (cell == a) = true by simpa using ha)]
          by_cases hin : cell + 1 ≤ a ∧ a < cell + 1 + count
          · rw [if_pos hin, if_pos (by omega)]
          · rw [if_neg hin, if_neg (by omega)]

/-- What a line does to a walk if it is reported for nothing. -/
inductive Advances (w : Walk) (line : Line) : Walk → Prop
  | bare {pending : List PendingLabel} (statement : line.statement = none) :
      Advances w line { w with pending }
  | origin {address : Address} {pending : List PendingLabel}
      (statement : line.statement = some (.origin address)) :
      Advances w line (moveTo { w with pending } address)
  | place {labels : SymbolTable} {owners : Std.HashMap Nat Nat} (occupies : line.occupies = true)
      (fits : w.cursor + line.size ≤ addressSpace)
      (free : ∀ a, w.cursor ≤ a → a < w.cursor + line.size → w.owners[a]? = none)
      (owned : ∀ a : Nat, owners[a]? =
        if w.cursor ≤ a ∧ a < w.cursor + line.size then some line.number else w.owners[a]?) :
      Advances w line
        { w with
          pending := []
          labels
          owners
          lines := w.lines.push ⟨UInt16.ofNat w.cursor, line⟩
          cursor := w.cursor + line.size }

theorem place_advances {w : Walk} {pending : List PendingLabel} {line : Line}
    (hoccupies : line.occupies = true)
    (h : (place { w with pending } line).errors = #[]) :
    w.Advances line (place { w with pending } line) := by
  obtain ⟨labels, errors, hbind⟩ := bindPending_frame { w with pending }
  unfold place at h ⊢
  simp only [hbind] at h ⊢
  split at h
  · simp [report] at h
  next hfits =>
  rw [if_neg hfits]
  cases hcollision : (occupy w.owners line.number w.cursor line.size).2 with
  | some collision => simp [hcollision, report] at h
  | none =>
    obtain ⟨hfree, howned⟩ := occupy_eq_none hcollision
    simp only [hcollision] at h ⊢
    have herrors : errors = #[] := (Array.append_eq_empty_iff.mp h).2
    rw [herrors, Array.append_empty]
    exact .place hoccupies (Nat.le_of_not_lt hfits) hfree howned

/-- A line of a walk without errors is read back by what it takes. -/
theorem step_advances {w : Walk} {line : Line} (h : (w.step line).errors = #[]) :
    w.Advances line (w.step line) := by
  unfold step at h ⊢
  cases hstatement : line.statement with
  | none => exact .bare hstatement
  | some statement =>
    simp only [hstatement] at h ⊢
    cases statement with
    | origin address => exact .origin hstatement
    | words items => exact place_advances (by rw [Line.occupies, hstatement]) h
    | instruction code => exact place_advances (by rw [Line.occupies, hstatement]) h

theorem Advances.errors {w w' : Walk} {line : Line} (h : w.Advances line w') :
    w'.errors = w.errors := by
  cases h <;> rfl

theorem Advances.cursor {w w' : Walk} {line : Line} (h : w.Advances line w') :
    w'.cursor = line.next w.cursor := by
  cases h with
  | bare statement => rw [Line.next, statement, Line.size_of_statement_eq_none statement]; rfl
  | origin statement => rw [Line.next, statement]; rfl
  | place occupies =>
    unfold Line.occupies at occupies
    unfold Line.next
    split at occupies <;> simp_all

theorem placed_push (w : Walk) (p : Placed) :
    { w with lines := w.lines.push p }.placed = w.placed ++ [p] := by
  simp [placed, allBlocks]

theorem Advances.placed {w w' : Walk} {line : Line} (h : w.Advances line w') :
    w'.placed = w.placed ++ if line.occupies then [⟨UInt16.ofNat w.cursor, line⟩] else [] := by
  cases h with
  | bare statement => simp [Line.occupies, statement, Walk.placed, allBlocks]
  | origin statement => simp [Line.occupies, statement, Walk.placed, allBlocks, moveTo]
  | place occupies =>
    rw [if_pos occupies]
    exact placed_push w _

/-! ## All lines -/

/-- What holds in front of every line of a walk without errors. -/
structure Sound (w : Walk) : Prop where
  /-- Every placed line ends in the address space. -/
  inside : ∀ p ∈ w.placed, p.address.toNat + p.line.size ≤ addressSpace
  /-- A cell without an owner belongs to no placed line. -/
  owned : ∀ cell : Nat, w.owners[cell]? = none → ∀ p ∈ w.placed, ¬ p.Covers cell
  /-- No cell belongs to two placed lines. -/
  disjoint : w.placed.Pairwise Placed.Disjoint
  /-- The lines of a block follow each other from its start on. -/
  contiguous : ∀ block ∈ w.allBlocks, Placed.Contiguous block.start.toNat block.lines
  /-- The cursor stands behind the last line of the current block. -/
  cursor : w.cursor = w.start.toNat + Placed.total w.lines.toList

theorem sound_empty : Sound {} where
  inside := by simp [placed, allBlocks]
  owned := by simp [placed, allBlocks]
  disjoint := by simp [placed, allBlocks]
  contiguous := by simp [allBlocks, Placed.Contiguous]
  cursor := rfl

/-- A line that takes a cell starts at the cursor. An empty row of words might not: right behind the
last cell its address would wrap. -/
theorem Advances.address {w w' : Walk} {line : Line} (h : w.Advances line w')
    (hline : line.WellFormed) (hoccupies : line.occupies = true) :
    (UInt16.ofNat w.cursor).toNat = w.cursor := by
  have hpos := hline.size_pos hoccupies
  cases h with
  | bare statement => simp [Line.occupies, statement] at hoccupies
  | origin statement => simp [Line.occupies, statement] at hoccupies
  | place _ fits =>
    unfold addressSpace at fits
    exact UInt16.toNat_ofNat_of_lt' (by rw [UInt16.size]; omega)

theorem Advances.sound {w w' : Walk} {line : Line} (h : w.Advances line w')
    (hline : line.WellFormed) (hw : w.Sound) : w'.Sound := by
  have hplaced := h.placed
  have haddress := h.address hline
  cases h with
  | bare statement => exact ⟨hw.inside, hw.owned, hw.disjoint, hw.contiguous, hw.cursor⟩
  | origin statement =>
    rw [Line.occupies, statement, if_neg (by simp), List.append_nil] at hplaced
    refine ⟨hplaced ▸ hw.inside, hplaced ▸ hw.owned, hplaced ▸ hw.disjoint, ?_, rfl⟩
    intro block hblock
    rcases Array.mem_push.mp hblock with hblock | rfl
    · exact hw.contiguous block hblock
    · trivial
  | place occupies fits free owned =>
    rw [if_pos occupies] at hplaced
    have hstart := haddress occupies
    refine ⟨?_, ?_, ?_, ?_, ?_⟩
    · rw [hplaced]
      intro p hp
      rcases List.mem_append.mp hp with hp | hp
      · exact hw.inside p hp
      · rw [List.mem_singleton.mp hp, hstart]
        exact fits
    · rw [hplaced]
      intro cell hcell p hp hcovers
      rw [owned] at hcell
      split at hcell
      · cases hcell
      · next hout =>
        rcases List.mem_append.mp hp with hp | hp
        · exact hw.owned cell hcell p hp hcovers
        · rw [List.mem_singleton.mp hp, Placed.Covers, hstart] at hcovers
          exact hout hcovers
    · rw [hplaced, List.pairwise_append]
      refine ⟨hw.disjoint, List.pairwise_singleton _ _, ?_⟩
      intro p hp q hq cell hpcell hqcell
      rw [List.mem_singleton.mp hq, Placed.Covers, hstart] at hqcell
      exact hw.owned cell (free cell hqcell.1 hqcell.2) p hp hpcell
    · intro block hblock
      rcases Array.mem_push.mp hblock with hblock | rfl
      · exact hw.contiguous block (Array.mem_push_of_mem _ hblock)
      · have hlines := hw.contiguous ⟨w.start, w.lines.toList⟩ Array.mem_push_self
        rw [Array.toList_push, Placed.contiguous_concat]
        exact ⟨hlines, hstart.trans hw.cursor⟩
    · rw [Array.toList_push, Placed.total_concat, ← Nat.add_assoc, ← hw.cursor]

theorem errors_of_foldl {lines : List Line} {w : Walk} (h : (lines.foldl step w).errors = #[]) :
    w.errors = #[] := by
  induction lines generalizing w with
  | nil => exact h
  | cons line lines ih =>
    have hstep := ih h
    exact (step_advances hstep).errors ▸ hstep

/-- **A walk without errors is sound.** -/
theorem foldl_sound {lines : List Line} {w : Walk} (h : (lines.foldl step w).errors = #[])
    (hlines : ∀ line ∈ lines, line.WellFormed) (hw : w.Sound) : (lines.foldl step w).Sound := by
  induction lines generalizing w with
  | nil => exact hw
  | cons line lines ih =>
    have hstep := step_advances (errors_of_foldl h : (w.step line).errors = #[])
    exact ih h (fun other hother => hlines other (List.mem_cons_of_mem line hother))
      (hstep.sound (hlines line List.mem_cons_self) hw)

/-- A walk without errors places the lines that take cells, each at its cursor. -/
theorem foldl_placed {lines : List Line} {w : Walk} (h : (lines.foldl step w).errors = #[])
    (hlines : ∀ line ∈ lines, line.WellFormed) :
    (lines.foldl step w).placed.map (fun p => (p.address.toNat, p.line)) =
      w.placed.map (fun p => (p.address.toNat, p.line)) ++
        (Line.cursors w.cursor lines).filter (·.2.occupies) := by
  induction lines generalizing w with
  | nil => simp [Line.cursors]
  | cons line lines ih =>
    have hstep := step_advances (errors_of_foldl h : (w.step line).errors = #[])
    rw [List.foldl_cons, ih h (fun other hother => hlines other (List.mem_cons_of_mem line hother)),
      hstep.placed, hstep.cursor, Line.cursors, List.filter_cons, List.map_append, List.append_assoc]
    cases hoccupies : line.occupies with
    | false => simp
    | true => simp [hstep.address (hlines line List.mem_cons_self) hoccupies]

end Walk

/-! ## The layout -/

namespace Layout

variable {lines : List Line} {layout : Layout}

theorem flatMap_lines_filter (blocks : List Block) :
    (blocks.filter fun block => !block.lines.isEmpty).flatMap (·.lines) =
      blocks.flatMap (·.lines) := by
  induction blocks with
  | nil => rfl
  | cons block blocks ih =>
    rw [List.filter_cons]
    split
    · rw [List.flatMap_cons, List.flatMap_cons, ih]
    · next hempty =>
      have hlines : block.lines = [] := by simpa using hempty
      rw [List.flatMap_cons, hlines, List.nil_append, ih]

/-- A layout comes from a walk without errors; the blocks left out place nothing. -/
theorem build_eq_ok (h : build lines = .ok layout) :
    (lines.foldl Walk.step {}).errors = #[] ∧
      layout.placed = (lines.foldl Walk.step {}).placed ∧
      ∀ block ∈ layout.blocks, block ∈ (lines.foldl Walk.step {}).allBlocks ∧ block.lines ≠ [] := by
  obtain ⟨labels, errors, hbind⟩ := Walk.bindPending_frame (lines.foldl Walk.step {})
  simp only [build, Walk.ofLines, hbind] at h
  split at h
  · next hempty =>
    cases h
    have herrors := (Array.append_eq_empty_iff.mp (Array.isEmpty_iff.mp hempty)).1
    refine ⟨herrors, flatMap_lines_filter _, fun block hblock => ?_⟩
    obtain ⟨hmem, hlines⟩ := List.mem_filter.mp hblock
    exact ⟨Array.mem_toList_iff.mp hmem, by simpa using hlines⟩
  · cases h

variable (h : build lines = .ok layout) (hlines : ∀ line ∈ lines, line.WellFormed)

include h hlines

/-- **The placed lines are the ones that take cells, each at its cursor.** -/
theorem placed_eq_cursors :
    layout.placed.map (fun p => (p.address.toNat, p.line)) =
      (Line.cursors 0 lines).filter (·.2.occupies) := by
  obtain ⟨herrors, hplaced, -⟩ := build_eq_ok h
  rw [hplaced, Walk.foldl_placed herrors hlines]
  rfl

/-- No line is lost and none is placed twice. -/
theorem map_line_placed : layout.placed.map (·.line) = lines.filter (·.occupies) := by
  calc layout.placed.map (·.line)
      = (layout.placed.map fun p => (p.address.toNat, p.line)).map Prod.snd := by
        rw [List.map_map]; rfl
    _ = ((Line.cursors 0 lines).filter (·.2.occupies)).map Prod.snd := by
        rw [placed_eq_cursors h hlines]
    _ = ((Line.cursors 0 lines).map Prod.snd).filter (·.occupies) := by
        rw [List.filter_map]; rfl
    _ = lines.filter (·.occupies) := by rw [Line.map_snd_cursors]

theorem exists_placed {line : Line} (hline : line ∈ lines) (hoccupies : line.occupies = true) :
    ∃ address, ⟨address, line⟩ ∈ layout.placed := by
  have hmem : line ∈ layout.placed.map (·.line) := by
    rw [map_line_placed h hlines]
    exact List.mem_filter.mpr ⟨hline, hoccupies⟩
  obtain ⟨p, hp, rfl⟩ := List.mem_map.mp hmem
  exact ⟨p.address, hp⟩

theorem mem_of_placed {p : Placed} (hp : p ∈ layout.placed) :
    p.line ∈ lines ∧ p.line.occupies = true := by
  have hmem := List.mem_map_of_mem (f := (·.line)) hp
  rw [map_line_placed h hlines] at hmem
  exact List.mem_filter.mp hmem

/-- **An address found by the number of a line is the one that the line was placed at.** -/
theorem addressOf?_eq_some_iff (hnumbers : (lines.map (·.number)).Nodup) {line : Line}
    (hline : line ∈ lines) {address : Address} :
    layout.addressOf? line.number = some address ↔ ⟨address, line⟩ ∈ layout.placed := by
  have hplaced : (layout.placed.map fun p => p.line.number).Nodup := by
    have hmap := congrArg (List.map (·.number)) (map_line_placed h hlines)
    rw [List.map_map] at hmap
    exact hmap ▸ hnumbers.sublist (List.filter_sublist.map _)
  unfold addressOf?
  constructor
  · intro hfound
    obtain ⟨p, hp, rfl⟩ := Option.map_eq_some_iff.mp hfound
    have hnumber : p.line.number = line.number := by simpa using List.find?_some hp
    have hmem := List.mem_reverse.mp (List.mem_of_find?_eq_some hp)
    have hpline : p.line = line :=
      List.inj_on_of_nodup_map hnumbers (mem_of_placed h hlines hmem).1 hline hnumber
    exact hpline ▸ hmem
  · intro hmem
    cases hfound : layout.placed.reverse.find? (·.line.number == line.number) with
    | none => simpa using List.find?_eq_none.mp hfound _ (List.mem_reverse.mpr hmem)
    | some p =>
      have hnumber : p.line.number = line.number := by simpa using List.find?_some hfound
      have hmem' := List.mem_reverse.mp (List.mem_of_find?_eq_some hfound)
      have hp := List.inj_on_of_nodup_map hplaced hmem' hmem hnumber
      rw [hp]
      rfl

theorem sound_of_build : (lines.foldl Walk.step {}).Sound :=
  Walk.foldl_sound (build_eq_ok h).1 hlines Walk.sound_empty

/-- **No cell belongs to two placed lines.** -/
theorem disjoint_placed : layout.placed.Pairwise Placed.Disjoint := by
  rw [(build_eq_ok h).2.1]
  exact (sound_of_build h hlines).disjoint

theorem inside_of_placed {p : Placed} (hp : p ∈ layout.placed) :
    p.address.toNat + p.line.size ≤ addressSpace := by
  rw [(build_eq_ok h).2.1] at hp
  exact (sound_of_build h hlines).inside p hp

theorem contiguous_of_block {block : Block} (hblock : block ∈ layout.blocks) :
    Placed.Contiguous block.start.toNat block.lines :=
  (sound_of_build h hlines).contiguous block ((build_eq_ok h).2.2 block hblock).1

end Layout

end Accumulator
