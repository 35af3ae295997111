import Accumulator.Proofs.Assembly.Binding
import Accumulator.Proofs.Assembly.Cells

/-!
# Which sources have a layout

* `WellPlaced` — the lines end in the address space and share no cell, no name is written twice, and
  every label has a cell with an address. It does not mention the walk.
* `Walk.Admits` — the same, said of the lines in front of a walk; `Admits.step` — a line that is
  admitted is reported for nothing, and the rest of the lines is admitted behind it.
* `addressOf?_eq_cursor` — a line that takes cells is found at its cursor, and no other line is.
* `build_iff_wellPlaced` — the lines of a source have a layout exactly if they are well placed.
-/

namespace Accumulator

/-- The cell belongs to the line, which starts at the cursor beside it. -/
def Line.Covers (p : Nat × Line) (cell : Nat) : Prop := p.1 ≤ cell ∧ cell < p.1 + p.2.size

/-- Lines of which each can be placed and each label be bound. -/
structure WellPlaced (lines : List Line) : Prop where
  /-- Every line that takes cells ends in the address space. -/
  inside : ∀ p ∈ Line.cursors 0 lines, p.2.occupies = true → p.1 + p.2.size ≤ addressSpace
  /-- No two lines share a cell. -/
  disjoint : ((Line.cursors 0 lines).filter (·.2.occupies)).Pairwise fun p q =>
    ∀ cell, Line.Covers p cell → ¬ Line.Covers q cell
  /-- No name is written twice, neither on two lines nor on one. -/
  distinct : (lines.flatMap (·.labels)).Nodup
  /-- No label is to be bound past the address space. -/
  addressable : ∀ b ∈ Line.bindings 0 lines, b.2 < addressSpace

/-! ## Lines in front of a walk -/

namespace Walk

variable {w : Walk} {line : Line} {rest lines : List Line}

/-- The lines can follow the walk without a report. -/
structure Admits (w : Walk) (lines : List Line) : Prop where
  inside : ∀ p ∈ Line.cursors w.cursor lines, p.2.occupies = true → p.1 + p.2.size ≤ addressSpace
  free : ∀ p ∈ Line.cursors w.cursor lines, p.2.occupies = true →
    ∀ cell : Nat, Line.Covers p cell → w.owners[cell]? = none
  disjoint : ((Line.cursors w.cursor lines).filter (·.2.occupies)).Pairwise fun p q =>
    ∀ cell, Line.Covers p cell → ¬ Line.Covers q cell
  bindable : Bindable (w.destined lines)

/-- A line whose cells are free meets no owner. -/
theorem occupy_of_free {owners : Std.HashMap Nat Nat} {number cell count : Nat}
    (h : ∀ a : Nat, cell ≤ a → a < cell + count → owners[a]? = none) :
    (occupy owners number cell count).2 = none := by
  induction count generalizing owners cell with
  | zero => rfl
  | succ count ih =>
    have hcell : owners[cell]? = none := h cell (Nat.le_refl cell) (by omega)
    rw [occupy, hcell]
    apply ih
    intro a hle hlt
    have hne : (cell == a) = false := beq_false_of_ne (by omega)
    rw [Std.HashMap.getElem?_insert, hne]
    exact h a (by omega) (by omega)

/-- A line that fits behind the walk takes its cells, and it is reported for nothing. -/
theorem place_of_free (hbind : Bindable (w.labels.bound ++ w.pending.map (·, w.cursor)))
    (hinside : w.cursor + line.size ≤ addressSpace)
    (hfree : ∀ a : Nat, w.cursor ≤ a → a < w.cursor + line.size → w.owners[a]? = none) :
    (w.place line).errors = w.errors ∧ ∀ a : Nat, (w.place line).owners[a]? =
      if w.cursor ≤ a ∧ a < w.cursor + line.size then some line.number else w.owners[a]? := by
  obtain ⟨labels, hwalk, -⟩ := bindPending_of_bindable hbind
  have hnone : (occupy w.owners line.number w.cursor line.size).2 = none := occupy_of_free hfree
  have howners := (occupy_eq_none hnone).2
  have hstop : ¬ addressSpace < w.cursor + line.size := Nat.not_lt.mpr hinside
  unfold place
  simp only [hwalk, hstop, if_false, hnone, true_and]
  exact howners

/-- **A line that is admitted is reported for nothing, and the rest is admitted behind it.** -/
theorem Admits.step (hw : w.errors = #[]) (h : w.Admits (line :: rest)) :
    (w.step line).errors = #[] ∧ (w.step line).Admits rest := by
  have hbound : Bindable w.labels.bound := by
    have hbindable := h.bindable
    rw [destined, List.append_assoc] at hbindable
    exact hbindable.of_append
  have hdestined : (w.step line).errors = #[] → Bindable ((w.step line).destined rest) := by
    intro herrors
    rw [(destined_step rest hbound herrors).1]
    exact h.bindable
  obtain ⟨hinside, hfree, hdisjoint, hbindable⟩ := h
  rw [Line.cursors] at hinside hfree hdisjoint
  cases hoccupies : line.occupies with
  | false =>
    obtain ⟨hcursor, -, -, howners, herrors⟩ := step_of_not_occupies (w := w) hoccupies
    rw [List.filter_cons_of_neg (by simp [hoccupies])] at hdisjoint
    refine ⟨herrors.trans hw, ?_, ?_, ?_, hdestined (herrors.trans hw)⟩
    · rw [hcursor]
      exact fun p hp => hinside p (List.mem_cons_of_mem _ hp)
    · rw [hcursor, howners]
      exact fun p hp => hfree p (List.mem_cons_of_mem _ hp)
    · rw [hcursor]
      exact hdisjoint
  | true =>
    rw [List.filter_cons_of_pos (by simp [hoccupies]), List.pairwise_cons] at hdisjoint
    have hwaiting : Bindable (w.labels.bound ++ (w.pending ++ line.pending).map (·, w.cursor)) := by
      rw [destined, Line.bindings, Line.anchor, if_pos hoccupies, ← List.append_assoc] at hbindable
      have hfirst := hbindable.of_append
      rwa [List.append_assoc, ← List.map_append] at hfirst
    have hline : (w.cursor, line) ∈ (w.cursor, line) :: Line.cursors (line.next w.cursor) rest :=
      List.mem_cons_self
    obtain ⟨herrors, howners⟩ := place_of_free
      (w := { w with pending := w.pending ++ line.pending }) hwaiting
      (hinside _ hline hoccupies)
      (fun a hle hlt => hfree _ hline hoccupies a ⟨hle, hlt⟩)
    obtain ⟨hcursor, -, -, -⟩ := place_eq { w with pending := w.pending ++ line.pending } line
    rw [← step_of_occupies hoccupies] at herrors howners hcursor
    rw [← Line.next_of_occupies hoccupies] at hcursor
    refine ⟨herrors.trans hw, ?_, ?_, ?_, hdestined (herrors.trans hw)⟩
    · rw [hcursor]
      exact fun p hp => hinside p (List.mem_cons_of_mem _ hp)
    · rw [hcursor]
      intro p hp hp' cell hcell
      have hout : ¬ (w.cursor ≤ cell ∧ cell < w.cursor + line.size) := by
        intro hin
        exact hdisjoint.1 p (List.mem_filter.mpr ⟨hp, hp'⟩) cell hin hcell
      rw [howners, if_neg hout]
      exact hfree p (List.mem_cons_of_mem _ hp) hp' cell hcell
    · rw [hcursor]
      exact hdisjoint.2

/-- A walk along lines that it admits reports nothing, nor does the end of the program. -/
theorem Admits.errors (hw : w.errors = #[]) (h : w.Admits lines) :
    (lines.foldl Walk.step w).bindPending.errors = #[] := by
  induction lines generalizing w with
  | nil =>
    have hbindable := h.bindable
    rw [destined, Line.bindings, List.append_nil, Line.anchor] at hbindable
    obtain ⟨labels, hwalk, -⟩ := bindPending_of_bindable hbindable
    rw [List.foldl_nil, hwalk]
    exact hw
  | cons line lines ih =>
    obtain ⟨hstep, hrest⟩ := h.step hw
    exact ih hstep hrest

end Walk

/-! ## The layout -/

namespace Layout

variable {source : String} {lines : List Line} {layout : Layout}

theorem exists_of_wellPlaced (h : WellPlaced lines) : ∃ layout, build lines = .ok layout := by
  have hadmits : Walk.Admits {} lines := by
    refine ⟨h.inside, fun _ _ _ _ _ => Std.HashMap.getElem?_empty, h.disjoint, ?_, h.addressable⟩
    rw [show Walk.destined {} lines = Line.bindings 0 lines from rfl, Line.map_name_bindings]
    exact h.distinct
  have herrors : (Walk.ofLines lines).errors = #[] := hadmits.errors rfl
  rw [build, herrors]
  exact ⟨_, rfl⟩

section

variable (h : build lines = .ok layout) (hlines : ∀ line ∈ lines, line.WellFormed)

include h hlines

theorem wellPlaced_of_build : WellPlaced lines := by
  obtain ⟨-, hbindable⟩ := labels_of_build h
  have hplaced := placed_eq_cursors h hlines
  refine ⟨?_, ?_, ?_, hbindable.addressable⟩
  · intro p hp hoccupies
    have hmem : p ∈ (Line.cursors 0 lines).filter (·.2.occupies) :=
      List.mem_filter.mpr ⟨hp, hoccupies⟩
    rw [← hplaced] at hmem
    obtain ⟨q, hq, rfl⟩ := List.mem_map.mp hmem
    exact inside_of_placed h hlines hq
  · rw [← hplaced, List.pairwise_map]
    exact disjoint_placed h hlines
  · rw [← Line.map_name_bindings 0]
    exact hbindable.distinct

theorem addressOf?_eq_cursor (hnumbers : (lines.map (·.number)).Nodup) {p : Nat × Line}
    (hp : p ∈ Line.cursors 0 lines) (hoccupies : p.2.occupies = true) :
    ∃ address, layout.addressOf? p.2.number = some address ∧ address.toNat = p.1 := by
  have hmem : p ∈ (Line.cursors 0 lines).filter (·.2.occupies) :=
    List.mem_filter.mpr ⟨hp, hoccupies⟩
  rw [← placed_eq_cursors h hlines] at hmem
  obtain ⟨q, hq, rfl⟩ := List.mem_map.mp hmem
  have hline := (mem_of_placed h hlines hq).1
  exact ⟨q.address, (addressOf?_eq_some_iff h hlines hnumbers hline).mpr hq, rfl⟩

theorem addressOf?_eq_none {number : Nat}
    (hnone : ∀ line ∈ lines, line.occupies = true → line.number ≠ number) :
    layout.addressOf? number = none := by
  rw [addressOf?, Option.map_eq_none_iff, List.find?_eq_none]
  intro p hp
  obtain ⟨hline, hoccupies⟩ := mem_of_placed h hlines (List.mem_reverse.mp hp)
  simpa using hnone p.line hline hoccupies

end

/-- **The lines of a source have a layout exactly if they are well placed.** In it every line that
takes cells is found at its cursor, and no other number of a line is found. -/
theorem build_iff_wellPlaced (hread : Line.readAll source = .ok lines) :
    ((∃ layout, build lines = .ok layout) ↔ WellPlaced lines) ∧
      ∀ layout, build lines = .ok layout →
        (∀ cursor line, (cursor, line) ∈ Line.cursors 0 lines → line.occupies = true →
          ∃ address, layout.addressOf? line.number = some address ∧ address.toNat = cursor) ∧
        ∀ number, (∀ line ∈ lines, line.occupies = true → line.number ≠ number) →
          layout.addressOf? number = none := by
  have hlines := Line.readAll_wellFormed hread
  have hnumbers := Line.nodup_number hread
  refine ⟨⟨?_, exists_of_wellPlaced⟩, ?_⟩
  · rintro ⟨layout, h⟩
    exact wellPlaced_of_build h hlines
  · intro layout h
    refine ⟨fun cursor line hmem hoccupies => ?_, fun number hnone => ?_⟩
    · exact addressOf?_eq_cursor h hlines hnumbers hmem hoccupies
    · exact addressOf?_eq_none h hlines hnone

end Layout

/-- Blocks out of order that share no cell are well placed. The second word of the table, which owns
cell three, stands right below the first line of the block in front of it. -/
theorem build_iff_wellPlaced_of_scattered :
    Line.readAll Scattered.source = .ok Scattered.lines ∧ WellPlaced Scattered.lines ∧
      (∃ address, Scattered.layout.addressOf? 6 = some address ∧ address.toNat = 2) ∧
      Scattered.layout.addressOf? 5 = none := by
  have hread := Scattered.assembles.read
  have hbuild := Scattered.assembles.placed
  obtain ⟨hiff, hlayout⟩ := Layout.build_iff_wellPlaced hread
  obtain ⟨hfound, hnone⟩ := hlayout _ hbuild
  exact ⟨hread, hiff.mp ⟨_, hbuild⟩, hfound 2 Scattered.table (by decide) rfl,
    hnone 5 (by decide)⟩

end Accumulator
