import Accumulator.Proofs.Program.Cells
import Mathlib.Data.List.Nodup

/-!
# Which programs a memory takes

* `Span.Apart` — two spans share no cell.
* `firstOverlap?_eq_none_iff` — where spans are sorted by their start it is enough to compare
  neighbours.
* `firstOverlap?_spans_eq_none_iff` — the sections of a program are apart exactly if no cell is
  written twice.
* `validate_eq_ok_iff` — a program may be written exactly if every section ends in the memory and no
  cell is written twice.
-/

namespace Accumulator

namespace Section

variable {s t : Section}

/-- The cells that the section writes, as a span. -/
def span (s : Section) : Program.Span := (s.start.toNat, s.stop)

theorem nodup_cells (s : Section) : (s.cells.map Prod.fst).Nodup := by
  rw [s.cells_eq, map_fst_cellsFrom]
  exact List.nodup_range'

theorem mem_cells_iff {a : Nat} : a ∈ s.cells.map Prod.fst ↔ s.start.toNat ≤ a ∧ a < s.stop := by
  rw [s.cells_eq, map_fst_cellsFrom, List.mem_range'_1, stop]

/-- A section that is not empty ends in the memory exactly if its cells lie there. -/
theorem stop_le_iff (h : s.items ≠ []) {memorySize : Nat} :
    s.stop ≤ memorySize ↔ ∀ cell ∈ s.cells, cell.1 < memorySize := by
  constructor
  · intro hstop cell hcell
    exact Nat.lt_of_lt_of_le (mem_cells_iff.mp (List.mem_map_of_mem hcell)).2 hstop
  · intro hcells
    have hpos := List.length_pos_iff.mpr h
    have hstop : s.stop = s.start.toNat + s.items.length := rfl
    obtain ⟨cell, hcell, hlast⟩ := List.mem_map.mp (mem_cells_iff.mpr
      (⟨by omega, by omega⟩ : s.start.toNat ≤ s.stop - 1 ∧ s.stop - 1 < s.stop))
    have := hcells cell hcell
    omega

end Section

namespace Program

namespace Span

/-- No cell lies in both spans. -/
def Apart (a b : Span) : Prop := ∀ cell, a.1 ≤ cell → cell < a.2 → b.1 ≤ cell → b.2 ≤ cell

theorem Apart.symm {a b : Span} (h : a.Apart b) : b.Apart a :=
  fun cell hb hb' ha => Nat.le_of_not_lt fun ha' => Nat.not_lt.mpr (h cell ha ha' hb) hb'

theorem before_trans (a b c : Span) (hab : a.before b = true) (hbc : b.before c = true) :
    a.before c = true := by
  simp only [before, Bool.or_eq_true, Bool.and_eq_true, decide_eq_true_eq, beq_iff_eq] at *
  omega

theorem before_total (a b : Span) : (a.before b || b.before a) = true := by
  simp only [before, Bool.or_eq_true, Bool.and_eq_true, decide_eq_true_eq, beq_iff_eq]
  omega

theorem start_le_of_before {a b : Span} (h : a.before b = true) : a.1 ≤ b.1 := by
  simp only [before, Bool.or_eq_true, Bool.and_eq_true, decide_eq_true_eq, beq_iff_eq] at h
  omega

/-- The first of sorted spans starts first. -/
theorem start_le_of_mem {a b : Span} {rest : List Span} (hsorted : (a :: rest).Pairwise (·.1 ≤ ·.1))
    (hb : b ∈ a :: rest) : a.1 ≤ b.1 := by
  rcases List.mem_cons.mp hb with rfl | hb
  · exact Nat.le_refl _
  · exact (List.pairwise_cons.mp hsorted).1 b hb

end Span

/-- **In a sorted list the comparison of neighbours finds every overlap.** -/
theorem firstOverlap?_eq_none_iff {spans : List Span} (hsorted : spans.Pairwise (·.1 ≤ ·.1))
    (hpos : ∀ a ∈ spans, a.1 < a.2) : firstOverlap? spans = none ↔ spans.Pairwise Span.Apart := by
  induction spans with
  | nil => simp [firstOverlap?]
  | cons a spans ih =>
    rw [List.pairwise_cons] at hsorted ⊢
    have hrest := ih hsorted.2 fun b hb => hpos b (List.mem_cons_of_mem a hb)
    cases spans with
    | nil => simp [firstOverlap?]
    | cons b rest =>
      have hab : a.1 ≤ b.1 := hsorted.1 b List.mem_cons_self
      have hb : b.1 < b.2 := hpos b (List.mem_cons_of_mem a List.mem_cons_self)
      rw [firstOverlap?]
      split
      · next hlt =>
        refine iff_of_false nofun fun h => ?_
        exact Nat.not_lt.mpr (h.1 b List.mem_cons_self b.1 hab hlt (Nat.le_refl _)) hb
      · next hle =>
        rw [hrest]
        refine ⟨fun h => ⟨fun c hc cell _ hcell hcell' => ?_, h⟩, And.right⟩
        -- every later span starts where `b` does or behind it, so behind the end of `a`
        have hbc : b.1 ≤ c.1 := Span.start_le_of_mem hsorted.2 hc
        omega

end Program

/-- The spans of two sections are apart exactly if the sections write no cell in common. -/
theorem Section.apart_iff {s t : Section} :
    s.span.Apart t.span ↔ (s.cells.map Prod.fst).Disjoint (t.cells.map Prod.fst) := by
  constructor
  · intro h cell hs ht
    have hs := mem_cells_iff.mp hs
    have ht := mem_cells_iff.mp ht
    exact Nat.not_lt.mpr (h cell hs.1 hs.2 ht.1) ht.2
  · intro h cell hs hs' ht
    exact Nat.le_of_not_lt fun ht' => h (mem_cells_iff.mpr ⟨hs, hs'⟩) (mem_cells_iff.mpr ⟨ht, ht'⟩)

namespace Program

/-! ## The spans of a program -/

theorem perm_spans (p : Program) :
    p.spans.Perm ((p.sections.filter fun s => !s.items.isEmpty).map Section.span) :=
  List.mergeSort_perm _ _

theorem sorted_spans (p : Program) : p.spans.Pairwise (·.1 ≤ ·.1) :=
  (List.pairwise_mergeSort Span.before_trans Span.before_total _).imp Span.start_le_of_before

theorem pos_of_mem_spans (p : Program) : ∀ a ∈ p.spans, a.1 < a.2 := by
  intro a ha
  obtain ⟨s, hs, rfl⟩ := List.mem_map.mp (p.perm_spans.mem_iff.mp ha)
  have hitems : s.items ≠ [] := by simpa using (List.mem_filter.mp hs).2
  exact Nat.lt_add_of_pos_right (List.length_pos_iff.mpr hitems)

/-- **The sections are apart exactly if no cell is written twice.** Sections without items are left out
of the comparison; they are apart from every other. -/
theorem firstOverlap?_spans_eq_none_iff {p : Program} :
    firstOverlap? p.spans = none ↔ (p.cells.map Prod.fst).Nodup := by
  rw [firstOverlap?_eq_none_iff p.sorted_spans p.pos_of_mem_spans,
    p.perm_spans.pairwise_iff Span.Apart.symm, List.pairwise_map, List.pairwise_filter, cells,
    List.map_flatMap, List.nodup_flatMap]
  constructor
  · intro h
    refine ⟨fun s _ => s.nodup_cells, h.imp fun {s t} hapart => ?_⟩
    show (s.cells.map Prod.fst).Disjoint (t.cells.map Prod.fst)
    by_cases hs : s.items = []
    · simp [s.cells_eq, cellsFrom, hs]
    by_cases ht : t.items = []
    · simp [t.cells_eq, cellsFrom, ht]
    exact Section.apart_iff.mp (hapart (by simpa using hs) (by simpa using ht))
  · rintro ⟨-, h⟩
    exact h.imp fun hdisjoint _ _ => Section.apart_iff.mpr hdisjoint

/-- **A program may be written exactly if every section ends in the memory and no cell is written
twice.** -/
theorem validate_eq_ok_iff {p : Program} {memorySize : Nat} :
    p.validate memorySize = .ok () ↔
      (∀ s ∈ p.sections, s.stop ≤ memorySize) ∧ (p.cells.map Prod.fst).Nodup := by
  have hfits : (p.sections.find? fun s => memorySize < s.stop) = none ↔
      ∀ s ∈ p.sections, s.stop ≤ memorySize := by
    simp only [List.find?_eq_none, decide_eq_true_eq, Nat.not_lt]
  rw [← hfits, ← firstOverlap?_spans_eq_none_iff, validate]
  cases p.sections.find? fun s => memorySize < s.stop with
  | some s => simp
  | none => cases firstOverlap? p.spans <;> simp

/-- A program that was validated has no cell outside of the memory. -/
theorem lt_of_validate {p : Program} {memorySize : Nat} (h : p.validate memorySize = .ok ())
    {cell : Nat × Word} (hcell : cell ∈ p.cells) : cell.1 < memorySize := by
  obtain ⟨s, hs, hmem⟩ := List.mem_flatMap.mp hcell
  have hstop := (validate_eq_ok_iff.mp h).1 s hs
  exact Nat.lt_of_lt_of_le (Section.mem_cells_iff.mp (List.mem_map_of_mem hmem)).2 hstop

/-- Sections that are not empty end in the memory exactly if every cell lies there. -/
theorem stop_le_iff {p : Program} (h : ∀ s ∈ p.sections, s.items ≠ []) {memorySize : Nat} :
    (∀ s ∈ p.sections, s.stop ≤ memorySize) ↔ ∀ cell ∈ p.cells, cell.1 < memorySize := by
  simp only [cells, List.mem_flatMap]
  constructor
  · rintro hstop cell ⟨s, hs, hcell⟩
    exact (Section.stop_le_iff (h s hs)).mp (hstop s hs) cell hcell
  · intro hcells s hs
    exact (Section.stop_le_iff (h s hs)).mpr fun cell hcell => hcells cell ⟨s, hs, hcell⟩

/-- A program that writes no cell twice is never refused for an overlap. -/
theorem validate_ne_overlap {p : Program} (h : (p.cells.map Prod.fst).Nodup) (memorySize cell : Nat) :
    p.validate memorySize ≠ .error (.overlap cell) := by
  rw [validate, firstOverlap?_spans_eq_none_iff.mpr h]
  split <;> simp

end Program

end Accumulator
