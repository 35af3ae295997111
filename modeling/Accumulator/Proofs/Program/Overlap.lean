import Accumulator.Proofs.Program.Validation
import Mathlib.Order.Bounds.Defs

/-!
# Where an overlap is reported

* `Span.Meet` — a cell lies in both of two spans.
* `firstOverlap?_eq_some` — in a sorted list the neighbours that are found meet in the lowest cell in which
  any two spans meet.
* `Program.WrittenTwice` — a cell is written by two sections; `writtenTwice_iff` says so of the spans.
* `validate_reports` — a program is refused for the first section that does not fit, else for the lowest
  cell that is written twice, else not at all.
-/

namespace Accumulator.Program

namespace Span

/-- The cell lies in the span. -/
def Holds (a : Span) (cell : Nat) : Prop := a.1 ≤ cell ∧ cell < a.2

/-- The cell lies in both spans. -/
def Meet (cell : Nat) (a b : Span) : Prop := a.Holds cell ∧ b.Holds cell

theorem not_meet_symm {cell : Nat} {a b : Span} (h : ¬Meet cell a b) : ¬Meet cell b a :=
  fun hmeet => h ⟨hmeet.2, hmeet.1⟩

end Span

/-- **The neighbours that are found meet in the lowest cell in which any two spans meet.** -/
theorem firstOverlap?_eq_some {spans : List Span} (hsorted : spans.Pairwise (·.1 ≤ ·.1))
    (hpos : ∀ a ∈ spans, a.1 < a.2) {cell : Nat} (h : firstOverlap? spans = some cell) :
    IsLeast {c | ¬spans.Pairwise fun a b => ¬Span.Meet c a b} cell := by
  fun_induction firstOverlap? spans with
  | case1 a b rest hlt =>
    cases h
    rw [List.pairwise_cons] at hsorted
    have hab : a.1 ≤ b.1 := hsorted.1 b List.mem_cons_self
    have hb : b.1 < b.2 := hpos b (List.mem_cons_of_mem a List.mem_cons_self)
    refine ⟨fun hnone => ?_, fun c hc => Nat.le_of_not_lt fun hlower => hc ?_⟩
    · exact (List.pairwise_cons.mp hnone).1 b List.mem_cons_self ⟨⟨hab, hlt⟩, Nat.le_refl _, hb⟩
    · -- below `b` there is at most the span `a`
      have hbehind : ∀ d ∈ b :: rest, ¬d.Holds c := by
        intro d hd hholds
        have hbd : b.1 ≤ d.1 := Span.start_le_of_mem hsorted.2 hd
        exact Nat.not_lt.mpr (Nat.le_trans hbd hholds.1) hlower
      exact List.pairwise_cons.mpr ⟨fun d hd hmeet => hbehind d hd hmeet.2,
        List.pairwise_of_forall_mem_list fun d hd _ _ hmeet => hbehind d hd hmeet.1⟩
  | case2 a b rest hle ih =>
    rw [List.pairwise_cons] at hsorted
    obtain ⟨hmeet, hleast⟩ := ih hsorted.2 (fun d hd => hpos d (List.mem_cons_of_mem a hd)) h
    refine ⟨fun hnone => hmeet (List.pairwise_cons.mp hnone).2, fun c hc => hleast fun hnone => hc ?_⟩
    refine List.pairwise_cons.mpr ⟨fun d hd hboth => ?_, hnone⟩
    -- every later span starts where `b` does or behind it, so behind the end of `a`
    have hbd : b.1 ≤ d.1 := Span.start_le_of_mem hsorted.2 hd
    exact hle (Nat.lt_of_le_of_lt (Nat.le_trans hbd hboth.2.1) hboth.1.2)
  | case3 => cases h

/-! ## Cells that two sections write -/

/-- Two sections write the cell. -/
def WrittenTwice (p : Program) (cell : Nat) : Prop :=
  ∃ (i j : Nat) (s t : Section), i < j ∧ p.sections[i]? = some s ∧ p.sections[j]? = some t ∧
    cell ∈ s.cells.map Prod.fst ∧ cell ∈ t.cells.map Prod.fst

theorem writtenTwice_iff {p : Program} {cell : Nat} :
    p.WrittenTwice cell ↔ ¬p.spans.Pairwise fun a b => ¬Span.Meet cell a b := by
  have hspans : (p.spans.Pairwise fun a b => ¬Span.Meet cell a b) ↔
      p.sections.Pairwise fun s t => ¬Span.Meet cell s.span t.span := by
    rw [p.perm_spans.pairwise_iff Span.not_meet_symm, List.pairwise_map, List.pairwise_filter]
    refine ⟨fun h => h.imp fun {s t} hboth hmeet => ?_, fun h => h.imp fun hmeet _ _ => hmeet⟩
    -- a section that holds the cell is not empty
    have hitems {s : Section} (hs : s.span.Holds cell) : (!s.items.isEmpty) = true := by
      have hlt : s.start.toNat < s.start.toNat + s.items.length := Nat.lt_of_le_of_lt hs.1 hs.2
      have hpos : 0 < s.items.length := Nat.lt_add_right_iff_pos.mp hlt
      simpa using List.length_pos_iff.mp hpos
    exact hboth (hitems hmeet.1) (hitems hmeet.2) hmeet
  rw [hspans, List.pairwise_iff_getElem]
  constructor
  · rintro ⟨i, j, s, t, hij, hs, ht, hcell, hcell'⟩ hnone
    obtain ⟨hi, rfl⟩ := List.getElem?_eq_some_iff.mp hs
    obtain ⟨hj, rfl⟩ := List.getElem?_eq_some_iff.mp ht
    exact hnone i j hi hj hij ⟨Section.mem_cells_iff.mp hcell, Section.mem_cells_iff.mp hcell'⟩
  · intro h
    push Not at h
    obtain ⟨i, j, hi, hj, hij, hmeet⟩ := h
    exact ⟨i, j, _, _, hij, List.getElem?_eq_getElem hi, List.getElem?_eq_getElem hj,
      Section.mem_cells_iff.mpr hmeet.1, Section.mem_cells_iff.mpr hmeet.2⟩

/-- The overlap that is found is the lowest cell that two sections write. -/
theorem isLeast_of_firstOverlap? {p : Program} {cell : Nat} (h : firstOverlap? p.spans = some cell) :
    IsLeast {c | p.WrittenTwice c} cell := by
  simp only [writtenTwice_iff]
  exact firstOverlap?_eq_some p.sorted_spans p.pos_of_mem_spans h

/-- **A program is refused for the first section that does not fit, else for the lowest cell that two
sections write.** It is accepted exactly if every section, also one without items, ends in the memory and
no cell is written twice. -/
theorem validate_reports (p : Program) (memorySize : Nat) :
    (p.validate memorySize = .ok () ↔
      (∀ s ∈ p.sections, s.stop ≤ memorySize) ∧ (p.cells.map Prod.fst).Nodup) ∧
    (∀ front s back, p.sections = front ++ s :: back → (∀ t ∈ front, t.stop ≤ memorySize) →
      memorySize < s.stop →
      p.validate memorySize = .error (.doesNotFit s.start s.items.length memorySize)) ∧
    ((∀ s ∈ p.sections, s.stop ≤ memorySize) → ¬(p.cells.map Prod.fst).Nodup →
      ∃ cell, IsLeast {c | p.WrittenTwice c} cell ∧ p.validate memorySize = .error (.overlap cell)) := by
  refine ⟨validate_eq_ok_iff, fun front s back hsections hfront hs => ?_, fun hfits hcollide => ?_⟩
  · have hfound : (p.sections.find? fun t => memorySize < t.stop) = some s := by
      rw [List.find?_eq_some_iff_append]
      exact ⟨decide_eq_true hs, front, back, hsections, fun t ht => by simpa using hfront t ht⟩
    rw [validate, hfound]
  · have hfound : (p.sections.find? fun t => memorySize < t.stop) = none := by
      simpa only [List.find?_eq_none, decide_eq_true_eq, Nat.not_lt] using hfits
    obtain ⟨cell, hcell⟩ : ∃ cell, firstOverlap? p.spans = some cell :=
      Option.ne_none_iff_exists'.mp fun hnone => hcollide (firstOverlap?_spans_eq_none_iff.mp hnone)
    refine ⟨cell, isLeast_of_firstOverlap? hcell, ?_⟩
    rw [validate, hfound, hcell]

/-- Two sections that share the cell 6, the one that starts in the other written first, and a section
without items far behind them. -/
def crowded : Program :=
  ofSections [⟨6, [.data 1, .data 2, .data 3]⟩, ⟨0xFFFF, []⟩,
    ⟨2, [.data 4, .data 5, .data 6, .data 7, .data 8]⟩]

theorem validate_reports_of_crowded :
    crowded.validate 10 = .error (.doesNotFit 0xFFFF 0 10) ∧
      crowded.validate 0x10000 = .error (.overlap 6) ∧ IsLeast {c | crowded.WrittenTwice c} 6 := by
  obtain ⟨-, hunfit, -⟩ := validate_reports crowded 10
  obtain ⟨-, -, hcollide⟩ := validate_reports crowded 0x10000
  have htight := hunfit [⟨6, [.data 1, .data 2, .data 3]⟩] ⟨0xFFFF, []⟩ _ rfl (by decide) (by decide)
  obtain ⟨cell, hleast, hcell⟩ := hcollide (by decide) (by decide)
  have hspans : crowded.spans = [(2, 7), (6, 9)] := by
    simp [crowded, ofSections, spans, List.mergeSort, Section.stop, Span.before]
  have hsix : crowded.validate 0x10000 = .error (.overlap 6) := by
    rw [validate, hspans]
    rfl
  rw [hsix] at hcell
  cases hcell
  exact ⟨htight, hsix, hleast⟩

end Accumulator.Program
