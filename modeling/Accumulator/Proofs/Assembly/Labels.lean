import Accumulator.Proofs.Assembly.Acceptance
import Mathlib.Data.List.Induction

/-!
# Every label is bound to the next cell

* `Layout.EndsAt` — where a program ends: at its last origin if no cell follows it, else behind its
  last cell, or at zero if it has neither. `endsAt_stop` — that is where the cursor comes to stand.
* `label_bound` — a label has the address of the first line from its own on that takes cells, or of the
  end of the program; the names of the table are the names of the source.
-/

namespace Accumulator

/-- The program ends at the cell: the lines behind the last origin, or the last line that takes
cells, neither move the cursor nor take cells. -/
inductive Layout.EndsAt (layout : Layout) (lines : List Line) : Nat → Prop
  | origin {before after : List Line} {line : Line} {address : Address}
      (split : lines = before ++ line :: after)
      (statement : line.statement = some (.origin address))
      (still : ∀ other ∈ after, other.statement = none) : EndsAt layout lines address.toNat
  | cell {before after : List Line} {line : Line} {address : Address}
      (split : lines = before ++ line :: after) (occupies : line.occupies = true)
      (found : layout.addressOf? line.number = some address)
      (still : ∀ other ∈ after, other.statement = none) :
      EndsAt layout lines (address.toNat + line.size)
  | zero (still : ∀ line ∈ lines, line.statement = none) : EndsAt layout lines 0

namespace Layout

variable {source : String} {lines : List Line} {layout : Layout}

/-- A line without a statement does not move the end. -/
theorem EndsAt.concat {line : Line} {cell : Nat} (h : layout.EndsAt lines cell)
    (hline : line.statement = none) : layout.EndsAt (lines ++ [line]) cell := by
  have hstill : ∀ {after : List Line}, (∀ other ∈ after, other.statement = none) →
      ∀ other ∈ after ++ [line], other.statement = none := by
    intro after hafter other hother
    rcases List.mem_append.mp hother with hother | hother
    · exact hafter other hother
    · rw [List.mem_singleton.mp hother]
      exact hline
  cases h with
  | @origin before after last address split statement still =>
    have hsplit : lines ++ [line] = before ++ last :: (after ++ [line]) := by
      rw [split, List.append_assoc, List.cons_append]
    exact .origin hsplit statement (hstill still)
  | @cell before after last address split occupies found still =>
    have hsplit : lines ++ [line] = before ++ last :: (after ++ [line]) := by
      rw [split, List.append_assoc, List.cons_append]
    exact .cell hsplit occupies found (hstill still)
  | zero still => exact .zero (hstill still)

/-- **The cursor behind the lines is where the program ends.** The induction goes from the last line
to the first, since only the last lines decide. -/
theorem endsAt_stop
    (h : ∀ p ∈ Line.cursors 0 lines, p.2.occupies = true →
      ∃ address, layout.addressOf? p.2.number = some address ∧ address.toNat = p.1) :
    layout.EndsAt lines (Line.stop 0 lines) := by
  induction lines using List.reverseRecOn with
  | nil => exact .zero nofun
  | append_singleton lines line ih =>
    rw [Line.cursors_append] at h
    have hlines := ih fun p hp => h p (List.mem_append_left _ hp)
    rw [Line.stop_append]
    show layout.EndsAt (lines ++ [line]) (line.next (Line.stop 0 lines))
    cases hoccupies : line.occupies with
    | true =>
      obtain ⟨address, hfound, haddress⟩ :=
        h (Line.stop 0 lines, line) (List.mem_append_right _ List.mem_cons_self) hoccupies
      have hstop : Line.stop 0 lines = address.toNat := haddress.symm
      rw [Line.next_of_occupies hoccupies, hstop]
      exact .cell rfl hoccupies hfound nofun
    | false =>
      unfold Line.occupies at hoccupies
      unfold Line.next
      cases hstatement : line.statement with
      | none =>
        rw [Line.size_of_statement_eq_none hstatement]
        exact hlines.concat hstatement
      | some statement =>
        cases statement with
        | origin address => exact .origin rfl hstatement nofun
        | words items => simp [hstatement] at hoccupies
        | instruction code => simp [hstatement] at hoccupies

/-- **Every label is bound to the next cell.** A label has the address of the first line from its own
on that takes cells, whatever lies between, and if there is none the address of the end of the
program. The table holds the names of the source, in their order, and no other. -/
theorem label_bound (hread : Line.readAll source = .ok lines) (hbuild : build lines = .ok layout) :
    (∀ before line after name, lines = before ++ line :: after → name ∈ line.labels →
      ∃ address, layout.labels.address? name = some address ∧
        (∀ next, (line :: after).find? (·.occupies) = some next →
          layout.addressOf? next.number = some address) ∧
        ((line :: after).find? (·.occupies) = none → layout.EndsAt lines address.toNat)) ∧
    layout.labels.toList.map Prod.fst = lines.flatMap (·.labels) ∧
    ∀ name, (∃ address, layout.labels.address? name = some address) ↔
      ∃ line ∈ lines, name ∈ line.labels := by
  have hlines := Line.readAll_wellFormed hread
  have hnumbers := Line.nodup_number hread
  have hcursors : ∀ p ∈ Line.cursors 0 lines, p.2.occupies = true →
      ∃ address, layout.addressOf? p.2.number = some address ∧ address.toNat = p.1 :=
    fun p hp hoccupies => addressOf?_eq_cursor hbuild hlines hnumbers hp hoccupies
  have hnames : layout.labels.bound.map (·.1.name) = lines.flatMap (·.labels) := by
    rw [(labels_of_build hbuild).1, Line.map_name_bindings]
  refine ⟨?_, ?_, ?_⟩
  · intro before line after name hsplit hname
    have hmem := Line.mem_bindings 0 before after hname
    rw [← hsplit] at hmem
    obtain ⟨address, hfound, hcell⟩ := address?_of_mem_bindings hbuild hmem
    refine ⟨address, hfound, fun next hnext => ?_, fun hnone => ?_⟩
    · have hanchor := Line.anchor_of_find?_eq_some (Line.stop 0 before) hnext
      have hcursor : (address.toNat, next) ∈ Line.cursors 0 lines := by
        rw [hsplit, Line.cursors_append, hcell]
        exact List.mem_append_right _ hanchor
      obtain ⟨other, hother, heq⟩ := hcursors _ hcursor (List.find?_some hnext)
      rw [hother, UInt16.toNat_inj.mp heq]
    · rw [hcell, Line.anchor_of_find?_eq_none hnone, ← Line.stop_append, ← hsplit]
      exact endsAt_stop hcursors
  · rw [← hnames, SymbolTable.map_name_bound]
  · intro name
    have hiff : name ∈ layout.labels.bound.map (·.1.name) ↔ ∃ line ∈ lines, name ∈ line.labels := by
      rw [hnames, List.mem_flatMap]
    rw [← hiff, ← not_iff_not, ← SymbolTable.find?_eq_none_iff, SymbolTable.address?]
    cases layout.labels.find? name with
    | none => simp
    | some symbol => simp

end Layout

/-! ## Labels in front of an origin and behind the last cell -/

namespace Forward

/-- A label that waits over an empty line and an origin, and one behind the last cell. -/
def source : String := "DATA:\n\nORG 16\nWORD 1\nDONE: ORG 3\n"

/-- A row of one word. -/
def row : Line := ⟨4, [], some (.words [.literal 1])⟩

def lines : List Line :=
  [⟨1, ["DATA"], none⟩, ⟨2, [], none⟩, ⟨3, [], some (.origin 16)⟩, row,
    ⟨5, ["DONE"], some (.origin 3)⟩]

def layout : Layout where
  labels := ⟨[("DONE", ⟨5, 3⟩), ("DATA", ⟨1, 16⟩)]⟩
  blocks := [⟨16, [⟨16, row⟩]⟩]

theorem build_lines : Layout.build lines = .ok layout := by
  simp [Layout.build, Walk.ofLines, Walk.step, Walk.bindPending, Walk.bindLabel, Walk.place,
    Walk.occupy, Walk.allBlocks, Walk.moveTo, Line.size, Statement.size, addressSpace,
    Address.ofNat?, SymbolTable.define, SymbolTable.find?, List.lookup_cons, lines, layout, row]

theorem label_bound_forward :
    Line.readAll source = .ok lines ∧ Layout.build lines = .ok layout ∧
      (∃ address, layout.labels.address? "DATA" = some address ∧
        layout.addressOf? 4 = some address) ∧
      (∃ address, layout.labels.address? "DONE" = some address ∧
        layout.EndsAt lines address.toNat) ∧
      ¬ ∃ address, layout.labels.address? "ROW" = some address := by
  have hread : Line.readAll source = .ok lines := rfl
  obtain ⟨hlabels, -, hnames⟩ := Layout.label_bound hread build_lines
  obtain ⟨data, hdata, hnext, -⟩ := hlabels [] _ _ "DATA" rfl (by decide)
  obtain ⟨done, hdone, -, hend⟩ := hlabels (lines.take 4) ⟨5, ["DONE"], some (.origin 3)⟩ [] "DONE"
    rfl (by decide)
  refine ⟨hread, build_lines, ⟨data, hdata, hnext row rfl⟩, ⟨done, hdone, hend rfl⟩, ?_⟩
  rw [hnames]
  decide

end Forward

end Accumulator
