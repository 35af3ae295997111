import Accumulator.Program.Basic

/-!
# The cells of a program

* `cellsFrom` — the cells of items that stand one behind the other; those of a section are such.
* `mem_cellsFrom_iff`, `map_fst_cellsFrom` — each item has the cell of its place.
* `mem_cells_of_item` — so has an item of a section of a program.
-/

namespace Accumulator

/-- The cells of consecutive items, the first at `start`. -/
def cellsFrom (start : Nat) (items : List Item) : List (Nat × Word) :=
  (items.zipIdx start).map fun (item, address) => (address, item.word)

theorem Section.cells_eq (s : Section) : s.cells = cellsFrom s.start.toNat s.items := rfl

theorem cellsFrom_append (start : Nat) (xs ys : List Item) :
    cellsFrom start (xs ++ ys) = cellsFrom start xs ++ cellsFrom (start + xs.length) ys := by
  rw [cellsFrom, List.zipIdx_append, List.map_append]
  rfl

theorem map_fst_cellsFrom (start : Nat) (items : List Item) :
    (cellsFrom start items).map Prod.fst = List.range' start items.length := by
  rw [← List.zipIdx_map_snd start items, cellsFrom, List.map_map]
  rfl

theorem mem_cellsFrom_iff {start : Nat} {items : List Item} {cell : Nat × Word} :
    cell ∈ cellsFrom start items ↔
      ∃ k item, items[k]? = some item ∧ cell = (start + k, item.word) := by
  unfold cellsFrom
  constructor
  · intro h
    obtain ⟨⟨item, address⟩, hmem, rfl⟩ := List.mem_map.mp h
    obtain ⟨hle, hitem⟩ := List.mk_mem_zipIdx_iff_le_and_getElem?_sub.mp hmem
    exact ⟨address - start, item, hitem, by rw [Nat.add_sub_cancel' hle]⟩
  · rintro ⟨k, item, hitem, rfl⟩
    refine List.mem_map.mpr ⟨(item, start + k), ?_, rfl⟩
    rw [List.mk_mem_zipIdx_iff_le_and_getElem?_sub, Nat.add_sub_cancel_left]
    exact ⟨Nat.le_add_right start k, hitem⟩

/-- An item of a section has the cell of its place. -/
theorem Program.mem_cells_of_item {p : Program} {s : Section} (hs : s ∈ p.sections) {k : Nat}
    {item : Item} (hitem : s.items[k]? = some item) :
    (s.start.toNat + k, item.word) ∈ p.cells :=
  List.mem_flatMap.mpr ⟨s, hs, mem_cellsFrom_iff.mpr ⟨k, item, hitem, rfl⟩⟩

end Accumulator
