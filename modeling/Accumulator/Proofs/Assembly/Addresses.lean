import Accumulator.Assembly.Encode
import Accumulator.Proofs.Assembly.Placement

/-!
# Addresses by line number

The addresses of the lines can be kept in a map by the numbers of the lines, and each line be encoded at the
address that the map has for its number. Both say the same as long as every line has a number of its own,
as the lines of a source have.

* `Layout.addresses` — the map. A line that is entered later takes the place of one with its number.
  `getElem?_addresses` — it has for every number what `Layout.addressOf?` finds.
* `addressOf?_of_placed` — a placed line of a source is found by its number.
* `Layout.readdress` — the lines at the addresses of the map. `encode_readdress` — for a source nothing moves,
  so its program is that of the layout.
-/

namespace Accumulator

/-- The lines of a block at the addresses that a map has for their numbers. A line without one is left out. -/
def Block.readdress (addresses : Std.HashMap Nat Address) (block : Block) : Block :=
  ⟨block.start, block.lines.filterMap fun p => addresses[p.line.number]?.map (⟨·, p.line⟩)⟩

theorem Block.readdress_eq {addresses : Std.HashMap Nat Address} {block : Block}
    (h : ∀ p ∈ block.lines, addresses[p.line.number]? = some p.address) :
    block.readdress addresses = block := by
  have hlines : block.lines.filterMap (fun p => addresses[p.line.number]?.map (⟨·, p.line⟩)) =
      block.lines.filterMap some :=
    List.filterMap_congr fun p hp => by rw [h p hp, Option.map_some]
  rw [readdress, hlines, List.filterMap_some]

namespace Layout

/-- The first cell of each placed line, by the number of the line. -/
def addresses (layout : Layout) : Std.HashMap Nat Address :=
  layout.placed.foldl (fun addresses p => addresses.insert p.line.number p.address) {}

theorem getElem?_foldl_insert (placed : List Placed) (addresses : Std.HashMap Nat Address) (number : Nat) :
    (placed.foldl (fun addresses p => addresses.insert p.line.number p.address) addresses)[number]? =
      ((placed.reverse.find? (·.line.number == number)).map (·.address)).or addresses[number]? := by
  induction placed generalizing addresses with
  | nil => rfl
  | cons p placed ih =>
    rw [List.foldl_cons, ih, Std.HashMap.getElem?_insert, List.reverse_cons, List.find?_append]
    cases placed.reverse.find? (·.line.number == number) with
    | some q => rfl
    | none => cases hsame : p.line.number == number <;> simp [hsame]

/-- **The map has for every number what is found by it.** -/
theorem getElem?_addresses (layout : Layout) (number : Nat) :
    layout.addresses[number]? = layout.addressOf? number := by
  rw [addresses, getElem?_foldl_insert, addressOf?, Std.HashMap.getElem?_empty, Option.or_none]

/-- The lines at the addresses that the map has for their numbers. -/
def readdress (layout : Layout) : Layout :=
  { layout with blocks := layout.blocks.map (Block.readdress layout.addresses) }

variable {source : String} {lines : List Line} {layout : Layout}
  (hread : Line.readAll source = .ok lines) (hbuild : build lines = .ok layout)

include hread hbuild

/-- A placed line of a source is found by its number. -/
theorem addressOf?_of_placed {p : Placed} (hp : p ∈ layout.placed) :
    layout.addressOf? p.line.number = some p.address := by
  have hlines := Line.readAll_wellFormed hread
  have hline := (mem_of_placed hbuild hlines hp).1
  exact (addressOf?_eq_some_iff hbuild hlines (Line.nodup_number hread) hline).mpr hp

/-- **The lines of a source are placed where the map says.** -/
theorem readdress_eq : layout.readdress = layout := by
  have hblocks : layout.blocks.map (Block.readdress layout.addresses) = layout.blocks := by
    conv_rhs => rw [← List.map_id layout.blocks]
    refine List.map_congr_left fun block hblock => Block.readdress_eq fun p hp => ?_
    rw [getElem?_addresses]
    exact addressOf?_of_placed hread hbuild (List.mem_flatMap.mpr ⟨block, hblock, hp⟩)
  rw [readdress, hblocks]

/-- **The program of a source is the same with the addresses of the map.** -/
theorem encode_readdress : layout.readdress.encode = layout.encode := by
  rw [readdress_eq hread hbuild]

end Layout

end Accumulator
