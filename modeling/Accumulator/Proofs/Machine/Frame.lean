import Accumulator.Proofs.Machine.Calls
import Mathlib.Data.List.Perm.Basic

/-!
# What a load changes, and what it depends on

* `writeCells_perm` — cells of which no two share an address may be written in any order.
* `Section.image` — what a section puts into memory: its first address and its words.
  `Program.SameImage` — two programs have the same sections, up to their order and to how the words are
  written. `load_of_sameImage` — they load alike.
* `Program.Recast` — instructions of a program replaced by data with the same word.
* `load_framed` — a load puts every cell of the program where it belongs and leaves the rest of the machine
  alone, or leaves all of it alone. Neither the order of the sections nor the kind of the items matters.
-/

namespace Accumulator

namespace Machine

/-- **Cells of which no two share an address may be written in any order.** -/
theorem writeCells_perm {cells cells' : List (Nat × Word)} (hperm : cells.Perm cells')
    (hnodup : (cells.map Prod.fst).Nodup) (memory : Array Word) :
    writeCells memory cells = writeCells memory cells' := by
  refine hperm.foldl_eq' (fun x hx y hy memory => ?_) memory
  by_cases haddress : x.1 = y.1
  · obtain rfl : x = y := List.inj_on_of_nodup_map hnodup hx hy haddress
    rfl
  · exact Array.setIfInBounds_comm _ _ haddress

end Machine

/-! ## What programs put into memory -/

/-- Lists that agree element by element under a function have the same values. -/
theorem map_eq_of_forall₂ {α β : Type} {R : α → α → Prop} {f : α → β} {xs ys : List α}
    (h : List.Forall₂ R xs ys) (hf : ∀ x y, R x y → f x = f y) : xs.map f = ys.map f := by
  induction h with
  | nil => rfl
  | cons hhead _ ih => rw [List.map_cons, List.map_cons, hf _ _ hhead, ih]

/-- The first address of a section and its words. -/
def Section.image (s : Section) : Address × List Word := (s.start, s.items.map Item.word)

namespace Section

theorem cells_eq_image (s : Section) :
    s.cells = (s.image.2.zipIdx s.image.1.toNat).map fun (word, address) => (address, word) := by
  rw [cells, image, List.zipIdx_map, List.map_map]
  rfl

theorem stop_eq_image (s : Section) : s.stop = s.image.1.toNat + s.image.2.length := by
  rw [stop, image, List.length_map]

/-- Instructions of a section replaced by data with the same word. -/
def Recast (s t : Section) : Prop :=
  s.start = t.start ∧ List.Forall₂
    (fun item item' => item = item' ∨ ∃ i, item = .command i ∧ item' = .data i.encode) s.items t.items

theorem Recast.image_eq {s t : Section} (h : s.Recast t) : s.image = t.image := by
  obtain ⟨hstart, hitems⟩ := h
  have hwords : s.items.map Item.word = t.items.map Item.word := by
    refine map_eq_of_forall₂ hitems fun item item' hitem => ?_
    rcases hitem with rfl | ⟨i, rfl, rfl⟩ <;> rfl
  rw [image, image, hstart, hwords]

end Section

namespace Program

/-- The programs have the same sections, up to their order and to how the words are written. -/
def SameImage (p q : Program) : Prop := (p.sections.map Section.image).Perm (q.sections.map Section.image)

/-- Instructions of a program replaced by data with the same word. -/
def Recast (p q : Program) : Prop := List.Forall₂ Section.Recast p.sections q.sections

theorem Recast.sameImage {p q : Program} (h : p.Recast q) : p.SameImage q := by
  have himages : p.sections.map Section.image = q.sections.map Section.image :=
    map_eq_of_forall₂ h fun _ _ hsection => hsection.image_eq
  rw [SameImage, himages]

namespace SameImage

variable {p q : Program}

theorem symm (h : p.SameImage q) : q.SameImage p := List.Perm.symm h

theorem cells_perm (h : p.SameImage q) : p.cells.Perm q.cells := by
  have hcells (p : Program) : p.cells = (p.sections.map Section.image).flatMap fun image =>
      (image.2.zipIdx image.1.toNat).map fun (word, address) => (address, word) := by
    rw [cells, List.flatMap_map]
    exact congrArg (p.sections.flatMap ·) (funext Section.cells_eq_image)
  rw [hcells p, hcells q]
  exact List.Perm.flatMap_right _ h

theorem stop_le (h : p.SameImage q) {memorySize : Nat} (hp : ∀ s ∈ p.sections, s.stop ≤ memorySize) :
    ∀ t ∈ q.sections, t.stop ≤ memorySize := by
  intro t ht
  obtain ⟨s, hs, himage⟩ := List.mem_map.mp (h.mem_iff.mpr (List.mem_map_of_mem ht))
  rw [t.stop_eq_image, ← himage, ← s.stop_eq_image]
  exact hp s hs

theorem validate_eq_ok (h : p.SameImage q) {memorySize : Nat} (hp : p.validate memorySize = .ok ()) :
    q.validate memorySize = .ok () := by
  obtain ⟨hfits, hnodup⟩ := validate_eq_ok_iff.mp hp
  exact validate_eq_ok_iff.mpr ⟨h.stop_le hfits, (h.cells_perm.map Prod.fst).nodup_iff.mp hnodup⟩

end SameImage

end Program

namespace Machine

variable {p q : Program} {m m' : Machine}

theorem load_of_sameImage (h : p.SameImage q) (hload : m.load p = .ok m') : m.load q = .ok m' := by
  obtain ⟨hvalid, rfl⟩ := load_eq_ok hload
  have hnodup := (Program.validate_eq_ok_iff.mp hvalid).2
  rw [load_eq, h.validate_eq_ok hvalid, writeCells_perm h.cells_perm hnodup]

/-- **A load is atomic and framed, and depends on the words of the sections only.** A load that fails leaves
the machine as it is. One that succeeds puts the word of each cell of the program into its cell, which lies
in the memory, and leaves every other word and all else of the machine alone. The program with its sections
in another order, or with data in place of instructions, is loaded exactly if the program is, and gives the
same machine. -/
theorem load_framed (m : Machine) (p : Program) :
    (∀ error, m.load p = .error error → ∀ n m', m.Answers (.load p) n m' → m' = m) ∧
    (∀ m', m.load p = .ok m' →
      (∀ cell ∈ p.cells, cell.1 < m.memorySize ∧ m'.memory[cell.1]? = some cell.2) ∧
      (∀ a, a ∉ p.cells.map Prod.fst → m'.memory[a]? = m.memory[a]?) ∧
      m' = { m with memory := m'.memory }) ∧
    (∀ q : Program, p.sections.Perm q.sections → ∀ m', m.load q = .ok m' ↔ m.load p = .ok m') ∧
    ∀ q, p.Recast q → ∀ m', m.load q = .ok m' ↔ m.load p = .ok m' := by
  have halike {q : Program} (h : p.SameImage q) (m' : Machine) : m.load q = .ok m' ↔ m.load p = .ok m' :=
    ⟨load_of_sameImage h.symm, load_of_sameImage h⟩
  refine ⟨fun error herror n m' hanswer => ?_, fun m' hload => ⟨fun cell hcell => ?_, fun a ha => ?_, ?_⟩,
    fun q hperm => halike (hperm.map Section.image), fun q hrecast => halike hrecast.sameImage⟩
  · cases hanswer with
    | loaded hload => cases herror.symm.trans (loading_eq_ok.mp hload)
    | refused hload => exact (loading_eq_error.mp hload).2
  · exact ⟨Program.lt_of_validate (load_eq_ok hload).1 hcell, getElem?_of_load hload hcell⟩
  · rw [(load_eq_ok hload).2]
    exact getElem?_writeCells_of_not_mem ha
  · rw [(load_eq_ok hload).2]

/-- A machine that has halted, with something in every cell. -/
def littered : Machine where
  memory := #[9, 9, 9, 9]
  accumulator := 7
  pc := 3
  status := .halted
  bus := Bus.standard #[1]

/-- A program that writes its last cell first. -/
def backward : Program := .ofSections [⟨3, [.command ⟨.halt, .implied, 0⟩]⟩, ⟨0, [.data 5, .data 6]⟩]

theorem load_framed_of_littered :
    ∃ m', littered.load backward = .ok m' ∧ m'.memory[3]? = some 0x11000000 ∧
      m'.memory[2]? = some 9 ∧ m' = { littered with memory := m'.memory } ∧
      littered.load (.ofSections [⟨0, [.data 5, .data 6]⟩, ⟨3, [.command ⟨.halt, .implied, 0⟩]⟩]) =
        .ok m' ∧
      littered.load (.ofSections [⟨3, [.data 0x11000000]⟩, ⟨0, [.data 5, .data 6]⟩]) = .ok m' := by
  obtain ⟨-, hloaded, hperm, hrecast⟩ := load_framed littered backward
  have hvalid : backward.validate littered.memorySize = .ok () :=
    Program.validate_eq_ok_iff.mpr ⟨by decide, by decide⟩
  obtain ⟨m', hload⟩ := exists_load_iff.mpr hvalid
  obtain ⟨hcells, hothers, hframe⟩ := hloaded m' hload
  have hswapped : backward.sections.Perm
      [⟨0, [.data 5, .data 6]⟩, ⟨3, [.command ⟨.halt, .implied, 0⟩]⟩] := List.Perm.swap _ _ []
  refine ⟨m', hload, (hcells (3, 0x11000000) (by decide)).2, hothers 2 (by decide), hframe,
    (hperm (.ofSections _) hswapped m').mpr hload, (hrecast _ ?_ m').mpr hload⟩
  refine .cons ⟨rfl, .cons (.inr ⟨_, rfl, by decide⟩) .nil⟩ (.cons ⟨rfl, ?_⟩ .nil)
  exact .cons (.inl rfl) (.cons (.inl rfl) .nil)

end Machine

end Accumulator
