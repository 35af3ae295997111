import Accumulator.Machine.Basic
import Accumulator.Proofs.Program.Validation

/-!
# Loading a program

* `getElem?_writeCells_of_mem`, `getElem?_writeCells_of_not_mem` — writing cells of which no two share
  an address puts each word where it belongs, and leaves the rest of the memory.
* `load_eq_ok` — a load changes the memory only, and only if the whole program fits.
* `loading_eq_ok`, `loading_eq_error` — the same of the computation: where it fails, nothing has changed.
* `exists_load_iff`, `load_eq_error_iff` — a load succeeds or fails as the validation of the program.
-/

namespace Accumulator.Machine

theorem writeCells_cons (memory : Array Word) (cell : Nat × Word) (cells : List (Nat × Word)) :
    writeCells memory (cell :: cells) =
      writeCells (memory.setIfInBounds cell.1 cell.2) cells := rfl

@[simp] theorem size_writeCells (memory : Array Word) (cells : List (Nat × Word)) :
    (writeCells memory cells).size = memory.size := by
  induction cells generalizing memory with
  | nil => rfl
  | cons cell cells ih => rw [writeCells_cons, ih, Array.size_setIfInBounds]

theorem getElem?_writeCells_of_not_mem {memory : Array Word} {cells : List (Nat × Word)} {a : Nat}
    (h : a ∉ cells.map Prod.fst) : (writeCells memory cells)[a]? = memory[a]? := by
  induction cells generalizing memory with
  | nil => rfl
  | cons cell cells ih =>
    rw [List.map_cons, List.mem_cons, not_or] at h
    rw [writeCells_cons, ih h.2, Array.getElem?_setIfInBounds_ne (Ne.symm h.1)]

theorem getElem?_writeCells_of_mem {memory : Array Word} {cells : List (Nat × Word)}
    (hnodup : (cells.map Prod.fst).Nodup) {a : Nat} {word : Word} (hmem : (a, word) ∈ cells)
    (ha : a < memory.size) : (writeCells memory cells)[a]? = some word := by
  induction cells generalizing memory with
  | nil => cases hmem
  | cons cell cells ih =>
    rw [List.map_cons, List.nodup_cons] at hnodup
    rw [writeCells_cons]
    rcases List.mem_cons.mp hmem with rfl | hmem
    · rw [getElem?_writeCells_of_not_mem hnodup.1, Array.getElem?_setIfInBounds_self_of_lt ha]
    · exact ih hnodup.2 hmem (by rw [Array.size_setIfInBounds]; exact ha)

theorem load_eq_ok {m m' : Machine} {p : Program} (h : m.load p = .ok m') :
    p.validate m.memorySize = .ok () ∧ m' = { m with memory := writeCells m.memory p.cells } := by
  rw [load_eq] at h
  split at h
  · next hvalid =>
    cases h
    exact ⟨hvalid, rfl⟩
  · cases h

theorem loading_eq_ok {m m' : Machine} {p : Program} :
    loading p m = .ok () m' ↔ m.load p = .ok m' := by
  rw [load_eq, loading]
  cases p.validate m.memorySize <;> simp

/-- A program that is refused leaves the machine as it was. -/
theorem loading_eq_error {m m' : Machine} {p : Program} {error : ProgramError} :
    loading p m = .error error m' ↔ m.load p = .error error ∧ m' = m := by
  rw [load_eq, loading]
  cases p.validate m.memorySize <;> simp [eq_comm]

/-- A program loads exactly if the memory takes it. -/
theorem exists_load_iff {m : Machine} {p : Program} :
    (∃ m', m.load p = .ok m') ↔ p.validate m.memorySize = .ok () := by
  rw [load_eq]
  cases p.validate m.memorySize <;> simp

/-- A load fails for the reason that the program is refused for. -/
theorem load_eq_error_iff {m : Machine} {p : Program} {error : ProgramError} :
    m.load p = .error error ↔ p.validate m.memorySize = .error error := by
  rw [load_eq]
  cases p.validate m.memorySize <;> simp

/-- **After a load the memory holds each word of the program in its cell.** -/
theorem getElem?_of_load {m m' : Machine} {p : Program} (h : m.load p = .ok m') {a : Nat}
    {word : Word} (hmem : (a, word) ∈ p.cells) : m'.memory[a]? = some word := by
  obtain ⟨hvalid, rfl⟩ := load_eq_ok h
  have hnodup := (Program.validate_eq_ok_iff.mp hvalid).2
  exact getElem?_writeCells_of_mem hnodup hmem (Program.lt_of_validate hvalid hmem)

end Accumulator.Machine
