import Mathlib.Data.List.TakeWhile
import Accumulator.Text.Blank
import Accumulator.Text.Fields

/-!
# Pieces and the blanks around them

* `split_append`, `split_induction` — a text is one piece, or a piece with a separator and a text behind
  it.
* `fields_append`, `fields_separators_append` — the same of the pieces that hold something.
* `Blank` — a text of blanks only; `trim_surround` — such a text before or behind another is trimmed off.
* `map_trim_split_trim` — the pieces of a trimmed text are those of the text, up to the blanks around
  each.
-/

namespace Accumulator.Text

variable {separates : Char → Bool} {piece text front back : List Char}

/-! ## Pieces -/

theorem split_of_free (h : ∀ c ∈ piece, separates c = false) : split separates piece = [piece] := by
  induction piece with
  | nil => rfl
  | cons c piece ih =>
    rw [List.forall_mem_cons] at h
    rw [split_cons, h.1, ih h.2]
    rfl

theorem split_append {c : Char} (h : ∀ d ∈ piece, separates d = false) (hc : separates c = true)
    (rest : List Char) : split separates (piece ++ c :: rest) = piece :: split separates rest := by
  induction piece with
  | nil => rw [List.nil_append, split_cons, if_pos hc]
  | cons d piece ih =>
    rw [List.forall_mem_cons] at h
    rw [List.cons_append, split_cons, h.1, ih h.2]
    rfl

/-- Induction on the pieces of a text, the first one first. -/
theorem split_induction {motive : List Char → Prop} (separates : Char → Bool)
    (last : ∀ piece, (∀ c ∈ piece, separates c = false) → motive piece)
    (next : ∀ piece c rest, (∀ d ∈ piece, separates d = false) → separates c = true → motive rest →
      motive (piece ++ c :: rest))
    (text : List Char) : motive text := by
  -- The piece in front of the text is carried along, until a separator ends it.
  suffices ∀ piece, (∀ c ∈ piece, separates c = false) → motive (piece ++ text) from
    this [] nofun
  induction text with
  | nil =>
    intro piece hpiece
    rw [List.append_nil]
    exact last piece hpiece
  | cons c text ih =>
    intro piece hpiece
    cases hc : separates c with
    | true => exact next piece c text hpiece hc (ih [] nofun)
    | false =>
      have hlonger : ∀ d ∈ piece ++ [c], separates d = false :=
        List.forall_mem_append.mpr ⟨hpiece, List.forall_mem_singleton.mpr hc⟩
      have hmotive := ih (piece ++ [c]) hlonger
      rwa [List.append_assoc, List.singleton_append] at hmotive

/-! ## Pieces that hold something -/

theorem fields_of_free (hne : piece ≠ []) (h : ∀ c ∈ piece, separates c = false) :
    fields separates piece = [piece] := by
  rw [fields, split_of_free h, List.filter_cons, if_pos (by simpa using hne), List.filter_nil]

theorem fields_append {c : Char} (hne : piece ≠ []) (h : ∀ d ∈ piece, separates d = false)
    (hc : separates c = true) (rest : List Char) :
    fields separates (piece ++ c :: rest) = piece :: fields separates rest := by
  rw [fields, split_append h hc, List.filter_cons, if_pos (by simpa using hne), fields]

/-- Separators in front of a text make no difference to what its pieces hold. -/
theorem fields_separators_append {separators : List Char} (h : ∀ c ∈ separators, separates c = true)
    (text : List Char) : fields separates (separators ++ text) = fields separates text := by
  induction separators with
  | nil => rfl
  | cons c separators ih =>
    rw [List.forall_mem_cons] at h
    rw [List.cons_append, fields, split_cons, if_pos h.1, ← ih h.2]
    rfl

/-! ## Blanks -/

/-- Nothing but blanks. -/
def Blank (text : List Char) : Prop := ∀ c ∈ text, isBlank c = true

instance (text : List Char) : Decidable (Blank text) :=
  List.decidableBAll (fun c => isBlank c = true) text

theorem blank_nil : Blank [] := nofun

theorem trimEnd_append (text : List Char) (h : Blank back) : trimEnd (text ++ back) = trimEnd text := by
  have hback : ∀ c ∈ back.reverse, isBlank c = true := fun c hc => h c (List.mem_reverse.mp hc)
  rw [trimEnd, List.reverse_append, List.dropWhile_append_of_pos hback, trimEnd]

/-- Blanks around a text are trimmed off. -/
theorem trim_surround (hfront : Blank front) (hback : Blank back) (text : List Char) :
    trim (front ++ text ++ back) = trim text := by
  rw [List.append_assoc, trim, List.dropWhile_append_of_pos hfront, trim, List.dropWhile_append]
  split
  · next hempty =>
    rw [List.isEmpty_iff] at hempty
    rw [hempty, List.dropWhile_eq_nil_iff.mpr hback]
  · exact trimEnd_append _ hback

/-- A text is what trimming leaves of it, with blanks around. -/
theorem exists_eq_surround_trim (text : List Char) :
    ∃ front back, Blank front ∧ Blank back ∧ text = front ++ trim text ++ back := by
  refine ⟨text.takeWhile isBlank, ((text.dropWhile isBlank).reverse.takeWhile isBlank).reverse,
    fun c hc => ?_, fun c hc => ?_, ?_⟩
  · exact (List.mem_takeWhile_imp hc)
  · exact List.mem_takeWhile_imp (List.mem_reverse.mp hc)
  · have hend : trim text ++ ((text.dropWhile isBlank).reverse.takeWhile isBlank).reverse =
        text.dropWhile isBlank := by
      rw [trim, trimEnd, ← List.reverse_append, List.takeWhile_append_dropWhile, List.reverse_reverse]
    rw [List.append_assoc, hend, List.takeWhile_append_dropWhile]

@[simp] theorem trim_trim (text : List Char) : trim (trim text) = trim text := by
  obtain ⟨front, back, hfront, hback, htext⟩ := exists_eq_surround_trim text
  have htrim := trim_surround hfront hback (trim text)
  rw [← htext] at htrim
  exact htrim.symm

/-! ## The pieces of a text with blanks around it -/

theorem map_trim_split_surround (hblank : ∀ c, isBlank c = true → separates c = false)
    (hfront : Blank front) (hback : Blank back) (text : List Char) :
    (split separates (front ++ text ++ back)).map trim = (split separates text).map trim := by
  induction text using split_induction separates generalizing front with
  | last piece hpiece =>
    have hall : ∀ c ∈ front ++ piece ++ back, separates c = false :=
      List.forall_mem_append.mpr ⟨List.forall_mem_append.mpr
        ⟨fun c hc => hblank c (hfront c hc), hpiece⟩, fun c hc => hblank c (hback c hc)⟩
    rw [split_of_free hall, split_of_free hpiece, List.map_singleton, List.map_singleton,
      trim_surround hfront hback]
  | next piece c rest hpiece hc ih =>
    have hall : ∀ d ∈ front ++ piece, separates d = false :=
      List.forall_mem_append.mpr ⟨fun d hd => hblank d (hfront d hd), hpiece⟩
    have hfirst : trim (front ++ piece) = trim piece := by
      simpa using trim_surround hfront blank_nil piece
    have htext : front ++ (piece ++ c :: rest) ++ back = front ++ piece ++ c :: (rest ++ back) := by
      simp only [List.append_assoc, List.cons_append]
    rw [htext, split_append hall hc, split_append hpiece hc, List.map_cons, List.map_cons, hfirst]
    exact congrArg _ (ih blank_nil)

/-- The pieces of a trimmed text are the pieces of the text, up to the blanks around each. -/
theorem map_trim_split_trim (hblank : ∀ c, isBlank c = true → separates c = false) (text : List Char) :
    (split separates (trim text)).map trim = (split separates text).map trim := by
  obtain ⟨front, back, hfront, hback, htext⟩ := exists_eq_surround_trim text
  have hpieces := map_trim_split_surround hblank hfront hback (trim text)
  rw [← htext] at hpieces
  exact hpieces.symm

end Accumulator.Text
