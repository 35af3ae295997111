import Accumulator.Proofs.Text.Pieces
import Accumulator.Proofs.Text.Printable

/-!
# Lines are read back

* `unlines` — the text of lines, each ended by a line feed.
* `lines_unlines` — printable lines are the lines of their text.
-/

namespace Accumulator.Text

/-- The text of lines, each ended by a line feed. -/
def unlines (lines : List String) : String := String.join (lines.map (· ++ "\n"))

@[simp] theorem unlines_nil : unlines [] = "" := rfl

theorem toList_unlines (texts : List String) :
    (unlines texts).toList = (texts.map String.toList).flatMap (· ++ ['\n']) := by
  simp [unlines, String.toList_join, List.flatMap_map]

theorem unlines_cons (text : String) (texts : List String) :
    unlines (text :: texts) = text ++ "\n" ++ unlines texts :=
  String.toList_injective (by simp [toList_unlines])

theorem unlines_append (texts others : List String) :
    unlines (texts ++ others) = unlines texts ++ unlines others :=
  String.toList_injective (by simp [toList_unlines])

theorem newline_free_iff {line : List Char} : (∀ c ∈ line, (c == '\n') = false) ↔ '\n' ∉ line := by
  simp only [beq_eq_false_iff_ne]
  exact ⟨fun h hmem => h '\n' hmem rfl, fun h _ hc => ne_of_mem_of_not_mem hc h⟩

theorem dropReturn_eq {line : List Char} (h : '\r' ∉ line) : dropReturn line = line := by
  unfold dropReturn
  split
  · next hlast => exact absurd (List.mem_of_getLast? hlast) h
  · rfl

theorem linesOfPieces_cons (line : List Char) {pieces : List (List Char)} (h : pieces ≠ []) :
    linesOfPieces (line :: pieces) = dropReturn line :: linesOfPieces pieces := by
  cases pieces with
  | nil => exact absurd rfl h
  | cons piece pieces => rfl

/-- Lines without line ends of their own are the lines of their text. -/
theorem lines_flatMap {texts : List (List Char)}
    (h : ∀ line ∈ texts, '\n' ∉ line ∧ '\r' ∉ line) :
    lines (texts.flatMap (· ++ ['\n'])) = texts := by
  induction texts with
  | nil => rfl
  | cons line texts ih =>
    obtain ⟨hnewline, hreturn⟩ := h line List.mem_cons_self
    have hrest := ih fun other hother => h other (List.mem_cons_of_mem _ hother)
    unfold lines at hrest ⊢
    rw [List.flatMap_cons, List.append_assoc, List.singleton_append,
      split_append (newline_free_iff.mpr hnewline) (beq_self_eq_true '\n'),
      linesOfPieces_cons line (split_ne_nil _ _), hrest, dropReturn_eq hreturn]

/-- **Printable lines are the lines of their text.** -/
theorem lines_unlines {texts : List String} (h : ∀ text ∈ texts, Printable text) :
    lines (unlines texts).toList = texts.map String.toList := by
  rw [toList_unlines]
  refine lines_flatMap fun line hline => ?_
  obtain ⟨text, htext, rfl⟩ := List.mem_map.mp hline
  exact ⟨(h text htext).newline_not_mem, (h text htext).return_not_mem⟩

end Accumulator.Text
