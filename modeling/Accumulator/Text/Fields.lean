/-!
# Cutting text

* `split` — the pieces between separators; `n` separators make `n + 1` pieces.
* `fields` — the pieces that hold something.
* `lines` — the lines of a text, each ended by a line feed, with or without a carriage return
  before it. A carriage return that no line feed follows belongs to its line.
-/

namespace Accumulator.Text

/-- Puts a character in front of the first piece. -/
def extend (c : Char) : List (List Char) → List (List Char)
  | [] => [[c]]
  | piece :: pieces => (c :: piece) :: pieces

/-- The pieces of a text between the characters that `separates` selects. -/
def split (separates : Char → Bool) (text : List Char) : List (List Char) :=
  text.foldr (fun c pieces => if separates c then [] :: pieces else extend c pieces) [[]]

/-- The pieces of a text that are not empty. -/
def fields (separates : Char → Bool) (text : List Char) : List (List Char) :=
  (split separates text).filter fun piece => !piece.isEmpty

/-- A terminated line without the carriage return at its end. -/
def dropReturn (line : List Char) : List Char :=
  match line.getLast? with
  | some '\r' => line.dropLast
  | _ => line

/-- The lines among the pieces between line feeds: the last piece is a line only if it holds
something, and nothing is taken off it. -/
def linesOfPieces : List (List Char) → List (List Char)
  | [] => []
  | [last] => if last.isEmpty then [] else [last]
  | line :: rest => dropReturn line :: linesOfPieces rest

/-- The lines of a text. -/
def lines (text : List Char) : List (List Char) := linesOfPieces (split (· == '\n') text)

@[simp] theorem split_nil (separates : Char → Bool) : split separates [] = [[]] := rfl

theorem split_cons (separates : Char → Bool) (c : Char) (text : List Char) :
    split separates (c :: text) =
      if separates c then [] :: split separates text else extend c (split separates text) := rfl

theorem split_ne_nil (separates : Char → Bool) (text : List Char) : split separates text ≠ [] := by
  cases text with
  | nil => simp
  | cons c text =>
    rw [split_cons]
    split
    · simp
    · cases split separates text <;> simp [extend]

end Accumulator.Text
