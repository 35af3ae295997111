import Accumulator.Assembly.Listing
import Accumulator.Proofs.Text.Delimited
import Mathlib.Data.List.Basic

/-!
# Rows of a listing are read back

What a row of a listing shows is read off its text.

* `Text.number?` — the number in front of a text, and the text behind it.
* `Row.readCell?` — the address and the word that a row shows, or the mark in place of the word.
* `Row.readSource?` — the line that a row shows: its number and its source.
* `readCell?_text`, `readSource?_text` — the text of a row shows the cell and the line of the row.
-/

namespace Accumulator

namespace Text

variable {radix n : Nat} {a x : List Char}

/-- The number in front of a text, and the text behind it. -/
def number? (radix : Nat) (text : List Char) : Option (Nat × List Char) :=
  (ofDigits? radix (text.takeWhile isNumeral)).map fun n => (n, text.dropWhile isNumeral)

theorem number?_append (ha : Numeral radix n a) (hx : Stops isNumeral x) :
    number? radix (a ++ x) = some (n, x) := by
  rw [number?, takeWhile_append_of_stops ha.digits hx, dropWhile_append_of_stops ha.digits hx,
    ofDigits?_eq_valueFrom? ha.nonempty, ha.value]
  rfl

@[simp] theorem dropPrefix?_self_append (a x : List Char) : (a ++ x).dropPrefix? a = some x :=
  List.dropPrefix?_append_of_beq x (beq_self_eq_true a)

@[simp] theorem dropPrefix?_self_cons (c : Char) (x : List Char) :
    (c :: x).dropPrefix? [c] = some x := dropPrefix?_self_append [c] x

end Text

namespace Row

open Text

/-- The word of four bytes in front of a text, each behind a blank but the first. -/
def readWord? (text : List Char) : Option Word := do
  let (a, text) ← number? 16 text
  let (b, text) ← (text.dropPrefix? [' ']).bind (number? 16)
  let (c, text) ← (text.dropPrefix? [' ']).bind (number? 16)
  let (d, _) ← (text.dropPrefix? [' ']).bind (number? 16)
  some (UInt32.ofNat (((a * 256 + b) * 256 + c) * 256 + d))

/-- The cell that a row shows, with its word, or without if the mark for a missing one stands there. -/
def readCell? (text : String) : Option (Nat × Option Word) := do
  let text ← text.toList.dropPrefix? ['[']
  let (cell, text) ← number? 16 text
  let text ← text.dropPrefix? [']', ' ']
  if (wordText none).toList.isPrefixOf text then some (cell, none)
  else (readWord? text).map fun word => (cell, some word)

/-- The line that a row shows, its number and its source: they stand behind the bar. -/
def readSource? (text : String) : Option (Nat × String) := do
  let text ← (text.toList.dropWhile (· != '|')).dropPrefix? ['|']
  let (line, text) ← number? 10 (text.dropWhile (· == ' '))
  let source ← text.dropPrefix? [':', ' ']
  some (line, String.ofList source)

/-- The line that the row shows, its number and its source. -/
def source? : Row → Option (Nat × String)
  | bare line source | first _ _ line source => some (line, source)
  | further _ _ => none

theorem stops_blank (x : List Char) : Stops isNumeral (' ' :: x) := stops_cons.mpr rfl

theorem number_of_bytes (n : Nat) :
    ((n / 0x1000000 * 256 + n / 0x10000 % 256) * 256 + n / 0x100 % 256) * 256 + n % 256 = n := by
  omega

theorem readWord?_bytes (word : Word) (x : List Char) :
    readWord? ((bytes word).toList ++ ' ' :: x) = some word := by
  have hnext (n : Nat) (y : List Char) :
      ((' ' :: ((hex 2 n).toList ++ ' ' :: y)).dropPrefix? [' ']).bind (number? 16) =
        some (n, ' ' :: y) := by
    rw [dropPrefix?_self_cons, Option.bind_some, number?_append (numeral_hex 2 n) (stops_blank y)]
  have htext : (bytes word).toList ++ ' ' :: x =
      (hex 2 (word.toNat / 0x1000000)).toList ++ ' ' ::
        ((hex 2 (word.toNat / 0x10000 % 256)).toList ++ ' ' ::
          ((hex 2 (word.toNat / 0x100 % 256)).toList ++ ' ' ::
            ((hex 2 (word.toNat % 256)).toList ++ ' ' :: x))) := by
    simp [bytes]
  rw [htext, readWord?, number?_append (numeral_hex 2 _) (stops_blank _)]
  simp only [Option.bind_eq_bind, Option.bind_some, hnext, number_of_bytes, UInt32.ofNat_toNat]

theorem toList_cellText (cell : Nat) (word : Option Word) (rest : String) :
    (cellText cell word ++ rest).toList =
      ['['] ++ ((hex 4 cell).toList ++ ([']', ' '] ++
        ((wordText word).toList ++ ' ' :: '|' :: rest.toList))) := by
  simp [cellText]

/-- The mark for a missing word does not begin with a digit. -/
theorem stops_mark (x : List Char) : Stops isNumeral ((wordText none).toList ++ x) := by
  have hmark : (wordText none).toList.head? = some '\x1b' := by decide
  intro c hc
  rw [List.head?_append, hmark, Option.some_or, Option.mem_some_iff] at hc
  rw [← hc]
  decide

theorem not_mark_bytes (word : Word) (x : List Char) :
    ¬ (wordText none).toList <+: (bytes word).toList ++ x := by
  rintro ⟨y, hy⟩
  have hdigits := numeral_hex 2 (word.toNat / 0x1000000)
  have hfirst : (bytes word).toList ++ x = (hex 2 (word.toNat / 0x1000000)).toList ++
      ((bytes word).toList.drop (hex 2 (word.toNat / 0x1000000)).toList.length ++ x) := by
    simp [bytes]
  cases htext : (hex 2 (word.toNat / 0x1000000)).toList with
  | nil => exact hdigits.nonempty htext
  | cons c digits =>
    have hc : isNumeral c = true := hdigits.digits c (htext ▸ List.mem_cons_self)
    have hstops := stops_mark y
    rw [hy, hfirst, htext, List.cons_append, stops_cons, hc] at hstops
    cases hstops

theorem readCell?_cellText (cell : Nat) (word : Option Word) (rest : String) :
    readCell? (cellText cell word ++ rest) = some (cell, word) := by
  have hbracket : Stops isNumeral
      ([']', ' '] ++ ((wordText word).toList ++ ' ' :: '|' :: rest.toList)) := stops_cons.mpr rfl
  rw [readCell?, toList_cellText]
  simp only [dropPrefix?_self_append, number?_append (numeral_hex 4 cell) hbracket,
    Option.bind_eq_bind, Option.bind_some]
  cases word with
  | none =>
    rw [if_pos]
    exact List.isPrefixOf_iff_prefix.mpr (List.prefix_append _ _)
  | some word =>
    rw [wordText, if_neg (mt List.isPrefixOf_iff_prefix.mp (not_mark_bytes word _)), readWord?_bytes]
    rfl

theorem toList_bare (line : Nat) (source : String) :
    (bare line source).text.toList = List.replicate 19 ' ' ++
      '|' :: (lineText line source).toList := by
  simp [text, padRight, List.rightpad]

/-- **The text of a row shows the cell of the row.** -/
theorem readCell?_text (row : Row) : readCell? row.text = row.cell? := by
  cases row with
  | bare line source =>
    rw [readCell?, toList_bare]
    rfl
  | first cell word line source => exact readCell?_cellText cell word (lineText line source)
  | further cell word =>
    have hcell := readCell?_cellText cell word ""
    rwa [String.append_empty] at hcell

/-! ## The line -/

theorem all_ne_bar_hex (width n : Nat) : (hex width n).toList.all (· != '|') = true := by
  refine List.all_eq_true.mpr fun c hc => bne_iff_ne.mpr fun hbar => ?_
  have hdigit := (numeral_hex width n).digits c hc
  rw [hbar] at hdigit
  exact absurd hdigit (by decide)

theorem all_ne_bar_wordText (word : Option Word) : (wordText word).toList.all (· != '|') = true := by
  cases word with
  | none => decide
  | some word =>
    simp only [wordText, bytes, String.toList_append, List.all_append, all_ne_bar_hex]
    decide

/-- The bar ends the part of a row that shows the cell. -/
theorem dropWhile_cellText (cell : Nat) (word : Option Word) (rest : String) :
    (cellText cell word ++ rest).toList.dropWhile (· != '|') = '|' :: rest.toList := by
  have htext : (cellText cell word ++ rest).toList =
      (['['] ++ (hex 4 cell).toList ++ [']', ' '] ++ (wordText word).toList ++ [' ']) ++
        '|' :: rest.toList := by
    simp [cellText]
  have hfront : (['['] ++ (hex 4 cell).toList ++ [']', ' '] ++ (wordText word).toList ++
      [' ']).all (· != '|') = true := by
    simp only [List.all_append, all_ne_bar_hex, all_ne_bar_wordText]
    decide
  rw [htext]
  exact dropWhile_append_of_stops (List.all_eq_true.mp hfront) (stops_cons.mpr rfl)

/-- The number of a line is read off its part of a row, and its source is left. -/
theorem number?_lineText (line : Nat) (source : String) :
    number? 10 ((lineText line source).toList.dropWhile (· == ' ')) =
      some (line, ':' :: ' ' :: source.toList) := by
  have hdigits := numeral_decimal line
  have htext : (lineText line source).toList =
      (' ' :: List.replicate (4 - (decimal line).toList.length) ' ') ++
        ((decimal line).toList ++ ':' :: ' ' :: source.toList) := by
    simp [lineText, padLeft, List.leftpad]
  have hblank : ∀ c ∈ ' ' :: List.replicate (4 - (decimal line).toList.length) ' ',
      (c == ' ') = true :=
    List.forall_mem_cons.mpr ⟨rfl, List.forall_mem_replicate.mpr (.inr rfl)⟩
  have hstops : Stops (· == ' ') ((decimal line).toList ++ ':' :: ' ' :: source.toList) := by
    cases hline : (decimal line).toList with
    | nil => exact absurd hline hdigits.nonempty
    | cons c digits =>
      have hc := isWordChar_of_isNumeral (hdigits.digits c (hline ▸ List.mem_cons_self))
      refine stops_cons.mpr (beq_false_of_ne (bne_iff_ne.mp hc))
  rw [htext, dropWhile_append_of_stops hblank hstops, number?_append hdigits (stops_cons.mpr rfl)]

theorem readSource?_of_dropWhile {text : String} {line : Nat} {source : String}
    (h : text.toList.dropWhile (· != '|') = '|' :: (lineText line source).toList) :
    readSource? text = some (line, source) := by
  have hcolon : (':' :: ' ' :: source.toList).dropPrefix? [':', ' '] = some source.toList :=
    dropPrefix?_self_append [':', ' '] source.toList
  rw [readSource?, h]
  simp only [dropPrefix?_self_cons, Option.bind_eq_bind, Option.bind_some, number?_lineText, hcolon,
    String.ofList_toList]

/-- **The text of a row shows the line of the row**, if it is the first of the line. -/
theorem readSource?_text (row : Row) : readSource? row.text = row.source? := by
  cases row with
  | bare line source =>
    have hbar : (bare line source).text.toList.dropWhile (· != '|') =
        '|' :: (lineText line source).toList := by
      rw [toList_bare]
      exact dropWhile_append_of_stops (List.forall_mem_replicate.mpr (.inr rfl)) (stops_cons.mpr rfl)
    exact readSource?_of_dropWhile hbar
  | first cell word line source => exact readSource?_of_dropWhile (dropWhile_cellText cell word _)
  | further cell word =>
    have hbar := dropWhile_cellText cell word ""
    rw [String.append_empty] at hbar
    rw [readSource?, text, hbar]
    rfl

end Row

end Accumulator
