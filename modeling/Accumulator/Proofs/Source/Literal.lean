import Accumulator.Proofs.Text.Digits
import Accumulator.Proofs.Results
import Accumulator.Source.Numeral

/-!
# Literals as they are written

* `IsDigit` — a character is the digit for a number below the radix, in either letter case.
* `Numeral.Digits` — a row of digits with underscores between them, and its value by position.
* `Numeral.Spells` — a numeral: such a row in decimal, or in another radix behind its mark.
* `Numeral.read?_of_spells` — a numeral is read as its value, if a word holds that.
-/

namespace Accumulator

/-- The character is the digit for the number `d` in the radix. -/
def IsDigit (radix : Nat) (c : Char) (d : Nat) : Prop :=
  d < radix ∧ (c = d.digitChar ∨ c = d.digitChar.toUpper)

theorem digit?_digits_all : ∀ radix ≤ 16, ∀ d < radix,
    Text.digit? radix d.digitChar = some d ∧ Text.digit? radix d.digitChar.toUpper = some d := by decide

namespace IsDigit

variable {radix d : Nat} {c : Char}

theorem digit?_eq (h : IsDigit radix c d) (hradix : radix ≤ 16) : Text.digit? radix c = some d := by
  obtain ⟨hd, rfl | rfl⟩ := h
  · exact (digit?_digits_all radix hradix d hd).1
  · exact (digit?_digits_all radix hradix d hd).2

/-- A property of all sixteen digits is a property of each digit. -/
theorem of_all {P : Char → Prop} (h : IsDigit radix c d) (hradix : radix ≤ 16)
    (hall : ∀ d < 16, P d.digitChar ∧ P d.digitChar.toUpper) : P c := by
  obtain ⟨hd, rfl | rfl⟩ := h
  · exact (hall d (by omega)).1
  · exact (hall d (by omega)).2

end IsDigit

namespace Numeral

/-- Digits of a radix with any number of underscores between two of them, and their value. -/
inductive Digits (radix : Nat) : List Char → Nat → Prop
  | one {c : Char} {d : Nat} (h : IsDigit radix c d) : Digits radix [c] d
  | more {text : List Char} {value : Nat} {c : Char} {d : Nat} (front : Digits radix text value)
    (underscores : Nat) (h : IsDigit radix c d) :
    Digits radix (text ++ List.replicate underscores '_' ++ [c]) (value * radix + d)

/-- The marks of the radixes other than ten. -/
def marks : List (Char × Nat) := [('b', 2), ('o', 8), ('x', 16)]

/-- A numeral and its value. -/
inductive Spells : List Char → Nat → Prop
  | decimal {digits : List Char} {value : Nat} (h : Digits 10 digits value) : Spells digits value
  | marked {mark : Char} {radix : Nat} {digits : List Char} {value : Nat} (hmark : (mark, radix) ∈ marks)
    (h : Digits radix digits value) : Spells ('0' :: mark :: digits) value

theorem radix_le_of_mem_marks : ∀ entry ∈ marks, entry.2 ≤ 16 := by decide

theorem readDigits_append (radix value : Nat) (front back : List Char) :
    readDigits radix value (front ++ back) =
      readDigits radix value front >>= fun value => readDigits radix value back := by
  fun_induction readDigits radix value front with
  | case1 value => rfl
  | case2 value c rest hdigit =>
    rw [List.cons_append, readDigits, hdigit]
    rfl
  | case3 value c rest d hdigit next hlt ih =>
    rw [List.cons_append, readDigits, hdigit]
    exact (if_pos hlt).trans ih
  | case4 value c rest d hdigit next hge =>
    rw [List.cons_append, readDigits, hdigit]
    exact if_neg hge

theorem isDigit_of_decimal {c : Char} {d : Nat} (h : IsDigit 10 c d) : c.isDigit = true := by
  have hall : ∀ d < 10, d.digitChar.isDigit = true ∧ d.digitChar.toUpper.isDigit = true := by decide
  obtain ⟨hd, rfl | rfl⟩ := h
  · exact (hall d hd).1
  · exact (hall d hd).2

namespace Digits

variable {radix value : Nat} {text : List Char}

/-- A property of all sixteen digits and of the underscore is one of every character. -/
theorem forall_mem {P : Char → Prop} (h : Digits radix text value) (hradix : radix ≤ 16)
    (hall : ∀ d < 16, P d.digitChar ∧ P d.digitChar.toUpper) (hunderscore : P '_') :
    ∀ c ∈ text, P c := by
  induction h with
  | one h => exact List.forall_mem_singleton.mpr (h.of_all hradix hall)
  | more front underscores h ih =>
    refine List.forall_mem_append.mpr ⟨List.forall_mem_append.mpr ⟨ih, ?_⟩,
      List.forall_mem_singleton.mpr (h.of_all hradix hall)⟩
    exact List.forall_mem_replicate.mpr (.inr hunderscore)

/-- The text starts with a digit. -/
theorem exists_head (h : Digits radix text value) : ∃ c d rest, text = c :: rest ∧ IsDigit radix c d := by
  induction h with
  | one h => exact ⟨_, _, [], rfl, h⟩
  | more front underscores h ih =>
    obtain ⟨c, d, rest, rfl, hc⟩ := ih
    exact ⟨c, d, _, rfl, hc⟩

theorem filter_digit {c : Char} {d : Nat} (h : IsDigit radix c d) (hradix : radix ≤ 16) :
    [c].filter (· != '_') = [c] := by
  have hc : (c != '_') = true := h.of_all (P := fun c => (c != '_') = true) hradix (by decide)
  rw [List.filter_cons, if_pos hc, List.filter_nil]

theorem readDigits_eq (h : Digits radix text value) (hradix : radix ≤ 16) (hvalue : value < UInt32.size) :
    readDigits radix 0 (text.filter (· != '_')) = .ok value := by
  induction h with
  | one h =>
    rw [filter_digit h hradix, readDigits, h.digit?_eq hradix]
    simp only [Nat.zero_mul, Nat.zero_add, if_pos hvalue, readDigits]
  | @more text value c d front underscores h ih =>
    have hfront : value < UInt32.size := by
      have hle : value ≤ value * radix := Nat.le_mul_of_pos_right value (Nat.zero_lt_of_lt h.1)
      omega
    have hunderscores : (List.replicate underscores '_').filter (· != '_') = [] :=
      List.filter_replicate_of_neg (by decide)
    rw [List.filter_append, List.filter_append, hunderscores, List.append_nil, filter_digit h hradix,
      readDigits_append, ih hfront]
    change readDigits radix value [c] = _
    rw [readDigits, h.digit?_eq hradix]
    simp only [if_pos hvalue, readDigits]

theorem readSigned_eq (h : Digits radix text value) (hradix : radix ≤ 16) (hvalue : value < UInt32.size) :
    readSigned radix (text.filter (· != '_')) = .ok value := by
  have hdigits := h.readDigits_eq hradix hvalue
  obtain ⟨c, d, rest, rfl, hc⟩ := h.exists_head
  have hunderscore : (c != '_') = true :=
    hc.of_all (P := fun c => (c != '_') = true) hradix (by decide)
  have hplus : c ≠ '+' := hc.of_all (P := fun c => c ≠ '+') hradix (by decide)
  rw [List.filter_cons, if_pos hunderscore] at hdigits ⊢
  unfold readSigned
  split
  · contradiction
  · next heq => exact absurd (List.cons.inj heq).1 hplus
  · next heq => exact absurd (List.cons.inj heq).1 hplus
  · exact hdigits

theorem isDigit_of_mem_filter (h : Digits 10 text value) :
    ∀ c ∈ text.filter (· != '_'), c.isDigit = true := by
  have hdigits : ∀ c ∈ text, c = '_' ∨ c.isDigit = true := by
    induction h with
    | one h => exact List.forall_mem_singleton.mpr (.inr (isDigit_of_decimal h))
    | more front underscores h ih =>
      refine List.forall_mem_append.mpr ⟨List.forall_mem_append.mpr ⟨ih, ?_⟩,
        List.forall_mem_singleton.mpr (.inr (isDigit_of_decimal h))⟩
      exact List.forall_mem_replicate.mpr (.inr (.inl rfl))
  intro c hc
  obtain ⟨hmem, hunderscore⟩ := List.mem_filter.mp hc
  exact (hdigits c hmem).resolve_left (by simpa using hunderscore)

end Digits

/-- A text of decimal digits has no mark. -/
theorem splitRadix_of_digits {text : List Char} (h : ∀ c ∈ text, c.isDigit = true) :
    splitRadix text = (10, text) := by
  unfold splitRadix
  split
  · exact absurd (h 'b' (by simp)) (by decide)
  · exact absurd (h 'o' (by simp)) (by decide)
  · exact absurd (h 'x' (by simp)) (by decide)
  · rfl

/-- A text behind a mark is read in the radix of the mark. -/
theorem splitRadix_of_mark {mark : Char} {radix : Nat} (h : (mark, radix) ∈ marks) (digits : List Char) :
    splitRadix ('0' :: mark :: digits) = (radix, digits) := by
  simp only [marks, List.mem_cons, Prod.mk.injEq, List.not_mem_nil, or_false] at h
  rcases h with ⟨rfl, rfl⟩ | ⟨rfl, rfl⟩ | ⟨rfl, rfl⟩ <;> rfl

namespace Spells

variable {text : List Char} {value : Nat}

/-- A property of all sixteen digits, of the marks and of the underscore is one of every character. -/
theorem forall_mem {P : Char → Prop} (h : Spells text value)
    (hall : ∀ d < 16, P d.digitChar ∧ P d.digitChar.toUpper) (hmarks : ∀ entry ∈ marks, P entry.1)
    (hunderscore : P '_') : ∀ c ∈ text, P c := by
  cases h with
  | decimal h => exact h.forall_mem (by decide) hall hunderscore
  | marked hmark h =>
    have hzero : P '0' := (hall 0 (by decide)).1
    refine List.forall_mem_cons.mpr ⟨hzero, List.forall_mem_cons.mpr ⟨hmarks _ hmark, ?_⟩⟩
    exact h.forall_mem (radix_le_of_mem_marks _ hmark) hall hunderscore

/-- A numeral starts with a decimal digit. -/
theorem exists_head (h : Spells text value) : ∃ c rest, text = c :: rest ∧ c.isDigit = true := by
  cases h with
  | decimal h =>
    obtain ⟨c, d, rest, rfl, hc⟩ := h.exists_head
    exact ⟨c, rest, rfl, isDigit_of_decimal hc⟩
  | marked => exact ⟨'0', _, rfl, by decide⟩

/-- Without its underscores a numeral is marked with its radix. -/
theorem exists_digits (h : Spells text value) :
    ∃ radix ≤ 16, ∃ digits, Digits radix digits value ∧
      splitRadix (text.filter (· != '_')) = (radix, digits.filter (· != '_')) := by
  cases h with
  | decimal h => exact ⟨10, by decide, text, h, splitRadix_of_digits h.isDigit_of_mem_filter⟩
  | @marked mark radix digits _ hmark h =>
    have hunderscore : ∀ entry ∈ marks, (entry.1 != '_') = true := by decide
    refine ⟨radix, radix_le_of_mem_marks _ hmark, digits, h, ?_⟩
    rw [List.filter_cons, if_pos (by decide), List.filter_cons, if_pos (hunderscore _ hmark)]
    exact splitRadix_of_mark hmark _

end Spells

/-- **A numeral is read as its value**, if a word holds that. -/
theorem read?_of_spells {text : List Char} {value : Nat} (h : Spells text value)
    (hvalue : value < UInt32.size) : read? text = some (UInt32.ofNat value) := by
  obtain ⟨radix, hradix, digits, hdigits, hsplit⟩ := h.exists_digits
  rw [read?, read, hsplit]
  dsimp only
  rw [hdigits.readSigned_eq hradix hvalue]
  rfl

end Numeral

end Accumulator
