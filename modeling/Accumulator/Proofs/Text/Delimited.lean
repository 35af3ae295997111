import Mathlib.Data.List.TakeWhile
import Accumulator.Proofs.Text.Digits
import Accumulator.Text.Blank

/-!
# Delimited text

A text that is made of parts is taken apart from the left: a part ends where a character stands that
it cannot hold.

* `Stops` — a text that does not go on with a character of some kind.
* `append_inj_of_stops` — a part in front of such a text is determined, and so is the text.
* `Numeral` — the digits of a number; `Numeral.append_inj` determines the number.
* `Firm` — a text that does not end with a blank, so that trimming leaves it alone.
* `isWordChar` — the characters of a word; `stops_blanks` — a word ends where a column is filled up.
-/

namespace Accumulator.Text

variable {p : Char → Bool} {a b x y : List Char}

/-- The text does not go on with a character of the kind `p`. -/
def Stops (p : Char → Bool) (rest : List Char) : Prop := ∀ c ∈ rest.head?, p c = false

@[simp] theorem stops_nil : Stops p [] := nofun

@[simp] theorem stops_cons {c : Char} : Stops p (c :: x) ↔ p c = false := by simp [Stops]

theorem takeWhile_append_of_stops (ha : ∀ c ∈ a, p c = true) (hx : Stops p x) :
    (a ++ x).takeWhile p = a := by
  have hrest : x.takeWhile p = [] := by
    cases x with
    | nil => rfl
    | cons c x => rw [List.takeWhile_cons, stops_cons.mp hx, if_neg Bool.false_ne_true]
  rw [List.takeWhile_append_of_pos ha, hrest, List.append_nil]

theorem dropWhile_append_of_stops (ha : ∀ c ∈ a, p c = true) (hx : Stops p x) :
    (a ++ x).dropWhile p = x := by
  rw [List.dropWhile_append_of_pos ha]
  cases x with
  | nil => rfl
  | cons c x => rw [List.dropWhile_cons, stops_cons.mp hx, if_neg Bool.false_ne_true]

/-- **A part is determined by the text that it begins**, if the text behind it stops. -/
theorem append_inj_of_stops (ha : ∀ c ∈ a, p c = true) (hb : ∀ c ∈ b, p c = true)
    (hx : Stops p x) (hy : Stops p y) (h : a ++ x = b ++ y) : a = b ∧ x = y := by
  have hparts : a = b := by
    rw [← takeWhile_append_of_stops ha hx, ← takeWhile_append_of_stops hb hy, h]
  subst hparts
  exact ⟨rfl, List.append_cancel_left h⟩

/-! ## Numbers -/

/-- A digit, of either case, in a radix up to sixteen. -/
def isNumeral (c : Char) : Bool := (digit? 16 c).isSome

/-- The text is a row of digits for the number `n`. Zeros may stand in front. -/
structure Numeral (radix n : Nat) (text : List Char) : Prop where
  digits : ∀ c ∈ text, isNumeral c = true
  value : valueFrom? radix 0 text = some n
  nonempty : text ≠ []

/-- **A number is determined by the text that its digits begin**, if the text behind them stops. -/
theorem Numeral.append_inj {radix m n : Nat} (ha : Numeral radix m a) (hb : Numeral radix n b)
    (hx : Stops isNumeral x) (hy : Stops isNumeral y) (h : a ++ x = b ++ y) : m = n ∧ x = y := by
  obtain ⟨hdigits, hrest⟩ := append_inj_of_stops ha.digits hb.digits hx hy h
  refine ⟨?_, hrest⟩
  have hvalue := ha.value
  rw [hdigits, hb.value] at hvalue
  exact (Option.some.inj hvalue).symm

/-- A number in the middle of a text is determined by the text. -/
theorem Numeral.between {radix m n : Nat} {front digits digits' rest rest' : String}
    (ha : Numeral radix m digits.toList) (hb : Numeral radix n digits'.toList)
    (hx : Stops isNumeral rest.toList) (hy : Stops isNumeral rest'.toList)
    (h : front ++ digits ++ rest = front ++ digits' ++ rest') : m = n := by
  have htext := congrArg String.toList h
  simp only [String.toList_append, List.append_assoc] at htext
  exact (ha.append_inj hb hx hy (List.append_cancel_left htext)).1

theorem digit?_upper_all : ∀ d < 16, digit? 16 d.digitChar.toUpper = some d := by decide

theorem isNumeral_upper {d : Nat} (hd : d < 16) : isNumeral d.digitChar.toUpper = true := by
  rw [isNumeral, digit?_upper_all d hd]
  rfl

theorem isNumeral_digitChar {d : Nat} (hd : d < 16) : isNumeral d.digitChar = true := by
  rw [isNumeral, digit?_digitChar (Nat.le_refl 16) hd]
  rfl

theorem valueFrom?_map_toUpper {digits : List Char} (h : ∀ c ∈ digits, ∃ d < 16, c = d.digitChar)
    (value : Nat) : valueFrom? 16 value (digits.map Char.toUpper) = valueFrom? 16 value digits := by
  induction digits generalizing value with
  | nil => rfl
  | cons c digits ih =>
    obtain ⟨d, hd, rfl⟩ := h c List.mem_cons_self
    have hrest := ih fun other hother => h other (List.mem_cons_of_mem _ hother)
    simp only [valueFrom?] at hrest ⊢
    rw [List.map_cons, List.foldlM_cons, List.foldlM_cons, digit?_upper_all d hd,
      digit?_digitChar (Nat.le_refl 16) hd]
    exact hrest (value * 16 + d)

/-- Zeros in front leave the digits of a number digits of it. -/
theorem Numeral.padLeft {radix n : Nat} {text : String} (hradix : 0 < radix)
    (h : Numeral radix n text.toList) (width : Nat) :
    Numeral radix n (Text.padLeft width '0' text).toList := by
  have hzero : digit? radix '0' = some 0 := by simp [digit?, hradix]
  have hzeros : ∀ k, valueFrom? radix 0 (List.replicate k '0' ++ text.toList) = some n := by
    intro k
    induction k with
    | zero => exact h.value
    | succ k ih =>
      rw [valueFrom?] at ih ⊢
      rw [List.replicate_succ, List.cons_append, List.foldlM_cons, hzero]
      simpa using ih
  rw [Text.padLeft, String.toList_ofList, List.leftpad]
  refine ⟨fun c hc => ?_, hzeros _, ?_⟩
  · rcases List.mem_append.mp hc with hc | hc
    · rw [List.eq_of_mem_replicate hc]
      decide
    · exact h.digits c hc
  · exact List.append_ne_nil_of_right_ne_nil _ h.nonempty

theorem numeral_decimal (n : Nat) : Numeral 10 n (decimal n).toList := by
  rw [decimal, String.toList_ofList]
  refine ⟨fun c hc => ?_, valueFrom?_toDigits (by decide) (by decide) n, Nat.toDigits_ne_nil⟩
  obtain ⟨d, hd, rfl⟩ := exists_digit_of_mem_toDigits (by decide) hc
  exact isNumeral_digitChar (Nat.lt_trans hd (by decide))

theorem numeral_paddedDecimal (width n : Nat) : Numeral 10 n (paddedDecimal width n).toList :=
  (numeral_decimal n).padLeft (by decide) width

theorem numeral_hex (width n : Nat) : Numeral 16 n (hex width n).toList := by
  have hdigits : ∀ c ∈ Nat.toDigits 16 n, ∃ d < 16, c = d.digitChar := fun c hc =>
    exists_digit_of_mem_toDigits (by decide) hc
  refine Numeral.padLeft (by decide) ?_ width
  rw [String.toList_ofList]
  refine ⟨fun c hc => ?_, ?_, ?_⟩
  · obtain ⟨digit, hdigit, rfl⟩ := List.mem_map.mp hc
    obtain ⟨d, hd, rfl⟩ := hdigits digit hdigit
    exact isNumeral_upper hd
  · rw [valueFrom?_map_toUpper hdigits]
    exact valueFrom?_toDigits (by decide) (by decide) n
  · exact fun hnil => Nat.toDigits_ne_nil (List.map_eq_nil_iff.mp hnil)

/-! ## Text without a blank at its end -/

/-- The text ends with a character, and that is no blank. -/
def Firm (text : List Char) : Prop := ∃ front c, text = front ++ [c] ∧ isBlank c = false

theorem Firm.append_left (hb : Firm b) (a : List Char) : Firm (a ++ b) := by
  obtain ⟨front, c, rfl, hc⟩ := hb
  exact ⟨a ++ front, c, (List.append_assoc ..).symm, hc⟩

theorem trimEnd_of_firm (h : Firm a) : trimEnd a = a := by
  obtain ⟨front, c, rfl, hc⟩ := h
  have hreverse : (front ++ [c]).reverse = c :: front.reverse := List.reverse_concat
  rw [trimEnd, hreverse, List.dropWhile_cons, hc, if_neg Bool.false_ne_true, List.reverse_cons,
    List.reverse_reverse]

theorem toNat_le_of_le {c d : Char} (h : c ≤ d) : c.toNat ≤ d.toNat := UInt32.le_iff_toNat_le.mp h

/-- No printable character but the space is blank. -/
theorem isBlank_of_visible {c : Char} (h : 33 ≤ c.toNat ∧ c.toNat ≤ 126) : isBlank c = false := by
  have hranges : ∀ r ∈ blankRanges, r.2 < 33 ∨ 126 < r.1 := by decide
  rw [isBlank, List.any_eq_false]
  intro r hr hinside
  simp only [Bool.and_eq_true, decide_eq_true_eq] at hinside
  have hr := hranges r hr
  omega

/-- No digit is blank. -/
theorem isBlank_of_isNumeral {c : Char} (h : isNumeral c = true) : isBlank c = false := by
  have hrange : 48 ≤ c.toNat ∧ c.toNat ≤ 122 := by
    unfold isNumeral digit? at h
    simp only at h
    split at h
    · next hdigit => exact ⟨toNat_le_of_le hdigit.1, (toNat_le_of_le hdigit.2).trans (by decide)⟩
    · split at h
      · next hlower =>
        exact ⟨(show 48 ≤ 97 by decide).trans (toNat_le_of_le hlower.1), toNat_le_of_le hlower.2⟩
      · split at h
        · next hupper =>
          exact ⟨(show 48 ≤ 65 by decide).trans (toNat_le_of_le hupper.1),
            (toNat_le_of_le hupper.2).trans (by decide)⟩
        · cases h
  exact isBlank_of_visible (by omega)

theorem Numeral.firm {radix n : Nat} (h : Numeral radix n a) : Firm a := by
  have hlast : a.getLast h.nonempty ∈ a := List.getLast_mem h.nonempty
  exact ⟨a.dropLast, a.getLast h.nonempty, (List.dropLast_concat_getLast h.nonempty).symm,
    isBlank_of_isNumeral (h.digits _ hlast)⟩

/-! ## Words -/

/-- Not the blank that separates the words of a text. -/
def isWordChar (c : Char) : Bool := c != ' '

theorem isWordChar_of_isNumeral {c : Char} (h : isNumeral c = true) : isWordChar c = true := by
  have hblank : isBlank c = false := isBlank_of_isNumeral h
  refine bne_iff_ne.mpr fun hc => ?_
  rw [hc] at hblank
  exact absurd hblank (by decide)

theorem Numeral.isWordChar {radix n : Nat} {text : List Char} (h : Numeral radix n text) :
    ∀ c ∈ text, isWordChar c = true := fun c hc => isWordChar_of_isNumeral (h.digits c hc)

theorem stops_blanks (k : Nat) (x : List Char) :
    Stops isWordChar (List.replicate k ' ' ++ ' ' :: x) := by
  cases k with
  | zero => exact stops_cons.mpr rfl
  | succ k => exact stops_cons.mpr rfl

end Accumulator.Text
