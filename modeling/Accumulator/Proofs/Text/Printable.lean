import Accumulator.Proofs.Text.Digits
import Accumulator.Text.Blank

/-!
# Printable text

* `Printable` — a text of printable ASCII characters, so that no line ends inside of it.
* `printable_append`, `printable_intercalate`, `printable_decimal`, `printable_hex` — joining texts
  and writing numbers yields printable text. They are simp lemmas, which leave the literal parts of a
  format to `decide`.
-/

namespace Accumulator.Text

/-- Every character is a printable one of ASCII. -/
def Printable (text : String) : Prop := ∀ c ∈ text.toList, 32 ≤ c.toNat ∧ c.toNat ≤ 126

instance (text : String) : Decidable (Printable text) :=
  List.decidableBAll (fun c : Char => 32 ≤ c.toNat ∧ c.toNat ≤ 126) text.toList

namespace Printable

variable {a : String}

/-- A text made of characters of a printable one is printable. -/
theorem of_subset {chars : List Char} (ha : Printable a) (h : chars ⊆ a.toList) :
    Printable (String.ofList chars) := by
  intro c hc
  rw [String.toList_ofList] at hc
  exact ha c (h hc)

theorem newline_not_mem (ha : Printable a) : '\n' ∉ a.toList := fun h =>
  absurd (ha '\n' h).1 (by decide)

theorem return_not_mem (ha : Printable a) : '\r' ∉ a.toList := fun h =>
  absurd (ha '\r' h).1 (by decide)

end Printable

@[simp] theorem printable_append {a b : String} : Printable (a ++ b) ↔ Printable a ∧ Printable b := by
  simp only [Printable, String.toList_append, List.forall_mem_append]

theorem Printable.append {a b : String} (ha : Printable a) (hb : Printable b) : Printable (a ++ b) :=
  printable_append.mpr ⟨ha, hb⟩

theorem printable_intercalate {separator : String} {texts : List String}
    (hseparator : Printable separator) (h : ∀ text ∈ texts, Printable text) :
    Printable (String.intercalate separator texts) := by
  induction texts with
  | nil =>
    rw [String.intercalate_nil]
    decide
  | cons text texts ih =>
    have htext := h text List.mem_cons_self
    cases texts with
    | nil => simpa using htext
    | cons next texts =>
      rw [String.intercalate_cons_cons]
      exact (htext.append hseparator).append (ih fun t ht => h t (List.mem_cons_of_mem _ ht))

theorem printable_padLeft {width : Nat} {fill : Char} {text : String}
    (hfill : 32 ≤ fill.toNat ∧ fill.toNat ≤ 126) (h : Printable text) :
    Printable (padLeft width fill text) := by
  intro c hc
  rw [padLeft, String.toList_ofList, List.leftpad, List.mem_append] at hc
  rcases hc with hc | hc
  · rwa [List.eq_of_mem_replicate hc]
  · exact h c hc

@[simp] theorem printable_padRight {width : Nat} {text : String} :
    Printable (padRight width text) ↔ Printable text := by
  simp only [Printable, padRight, String.toList_ofList, List.rightpad, List.forall_mem_append]
  refine ⟨fun h => h.1, fun h => ⟨h, fun c hc => ?_⟩⟩
  rw [List.eq_of_mem_replicate hc]
  decide

theorem printable_trimEnd {text : String} (h : Printable text) :
    Printable (String.ofList (trimEnd text.toList)) :=
  h.of_subset fun c hc => by
    rw [trimEnd, List.mem_reverse] at hc
    exact List.mem_reverse.mp ((List.dropWhile_sublist _).subset hc)

/-! ## Numbers -/

theorem digitChar_printable_all : ∀ d < 16, (32 ≤ d.digitChar.toNat ∧ d.digitChar.toNat ≤ 126) ∧
    32 ≤ d.digitChar.toUpper.toNat ∧ d.digitChar.toUpper.toNat ≤ 126 := by decide

@[simp] theorem printable_decimal (n : Nat) : Printable (decimal n) := by
  intro c hc
  rw [decimal, String.toList_ofList] at hc
  obtain ⟨d, hd, rfl⟩ := exists_digit_of_mem_toDigits (by decide) hc
  exact (digitChar_printable_all d (by omega)).1

@[simp] theorem printable_paddedDecimal (width n : Nat) : Printable (paddedDecimal width n) :=
  printable_padLeft (by decide) (printable_decimal n)

@[simp] theorem printable_hex (width n : Nat) : Printable (hex width n) := by
  refine printable_padLeft (by decide) fun c hc => ?_
  rw [String.toList_ofList, List.mem_map] at hc
  obtain ⟨digit, hdigit, rfl⟩ := hc
  obtain ⟨d, hd, rfl⟩ := exists_digit_of_mem_toDigits (by decide) hdigit
  exact (digitChar_printable_all d hd).2

end Accumulator.Text
