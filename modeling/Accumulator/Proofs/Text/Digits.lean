import Accumulator.Text.Digits

/-!
# Digits are read back

* `ofDigits?_toDigits` — the digits of a number, in any radix up to sixteen, have its value.
* `exists_digit_of_mem_toDigits` — a number is written with the digits of its radix.
* `head_toDigits_ne_zero` — the digits of a positive number do not start with a zero.
-/

namespace Accumulator.Text

variable {radix : Nat}

theorem digit?_digitChar_all :
    ∀ radix ≤ 16, ∀ d < radix, digit? radix d.digitChar = some d := by decide

theorem digit?_digitChar {d : Nat} (hradix : radix ≤ 16) (hd : d < radix) :
    digit? radix d.digitChar = some d := digit?_digitChar_all radix hradix d hd

/-- A number is written with the digits of its radix. -/
theorem exists_digit_of_mem_toDigits (hradix : 1 < radix) {n : Nat} {c : Char}
    (hc : c ∈ Nat.toDigits radix n) : ∃ d < radix, c = d.digitChar := by
  induction n using Nat.base_induction radix hradix with
  | single m hm =>
    rw [Nat.toDigits_of_lt_base hm, List.mem_singleton] at hc
    exact ⟨m, hm, hc⟩
  | digit m k hk hm ih =>
    rw [← Nat.toDigits_append_toDigits hradix hm hk, List.mem_append,
      Nat.toDigits_of_lt_base hk, List.mem_singleton] at hc
    exact hc.elim ih fun h => ⟨k, hk, h⟩

/-- The value of digits in front of which `value` was read. -/
def valueFrom? (radix value : Nat) (digits : List Char) : Option Nat :=
  digits.foldlM (fun value c => (digit? radix c).map (value * radix + ·)) value

theorem ofDigits?_eq_valueFrom? {digits : List Char} (h : digits ≠ []) :
    ofDigits? radix digits = valueFrom? radix 0 digits := by
  rw [ofDigits?, if_neg (by simpa using h)]
  rfl

theorem valueFrom?_toDigits (hradix : 1 < radix) (hle : radix ≤ 16) (n : Nat) :
    valueFrom? radix 0 (Nat.toDigits radix n) = some n := by
  induction n using Nat.base_induction radix hradix with
  | single m hm => simp [valueFrom?, Nat.toDigits_of_lt_base hm, digit?_digitChar hle hm]
  | digit m k hk hm ih =>
    rw [valueFrom?] at ih ⊢
    rw [← Nat.toDigits_append_toDigits hradix hm hk, List.foldlM_append, ih,
      Nat.toDigits_of_lt_base hk]
    simp [digit?_digitChar hle hk, Nat.mul_comm]

/-- **The digits of a number have its value.** -/
theorem ofDigits?_toDigits (hradix : 1 < radix) (hle : radix ≤ 16) (n : Nat) :
    ofDigits? radix (Nat.toDigits radix n) = some n := by
  rw [ofDigits?_eq_valueFrom? Nat.toDigits_ne_nil, valueFrom?_toDigits hradix hle]

theorem digitChar_ne_zero_all : ∀ d < 16, d ≠ 0 → d.digitChar ≠ '0' := by decide

theorem head_toDigits_ne_zero (hradix : 1 < radix) (hle : radix ≤ 16) {n : Nat} (hn : 0 < n) :
    ∃ c rest, Nat.toDigits radix n = c :: rest ∧ c ≠ '0' := by
  induction n using Nat.base_induction radix hradix with
  | single m hm =>
    exact ⟨m.digitChar, [], Nat.toDigits_of_lt_base hm,
      digitChar_ne_zero_all m (by omega) (by omega)⟩
  | digit m k hk hm ih =>
    obtain ⟨c, rest, hdigits, hc⟩ := ih hm
    refine ⟨c, rest ++ Nat.toDigits radix k, ?_, hc⟩
    rw [← Nat.toDigits_append_toDigits hradix hm hk, hdigits, List.cons_append]

end Accumulator.Text
