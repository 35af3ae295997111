import Mathlib.Data.List.Induction
import Mathlib.Data.Nat.Digits.Defs
import Accumulator.Proofs.Source.Numbers

/-!
# Numerals have the value of their digits by position

* `Text.digit?_eq_some_iff` — the digits of a radix, and what each of them counts for.
* `Positional` — the value of a row of digits by position, without a bound. `valueFrom?_eq_some_iff` — it is what
  reading the digits from the left adds up to.
* `readDigits_of_positional`, `positional_of_readDigits` — reading stops where a word is exceeded and never
  wraps: the value only grows.
* `HasRadix`, `Numeral.Denotes` — the radix of a text by its mark, and the number that a text denotes.
* `Numeral.read_by_position` — a text is read as a word exactly if it denotes the number of the word.
-/

namespace Accumulator

/-! ## Digits -/

theorem digitChar_ofNat_all : ∀ n ≤ 102,
    (48 ≤ n → n ≤ 57 → Char.ofNat n = (n - 48).digitChar) ∧
      (97 ≤ n → Char.ofNat n = (n - 97 + 10).digitChar) ∧
      (65 ≤ n → n ≤ 70 → Char.ofNat n = (n - 65 + 10).digitChar.toUpper) := by decide

theorem IsDigit.of_digit? {radix d : Nat} {c : Char} (hradix : radix ≤ 16)
    (h : Text.digit? radix c = some d) : IsDigit radix c d := by
  have hle {a b : Char} : a ≤ b ↔ a.toNat ≤ b.toNat := UInt32.le_iff_toNat_le
  have hall := digitChar_ofNat_all c.toNat
  rw [Char.ofNat_toNat] at hall
  simp only [Text.digit?, Option.ite_none_right_eq_some, Option.some.injEq, hle] at h
  obtain ⟨hlt, hd⟩ := h
  rw [hd] at hlt
  refine ⟨hlt, ?_⟩
  split at hd
  · next hrange =>
    rw [← hd]
    exact .inl ((hall (le_trans hrange.2 (by decide))).1 hrange.1 hrange.2)
  · split at hd
    · next hrange =>
      have hlow : 97 ≤ c.toNat := hrange.1
      have hletter : c.toNat - 97 + 10 = d := hd
      rw [← hletter]
      exact .inl ((hall (by omega)).2.1 hlow)
    · split at hd
      · next hrange =>
        have hlow : 65 ≤ c.toNat := hrange.1
        have hletter : c.toNat - 65 + 10 = d := hd
        have hhigh : c.toNat ≤ 70 := by omega
        rw [← hletter]
        exact .inr ((hall (by omega)).2.2 hlow hhigh)
      · omega

theorem Text.digit?_eq_some_iff {radix d : Nat} {c : Char} (hradix : radix ≤ 16) :
    Text.digit? radix c = some d ↔ IsDigit radix c d :=
  ⟨IsDigit.of_digit? hradix, fun h => h.digit?_eq hradix⟩

/-! ## Values by position -/

/-- The text is a row of digits with the given value: the last digit counts for itself, and each one before
it for the radix times more than the next. -/
def Positional (radix : Nat) (text : List Char) (value : Nat) : Prop :=
  ∃ digits, List.Forall₂ (IsDigit radix) text.reverse digits ∧ Nat.ofDigits radix digits = value

namespace Positional

variable {radix value : Nat} {text : List Char} {c : Char}

theorem nil_iff : Positional radix [] value ↔ value = 0 := by
  simp [Positional, eq_comm]

theorem concat_iff : Positional radix (text ++ [c]) value ↔
    ∃ front d, Positional radix text front ∧ IsDigit radix c d ∧ front * radix + d = value := by
  unfold Positional
  rw [List.reverse_append, List.reverse_singleton, List.singleton_append]
  constructor
  · rintro ⟨digits, hdigits, rfl⟩
    obtain ⟨d, front, hc, hfront, rfl⟩ := List.forall₂_cons_left_iff.mp hdigits
    refine ⟨Nat.ofDigits radix front, d, ⟨front, hfront, rfl⟩, hc, ?_⟩
    rw [Nat.ofDigits_cons, Nat.mul_comm, Nat.add_comm]
  · rintro ⟨_, d, ⟨front, hfront, rfl⟩, hc, rfl⟩
    refine ⟨d :: front, List.Forall₂.cons hc hfront, ?_⟩
    rw [Nat.ofDigits_cons, Nat.mul_comm, Nat.add_comm]

/-- Zeros in front of a row of digits do not change its value. -/
theorem zeros (h : Positional radix text value) (hradix : 0 < radix) (count : Nat) :
    Positional radix (List.replicate count '0' ++ text) value := by
  obtain ⟨digits, hdigits, rfl⟩ := h
  have hzero : IsDigit radix '0' 0 := ⟨hradix, .inl rfl⟩
  have hzeros : List.Forall₂ (IsDigit radix) (List.replicate count '0') (List.replicate count 0) := by
    induction count with
    | zero => exact .nil
    | succ count ih => exact .cons hzero ih
  refine ⟨digits ++ List.replicate count 0, ?_, Nat.ofDigits_append_replicate_zero digits⟩
  rw [List.reverse_append, List.reverse_replicate]
  exact List.rel_append hdigits hzeros

theorem exists_digit (h : Positional radix text value) : ∀ c ∈ text, ∃ d, IsDigit radix c d := by
  induction text using List.reverseRecOn generalizing value with
  | nil => exact List.forall_mem_nil _
  | append_singleton text c ih =>
    obtain ⟨front, d, hfront, hc, -⟩ := concat_iff.mp h
    exact List.forall_mem_append.mpr ⟨ih hfront, List.forall_mem_singleton.mpr ⟨d, hc⟩⟩

/-- A property of all sixteen digits is one of every character. -/
theorem forall_mem {P : Char → Prop} (h : Positional radix text value) (hradix : radix ≤ 16)
    (hall : ∀ d < 16, P d.digitChar ∧ P d.digitChar.toUpper) : ∀ c ∈ text, P c := fun c hc => by
  obtain ⟨d, hd⟩ := h.exists_digit c hc
  exact hd.of_all hradix hall

end Positional

namespace Text

variable {radix start value : Nat} {text : List Char} {c : Char}

theorem valueFrom?_cons_eq_some_iff : valueFrom? radix start (c :: text) = some value ↔
    ∃ d, digit? radix c = some d ∧ valueFrom? radix (start * radix + d) text = some value := by
  simp [valueFrom?, Option.bind_eq_some_iff]

/-- The digits of a row add up to its value by position. -/
theorem valueFrom?_eq_some_iff (hradix : radix ≤ 16) :
    valueFrom? radix 0 text = some value ↔ Positional radix text value := by
  induction text using List.reverseRecOn generalizing value with
  | nil =>
    rw [Positional.nil_iff, eq_comm]
    exact Option.some_inj
  | append_singleton text c ih =>
    have hfold : valueFrom? radix 0 (text ++ [c]) =
        (valueFrom? radix 0 text).bind fun front => (digit? radix c).map (front * radix + ·) := by
      simp [valueFrom?, List.foldlM_append]
    simp only [hfold, Option.bind_eq_some_iff, Option.map_eq_some_iff, ih, digit?_eq_some_iff hradix,
      Positional.concat_iff]
    constructor
    · rintro ⟨front, hfront, d, hd, hvalue⟩
      exact ⟨front, d, hfront, hd, hvalue⟩
    · rintro ⟨front, d, hfront, hd, hvalue⟩
      exact ⟨front, hfront, d, hd, hvalue⟩

/-- Reading on never takes a value down. -/
theorem le_of_valueFrom? (hradix : 0 < radix) (h : valueFrom? radix start text = some value) :
    start ≤ value := by
  induction text generalizing start with
  | nil => exact (Option.some_inj.mp h).le
  | cons c text ih =>
    obtain ⟨d, -, h⟩ := valueFrom?_cons_eq_some_iff.mp h
    have hstart : start ≤ start * radix := Nat.le_mul_of_pos_right start hradix
    have hnext := ih h
    omega

theorem positional_toDigits (hradix : 1 < radix) (hle : radix ≤ 16) (n : Nat) :
    Positional radix (Nat.toDigits radix n) n :=
  (valueFrom?_eq_some_iff hle).mp (valueFrom?_toDigits hradix hle n)

end Text

namespace Numeral

/-! ## Reading digits -/

section Reading

variable {radix start value : Nat} {text digits : List Char}

theorem readDigits_of_valueFrom? (hradix : 0 < radix) (hstart : start < UInt32.size)
    (h : Text.valueFrom? radix start text = some value) :
    readDigits radix start text = if value < UInt32.size then .ok value else .error .overflow := by
  induction text generalizing start with
  | nil =>
    cases h
    exact (if_pos hstart).symm
  | cons c text ih =>
    obtain ⟨d, hd, h⟩ := Text.valueFrom?_cons_eq_some_iff.mp h
    rw [readDigits, hd]
    dsimp only
    split
    · next hnext => exact ih hnext h
    · next hnext =>
      -- Once a word is exceeded, the digits that follow make the value no smaller.
      have hle := Text.le_of_valueFrom? hradix h
      rw [if_neg (by omega)]

theorem valueFrom?_of_readDigits (h : readDigits radix start text = .ok value) :
    Text.valueFrom? radix start text = some value := by
  fun_induction readDigits radix start text with
  | case1 start =>
    cases h
    rfl
  | case2 start c rest hdigit => cases h
  | case3 start c rest d hdigit next hlt ih =>
    exact Text.valueFrom?_cons_eq_some_iff.mpr ⟨d, hdigit, ih h⟩
  | case4 start c rest d hdigit next hge => cases h

/-- Reading a row of digits gives its value, or that no word holds it. -/
theorem readDigits_of_positional (hpos : 0 < radix) (hradix : radix ≤ 16)
    (h : Positional radix text value) :
    readDigits radix 0 text = if value < UInt32.size then .ok value else .error .overflow :=
  readDigits_of_valueFrom? hpos (by decide) ((Text.valueFrom?_eq_some_iff hradix).mpr h)

theorem positional_of_readDigits (hpos : 0 < radix) (hradix : radix ≤ 16)
    (h : readDigits radix 0 text = .ok value) : Positional radix text value ∧ value < UInt32.size := by
  have hpositional := (Text.valueFrom?_eq_some_iff hradix).mp (valueFrom?_of_readDigits h)
  refine ⟨hpositional, ?_⟩
  rw [readDigits_of_positional hpos hradix hpositional] at h
  by_contra hlarge
  rw [if_neg hlarge] at h
  cases h

theorem readSigned_of_positional (hpos : 0 < radix) (hradix : radix ≤ 16)
    (htext : text = digits ∨ text = '+' :: digits) (hne : digits ≠ []) (h : Positional radix digits value) :
    readSigned radix text = if value < UInt32.size then .ok value else .error .overflow := by
  rw [← readDigits_of_positional hpos hradix h]
  obtain ⟨c, rest, rfl⟩ := List.exists_cons_of_ne_nil hne
  obtain rfl | rfl := htext
  · have hplus : c ≠ '+' :=
      h.forall_mem (P := fun c => c ≠ '+') hradix (by decide) c List.mem_cons_self
    unfold readSigned
    split
    · contradiction
    · next heq => exact absurd (List.cons.inj heq).1 hplus
    · next heq => exact absurd (List.cons.inj heq).1 hplus
    · rfl
  · rfl

theorem readSigned_eq_ok (h : readSigned radix text = .ok value) :
    ∃ digits, (text = digits ∨ text = '+' :: digits) ∧ digits ≠ [] ∧
      readDigits radix 0 digits = .ok value := by
  unfold readSigned at h
  split at h
  · cases h
  · cases h
  · next digits hsign =>
    refine ⟨digits, .inr rfl, ?_, h⟩
    rintro rfl
    exact hsign rfl
  · next hempty _ _ => exact ⟨text, .inl rfl, hempty, h⟩

end Reading

/-! ## The number that a text denotes -/

/-- The radix of a text by its mark, and the text behind the mark. Without a mark the radix is ten. -/
inductive HasRadix : List Char → Nat → List Char → Prop
  | marked {mark : Char} {radix : Nat} (hmark : (mark, radix) ∈ marks) (digits : List Char) :
    HasRadix ('0' :: mark :: digits) radix digits
  | plain {text : List Char} (h : ∀ entry ∈ marks, ¬ ['0', entry.1] <+: text) : HasRadix text 10 text

/-- The number that a text denotes: without its underscores it is a mark or none, a plus sign or none, and
at least one digit, and the digits have that value by position. -/
def Denotes (text : List Char) (value : Nat) : Prop :=
  ∃ radix signed digits, HasRadix (text.filter (· != '_')) radix signed ∧
    (signed = digits ∨ signed = '+' :: digits) ∧ digits ≠ [] ∧ Positional radix digits value

namespace HasRadix

variable {text digits : List Char} {radix : Nat}

theorem splitRadix_eq (h : HasRadix text radix digits) : splitRadix text = (radix, digits) := by
  cases h with
  | marked hmark => exact splitRadix_of_mark hmark digits
  | plain h =>
    refine (Numeral.splitRadix_eq text).resolve_right ?_
    rintro ⟨entry, hentry, htext⟩
    exact h entry hentry ⟨(splitRadix text).2, htext.symm⟩

theorem of_splitRadix (text : List Char) : HasRadix text (splitRadix text).1 (splitRadix text).2 := by
  by_cases hmarked : ∃ entry ∈ marks, ['0', entry.1] <+: text
  · obtain ⟨⟨mark, radix⟩, hmark, digits, rfl⟩ := hmarked
    have hsplit : splitRadix (['0', mark] ++ digits) = (radix, digits) := splitRadix_of_mark hmark digits
    rw [hsplit]
    exact .marked hmark digits
  · have hplain : HasRadix text 10 text := .plain fun entry hentry hmark => hmarked ⟨entry, hentry, hmark⟩
    rwa [hplain.splitRadix_eq]

theorem bounds (h : HasRadix text radix digits) : 0 < radix ∧ radix ≤ 16 := by
  have hmarks : ∀ entry ∈ marks, 0 < entry.2 ∧ entry.2 ≤ 16 := by decide
  cases h with
  | marked hmark => exact hmarks _ hmark
  | plain => decide

end HasRadix

section Denoting

variable {text : List Char} {value : Nat} {word : Word}

/-- A text is read as the number that it denotes, if a word holds that. -/
theorem read_of_denotes (h : Denotes text value) :
    read text = if value < UInt32.size then .ok (UInt32.ofNat value) else .error .overflow := by
  obtain ⟨radix, signed, digits, hsplit, hsigned, hne, hdigits⟩ := h
  obtain ⟨hpos, hradix⟩ := hsplit.bounds
  rw [read, hsplit.splitRadix_eq]
  dsimp only
  rw [readSigned_of_positional hpos hradix hsigned hne hdigits]
  split <;> rfl

theorem denotes_of_read (h : read text = .ok word) : Denotes text word.toNat := by
  obtain ⟨value, hvalue, rfl⟩ := Except.map_eq_ok.mp h
  have hsplit := HasRadix.of_splitRadix (text.filter (· != '_'))
  obtain ⟨hpos, hradix⟩ := hsplit.bounds
  obtain ⟨digits, hsigned, hne, hdigits⟩ := readSigned_eq_ok hvalue
  obtain ⟨hpositional, hlt⟩ := positional_of_readDigits hpos hradix hdigits
  rw [UInt32.toNat_ofNat_of_lt' hlt]
  exact ⟨_, _, digits, hsplit, hsigned, hne, hpositional⟩

theorem read_eq_ok_iff : read text = .ok word ↔ Denotes text word.toNat := by
  refine ⟨denotes_of_read, fun h => ?_⟩
  rw [read_of_denotes h, if_pos word.toNat_lt, UInt32.ofNat_toNat]

theorem read_eq_of_filter_eq {other : List Char}
    (h : text.filter (· != '_') = other.filter (· != '_')) : read text = read other := by
  rw [read, read, h]

end Denoting

/-! ## Writing a number in each radix -/

/-- What stands in front of the digits of each radix. -/
def leads : List (List Char × Nat) := ([], 10) :: marks.map fun entry => (['0', entry.1], entry.2)

section Writing

variable {lead : List Char × Nat} {sign digits : List Char} {value : Nat}

theorem bounds_of_mem_leads : ∀ lead ∈ leads, 1 < lead.2 ∧ lead.2 ≤ 16 := by decide

/-- Digits behind a lead and a sign have the radix of the lead. -/
theorem hasRadix_of_mem_leads (hlead : lead ∈ leads) (hsign : sign = [] ∨ sign = ['+'])
    (h : Positional lead.2 digits value) :
    HasRadix (lead.1 ++ (sign ++ digits)) lead.2 (sign ++ digits) := by
  obtain rfl | hmarked := List.mem_cons.mp hlead
  · refine .plain fun entry hentry hmark => ?_
    -- The mark would be a sign or a decimal digit, and it is neither.
    have hmem : entry.1 ∈ sign ++ digits := hmark.subset (List.mem_cons_of_mem _ List.mem_cons_self)
    have hletter : ∀ entry ∈ marks, entry.1 ≠ '+' ∧ entry.1.isDigit = false := by decide
    obtain hmem | hmem := List.mem_append.mp hmem
    · obtain rfl | rfl := hsign
      · cases hmem
      · exact (hletter entry hentry).1 (List.mem_singleton.mp hmem)
    · obtain ⟨d, hd⟩ := h.exists_digit _ hmem
      have hdigit := isDigit_of_decimal hd
      rw [(hletter entry hentry).2] at hdigit
      cases hdigit
  · obtain ⟨⟨mark, radix⟩, hmark, rfl⟩ := List.mem_map.mp hmarked
    exact .marked hmark (sign ++ digits)

/-- Behind a lead and a sign, digits denote their value by position. -/
theorem denotes_of_mem_leads (hlead : lead ∈ leads) (hsign : sign = [] ∨ sign = ['+'])
    (hne : digits ≠ []) (h : Positional lead.2 digits value) :
    Denotes (lead.1 ++ (sign ++ digits)) value := by
  have hleads : ∀ lead ∈ leads, lead.1.filter (· != '_') = lead.1 := by decide
  have hsigns : sign.filter (· != '_') = sign := by
    obtain rfl | rfl := hsign <;> rfl
  have hdigits : digits.filter (· != '_') = digits := List.filter_eq_self.mpr
    (h.forall_mem (P := fun c => (c != '_') = true) (bounds_of_mem_leads lead hlead).2 (by decide))
  have hfilter : (lead.1 ++ (sign ++ digits)).filter (· != '_') = lead.1 ++ (sign ++ digits) := by
    rw [List.filter_append, List.filter_append, hleads lead hlead, hsigns, hdigits]
  refine ⟨lead.2, sign ++ digits, digits, ?_, ?_, hne, h⟩
  · rw [hfilter]
    exact hasRadix_of_mem_leads hlead hsign h
  · obtain rfl | rfl := hsign
    · exact .inl rfl
    · exact .inr rfl

end Writing

/-- **A numeral is read as its value by position, or not at all**. A text is read as a word exactly if it denotes
the number of the word, and where the number is too large for a word it is neither wrapped nor cut. So
underscores and leading zeros change nothing, and every word can be written in each radix. -/
theorem read_by_position :
    (∀ text word, read text = .ok word ↔ Denotes text word.toNat) ∧
      (∀ text value, Denotes text value →
        read text = if value < UInt32.size then .ok (UInt32.ofNat value) else .error .overflow) ∧
      (∀ text other, text.filter (· != '_') = other.filter (· != '_') → read text = read other) ∧
      (∀ lead ∈ leads, ∀ sign digits value zeros, sign = [] ∨ sign = ['+'] → digits ≠ [] →
        Positional lead.2 digits value →
          read (lead.1 ++ (sign ++ (List.replicate zeros '0' ++ digits))) =
            read (lead.1 ++ (sign ++ digits))) ∧
      (∀ lead ∈ leads, ∀ word : Word, read (lead.1 ++ Nat.toDigits lead.2 word.toNat) = .ok word) := by
  refine ⟨fun text word => read_eq_ok_iff, fun text value => read_of_denotes,
    fun text other => read_eq_of_filter_eq, ?_, ?_⟩
  · intro lead hlead sign digits value zeros hsign hne h
    have hzeros := h.zeros (Nat.zero_lt_of_lt (bounds_of_mem_leads lead hlead).1) zeros
    rw [read_of_denotes (denotes_of_mem_leads hlead hsign hne h),
      read_of_denotes (denotes_of_mem_leads hlead hsign (List.append_ne_nil_of_right_ne_nil _ hne) hzeros)]
  · intro lead hlead word
    obtain ⟨hone, hradix⟩ := bounds_of_mem_leads lead hlead
    exact read_eq_ok_iff.mpr (denotes_of_mem_leads hlead (.inl rfl) Nat.toDigits_ne_nil
      (Text.positional_toDigits hone hradix word.toNat))

/-- A marked numeral with a sign, leading zeros and underscores, even in its mark, and one a word too large. -/
theorem read_by_position_of_numerals :
    read "0_x+00_fF".toList = .ok 255 ∧ Denotes "0_x+00_fF".toList 255 ∧
      read "0_x+00_fF".toList = read "0x+fF".toList ∧
      Denotes "4294967296".toList 4294967296 ∧ read "4294967296".toList = .error .overflow := by
  obtain ⟨hiff, hbound, hunderscores, hzeros, -⟩ := read_by_position
  have hread : read "0_x+00_fF".toList = .ok 255 := by rfl
  have hdigits : Positional 16 "fF".toList 255 := (Text.valueFrom?_eq_some_iff (le_refl 16)).mp (by decide)
  have hdecimal : (([], 10) : List Char × Nat) ∈ leads := by decide
  have hlarge : Denotes "4294967296".toList 4294967296 :=
    denotes_of_mem_leads hdecimal (.inl rfl) (by decide)
      (Text.positional_toDigits (by decide) (by decide) 4294967296)
  refine ⟨hread, (hiff _ 255).mp hread, ?_, hlarge, hbound _ _ hlarge⟩
  exact (hunderscores _ "0x+00fF".toList (by decide)).trans
    (hzeros (['0', 'x'], 16) (by decide) ['+'] "fF".toList 255 2 (.inr rfl) (by decide) hdigits)

end Numeral

end Accumulator
