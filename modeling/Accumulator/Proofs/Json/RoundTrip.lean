import Accumulator.Json.Reader
import Accumulator.Proofs.Text.Digits
import Mathlib.Data.List.TakeWhile

/-!
# Rendered values are read back

* `readText_flatMap_escape` — a string literal ends at its closing quote and gives its text.
* `readNumber_toDigits` — a number ends where its digits end.
* `Reads`, `reads` — the text of a value, whatever follows it, is read as the value. The fuel that it
  takes is at most the length of the text.
* `read?_render` — a rendered value is read back.
-/

namespace Accumulator.Json

/-! ## Blanks -/

/-- The blanks of a line break, as characters. -/
def gap (level : Nat) : List Char := (newline level).toList

theorem gap_eq (level : Nat) : gap level = '\n' :: List.replicate (2 * level) ' ' := by
  simp [gap, newline]

@[simp] theorem skipSpace_gap (level : Nat) (text : List Char) :
    skipSpace (gap level ++ text) = skipSpace text := by
  have hblanks : skipSpace (List.replicate (2 * level) ' ' ++ text) = skipSpace text := by
    generalize 2 * level = n
    induction n with
    | zero => rfl
    | succ n ih => exact ih
  rw [gap_eq]
  exact hblanks

theorem skipSpace_cons {c : Char} (h : isSpace c = false) (text : List Char) :
    skipSpace (c :: text) = c :: text := by
  rw [skipSpace, List.dropWhile_cons_of_neg (by simp [h])]

/-! ## String literals -/

theorem unicodeEscape?_control_all : ∀ n < 0x20,
    ((Nat.toDigits 16 n).leftpad 4 '0').length = 4 ∧
      unicodeEscape? ((Nat.toDigits 16 n).leftpad 4 '0') = some (Char.ofNat n) := by decide

theorem readText_escape (seen : List Char) (c : Char) (rest : List Char) :
    readText seen (escape c ++ rest) = readText (c :: seen) rest := by
  unfold escape
  split
  case h_8 =>
    split
    · next hcontrol =>
      obtain ⟨hlength, hdecode⟩ := unicodeEscape?_control_all c.toNat hcontrol
      match hdigits : (Nat.toDigits 16 c.toNat).leftpad 4 '0', hlength with
      | [a, b, d, e], _ =>
        rw [hdigits, Char.ofNat_toNat] at hdecode
        simp only [List.cons_append, List.nil_append, readText, hdecode]
    · next hprinted =>
      rw [List.cons_append, List.nil_append, readText.eq_def]
      split <;> simp_all [Nat.not_lt_of_le]
  all_goals simp [readText, simpleEscape?]

/-- **A string literal ends at its closing quote.** -/
theorem readText_flatMap_escape (seen text rest : List Char) :
    readText seen (text.flatMap escape ++ '"' :: rest) =
      some (String.ofList (seen.reverse ++ text), rest) := by
  induction text generalizing seen with
  | nil => simp [readText]
  | cons c text ih =>
    rw [List.flatMap_cons, List.append_assoc, readText_escape, ih]
    simp

theorem toList_quote (text : String) :
    (quote text).toList = '"' :: (text.toList.flatMap escape ++ ['"']) := by
  simp [quote]

theorem readText_quote (text : String) (rest : List Char) :
    readText [] (text.toList.flatMap escape ++ '"' :: rest) = some (text, rest) := by
  rw [readText_flatMap_escape]
  simp

/-! ## Numbers -/

/-- No digit follows. -/
def NoDigitHead (rest : List Char) : Prop := ∀ c tail, rest = c :: tail → c.isDigit = false

theorem noDigitHead_cons {c : Char} (h : c.isDigit = false) (tail : List Char) :
    NoDigitHead (c :: tail) := by
  rintro _ _ ⟨⟩
  exact h

/-- **A number ends where its digits end.** -/
theorem readNumber_toDigits (n : Nat) {rest : List Char} (hrest : NoDigitHead rest) :
    readNumber (Nat.toDigits 10 n ++ rest) = some (n, rest) := by
  rcases Nat.eq_zero_or_pos n with rfl | hn
  · rfl
  · obtain ⟨c, digits, hdigits, hc⟩ :=
      @Text.head_toDigits_ne_zero 10 (by decide) (by decide) n hn
    have hall : ∀ d ∈ Nat.toDigits 10 n, d.isDigit = true := fun d hd =>
      Nat.isDigit_of_mem_toDigits (by decide) (by decide) hd
    have htake : rest.takeWhile Char.isDigit = [] := by
      cases rest with
      | nil => rfl
      | cons d tail => exact List.takeWhile_cons_of_neg (by simp [hrest d tail rfl])
    have hdrop : rest.dropWhile Char.isDigit = rest := by
      cases rest with
      | nil => rfl
      | cons d tail => exact List.dropWhile_cons_of_neg (by simp [hrest d tail rfl])
    unfold readNumber
    split
    · next hzero =>
      rw [hdigits, List.cons_append] at hzero
      exact absurd (List.cons.inj hzero).1 hc
    · rw [List.takeWhile_append_of_pos hall, List.dropWhile_append_of_pos hall, htake, hdrop,
        List.append_nil, Text.ofDigits?_toDigits (by decide) (by decide)]
      rfl

/-! ## Values -/

/-- The text of a value. -/
def chars (level : Nat) (value : Json) : List Char := (renderAt level value).toList

/-- The text of a value is read as the value, with fuel for each of its characters. -/
def Reads (value : Json) : Prop :=
  ∀ (level fuel : Nat) (rest : List Char), NoDigitHead rest →
    (chars level value).length ≤ fuel →
      readValue fuel (chars level value ++ rest) = some (value, rest)

/-- What follows an entry: the other entries behind commas, and the closing bracket. -/
def tailChars (level : Nat) (closing : Char) (entries : List (List Char)) : List Char :=
  entries.flatMap (fun entry => ',' :: (gap (level + 1) ++ entry)) ++ (gap level ++ [closing])

theorem tailChars_cons (level : Nat) (closing : Char) (entry : List Char)
    (entries : List (List Char)) : tailChars level closing (entry :: entries) =
      ',' :: (gap (level + 1) ++ (entry ++ tailChars level closing entries)) := by
  simp [tailChars]

theorem tailChars_nil (level : Nat) (closing : Char) :
    tailChars level closing [] = gap level ++ [closing] := rfl

theorem noDigitHead_tailChars (level : Nat) (closing : Char) (entries : List (List Char))
    (rest : List Char) : NoDigitHead (tailChars level closing entries ++ rest) := by
  cases entries with
  | nil =>
    rw [tailChars_nil, gap_eq]
    exact @noDigitHead_cons '\n' (by decide) _
  | cons entry entries => exact @noDigitHead_cons ',' (by decide) _

theorem skipSpace_tailChars_nil (level : Nat) {closing : Char} (h : isSpace closing = false)
    (rest : List Char) : skipSpace (tailChars level closing [] ++ rest) = closing :: rest := by
  rw [tailChars_nil, List.append_assoc, skipSpace_gap]
  exact skipSpace_cons h rest

theorem skipSpace_tailChars_cons (level : Nat) (closing : Char) (entry : List Char)
    (entries : List (List Char)) (rest : List Char) :
    skipSpace (tailChars level closing (entry :: entries) ++ rest) =
      ',' :: (gap (level + 1) ++ (entry ++ (tailChars level closing entries ++ rest))) := by
  rw [tailChars_cons, List.cons_append, skipSpace_cons (by decide), List.append_assoc,
    List.append_assoc]

theorem length_tailChars_cons (level : Nat) (closing : Char) (entry : List Char)
    (entries : List (List Char)) :
    entry.length + (tailChars level closing entries).length <
      (tailChars level closing (entry :: entries)).length := by
  simp only [tailChars_cons, List.length_cons, List.length_append]
  omega

theorem length_tailChars_pos (level : Nat) (closing : Char) (entries : List (List Char)) :
    0 < (tailChars level closing entries).length := by
  cases entries with
  | nil => simp [tailChars_nil]
  | cons entry entries => simp [tailChars_cons]

theorem toList_intercalate (separator entry : String) (entries : List String) :
    (String.intercalate separator (entry :: entries)).toList =
      entry.toList ++ entries.flatMap fun other => separator.toList ++ other.toList := by
  induction entries generalizing entry with
  | nil => simp
  | cons other entries ih =>
    rw [String.intercalate_cons_cons, String.toList_append, String.toList_append, ih]
    simp

theorem toList_enclose_cons (opening closing : Char) (level : Nat) (entry : String)
    (entries : List String) :
    (enclose (.singleton opening) (.singleton closing) level (entry :: entries)).toList =
      opening :: (gap (level + 1) ++ (entry.toList ++
        tailChars level closing (entries.map String.toList))) := by
  simp only [enclose, String.toList_append, toList_intercalate, String.toList_singleton]
  simp [tailChars, gap, List.flatMap_map]

/-- The text of an object member. -/
def memberChars (level : Nat) (member : String × Json) : List Char :=
  '"' :: (member.1.toList.flatMap escape ++ '"' :: ':' :: ' ' :: chars level member.2)

theorem chars_null (level : Nat) : chars level .null = ['n', 'u', 'l', 'l'] := by
  rw [chars, renderAt]
  rfl

theorem chars_true (level : Nat) : chars level (.boolean true) = ['t', 'r', 'u', 'e'] := by
  rw [chars, renderAt]
  rfl

theorem chars_false (level : Nat) : chars level (.boolean false) = ['f', 'a', 'l', 's', 'e'] := by
  rw [chars, renderAt]
  rfl

theorem chars_number (level n : Nat) : chars level (.number n) = Nat.toDigits 10 n := by
  rw [chars, renderAt, Text.decimal, String.toList_ofList]

theorem chars_string (level : Nat) (text : String) :
    chars level (.string text) = '"' :: (text.toList.flatMap escape ++ ['"']) := by
  rw [chars, renderAt, toList_quote]

theorem chars_array_nil (level : Nat) : chars level (.array []) = ['[', ']'] := by
  simp [chars, renderAt, enclose]

theorem chars_array_cons (level : Nat) (item : Json) (items : List Json) :
    chars level (.array (item :: items)) =
      '[' :: (gap (level + 1) ++ (chars (level + 1) item ++
        tailChars level ']' (items.map (chars (level + 1))))) := by
  rw [chars, renderAt, List.map_cons]
  exact (toList_enclose_cons '[' ']' level _ _).trans (by rw [List.map_map]; rfl)

theorem chars_object_nil (level : Nat) : chars level (.object []) = ['\x7b', '\x7d'] := by
  simp [chars, renderAt, enclose]

theorem toList_member (level : Nat) (member : String × Json) :
    (quote member.1 ++ ": " ++ renderAt level member.2).toList = memberChars level member := by
  simp [toList_quote, memberChars, chars]

theorem chars_object_cons (level : Nat) (member : String × Json) (members : List (String × Json)) :
    chars level (.object (member :: members)) =
      '\x7b' :: (gap (level + 1) ++ (memberChars (level + 1) member ++
        tailChars level '\x7d' (members.map (memberChars (level + 1))))) := by
  rw [chars, renderAt, List.map_cons, ← toList_member]
  refine (toList_enclose_cons '\x7b' '\x7d' level _ _).trans ?_
  rw [List.map_map]
  simp only [Function.comp_def, toList_member]

/-- A digit starts nothing but a number. -/
theorem digit_ne {c : Char} (h : c.isDigit = true) :
    isSpace c = false ∧ c ≠ ']' ∧ c ≠ '\x7b' ∧ c ≠ '[' ∧ c ≠ '"' ∧ c ≠ 'n' ∧ c ≠ 't' ∧ c ≠ 'f' := by
  refine ⟨?_, ?_, ?_, ?_, ?_, ?_, ?_, ?_⟩
  · rw [← Bool.not_eq_true]
    intro hspace
    simp only [isSpace, Bool.or_eq_true, beq_iff_eq] at hspace
    rcases hspace with ((rfl | rfl) | rfl) | rfl <;> exact absurd h (by decide)
  all_goals
    rintro rfl
    exact absurd h (by decide)

theorem exists_digit (n : Nat) : ∃ c rest, Nat.toDigits 10 n = c :: rest ∧ c.isDigit = true := by
  obtain ⟨c, rest, hdigits⟩ := List.exists_cons_of_ne_nil (@Nat.toDigits_ne_nil n 10)
  refine ⟨c, rest, hdigits, ?_⟩
  exact Nat.isDigit_of_mem_toDigits (by decide) (by decide) (hdigits ▸ List.mem_cons_self)

/-- The text of a value starts with neither a blank nor a closing bracket. -/
theorem head_chars (level : Nat) (value : Json) :
    ∃ c rest, chars level value = c :: rest ∧ isSpace c = false ∧ c ≠ ']' := by
  cases value with
  | null => exact ⟨'n', _, chars_null level, by decide, by decide⟩
  | boolean value =>
    cases value with
    | true => exact ⟨'t', _, chars_true level, by decide, by decide⟩
    | false => exact ⟨'f', _, chars_false level, by decide, by decide⟩
  | number n =>
    obtain ⟨c, rest, hdigits, hc⟩ := exists_digit n
    exact ⟨c, rest, (chars_number level n).trans hdigits, (digit_ne hc).1, (digit_ne hc).2.1⟩
  | string text => exact ⟨'"', _, chars_string level text, by decide, by decide⟩
  | array items =>
    cases items with
    | nil => exact ⟨'[', _, chars_array_nil level, by decide, by decide⟩
    | cons item items => exact ⟨'[', _, chars_array_cons level item items, by decide, by decide⟩
  | object members =>
    cases members with
    | nil => exact ⟨'\x7b', _, chars_object_nil level, by decide, by decide⟩
    | cons member members =>
      exact ⟨'\x7b', _, chars_object_cons level member members, by decide, by decide⟩

/-- A value is read the same behind blanks. -/
theorem readValue_gap (fuel level : Nat) (text : List Char) :
    readValue fuel (gap level ++ text) = readValue fuel text := by
  cases fuel with
  | zero => rw [readValue, readValue]
  | succ fuel => rw [readValue, readValue, skipSpace_gap]

theorem reads_number (n : Nat) : (Json.number n).Reads := by
  intro level fuel rest hrest hfuel
  rw [chars_number] at hfuel ⊢
  obtain ⟨c, digits, hdigits, hc⟩ := exists_digit n
  obtain ⟨hspace, -, hbrace, hbracket, hquote, hn, ht, hf⟩ := digit_ne hc
  cases fuel with
  | zero => simp [hdigits] at hfuel
  | succ fuel =>
    have hskip : skipSpace (Nat.toDigits 10 n ++ rest) = Nat.toDigits 10 n ++ rest := by
      rw [hdigits, List.cons_append, skipSpace_cons hspace]
    have hnumber := readNumber_toDigits n hrest
    rw [readValue, hskip]
    rw [hdigits, List.cons_append] at hnumber ⊢
    split
    · next heq => exact absurd (List.cons.inj heq).1 hbrace
    · next heq => exact absurd (List.cons.inj heq).1 hbracket
    · next heq => exact absurd (List.cons.inj heq).1 hquote
    · next heq => exact absurd (List.cons.inj heq).1 hn
    · next heq => exact absurd (List.cons.inj heq).1 ht
    · next heq => exact absurd (List.cons.inj heq).1 hf
    · rw [hnumber]
      rfl

/-- The items of an array, with fuel for each character from the first of them on. -/
theorem readItems_chars {items : List Json} (hitems : ∀ item ∈ items, item.Reads) {item : Json}
    (hitem : item.Reads) (level fuel : Nat) (seen : List Json) (rest : List Char)
    (hfuel : (chars (level + 1) item).length +
      (tailChars level ']' (items.map (chars (level + 1)))).length ≤ fuel) :
    readItems fuel seen (gap (level + 1) ++ (chars (level + 1) item ++
      (tailChars level ']' (items.map (chars (level + 1))) ++ rest))) =
        some (.array (seen.reverse ++ item :: items), rest) := by
  have hpos := length_tailChars_pos level ']' (items.map (chars (level + 1)))
  cases fuel with
  | zero => omega
  | succ fuel =>
    rw [readItems, readValue_gap, hitem (level + 1) fuel _ (noDigitHead_tailChars level ']' _ rest)
      (by omega)]
    cases items with
    | nil =>
      simp only [List.map_nil, skipSpace_tailChars_nil level (show isSpace ']' = false by decide)]
      rw [List.reverse_cons]
    | cons other items =>
      have hlength := length_tailChars_cons level ']' (chars (level + 1) other)
        (items.map (chars (level + 1)))
      simp only [List.map_cons] at hfuel ⊢
      simp only [skipSpace_tailChars_cons]
      rw [readItems_chars (fun i hi => hitems i (List.mem_cons_of_mem other hi))
        (hitems other List.mem_cons_self) level fuel (item :: seen) rest (by omega),
        List.reverse_cons, List.append_assoc]
      rfl

theorem reads_array {items : List Json} (hitems : ∀ item ∈ items, item.Reads) :
    (Json.array items).Reads := by
  intro level fuel rest _ hfuel
  cases items with
  | nil =>
    rw [chars_array_nil] at hfuel ⊢
    cases fuel with
    | zero => cases hfuel
    | succ fuel => rfl
  | cons item items =>
    rw [chars_array_cons] at hfuel ⊢
    simp only [List.length_cons, List.length_append] at hfuel
    cases fuel with
    | zero => omega
    | succ fuel =>
      obtain ⟨c, tail, hchars, hspace, hbracket⟩ := head_chars (level + 1) item
      have hskip : skipSpace (gap (level + 1) ++ (chars (level + 1) item ++
          (tailChars level ']' (items.map (chars (level + 1))) ++ rest))) =
          c :: (tail ++ (tailChars level ']' (items.map (chars (level + 1))) ++ rest)) := by
        rw [skipSpace_gap, hchars, List.cons_append, skipSpace_cons hspace]
      have hread := readItems_chars (fun i hi => hitems i (List.mem_cons_of_mem item hi))
        (hitems item List.mem_cons_self) level fuel [] rest (by omega)
      rw [readValue, List.cons_append, skipSpace_cons (by decide)]
      simp only [List.append_assoc, hskip]
      split
      · next heq => exact absurd (List.cons.inj heq).1 hbracket
      · exact hread

theorem readName_memberChars (level : Nat) (member : String × Json) (rest : List Char) :
    readName (gap level ++ (memberChars level member ++ rest)) =
      some (member.1, ' ' :: (chars level member.2 ++ rest)) := by
  rw [readName, skipSpace_gap, memberChars, List.cons_append, skipSpace_cons (by decide)]
  simp only [List.append_assoc, List.cons_append, readText_quote,
    skipSpace_cons (show isSpace ':' = false by decide)]

theorem readValue_space (fuel : Nat) (text : List Char) :
    readValue fuel (' ' :: text) = readValue fuel text := by
  cases fuel with
  | zero => rw [readValue, readValue]
  | succ fuel =>
    have hskip : skipSpace (' ' :: text) = skipSpace text := rfl
    rw [readValue, readValue, hskip]

theorem length_chars_lt_memberChars (level : Nat) (member : String × Json) :
    (chars level member.2).length < (memberChars level member).length := by
  simp only [memberChars, List.length_cons, List.length_append]
  omega

/-- The members of an object, with fuel for each character from the first of them on. -/
theorem readMembers_chars {members : List (String × Json)}
    (hmembers : ∀ member ∈ members, member.2.Reads) {member : String × Json}
    (hmember : member.2.Reads) (level fuel : Nat) (seen : List (String × Json)) (rest : List Char)
    (hfuel : (memberChars (level + 1) member).length +
      (tailChars level '\x7d' (members.map (memberChars (level + 1)))).length ≤ fuel) :
    readMembers fuel seen (gap (level + 1) ++ (memberChars (level + 1) member ++
      (tailChars level '\x7d' (members.map (memberChars (level + 1))) ++ rest))) =
        some (.object (seen.reverse ++ member :: members), rest) := by
  have hpos := length_tailChars_pos level '\x7d' (members.map (memberChars (level + 1)))
  have hvalue := length_chars_lt_memberChars (level + 1) member
  cases fuel with
  | zero => omega
  | succ fuel =>
    rw [readMembers, readName_memberChars]
    simp only [readValue_space, hmember (level + 1) fuel _
      (noDigitHead_tailChars level '\x7d' (members.map (memberChars (level + 1))) rest) (by omega)]
    cases members with
    | nil =>
      simp only [List.map_nil,
        skipSpace_tailChars_nil level (show isSpace '\x7d' = false by decide)]
      rw [List.reverse_cons]
    | cons other members =>
      have hlength := length_tailChars_cons level '\x7d' (memberChars (level + 1) other)
        (members.map (memberChars (level + 1)))
      simp only [List.map_cons] at hfuel ⊢
      simp only [skipSpace_tailChars_cons]
      rw [readMembers_chars (fun m hm => hmembers m (List.mem_cons_of_mem other hm))
        (hmembers other List.mem_cons_self) level fuel (member :: seen) rest (by omega),
        List.reverse_cons, List.append_assoc]
      rfl

theorem reads_object {members : List (String × Json)}
    (hmembers : ∀ member ∈ members, member.2.Reads) : (Json.object members).Reads := by
  intro level fuel rest _ hfuel
  cases members with
  | nil =>
    rw [chars_object_nil] at hfuel ⊢
    cases fuel with
    | zero => cases hfuel
    | succ fuel => rfl
  | cons member members =>
    rw [chars_object_cons] at hfuel ⊢
    simp only [List.length_cons, List.length_append] at hfuel
    cases fuel with
    | zero => omega
    | succ fuel =>
      have hread := readMembers_chars (fun m hm => hmembers m (List.mem_cons_of_mem member hm))
        (hmembers member List.mem_cons_self) level fuel [] rest (by omega)
      have hskip : ∀ text, skipSpace (gap (level + 1) ++ (memberChars (level + 1) member ++ text)) =
          memberChars (level + 1) member ++ text := by
        intro text
        rw [skipSpace_gap, memberChars, List.cons_append, skipSpace_cons (by decide)]
      rw [readValue, List.cons_append, skipSpace_cons (by decide)]
      simp only [List.append_assoc, hskip]
      split
      · next heq => cases heq
      · exact hread

theorem reads_string (text : String) : (Json.string text).Reads := by
  intro level fuel rest _ hfuel
  rw [chars_string] at hfuel ⊢
  cases fuel with
  | zero => cases hfuel
  | succ fuel =>
    rw [readValue, List.cons_append, skipSpace_cons (by decide)]
    simp only [List.append_assoc, List.cons_append, List.nil_append, readText_quote, Option.map_some]

theorem reads_null : Json.null.Reads := by
  intro level fuel rest _ hfuel
  rw [chars_null] at hfuel ⊢
  cases fuel with
  | zero => cases hfuel
  | succ fuel => rfl

theorem reads_boolean (value : Bool) : (Json.boolean value).Reads := by
  intro level fuel rest _ hfuel
  cases value with
  | true =>
    rw [chars_true] at hfuel ⊢
    cases fuel with
    | zero => cases hfuel
    | succ fuel => rfl
  | false =>
    rw [chars_false] at hfuel ⊢
    cases fuel with
    | zero => cases hfuel
    | succ fuel => rfl

/-- **The text of a value is read as the value, whatever follows it.** -/
theorem reads (value : Json) : value.Reads := by
  match value with
  | .null => exact reads_null
  | .boolean value => exact reads_boolean value
  | .number n => exact reads_number n
  | .string text => exact reads_string text
  | .array items => exact reads_array fun item _ => reads item
  | .object members => exact reads_object fun member _ => reads member.2
termination_by sizeOf value
decreasing_by
  · have := List.sizeOf_lt_of_mem ‹_ ∈ items›
    simp only [Json.array.sizeOf_spec]
    omega
  · have := List.sizeOf_lt_of_mem ‹member ∈ members›
    have : sizeOf member.2 < sizeOf member := by
      cases member
      simp only [Prod.mk.sizeOf_spec]
      omega
    simp only [Json.object.sizeOf_spec]
    omega

/-- **A rendered value is read back.** -/
theorem read?_render (value : Json) {blanks : List Char} (h : ∀ c ∈ blanks, isSpace c = true) :
    read? (value.render.toList ++ blanks) = some value := by
  have hrest : NoDigitHead blanks := by
    rintro c tail rfl
    rw [← Bool.not_eq_true]
    intro hdigit
    exact absurd (h c List.mem_cons_self) (by rw [(digit_ne hdigit).1]; decide)
  have hchars : value.render.toList = chars 0 value := rfl
  have hblanks : skipSpace blanks = [] := List.dropWhile_eq_nil_iff.mpr h
  rw [read?, hchars, reads value 0 _ blanks hrest (by rw [List.length_append]; omega)]
  simp [hblanks]

end Accumulator.Json
