import Accumulator.Proofs.Source.Spelling
import Accumulator.Proofs.Source.WellFormed

/-!
# Numbers and labels among arguments

Origins and ports are numbers, and their arguments are read as such. Other arguments are a number or the name
of a label, and their first character tells which.

* `Numeral.chars_of_read?` — the characters that a number is made of.
* `Immediate.read?_of_numeral` — what a text that reads as a number is where a label may stand: the same
  number behind a digit, else a label, unless it has a sign.
* `Line.arguments`, `Statement.number?` — the arguments of a line, and the number that a statement takes.
* `Line.literal_iff_of_read` — the argument of a statement that takes a number is the same number everywhere
  else exactly if it starts with a digit.
-/

namespace Accumulator

/-- Whether the first character of a text is a decimal digit. -/
def startsWithDigit (text : List Char) : Bool := text.head?.any Char.isDigit

/-! ## The characters of a number -/

theorem Text.isAlphanum_of_digit? {radix d : Nat} {c : Char} (h : Text.digit? radix c = some d) :
    c.isAlphanum = true := by
  unfold Text.digit? at h
  split at h
  · next hrange =>
    have hdigit : c.isDigit = true := Bool.and_eq_true_iff.mpr (hrange.imp decide_eq_true decide_eq_true)
    exact Bool.or_eq_true_iff.mpr (.inr hdigit)
  · have halpha : c.isAlpha = true := by
      split at h
      · next hrange =>
        exact Bool.or_eq_true_iff.mpr
          (.inr (Bool.and_eq_true_iff.mpr (hrange.imp decide_eq_true decide_eq_true)))
      · split at h
        · next hrange => exact Bool.or_eq_true_iff.mpr (.inl (decide_eq_true hrange))
        · rw [if_neg (Nat.lt_irrefl radix)] at h
          cases h
    exact Bool.or_eq_true_iff.mpr (.inl halpha)

namespace Numeral

variable {text : List Char}

theorem digit?_of_readDigits {radix start value : Nat} (h : readDigits radix start text = .ok value) :
    ∀ c ∈ text, ∃ d, Text.digit? radix c = some d := by
  fun_induction readDigits radix start text with
  | case1 start => exact List.forall_mem_nil _
  | case2 start c rest hdigit => cases h
  | case3 start c rest d hdigit next hlt ih => exact List.forall_mem_cons.mpr ⟨⟨d, hdigit⟩, ih h⟩
  | case4 start c rest d hdigit next hge => cases h

theorem chars_of_readSigned {radix value : Nat} (h : readSigned radix text = .ok value) :
    ∀ c ∈ text, c.isAlphanum = true ∨ c = '+' := by
  have hdigits : ∀ {digits}, readDigits radix 0 digits = .ok value →
      ∀ c ∈ digits, c.isAlphanum = true ∨ c = '+' := fun hread c hc => by
    obtain ⟨d, hd⟩ := digit?_of_readDigits hread c hc
    exact .inl (Text.isAlphanum_of_digit? hd)
  unfold readSigned at h
  split at h
  · cases h
  · cases h
  · exact List.forall_mem_cons.mpr ⟨.inr rfl, hdigits h⟩
  · exact hdigits h

/-- A text is its digits, with a mark in front if their radix has one. -/
theorem splitRadix_eq (text : List Char) :
    splitRadix text = (10, text) ∨
      ∃ entry ∈ marks, text = '0' :: entry.1 :: (splitRadix text).2 := by
  unfold splitRadix
  split
  · exact .inr ⟨('b', 2), by decide, rfl⟩
  · exact .inr ⟨('o', 8), by decide, rfl⟩
  · exact .inr ⟨('x', 16), by decide, rfl⟩
  · exact .inl rfl

theorem exists_readSigned_of_read? {value : Word} (h : read? text = some value) :
    ∃ signed, readSigned (splitRadix (text.filter (· != '_'))).1 (splitRadix (text.filter (· != '_'))).2 =
      .ok signed := by
  unfold read? at h
  split at h
  · next hread =>
    obtain ⟨signed, hsigned, -⟩ := Except.map_eq_ok.mp hread
    exact ⟨signed, hsigned⟩
  · cases h

/-- A number is made of the characters of names, and of a sign. -/
theorem chars_of_read? {value : Word} (h : read? text = some value) :
    ∀ c ∈ text, isNameChar c = true ∨ c = '+' := by
  obtain ⟨signed, hsigned⟩ := exists_readSigned_of_read? h
  have hmarks : ∀ entry ∈ marks, entry.1.isAlphanum = true := by decide
  -- Without its underscores a number is a mark, a sign and digits, of which the first two may be missing.
  have hfiltered : ∀ c ∈ text.filter (· != '_'), c.isAlphanum = true ∨ c = '+' := by
    have hdigits := chars_of_readSigned hsigned
    obtain hplain | ⟨entry, hentry, hmarked⟩ := splitRadix_eq (text.filter (· != '_'))
    · rwa [hplain] at hdigits
    · rw [hmarked]
      exact List.forall_mem_cons.mpr ⟨.inl (by decide),
        List.forall_mem_cons.mpr ⟨.inl (hmarks entry hentry), hdigits⟩⟩
  intro c hc
  by_cases hunderscore : c = '_'
  · exact .inl (by rw [hunderscore]; decide)
  · refine (hfiltered c (List.mem_filter.mpr ⟨hc, by simpa using hunderscore⟩)).imp_left fun halphanum => ?_
    rw [isNameChar, halphanum, Bool.true_or]

end Numeral

/-! ## Texts where a label may stand -/

theorem isIdentifier_of_startsWithDigit {text : List Char} (h : startsWithDigit text = true) :
    isIdentifier text = false := by
  cases text with
  | nil => rfl
  | cons head rest =>
    have hdigit : head.isDigit = true := h
    have hhead : startsIdentifier head = false := by
      rw [Bool.eq_false_iff]
      intro hname
      have hlow := le_toNat_of_startsIdentifier hname
      have hrange := toNat_of_isDigit hdigit
      omega
    rw [isIdentifier, hhead, Bool.false_and]

/-- A text of the characters of names that does not start with a digit is a name. -/
theorem isIdentifier_of_isNameChar {text : List Char} (hne : text ≠ []) (h : startsWithDigit text = false)
    (hchars : ∀ c ∈ text, isNameChar c = true) : isIdentifier text = true := by
  obtain ⟨head, rest, rfl⟩ := List.exists_cons_of_ne_nil hne
  have hdigit : head.isDigit = false := h
  obtain ⟨hhead, hrest⟩ := List.forall_mem_cons.mp hchars
  rw [isNameChar, Char.isAlphanum, hdigit, Bool.or_false] at hhead
  exact Bool.and_eq_true_iff.mpr ⟨hhead, List.all_eq_true.mpr hrest⟩

namespace Immediate

variable {text : List Char}

theorem read?_of_startsWithDigit (h : startsWithDigit text = true) :
    read? text = (Numeral.read? text).map .literal := by
  cases text with
  | nil => cases h
  | cons head rest => exact if_pos h

theorem read?_of_not_startsWithDigit (h : startsWithDigit text = false) :
    read? text = if isIdentifier text then some (.label (String.ofList text)) else none := by
  cases text with
  | nil => rfl
  | cons head rest => exact if_neg (by simpa [startsWithDigit] using h)

/-- Where a label may stand, a number that does not start with a digit is a label, unless it has a sign. -/
theorem read?_of_numeral {value : Word} (hvalue : Numeral.read? text = some value)
    (h : startsWithDigit text = false) :
    read? text = if '+' ∈ text then none else some (.label (String.ofList text)) := by
  have hne : text ≠ [] := by
    rintro rfl
    cases hvalue
  rw [read?_of_not_startsWithDigit h]
  split
  · next hname =>
    rw [if_neg]
    intro hplus
    exact absurd ((isToken_of_isIdentifier hname).chars _ hplus) (by decide)
  · next hname =>
    rw [if_pos]
    by_contra hplus
    refine hname (isIdentifier_of_isNameChar hne h fun c hc => ?_)
    exact (Numeral.chars_of_read? hvalue c hc).resolve_right (ne_of_mem_of_not_mem hc hplus)

end Immediate

/-! ## Statements that take a number -/

theorem onlyArgument_eq_ok {operation argument : List Char} {arguments : List (List Char)} :
    onlyArgument operation arguments = .ok argument ↔ arguments = [argument] := by
  unfold onlyArgument
  split <;> simp

namespace Statement

/-- The number that a statement takes, if it takes one where no label may stand. -/
def number? : Statement → Option Word
  | .origin address => some address.toUInt32
  | .instruction ⟨_, .port port⟩ => some port.toUInt32
  | _ => none

/-- The arguments in the text of a statement. -/
def arguments (text : List Char) : List (List Char) :=
  Text.fields separatesArguments ((Text.trim text).dropWhile fun c => !Text.isBlank c)

theorem readOrigin?_eq_some {text : List Char} {address : Address} (h : readOrigin? text = some address) :
    Numeral.read? text = some address.toUInt32 := by
  obtain ⟨value, hvalue, haddress⟩ := Option.bind_eq_some_iff.mp h
  rw [hvalue, Option.some_inj, ← UInt32.toNat_inj, UInt16.toNat_toUInt32,
    Address.toNat_of_ofNat? haddress]

end Statement

theorem Argument.readPort?_eq_some {text : List Char} {argument : Argument}
    (h : readPort? text = some argument) :
    ∃ port : Port, argument = .port port ∧ Numeral.read? text = some port.toUInt32 := by
  obtain ⟨port, hport, rfl⟩ := Option.map_eq_some_iff.mp h
  obtain ⟨value, hvalue, hnumber⟩ := Option.bind_eq_some_iff.mp hport
  refine ⟨port, rfl, ?_⟩
  rw [hvalue, Option.some_inj, ← UInt32.toNat_inj, UInt8.toNat_toUInt32, Port.toNat_of_ofNat? hnumber]

namespace Code

variable {operation : List Char} {arguments : List (List Char)} {port : Port}

theorem exists_argument_of_readOperand {kind : OperandKind}
    (h : readOperand kind operation arguments = .ok (.port port)) :
    ∃ argument, arguments = [argument] ∧ Numeral.read? argument = some port.toUInt32 := by
  -- Only an operation that takes a port has an operand that is one.
  cases kind with
  | none => cases arguments <;> cases h
  | port =>
    obtain ⟨argument, hargument, h⟩ := Except.bind_eq_ok.mp h
    obtain ⟨number, hport, hnumber⟩ := Argument.readPort?_eq_some (readArgument_eq_ok h)
    cases hport
    exact ⟨argument, onlyArgument_eq_ok.mp hargument, hnumber⟩
  | address | value =>
    obtain ⟨argument, hargument, h⟩ := Except.bind_eq_ok.mp h
    obtain ⟨addressing, target, -, haddress⟩ := Argument.readAddress?_eq_some (readArgument_eq_ok h)
    cases haddress

/-- An instruction with a port has the number of the port as its only argument. -/
theorem exists_argument_of_read {opcode : Opcode}
    (h : read operation arguments = .ok ⟨opcode, .port port⟩) :
    ∃ argument, arguments = [argument] ∧ Numeral.read? argument = some port.toUInt32 := by
  unfold read at h
  split at h
  · obtain ⟨argument, -, h⟩ := Except.bind_eq_ok.mp h
    obtain ⟨value, hvalue, h⟩ := Except.bind_eq_ok.mp h
    cases h
    cases Argument.suits_of_readImmediate? (readArgument_eq_ok hvalue)
  · split at h
    · cases h
    · obtain ⟨argument, hargument, h⟩ := Except.bind_eq_ok.mp h
      cases h
      exact exists_argument_of_readOperand hargument

end Code

namespace Statement

variable {statement : Statement} {value : Word}

/-- A statement that takes a number has it as its only argument. -/
theorem exists_argument_of_ofParts {operation : List Char} {arguments : List (List Char)}
    (h : ofParts operation arguments = .ok statement) (hvalue : statement.number? = some value) :
    ∃ argument, arguments = [argument] ∧ Numeral.read? argument = some value := by
  unfold ofParts at h
  split at h
  · obtain ⟨argument, hargument, h⟩ := Except.bind_eq_ok.mp h
    obtain ⟨address, haddress, h⟩ := Except.bind_eq_ok.mp h
    cases h
    cases hvalue
    exact ⟨argument, onlyArgument_eq_ok.mp hargument, readOrigin?_eq_some (readArgument_eq_ok haddress)⟩
  · split at h
    · cases h
    · obtain ⟨items, hitems, h⟩ := Except.bind_eq_ok.mp h
      cases h
      cases hvalue
  · obtain ⟨code, hcode, h⟩ := Except.bind_eq_ok.mp h
    cases h
    obtain ⟨opcode, argument⟩ := code
    cases argument with
    | port port =>
      cases hvalue
      exact Code.exists_argument_of_read hcode
    | none | immediate | address => cases hvalue

theorem exists_argument_of_read {text : List Char} (h : read text = .ok (some statement))
    (hvalue : statement.number? = some value) :
    ∃ argument, arguments text = [argument] ∧ Numeral.read? argument = some value := by
  unfold read at h
  split at h
  · cases h
  · obtain ⟨found, hfound, h⟩ := Except.bind_eq_ok.mp h
    cases h
    exact exists_argument_of_ofParts hfound hvalue

end Statement

/-! ## Lines with a number -/

namespace Line

/-- The arguments in the text of a line, behind its labels and its operation. -/
def arguments (text : List Char) : List (List Char) :=
  Statement.arguments ((Text.split (· == ':') (stripComment text)).getLastD [])

/-- The argument of a statement that takes a number is no name and the same number wherever a label may
stand, exactly if it starts with a digit. Otherwise a label may be named so, unless there is a sign in it. -/
theorem literal_iff_of_read {number : Nat} {text : List Char} {line : Line} {statement : Statement}
    {value : Word} (h : read number text = .ok line) (hstatement : line.statement = some statement)
    (hvalue : statement.number? = some value) :
    ∃ argument, arguments text = [argument] ∧
      (isIdentifier argument = false ∧ Immediate.read? argument = some (.literal value) ↔
        startsWithDigit argument = true) ∧
      (startsWithDigit argument = false → Immediate.read? argument =
        if '+' ∈ argument then none else some (.label (String.ofList argument))) := by
  obtain ⟨labels, -, h⟩ := Except.bind_eq_ok.mp h
  obtain ⟨found, hfound, h⟩ := Except.bind_eq_ok.mp h
  cases h
  cases hstatement
  obtain ⟨argument, hargument, hnumber⟩ := Statement.exists_argument_of_read hfound hvalue
  refine ⟨argument, hargument, ⟨fun ⟨_, hliteral⟩ => ?_, fun hdigit => ⟨?_, ?_⟩⟩, ?_⟩
  · by_contra hdigit
    rw [Immediate.read?_of_numeral hnumber (Bool.eq_false_iff.mpr hdigit)] at hliteral
    split at hliteral <;> cases hliteral
  · exact isIdentifier_of_startsWithDigit hdigit
  · rw [Immediate.read?_of_startsWithDigit hdigit, hnumber]
    rfl
  · exact Immediate.read?_of_numeral hnumber

theorem literal_of_input_line :
    read 1 "x: IN 0x1_0".toList = .ok ⟨1, ["x"], some (.instruction ⟨.input, .port 16⟩)⟩ ∧
      Statement.number? (.instruction ⟨.input, .port 16⟩) = some 16 ∧
      Immediate.read? "0x1_0".toList = some (.literal 16) := by
  have hread : read 1 "x: IN 0x1_0".toList =
      .ok ⟨1, ["x"], some (.instruction ⟨.input, .port 16⟩)⟩ := by rfl
  have hargument : arguments "x: IN 0x1_0".toList = ["0x1_0".toList] := by decide
  obtain ⟨argument, hfound, hiff, -⟩ := literal_iff_of_read hread rfl rfl
  rw [hargument] at hfound
  cases hfound
  exact ⟨hread, rfl, (hiff.mpr (by decide)).2⟩

/-- A text that is the number five behind `ORG`, and the name of a label. -/
theorem origin_named_as_label :
    read 1 "ORG _5".toList = .ok ⟨1, [], some (.origin 5)⟩ ∧ Statement.number? (.origin 5) = some 5 ∧
      arguments "ORG _5".toList = ["_5".toList] ∧ isIdentifier "_5".toList = true ∧
      Immediate.read? "_5".toList = some (.label "_5") := by
  refine ⟨rfl, rfl, ?_, ?_, ?_⟩ <;> decide

end Line

end Accumulator
