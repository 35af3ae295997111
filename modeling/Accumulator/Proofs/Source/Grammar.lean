import Accumulator.Proofs.Source.Formatting
import Accumulator.Proofs.Source.Literal
import Accumulator.Proofs.Text.Delimited
import Mathlib.Data.List.Forall2

/-!
# The grammar of a line

The texts of a line, stated without its reader.

* `Immediate.Spells`, `Argument.Spells`, `Statement.Spells` — the texts of an immediate, of an address
  operand and of a statement, which is taken as its operation and its arguments.
* `Statement.Written`, `Line.Written` — the text of a statement with the blanks and commas in it, and of a
  line with the blanks around its labels and its statement.
* `IsToken` — operations, arguments and labels are made of characters that separate nothing.
-/

namespace Accumulator

open Text (Blank isBlank trim Stops Firm)

/-! ## The grammar -/

/-- The operation is the name in some letter case. -/
def Names (operation : List Char) (name : String) : Prop :=
  String.ofList (operation.map Char.toUpper) = name

/-- The operation is the canonical name of the opcode, or another name for it. -/
def Opcode.Named (opcode : Opcode) (operation : List Char) : Prop :=
  ∃ name ∈ opcode.name :: opcode.aliases, Names operation name

/-- The text of a literal or of the name of a label. -/
inductive Immediate.Spells : List Char → Immediate → Prop
  | literal {text : List Char} {value : Nat} (h : Numeral.Spells text value) (hvalue : value < UInt32.size) :
    Spells text (.literal (UInt32.ofNat value))
  | label {name : List Char} (h : isIdentifier name = true) : Spells name (.label (String.ofList name))

/-- The text of an address operand. -/
inductive Argument.Spells : List Char → Argument → Prop
  | absolute {text : List Char} {target : Immediate} (h : Immediate.Spells text target)
    (fits : target.fitsAddress = true) : Spells ('!' :: text) (.address .absolute target)
  | indirect {text : List Char} {target : Immediate} (h : Immediate.Spells text target)
    (fits : target.fitsAddress = true) : Spells ('(' :: (text ++ [')'])) (.address .indirect target)
  | relative {text : List Char} {target : Immediate} (h : Immediate.Spells text target)
    (fits : target.fitsAddress = true) : Spells text (.address .relative target)

namespace Statement

/-- The operations with an immediate value that have a name of their own. -/
def immediateNames : List (String × Opcode) :=
  [("LOADI", .load), ("ADDI", .add), ("ANDI", .and), ("CMPI", .compare)]

/-- The operation and the arguments of a statement. -/
inductive Spells : List Char → List (List Char) → Statement → Prop
  | origin {operation text : List Char} {value : Nat} (hname : Names operation "ORG")
    (h : Numeral.Spells text value) (hvalue : value ≤ 0xFFFF) :
    Spells operation [text] (.origin (UInt16.ofNat value))
  | words {operation : List Char} {texts : List (List Char)} {items : List Immediate}
    (hname : Names operation "WORD") (hitems : items ≠ [])
    (h : List.Forall₂ Immediate.Spells texts items) : Spells operation texts (.words items)
  | bare {operation : List Char} {opcode : Opcode} (hname : opcode.Named operation)
    (hkind : opcode.operandKind = .none) : Spells operation [] (.instruction ⟨opcode, .none⟩)
  | port {operation text : List Char} {opcode : Opcode} {value : Nat} (hname : opcode.Named operation)
    (hkind : opcode.operandKind = .port) (h : Numeral.Spells text value) (hvalue : value ≤ 255) :
    Spells operation [text] (.instruction ⟨opcode, .port (UInt8.ofNat value)⟩)
  | immediate {operation text : List Char} {name : String} {opcode : Opcode} {value : Immediate}
    (hname : Names operation name) (hopcode : (name, opcode) ∈ immediateNames)
    (h : Immediate.Spells text value) (fits : value.fitsAddress = true) :
    Spells operation [text] (.instruction ⟨opcode, .immediate value⟩)
  | address {operation text : List Char} {opcode : Opcode} {argument : Argument}
    (hname : opcode.Named operation) (hkind : opcode.operandKind ∈ [OperandKind.address, .value])
    (h : Argument.Spells text argument) : Spells operation [text] (.instruction ⟨opcode, argument⟩)

/-- The text of arguments: any mix of blanks and commas, but at least one of them, between each two. -/
inductive Separated : List (List Char) → List Char → Prop
  | last (argument : List Char) : Separated [argument] argument
  | cons (argument : List Char) {separators : List Char} {arguments : List (List Char)} {text : List Char}
    (hne : separators ≠ []) (hseparators : ∀ c ∈ separators, c = ',' ∨ isBlank c = true)
    (h : Separated arguments text) : Separated (argument :: arguments) (argument ++ separators ++ text)

/-- The text of a statement, if there is one. -/
inductive Written : List Char → Option Statement → Prop
  | nothing : Written [] none
  | alone {operation : List Char} {statement : Statement} (h : Spells operation [] statement) :
    Written operation (some statement)
  | applied {operation blanks text : List Char} {arguments : List (List Char)} {statement : Statement}
    (h : Spells operation arguments statement) (hne : blanks ≠ []) (hblanks : Blank blanks)
    (htext : Separated arguments text) : Written (operation ++ blanks ++ text) (some statement)

end Statement

/-- The text of a line: each label with a colon, then the statement, and blanks around each of them. -/
inductive Line.Written : List Char → List String → Option Statement → Prop
  | statement {front text back : List Char} {statement : Option Statement} (hfront : Blank front)
    (h : Statement.Written text statement) (hback : Blank back) :
    Written (front ++ text ++ back) [] statement
  | label {front name back rest : List Char} {labels : List String} {statement : Option Statement}
    (hfront : Blank front) (hname : isIdentifier name = true) (hback : Blank back)
    (h : Written rest labels statement) :
    Written (front ++ name ++ back ++ ':' :: rest) (String.ofList name :: labels) statement

/-! ## The characters of a token -/

/-- A character of an operation, of an argument or of a label. -/
def isTokenChar (c : Char) : Bool := c.isAlphanum || ['_', '!', '(', ')'].contains c

/-- Something, and nothing but characters of tokens. -/
structure IsToken (text : List Char) : Prop where
  nonempty : text ≠ []
  chars : ∀ c ∈ text, isTokenChar c = true

theorem toNat_of_isDigit {c : Char} (h : c.isDigit = true) : 48 ≤ c.toNat ∧ c.toNat ≤ 57 := by
  obtain ⟨hlow, hhigh⟩ := Bool.and_eq_true_iff.mp h
  exact ⟨Text.toNat_le_of_le (of_decide_eq_true hlow), Text.toNat_le_of_le (of_decide_eq_true hhigh)⟩

theorem toNat_of_isAlpha {c : Char} (h : c.isAlpha = true) : 65 ≤ c.toNat ∧ c.toNat ≤ 122 := by
  rcases Bool.or_eq_true_iff.mp h with hupper | hlower
  · obtain ⟨hlow, hhigh⟩ := of_decide_eq_true hupper
    exact ⟨Text.toNat_le_of_le hlow, (Text.toNat_le_of_le hhigh).trans (by decide)⟩
  · obtain ⟨hlow, hhigh⟩ := Bool.and_eq_true_iff.mp hlower
    exact ⟨(show 65 ≤ 97 by decide).trans (Text.toNat_le_of_le (of_decide_eq_true hlow)),
      Text.toNat_le_of_le (of_decide_eq_true hhigh)⟩

theorem isBlank_of_isTokenChar {c : Char} (h : isTokenChar c = true) : isBlank c = false := by
  refine Text.isBlank_of_visible ?_
  rw [isTokenChar, Bool.or_eq_true, List.contains_iff_mem] at h
  rcases h with halphanum | hmark
  · rcases Bool.or_eq_true_iff.mp halphanum with halpha | hdigit
    · have hrange := toNat_of_isAlpha halpha
      omega
    · have hrange := toNat_of_isDigit hdigit
      omega
  · have hall : ['_', '!', '(', ')'].all (fun c => 33 ≤ c.toNat && c.toNat ≤ 126) = true := by decide
    simpa using List.all_eq_true.mp hall c hmark

theorem ne_of_isTokenChar {c d : Char} (h : isTokenChar c = true) (hd : isTokenChar d = false) : c ≠ d := by
  rintro rfl
  exact Bool.false_ne_true (hd.symm.trans h)

theorem separatesArguments_of_isTokenChar {c : Char} (h : isTokenChar c = true) :
    Statement.separatesArguments c = false := by
  rw [Statement.separatesArguments, isBlank_of_isTokenChar h, Bool.or_false]
  exact beq_false_of_ne (ne_of_isTokenChar h (by decide))

namespace IsToken

variable {text : List Char}

theorem stops_isBlank (h : IsToken text) (rest : List Char) : Stops isBlank (text ++ rest) := by
  obtain ⟨c, tail, rfl⟩ := List.exists_cons_of_ne_nil h.nonempty
  exact Text.stops_cons.mpr (isBlank_of_isTokenChar (h.chars c List.mem_cons_self))

theorem firm (h : IsToken text) : Firm text :=
  ⟨text.dropLast, text.getLast h.nonempty, (List.dropLast_concat_getLast h.nonempty).symm,
    isBlank_of_isTokenChar (h.chars _ (List.getLast_mem h.nonempty))⟩

end IsToken

theorem trim_of_firm {text : List Char} (hhead : Stops isBlank text) (hfirm : Firm text) :
    trim text = text := by
  have hdrop : text.dropWhile isBlank = text :=
    Text.dropWhile_append_of_stops (a := []) nofun hhead
  rw [trim, hdrop, Text.trimEnd_of_firm hfirm]

/-! ## What is written is made of tokens -/

/-- A character of a name. -/
def isNameChar (c : Char) : Bool := c.isAlphanum || c == '_'

theorem isTokenChar_of_isNameChar {c : Char} (h : isNameChar c = true) : isTokenChar c = true := by
  rw [isNameChar, Bool.or_eq_true, beq_iff_eq] at h
  rcases h with h | rfl
  · rw [isTokenChar, h, Bool.true_or]
  · decide

theorem isNameChar_of_toUpper {c : Char} (h : isNameChar c.toUpper = true) : isNameChar c = true := by
  by_cases hlower : c.isLower = true
  · have halpha : c.isAlpha = true := Bool.or_eq_true_iff.mpr (.inr hlower)
    have halphanum : c.isAlphanum = true := Bool.or_eq_true_iff.mpr (.inl halpha)
    rw [isNameChar, halphanum, Bool.true_or]
  · have hupper : c.toUpper = c := dif_neg fun hrange =>
      hlower (Bool.and_eq_true_iff.mpr (hrange.imp decide_eq_true decide_eq_true))
    rwa [hupper] at h

theorem Names.isToken {operation : List Char} {name : String} (h : Names operation name)
    (hname : name ≠ "" ∧ name.toList.all isNameChar = true) : IsToken operation := by
  have hchars : operation.map Char.toUpper = name.toList := by rw [← h, String.toList_ofList]
  refine ⟨?_, fun c hc => ?_⟩
  · rintro rfl
    exact hname.1 h.symm
  · refine isTokenChar_of_isNameChar (isNameChar_of_toUpper (List.all_eq_true.mp hname.2 _ ?_))
    rw [← hchars]
    exact List.mem_map_of_mem hc

theorem isToken_of_isIdentifier {name : List Char} (h : isIdentifier name = true) : IsToken name := by
  cases name with
  | nil => cases h
  | cons head rest =>
    obtain ⟨hhead, hrest⟩ := Bool.and_eq_true_iff.mp h
    refine ⟨List.cons_ne_nil _ _, List.forall_mem_cons.mpr ⟨isTokenChar_of_isNameChar ?_, fun c hc =>
      isTokenChar_of_isNameChar (List.all_eq_true.mp hrest c hc)⟩⟩
    rw [startsIdentifier, Bool.or_eq_true] at hhead
    rw [isNameChar, Bool.or_eq_true]
    exact hhead.imp_left fun halpha => Bool.or_eq_true_iff.mpr (.inl halpha)

theorem Numeral.Spells.isToken {text : List Char} {value : Nat} (h : Spells text value) :
    IsToken text := by
  obtain ⟨c, rest, rfl, -⟩ := h.exists_head
  exact ⟨List.cons_ne_nil _ _, h.forall_mem (by decide) (by decide) (by decide)⟩

theorem Immediate.Spells.isToken {text : List Char} {value : Immediate} (h : Spells text value) :
    IsToken text := by
  cases h with
  | literal h => exact h.isToken
  | label h => exact isToken_of_isIdentifier h

theorem Argument.Spells.isToken {text : List Char} {argument : Argument} (h : Spells text argument) :
    IsToken text := by
  cases h with
  | absolute h =>
    exact ⟨List.cons_ne_nil _ _, List.forall_mem_cons.mpr ⟨by decide, h.isToken.chars⟩⟩
  | indirect h =>
    refine ⟨List.cons_ne_nil _ _, List.forall_mem_cons.mpr ⟨by decide, ?_⟩⟩
    exact List.forall_mem_append.mpr ⟨h.isToken.chars, List.forall_mem_singleton.mpr (by decide)⟩
  | relative h => exact h.isToken

/-- What the names of the operations of the machine are made of, and that each is read as its own. -/
theorem Opcode.names_all : ∀ (opcode : Opcode), ∀ name ∈ opcode.name :: opcode.aliases,
    (name ≠ "" ∧ name.toList.all isNameChar = true) ∧ (name ≠ "ORG" ∧ name ≠ "WORD") ∧
      Code.immediateOperation? name = none ∧
      all.find? (fun op => op.name == name || op.aliases.contains name) = some opcode := by
  intro opcode
  cases opcode <;> decide

theorem Opcode.Named.isToken {opcode : Opcode} {operation : List Char} (h : opcode.Named operation) :
    IsToken operation := by
  obtain ⟨name, hmem, hname⟩ := h
  exact hname.isToken (opcode.names_all name hmem).1

namespace Statement

theorem immediateNames_all : ∀ entry ∈ immediateNames,
    (entry.1 ≠ "" ∧ entry.1.toList.all isNameChar = true) ∧
      (entry.1 ≠ "ORG" ∧ entry.1 ≠ "WORD") ∧ Code.immediateOperation? entry.1 = some entry.2 := by decide

/-- The operation and the arguments of a statement are tokens. -/
theorem Spells.isToken {operation : List Char} {arguments : List (List Char)} {statement : Statement}
    (h : Spells operation arguments statement) :
    IsToken operation ∧ ∀ argument ∈ arguments, IsToken argument := by
  cases h with
  | origin hname h =>
    exact ⟨hname.isToken (by decide), List.forall_mem_singleton.mpr h.isToken⟩
  | words hname hitems h =>
    have htokens := h.imp fun text item hitem => And.intro hitem.isToken hitem
    exact ⟨hname.isToken (by decide), ((List.forall₂_and_left _ _).mp htokens).1⟩
  | bare hname => exact ⟨hname.isToken, nofun⟩
  | port hname hkind h => exact ⟨hname.isToken, List.forall_mem_singleton.mpr h.isToken⟩
  | immediate hname hopcode h =>
    exact ⟨hname.isToken (immediateNames_all _ hopcode).1, List.forall_mem_singleton.mpr h.isToken⟩
  | address hname hkind h => exact ⟨hname.isToken, List.forall_mem_singleton.mpr h.isToken⟩

end Statement

end Accumulator
