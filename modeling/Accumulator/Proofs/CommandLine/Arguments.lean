import Mathlib.Data.List.Nodup
import Accumulator.CommandLine.Arguments
import Accumulator.Proofs.Results

/-!
# Well-formed arguments

The grammar of a command as a relation between arguments and what they say, stated without the reader.

* `IsOperand` — a text that may stand among options and is none.
* `OptionSpec.Names`, `OptionSpec.Gives` — the words for an option, and those that give it a value.
* `Grammar.Reads`, `Grammar.WellFormed` — arguments in any order, each switch and each value at most once.
* `Grammar.Sane` — the words for the options of a grammar cannot be taken for one another.
-/

namespace Accumulator

/-- A text that may stand among options and is none. -/
def IsOperand (text : String) : Prop := text ≠ "" ∧ (text = "-" ∨ text.toList.head? ≠ some '-')

instance (text : String) : Decidable (IsOperand text) := inferInstanceAs (Decidable (_ ∧ _))

theorem isOperand_of_no_option {text : String} (htext : text ≠ "")
    (hoption : ∀ letter letters, text.toList ≠ '-' :: letter :: letters) : IsOperand text := by
  refine ⟨htext, ?_⟩
  cases hlist : text.toList with
  | nil => exact .inr nofun
  | cons c rest =>
    by_cases hdash : c = '-'
    · subst hdash
      cases rest with
      | nil => exact .inl (String.toList_injective hlist)
      | cons letter letters => exact absurd hlist (hoption letter letters)
    · refine .inr ?_
      rw [List.head?_cons]
      exact fun h => hdash (Option.some.inj h)

theorem IsOperand.no_option {text : String} (h : IsOperand text) (letter : Char) (letters : List Char) :
    text.toList ≠ '-' :: letter :: letters := by
  intro hlist
  obtain ⟨-, rfl | hhead⟩ := h
  · cases hlist
  · exact hhead (by rw [hlist, List.head?_cons])

/-! ## Words for options -/

namespace OptionSpec

variable (option : OptionSpec)

/-- The words for an option: its name behind two dashes, its letter behind one. -/
inductive Names : String → Prop
  | long : Names ("--" ++ option.name)
  | short {letter : Char} (h : option.letter = some letter) : Names (String.ofList ['-', letter])

/-- The words that give an option a value: the value stands behind a word for the option, or is joined to
it by an equals sign, or to the letter by nothing. -/
inductive Gives (value : String) : List String → Prop
  | apart {word : String} (h : option.Names word) (hvalue : value = "" ∨ IsOperand value) :
    Gives value [word, value]
  | joined {word : String} (h : option.Names word) : Gives value [word ++ "=" ++ value]
  | attached {letter first : Char} {rest : List Char} (h : option.letter = some letter)
    (hvalue : value.toList = first :: rest) (hfirst : first ≠ '=') :
    Gives value [String.ofList ['-', letter] ++ value]

end OptionSpec

/-! ## Sorted arguments -/

namespace Arguments

/-- The sorted arguments with further operands. -/
def withOperands (sorted : Arguments) (texts : List String) : Arguments :=
  { sorted with operands := sorted.operands ++ texts }

/-- The sorted arguments with a further switch. -/
def withSwitch (sorted : Arguments) (option : OptionSpec) : Arguments :=
  { sorted with switches := sorted.switches ++ [option.name] }

/-- The sorted arguments with a further value. -/
def withValue (sorted : Arguments) (option : OptionSpec) (value : String) : Arguments :=
  { sorted with values := sorted.values ++ [(option.name, value)] }

/-- The switch is not set yet. -/
def Unset (sorted : Arguments) (option : OptionSpec) : Prop := sorted.isSet option.name = false

/-- The option has no value yet, and it may have this one. -/
def Takes (sorted : Arguments) (option : OptionSpec) (value : String) : Prop :=
  sorted.value? option.name = none ∧ option.accepts value = true

end Arguments

namespace Grammar

variable {g : Grammar} {sorted found : Arguments} {text argument : String} {option : OptionSpec}

/-! ## The grammar of arguments -/

/-- The number of operands that there may be. -/
def places (g : Grammar) : Nat := (g.required ++ g.optional).length

/-- What arguments say in addition to what is sorted already: operands, switches and values in any order,
each switch and each value at most once. The letters of switches may share a dash with what follows. Two
dashes make operands of all that follows. -/
inductive Reads (g : Grammar) : Arguments → List String → Arguments → Prop
  | done {sorted : Arguments} : Reads g sorted [] sorted
  | separator {sorted : Arguments} {operands : List String} (htexts : ∀ text ∈ operands, text ≠ "") :
    Reads g sorted ("--" :: operands) (sorted.withOperands operands)
  | operand {sorted found : Arguments} {text : String} {rest : List String} (htext : IsOperand text)
    (h : Reads g (sorted.withOperands [text]) rest found) : Reads g sorted (text :: rest) found
  | switch {sorted found : Arguments} {option : OptionSpec} {word : String} {rest : List String}
    (hoption : option ∈ g.options) (hswitch : option.isSwitch = true) (hword : option.Names word)
    (hunset : sorted.Unset option) (h : Reads g (sorted.withSwitch option) rest found) :
    Reads g sorted (word :: rest) found
  | value {sorted found : Arguments} {option : OptionSpec} {value : String} {words rest : List String}
    (hoption : option ∈ g.options) (hswitch : option.isSwitch = false)
    (hwords : option.Gives value words) (htakes : sorted.Takes option value)
    (h : Reads g (sorted.withValue option value) rest found) : Reads g sorted (words ++ rest) found
  | letters {sorted found : Arguments} {option : OptionSpec} {letter next : Char} {letters : List Char}
    {rest : List String} (hoption : option ∈ g.options) (hswitch : option.isSwitch = true)
    (hletter : option.letter = some letter) (hunset : sorted.Unset option) (hnext : next ≠ '-')
    (h : Reads g (sorted.withSwitch option) (String.ofList ('-' :: next :: letters) :: rest) found) :
    Reads g sorted (String.ofList ('-' :: letter :: next :: letters) :: rest) found

/-- Arguments that are well-formed, with as many operands as there have to be and may be. -/
structure WellFormed (g : Grammar) (arguments : List String) (sorted : Arguments) : Prop where
  reads : g.Reads {} arguments sorted
  enough : g.required.length ≤ sorted.operands.length
  room : sorted.operands.length ≤ g.places

/-- The words for the options of a grammar cannot be taken for one another, or for a request for help. -/
structure Sane (g : Grammar) : Prop where
  names : (g.options.map OptionSpec.name).Nodup
  letters : (g.options.filterMap OptionSpec.letter).Nodup
  plain : ∀ option ∈ g.options,
    option.name ≠ "" ∧ '=' ∉ option.name.toList ∧ option.name ≠ "help" ∧ option.name ≠ "version"
  free : ∀ option ∈ g.options, option.letter ∉ [some '-', some 'h', some 'V']

/-! ## One thing more -/

theorem addOperand_eq_ok_iff : g.addOperand sorted text = .ok found ↔
    sorted.operands.length < g.places ∧ text ≠ "" ∧ found = sorted.withOperands [text] := by
  rw [addOperand, Arguments.withOperands, ← places]
  split
  · next hfull => simp [Nat.not_lt.mpr hfull]
  · next hroom =>
    split
    · next hempty => simp [String.isEmpty_iff.mp hempty]
    · next htext =>
      rw [String.isEmpty_iff] at htext
      simp [Nat.lt_of_not_le hroom, htext, eq_comm]

theorem addSwitch_eq_ok_iff : addSwitch sorted option.name = .ok found ↔
    sorted.Unset option ∧ found = sorted.withSwitch option := by
  rw [addSwitch, Arguments.Unset, Arguments.withSwitch]
  split
  · next hset => simp [hset]
  · next hset => simp [Bool.eq_false_iff.mpr hset, eq_comm]

theorem addValue_eq_ok_iff {value : String} : addValue sorted option value = .ok found ↔
    sorted.Takes option value ∧ found = sorted.withValue option value := by
  rw [addValue, Arguments.Takes, Arguments.withValue]
  split
  · next hset => simp [Option.isSome_iff_ne_none.mp hset]
  · next hunset =>
    rw [Bool.not_eq_true, Option.isSome_eq_false_iff, Option.isNone_iff_eq_none] at hunset
    split
    · next haccepts => simp [hunset, haccepts, eq_comm]
    · next haccepts => simp [haccepts]

theorem foldlM_addOperand_eq_ok_iff {operands : List String} (hroom : sorted.operands.length ≤ g.places) :
    operands.foldlM g.addOperand sorted = .ok found ↔
      sorted.operands.length + operands.length ≤ g.places ∧ (∀ text ∈ operands, text ≠ "") ∧
        found = sorted.withOperands operands := by
  induction operands generalizing sorted with
  | nil => simp [pure, Except.pure, Arguments.withOperands, hroom, eq_comm]
  | cons text operands ih =>
    rw [List.foldlM_cons, Except.bind_eq_ok, List.forall_mem_cons, List.length_cons]
    have hlength : (sorted.withOperands [text]).operands.length = sorted.operands.length + 1 :=
      List.length_append
    have happend : (sorted.withOperands [text]).withOperands operands =
        sorted.withOperands (text :: operands) := by simp [Arguments.withOperands]
    constructor
    · rintro ⟨next, hnext, h⟩
      obtain ⟨hspace, htext, rfl⟩ := addOperand_eq_ok_iff.mp hnext
      obtain ⟨hrest, htexts, rfl⟩ := (ih (by omega)).mp h
      exact ⟨by omega, ⟨htext, htexts⟩, happend⟩
    · rintro ⟨hrest, ⟨htext, htexts⟩, rfl⟩
      exact ⟨_, addOperand_eq_ok_iff.mpr ⟨by omega, htext, rfl⟩,
        (ih (by omega)).mpr ⟨by omega, htexts, happend.symm⟩⟩

/-! ## The option that a word names -/

theorem find?_of_nodup_filterMap {α β : Type} [DecidableEq β] {f : α → Option β} {xs : List α} {x : α}
    {k : β} (h : (xs.filterMap f).Nodup) (hx : x ∈ xs) (hkey : f x = some k) :
    (xs.find? fun y => f y == some k) = some x := by
  induction xs with
  | nil => cases hx
  | cons y ys ih =>
    rcases List.mem_cons.mp hx with rfl | hx
    · rw [List.find?_cons_of_pos (by simpa using hkey)]
    · have hne : f y ≠ some k := by
        intro hy
        rw [List.filterMap_cons_some hy] at h
        exact (List.nodup_cons.mp h).1 (List.mem_filterMap.mpr ⟨x, hx, hkey⟩)
      rw [List.find?_cons_of_neg (by simpa using hne)]
      exact ih (h.sublist ((List.sublist_cons_self y ys).filterMap f)) hx

theorem Sane.find?_name (hs : g.Sane) (h : option ∈ g.options) :
    g.options.find? (·.name == option.name) = some option := by
  have hfind := find?_of_nodup_filterMap (f := fun option : OptionSpec => some option.name)
    (by simpa using hs.names) h rfl
  simpa using hfind

theorem Sane.find?_letter (hs : g.Sane) {letter : Char} (h : option ∈ g.options)
    (hletter : option.letter = some letter) :
    (g.options.find? fun option => option.letter == some letter) = some option :=
  find?_of_nodup_filterMap hs.letters h hletter

end Grammar

end Accumulator
