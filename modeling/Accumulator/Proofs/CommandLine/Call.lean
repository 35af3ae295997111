import Accumulator.CommandLine.Assembler
import Accumulator.Proofs.CommandLine.Parsing

/-!
# Calls of the assembler command

* `Assembler.Call` — well-formed arguments: a source, perhaps an output, and the switch for the listing at
  most once, in any order.
* `Assembler.reads_of_call`, `Assembler.call_of_reads` — these are the arguments of its grammar.
* `Assembler.parse_eq_ok_iff` — the arguments that are accepted are the well-formed ones, and they are
  sorted as they are meant.
-/

namespace Accumulator.Assembler

/-- Well-formed arguments, with the operands among them and whether they ask for a listing: operands and
the switch in any order, the switch at most once. Two dashes make operands of all that follows. -/
inductive Call : List String → List String → Bool → Prop
  | done : Call [] [] false
  | operand {text : String} {arguments operands : List String} {dump : Bool} (htext : IsOperand text)
    (h : Call arguments operands dump) : Call (text :: arguments) (text :: operands) dump
  | dump {text : String} {arguments operands : List String} (htext : text = "-d" ∨ text = "--dump")
    (h : Call arguments operands false) : Call (text :: arguments) operands true
  | separator {operands : List String} (h : ∀ text ∈ operands, text ≠ "") :
    Call ("--" :: operands) operands false

/-- The sorted arguments with further operands and, if so, with the switch for the listing. -/
def sort (sorted : Arguments) (operands : List String) (dump : Bool) : Arguments :=
  { sorted with
    operands := sorted.operands ++ operands
    switches := sorted.switches ++ if dump then ["dump"] else [] }

theorem sort_done (sorted : Arguments) : sort sorted [] false = sorted := by simp [sort]

theorem sort_operand (sorted : Arguments) (text : String) (operands : List String) (dump : Bool) :
    sort sorted (text :: operands) dump = sort (sorted.withOperands [text]) operands dump := by
  simp [sort, Arguments.withOperands]

theorem sort_separator (sorted : Arguments) (operands : List String) :
    sort sorted operands false = sorted.withOperands operands := by simp [sort, Arguments.withOperands]

/-! ## Well-formed arguments in the grammar of the command -/

/-- The switch for the listing. -/
def listingSwitch : OptionSpec := { name := "dump", letter := some 'd', isSwitch := true }

theorem mem_options {option : OptionSpec} (h : option ∈ tool.grammar.options) : option = listingSwitch :=
  List.mem_singleton.mp h

theorem sort_dump (sorted : Arguments) (operands : List String) :
    sort sorted operands true = sort (sorted.withSwitch listingSwitch) operands false := by
  simp [sort, Arguments.withSwitch, listingSwitch]

theorem isSet_withSwitch (sorted : Arguments) : (sorted.withSwitch listingSwitch).isSet "dump" = true := by
  simp [Arguments.withSwitch, Arguments.isSet, listingSwitch]

theorem names_listing_iff {word : String} : listingSwitch.Names word ↔ word = "-d" ∨ word = "--dump" := by
  constructor
  · intro h
    cases h with
    | long => exact .inr rfl
    | short hletter =>
      cases hletter
      exact .inl rfl
  · rintro (rfl | rfl)
    · exact .short rfl
    · exact .long

theorem sane_grammar : tool.grammar.Sane := ⟨by decide, by decide, by decide, by decide⟩

/-- Well-formed arguments are arguments of the grammar. -/
theorem reads_of_call {arguments operands : List String} {dump : Bool} (h : Call arguments operands dump)
    {sorted : Arguments} (hswitch : dump = true → sorted.isSet "dump" = false) :
    tool.grammar.Reads sorted arguments (sort sorted operands dump) := by
  induction h generalizing sorted with
  | done =>
    rw [sort_done]
    exact .done
  | operand htext h ih =>
    rw [sort_operand]
    exact .operand htext (ih hswitch)
  | dump htext h ih =>
    rw [sort_dump]
    exact .switch (List.mem_singleton_self listingSwitch) rfl (names_listing_iff.mpr htext) (hswitch rfl)
      (ih nofun)
  | separator htexts =>
    rw [sort_separator]
    exact .separator htexts

/-- Arguments of the grammar are well-formed. -/
theorem call_of_reads {arguments : List String} {sorted found : Arguments}
    (h : tool.grammar.Reads sorted arguments found) : ∃ operands dump, Call arguments operands dump ∧
      (dump = true → sorted.isSet "dump" = false) ∧ found = sort sorted operands dump := by
  induction h with
  | @done sorted => exact ⟨[], false, .done, nofun, (sort_done sorted).symm⟩
  | @separator sorted operands htexts =>
    exact ⟨operands, false, .separator htexts, nofun, (sort_separator sorted operands).symm⟩
  | @operand sorted found text rest htext h ih =>
    obtain ⟨operands, dump, hcall, hswitch, rfl⟩ := ih
    exact ⟨text :: operands, dump, .operand htext hcall, hswitch, (sort_operand ..).symm⟩
  | @switch sorted found option word rest hoption hswitch hword hunset h ih =>
    obtain rfl := mem_options hoption
    obtain ⟨operands, dump, hcall, hagain, rfl⟩ := ih
    -- The switch is set, so that it does not come again.
    obtain rfl : dump = false := by
      refine Bool.eq_false_iff.mpr fun hdump => ?_
      rw [isSet_withSwitch] at hagain
      cases hagain hdump
    exact ⟨operands, true, .dump (names_listing_iff.mp hword) hcall, fun _ => hunset, (sort_dump ..).symm⟩
  | value hoption hswitch =>
    obtain rfl := mem_options hoption
    cases hswitch
  | @letters sorted found option letter next letters rest hoption hswitch hletter hunset hnext h ih =>
    -- There is no other letter to share the dash.
    obtain rfl := mem_options hoption
    obtain ⟨operands, dump, hcall, hagain, -⟩ := ih
    rw [isSet_withSwitch] at hagain
    generalize hword : String.ofList ('-' :: next :: letters) = word at hcall
    have hletters : word.toList = '-' :: next :: letters := by rw [← hword, String.toList_ofList]
    cases hcall with
    | operand htext => exact absurd hletters (htext.no_option next letters)
    | dump => cases hagain rfl
    | separator =>
      cases hletters
      exact absurd rfl hnext

/-- **The arguments that are accepted are the well-formed ones**, with one operand or two. -/
theorem parse_eq_ok_iff {arguments : List String} {found : Arguments} :
    tool.grammar.parse arguments = .ok found ↔
      ∃ (source : String) (output : Option String) (dump : Bool),
        Call arguments (source :: output.toList) dump ∧
          found = sort {} (source :: output.toList) dump := by
  rw [Grammar.parse_eq_ok_iff sane_grammar]
  constructor
  · rintro ⟨hreads, henough, hroom⟩
    obtain ⟨operands, dump, hcall, -, rfl⟩ := call_of_reads hreads
    cases operands with
    | nil => cases henough
    | cons source rest =>
      cases rest with
      | nil => exact ⟨source, none, dump, hcall, rfl⟩
      | cons output rest =>
        cases rest with
        | nil => exact ⟨source, some output, dump, hcall, rfl⟩
        | cons extra rest => exact absurd hroom (by simp [sort, Grammar.places, tool])
  · rintro ⟨source, output, dump, hcall, rfl⟩
    refine ⟨reads_of_call hcall fun _ => rfl, Nat.le_add_left 1 _, ?_⟩
    cases output with
    | none => exact Nat.le_succ 1
    | some output => exact Nat.le_refl 2

end Accumulator.Assembler
