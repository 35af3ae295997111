import Accumulator.Proofs.Isa.Instruction
import Accumulator.Proofs.Text.Delimited

/-!
# Instructions are read back from their text

* `Instruction.operandText_inj` — the printed operand determines the mode and the operand.
* `Instruction.column_append_inj` — so does the column of an instruction, whatever stands behind it,
  and it determines the opcode. An operation without an operand does not print its operand field.
-/

namespace Accumulator

open Text

theorem Opcode.name_injective {a b : Opcode} (h : a.name = b.name) : a = b := by
  have hfound : ofName? b.name = some a := h ▸ ofName?_name a
  rw [ofName?_name] at hfound
  exact (Option.some.inj hfound).symm

theorem Opcode.isWordChar_name (op : Opcode) : ∀ c ∈ op.name.toList, isWordChar c = true :=
  List.all_eq_true.mp (by cases op <;> rfl)

theorem OperandKind.mode_of_none {mode : Mode} (h : OperandKind.none.allows mode = true) :
    mode = .implied := by
  cases mode <;> first | rfl | cases h

theorem OperandKind.mode_of_port {mode : Mode} (h : OperandKind.port.allows mode = true) :
    mode = .immediate := by
  cases mode <;> first | rfl | cases h

/-- What stands around the digits of an operand in each mode. -/
def Mode.frame : Mode → List Char × List Char
  | .implied => ([], [])
  | .immediate => (['#', '0', 'x'], [])
  | .absolute => (['!', '0', 'x'], [])
  | .relative => (['0', 'x'], [])
  | .indirect => (['(', '0', 'x'], [')'])

namespace Instruction

variable {i j : Instruction}

theorem operandText_none (h : i.opcode.operandKind = .none) : i.operandText = "" := by
  simp only [operandText, h]

theorem operandText_port (h : i.opcode.operandKind = .port) :
    i.operandText = decimal i.operand.toNat := by
  simp only [operandText, h]

/-- Every other operand is a framed number. -/
theorem operandText_framed (h : i.Legal) (hnone : i.opcode.operandKind ≠ .none)
    (hport : i.opcode.operandKind ≠ .port) :
    i.mode ≠ .implied ∧ i.operandText.toList =
      i.mode.frame.1 ++ ((hex 4 i.operand.toNat).toList ++ i.mode.frame.2) := by
  have hallows := h.1
  cases hkind : i.opcode.operandKind with
  | none => exact absurd hkind hnone
  | port => exact absurd hkind hport
  | address | value =>
    rw [hkind] at hallows
    cases hmode : i.mode with
    | implied => rw [hmode] at hallows; cases hallows
    | _ => simp_all [operandText, Mode.frame, OperandKind.allows]

/-- **The printed operand determines the mode and the operand.** -/
theorem operandText_inj (hi : i.Legal) (hj : j.Legal) (hopcode : i.opcode = j.opcode)
    (hkind : i.opcode.operandKind ≠ .none) (h : i.operandText = j.operandText) :
    i.mode = j.mode ∧ i.operand = j.operand := by
  by_cases hport : i.opcode.operandKind = .port
  · have hport' : j.opcode.operandKind = .port := hopcode ▸ hport
    have himmediate : i.mode = .immediate := OperandKind.mode_of_port (hport ▸ hi.1)
    have himmediate' : j.mode = .immediate := OperandKind.mode_of_port (hport' ▸ hj.1)
    rw [operandText_port hport, operandText_port hport'] at h
    have hdigits : (decimal i.operand.toNat).toList ++ [] = (decimal j.operand.toNat).toList ++ [] :=
      by rw [h]
    obtain ⟨hoperand, -⟩ := (numeral_decimal _).append_inj (numeral_decimal _) stops_nil stops_nil
      hdigits
    exact ⟨himmediate.trans himmediate'.symm, UInt16.toNat_inj.mp hoperand⟩
  · obtain ⟨himplied, htext⟩ := operandText_framed hi hkind hport
    obtain ⟨himplied', htext'⟩ := operandText_framed hj (hopcode ▸ hkind) (hopcode ▸ hport)
    rw [h, htext'] at htext
    have hmode : i.mode = j.mode := by
      have hhead := congrArg List.head? htext
      cases hm : i.mode <;> cases hm' : j.mode <;> simp_all [Mode.frame]
    rw [hmode] at htext
    have hstops : Stops isNumeral j.mode.frame.2 := by
      cases j.mode with
      | indirect => exact stops_cons.mpr (by decide)
      | _ => exact stops_nil
    obtain ⟨hoperand, -⟩ := (numeral_hex 4 _).append_inj (numeral_hex 4 _) hstops hstops
      (List.append_cancel_left htext)
    exact ⟨hmode, UInt16.toNat_inj.mp hoperand.symm⟩

/-- The printed operand with the blank in front of it, if there is one. -/
def argument (i : Instruction) : List Char :=
  if i.operandText = "" then [] else ' ' :: i.operandText.toList

theorem toList_text (i : Instruction) : i.text.toList = i.opcode.name.toList ++ i.argument := by
  unfold text argument
  split
  · exact (List.append_nil _).symm
  · rw [String.toList_append, String.toList_append, List.append_assoc]
    rfl

theorem isWordChar_operandText (h : i.Legal) : ∀ c ∈ i.operandText.toList, isWordChar c = true := by
  by_cases hnone : i.opcode.operandKind = .none
  · rw [operandText_none hnone]
    nofun
  by_cases hport : i.opcode.operandKind = .port
  · rw [operandText_port hport]
    exact (numeral_decimal _).isWordChar
  · rw [(operandText_framed h hnone hport).2]
    have hframe : ∀ c ∈ i.mode.frame.1 ++ i.mode.frame.2, isWordChar c = true :=
      List.all_eq_true.mp (by cases i.mode <;> rfl)
    intro c hc
    rw [List.mem_append, List.mem_append] at hc
    rcases hc with hc | hc | hc
    · exact hframe c (List.mem_append_left _ hc)
    · exact (numeral_hex 4 _).isWordChar c hc
    · exact hframe c (List.mem_append_right _ hc)

/-- An operation that takes an operand prints one. -/
theorem argument_of_ne_none (h : i.Legal) (hnone : i.opcode.operandKind ≠ .none) :
    i.argument = ' ' :: i.operandText.toList := by
  have hne : i.operandText ≠ "" := by
    intro hempty
    by_cases hport : i.opcode.operandKind = .port
    · rw [operandText_port hport] at hempty
      exact (numeral_decimal i.operand.toNat).nonempty (congrArg String.toList hempty)
    · have htext := (operandText_framed h hnone hport).2
      rw [hempty] at htext
      have hdigits := (List.append_eq_nil_iff.mp (List.append_eq_nil_iff.mp htext.symm).2).1
      exact (numeral_hex 4 i.operand.toNat).nonempty hdigits
  rw [argument, if_neg hne]

theorem argument_of_none (hnone : i.opcode.operandKind = .none) : i.argument = [] := by
  rw [argument, operandText_none hnone, if_pos rfl]

theorem stops_argument (i : Instruction) {x : List Char} (hx : Stops isWordChar x) :
    Stops isWordChar (i.argument ++ x) := by
  unfold argument
  split
  · exact hx
  · exact stops_cons.mpr rfl

/-- The printed argument, with blanks behind it, determines the mode and the operand. -/
theorem argument_append_inj (hi : i.Legal) (hj : j.Legal) (hopcode : i.opcode = j.opcode) {k l : Nat}
    {x y : List Char} (h : i.argument ++ (List.replicate k ' ' ++ ' ' :: x) =
      j.argument ++ (List.replicate l ' ' ++ ' ' :: y)) :
    i.mode = j.mode ∧ (i.opcode.operandKind ≠ .none → i.operand = j.operand) ∧
      i.argument = j.argument := by
  by_cases hnone : i.opcode.operandKind = .none
  · have hnone' : j.opcode.operandKind = .none := hopcode ▸ hnone
    have himplied : i.mode = .implied := OperandKind.mode_of_none (hnone ▸ hi.1)
    have himplied' : j.mode = .implied := OperandKind.mode_of_none (hnone' ▸ hj.1)
    exact ⟨himplied.trans himplied'.symm, fun hne => absurd hnone hne,
      (argument_of_none hnone).trans (argument_of_none hnone').symm⟩
  · have hi' := argument_of_ne_none hi hnone
    have hj' := argument_of_ne_none hj (hopcode ▸ hnone)
    rw [hi', hj'] at h
    obtain ⟨htext, -⟩ := append_inj_of_stops (isWordChar_operandText hi)
      (isWordChar_operandText hj) (stops_blanks k x) (stops_blanks l y) (List.cons.inj h).2
    obtain ⟨hmode, hoperand⟩ :=
      operandText_inj hi hj hopcode hnone (String.toList_injective htext)
    exact ⟨hmode, fun _ => hoperand, by rw [hi', hj', htext]⟩

/-- The column of an instruction is its name, its argument and blanks. -/
theorem toList_column (i : Instruction) (x : List Char) :
    ∃ k, (padRight 16 i.text).toList ++ ' ' :: x =
      i.opcode.name.toList ++ (i.argument ++ (List.replicate k ' ' ++ ' ' :: x)) := by
  refine ⟨16 - i.text.toList.length, ?_⟩
  rw [padRight, String.toList_ofList, List.rightpad, ← List.append_assoc, ← toList_text,
    List.append_assoc]

/-- The first word of a column is the name of the opcode. -/
theorem name_of_column {word x y : List Char} (hword : ∀ c ∈ word, isWordChar c = true)
    (h : (padRight 16 i.text).toList ++ ' ' :: x = word ++ ' ' :: y) :
    i.opcode.name.toList = word := by
  obtain ⟨k, hk⟩ := i.toList_column x
  exact (append_inj_of_stops i.opcode.isWordChar_name hword (i.stops_argument (stops_blanks k x))
    (stops_cons.mpr rfl) (hk.symm.trans h)).1

/-- **The column of an instruction determines it**, but for an operand field that is not printed. -/
theorem column_append_inj (hi : i.Legal) (hj : j.Legal) {x y : List Char}
    (h : (padRight 16 i.text).toList ++ ' ' :: x = (padRight 16 j.text).toList ++ ' ' :: y) :
    i.opcode = j.opcode ∧ i.mode = j.mode ∧
      (i.opcode.operandKind ≠ .none → i.operand = j.operand) ∧ x = y := by
  obtain ⟨k, hk⟩ := i.toList_column x
  obtain ⟨l, hl⟩ := j.toList_column y
  obtain ⟨hname, hrest⟩ := append_inj_of_stops i.opcode.isWordChar_name j.opcode.isWordChar_name
    (i.stops_argument (stops_blanks k x)) (j.stops_argument (stops_blanks l y))
    (hk.symm.trans (h.trans hl))
  have hopcode : i.opcode = j.opcode := Opcode.name_injective (String.toList_injective hname)
  obtain ⟨hmode, hoperand, hargument⟩ := argument_append_inj hi hj hopcode hrest
  -- the texts are the same, so they are padded with the same number of blanks
  have htext : i.text = j.text := by
    apply String.toList_injective
    rw [toList_text, toList_text, hopcode, hargument]
  rw [htext] at h
  exact ⟨hopcode, hmode, hoperand, (List.cons.inj (List.append_cancel_left h)).2⟩

end Instruction

end Accumulator
