import Accumulator.Observer.Trace
import Accumulator.Proofs.Isa.InstructionText
import Accumulator.Proofs.Machine.EffectText
import Accumulator.Proofs.Machine.FaultText

/-!
# The log is unambiguous

* `Trace.header` — the tick and the program counter in front of a line; `header_inj` determines both
  and the rest of the line.
* `record_unambiguous` — a record determines its tick and the retired instruction, but for an operand
  field that is not printed; the record of a fault determines its tick and the fault; and no record is
  that of a fault.
-/

namespace Accumulator.Trace

open Text

/-- The start of a line, in front of the text of an instruction or a fault. -/
def header (tick pc : Nat) (rest : List Char) : List Char :=
  '[' :: ((paddedDecimal 4 tick).toList ++ ']' :: ' ' ::
    ((hex 4 pc).toList ++ ':' :: ' ' :: rest))

/-- **The header determines the tick and the program counter**, whatever the width of either. -/
theorem header_inj {tick tick' pc pc' : Nat} {x y : List Char}
    (h : header tick pc x = header tick' pc' y) : tick = tick' ∧ pc = pc' ∧ x = y := by
  obtain ⟨htick, h⟩ := (numeral_paddedDecimal 4 _).append_inj (numeral_paddedDecimal 4 _)
    (stops_cons.mpr (by decide)) (stops_cons.mpr (by decide)) (List.cons.inj h).2
  obtain ⟨hpc, h⟩ := (numeral_hex 4 _).append_inj (numeral_hex 4 _) (stops_cons.mpr (by decide))
    (stops_cons.mpr (by decide)) (List.cons.inj (List.cons.inj h).2).2
  exact ⟨htick, hpc, (List.cons.inj (List.cons.inj h).2).2⟩

/-- Trimming leaves the line of a retired instruction alone, since effects do not end with a blank. -/
theorem toList_record (tick : Nat) (r : Retired) :
    (record tick r).toList = header tick r.pc.toNat
      ((padRight 16 r.instruction.text).toList ++ ' ' :: r.effectText.toList) := by
  have hline : ("[" ++ paddedDecimal 4 tick ++ "] " ++ r.text).toList = header tick r.pc.toNat
      ((padRight 16 r.instruction.text).toList ++ ' ' :: r.effectText.toList) := by
    simp [Retired.text, header]
  have hfirm : Firm ("[" ++ paddedDecimal 4 tick ++ "] " ++ r.text).toList := by
    rw [String.toList_append]
    exact r.firm_text.append_left _
  simp only [record]
  rw [trimEnd_of_firm hfirm, String.toList_ofList, hline]

theorem toList_faultRecord (tick : Nat) (fault : Fault) :
    (faultRecord tick fault).toList =
      header tick fault.pc ("FAULT".toList ++ ' ' :: fault.message.toList) := by
  simp [faultRecord, header]

/-- The text of a record determines the instruction that retired. -/
theorem record_inj {tick tick' : Nat} {r s : Retired} (hr : r.instruction.Legal)
    (hs : s.instruction.Legal) (h : record tick r = record tick' s) :
    tick = tick' ∧ r.pc = s.pc ∧ r.instruction.opcode = s.instruction.opcode ∧
      r.instruction.mode = s.instruction.mode ∧ r.effects = s.effects ∧
      (r.instruction.opcode.operandKind ≠ .none → r.instruction.operand = s.instruction.operand) := by
  have hlines := congrArg String.toList h
  rw [toList_record, toList_record] at hlines
  obtain ⟨htick, hpc, hrest⟩ := header_inj hlines
  obtain ⟨hopcode, hmode, hoperand, heffects⟩ := Instruction.column_append_inj hr hs hrest
  exact ⟨htick, UInt16.toNat_inj.mp hpc, hopcode, hmode,
    Retired.effectText_inj (String.toList_injective heffects), hoperand⟩

/-- The text of a fault record determines the fault. -/
theorem faultRecord_inj {tick tick' : Nat} {f g : Fault} (hf : f.Explained) (hg : g.Explained)
    (h : faultRecord tick f = faultRecord tick' g) : tick = tick' ∧ f = g := by
  have hlines := congrArg String.toList h
  rw [toList_faultRecord, toList_faultRecord] at hlines
  obtain ⟨htick, hpc, hrest⟩ := header_inj hlines
  have hmessage : f.message = g.message :=
    String.toList_injective (List.cons.inj (List.append_cancel_left hrest)).2
  exact ⟨htick, Fault.message_inj hf hg hpc hmessage⟩

/-- No operation is called like the mark of a fault. -/
theorem record_ne_faultRecord (tick tick' : Nat) (r : Retired) (fault : Fault) :
    record tick r ≠ faultRecord tick' fault := by
  intro h
  have hlines := congrArg String.toList h
  rw [toList_record, toList_faultRecord] at hlines
  obtain ⟨-, -, hrest⟩ := header_inj hlines
  have hname : r.instruction.opcode.name.toList = "FAULT".toList :=
    Instruction.name_of_column (List.all_eq_true.mp rfl) hrest
  have hnone : ∀ op : Opcode, op.name.toList ≠ "FAULT".toList := by
    intro op
    cases op <;> decide
  exact hnone _ hname

/-- **The log is unambiguous.** Let the instructions be results of the decoder, and the reasons of
illegal instructions too. Two records with one text have the same tick, program counter, opcode, mode
and effects, and the same operand unless the operation takes none. Two fault records with one text
have the same tick and fault. No record has the text of a fault record. -/
theorem record_unambiguous :
    (∀ (tick tick' : Nat) (r s : Retired) (word word' : Word),
      Instruction.decode word = .ok r.instruction → Instruction.decode word' = .ok s.instruction →
      record tick r = record tick' s →
      tick = tick' ∧ r.pc = s.pc ∧ r.instruction.opcode = s.instruction.opcode ∧
        r.instruction.mode = s.instruction.mode ∧ r.effects = s.effects ∧
        (r.instruction.opcode.operandKind ≠ .none →
          r.instruction.operand = s.instruction.operand)) ∧
    (∀ (tick tick' : Nat) (f g : Fault), f.Explained → g.Explained →
      faultRecord tick f = faultRecord tick' g → tick = tick' ∧ f = g) ∧
    ∀ (tick tick' : Nat) (r : Retired) (fault : Fault), record tick r ≠ faultRecord tick' fault := by
  refine ⟨fun tick tick' r s word word' hr hs h => ?_, fun tick tick' f g => faultRecord_inj,
    record_ne_faultRecord⟩
  exact record_inj (Instruction.legal_of_decode hr) (Instruction.legal_of_decode hs) h

/-- A halt decoded from a word with the given operand field. -/
def haltWith (operand : UInt16) : Retired := ⟨0xABCD, ⟨.halt, .implied, operand⟩, [.halted]⟩

/-- Two halts that differ in the operand field have one record. A record and a fault, or two faults
of one instruction, have different texts. -/
theorem record_unambiguous_of_halts :
    Instruction.decode 0x11000000 = .ok (haltWith 0).instruction ∧
      Instruction.decode 0x11000005 = .ok (haltWith 5).instruction ∧
      record 12345 (haltWith 0) = record 12345 (haltWith 5) ∧
      (haltWith 0).effects = (haltWith 5).effects ∧
      (Fault.illegalInstruction 3 0 (.unknownOpcode 0)).Explained ∧
      faultRecord 7 (.illegalInstruction 3 0 (.unknownOpcode 0)) ≠
        faultRecord 7 (.inputExhausted 3) ∧
      record 0 (haltWith 0) ≠ faultRecord 0 (.inputExhausted 0xABCD) := by
  have hdecode : Instruction.decode 0x11000000 = .ok (haltWith 0).instruction := rfl
  have hdecode' : Instruction.decode 0x11000005 = .ok (haltWith 5).instruction := rfl
  have hrecord : record 12345 (haltWith 0) = record 12345 (haltWith 5) := rfl
  obtain ⟨-, -, -, -, heffects, -⟩ :=
    record_unambiguous.1 12345 12345 _ _ _ _ hdecode hdecode' hrecord
  have hexplained : (Fault.illegalInstruction 3 0 (.unknownOpcode 0)).Explained := rfl
  refine ⟨hdecode, hdecode', hrecord, heffects, hexplained, fun h => ?_,
    record_unambiguous.2.2 0 0 _ _⟩
  have hexhausted : (Fault.inputExhausted 3).Explained := trivial
  obtain ⟨-, hfault⟩ := record_unambiguous.2.1 7 7 _ _ hexplained hexhausted h
  cases hfault

end Accumulator.Trace
