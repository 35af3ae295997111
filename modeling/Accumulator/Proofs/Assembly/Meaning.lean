import Accumulator.Proofs.Assembly.Cells
import Accumulator.Proofs.Assembly.Resolve
import Accumulator.Proofs.Machine.Perform

/-!
# The assembler and the machine agree on operands

* `step_of_line` — a machine that finds a line of a source in the cell where the line was placed does
  what the operation of the line does with the operand as written.
-/

namespace Accumulator

theorem Assembles.word_of_cell {source : String} {lines : List Line} {layout : Layout}
    {p : Program} (h : Assembles source lines layout p) {a : Nat} {word word' : Word}
    (hword : (a, word) ∈ p.cells) (hword' : (a, word') ∈ p.cells) : word = word' := by
  have hcell := List.inj_on_of_nodup_map h.nodup_cells hword hword' rfl
  exact (Prod.mk.inj hcell).2

/-- **The machine acts with the operand as written.** A code line has an address, its argument stands
for an operand, and a machine that is about to run the word of the line, in whatever state, does with
that operand what the operation of the line does. -/
theorem step_of_line {source : String} {lines : List Line} {layout : Layout} {p : Program}
    (h : Assembles source lines layout p) {line : Line} (hline : line ∈ lines) {code : Code}
    (hcode : line.statement = some (.instruction code)) :
    ∃ (address : Address) (operand : Operand code.opcode.operandKind) (field : UInt16),
      layout.addressOf? line.number = some address ∧
      code.argument.Denotes layout.labels operand ∧
      (address.toNat, Instruction.encode ⟨code.opcode, code.mode, field⟩) ∈ p.cells ∧
      ∀ (m : Machine) (word : Word), m.Active → m.pc = address.toNat →
        (address.toNat, word) ∈ p.cells → m.word? address = some word →
        m.step = m.stepWith address ⟨code.opcode, code.mode, field⟩ operand := by
  obtain ⟨address, i, hfound, hi, hcell⟩ := h.exists_instruction hline hcode
  have hwellFormed : code.WellFormed := h.wellFormed line hline _ hcode
  have hlegal := Code.legal_of_resolve hwellFormed hi
  obtain ⟨field, hfield, rfl⟩ := Code.resolve_eq_ok_iff.mp hi
  obtain ⟨operand, hdenotes, hencode⟩ := Argument.exists_operand hwellFormed hfield
  refine ⟨address, operand, field, hfound, hdenotes, hcell, ?_⟩
  intro m word hactive hpc hword hholds
  rw [h.word_of_cell hword hcell] at hholds
  exact Machine.step_eq_stepWith hactive hpc hholds (Instruction.decode_encode hlegal) hencode

/-- The source with its blocks out of order in eight words of memory, about to run its last line. -/
def Scattered.loaded : Machine where
  memory := Machine.writeCells (Array.replicate 8 0) program.cells
  pc := 4

/-- The pointer that lies behind is the one that is loaded through. -/
theorem step_of_scattered_last :
    Assembles Scattered.source Scattered.lines Scattered.layout Scattered.program ∧
      Scattered.last ∈ Scattered.lines ∧
      Scattered.last.statement = some (.instruction ⟨.load, .address .indirect (.label "TABLE")⟩) ∧
      Scattered.loaded.Active ∧ Scattered.loaded.word? 4 = some 0x0304FFFD ∧
      Scattered.loaded.step =
        Scattered.loaded.stepWith 4 ⟨.load, .indirect, 0xFFFD⟩ (.cell .indirect 2) := by
  have hlast : Scattered.last ∈ Scattered.lines := by decide
  have hactive : Scattered.loaded.Active := by decide
  have hholds : Scattered.loaded.word? 4 = some 0x0304FFFD := by decide
  refine ⟨Scattered.assembles, hlast, rfl, hactive, hholds, ?_⟩
  obtain ⟨address, operand, field, hfound, hdenotes, hcell, hstep⟩ :=
    step_of_line Scattered.assembles hlast rfl
  cases (show Scattered.layout.addressOf? Scattered.last.number = some 4 from rfl).symm.trans hfound
  have hword : ((4 : Address).toNat, (0x0304FFFD : Word)) ∈ Scattered.program.cells := by decide
  have hfield : field = 0xFFFD :=
    (Instruction.operandField_encode _).symm.trans
      (congrArg Instruction.operandField (Scattered.assembles.word_of_cell hcell hword))
  have hoperand : operand = .cell .indirect 2 := by
    cases hdenotes with
    | @cell _ _ target denotes =>
      generalize htable : target.toUInt32 = table at denotes
      cases denotes with
      | label bound =>
        cases (show Scattered.layout.labels.address? "TABLE" = some 2 from rfl).symm.trans bound
        have htarget : target = 2 := by simpa using congrArg UInt32.toUInt16 htable
        rw [htarget]
  rw [hstep _ _ hactive rfl hword hholds, hfield, hoperand]
  rfl

end Accumulator
