import Accumulator.Proofs.Assembly.Meaning
import Accumulator.Proofs.Assembly.Sections
import Accumulator.Proofs.Machine.Execution

/-!
# The assembler emits legal instructions only

* `Suits.allows` — the mode of an argument fits the operations that take the argument.
* `exists_code_of_command`, `exists_line_of_command` — a command of an assembled program is what some
  code line resolves to.
* `decode_of_assembly` — what a line resolves to is decoded to itself, so the machine never refuses a
  command of an assembled program.
-/

namespace Accumulator

theorem Argument.Suits.allows {kind : OperandKind} {argument : Argument} (h : argument.Suits kind) :
    kind.allows argument.mode = true := by
  cases h with
  | none => rfl
  | port number => rfl
  | address addressing => exact addressing.address_allows
  | immediate => rfl
  | cell addressing => exact addressing.value_allows

/-- Only an argument that is missing makes an implied instruction, and its field is clear. -/
theorem Code.operand_eq_zero {code : Code} {labels : SymbolTable} {address : Address}
    {i : Instruction} (h : code.resolve labels address = .ok i) (hmode : i.mode = .implied) :
    i.operand = 0 := by
  obtain ⟨field, hfield, rfl⟩ := resolve_eq_ok_iff.mp h
  obtain ⟨opcode, argument⟩ := code
  cases argument with
  | none =>
    cases hfield
    rfl
  | port number => cases hmode
  | immediate value => cases hmode
  | address addressing target => cases addressing <;> cases hmode

/-- Of the statements only an instruction gives a command, the one that it resolves to. -/
theorem Statement.exists_code_of_command {statement : Statement} {labels : SymbolTable}
    {address : Address} {items : List Item} (h : statement.resolve labels address = .ok items)
    {i : Instruction} (hi : Item.command i ∈ items) :
    ∃ code, statement = .instruction code ∧ code.resolve labels address = .ok i := by
  cases statement with
  | origin address =>
    cases h
    cases hi
  | words words =>
    have hmem := List.mem_map_of_mem (f := Except.ok (ε := AssemblyError)) hi
    rw [← mapM_eq_ok_iff.mp h] at hmem
    obtain ⟨word, -, hword⟩ := List.mem_map.mp hmem
    obtain ⟨value, -, hvalue⟩ := Except.map_eq_ok.mp hword
    cases hvalue
  | instruction code =>
    obtain ⟨found, hfound, rfl⟩ := resolve_instruction_eq_ok_iff.mp h
    cases List.mem_singleton.mp hi
    exact ⟨code, rfl, hfound⟩

namespace Assembles

variable {source : String} {lines : List Line} {layout : Layout} {p : Program}

/-- Every command of an assembled program is what a code line of the source resolves to. -/
theorem exists_line_of_command (h : Assembles source lines layout p) {s : Section}
    (hs : s ∈ p.sections) {i : Instruction} (hi : Item.command i ∈ s.items) :
    ∃ line ∈ lines, ∃ code address, line.statement = some (.instruction code) ∧
      code.resolve layout.labels address = .ok i := by
  rw [h.sections_eq] at hs
  obtain ⟨run, hrun, rfl⟩ := List.mem_map.mp (List.mem_filter.mp hs).1
  obtain ⟨line, hline, hitem⟩ := List.mem_flatMap.mp hi
  have hmem : line ∈ lines := Line.mem_of_mem_runs hrun hline
  refine ⟨line, hmem, ?_⟩
  unfold Layout.itemsOf at hitem
  split at hitem
  · next address hfound =>
    have hplaced := (Layout.addressOf?_eq_some_iff h.placed h.wellFormed (Line.nodup_number h.read)
      hmem).mp hfound
    have hresolve := h.resolve_of_placed hplaced
    unfold Placed.resolve at hresolve
    split at hresolve
    · injection hresolve with hempty
      rw [← hempty] at hitem
      cases hitem
    · next statement hstatement =>
      obtain ⟨code, rfl, hcode⟩ := Statement.exists_code_of_command
        (Except.mapError_eq_ok.mp hresolve) hitem
      exact ⟨code, address, hstatement, hcode⟩
  · cases hitem

/-- Every command of an assembled program is legal. -/
theorem legal_of_command (h : Assembles source lines layout p) {s : Section}
    (hs : s ∈ p.sections) {i : Instruction} (hi : Item.command i ∈ s.items) : i.Legal := by
  obtain ⟨line, hline, code, address, hcode, hresolve⟩ := h.exists_line_of_command hs hi
  exact Code.legal_of_resolve (h.wellFormed line hline _ hcode) hresolve

end Assembles

/-- **Only legal instructions are emitted.** A line that was read has a mode that fits its operation,
and whatever it resolves to is an instruction that is decoded from its own word. So a command of an
assembled program is decoded to itself: a load writes its word, and an active machine that still finds
the word there retires the command or stops for another reason. -/
theorem decode_of_assembly :
    (∀ number text line code, Line.read number text = .ok line →
      line.statement = some (.instruction code) →
      code.opcode.operandKind.allows code.mode = true ∧
      ∀ labels address i, code.resolve labels address = .ok i →
        i.opcode.operandKind.allows i.mode = true ∧
        (i.opcode.operandKind = .port → i.operand ≤ 0xFF) ∧
        (i.mode = .implied → i.operand = 0) ∧ Instruction.decode i.encode = .ok i) ∧
    ∀ source p, assemble source = .ok p → Program.ofArtifact p.artifact.toUTF8 = .ok p ∧
      ∀ s ∈ p.sections, ∀ k i, s.items[k]? = some (.command i) →
        Instruction.decode i.encode = .ok i ∧
        (∀ m m' : Machine, m.load p = .ok m' →
          m'.memory[s.start.toNat + k]? = some i.encode) ∧
        ∀ m : Machine, m.Active → m.pc = s.start.toNat + k → m.memory[m.pc]? = some i.encode →
          (∃ r m', m.step = (.retired r, m') ∧ r.pc.toNat = m.pc ∧ r.instruction = i) ∨
            ∃ fault m', m.step = (.faulted fault, m') ∧
              ∀ pc word reason, fault ≠ .illegalInstruction pc word reason := by
  constructor
  · intro number text line code hread hcode
    have hwellFormed : code.WellFormed := (Line.read_eq_ok hread).2 _ hcode
    refine ⟨hwellFormed.allows, fun labels address i hi => ?_⟩
    have hlegal := Code.legal_of_resolve hwellFormed hi
    exact ⟨hlegal.1, hlegal.2, Code.operand_eq_zero hi, Instruction.decode_encode hlegal⟩
  · intro source p h
    obtain ⟨lines, layout, hassembles⟩ := assemble_eq_ok_iff.mp h
    refine ⟨hassembles.ofArtifact_artifact, fun s hs k i hitem => ?_⟩
    have hdecode := Instruction.decode_encode
      (hassembles.legal_of_command hs (List.mem_of_getElem? hitem))
    have hcell := Program.mem_cells_of_item hs hitem
    refine ⟨hdecode, fun m m' hload => ?_, fun m hactive hpc hword => ?_⟩
    · exact Machine.getElem?_of_load hload hcell
    · have haddress : (UInt16.ofNat m.pc).toNat = m.pc := by
        have hlt := hassembles.lt_of_mem_cells hcell
        rw [← hpc] at hlt
        exact UInt16.toNat_ofNat_of_lt' hlt
      have hfound : m.word? (UInt16.ofNat m.pc) = some i.encode := by
        rw [Machine.word?, haddress, hword]
      rcases Machine.step_of_decode hactive haddress hfound hdecode with
        ⟨r, m', hstep, hr, hi⟩ | ⟨fault, m', hstep, hhinders⟩
      · exact .inl ⟨r, m', hstep, by rw [hr, haddress], hi⟩
      · refine .inr ⟨fault, m', hstep, ?_⟩
        rintro pc word reason rfl
        cases hhinders

/-- The largest port, and the load behind the origin of the source with its blocks out of order. -/
theorem decode_of_scattered :
    Line.read 1 "A: IN 0xFF".toList =
        .ok ⟨1, ["A"], some (.instruction ⟨.input, .port 0xFF⟩)⟩ ∧
      Instruction.decode (Instruction.encode ⟨.input, .immediate, 0xFF⟩) =
        .ok ⟨.input, .immediate, 0xFF⟩ ∧
      assemble Scattered.source = .ok Scattered.program ∧
      Scattered.loaded.Active ∧ Scattered.loaded.pc = 4 ∧
      Scattered.loaded.memory[4]? = some (Instruction.encode ⟨.load, .indirect, 0xFFFD⟩) ∧
      Instruction.decode (Instruction.encode ⟨.load, .indirect, 0xFFFD⟩) =
        .ok ⟨.load, .indirect, 0xFFFD⟩ ∧
      ∀ pc word reason m',
        Scattered.loaded.step ≠ (.faulted (.illegalInstruction pc word reason), m') := by
  have hread : Line.read 1 "A: IN 0xFF".toList =
      .ok ⟨1, ["A"], some (.instruction ⟨.input, .port 0xFF⟩)⟩ := rfl
  have hassemble : assemble Scattered.source = .ok Scattered.program :=
    assemble_eq_ok_iff.mpr ⟨_, _, Scattered.assembles⟩
  have hactive : Scattered.loaded.Active := by decide
  have hword : Scattered.loaded.memory[4]? =
      some (Instruction.encode ⟨.load, .indirect, 0xFFFD⟩) := by decide
  obtain ⟨hlines, hprograms⟩ := decode_of_assembly
  obtain ⟨-, hinput⟩ := hlines 1 _ _ ⟨.input, .port 0xFF⟩ hread rfl
  obtain ⟨-, -, -, hport⟩ := hinput Scattered.layout.labels 4 _ rfl
  obtain ⟨hload, -, hstep⟩ := (hprograms _ _ hassemble).2
    ⟨4, [.command ⟨.load, .indirect, 0xFFFD⟩, .command ⟨.jump, .relative, 0xFFFA⟩]⟩
    (by decide) 0 ⟨.load, .indirect, 0xFFFD⟩ rfl
  refine ⟨hread, hport, hassemble, hactive, rfl, hword, hload, ?_⟩
  intro pc word reason m' hillegal
  rcases hstep Scattered.loaded hactive rfl hword with
    ⟨r, _, hretired, -⟩ | ⟨fault, _, hfaulted, hlegal⟩
  · cases hillegal.symm.trans hretired
  · cases hillegal.symm.trans hfaulted
    exact hlegal pc word reason rfl

end Accumulator
