import Accumulator.Proofs.Assembly.Overlap
import Accumulator.Proofs.Assembly.Resolve

/-!
# Nothing is cut off

The cursor of a walk and the value of an immediate are wider than an address, and are narrowed without
a check when a line is placed and when its operand is resolved. What was checked before is enough.

* `Walk.Exact`, `exact_of_wellFormed` — a line that fits is placed at the cursor, and one that does not
  fit is reported for its last cell.
* `Mode.number`, `Argument.Writes` — the number that an operand field stands for, and the number that
  an argument was written as. `number_of_resolve` — they are the same.
* `narrowings_exact` — both for every source whose lines can be read.
-/

namespace Accumulator

/-! ## Cursors -/

namespace Walk

/-- The walk takes a line as it is. If the line fits, the cursor is an address and the line is placed at
it. If not, the line is not placed, and the last of the cells that it would take is reported. -/
structure Exact (w : Walk) (line : Line) : Prop where
  placed : w.cursor + line.size ≤ addressSpace → w.cursor ≤ 0xFFFF ∧
    ∃ first last : Address, first.toNat = w.cursor ∧ last.toNat + 1 = w.cursor + line.size ∧
      (w.step line).lines = w.lines.push ⟨first, line⟩
  refused : addressSpace < w.cursor + line.size → (w.step line).lines = w.lines ∧
    ∃ last, last + 1 = w.cursor + line.size ∧
      ⟨line.number, .addressOverflow last⟩ ∈ (w.step line).errors

theorem lines_place (w : Walk) (line : Line) : (w.place line).lines =
    if addressSpace < w.cursor + line.size then w.lines
    else w.lines.push ⟨UInt16.ofNat w.cursor, line⟩ := by
  obtain ⟨labels, errors, hbind⟩ := bindPending_frame w
  unfold place
  simp only [hbind]
  split
  · rfl
  · split <;> rfl

/-- **A well-formed line is taken as it is**, whatever was reported before. -/
theorem exact_of_wellFormed (w : Walk) {line : Line} (hline : line.WellFormed)
    (hoccupies : line.occupies = true) : w.Exact line := by
  -- an empty row right behind the last cell would fit and be placed at zero
  have hpos : 0 < line.size := hline.size_pos hoccupies
  have hlines := lines_place { w with pending := w.pending ++ line.pending } line
  have hstep : w.step line = place { w with pending := w.pending ++ line.pending } line :=
    step_of_occupies hoccupies
  rw [← hstep] at hlines
  constructor
  · intro hfits
    have hfirst : w.cursor < addressSpace := by omega
    have hlast : w.cursor + line.size - 1 < addressSpace := by omega
    refine ⟨Nat.le_of_lt_succ hfirst, UInt16.ofNat w.cursor, UInt16.ofNat (w.cursor + line.size - 1),
      UInt16.toNat_ofNat_of_lt' hfirst, ?_, ?_⟩
    · rw [UInt16.toNat_ofNat_of_lt' hlast]
      omega
    · rw [hlines]
      exact if_neg (Nat.not_lt.mpr hfits)
  · intro hpast
    refine ⟨?_, w.cursor + line.size - 1, by omega, ?_⟩
    · rw [hlines]
      exact if_pos hpast
    · rw [hstep, mem_errors_place]
      exact .inr (.inl ⟨hpast, rfl⟩)

end Walk

/-! ## Operands -/

/-- The number that an operand field in the cell `address` stands for. A relative or indirect field counts
from the next cell, from the last cell of the address space on to the first. -/
def Mode.number (address : Address) (field : UInt16) : Mode → Nat
  | .implied | .immediate | .absolute => field.toNat
  | .relative | .indirect => (address.toNat + 1 + field.toNat) % addressSpace

/-- The number that an argument was written as: its port, its literal or the address of its label, and zero
where there is none. -/
inductive Argument.Writes (labels : SymbolTable) : Argument → Nat → Prop
  | none : Writes labels .none 0
  | port (number : Port) : Writes labels (.port number) number.toNat
  | immediate {value : Immediate} {word : Word} (denotes : value.Denotes labels word) :
      Writes labels (.immediate value) word.toNat
  | address {addressing : Addressing} {target : Immediate} {word : Word}
      (denotes : target.Denotes labels word) :
      Writes labels (.address addressing target) word.toNat

theorem Addressing.number_field (addressing : Addressing) (address target : Address) :
    addressing.mode.number address (addressing.field address target) = target.toNat := by
  have htarget := UInt16.toNat_lt target
  have haddress := UInt16.toNat_lt address
  cases addressing with
  | absolute => rfl
  | relative | indirect =>
    simp only [Addressing.mode, Mode.number, Addressing.field, addressSpace, UInt16.toNat_sub,
      UInt16.toNat_add, UInt16.toNat_one]
    omega

namespace Argument

variable {labels : SymbolTable} {address : Address} {argument : Argument} {field : UInt16}

/-- The immediate of an argument resolves to the number that the argument was written as. -/
theorem Writes.immediate? {number : Nat} (h : argument.Writes labels number) {immediate : Immediate}
    (himmediate : argument.immediate? = some immediate) :
    ∃ word : Word, immediate.resolve labels = .ok word ∧ word.toNat = number := by
  cases h with
  | none | port => cases himmediate
  | immediate denotes | address denotes =>
    cases himmediate
    exact ⟨_, Immediate.resolve_eq_ok_iff.mpr denotes, rfl⟩

theorem number_of_resolve_address {addressing : Addressing} {target : Immediate}
    (hfits : target.fitsAddress = true)
    (h : (Argument.address addressing target).resolve labels address = .ok field) :
    ∃ number, (Argument.address addressing target).Writes labels number ∧ number ≤ 0xFFFF ∧
      addressing.mode.number address field = number := by
  obtain ⟨cell, hdenotes, rfl⟩ := resolve_address_eq_ok hfits h
  refine ⟨_, .address hdenotes, ?_, ?_⟩
  · rw [UInt16.toNat_toUInt32]
    exact Nat.le_of_lt_succ (UInt16.toNat_lt cell)
  · rw [addressing.number_field, UInt16.toNat_toUInt32]

/-- **The field stands for the number as written**, and sixteen bits hold that number. -/
theorem number_of_resolve {kind : OperandKind} (hsuits : argument.Suits kind)
    (h : argument.resolve labels address = .ok field) :
    ∃ number, argument.Writes labels number ∧ number ≤ 0xFFFF ∧
      argument.mode.number address field = number := by
  cases hsuits with
  | none =>
    cases h
    exact ⟨0, .none, Nat.zero_le _, rfl⟩
  | port number =>
    cases h
    refine ⟨_, .port number, ?_, rfl⟩
    have := UInt8.toNat_lt number
    omega
  | immediate fits =>
    obtain ⟨word, hword, rfl⟩ := Except.map_eq_ok.mp h
    have hdenotes := Immediate.resolve_eq_ok_iff.mp hword
    have hvalue : word.toUInt16.toNat = word.toNat := by
      rw [← UInt16.toNat_toUInt32, hdenotes.toUInt16 fits]
    refine ⟨_, .immediate hdenotes, ?_, hvalue⟩
    rw [← hvalue]
    exact Nat.le_of_lt_succ (UInt16.toNat_lt _)
  | address addressing fits => exact number_of_resolve_address fits h
  | cell addressing fits => exact number_of_resolve_address fits h

end Argument

/-! ## A whole source -/

/-- **No narrowing loses a bit.** Let the lines of a source be read. The walk of the layout takes every line
that takes cells as it is: one that fits at its cursor, one that does not with a report of its last cell.
And wherever an instruction of the source is placed and whatever its labels are bound to, if it resolves,
then its operand field stands for the number that was written, and what is narrowed to that field is no
more than sixteen bits hold. -/
theorem narrowings_exact {source : String} {lines : List Line} (hread : Line.readAll source = .ok lines) :
    (∀ before line after, lines = before ++ line :: after → line.occupies = true →
      (before.foldl Walk.step {}).Exact line) ∧
    ∀ line ∈ lines, ∀ code, line.statement = some (.instruction code) →
      ∀ labels address i, code.resolve labels address = .ok i →
        ∃ number, code.argument.Writes labels number ∧ number ≤ 0xFFFF ∧
          i.mode.number address i.operand = number ∧
          ∀ immediate, code.argument.immediate? = some immediate →
            ∃ word : Word, immediate.resolve labels = .ok word ∧ word.toNat = number := by
  have hlines := Line.readAll_wellFormed hread
  constructor
  · rintro before line after rfl hoccupies
    have hline : line.WellFormed := hlines line (List.mem_append_right _ List.mem_cons_self)
    exact Walk.exact_of_wellFormed _ hline hoccupies
  · intro line hline code hcode labels address i hi
    have hsuits : code.argument.Suits code.opcode.operandKind := hlines line hline _ hcode
    obtain ⟨field, hfield, rfl⟩ := Code.resolve_eq_ok_iff.mp hi
    obtain ⟨number, hwrites, hle, hnumber⟩ := Argument.number_of_resolve hsuits hfield
    exact ⟨number, hwrites, hle, hnumber, fun _ => hwrites.immediate?⟩

namespace Topmost

/-- A jump to itself in the last cell of the address space, and a row of words behind it. -/
def source : String := "ORG 0xFFFF\nEND: JUMP END\nWORD 0x12345678, 2\n"

/-- The origin at the last cell. -/
def origin : Line := ⟨1, [], some (.origin 0xFFFF)⟩

def jump : Code := ⟨.jump, .address .relative (.label "END")⟩

/-- The line in the last cell. -/
def last : Line := ⟨2, ["END"], some (.instruction jump)⟩

/-- The row that does not fit. -/
def row : Line := ⟨3, [], some (.words [.literal 0x12345678, .literal 2])⟩

def lines : List Line := [origin, last, row]

/-- The label of the last cell. -/
def labels : SymbolTable := ⟨[("END", ⟨2, 0xFFFF⟩)]⟩

/-- The jump is placed in the last cell and finds its target from the first one on. The row is reported for
the second of its cells. -/
theorem narrowings_exact_of_last :
    Line.readAll source = .ok lines ∧ last.occupies = true ∧ row.occupies = true ∧
      (∃ first : Address, first.toNat = 0xFFFF ∧
        ((Walk.step {} origin).step last).lines = (Walk.step {} origin).lines.push ⟨first, last⟩) ∧
      (∃ cell, cell + 1 = 0x10002 ∧
        ⟨3, .addressOverflow cell⟩ ∈ (((Walk.step {} origin).step last).step row).errors) ∧
      jump.resolve labels 0xFFFF = .ok ⟨.jump, .relative, 0xFFFF⟩ ∧
      ∃ number, jump.argument.Writes labels number ∧ number ≤ 0xFFFF ∧
        Mode.relative.number 0xFFFF 0xFFFF = number := by
  have hread : Line.readAll source = .ok lines := rfl
  have hresolve : jump.resolve labels 0xFFFF = .ok ⟨.jump, .relative, 0xFFFF⟩ := rfl
  obtain ⟨hwalk, hcode⟩ := narrowings_exact hread
  obtain ⟨-, first, -, hfirst, -, hplaced⟩ := (hwalk [origin] last [row] rfl rfl).placed (by decide)
  have hrow : (((Walk.step {} origin).step last).cursor + row.size) = 0x10002 :=
    congrArg (· + row.size) (Walk.cursor_step (Walk.step {} origin) last)
  obtain ⟨-, cell, hcell, hreported⟩ := (hwalk [origin, last] row [] rfl rfl).refused
    (Nat.lt_of_lt_of_eq (by decide) hrow.symm)
  obtain ⟨number, hwrites, hle, hnumber, -⟩ := hcode last (by decide) jump rfl labels 0xFFFF _ hresolve
  exact ⟨hread, rfl, rfl, ⟨first, hfirst, hplaced⟩, ⟨cell, hcell.trans hrow, hreported⟩, hresolve,
    number, hwrites, hle, hnumber⟩

end Topmost

end Accumulator
