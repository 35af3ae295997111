import Accumulator.Proofs.Source.WellFormed

/-!
# The errors of lines that cannot be read

* `Reading` — a computation that fails with reading errors only; it is closed under sequence.
* `reading_read` — a line that cannot be read is reported with a reading error.
* `readErrors`, `readAll_eq_error_iff` — the errors of the lines that cannot be read, in the order of
  the lines. Reading a source reports these and no other.
* `Unreadable` — some line cannot be read.
-/

namespace Accumulator

/-- The computation fails with reading errors only. -/
def Reading {α : Type} (x : Except AssemblyError α) : Prop :=
  ∀ error, x = .error error → error.errorClass = .reading

namespace Reading

variable {α β : Type}

theorem ok (a : α) : Reading (.ok a) := nofun

theorem error {e : AssemblyError} (h : e.errorClass = .reading) :
    Reading (.error e : Except AssemblyError α) := by
  rintro _ ⟨rfl⟩
  exact h

theorem bind {x : Except AssemblyError α} {f : α → Except AssemblyError β} (hx : Reading x)
    (hf : ∀ a, Reading (f a)) : Reading (x >>= f) := by
  intro e h
  rcases Except.bind_eq_error.mp h with h | ⟨a, -, h⟩
  · exact hx e h
  · exact hf a e h

theorem mapM {f : α → Except AssemblyError β} (hf : ∀ a, Reading (f a)) (xs : List α) :
    Reading (xs.mapM f) := by
  intro e h
  obtain ⟨x, -, hx⟩ := exists_of_mapM_eq_error h
  exact hf x e hx

end Reading

/-! ## One line -/

theorem reading_onlyArgument (operation : List Char) (arguments : List (List Char)) :
    Reading (onlyArgument operation arguments) := by
  unfold onlyArgument
  split
  · exact .error rfl
  · exact .ok _
  · exact .error rfl

theorem reading_readArgument {α : Type} (reader : List Char → Option α) (role : ArgumentRole)
    (text : List Char) : Reading (readArgument reader role text) := by
  unfold readArgument
  split
  · exact .ok _
  · exact .error rfl

theorem Code.reading_readOperand (kind : OperandKind) (operation : List Char)
    (arguments : List (List Char)) : Reading (readOperand kind operation arguments) := by
  cases kind with
  | none =>
    cases arguments with
    | nil => exact .ok _
    | cons extra rest => exact .error rfl
  | port | address | value =>
    exact (reading_onlyArgument operation arguments).bind (reading_readArgument _ _)

theorem Code.reading_read (operation : List Char) (arguments : List (List Char)) :
    Reading (read operation arguments) := by
  unfold read
  split
  · refine (reading_onlyArgument operation arguments).bind fun argument => ?_
    exact (reading_readArgument _ _ argument).bind fun value => .ok _
  · split
    · exact .error rfl
    · exact (reading_readOperand _ operation arguments).bind fun argument => .ok _

theorem Statement.reading_ofParts (operation : List Char) (arguments : List (List Char)) :
    Reading (ofParts operation arguments) := by
  unfold ofParts
  split
  · refine (reading_onlyArgument operation arguments).bind fun argument => ?_
    exact (reading_readArgument _ _ argument).bind fun address => .ok _
  · split
    · exact .error rfl
    · exact (Reading.mapM (reading_readArgument _ _) arguments).bind fun items => .ok _
  · exact (Code.reading_read operation arguments).bind fun code => .ok _

theorem Statement.reading_read (text : List Char) : Reading (read text) := by
  unfold read
  split
  · exact .ok _
  · exact (reading_ofParts _ _).bind fun statement => .ok _

namespace Line

theorem reading_readLabel (text : List Char) : Reading (readLabel text) := by
  by_cases h : isIdentifier (Text.trim text)
  · rw [readLabel, if_pos h]
    exact .ok _
  · rw [readLabel, if_neg h]
    exact .error rfl

/-- **A line that cannot be read is reported with a reading error.** -/
theorem reading_read (number : Nat) (text : List Char) : Reading (read number text) := by
  refine (Reading.mapM reading_readLabel _).bind fun labels => ?_
  exact (Statement.reading_read _).bind fun statement => .ok _

/-! ## All lines -/

/-- The lines of a source with their numbers. -/
def numbered (source : String) : List (List Char × Nat) := (Text.lines source.toList).zipIdx 1

/-- The errors of the lines that cannot be read, in the order of the lines. -/
def readErrors (source : String) : List LineError :=
  failures ((numbered source).map fun entry => readNumbered entry.2 entry.1)

theorem readAll_eq_error_iff {source : String} {errors : List LineError} :
    readAll source = .error errors ↔ readErrors source = errors ∧ errors ≠ [] :=
  collect_eq_error_iff

theorem mem_readErrors {source : String} {e : LineError} :
    e ∈ readErrors source ↔
      ∃ text, (text, e.line) ∈ numbered source ∧ read e.line text = .error e.error := by
  obtain ⟨number, error⟩ := e
  rw [readErrors, mem_failures, List.mem_map]
  constructor
  · rintro ⟨⟨text, number'⟩, hmem, hentry⟩
    obtain ⟨error', hread, heq⟩ := Except.mapError_eq_error.mp hentry
    cases heq
    exact ⟨text, hmem, hread⟩
  · rintro ⟨text, hmem, hread⟩
    exact ⟨(text, number), hmem, Except.mapError_eq_error.mpr ⟨error, hread, rfl⟩⟩

/-- Some line of the source cannot be read. -/
def Unreadable (source : String) : Prop :=
  ∃ entry ∈ numbered source, ∃ error, read entry.2 entry.1 = .error error

theorem unreadable_iff {source : String} : Unreadable source ↔ readErrors source ≠ [] := by
  constructor
  · rintro ⟨⟨text, number⟩, hmem, error, hread⟩
    exact List.ne_nil_of_mem (mem_readErrors (e := ⟨number, error⟩) |>.mpr ⟨text, hmem, hread⟩)
  · intro hne
    obtain ⟨e, he⟩ := List.exists_mem_of_ne_nil _ hne
    obtain ⟨text, hmem, hread⟩ := mem_readErrors.mp he
    exact ⟨(text, e.line), hmem, e.error, hread⟩

theorem not_unreadable_of_readAll {source : String} {lines : List Line}
    (h : readAll source = .ok lines) : ¬ Unreadable source :=
  fun hunreadable => unreadable_iff.mp hunreadable (failures_of_collect_eq_ok h)

/-- The errors of reading follow the lines, and none of these has two. -/
theorem sublist_line_readErrors (source : String) :
    ((readErrors source).map (·.line)).Sublist
      (List.range' 1 (Text.lines source.toList).length) := by
  rw [← List.zipIdx_map_snd]
  refine sublist_map_failures (fun entry e h => ?_) _
  obtain ⟨error, -, rfl⟩ := Except.mapError_eq_error.mp h
  rfl

end Line

end Accumulator
