import Accumulator.Program.Artifact
import Accumulator.Proofs.Json.RoundTrip

/-!
# Artifacts are read back

* `mapM_map_eq_some` — a list of written values is read back if each of them is.
* `ofJson?_toJson` — of an instruction, an item, a section and a program.
* `read_of_artifact` — an artifact in the current format gives its program, one in another format is
  refused by its version, and no two programs have the same artifact.
-/

namespace Accumulator

theorem mapM_map_eq_some {α β : Type} {write : α → β} {read : β → Option α}
    (h : ∀ a, read (write a) = some a) (xs : List α) : (xs.map write).mapM read = some xs := by
  induction xs with
  | nil => rfl
  | cons x xs ih => simp [h x, ih]

theorem fromUTF8?_toUTF8 (text : String) : String.fromUTF8? text.toUTF8 = some text := by
  rw [String.fromUTF8?, String.toUTF8_eq_toByteArray, dif_pos text.isValidUTF8]
  rfl

namespace Json

theorem below?_number {bound value : Nat} (h : value < bound) :
    below? bound (.number value) = some value := if_pos h

@[simp] theorem alternative?_string (name : String) : alternative? (.string name) = some name := rfl

end Json

@[simp] theorem Instruction.ofJson?_toJson (i : Instruction) :
    Instruction.ofJson? i.toJson = some i := by
  have hfields : i.toJson.fields? ["opcode", "mode", "operand"] =
      some [.string i.opcode.name, .string i.mode.name, .number i.operand.toNat] := rfl
  simp [ofJson?, hfields, Json.below?_number (UInt16.toNat_lt i.operand)]

@[simp] theorem Item.ofJson?_toJson (item : Item) : Item.ofJson? item.toJson = some item := by
  cases item with
  | command i => simp [ofJson?, toJson]
  | data word => simp [ofJson?, toJson, Json.below?_number (UInt32.toNat_lt word)]

@[simp] theorem Section.ofJson?_toJson (s : Section) : Section.ofJson? s.toJson = some s := by
  have hfields : s.toJson.fields? ["start", "items"] =
      some [.number s.start.toNat, .array (s.items.map Item.toJson)] := rfl
  simp [ofJson?, hfields, Json.below?_number (UInt16.toNat_lt s.start),
    mapM_map_eq_some Item.ofJson?_toJson]

namespace Program

@[simp] theorem ofJson?_toJson (p : Program) : ofJson? p.toJson = some p := by
  have hfields : p.toJson.fields? ["version", "sections"] =
      some [.number p.version.toNat, .array (p.sections.map Section.toJson)] := rfl
  simp [ofJson?, hfields, Json.below?_number (UInt32.toNat_lt p.version),
    mapM_map_eq_some Section.ofJson?_toJson]

/-- The text of an artifact is read as the value of its program. -/
theorem read?_artifact (p : Program) : Json.read? p.artifact.toList = some p.toJson := by
  have htext : p.artifact.toList = p.toJson.render.toList ++ ['\n'] := by
    rw [artifact, String.toList_append]
    rfl
  rw [htext]
  exact Json.read?_render p.toJson (by simp [Json.isSpace])

/-- **An artifact gives its program, or its version if that is another.** -/
theorem ofArtifact_artifact (p : Program) :
    ofArtifact p.artifact.toUTF8 =
      if p.version = formatVersion then .ok p else .error (.unsupportedVersion p.version) := by
  simp only [ofArtifact, decode, fromUTF8?_toUTF8, read?_artifact, ofJson?_toJson]

/-- The text of a program determines it, in whatever version. -/
theorem artifact_injective : Function.Injective artifact := by
  intro p q h
  have hvalue : some p.toJson = some q.toJson := by rw [← read?_artifact, h, read?_artifact]
  have hprogram : ofJson? p.toJson = ofJson? q.toJson := by rw [Option.some.inj hvalue]
  simpa using hprogram

/-- **Programs and their artifacts correspond.** In the current format the artifact is read as the
program, in any other it is refused by its version, and no two programs have the same artifact. The
program need not be one that a memory takes, nor its instructions legal. -/
theorem read_of_artifact :
    (∀ p : Program, p.version = formatVersion → ofArtifact p.artifact.toUTF8 = .ok p) ∧
      (∀ p : Program, p.version ≠ formatVersion →
        ofArtifact p.artifact.toUTF8 = .error (.unsupportedVersion p.version)) ∧
      ∀ p q : Program, p.artifact = q.artifact → p = q := by
  refine ⟨fun p hversion => ?_, fun p hversion => ?_, fun p q h => artifact_injective h⟩
  · rw [ofArtifact_artifact, if_pos hversion]
  · rw [ofArtifact_artifact, if_neg hversion]

/-- A section without items, one that reaches past the address space, and an instruction with a mode
that its operation does not take. -/
def irregular (version : UInt32) : Program :=
  ⟨version, [⟨0xFFFF, []⟩, ⟨0xFFFF, [.command ⟨.halt, .immediate, 7⟩, .data 0xFFFFFFFF]⟩]⟩

theorem read_of_irregular :
    ofArtifact (irregular 1).artifact.toUTF8 = .ok (irregular 1) ∧
      ofArtifact (irregular 2).artifact.toUTF8 = .error (.unsupportedVersion 2) ∧
      (irregular 1).artifact ≠ (irregular 2).artifact := by
  obtain ⟨hread, hrefused, hinjective⟩ := read_of_artifact
  refine ⟨hread (irregular 1) rfl, hrefused (irregular 2) (by decide), fun h => ?_⟩
  exact absurd (hinjective _ _ h) (by decide)

end Program

end Accumulator
