import Mathlib.Logic.Relation
import Accumulator.Assembly.Encode
import Accumulator.Proofs.Results
import Accumulator.Proofs.Text.Lines

/-!
# The formatting of a source

Blanks around a line, comments and the kind of line ends say nothing.

* `Line.content` — what a line says: the text in front of its comment, without the blanks around it.
  `Line.read_eq_ofContent` reads a line from its content alone.
* `contents` — what a source says: the content of each line. `assemble_eq` assembles a source from it
  alone.
* `Line.Padded`, `Reformatted` — blanks or a comment added to a line; a line of a source padded, or a
  carriage return put in front of every line feed.
* `assemble_of_reformatted` — no number of such changes makes a difference to the program or to the
  errors.
-/

namespace Accumulator

open Text (Blank isBlank split trim)

variable {text blanks : List Char}

/-! ## What a line says -/

namespace Line

theorem stripComment_blanks_append (h : Blank blanks) (text : List Char) :
    stripComment (blanks ++ text) = blanks ++ stripComment text := by
  induction blanks with
  | nil => rfl
  | cons c blanks ih =>
    rw [Blank, List.forall_mem_cons] at h
    rw [List.cons_append, stripComment, ih h.2, List.cons_append]
    · rintro rfl
      exact absurd h.1 (by decide)
    · rintro rest rfl
      exact absurd h.1 (by decide)

/-- A text behind another joins its comment or is stripped on its own, unless two slashes meet. -/
theorem stripComment_append {more : List Char} (h : more.head? ≠ some '/') (text : List Char) :
    stripComment (text ++ more) = stripComment text ∨
      stripComment (text ++ more) = stripComment text ++ stripComment more := by
  fun_induction stripComment text with
  | case1 => exact .inr rfl
  | case2 rest | case3 rest =>
    left
    simp only [List.cons_append, stripComment]
  | case4 c rest hsemicolon hslashes ih =>
    have hstrip : stripComment (c :: (rest ++ more)) = c :: stripComment (rest ++ more) := by
      rw [stripComment]
      · exact hsemicolon
      · intro tail hc hrest
        cases rest with
        | nil => exact h (by rw [← List.nil_append more, hrest, List.head?_cons])
        | cons d rest =>
          rw [List.cons_append, List.cons.injEq] at hrest
          exact hslashes rest hc (by rw [hrest.1])
    rw [List.cons_append, hstrip]
    exact ih.imp (congrArg (c :: ·)) (congrArg (c :: ·))

/-- What a line says. -/
def content (text : List Char) : List Char := trim (stripComment text)

theorem content_append {more : List Char} (hhead : more.head? ≠ some '/')
    (h : Blank (stripComment more)) (text : List Char) : content (text ++ more) = content text := by
  rcases stripComment_append hhead text with htext | htext
  · rw [content, htext, content]
  · rw [content, htext, content]
    exact Text.trim_surround Text.blank_nil h (stripComment text)

/-- Blanks or a comment added to a line. A line feed would end it. -/
inductive Padded (line : List Char) : List Char → Prop
  | indented {blanks : List Char} (h : Blank blanks) (hline : '\n' ∉ blanks) :
    Padded line (blanks ++ line)
  | spaced {blanks : List Char} (h : Blank blanks) (hline : '\n' ∉ blanks) :
    Padded line (line ++ blanks)
  | commented {comment : List Char} (hline : '\n' ∉ comment) : Padded line (line ++ ';' :: comment)

theorem content_append_blanks (h : Blank blanks) (text : List Char) :
    content (text ++ blanks) = content text := by
  refine content_append (fun hhead => ?_) ?_ text
  · exact absurd (h '/' (List.mem_of_head? hhead)) (by decide)
  · have hstrip := stripComment_blanks_append h []
    rw [List.append_nil, stripComment, List.append_nil] at hstrip
    rwa [hstrip]

/-- **A padded line says what it said.** -/
theorem Padded.content_eq {line padded : List Char} (h : Padded line padded) :
    content padded = content line := by
  cases h with
  | indented h =>
    rw [content, stripComment_blanks_append h, content]
    simpa using Text.trim_surround h Text.blank_nil (stripComment line)
  | spaced h => exact content_append_blanks h line
  | commented => exact content_append (by simp) (by simp [stripComment, Text.blank_nil]) line

theorem Padded.newline_not_mem {line padded : List Char} (h : Padded line padded) (hline : '\n' ∉ line) :
    '\n' ∉ padded := by
  cases h with
  | indented _ hblanks => exact List.not_mem_append hblanks hline
  | spaced _ hblanks => exact List.not_mem_append hline hblanks
  | commented hcomment =>
    exact List.not_mem_append hline (List.not_mem_cons_of_ne_of_not_mem (by decide) hcomment)

/-! ## A line is read from its content -/

theorem readLabel_trim (text : List Char) : readLabel (trim text) = readLabel text := by
  rw [readLabel, Text.trim_trim, readLabel]

/-- The line whose pieces between colons are given. -/
def ofPieces (number : Nat) (pieces : List (List Char)) : Except AssemblyError Line := do
  let labels ← pieces.dropLast.mapM readLabel
  let statement ← Statement.read (pieces.getLastD [])
  .ok ⟨number, labels, statement⟩

/-- Blanks around the pieces of a line say nothing. -/
theorem ofPieces_map_trim (number : Nat) (pieces : List (List Char)) :
    ofPieces number (pieces.map trim) = ofPieces number pieces := by
  have hlabels : (pieces.map trim).dropLast.mapM readLabel = pieces.dropLast.mapM readLabel := by
    rw [← List.map_dropLast, List.mapM_map]
    exact congrArg (List.mapM · _) (funext readLabel_trim)
  have hlast : (pieces.map trim).getLastD [] = trim (pieces.getLastD []) := by
    rw [List.getLastD_eq_getLast?, List.getLastD_eq_getLast?, List.getLast?_map]
    cases pieces.getLast? <;> rfl
  have hstatement (text : List Char) : Statement.read (trim text) = Statement.read text := by
    rw [Statement.read, Text.trim_trim, Statement.read]
  rw [ofPieces, hlabels, hlast, hstatement, ofPieces]

/-- The line that says `content`. -/
def ofContent (number : Nat) (content : List Char) : Except AssemblyError Line :=
  ofPieces number (split (· == ':') content)

/-- **A line is read from what it says.** -/
theorem read_eq_ofContent (number : Nat) (text : List Char) :
    read number text = ofContent number (content text) := by
  have hblank : ∀ c, isBlank c = true → (c == ':') = false := by
    intro c hc
    refine beq_false_of_ne ?_
    rintro rfl
    exact absurd hc (by decide)
  calc read number text = ofPieces number (split (· == ':') (stripComment text)) := rfl
    _ = ofPieces number ((split (· == ':') (content text)).map trim) := by
      rw [← ofPieces_map_trim, content, Text.map_trim_split_trim hblank]
    _ = ofContent number (content text) := ofPieces_map_trim number _

end Line

/-! ## What a source says -/

/-- What the text between each two line feeds says. -/
def contents (text : List Char) : List (List Char) := (split (· == '\n') text).map Line.content

theorem contents_of_line {line : List Char} (h : '\n' ∉ line) : contents line = [Line.content line] := by
  rw [contents, Text.split_of_free (Text.newline_free_iff.mpr h)]
  rfl

theorem contents_append (text rest : List Char) :
    contents (text ++ '\n' :: rest) = contents text ++ contents rest := by
  induction text using Text.split_induction (· == '\n') with
  | last line hline =>
    rw [contents, Text.split_append hline (beq_self_eq_true '\n'), contents, Text.split_of_free hline]
    rfl
  | next line c text hline hc ih =>
    rw [contents, contents] at ih
    rw [List.append_assoc, List.cons_append, contents, Text.split_append hline hc, contents,
      Text.split_append hline hc, List.map_cons, List.map_cons, List.cons_append, ih]

theorem content_dropReturn (line : List Char) :
    Line.content (Text.dropReturn line) = Line.content line := by
  unfold Text.dropReturn
  split
  · next hlast =>
    obtain ⟨front, rfl⟩ := List.getLast?_eq_some_iff.mp hlast
    rw [List.dropLast_concat]
    exact (Line.content_append_blanks (by decide) front).symm
  · rfl

/-- The lines of a text say what the text says, up to an empty line at its end. -/
theorem contents_eq (text : List Char) :
    contents text = (Text.lines text).map Line.content ∨
      contents text = (Text.lines text).map Line.content ++ [[]] := by
  unfold contents Text.lines
  fun_induction Text.linesOfPieces (split (· == '\n') text) with
  | case1 => exact .inl rfl
  | case2 last hempty =>
    rw [List.isEmpty_iff] at hempty
    exact .inr (by rw [hempty]; rfl)
  | case3 last hempty => exact .inl rfl
  | case4 line rest hrest ih =>
    rw [List.map_cons, List.map_cons, content_dropReturn, List.cons_append]
    exact ih.imp (congrArg _) (congrArg _)

/-- Reads lines that say `contents`. -/
def readContents (contents : List (List Char)) : Except (List LineError) (List Line) :=
  collect ((contents.zipIdx 1).map fun (content, number) =>
    (Line.ofContent number content).mapError (⟨number, ·⟩))

theorem readAll_eq (source : String) :
    Line.readAll source = readContents ((Text.lines source.toList).map Line.content) := by
  rw [Line.readAll, readContents, List.zipIdx_map, List.map_map]
  refine congrArg (fun reader => collect (List.map reader _)) (funext fun entry => ?_)
  exact congrArg (Except.mapError _) (Line.read_eq_ofContent entry.2 entry.1)

theorem readContents_concat (contents : List (List Char)) :
    readContents (contents ++ [[]]) =
      (readContents contents).map (· ++ [⟨1 + contents.length, [], none⟩]) := by
  rw [readContents, List.zipIdx_append, List.map_append, readContents]
  exact collect_concat_ok _ _

theorem Layout.build_concat (lines : List Line) (number : Nat) :
    build (lines ++ [⟨number, [], none⟩]) = build lines := by
  have hstep (w : Walk) : w.step ⟨number, [], none⟩ = w := by
    simp [Walk.step]
  rw [build, Walk.ofLines, List.foldl_append, List.foldl_cons, List.foldl_nil, hstep]
  rfl

/-- The program of a source that says `contents`. -/
def assembleContents (contents : List (List Char)) : Except (List LineError) Program := do
  let lines ← readContents contents
  let layout ← Layout.build lines
  layout.encode

theorem assembleContents_concat (contents : List (List Char)) :
    assembleContents (contents ++ [[]]) = assembleContents contents := by
  rw [assembleContents, readContents_concat, assembleContents]
  cases readContents contents with
  | error errors => rfl
  | ok lines => exact congrArg (· >>= Layout.encode) (Layout.build_concat lines _)

/-- **A source is assembled from what it says.** -/
theorem assemble_eq (source : String) : assemble source = assembleContents (contents source.toList) := by
  rw [assemble, readAll_eq]
  rcases contents_eq source.toList with hcontents | hcontents
  · rw [hcontents, assembleContents]
  · rw [hcontents, assembleContents_concat, assembleContents]

/-! ## Changes to the formatting -/

/-- A line starts behind the text. -/
def Opens (before : List Char) : Prop := before = [] ∨ ∃ text, before = text ++ ['\n']

/-- A line ends in front of the text. -/
def Closes (after : List Char) : Prop :=
  after = [] ∨ (∃ rest, after = '\n' :: rest) ∨ ∃ rest, after = '\r' :: '\n' :: rest

/-- A text with a carriage return in front of every line feed. -/
def withReturns (text : List Char) : List Char :=
  text.flatMap fun c => if c = '\n' then ['\r', '\n'] else [c]

/-- One change to the formatting of a text. -/
inductive Reformatted : List Char → List Char → Prop
  | line {before line padded after : List Char} (hbefore : Opens before) (hline : '\n' ∉ line)
    (hafter : Closes after) (h : Line.Padded line padded) :
    Reformatted (before ++ line ++ after) (before ++ padded ++ after)
  | returns (text : List Char) : Reformatted text (withReturns text)

theorem Opens.contents {before : List Char} (h : Opens before) :
    ∃ above, ∀ text, contents (before ++ text) = above ++ contents text := by
  rcases h with rfl | ⟨front, rfl⟩
  · exact ⟨[], fun text => rfl⟩
  · refine ⟨Accumulator.contents front, fun text => ?_⟩
    rw [List.append_assoc, List.singleton_append, contents_append]

theorem Closes.contents {after : List Char} (h : Closes after) :
    ∃ below, ∀ line, '\n' ∉ line → contents (line ++ after) = Line.content line :: below := by
  rcases h with rfl | ⟨rest, rfl⟩ | ⟨rest, rfl⟩
  · refine ⟨[], fun line hline => ?_⟩
    rw [List.append_nil, contents_of_line hline]
  · refine ⟨Accumulator.contents rest, fun line hline => ?_⟩
    rw [contents_append, contents_of_line hline]
    rfl
  · refine ⟨Accumulator.contents rest, fun line hline => ?_⟩
    have hreturn : '\n' ∉ line ++ ['\r'] := by simpa using hline
    rw [List.append_cons, contents_append, contents_of_line hreturn,
      Line.content_append_blanks (by decide)]
    rfl

theorem withReturns_of_line {line : List Char} (h : '\n' ∉ line) : withReturns line = line := by
  induction line with
  | nil => rfl
  | cons c line ih =>
    rw [List.mem_cons, not_or] at h
    rw [withReturns, List.flatMap_cons, if_neg (Ne.symm h.1)]
    exact congrArg _ (ih h.2)

theorem contents_withReturns (text : List Char) : contents (withReturns text) = contents text := by
  induction text using Text.split_induction (· == '\n') with
  | last line hline => rw [withReturns_of_line (Text.newline_free_iff.mp hline)]
  | next line c rest hline hc ih =>
    obtain rfl := beq_iff_eq.mp hc
    have hnewline : '\n' ∉ line := Text.newline_free_iff.mp hline
    have hreturn : '\n' ∉ line ++ ['\r'] := by simpa using hnewline
    have hreturns : withReturns (line ++ '\n' :: rest) = line ++ ['\r'] ++ '\n' :: withReturns rest := by
      have hline : line.flatMap _ = line := withReturns_of_line hnewline
      rw [withReturns, List.flatMap_append, List.flatMap_cons, hline, if_pos rfl, List.append_assoc]
      rfl
    rw [hreturns, contents_append, contents_append, ih, contents_of_line hreturn,
      contents_of_line hnewline, Line.content_append_blanks (by decide)]

/-- **A change to the formatting leaves what the text says.** -/
theorem Reformatted.contents_eq {text text' : List Char} (h : Reformatted text text') :
    contents text' = contents text := by
  cases h with
  | returns => exact contents_withReturns text
  | line hbefore hline hafter h =>
    obtain ⟨above, habove⟩ := hbefore.contents
    obtain ⟨below, hbelow⟩ := hafter.contents
    rw [List.append_assoc, List.append_assoc, habove, habove, hbelow _ hline,
      hbelow _ (h.newline_not_mem hline), h.content_eq]

theorem contents_of_reformatted {text text' : List Char}
    (h : Relation.ReflTransGen Reformatted text text') : contents text' = contents text := by
  induction h with
  | refl => rfl
  | tail _ hlast ih => exact hlast.contents_eq.trans ih

/-- **The formatting of a source makes no difference**, neither to its program nor to its errors. -/
theorem assemble_of_reformatted {source source' : String}
    (h : Relation.ReflTransGen Reformatted source.toList source'.toList) :
    assemble source' = assemble source := by
  rw [assemble_eq, assemble_eq, contents_of_reformatted h]

/-- A comment behind the first line, carriage returns, and a tab in front of the second line. -/
theorem assemble_halt_of_reformatted :
    Relation.ReflTransGen Reformatted "NOP\nHALT".toList "NOP;:\r\n\tHALT".toList ∧
      assemble "NOP;:\r\n\tHALT" = assemble "NOP\nHALT" := by
  have hcommented : Reformatted "NOP\nHALT".toList "NOP;:\nHALT".toList :=
    @Reformatted.line [] ['N', 'O', 'P'] _ ['\n', 'H', 'A', 'L', 'T'] (.inl rfl) (by decide)
      (.inr (.inl ⟨_, rfl⟩)) (@Line.Padded.commented _ [':'] (by decide))
  have hreturns : Reformatted "NOP;:\nHALT".toList "NOP;:\r\nHALT".toList := .returns _
  have hindented : Reformatted "NOP;:\r\nHALT".toList "NOP;:\r\n\tHALT".toList :=
    @Reformatted.line ['N', 'O', 'P', ';', ':', '\r', '\n'] ['H', 'A', 'L', 'T'] _ []
      (.inr ⟨['N', 'O', 'P', ';', ':', '\r'], rfl⟩) (by decide) (.inl rfl)
      (@Line.Padded.indented _ ['\t'] (by decide) (by decide))
  have hsource : Relation.ReflTransGen Reformatted "NOP\nHALT".toList "NOP;:\r\n\tHALT".toList :=
    ((Relation.ReflTransGen.single hcommented).tail hreturns).tail hindented
  exact ⟨hsource, assemble_of_reformatted hsource⟩

end Accumulator
