import Accumulator.Proofs.Source.Grammar

/-!
# Lines are read as they are written

The reader of a line against its grammar, piece by piece: each token keeps its characters, since none of
them separates anything.

* `Statement.ofParts_of_spells`, `Statement.read_written` — the statement.
* `Line.read_of_written` — the line, with exactly the labels and the statement that were written.
-/

namespace Accumulator

open Text (Blank isBlank split fields trim Stops Firm)

/-! ## Operands are read as they are written -/

theorem le_toNat_of_startsIdentifier {c : Char} (h : startsIdentifier c = true) : 65 ≤ c.toNat := by
  rw [startsIdentifier, Bool.or_eq_true, beq_iff_eq] at h
  rcases h with halpha | rfl
  · exact (toNat_of_isAlpha halpha).1
  · decide

namespace Immediate

variable {text : List Char} {value : Immediate}

/-- A literal starts with a digit, a name with another character of names. -/
theorem Spells.le_head (h : Spells text value) : ∃ head rest, text = head :: rest ∧ 48 ≤ head.toNat := by
  cases h with
  | literal h =>
    obtain ⟨c, rest, rfl, hc⟩ := h.exists_head
    exact ⟨c, rest, rfl, (toNat_of_isDigit hc).1⟩
  | label h =>
    obtain ⟨head, rest, rfl⟩ := List.exists_cons_of_ne_nil (isToken_of_isIdentifier h).nonempty
    have hhead := le_toNat_of_startsIdentifier (Bool.and_eq_true_iff.mp h).1
    exact ⟨head, rest, rfl, (show 48 ≤ 65 by decide).trans hhead⟩

theorem read?_of_spells (h : Spells text value) : read? text = some value := by
  cases h with
  | literal h hvalue =>
    have hread := Numeral.read?_of_spells h hvalue
    obtain ⟨c, rest, rfl, hc⟩ := h.exists_head
    rw [read?, if_pos hc, hread]
    rfl
  | label h =>
    obtain ⟨head, rest, rfl⟩ := List.exists_cons_of_ne_nil (isToken_of_isIdentifier h).nonempty
    have hdigit : ¬head.isDigit = true := fun hdigit => by
      have hhead := le_toNat_of_startsIdentifier (Bool.and_eq_true_iff.mp h).1
      have hrange := toNat_of_isDigit hdigit
      omega
    rw [read?, if_neg hdigit, if_pos h]

theorem readNarrow?_of_spells (h : Spells text value) (fits : value.fitsAddress = true) :
    readNarrow? text = some value := by
  rw [readNarrow?, read?_of_spells h, Option.filter_some, if_pos fits]

end Immediate

/-- A small numeral is read as its value. -/
theorem Numeral.toNat_read?_of_spells {text : List Char} {value : Nat} (h : Spells text value)
    (hvalue : value ≤ 0xFFFF) : (read? text).map UInt32.toNat = some value := by
  have hword : value < UInt32.size := Nat.lt_of_le_of_lt hvalue (by decide)
  rw [read?_of_spells h hword, Option.map_some, UInt32.toNat_ofNat_of_lt' hword]

namespace Argument

theorem readPort?_of_spells {text : List Char} {value : Nat} (h : Numeral.Spells text value)
    (hvalue : value ≤ 255) : readPort? text = some (.port (UInt8.ofNat value)) := by
  obtain ⟨word, hword, hvalue'⟩ := Option.map_eq_some_iff.mp
    (Numeral.toNat_read?_of_spells h (hvalue.trans (by decide)))
  rw [readPort?, hword, Option.bind_some, hvalue', Port.ofNat?, if_pos (Nat.lt_succ_of_le hvalue),
    Option.map_some]

theorem readAddress?_of_spells {text : List Char} {argument : Argument} (h : Spells text argument) :
    readAddress? text = some argument := by
  cases h with
  | absolute h fits => rw [readAddress?, Immediate.readNarrow?_of_spells h fits, Option.map_some]
  | indirect h fits =>
    rw [readAddress?, List.getLast?_concat, List.dropLast_concat,
      Immediate.readNarrow?_of_spells h fits]
    rfl
  | relative h fits =>
    obtain ⟨head, rest, htext, hhead⟩ := h.le_head
    unfold readAddress?
    split
    · cases htext
      exact absurd hhead (by decide)
    · cases htext
      exact absurd hhead (by decide)
    · rw [Immediate.readNarrow?_of_spells h fits, Option.map_some]

end Argument

/-! ## Statements are read as they are written -/

theorem readArgument_of_eq_some {α : Type} {reader : List Char → Option α} {text : List Char} {value : α}
    (h : reader text = some value) (role : ArgumentRole) : readArgument reader role text = .ok value := by
  rw [readArgument, h]

namespace Code

theorem read_of_immediate {operation text : List Char} {name : String} {opcode : Opcode}
    {value : Immediate} (hname : Names operation name)
    (hopcode : immediateOperation? name = some opcode) (h : Immediate.Spells text value)
    (fits : value.fitsAddress = true) : read operation [text] = .ok ⟨opcode, .immediate value⟩ := by
  have hread : Argument.readImmediate? text = some (.immediate value) := by
    rw [Argument.readImmediate?, Immediate.readNarrow?_of_spells h fits, Option.map_some]
  rw [read, show String.ofList (operation.map Char.toUpper) = name from hname, hopcode]
  exact Except.bind_eq_ok.mpr ⟨text, rfl, Except.bind_eq_ok.mpr
    ⟨_, readArgument_of_eq_some hread .immediate, rfl⟩⟩

theorem read_of_named {operation : List Char} {arguments : List (List Char)} {opcode : Opcode}
    {argument : Argument} (h : opcode.Named operation)
    (hargument : readOperand opcode.operandKind operation arguments = .ok argument) :
    read operation arguments = .ok ⟨opcode, argument⟩ := by
  obtain ⟨name, hmem, hname⟩ := h
  obtain ⟨-, -, himmediate, hfind⟩ := opcode.names_all name hmem
  have hname : String.ofList (operation.map Char.toUpper) = name := hname
  have hopcode : Opcode.ofMnemonic? operation = some opcode := by
    rw [Opcode.ofMnemonic?, hname]
    exact hfind
  rw [read, hname, himmediate, hopcode]
  exact Except.bind_eq_ok.mpr ⟨argument, hargument, rfl⟩

end Code

namespace Statement

variable {operation : List Char} {arguments : List (List Char)}

theorem ofParts_of_code {name : String} {code : Code} (hname : Names operation name)
    (hne : name ≠ "ORG" ∧ name ≠ "WORD") (h : Code.read operation arguments = .ok code) :
    ofParts operation arguments = .ok (.instruction code) := by
  have hname : String.ofList (operation.map Char.toUpper) = name := hname
  unfold ofParts
  split
  · next horg => exact absurd (hname.symm.trans horg) hne.1
  · next hword => exact absurd (hname.symm.trans hword) hne.2
  · exact Except.bind_eq_ok.mpr ⟨code, h, rfl⟩

theorem ofParts_of_named {opcode : Opcode} {argument : Argument} (hname : opcode.Named operation)
    (h : Code.readOperand opcode.operandKind operation arguments = .ok argument) :
    ofParts operation arguments = .ok (.instruction ⟨opcode, argument⟩) := by
  have hread := Code.read_of_named hname h
  obtain ⟨name, hmem, hname⟩ := hname
  exact ofParts_of_code hname (opcode.names_all name hmem).2.1 hread

theorem readOrigin?_of_spells {text : List Char} {value : Nat} (h : Numeral.Spells text value)
    (hvalue : value ≤ 0xFFFF) : readOrigin? text = some (UInt16.ofNat value) := by
  obtain ⟨word, hword, hvalue'⟩ := Option.map_eq_some_iff.mp (Numeral.toNat_read?_of_spells h hvalue)
  have hspace : value < addressSpace := Nat.lt_succ_of_le hvalue
  rw [readOrigin?, hword, Option.bind_some, hvalue', Address.ofNat?, if_pos hspace]

theorem mapM_of_spells {items : List Immediate} (h : List.Forall₂ Immediate.Spells arguments items) :
    arguments.mapM (readArgument Immediate.read? .word) = .ok items := by
  rw [mapM_eq_ok_iff]
  induction h with
  | nil => rfl
  | cons hitem _ ih =>
    rw [List.map_cons, List.map_cons, ih, readArgument_of_eq_some (Immediate.read?_of_spells hitem) .word]

theorem ofParts_of_words {items : List Immediate} (hname : Names operation "WORD") (hitems : items ≠ [])
    (h : List.Forall₂ Immediate.Spells arguments items) :
    ofParts operation arguments = .ok (.words items) := by
  have hread := mapM_of_spells h
  unfold ofParts
  rw [show String.ofList (operation.map Char.toUpper) = "WORD" from hname]
  cases h with
  | nil => exact absurd rfl hitems
  | cons => exact Except.bind_eq_ok.mpr ⟨_, hread, rfl⟩

/-- **A statement is read from its operation and its arguments as it is spelled.** -/
theorem ofParts_of_spells {statement : Statement} (h : Spells operation arguments statement) :
    ofParts operation arguments = .ok statement := by
  cases h with
  | origin hname h hvalue =>
    have hread := readArgument_of_eq_some (readOrigin?_of_spells h hvalue) .address
    unfold ofParts
    rw [show String.ofList (operation.map Char.toUpper) = "ORG" from hname]
    exact Except.bind_eq_ok.mpr ⟨_, rfl, Except.bind_eq_ok.mpr ⟨_, hread, rfl⟩⟩
  | words hname hitems h => exact ofParts_of_words hname hitems h
  | bare hname hkind => exact ofParts_of_named hname (by rw [hkind]; rfl)
  | port hname hkind h hvalue =>
    have hread := readArgument_of_eq_some (Argument.readPort?_of_spells h hvalue) .port
    refine ofParts_of_named hname ?_
    rw [hkind]
    exact Except.bind_eq_ok.mpr ⟨_, rfl, hread⟩
  | immediate hname hopcode h fits =>
    obtain ⟨-, hne, himmediate⟩ := immediateNames_all _ hopcode
    exact ofParts_of_code hname hne (Code.read_of_immediate hname himmediate h fits)
  | address hname hkind h =>
    have hread := readArgument_of_eq_some (Argument.readAddress?_of_spells h) .address
    refine ofParts_of_named hname ?_
    rcases List.mem_pair.mp hkind with hkind | hkind
    · rw [hkind]
      exact Except.bind_eq_ok.mpr ⟨_, rfl, hread⟩
    · rw [hkind]
      exact Except.bind_eq_ok.mpr ⟨_, rfl, hread⟩

/-! ### Arguments and the blanks between them -/

/-- The arguments are what stands between the separators. -/
theorem Separated.fields_eq {text : List Char} (h : Separated arguments text)
    (htokens : ∀ argument ∈ arguments, IsToken argument) : fields separatesArguments text = arguments := by
  have hfree {argument : List Char} (hargument : IsToken argument) :
      ∀ c ∈ argument, separatesArguments c = false := fun c hc =>
    separatesArguments_of_isTokenChar (hargument.chars c hc)
  induction h with
  | last argument =>
    have htoken := htokens argument List.mem_cons_self
    exact Text.fields_of_free htoken.nonempty (hfree htoken)
  | @cons argument separators arguments text hne hseparators h ih =>
    rw [List.forall_mem_cons] at htokens
    have hall : ∀ c ∈ separators, separatesArguments c = true := by
      intro c hc
      rw [separatesArguments, Bool.or_eq_true]
      exact (hseparators c hc).imp_left beq_iff_eq.mpr
    obtain ⟨c, separators, rfl⟩ := List.exists_cons_of_ne_nil hne
    rw [List.forall_mem_cons] at hall
    rw [List.append_assoc, List.cons_append,
      Text.fields_append htokens.1.nonempty (hfree htokens.1) hall.1,
      Text.fields_separators_append hall.2, ih htokens.2]

theorem Separated.firm {text : List Char} (h : Separated arguments text)
    (htokens : ∀ argument ∈ arguments, IsToken argument) : Firm text := by
  induction h with
  | last argument => exact (htokens argument List.mem_cons_self).firm
  | cons argument hne hseparators h ih => exact (ih (List.forall_mem_cons.mp htokens).2).append_left _

/-- A statement ends its operation at the first blank. -/
theorem read_of_operation {tail : List Char} (hoperation : IsToken operation)
    (htail : Stops (fun c => !isBlank c) tail) (hfirm : Firm (operation ++ tail)) :
    read (operation ++ tail) = (ofParts operation (fields separatesArguments tail)).map some := by
  have hletters : ∀ c ∈ operation, (!isBlank c) = true := fun c hc => by
    rw [isBlank_of_isTokenChar (hoperation.chars c hc)]
    rfl
  unfold read
  rw [trim_of_firm (hoperation.stops_isBlank tail) hfirm]
  split
  · next hnil => exact absurd (List.append_eq_nil_iff.mp hnil).1 hoperation.nonempty
  · rw [Text.takeWhile_append_of_stops hletters htail, Text.dropWhile_append_of_stops hletters htail]
    rfl

theorem read_surround {front back : List Char} (hfront : Blank front) (hback : Blank back)
    (text : List Char) : read (front ++ text ++ back) = read text := by
  rw [read, Text.trim_surround hfront hback, read]

/-- **A statement is read as it is written.** -/
theorem read_written {text : List Char} {statement : Option Statement} (h : Written text statement) :
    read text = .ok statement := by
  cases h with
  | nothing => rfl
  | alone h =>
    have hoperation := h.isToken.1
    have hread := read_of_operation hoperation Text.stops_nil
      (by rw [List.append_nil]; exact hoperation.firm)
    rw [List.append_nil] at hread
    rw [hread]
    change (ofParts text []).map some = _
    rw [ofParts_of_spells h]
    rfl
  | @applied operation blanks text arguments statement h hne hblanks htext =>
    obtain ⟨hoperation, harguments⟩ := h.isToken
    have htail : Stops (fun c => !isBlank c) (blanks ++ text) := by
      obtain ⟨c, rest, rfl⟩ := List.exists_cons_of_ne_nil hne
      exact Text.stops_cons.mpr (by rw [hblanks c List.mem_cons_self]; rfl)
    have hseparators : ∀ c ∈ blanks, separatesArguments c = true := fun c hc => by
      rw [separatesArguments, hblanks c hc, Bool.or_true]
    have hfirm : Firm (operation ++ (blanks ++ text)) :=
      ((htext.firm harguments).append_left _).append_left _
    rw [List.append_assoc, read_of_operation hoperation htail hfirm,
      Text.fields_separators_append hseparators, htext.fields_eq harguments, ofParts_of_spells h]
    rfl

end Statement

/-! ## Lines are read as they are written -/

/-- A character that starts no comment and ends no label. -/
def isPlain (c : Char) : Bool := isTokenChar c || Statement.separatesArguments c

theorem isPlain_of_isBlank {c : Char} (h : isBlank c = true) : isPlain c = true := by
  rw [isPlain, Statement.separatesArguments, h, Bool.or_true, Bool.or_true]

theorem IsToken.plain {text : List Char} (h : IsToken text) : ∀ c ∈ text, isPlain c = true := fun c hc => by
  rw [isPlain, h.chars c hc, Bool.true_or]

theorem plain_surround {front text back : List Char} (hfront : Blank front)
    (h : ∀ c ∈ text, isPlain c = true) (hback : Blank back) :
    ∀ c ∈ front ++ text ++ back, isPlain c = true :=
  List.forall_mem_append.mpr ⟨List.forall_mem_append.mpr ⟨fun c hc => isPlain_of_isBlank (hfront c hc), h⟩,
    fun c hc => isPlain_of_isBlank (hback c hc)⟩

theorem Statement.Written.plain {text : List Char} {statement : Option Statement}
    (h : Written text statement) : ∀ c ∈ text, isPlain c = true := by
  cases h with
  | nothing => nofun
  | alone h => exact h.isToken.1.plain
  | applied h hne hblanks htext =>
    obtain ⟨hoperation, harguments⟩ := h.isToken
    refine List.forall_mem_append.mpr ⟨List.forall_mem_append.mpr ⟨hoperation.plain, fun c hc =>
      isPlain_of_isBlank (hblanks c hc)⟩, ?_⟩
    clear h
    induction htext with
    | last argument => exact (harguments argument List.mem_cons_self).plain
    | cons argument hne hseparators htext ih =>
      rw [List.forall_mem_cons] at harguments
      refine List.forall_mem_append.mpr ⟨List.forall_mem_append.mpr ⟨harguments.1.plain, fun c hc => ?_⟩,
        ih harguments.2⟩
      rcases hseparators c hc with rfl | hblank
      · decide
      · exact isPlain_of_isBlank hblank

namespace Line

theorem stripComment_of_free {text : List Char} (h : ∀ c ∈ text, c ≠ ';' ∧ c ≠ '/') :
    stripComment text = text := by
  induction text with
  | nil => rfl
  | cons c text ih =>
    rw [List.forall_mem_cons] at h
    rw [stripComment, ih h.2]
    · exact h.1.1
    · rintro rest rfl
      exact absurd rfl h.1.2

theorem readLabel_of_isIdentifier {front name back : List Char} (hfront : Blank front)
    (hname : isIdentifier name = true) (hback : Blank back) :
    readLabel (front ++ name ++ back) = .ok (String.ofList name) := by
  have htoken := isToken_of_isIdentifier hname
  have htrim : trim name = name :=
    trim_of_firm (by simpa using htoken.stops_isBlank []) htoken.firm
  rw [readLabel, Text.trim_surround hfront hback, htrim, if_pos hname]

variable {text : List Char} {labels : List String} {statement : Option Statement}

/-- A written line holds no comment. -/
theorem Written.forall_mem (h : Written text labels statement) : ∀ c ∈ text, isPlain c = true ∨ c = ':' := by
  induction h with
  | statement hfront h hback => exact fun c hc => .inl (plain_surround hfront h.plain hback c hc)
  | label hfront hname hback h ih =>
    have hlabel := plain_surround hfront (isToken_of_isIdentifier hname).plain hback
    exact List.forall_mem_append.mpr ⟨fun c hc => .inl (hlabel c hc), List.forall_mem_cons.mpr ⟨.inr rfl, ih⟩⟩

/-- The pieces between the colons of a written line are its labels and its statement. -/
theorem Written.split_eq (h : Written text labels statement) : ∃ front last,
    split (· == ':') text = front ++ [last] ∧ front.mapM readLabel = .ok labels ∧
      Statement.read last = .ok statement := by
  have hcolon {c : Char} (hc : isPlain c = true) : (c == ':') = false := by
    refine beq_false_of_ne ?_
    rintro rfl
    exact absurd hc (by decide)
  induction h with
  | @statement front text back statement hfront h hback =>
    have hfree : ∀ c ∈ front ++ text ++ back, (c == ':') = false := fun c hc =>
      hcolon (plain_surround hfront h.plain hback c hc)
    refine ⟨[], _, Text.split_of_free hfree, rfl, ?_⟩
    rw [Statement.read_surround hfront hback, Statement.read_written h]
  | @label front name back rest labels statement hfront hname hback h ih =>
    obtain ⟨pieces, last, hsplit, hlabels, hstatement⟩ := ih
    have hfree : ∀ c ∈ front ++ name ++ back, (c == ':') = false := fun c hc =>
      hcolon (plain_surround hfront (isToken_of_isIdentifier hname).plain hback c hc)
    refine ⟨(front ++ name ++ back) :: pieces, last, ?_, ?_, hstatement⟩
    · rw [Text.split_append hfree (beq_self_eq_true ':'), hsplit, List.cons_append]
    · rw [List.mapM_cons, readLabel_of_isIdentifier hfront hname hback, hlabels]
      rfl

/-- **A line is read as it is written**: as exactly the labels and the statement in it, whatever the letter
case of its operation, the radix and the underscores of its numerals, and the blanks and commas are. -/
theorem read_of_written (h : Written text labels statement) (number : Nat) :
    read number text = .ok ⟨number, labels, statement⟩ := by
  obtain ⟨front, last, hsplit, hlabels, hstatement⟩ := h.split_eq
  have hstrip : stripComment text = text := by
    refine stripComment_of_free fun c hc => ?_
    rcases h.forall_mem c hc with hplain | rfl
    · refine ⟨?_, ?_⟩ <;> rintro rfl <;> exact absurd hplain (by decide)
    · decide
  have hlast : (front ++ [last]).getLastD [] = last := by simp
  rw [read, hstrip, hsplit, List.dropLast_concat, hlast]
  exact Except.bind_eq_ok.mpr ⟨labels, hlabels, Except.bind_eq_ok.mpr ⟨statement, hstatement, rfl⟩⟩

/-- A label with a blank before its colon, an operation in mixed case, and a numeral with an underscore. -/
theorem read_of_written_indirect :
    Line.Written " x :\tLoad (0x1_F) ".toList ["x"]
        (some (.instruction ⟨.load, .address .indirect (.literal 31)⟩)) ∧
      Line.read 7 " x :\tLoad (0x1_F) ".toList =
        .ok ⟨7, ["x"], some (.instruction ⟨.load, .address .indirect (.literal 31)⟩)⟩ := by
  have hone : IsDigit 16 '1' 1 := ⟨by decide, .inl rfl⟩
  have hfifteen : IsDigit 16 'F' 15 := ⟨by decide, .inr (by decide)⟩
  have hdigits : Numeral.Digits 16 ['1', '_', 'F'] 31 := .more (.one hone) 1 hfifteen
  have hliteral : Immediate.Spells ['0', 'x', '1', '_', 'F'] (.literal 31) :=
    .literal (.marked (by decide) hdigits) (by decide)
  have hstatement : Statement.Written ("Load".toList ++ [' '] ++ "(0x1_F)".toList)
      (some (.instruction ⟨.load, .address .indirect (.literal 31)⟩)) :=
    .applied (.address ⟨"LOAD", by decide, rfl⟩ (by decide) (.indirect hliteral (by decide)))
      (by decide) (by decide) (.last _)
  have hline : Line.Written " x :\tLoad (0x1_F) ".toList ["x"] _ :=
    @Line.Written.label [' '] ['x'] [' '] _ _ _ (by decide) (by decide) (by decide)
      (@Line.Written.statement ['\t'] _ [' '] _ (by decide) hstatement (by decide))
  exact ⟨hline, read_of_written hline 7⟩

end Line

end Accumulator
