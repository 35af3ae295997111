import Accumulator.Proofs.CommandLine.Words

/-!
# Which arguments are accepted

* `Grammar.parseFrom_of_reads` — well-formed arguments are read, one after the other.
* `Grammar.justified` — arguments that are read are well-formed.
* `Grammar.parse_eq_ok_iff` — the arguments that are accepted are the well-formed ones, and they are
  sorted as they are meant.
-/

namespace Accumulator.Grammar

variable {g : Grammar} {sorted found : Arguments} {argument : String} {option : OptionSpec}
  {said : Arguments × Option OptionSpec}

/-! ## One argument after the other -/

variable {rest : List String}

theorem parseFrom_operand (g : Grammar) (sorted : Arguments) {text : String} (h : IsOperand text)
    (rest : List String) :
    g.parseFrom sorted none (text :: rest) =
      (do g.parseFrom (← g.addOperand sorted text) none rest) := by
  obtain ⟨-, rfl | hhead⟩ := h
  · rfl
  · conv => lhs; unfold parseFrom
    split
    · contradiction
    · contradiction
    · next hdashes => exact absurd (by rw [hdashes]; rfl) hhead
    · next hdashes => exact absurd (by rw [hdashes]; rfl) hhead
    · next hdash => exact absurd (by rw [hdash]; rfl) hhead
    · rfl

theorem parseFrom_name {text : List Char} (hargument : argument.toList = '-' :: '-' :: text)
    (htext : text ≠ []) : g.parseFrom sorted none (argument :: rest) =
      (g.addName argument sorted text >>= fun said => g.parseFrom said.1 said.2 rest) := by
  conv => lhs; unfold parseFrom
  split
  · contradiction
  · contradiction
  · next hdashes =>
    rw [hargument] at hdashes
    exact absurd (List.cons.inj (List.cons.inj hdashes).2).2 htext
  · next hdashes =>
    rw [hargument] at hdashes
    cases hdashes
    rfl
  · next hnot _ hdash =>
    rw [hargument] at hdash
    cases hdash
    exact absurd rfl hnot
  · next hnot => exact (hnot _ _ hargument).elim

theorem parseFrom_letters {letter : Char} {letters : List Char}
    (hargument : argument.toList = '-' :: letter :: letters) (hletter : letter ≠ '-') :
    g.parseFrom sorted none (argument :: rest) =
      (g.addLetters argument sorted (letter :: letters) >>= fun said => g.parseFrom said.1 said.2 rest) := by
  conv => lhs; unfold parseFrom
  split
  · contradiction
  · contradiction
  · next hdashes =>
    rw [hargument] at hdashes
    cases hdashes
    exact absurd rfl hletter
  · next hdashes =>
    rw [hargument] at hdashes
    cases hdashes
    exact absurd rfl hletter
  · next hdash =>
    rw [hargument] at hdash
    cases hdash
    rfl
  · next hnot => exact (hnot _ _ hargument).elim

theorem parseFrom_opened {value : String} (hvalue : value = "" ∨ IsOperand value) :
    g.parseFrom sorted (some option) (value :: rest) =
      (addValue sorted option value >>= fun sorted => g.parseFrom sorted none rest) := by
  have hplain (letter : Char) (letters : List Char) : value.toList ≠ '-' :: letter :: letters := by
    rcases hvalue with rfl | hvalue
    · nofun
    · exact hvalue.no_option letter letters
  conv => lhs; unfold parseFrom
  split
  · next hdash => exact absurd hdash (hplain _ _)
  · next heq _ =>
    cases heq
    rfl
  · contradiction
  · contradiction
  · contradiction
  · contradiction

/-- What a word that starts with two dashes says is read. -/
theorem parseFrom_of_saysName (hs : g.Sane) {text : List Char}
    (hargument : argument.toList = '-' :: '-' :: text) (htext : text ≠ [])
    (h : g.SaysName sorted text said) (rest : List String) :
    g.parseFrom sorted none (argument :: rest) = g.parseFrom said.1 said.2 rest := by
  rw [parseFrom_name hargument htext, (addName_eq_ok_iff hs).mpr h]
  rfl

/-- What letters behind one dash say is read. -/
theorem parseFrom_of_saysLetters (hs : g.Sane) {letter : Char} {letters : List Char}
    (hargument : argument.toList = '-' :: letter :: letters) (hletter : letter ≠ '-')
    (h : g.SaysLetters sorted (letter :: letters) said) (rest : List String) :
    g.parseFrom sorted none (argument :: rest) = g.parseFrom said.1 said.2 rest := by
  rw [parseFrom_letters hargument hletter, (addLetters_eq_ok_iff hs).mpr h]
  rfl

theorem Sane.letter_ne (hs : g.Sane) {letter : Char} (hoption : option ∈ g.options)
    (hletter : option.letter = some letter) : letter ≠ '-' := by
  rintro rfl
  exact hs.free option hoption (by rw [hletter]; decide)

theorem Sane.name_ne (hs : g.Sane) (hoption : option ∈ g.options) (more : List Char) :
    option.name.toList ++ more ≠ [] := by
  intro hnil
  have hname := (List.append_eq_nil_iff.mp hnil).1
  exact (hs.plain option hoption).1 (String.toList_injective hname)

/-- A switch is read. -/
theorem parseFrom_switch (hs : g.Sane) {word : String} (hoption : option ∈ g.options)
    (hswitch : option.isSwitch = true) (hword : option.Names word) (hunset : sorted.Unset option)
    (rest : List String) :
    g.parseFrom sorted none (word :: rest) = g.parseFrom (sorted.withSwitch option) none rest := by
  cases hword with
  | long =>
    have hname := hs.name_ne hoption []
    rw [List.append_nil] at hname
    exact parseFrom_of_saysName hs String.toList_append hname (.switch hoption hswitch hunset) rest
  | short hletter =>
    exact parseFrom_of_saysLetters hs String.toList_ofList (hs.letter_ne hoption hletter)
      (.switch hoption hswitch hletter hunset .done) rest

/-- A word for an option with a value leaves it open what the value is. -/
theorem parseFrom_open (hs : g.Sane) {word : String} (hoption : option ∈ g.options)
    (hswitch : option.isSwitch = false) (hword : option.Names word) (rest : List String) :
    g.parseFrom sorted none (word :: rest) = g.parseFrom sorted (some option) rest := by
  cases hword with
  | long =>
    have hname := hs.name_ne hoption []
    rw [List.append_nil] at hname
    exact parseFrom_of_saysName hs String.toList_append hname (.opened hoption hswitch) rest
  | short hletter =>
    exact parseFrom_of_saysLetters hs String.toList_ofList (hs.letter_ne hoption hletter)
      (.opened hoption hswitch hletter) rest

/-- A value is read, in whichever way it is given. -/
theorem parseFrom_value (hs : g.Sane) {value : String} {words : List String}
    (hoption : option ∈ g.options) (hswitch : option.isSwitch = false) (hwords : option.Gives value words)
    (htakes : sorted.Takes option value) (rest : List String) :
    g.parseFrom sorted none (words ++ rest) = g.parseFrom (sorted.withValue option value) none rest := by
  cases hwords with
  | apart hword hvalue =>
    rw [List.cons_append, List.singleton_append, parseFrom_open hs hoption hswitch hword,
      parseFrom_opened hvalue, addValue_eq_ok_iff.mpr ⟨htakes, rfl⟩]
    rfl
  | joined hword =>
    rw [← String.ofList_toList (s := value)] at htakes
    cases hword with
    | long =>
      have hargument : ("--" ++ option.name ++ "=" ++ value).toList =
          '-' :: '-' :: (option.name.toList ++ '=' :: value.toList) := by simp
      rw [List.singleton_append, parseFrom_of_saysName hs hargument (hs.name_ne hoption _)
        (.joined hoption hswitch htakes), String.ofList_toList]
    | @short letter hletter =>
      have hargument : (String.ofList ['-', letter] ++ "=" ++ value).toList =
          '-' :: letter :: '=' :: value.toList := by simp
      rw [List.singleton_append, parseFrom_of_saysLetters hs hargument (hs.letter_ne hoption hletter)
        (.joined hoption hswitch hletter htakes), String.ofList_toList]
  | @attached letter first rest hletter hvalue hfirst =>
    have hargument : (String.ofList ['-', letter] ++ value).toList = '-' :: letter :: first :: rest := by
      simp [hvalue]
    obtain rfl : String.ofList (first :: rest) = value := by rw [← hvalue, String.ofList_toList]
    rw [List.singleton_append, parseFrom_of_saysLetters hs hargument (hs.letter_ne hoption hletter)
      (.attached hoption hswitch hletter hfirst htakes)]

/-- Further arguments only add operands. -/
theorem Reads.operands_le {arguments : List String} (h : g.Reads sorted arguments found) :
    sorted.operands.length ≤ found.operands.length := by
  have hadded (sorted : Arguments) (texts : List String) :
      (sorted.withOperands texts).operands.length = sorted.operands.length + texts.length :=
    List.length_append
  induction h with
  | done => exact Nat.le_refl _
  | separator htexts =>
    rw [hadded]
    exact Nat.le_add_right _ _
  | operand htext h ih =>
    rw [hadded] at ih
    exact (Nat.le_add_right _ _).trans ih
  | switch _ _ _ _ _ ih | value _ _ _ _ _ ih | letters _ _ _ _ _ _ ih => exact ih

/-- **Well-formed arguments are read**, as long as there is room for the operands. -/
theorem parseFrom_of_reads (hs : g.Sane) {arguments : List String} (h : g.Reads sorted arguments found)
    (hroom : found.operands.length ≤ g.places) : g.parseFrom sorted none arguments = .ok found := by
  induction h with
  | done => rfl
  | @separator sorted operands htexts =>
    have hlength : (sorted.withOperands operands).operands.length =
        sorted.operands.length + operands.length := List.length_append
    exact (foldlM_addOperand_eq_ok_iff (by omega)).mpr ⟨by omega, htexts, rfl⟩
  | @operand sorted found text rest htext h ih =>
    have hlength : (sorted.withOperands [text]).operands.length = sorted.operands.length + 1 :=
      List.length_append
    have hle := h.operands_le
    rw [parseFrom_operand _ _ htext, addOperand_eq_ok_iff.mpr ⟨by omega, htext.1, rfl⟩]
    exact ih hroom
  | switch hoption hswitch hword hunset h ih =>
    rw [parseFrom_switch hs hoption hswitch hword hunset]
    exact ih hroom
  | value hoption hswitch hwords htakes h ih =>
    rw [parseFrom_value hs hoption hswitch hwords htakes]
    exact ih hroom
  | @letters sorted found option letter next letters rest hoption hswitch hletter hunset hnext h ih =>
    -- The letters behind the switch say the same behind a dash of their own.
    have hbehind := ih hroom
    rw [parseFrom_letters String.toList_ofList hnext] at hbehind
    obtain ⟨said, hsaid, hrest⟩ := Except.bind_eq_ok.mp hbehind
    have hmeant := (addLetters_eq_ok_iff hs).mp hsaid
    rw [parseFrom_of_saysLetters hs String.toList_ofList (hs.letter_ne hoption hletter)
      (.switch hoption hswitch hletter hunset hmeant)]
    exact hrest

/-! ## Arguments that are accepted -/

/-- Further arguments are well-formed if they are accepted. -/
def Justified (g : Grammar) (arguments : List String) : Prop :=
  ∀ sorted found, g.parseFrom sorted none arguments = .ok found → sorted.operands.length ≤ g.places →
    g.Reads sorted arguments found ∧ found.operands.length ≤ g.places

/-- Behind a word for an option stands the value. -/
theorem Justified.value (hjustified : ∀ more, more.length ≤ rest.length → g.Justified more)
    {word : String} (hoption : option ∈ g.options) (hswitch : option.isSwitch = false)
    (hword : option.Names word) (hroom : sorted.operands.length ≤ g.places)
    (h : g.parseFrom sorted (some option) rest = .ok found) :
    g.Reads sorted (word :: rest) found ∧ found.operands.length ≤ g.places := by
  cases rest with
  | nil => cases h
  | cons value rest =>
    have hvalue : value = "" ∨ IsOperand value := by
      by_cases hempty : value = ""
      · exact .inl hempty
      · refine .inr (isOperand_of_no_option hempty fun letter letters hdash => ?_)
        unfold parseFrom at h
        rw [hdash] at h
        cases h
    rw [parseFrom_opened hvalue] at h
    obtain ⟨next, hnext, h⟩ := Except.bind_eq_ok.mp h
    obtain ⟨htakes, rfl⟩ := addValue_eq_ok_iff.mp hnext
    obtain ⟨hreads, hfound⟩ := hjustified rest (Nat.le_succ _) _ _ h hroom
    exact ⟨.value hoption hswitch (.apart hword hvalue) htakes hreads, hfound⟩

theorem Justified.name (hjustified : ∀ more, more.length ≤ rest.length → g.Justified more)
    {text : List Char} (hargument : argument.toList = '-' :: '-' :: text)
    (hmeant : g.SaysName sorted text said) (hroom : sorted.operands.length ≤ g.places)
    (h : g.parseFrom said.1 said.2 rest = .ok found) :
    g.Reads sorted (argument :: rest) found ∧ found.operands.length ≤ g.places := by
  cases hmeant with
  | @switch option hoption hswitch hunset =>
    obtain ⟨hreads, hfound⟩ := hjustified rest (Nat.le_refl _) _ _ h hroom
    obtain rfl : argument = "--" ++ option.name := String.toList_injective (by simp [hargument])
    exact ⟨.switch hoption hswitch .long hunset hreads, hfound⟩
  | @opened option hoption hswitch =>
    obtain rfl : argument = "--" ++ option.name := String.toList_injective (by simp [hargument])
    exact Justified.value hjustified hoption hswitch .long hroom h
  | @joined option value hoption hswitch htakes =>
    obtain ⟨hreads, hfound⟩ := hjustified rest (Nat.le_refl _) _ _ h hroom
    obtain rfl : argument = "--" ++ option.name ++ "=" ++ String.ofList value :=
      String.toList_injective (by simp [hargument])
    exact ⟨.value hoption hswitch (.joined .long) htakes hreads, hfound⟩

theorem Justified.letters (hs : g.Sane)
    (hjustified : ∀ more, more.length ≤ rest.length → g.Justified more) {letter : Char}
    {letters : List Char} (hargument : argument.toList = '-' :: letter :: letters)
    (hmeant : g.SaysLetters sorted (letter :: letters) said) (hroom : sorted.operands.length ≤ g.places)
    (h : g.parseFrom said.1 said.2 rest = .ok found) :
    g.Reads sorted (argument :: rest) found ∧ found.operands.length ≤ g.places := by
  induction letters generalizing sorted letter argument with
  | nil =>
    obtain rfl : argument = String.ofList ['-', letter] := String.toList_injective (by simp [hargument])
    cases hmeant with
    | switch hoption hswitch hletter hunset hdone =>
      cases hdone
      obtain ⟨hreads, hfound⟩ := hjustified rest (Nat.le_refl _) _ _ h hroom
      exact ⟨.switch hoption hswitch (.short hletter) hunset hreads, hfound⟩
    | opened hoption hswitch hletter =>
      exact Justified.value hjustified hoption hswitch (.short hletter) hroom h
  | cons next letters ih =>
    cases hmeant with
    | switch hoption hswitch hletter hunset hbehind =>
      have hnext : next ≠ '-' := by
        cases hbehind with
        | switch hoption _ hletter | opened hoption _ hletter | joined hoption _ hletter
        | attached hoption _ hletter => exact hs.letter_ne hoption hletter
      obtain ⟨hreads, hfound⟩ := ih String.toList_ofList hbehind hroom
      obtain rfl : argument = String.ofList ('-' :: letter :: next :: letters) :=
        String.toList_injective (by simp [hargument])
      exact ⟨.letters hoption hswitch hletter hunset hnext hreads, hfound⟩
    | joined hoption hswitch hletter htakes =>
      obtain ⟨hreads, hfound⟩ := hjustified rest (Nat.le_refl _) _ _ h hroom
      obtain rfl : argument = String.ofList ['-', letter] ++ "=" ++ String.ofList letters :=
        String.toList_injective (by simp [hargument])
      exact ⟨.value hoption hswitch (.joined (.short hletter)) htakes hreads, hfound⟩
    | attached hoption hswitch hletter hfirst htakes =>
      obtain ⟨hreads, hfound⟩ := hjustified rest (Nat.le_refl _) _ _ h hroom
      obtain rfl : argument = String.ofList ['-', letter] ++ String.ofList (next :: letters) :=
        String.toList_injective (by simp [hargument])
      exact ⟨.value hoption hswitch (.attached hletter String.toList_ofList hfirst) htakes hreads, hfound⟩

/-- **Arguments that are accepted are well-formed.** -/
theorem justified (hs : g.Sane) (arguments : List String) : g.Justified arguments := by
  induction hlength : arguments.length using Nat.strong_induction_on generalizing arguments with
  | _ length ih =>
    intro sorted found h hroom
    cases arguments with
    | nil =>
      cases h
      exact ⟨.done, hroom⟩
    | cons argument rest =>
      have hjustified (more : List String) (hmore : more.length ≤ rest.length) : g.Justified more :=
        ih more.length (by rw [← hlength]; exact Nat.lt_succ_of_le hmore) more rfl
      unfold parseFrom at h
      split at h
      · contradiction
      · contradiction
      · next hdashes =>
        obtain rfl : argument = "--" := String.toList_injective hdashes
        obtain ⟨hle, htexts, rfl⟩ := (foldlM_addOperand_eq_ok_iff hroom).mp h
        refine ⟨.separator htexts, ?_⟩
        rw [Arguments.withOperands, List.length_append]
        exact hle
      · next hargument =>
        obtain ⟨said, hsaid, h⟩ := Except.bind_eq_ok.mp h
        exact Justified.name hjustified hargument ((addName_eq_ok_iff hs).mp hsaid) hroom h
      · next hargument =>
        obtain ⟨said, hsaid, h⟩ := Except.bind_eq_ok.mp h
        exact Justified.letters hs hjustified hargument ((addLetters_eq_ok_iff hs).mp hsaid) hroom h
      · next hplain =>
        obtain ⟨next, hnext, h⟩ := Except.bind_eq_ok.mp h
        obtain ⟨hspace, htext, rfl⟩ := addOperand_eq_ok_iff.mp hnext
        have hmore : (sorted.withOperands [argument]).operands.length ≤ g.places := by
          rw [Arguments.withOperands, List.length_append]
          exact hspace
        obtain ⟨hreads, hfound⟩ := hjustified rest (Nat.le_refl _) _ _ h hmore
        exact ⟨.operand (isOperand_of_no_option htext hplain) hreads, hfound⟩

/-- **The arguments that are accepted are the well-formed ones**, and they are sorted as they are meant. -/
theorem parse_eq_ok_iff (hs : g.Sane) {arguments : List String} :
    g.parse arguments = .ok found ↔ g.WellFormed arguments found := by
  constructor
  · intro h
    obtain ⟨sorted, hsorted, h⟩ := Except.bind_eq_ok.mp h
    split at h
    · cases h
    · next hnone =>
      cases h
      obtain ⟨hreads, hroom⟩ := justified hs arguments _ _ hsorted (Nat.zero_le _)
      exact ⟨hreads, List.getElem?_eq_none_iff.mp hnone, hroom⟩
  · rintro ⟨hreads, henough, hroom⟩
    refine Except.bind_eq_ok.mpr ⟨found, parseFrom_of_reads hs hreads hroom, ?_⟩
    rw [List.getElem?_eq_none_iff.mpr henough]

end Accumulator.Grammar
