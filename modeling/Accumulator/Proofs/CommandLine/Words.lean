import Mathlib.Data.List.TakeWhile
import Accumulator.Proofs.CommandLine.Arguments

/-!
# What one argument says

* `Grammar.SaysName`, `Grammar.addName_eq_ok_iff` — a name behind two dashes.
* `Grammar.SaysLetters`, `Grammar.addLetters_eq_ok_iff` — letters behind one dash.
-/

namespace Accumulator.Grammar

variable {g : Grammar} {sorted : Arguments} {argument : String} {option : OptionSpec}
  {said : Arguments × Option OptionSpec}

/-! ## Names -/

/-- A text is a name, or a name with an equals sign and a value behind it. -/
theorem exists_name (text : List Char) : ∃ name : List Char, '=' ∉ name ∧
    (text = name ∨ ∃ value, text = name ++ '=' :: value) := by
  refine ⟨text.takeWhile (· != '='), fun h => ?_, ?_⟩
  · simpa using List.mem_takeWhile_imp h
  · cases hrest : text.dropWhile (· != '=') with
    | nil =>
      left
      have htext := List.takeWhile_append_dropWhile (p := (· != '=')) (l := text)
      rw [hrest, List.append_nil] at htext
      exact htext.symm
    | cons c value =>
      right
      have hc : c = '=' := by
        have hhead := List.head?_dropWhile_not (p := (· != '=')) text
        rw [hrest] at hhead
        simpa using hhead
      have htext := List.takeWhile_append_dropWhile (p := (· != '=')) (l := text)
      rw [hrest, hc] at htext
      exact ⟨value, htext.symm⟩

/-- What a word behind two dashes can say. -/
inductive SaysName (g : Grammar) (sorted : Arguments) : List Char → Arguments × Option OptionSpec → Prop
  | switch {option : OptionSpec} (hoption : option ∈ g.options) (hswitch : option.isSwitch = true)
    (hunset : sorted.Unset option) : SaysName g sorted option.name.toList (sorted.withSwitch option, none)
  | opened {option : OptionSpec} (hoption : option ∈ g.options) (hswitch : option.isSwitch = false) :
    SaysName g sorted option.name.toList (sorted, some option)
  | joined {option : OptionSpec} {value : List Char} (hoption : option ∈ g.options)
    (hswitch : option.isSwitch = false) (htakes : sorted.Takes option (String.ofList value)) :
    SaysName g sorted (option.name.toList ++ '=' :: value)
      (sorted.withValue option (String.ofList value), none)

theorem addName_of_free {name : List Char} (hname : '=' ∉ name) :
    g.addName argument sorted name =
      if String.ofList name = "help" then .error .help
      else if String.ofList name = "version" then .error .version
      else
        match g.options.find? (·.name == String.ofList name) with
        | none => .error (unexpected argument)
        | some option =>
          if option.isSwitch then addSwitch sorted option.name >>= fun sorted => .ok (sorted, none)
          else .ok (sorted, some option) := by
  have hall : ∀ c ∈ name, (c != '=') = true := fun c hc => by simpa using ne_of_mem_of_not_mem hc hname
  unfold addName
  rw [List.takeWhile_eq_self_iff.mpr hall, List.dropWhile_eq_nil_iff.mpr hall]
  dsimp only
  split
  · next hhelp _ => rw [if_pos hhelp]
  · next hversion _ => rw [if_neg (by rw [hversion]; decide), if_pos hversion]
  · next hhelp hversion =>
    rw [if_neg fun h => hhelp h rfl, if_neg fun h => hversion h rfl]
    cases g.options.find? (·.name == String.ofList name) with
    | none => rfl
    | some option => rfl

theorem addName_joined {name : List Char} (hname : '=' ∉ name) (value : List Char) :
    g.addName argument sorted (name ++ '=' :: value) =
      match g.options.find? (·.name == String.ofList name) with
      | none => .error (unexpected argument)
      | some option =>
        if option.isSwitch then
          .error (.mistake ("unexpected value for '--" ++ String.ofList name ++ "' found"))
        else addValue sorted option (String.ofList value) >>= fun sorted => .ok (sorted, none) := by
  have hall : ∀ c ∈ name, (c != '=') = true := fun c hc => by simpa using ne_of_mem_of_not_mem hc hname
  have htake : (name ++ '=' :: value).takeWhile (· != '=') = name := by
    rw [List.takeWhile_append_of_pos hall]
    simp
  have hdrop : (name ++ '=' :: value).dropWhile (· != '=') = '=' :: value := by
    rw [List.dropWhile_append_of_pos hall]
    simp
  unfold addName
  rw [htake, hdrop]
  dsimp only
  split
  · contradiction
  · contradiction
  · cases g.options.find? (·.name == String.ofList name) with
    | none => rfl
    | some option => rfl

theorem exists_of_find?_name {name : List Char}
    (h : g.options.find? (·.name == String.ofList name) = some option) :
    option ∈ g.options ∧ option.name.toList = name := by
  refine ⟨List.mem_of_find?_eq_some h, ?_⟩
  have hfound := List.find?_some h
  rw [eq_of_beq hfound, String.toList_ofList]

theorem says_of_addName {text : List Char} (h : g.addName argument sorted text = .ok said) :
    g.SaysName sorted text said := by
  obtain ⟨name, hname, rfl | ⟨value, rfl⟩⟩ := exists_name text
  · rw [addName_of_free hname] at h
    split at h
    · cases h
    · split at h
      · cases h
      · split at h
        · cases h
        · next option hfind =>
          obtain ⟨hoption, rfl⟩ := exists_of_find?_name hfind
          split at h
          · next hswitch =>
            obtain ⟨next, hnext, h⟩ := Except.bind_eq_ok.mp h
            cases h
            obtain ⟨hunset, rfl⟩ := addSwitch_eq_ok_iff.mp hnext
            exact .switch hoption hswitch hunset
          · next hswitch =>
            cases h
            exact .opened hoption (Bool.eq_false_iff.mpr hswitch)
  · rw [addName_joined hname] at h
    split at h
    · cases h
    · next option hfind =>
      obtain ⟨hoption, rfl⟩ := exists_of_find?_name hfind
      split at h
      · cases h
      · next hswitch =>
        obtain ⟨next, hnext, h⟩ := Except.bind_eq_ok.mp h
        cases h
        obtain ⟨htakes, rfl⟩ := addValue_eq_ok_iff.mp hnext
        exact .joined hoption (Bool.eq_false_iff.mpr hswitch) htakes

/-- A name says what it is meant to say. -/
theorem addName_eq_ok_iff (hs : g.Sane) {text : List Char} :
    g.addName argument sorted text = .ok said ↔ g.SaysName sorted text said := by
  refine ⟨says_of_addName, fun h => ?_⟩
  have hplain {option : OptionSpec} (hoption : option ∈ g.options) :
      g.addName argument sorted option.name.toList =
        if option.isSwitch then addSwitch sorted option.name >>= fun sorted => .ok (sorted, none)
        else .ok (sorted, some option) := by
    obtain ⟨-, hequals, hhelp, hversion⟩ := hs.plain option hoption
    rw [addName_of_free hequals, String.ofList_toList, if_neg hhelp, if_neg hversion,
      hs.find?_name hoption]
  cases h with
  | switch hoption hswitch hunset =>
    rw [hplain hoption, if_pos hswitch, addSwitch_eq_ok_iff.mpr ⟨hunset, rfl⟩]
    rfl
  | opened hoption hswitch => rw [hplain hoption, hswitch, if_neg Bool.false_ne_true]
  | @joined option value hoption hswitch htakes =>
    rw [addName_joined (hs.plain option hoption).2.1, String.ofList_toList, hs.find?_name hoption]
    dsimp only
    rw [hswitch, if_neg Bool.false_ne_true, addValue_eq_ok_iff.mpr ⟨htakes, rfl⟩]
    rfl

/-! ## Letters -/

/-- What letters behind one dash can say. -/
inductive SaysLetters (g : Grammar) : Arguments → List Char → Arguments × Option OptionSpec → Prop
  | done {sorted : Arguments} : SaysLetters g sorted [] (sorted, none)
  | switch {sorted : Arguments} {option : OptionSpec} {letter : Char} {letters : List Char}
    {said : Arguments × Option OptionSpec} (hoption : option ∈ g.options)
    (hswitch : option.isSwitch = true) (hletter : option.letter = some letter)
    (hunset : sorted.Unset option) (h : SaysLetters g (sorted.withSwitch option) letters said) :
    SaysLetters g sorted (letter :: letters) said
  | opened {sorted : Arguments} {option : OptionSpec} {letter : Char} (hoption : option ∈ g.options)
    (hswitch : option.isSwitch = false) (hletter : option.letter = some letter) :
    SaysLetters g sorted [letter] (sorted, some option)
  | joined {sorted : Arguments} {option : OptionSpec} {letter : Char} {value : List Char}
    (hoption : option ∈ g.options) (hswitch : option.isSwitch = false)
    (hletter : option.letter = some letter) (htakes : sorted.Takes option (String.ofList value)) :
    SaysLetters g sorted (letter :: '=' :: value) (sorted.withValue option (String.ofList value), none)
  | attached {sorted : Arguments} {option : OptionSpec} {letter first : Char} {rest : List Char}
    (hoption : option ∈ g.options) (hswitch : option.isSwitch = false)
    (hletter : option.letter = some letter) (hfirst : first ≠ '=')
    (htakes : sorted.Takes option (String.ofList (first :: rest))) :
    SaysLetters g sorted (letter :: first :: rest)
      (sorted.withValue option (String.ofList (first :: rest)), none)

theorem addLetters_cons {letter : Char} (hhelp : letter ≠ 'h') (hversion : letter ≠ 'V')
    (rest : List Char) : g.addLetters argument sorted (letter :: rest) =
      match g.options.find? fun option => option.letter == some letter with
      | none => .error (unexpected argument)
      | some option =>
        if option.isSwitch then
          addSwitch sorted option.name >>= fun sorted => g.addLetters argument sorted rest
        else
          match rest with
          | [] => .ok (sorted, some option)
          | '=' :: value =>
            addValue sorted option (String.ofList value) >>= fun sorted => .ok (sorted, none)
          | value => addValue sorted option (String.ofList value) >>= fun sorted => .ok (sorted, none) := by
  conv => lhs; unfold addLetters
  split
  · contradiction
  · next heq => exact absurd (List.cons.inj heq).1 hhelp
  · next heq => exact absurd (List.cons.inj heq).1 hversion
  · next heq =>
    cases heq
    rfl

theorem says_of_addLetters {letters : List Char} (h : g.addLetters argument sorted letters = .ok said) :
    g.SaysLetters sorted letters said := by
  induction letters generalizing sorted with
  | nil =>
    cases h
    exact .done
  | cons letter rest ih =>
    by_cases hhelp : letter = 'h'
    · subst hhelp
      cases h
    · by_cases hversion : letter = 'V'
      · subst hversion
        cases h
      · rw [addLetters_cons hhelp hversion] at h
        split at h
        · cases h
        · next option hfind =>
          have hoption := List.mem_of_find?_eq_some hfind
          have hletter : option.letter = some letter := eq_of_beq (List.find?_some hfind :)
          split at h
          · next hswitch =>
            obtain ⟨next, hnext, h⟩ := Except.bind_eq_ok.mp h
            obtain ⟨hunset, rfl⟩ := addSwitch_eq_ok_iff.mp hnext
            exact .switch hoption hswitch hletter hunset (ih h)
          · next hswitch =>
            rw [Bool.not_eq_true] at hswitch
            split at h
            · cases h
              exact .opened hoption hswitch hletter
            · next value =>
              obtain ⟨next, hnext, h⟩ := Except.bind_eq_ok.mp h
              cases h
              obtain ⟨htakes, rfl⟩ := addValue_eq_ok_iff.mp hnext
              exact .joined hoption hswitch hletter htakes
            · next hnil hequals =>
              obtain ⟨next, hnext, h⟩ := Except.bind_eq_ok.mp h
              cases h
              obtain ⟨htakes, rfl⟩ := addValue_eq_ok_iff.mp hnext
              obtain ⟨first, tail, rfl⟩ := List.exists_cons_of_ne_nil hnil
              exact .attached hoption hswitch hletter (fun hfirst => hequals tail (by rw [hfirst])) htakes

theorem Sane.addLetters_letter (hs : g.Sane) {letter : Char} (hoption : option ∈ g.options)
    (hletter : option.letter = some letter) (rest : List Char) :
    g.addLetters argument sorted (letter :: rest) =
      if option.isSwitch then
        addSwitch sorted option.name >>= fun sorted => g.addLetters argument sorted rest
      else
        match rest with
        | [] => .ok (sorted, some option)
        | '=' :: value => addValue sorted option (String.ofList value) >>= fun sorted => .ok (sorted, none)
        | value => addValue sorted option (String.ofList value) >>= fun sorted => .ok (sorted, none) := by
  have hfree := hs.free option hoption
  have hhelp : letter ≠ 'h' := by
    rintro rfl
    exact hfree (by rw [hletter]; decide)
  have hversion : letter ≠ 'V' := by
    rintro rfl
    exact hfree (by rw [hletter]; decide)
  rw [addLetters_cons hhelp hversion, hs.find?_letter hoption hletter]

/-- Letters say what they are meant to say. -/
theorem addLetters_eq_ok_iff (hs : g.Sane) {letters : List Char} :
    g.addLetters argument sorted letters = .ok said ↔ g.SaysLetters sorted letters said := by
  refine ⟨says_of_addLetters, fun h => ?_⟩
  induction h with
  | done => rfl
  | switch hoption hswitch hletter hunset h ih =>
    rw [hs.addLetters_letter hoption hletter, if_pos hswitch, addSwitch_eq_ok_iff.mpr ⟨hunset, rfl⟩]
    exact ih
  | opened hoption hswitch hletter =>
    rw [hs.addLetters_letter hoption hletter, hswitch, if_neg Bool.false_ne_true]
  | joined hoption hswitch hletter htakes =>
    rw [hs.addLetters_letter hoption hletter, hswitch, if_neg Bool.false_ne_true]
    exact Except.bind_eq_ok.mpr ⟨_, addValue_eq_ok_iff.mpr ⟨htakes, rfl⟩, rfl⟩
  | attached hoption hswitch hletter hfirst htakes =>
    rw [hs.addLetters_letter hoption hletter, hswitch, if_neg Bool.false_ne_true]
    split
    · contradiction
    · next heq => exact absurd (List.cons.inj heq).1 hfirst
    · rw [addValue_eq_ok_iff.mpr ⟨htakes, rfl⟩]
      rfl

end Accumulator.Grammar
