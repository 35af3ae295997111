import Accumulator.Machine.Effect
import Accumulator.Proofs.Text.Delimited

/-!
# Effects are read back from their text

* `Effect.mark` — the first character of a printed effect, by which the kinds of effects differ.
* `Effect.text_append_inj` — an effect is determined by a text that it begins.
* `Retired.effectText_inj` — the printed effects of an instruction determine all of them.
-/

namespace Accumulator

open Text

/-- An assignment of a word determines its key and the word. -/
theorem Text.assignment_append_inj {radix m n : Nat} {a b : List Char} (ha : Numeral radix m a)
    (hb : Numeral radix n b) {v w : Word} {x y : List Char} (hx : Stops isNumeral x)
    (hy : Stops isNumeral y)
    (h : a ++ ("]=0x".toList ++ ((hex 8 v.toNat).toList ++ x)) =
      b ++ ("]=0x".toList ++ ((hex 8 w.toNat).toList ++ y))) : m = n ∧ v = w ∧ x = y := by
  have hstops : ∀ z, Stops isNumeral ("]=0x".toList ++ z) := fun z => stops_cons.mpr (by decide)
  obtain ⟨hkey, hrest⟩ := ha.append_inj hb (hstops _) (hstops _) h
  obtain ⟨hvalue, hxy⟩ :=
    (numeral_hex 8 _).append_inj (numeral_hex 8 _) hx hy (List.append_cancel_left hrest)
  exact ⟨hkey, UInt32.toNat_inj.mp hvalue, hxy⟩

theorem Flags.text_append_inj {f g : Flags} {x y : List Char}
    (h : f.text.toList ++ x = g.text.toList ++ y) : f = g ∧ x = y := by
  obtain ⟨zero, carry⟩ := f
  obtain ⟨zero', carry'⟩ := g
  cases zero <;> cases carry <;> cases zero' <;> cases carry' <;>
    simp_all [Flags.text, Flags.digit]

namespace Effect

/-- The first character of a printed effect. -/
def mark : Effect → Char
  | .input _ _ => 'I'
  | .output _ _ => 'O'
  | .store _ _ => 'M'
  | .accumulator _ => 'A'
  | .flags _ => 'Z'
  | .jump _ => 'P'
  | .halted => 'H'

theorem head?_text (e : Effect) : e.text.toList.head? = some e.mark := by
  cases e <;> simp [text, mark, Register.format, Register.name, Flags.text]

/-- **A printed effect is determined by a text that it begins**, if its digits end there. -/
theorem text_append_inj {e e' : Effect} {x y : List Char} (hx : Stops isNumeral x)
    (hy : Stops isNumeral y) (h : e.text.toList ++ x = e'.text.toList ++ y) : e = e' ∧ x = y := by
  have hmark : e.mark = e'.mark := by
    have hhead := congrArg List.head? h
    rw [List.head?_append, List.head?_append, head?_text, head?_text] at hhead
    exact Option.some.inj hhead
  cases e with
  | input port value =>
    cases e' with
    | input port' value' =>
      simp only [text, String.toList_append, List.append_assoc, List.append_cancel_left_eq] at h
      obtain ⟨hport, rfl, hxy⟩ :=
        assignment_append_inj (numeral_decimal _) (numeral_decimal _) hx hy h
      exact ⟨by rw [UInt8.toNat_inj.mp hport], hxy⟩
    | _ => exact absurd hmark (by simp [mark])
  | output port value =>
    cases e' with
    | output port' value' =>
      simp only [text, String.toList_append, List.append_assoc, List.append_cancel_left_eq] at h
      obtain ⟨hport, rfl, hxy⟩ :=
        assignment_append_inj (numeral_decimal _) (numeral_decimal _) hx hy h
      exact ⟨by rw [UInt8.toNat_inj.mp hport], hxy⟩
    | _ => exact absurd hmark (by simp [mark])
  | store address value =>
    cases e' with
    | store address' value' =>
      simp only [text, String.toList_append, List.append_assoc, List.append_cancel_left_eq] at h
      obtain ⟨haddress, rfl, hxy⟩ :=
        assignment_append_inj (numeral_hex 4 _) (numeral_hex 4 _) hx hy h
      exact ⟨by rw [UInt16.toNat_inj.mp haddress], hxy⟩
    | _ => exact absurd hmark (by simp [mark])
  | accumulator value =>
    cases e' with
    | accumulator value' =>
      simp only [text, Register.format, String.toList_append, List.append_assoc,
        List.append_cancel_left_eq] at h
      obtain ⟨hvalue, hxy⟩ := (numeral_hex _ _).append_inj (numeral_hex _ _) hx hy h
      exact ⟨by rw [UInt32.toNat_inj.mp hvalue], hxy⟩
    | _ => exact absurd hmark (by simp [mark])
  | flags value =>
    cases e' with
    | flags value' =>
      obtain ⟨rfl, hxy⟩ := Flags.text_append_inj h
      exact ⟨rfl, hxy⟩
    | _ => exact absurd hmark (by simp [mark])
  | jump target =>
    cases e' with
    | jump target' =>
      simp only [text, Register.format, String.toList_append, List.append_assoc,
        List.append_cancel_left_eq] at h
      obtain ⟨htarget, hxy⟩ := (numeral_hex _ _).append_inj (numeral_hex _ _) hx hy h
      exact ⟨by rw [UInt16.toNat_inj.mp htarget], hxy⟩
    | _ => exact absurd hmark (by simp [mark])
  | halted =>
    cases e' with
    | halted => exact ⟨rfl, List.append_cancel_left h⟩
    | _ => exact absurd hmark (by simp [mark])

/-- Every printed effect ends with a digit or a letter. -/
theorem firm_text (e : Effect) : Firm e.text.toList := by
  cases e with
  | input port value | output port value | store address value =>
    rw [text, String.toList_append]
    exact (numeral_hex 8 _).firm.append_left _
  | accumulator value | jump target =>
    rw [text, Register.format, String.toList_append]
    exact (numeral_hex _ _).firm.append_left _
  | flags value =>
    rw [text, Flags.text, String.toList_append]
    have hdigit : Firm (Flags.digit value.carry).toList := by
      cases value.carry with
      | false => exact ⟨[], '0', rfl, by decide⟩
      | true => exact ⟨[], '1', rfl, by decide⟩
    exact hdigit.append_left _
  | halted => exact ⟨['H', 'A', 'L', 'T', 'E'], 'D', rfl, by decide⟩

/-- The printed effects that follow another, each with a blank in front. -/
def following (es : List Effect) : List Char := es.flatMap fun e => ' ' :: e.text.toList

theorem stops_following (es : List Effect) : Stops isNumeral (following es) := by
  cases es with
  | nil => exact stops_nil
  | cons e es => exact stops_cons.mpr (by decide)

theorem following_inj {es fs : List Effect} (h : following es = following fs) : es = fs := by
  induction es generalizing fs with
  | nil =>
    cases fs with
    | nil => rfl
    | cons f fs => cases h
  | cons e es ih =>
    cases fs with
    | nil => cases h
    | cons f fs =>
      have hcons : e.text.toList ++ following es = f.text.toList ++ following fs :=
        (List.cons.inj h).2
      obtain ⟨rfl, hrest⟩ := text_append_inj (stops_following es) (stops_following fs) hcons
      rw [ih hrest]

theorem toList_intercalate (e : Effect) (es : List Effect) :
    (String.intercalate " " ((e :: es).map text)).toList = e.text.toList ++ following es := by
  induction es generalizing e with
  | nil => simp [following]
  | cons f es ih =>
    rw [List.map_cons, List.map_cons, String.intercalate_cons_cons, String.toList_append,
      ← List.map_cons, ih, String.toList_append, List.append_assoc]
    rfl

theorem firm_following (e : Effect) (es : List Effect) : Firm (e.text.toList ++ following es) := by
  induction es generalizing e with
  | nil =>
    rw [following, List.flatMap_nil, List.append_nil]
    exact e.firm_text
  | cons f es ih =>
    have hnext : e.text.toList ++ following (f :: es) =
        (e.text.toList ++ [' ']) ++ (f.text.toList ++ following es) := by
      simp [following]
    rw [hnext]
    exact (ih f).append_left _

end Effect

namespace Retired

variable {r s : Retired}

theorem effectText_of_nil (h : r.effects = []) : r.effectText = "-" := by
  rw [effectText, h]
  rfl

theorem effectText_of_cons {e : Effect} {es : List Effect} (h : r.effects = e :: es) :
    r.effectText.toList = e.text.toList ++ Effect.following es := by
  rw [effectText, h]
  exact Effect.toList_intercalate e es

/-- The dash of an instruction without effects is no effect. -/
theorem dash_ne_effects (e : Effect) (es : List Effect) :
    "-".toList ≠ e.text.toList ++ Effect.following es := by
  intro h
  have hhead := congrArg List.head? h
  rw [List.head?_append, e.head?_text] at hhead
  have hmark : e.mark = '-' := (Option.some.inj hhead).symm
  cases e <;> cases hmark

/-- **The printed effects of an instruction determine all of its effects.** -/
theorem effectText_inj (h : r.effectText = s.effectText) : r.effects = s.effects := by
  have htext : r.effectText.toList = s.effectText.toList := congrArg String.toList h
  cases hr : r.effects with
  | nil =>
    rw [effectText_of_nil hr] at htext
    cases hs : s.effects with
    | nil => rfl
    | cons f fs =>
      rw [effectText_of_cons hs] at htext
      exact absurd htext (dash_ne_effects f fs)
  | cons e es =>
    rw [effectText_of_cons hr] at htext
    cases hs : s.effects with
    | nil =>
      rw [effectText_of_nil hs] at htext
      exact absurd htext.symm (dash_ne_effects e es)
    | cons f fs =>
      rw [effectText_of_cons hs] at htext
      obtain ⟨rfl, hrest⟩ := Effect.text_append_inj (Effect.stops_following es)
        (Effect.stops_following fs) htext
      rw [Effect.following_inj hrest]

theorem firm_effectText (r : Retired) : Firm r.effectText.toList := by
  cases hr : r.effects with
  | nil =>
    rw [effectText_of_nil hr]
    exact ⟨[], '-', rfl, by decide⟩
  | cons e es =>
    rw [effectText_of_cons hr]
    exact e.firm_following es

theorem firm_text (r : Retired) : Firm r.text.toList := by
  rw [text, String.toList_append]
  exact r.firm_effectText.append_left _

end Retired

end Accumulator
