import Accumulator.Path
import Accumulator.Proofs.Text.Pieces

/-!
# Where an artifact goes by default

* `Undotted` — a name that has no extension, since no character of it but the first is a dot.
* `splitName_of_free`, `splitName_append` — a name is cut at its last dot, unless that comes first.
* `withExtension_of_undotted`, `withExtension_append` — a name without an extension gets one; the extension
  of any other name is replaced.
* `defaultOutput_eq_iff` — the stem of a source with `.json` behind it is the default output exactly if the
  stem is undotted. Then sources with different stems have different outputs.
-/

namespace Accumulator.Path

variable {path name front old extension : List Char}

/-! ## Names -/

/-- No character of the name but the first is a dot, and the name is not a dot alone. -/
def Undotted (name : List Char) : Prop := '.' ∉ name.tail ∧ name ≠ ['.']

instance (name : List Char) : Decidable (Undotted name) := inferInstanceAs (Decidable (_ ∧ _))

/-- A name with a dot behind its first character, cut at the last one. -/
theorem exists_eq_append_of_mem_tail (h : '.' ∈ name.tail) :
    ∃ front old, name = front ++ '.' :: old ∧ front ≠ [] ∧ '.' ∉ old := by
  obtain ⟨back, before, hback, hnone⟩ := List.eq_append_cons_of_mem (List.mem_reverse.mpr h)
  cases name with
  | nil => cases h
  | cons c rest =>
    have hrest : rest = before.reverse ++ '.' :: back.reverse := by
      rw [← List.reverse_reverse rest]
      simp [show rest.reverse = _ from hback]
    exact ⟨c :: before.reverse, back.reverse, by rw [hrest, List.cons_append], List.cons_ne_nil _ _,
      fun hmem => hnone (List.mem_reverse.mp hmem)⟩

theorem splitName_append (hfront : front ≠ []) (hold : '.' ∉ old) :
    splitName (front ++ '.' :: old) = (front, some old) := by
  have hbehind : (front ++ '.' :: old).reverse.takeWhile (· != '.') = old.reverse := by
    have hall : ∀ c ∈ old.reverse, (c != '.') = true := fun c hc => by
      simpa using ne_of_mem_of_not_mem (List.mem_reverse.mp hc) hold
    rw [List.reverse_append, List.reverse_cons, List.append_assoc, List.takeWhile_append_of_pos hall,
      List.singleton_append, List.takeWhile_cons_of_neg (by decide), List.append_nil]
  have hlength : (front ++ '.' :: old).length - old.length - 1 = front.length := by
    rw [List.length_append, List.length_cons]
    omega
  unfold splitName
  simp only [hbehind, List.reverse_reverse, hlength, List.take_left']
  simp [hfront]

/-- A dot in the first place separates nothing. -/
theorem splitName_of_free (h : '.' ∉ name.tail) : splitName name = (name, none) := by
  cases name with
  | nil => rfl
  | cons c rest =>
    have hall : ∀ d ∈ rest.reverse, (d != '.') = true := fun d hd => by
      simpa using ne_of_mem_of_not_mem (List.mem_reverse.mp hd) h
    unfold splitName
    rw [List.reverse_cons, List.takeWhile_append_of_pos hall]
    by_cases hc : c = '.'
    · simp [hc]
    · simp [hc]

theorem stem_append (hfront : front ≠ []) (hold : '.' ∉ old) : stem (front ++ '.' :: old) = front :=
  congrArg Prod.fst (splitName_append hfront hold)

theorem extension?_append (hfront : front ≠ []) (hold : '.' ∉ old) :
    extension? (front ++ '.' :: old) = some old :=
  congrArg Prod.snd (splitName_append hfront hold)

/-! ## File names -/

/-- A name as it stands on a path. -/
structure IsStep (name : List Char) : Prop where
  nonempty : name ≠ []
  single : '/' ∉ name
  moves : name ≠ ['.']

theorem IsStep.of_mem_components (h : name ∈ components path) : IsStep name := by
  rw [components, Text.fields, List.filter_filter, List.mem_filter] at h
  obtain ⟨hpiece, hkept⟩ := h
  have hfree : '/' ∉ name := by
    induction path using Text.split_induction (· == '/') with
    | last piece hfree =>
      rw [Text.split_of_free hfree, List.mem_singleton] at hpiece
      subst hpiece
      exact fun hmem => by simpa using hfree _ hmem
    | next piece c rest hfree hc ih =>
      rw [Text.split_append hfree hc, List.mem_cons] at hpiece
      obtain rfl | hrest := hpiece
      · exact fun hmem => by simpa using hfree _ hmem
      · exact ih hrest
  simp only [bne_iff_ne, Bool.and_eq_true, Bool.not_eq_true', List.isEmpty_eq_false_iff] at hkept
  exact { nonempty := hkept.2, single := hfree, moves := hkept.1 }

/-- A name is all there is on the path that it makes. -/
theorem components_of_isStep (h : IsStep name) : components name = [name] := by
  have hall : ∀ c ∈ name, (c == '/') = false := fun c hc => by
    simpa using ne_of_mem_of_not_mem hc h.single
  rw [components, Text.fields_of_free h.nonempty hall, List.filter_cons, if_pos (by simpa using h.moves),
    List.filter_nil]

theorem fileName?_of_isStep (h : IsStep name) (hparent : name ≠ ['.', '.']) :
    fileName? name = some name := by
  rw [fileName?, components_of_isStep h, List.getLast?_singleton, Option.filter_some,
    if_pos (by simpa using hparent)]

theorem IsStep.of_fileName? (h : fileName? path = some name) : IsStep name := by
  rw [fileName?, Option.filter_eq_some_iff] at h
  exact IsStep.of_mem_components (List.mem_of_getLast? h.1)

theorem stem_ne_nil (h : name ≠ []) : stem name ≠ [] := by
  by_cases hdot : '.' ∈ name.tail
  · obtain ⟨front, old, rfl, hfront, hold⟩ := exists_eq_append_of_mem_tail hdot
    rwa [stem_append hfront hold]
  · rwa [stem, splitName_of_free hdot]

theorem stem_subset (name : List Char) : stem name ⊆ name := by
  by_cases hdot : '.' ∈ name.tail
  · obtain ⟨front, old, rfl, hfront, hold⟩ := exists_eq_append_of_mem_tail hdot
    rw [stem_append hfront hold]
    exact List.subset_append_left _ _
  · rw [stem, splitName_of_free hdot]
    exact List.Subset.refl _

theorem stem_of_fileName? (h : fileName? path = some name) : stem name ≠ [] ∧ '/' ∉ stem name :=
  have hstep := IsStep.of_fileName? h
  ⟨stem_ne_nil hstep.nonempty, fun hmem => hstep.single (stem_subset name hmem)⟩

/-! ## Replacing an extension -/

theorem withExtension_of_undotted (hne : name ≠ []) (hfree : '/' ∉ name) (h : Undotted name) :
    withExtension extension name = name ++ '.' :: extension := by
  have hparent : name ≠ ['.', '.'] := fun heq => h.1 (by simp [heq])
  have hname := fileName?_of_isStep ⟨hne, hfree, h.2⟩ hparent
  have hold : extension? name = none := by rw [extension?, splitName_of_free h.1]
  simp only [withExtension, hname, Option.bind_some, hold, addExtension, stem, splitName_of_free h.1]

/-- A name without what stands behind its dot. -/
theorem take_append_dot (front old : List Char) :
    (front ++ '.' :: old).take ((front ++ '.' :: old).length - old.length) = front ++ ['.'] := by
  rw [List.append_cons, List.length_append, Nat.add_sub_cancel, List.take_left]

theorem withExtension_append (hfront : front ≠ []) (hdot : front ≠ ['.']) (hold : '.' ∉ old)
    (hfree : '/' ∉ front ++ '.' :: old) :
    withExtension extension (front ++ '.' :: old) = front ++ '.' :: extension := by
  -- What is left of the name is again a name: no dot alone, and not the parent either.
  have hname : ∀ rest, '/' ∉ front ++ '.' :: rest →
      fileName? (front ++ '.' :: rest) = some (front ++ '.' :: rest) := fun rest hrest => by
    obtain ⟨c, front, rfl⟩ := List.exists_cons_of_ne_nil hfront
    refine fileName?_of_isStep ⟨List.cons_ne_nil _ _, hrest, ?_⟩ ?_
    · simp
    · intro heq
      cases front <;> simp_all
  have hcut : '/' ∉ front ++ '.' :: [] := by
    rw [List.mem_append] at hfree ⊢
    simp_all
  simp only [withExtension, hname old hfree, Option.bind_some, extension?_append hfront hold, take_append_dot,
    addExtension, hname [] hcut, stem_append hfront List.not_mem_nil]

/-- The directory itself gets no extension. -/
theorem withExtension_dot : withExtension extension ['.'] = ['.'] := rfl

/-- What is left of this name leads to the parent, which gets no extension. -/
theorem withExtension_parent (hold : '.' ∉ old) (hfree : '/' ∉ old) :
    withExtension extension ('.' :: '.' :: old) = ['.', '.'] := by
  by_cases hne : old = []
  · subst hne
    rfl
  · have hname : fileName? ('.' :: '.' :: old) = some ('.' :: '.' :: old) :=
      fileName?_of_isStep ⟨List.cons_ne_nil _ _, by simp [hfree], by simp⟩ (by simpa using hne)
    have hext := extension?_append (List.cons_ne_nil '.' []) hold
    have htake := take_append_dot ['.'] old
    rw [List.singleton_append] at hext htake
    simp only [withExtension, hname, Option.bind_some, hext, htake]
    rfl

/-- A name keeps all it has exactly if it has no extension to lose. -/
theorem withExtension_eq_append_iff (hne : name ≠ []) (hfree : '/' ∉ name) :
    withExtension extension name = name ++ '.' :: extension ↔ Undotted name := by
  refine ⟨fun h => ⟨fun hdot => ?_, fun hdot => ?_⟩, withExtension_of_undotted hne hfree⟩
  · obtain ⟨front, old, rfl, hfront, hold⟩ := exists_eq_append_of_mem_tail hdot
    by_cases hone : front = ['.']
    · subst hone
      have hold' : '/' ∉ old := fun hmem => hfree (by simp [hmem])
      have hlength := congrArg List.length ((withExtension_parent hold hold').symm.trans h)
      simp at hlength
    · have hlength := congrArg List.length ((withExtension_append hfront hone hold hfree).symm.trans h)
      simp only [List.length_append, List.length_cons] at hlength
      omega
  · subst hdot
    have hlength := congrArg List.length (withExtension_dot.symm.trans h)
    simp at hlength

/-- Whatever extension a name has makes room for the new one. -/
theorem withExtension_eq_stem_append (hne : name ≠ []) (hfree : '/' ∉ name) (h : stem name ≠ ['.']) :
    withExtension extension name = stem name ++ '.' :: extension := by
  by_cases hdot : '.' ∈ name.tail
  · obtain ⟨front, old, rfl, hfront, hold⟩ := exists_eq_append_of_mem_tail hdot
    rw [stem_append hfront hold] at h ⊢
    exact withExtension_append hfront h hold hfree
  · have hstem : stem name = name := by rw [stem, splitName_of_free hdot]
    rw [hstem] at h ⊢
    exact withExtension_of_undotted hne hfree ⟨hdot, h⟩

/-! ## The default output -/

theorem defaultOutput_of_fileName? {source : String} (h : fileName? source.toList = some name) :
    defaultOutput source = String.ofList (withExtension "json".toList (stem name)) := by
  rw [defaultOutput, h]

theorem ofList_append_json (name : List Char) :
    String.ofList (name ++ '.' :: "json".toList) = String.ofList name ++ ".json" := by
  rw [String.ofList_append]
  rfl

theorem defaultOutput_of_undotted {source : String} (h : fileName? source.toList = some name)
    (hundotted : Undotted (stem name)) : defaultOutput source = String.ofList (stem name) ++ ".json" := by
  obtain ⟨hne, hfree⟩ := stem_of_fileName? h
  rw [defaultOutput_of_fileName? h, withExtension_of_undotted hne hfree hundotted, ofList_append_json]

/-- The stem of a source with `.json` behind it is its default output exactly if the stem has no extension
of its own; the output is then a single name, which no source with another such stem shares. A stem that
has an extension loses it. -/
theorem defaultOutput_eq_iff {source : String} (h : fileName? source.toList = some name) :
    (defaultOutput source = String.ofList (stem name) ++ ".json" ↔ Undotted (stem name)) ∧
      (Undotted (stem name) →
        components (defaultOutput source).toList = [stem name ++ ".json".toList] ∧
        ∀ (other : String) (otherName : List Char), fileName? other.toList = some otherName →
          Undotted (stem otherName) → stem otherName ≠ stem name →
            defaultOutput other ≠ defaultOutput source) ∧
      (stem (stem name) ≠ ['.'] →
        defaultOutput source = String.ofList (stem (stem name)) ++ ".json") := by
  obtain ⟨hne, hfree⟩ := stem_of_fileName? h
  refine ⟨?_, fun hundotted => ⟨?_, fun other otherName hother hfirst hdiffer heq => ?_⟩, fun hdot => ?_⟩
  · rw [defaultOutput_of_fileName? h, ← ofList_append_json, String.ofList_inj]
    exact withExtension_eq_append_iff hne hfree
  · rw [defaultOutput_of_undotted h hundotted, String.toList_append, String.toList_ofList]
    refine components_of_isStep ⟨by simp, by simp [hfree], fun heq => ?_⟩
    simpa using congrArg List.length heq
  · rw [defaultOutput_of_undotted h hundotted, defaultOutput_of_undotted hother hfirst,
      String.append_left_inj, String.ofList_inj] at heq
    exact hdiffer heq
  · rw [defaultOutput_of_fileName? h, withExtension_eq_stem_append hne hfree hdot, ofList_append_json]

theorem defaultOutput_eq_of_echo :
    fileName? "demo/.echo.asm".toList = some ".echo.asm".toList ∧ Undotted (stem ".echo.asm".toList) ∧
      defaultOutput "demo/.echo.asm" = ".echo.json" := by
  have hname : fileName? "demo/.echo.asm".toList = some ".echo.asm".toList := by decide
  have hundotted : Undotted (stem ".echo.asm".toList) := by decide
  refine ⟨hname, hundotted, ?_⟩
  rw [(defaultOutput_eq_iff hname).1.mpr hundotted]
  decide

/-- Two sources of one directory with different stems and one output. -/
theorem defaultOutput_shared :
    fileName? "dir/a.b.asm".toList = some "a.b.asm".toList ∧ stem "a.b.asm".toList = "a.b".toList ∧
      fileName? "dir/a.c.asm".toList = some "a.c.asm".toList ∧ stem "a.c.asm".toList = "a.c".toList ∧
      defaultOutput "dir/a.b.asm" = "a.json" ∧ defaultOutput "dir/a.c.asm" = "a.json" := by
  decide

end Accumulator.Path
