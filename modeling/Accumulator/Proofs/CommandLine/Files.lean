import Mathlib.Data.List.Infix
import Accumulator.CommandLine.Script
import Accumulator.Proofs.Results

/-!
# Files after a write

* `FileTree.Reaches` — the locations around a place are directories. A path leads to such places only
  (`reaches_of_walk`), so a write to a path makes no directory (`Reaches.isDirectory_assign`).
* `isDirectory_makeDirectory`, `ne_ownEntry_of_locate` — a directory without files is one, and its own entry
  is no file that a path leads to.
* `FileTree.Stored` — the file that a path leads to holds some bytes, and nothing else is changed.
  `exists_write`, `exists_write_behind` — a write does that, and so do two to the same path.
* `Script.run_bind` — a script in two parts acts part by part. With it, the run of a script follows the
  text of the script.
-/

namespace Accumulator

/-! ## What lies inside a location -/

namespace Location

variable {place outer : Location}

theorem encloses_iff {inner : Location} :
    outer.encloses inner = true ↔
      outer.base = inner.base ∧ outer.names <+: inner.names ∧
        outer.names.length < inner.names.length := by
  simp [encloses, and_assoc]

theorem eq_or_encloses_of_child {name : List Char} (h : outer.encloses (place.child name) = true) :
    outer = place ∨ outer.encloses place = true := by
  obtain ⟨hbase, hnames, hlength⟩ := encloses_iff.mp h
  rw [child, List.length_append, List.length_singleton] at hlength
  have hinside : outer.names <+: place.names := by
    rcases List.prefix_concat_iff.mp hnames with hwhole | hinside
    · rw [hwhole, List.length_append, List.length_singleton] at hlength
      exact absurd hlength (Nat.lt_irrefl _)
    · exact hinside
  rcases Nat.lt_succ_iff_lt_or_eq.mp hlength with hshorter | hsame
  · exact .inr (encloses_iff.mpr ⟨hbase, hinside, hshorter⟩)
  · refine .inl ?_
    cases outer
    cases place
    cases hbase
    cases hinside.eq_of_length hsame
    rfl

theorem encloses_of_parent (h : outer.encloses place.parent = true) : outer.encloses place = true := by
  unfold parent at h
  split at h
  · obtain ⟨hbase, hnames, hlength⟩ := encloses_iff.mp h
    have hshorter : place.names.dropLast.length ≤ place.names.length := by simp
    exact encloses_iff.mpr
      ⟨hbase, hnames.trans (List.dropLast_prefix _), hlength.trans_le hshorter⟩
  · split at h
    · exact h
    · exact absurd (encloses_iff.mp h).2.2 (Nat.not_lt_zero _)

theorem not_mem_names_parent {name : List Char} (h : name ∉ place.names) : name ∉ place.parent.names := by
  unfold parent
  split
  · exact fun hmem => h (List.dropLast_subset _ hmem)
  · split
    · exact h
    · exact List.not_mem_nil

end Location

namespace FileTree

variable {tree after : FileTree} {start place : Location} {names : List (List Char)}

/-! ## Where paths lead -/

/-- The locations around a place are directories. -/
def Reaches (tree : FileTree) (place : Location) : Prop :=
  ∀ outer : Location, outer.encloses place = true → tree.isDirectory outer = true

theorem reaches_base (tree : FileTree) (base : Base) : tree.Reaches ⟨base, []⟩ := fun _ h =>
  absurd (Location.encloses_iff.mp h).2.2 (Nat.not_lt_zero _)

theorem Reaches.child (h : tree.Reaches place) (hplace : tree.isDirectory place = true)
    (name : List Char) : tree.Reaches (place.child name) := by
  intro outer houter
  rcases Location.eq_or_encloses_of_child houter with rfl | houter
  · exact hplace
  · exact h outer houter

theorem Reaches.parent (h : tree.Reaches place) : tree.Reaches place.parent := fun outer houter =>
  h outer (Location.encloses_of_parent houter)

/-- **What each step of a path keeps holds where the path leads.** A step down starts in a directory. -/
theorem walk_induction {P : Location → Prop} (hparent : ∀ {place}, P place → P place.parent)
    (hchild : ∀ {place name}, P place → tree.isDirectory place = true → name ≠ ['.'] →
      P (place.child name)) (hstart : P start) (h : tree.walk start names = .ok place) : P place := by
  fun_induction FileTree.walk tree start names with
  | case1 start =>
    cases h
    exact hstart
  | case2 start rest hdirectory ih => exact ih hstart h
  | case3 start rest hdirectory hdot ih => exact ih (hparent hstart) h
  | case4 | case6 | case7 => cases h
  | case5 start name rest hdirectory hdot hdots hlimit ih => exact ih (hchild hstart hdirectory hdot) h

/-- **Names lead from directory to directory.** -/
theorem reaches_of_walk (hstart : tree.Reaches start) (h : tree.walk start names = .ok place) :
    tree.Reaches place :=
  walk_induction Reaches.parent (fun hplace hdirectory _ => hplace.child hdirectory _) hstart h

/-- Names lead where they led as long as the directories are the same. -/
theorem walk_of_directories (hsame : ∀ other, after.isDirectory other = tree.isDirectory other)
    (h : tree.walk start names = .ok place) : after.walk start names = .ok place := by
  fun_induction FileTree.walk tree start names with
  | case1 start => exact h
  | case2 start rest hdirectory ih =>
    rw [FileTree.walk, hsame, if_pos hdirectory, if_pos rfl]
    exact ih h
  | case3 start rest hdirectory hdot ih =>
    rw [FileTree.walk, hsame, if_pos hdirectory, if_neg hdot, if_pos rfl]
    exact ih h
  | case4 | case6 | case7 => cases h
  | case5 start name rest hdirectory hdot hdots hlimit ih =>
    rw [FileTree.walk, hsame, if_pos hdirectory, if_neg hdot, if_neg hdots, if_neg hlimit]
    exact ih h

/-- A path that is written to leads to a place that is no directory, and is read there too. -/
theorem of_locateTarget {path : String} (h : tree.locateTarget path = .ok place) :
    tree.locate path = .ok place ∧ tree.isDirectory place = false ∧ tree.Reaches place := by
  cases herror : pathError? path with
  | some error =>
    rw [locateTarget, herror] at h
    cases h
  | none =>
    simp only [locateTarget, herror] at h
    simp only [locate, herror]
    by_cases hslash : endsInSlash path = true
    · obtain ⟨-, -, h⟩ := Except.bind_eq_ok.mp ((if_pos hslash).symm.trans h)
      cases h
    · obtain ⟨found, hwalk, h⟩ := Except.bind_eq_ok.mp ((if_neg hslash).symm.trans h)
      by_cases hdirectory : tree.isDirectory found = true
      · rw [if_pos hdirectory] at h
        cases h
      · rw [if_neg hdirectory] at h
        cases h
        refine ⟨?_, Bool.eq_false_iff.mpr hdirectory,
          reaches_of_walk (reaches_base tree _) hwalk⟩
        rw [if_neg hslash]
        exact hwalk

theorem locate_of_directories {path : String}
    (hsame : ∀ other, after.isDirectory other = tree.isDirectory other)
    (h : tree.locate path = .ok place) : after.locate path = .ok place := by
  unfold locate at h ⊢
  split at h
  · cases h
  · exact walk_of_directories hsame h

theorem locateTarget_of_directories {path : String}
    (hsame : ∀ other, after.isDirectory other = tree.isDirectory other)
    (h : tree.locateTarget path = .ok place) : after.locateTarget path = .ok place := by
  unfold locateTarget at h ⊢
  split at h
  · cases h
  · dsimp only at h ⊢
    split at h
    · obtain ⟨-, -, h⟩ := Except.bind_eq_ok.mp h
      cases h
    · next hslash =>
      obtain ⟨found, hwalk, h⟩ := Except.bind_eq_ok.mp h
      rw [if_neg hslash]
      refine Except.bind_eq_ok.mpr ⟨found, walk_of_directories hsame hwalk, ?_⟩
      rw [hsame]
      exact h

/-! ## Entries -/

theorem lookup_assign (place other : Location) (bytes : ByteArray) (files : List (Location × ByteArray)) :
    (assign place bytes files).lookup other =
      if other = place then some bytes else files.lookup other := by
  induction files with
  | nil => by_cases h : other = place <;> simp [assign, List.lookup_cons, h, beq_false_of_ne]
  | cons file rest ih =>
    obtain ⟨location, content⟩ := file
    by_cases hfile : location = place <;> by_cases h : other = place <;>
      by_cases hother : other = location <;>
      simp_all [assign, List.lookup_cons, beq_false_of_ne]

theorem any_assign (place : Location) (bytes : ByteArray) (p : Location → Bool)
    (files : List (Location × ByteArray)) :
    (assign place bytes files).any (fun file => p file.1) =
      (p place || files.any fun file => p file.1) := by
  induction files with
  | nil => rfl
  | cons file rest ih =>
    rw [assign]
    split
    · next hfile => rw [List.any_cons, List.any_cons, hfile, Bool.or_self_left]
    · rw [List.any_cons, List.any_cons, ih, Bool.or_left_comm]

/-! ## Directories without files -/

theorem encloses_ownEntry (place : Location) : place.encloses (ownEntry place) = true := by
  refine Location.encloses_iff.mpr ⟨rfl, List.prefix_append _ _, ?_⟩
  rw [ownEntry, Location.child, List.length_append, List.length_singleton]
  exact Nat.lt_succ_self _

/-- A directory exists once it has an entry of its own. -/
theorem isDirectory_makeDirectory (tree : FileTree) (place : Location) :
    (tree.makeDirectory place).isDirectory place = true := by
  rw [isDirectory, makeDirectory, any_assign, encloses_ownEntry, Bool.true_or, Bool.or_true]

/-- No file changes when a directory is made. -/
theorem file?_makeDirectory (tree : FileTree) {place other : Location} (h : other ≠ ownEntry place) :
    (tree.makeDirectory place).file? other = tree.file? other := by
  rw [file?, makeDirectory, lookup_assign, if_neg h, file?]

/-- **No path leads to the entry that a directory has for itself.** -/
theorem ne_ownEntry_of_locate {path : String} (h : tree.locate path = .ok place) (directory : Location) :
    place ≠ ownEntry directory := by
  have hnames : ['.'] ∉ place.names := by
    unfold locate at h
    split at h
    · cases h
    · refine walk_induction (P := fun place => ['.'] ∉ place.names) (fun hplace => ?_)
        (fun hplace _ hname => ?_) List.not_mem_nil h
      · exact Location.not_mem_names_parent hplace
      · rw [Location.child, List.mem_append, not_or, List.mem_singleton]
        exact ⟨hplace, hname.symm⟩
  rintro rfl
  exact hnames (List.mem_append_right _ (List.mem_singleton.mpr rfl))

/-! ## What a write does -/

/-- Files in a place that can be reached make no directory. -/
theorem Reaches.isDirectory_assign (h : tree.Reaches place) (bytes : ByteArray) (other : Location) :
    isDirectory ⟨assign place bytes tree.files⟩ other = tree.isDirectory other := by
  rw [isDirectory, any_assign, isDirectory]
  cases hinside : other.encloses place with
  | false => rfl
  | true =>
    have hother := h other hinside
    rw [isDirectory] at hother
    rw [Bool.true_or, Bool.or_true, hother]

/-- **The file that a path leads to holds the bytes, and nothing else is changed.** What is written to the
null device is lost. -/
structure Stored (before after : FileTree) (path : String) (place : Location) (bytes : ByteArray) :
    Prop where
  target : before.locateTarget path = .ok place
  held : place ≠ Location.nullDevice → after.file? place = some bytes
  read : place ≠ Location.nullDevice → after.read path = .ok bytes
  lost : place = Location.nullDevice → after = before
  others : ∀ other, other ≠ place → after.file? other = before.file? other
  directories : ∀ other, after.isDirectory other = before.isDirectory other

theorem stored_of_assign {path : String} {bytes : ByteArray} (htarget : tree.locateTarget path = .ok place)
    (hplace : place ≠ Location.nullDevice) :
    Stored tree ⟨assign place bytes tree.files⟩ path place bytes := by
  obtain ⟨hlocate, hdirectory, hreaches⟩ := of_locateTarget htarget
  have hdirectories := hreaches.isDirectory_assign bytes
  have hheld : file? ⟨assign place bytes tree.files⟩ place = some bytes := by
    rw [file?, if_neg hplace, lookup_assign, if_pos rfl]
  refine ⟨htarget, fun _ => hheld, fun _ => ?_, fun hnull => absurd hnull hplace,
    fun other hother => ?_, hdirectories⟩
  · refine Except.bind_eq_ok.mpr ⟨place, locate_of_directories hdirectories hlocate, ?_⟩
    rw [hdirectories, hdirectory, if_neg Bool.false_ne_true, hheld]
  · rw [file?, lookup_assign, if_neg hother, file?]

/-- What the file at a location holds, nothing if there is none. -/
def contents (tree : FileTree) (place : Location) : ByteArray := (tree.file? place).getD ByteArray.empty

/-- **A write to a path that leads somewhere succeeds**, and stores the bytes behind what they are to
follow. -/
theorem exists_write {path : String} (htarget : tree.locateTarget path = .ok place) (append : Bool)
    (bytes : ByteArray) : ∃ after, tree.write path append bytes = .ok after ∧
      Stored tree after path place
        ((if append then tree.contents place else ByteArray.empty) ++ bytes) := by
  by_cases hplace : place = Location.nullDevice
  · refine ⟨tree, Except.bind_eq_ok.mpr ⟨place, htarget, if_pos hplace⟩, ?_⟩
    exact ⟨htarget, absurd hplace, absurd hplace, fun _ => rfl, fun _ _ => rfl, fun _ => rfl⟩
  · exact ⟨_, Except.bind_eq_ok.mpr ⟨place, htarget, if_neg hplace⟩, stored_of_assign htarget hplace⟩

theorem stored_of_write {path : String} {bytes : ByteArray}
    (h : tree.write path false bytes = .ok after) : ∃ place, Stored tree after path place bytes := by
  obtain ⟨place, htarget, -⟩ := Except.bind_eq_ok.mp h
  obtain ⟨written, hwritten, hstored⟩ := exists_write htarget false bytes
  rw [if_neg Bool.false_ne_true, ByteArray.empty_append] at hstored
  cases h.symm.trans hwritten
  exact ⟨place, hstored⟩

theorem Stored.contents_eq {path : String} {bytes : ByteArray} (h : Stored tree after path place bytes)
    (hplace : place ≠ Location.nullDevice) : after.contents place = bytes := by
  rw [contents, h.held hplace, Option.getD_some]

/-- Of two writes to one place the second one counts. -/
theorem Stored.trans {last : FileTree} {path : String} {bytes more : ByteArray}
    (h₁ : Stored tree after path place bytes) (h₂ : Stored after last path place more) :
    Stored tree last path place more where
  target := h₁.target
  held := h₂.held
  read := h₂.read
  lost hnull := (h₂.lost hnull).trans (h₁.lost hnull)
  others other hother := (h₂.others other hother).trans (h₁.others other hother)
  directories other := (h₂.directories other).trans (h₁.directories other)

/-- **A file is opened and then added to.** It holds what it held when it was opened, nothing if it was
emptied, and then the bytes. -/
theorem exists_write_behind {path : String} (htarget : tree.locateTarget path = .ok place) (append : Bool)
    (bytes : ByteArray) : ∃ opened after, tree.write path append ByteArray.empty = .ok opened ∧
      opened.write path true bytes = .ok after ∧
      Stored tree after path place
        ((if append then tree.contents place else ByteArray.empty) ++ bytes) := by
  obtain ⟨opened, hopened, hstored⟩ := exists_write htarget append ByteArray.empty
  have htargetOpened := locateTarget_of_directories hstored.directories htarget
  obtain ⟨after, hafter, hadded⟩ := exists_write htargetOpened true bytes
  refine ⟨opened, after, hopened, hafter, ?_⟩
  have hall := hstored.trans hadded
  by_cases hplace : place = Location.nullDevice
  · exact ⟨htarget, absurd hplace, absurd hplace, hall.lost, hall.others, hall.directories⟩
  · rwa [if_pos rfl, hstored.contents_eq hplace, ByteArray.append_empty] at hall

/-- The text of the file that a path leads to. -/
def readText (tree : FileTree) (path : String) : Except FileError String :=
  (tree.read path).bind FileError.decodeText

/-- A path leads to a location, and bytes are read there. -/
structure Supplies (tree : FileTree) (path : String) (place : Location) (bytes : ByteArray) : Prop where
  leads : tree.locate path = .ok place
  read : tree.read path = .ok bytes

/-- What is stored in one file changes nothing that another one supplies. -/
theorem Supplies.of_stored {path other : String} {found : Location} {bytes more : ByteArray}
    (h : Supplies tree other found bytes) (hstored : Stored tree after path place more)
    (hne : found ≠ place) : Supplies after other found bytes := by
  obtain ⟨hleads, hread⟩ := h
  have hleads' := locate_of_directories hstored.directories hleads
  refine ⟨hleads', ?_⟩
  rw [FileTree.read, hleads] at hread
  rw [FileTree.read, hleads', ← hread]
  simp only [bind, Except.bind, hstored.directories, hstored.others found hne]

end FileTree

/-! ## Scripts in parts -/

namespace Script

variable {α β : Type} {world : World}

theorem run_bind (script : Script α) (f : α → Script β) (world : World) :
    (script >>= f).run world = (f (script.run world).1).run (script.run world).2 := by
  change (script.bind f).run world = _
  induction script generalizing world with
  | done result => rfl
  | read path next ih => exact ih _ world
  | write path append bytes next ih =>
    rw [Script.bind, run, run]
    split
    · exact ih _ _
    · exact ih _ _
  | print bytes next ih => exact ih _
  | complain text next ih => exact ih _

theorem run_readFile (path : String) (world : World) :
    (readFile path).run world = (world.files.read path, world) := rfl

theorem run_writeFile_ok {path : String} {append : Bool} {bytes : ByteArray} {files : FileTree}
    (h : world.files.write path append bytes = .ok files) :
    (writeFile path append bytes).run world = (.ok (), { world with files }) := by
  rw [writeFile, run, h]
  rfl

theorem run_writeFile_error {path : String} {append : Bool} {bytes : ByteArray} {error : FileError}
    (h : world.files.write path append bytes = .error error) :
    (writeFile path append bytes).run world = (.error error, world) := by
  rw [writeFile, run, h]
  rfl

end Script

end Accumulator
