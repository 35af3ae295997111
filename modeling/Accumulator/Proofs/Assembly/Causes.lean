import Accumulator.Proofs.Assembly.Overlap
import Accumulator.Proofs.Assembly.Reports

/-!
# Every error of the layout has its cause

* `Redefined`, `Overflows`, `Collides` — what has to be the case in the source for each kind of error.
* `Walk.Faithful` — a walk binds labels in the order of the source, and what it has reported for labels and
  for lines past the address space is the case. `Faithful.bindLabel` and `Faithful.step` keep it.
* `collides_of_meets` — a line that meets an owner shares the cell with an earlier line.
* `genuine_of_build` — every error that the layout reports has its cause in the source.
-/

namespace Accumulator

/-! ## Causes -/

/-- The name is written on a line and, behind that, on another one or on the same once more; the table has
kept the first of the two. -/
structure Redefined (lines : List Line) (labels : SymbolTable) (number : Nat) (name : String)
    (first : Nat) : Prop where
  ordered : first ≤ number
  onFirst : ∃ line ∈ lines, line.number = first ∧ name ∈ line.labels
  onLine : ∃ line ∈ lines, line.number = number ∧ name ∈ line.labels
  twice : [⟨name, first⟩, ⟨name, number⟩].Sublist (lines.flatMap Line.pending)
  kept : ∃ address, labels.find? name = some ⟨first, address⟩

/-- The cell is the one that a label of the line is to be bound to, or the last cell of the line. -/
inductive Overflows (lines : List Line) (number cell : Nat) : Prop
  | label {name : String} (binding : (⟨name, number⟩, cell) ∈ Line.bindings 0 lines)
  | line {cursor : Nat} {line : Line} (placed : (cursor, line) ∈ Line.cursors 0 lines)
    (number_eq : line.number = number) (occupies : line.occupies = true)
    (last : cell + 1 = cursor + line.size)

/-- Two lines that fit share the cell, and the owner is the earlier one. -/
structure Collides (lines : List Line) (number cell owner : Nat) : Prop where
  ordered : owner < number
  addressable : cell < addressSpace
  earlier : ∃ p ∈ Line.cursors 0 lines, p.2.number = owner ∧ Line.Fits p ∧ Line.Covers p cell
  later : ∃ p ∈ Line.cursors 0 lines, p.2.number = number ∧ Line.Fits p ∧ Line.Covers p cell

/-- What an error of the layout says is the case, and of the cells that a line may be reported for it is
the lowest. -/
def LineError.Genuine (lines : List Line) (labels : SymbolTable) (errors : List LineError) :
    LineError → Prop
  | ⟨number, .redefinedLabel name first⟩ => Redefined lines labels number name first
  | ⟨number, .addressOverflow cell⟩ => addressSpace ≤ cell ∧ Overflows lines number cell
  | ⟨number, .overlap cell owner⟩ => Collides lines number cell owner ∧
      ∀ lower other, ⟨number, .overlap lower other⟩ ∈ errors → cell ≤ lower
  | _ => False

/-! ## Labels -/

namespace Line

theorem map_fst_bindings (cursor : Nat) (lines : List Line) :
    (bindings cursor lines).map Prod.fst = lines.flatMap pending := by
  induction lines generalizing cursor with
  | nil => rfl
  | cons line lines ih =>
    rw [bindings, List.map_append, ih, List.flatMap_cons, List.map_map]
    simp [Function.comp_def]

theorem mem_pending {label : PendingLabel} {line : Line} :
    label ∈ line.pending ↔ line.number = label.line ∧ label.name ∈ line.labels := by
  rw [pending, List.mem_map]
  constructor
  · rintro ⟨name, hname, rfl⟩
    exact ⟨rfl, hname⟩
  · rintro ⟨hnumber, hname⟩
    exact ⟨label.name, hname, by rw [hnumber]⟩

theorem pairwise_pending {lines : List Line} (h : (lines.map (·.number)).Pairwise (· < ·)) :
    (lines.flatMap pending).Pairwise (·.line ≤ ·.line) := by
  rw [List.pairwise_flatMap]
  refine ⟨fun line _ => List.pairwise_of_forall_mem_list fun label hlabel other hother => ?_, ?_⟩
  · exact Nat.le_of_eq ((mem_pending.mp hlabel).1.symm.trans (mem_pending.mp hother).1)
  · refine (List.pairwise_map.mp h).imp fun hlt label hlabel other hother => ?_
    rw [← (mem_pending.mp hlabel).1, ← (mem_pending.mp hother).1]
    exact Nat.le_of_lt hlt

end Line

/-- A name that is written twice is written on both lines, and on the first one first. -/
theorem Redefined.of_twice {lines : List Line} {labels : SymbolTable} {number first : Nat} {name : String}
    (hnumbers : (lines.map (·.number)).Pairwise (· < ·))
    (twice : [⟨name, first⟩, ⟨name, number⟩].Sublist (lines.flatMap Line.pending))
    (kept : ∃ address, labels.find? name = some ⟨first, address⟩) :
    Redefined lines labels number name first := by
  have hwritten {label : PendingLabel} (hlabel : label ∈ lines.flatMap Line.pending) :
      ∃ line ∈ lines, line.number = label.line ∧ label.name ∈ line.labels := by
    obtain ⟨line, hline, hmem⟩ := List.mem_flatMap.mp hlabel
    exact ⟨line, hline, Line.mem_pending.mp hmem⟩
  refine ⟨?_, ?_, ?_, twice, kept⟩
  · have hpair := (Line.pairwise_pending hnumbers).sublist twice
    exact (List.pairwise_cons.mp hpair).1 _ List.mem_cons_self
  · exact hwritten (twice.subset List.mem_cons_self)
  · exact hwritten (twice.subset (List.mem_cons_of_mem _ List.mem_cons_self))

theorem SymbolTable.mem_bound_of_find? {table : SymbolTable} {name : String} {symbol : Symbol}
    (h : table.find? name = some symbol) :
    (⟨name, symbol.line⟩, symbol.address.toNat) ∈ table.bound := by
  obtain ⟨before, after, hentries, -⟩ := List.lookup_eq_some_iff.mp h
  have hmem : (name, symbol) ∈ table.toList := by
    rw [toList, List.mem_reverse, hentries]
    simp
  exact List.mem_map_of_mem hmem

namespace Walk

variable {w w' : Walk} {line : Line} {lines rest : List Line} {label : PendingLabel}
  {waiting : List (PendingLabel × Nat)}

/-- What binding a label does to a walk. -/
inductive Binds (w : Walk) (label : PendingLabel) : Walk → Prop
  | bound {address : Address} {labels : SymbolTable} (cell : address.toNat = w.cursor)
    (defined : w.labels.define label.name ⟨label.line, address⟩ = .ok labels) :
    Binds w label { w with labels }
  | overflow (past : addressSpace ≤ w.cursor) :
    Binds w label (w.report label.line (.addressOverflow w.cursor))
  | redefined {first : Symbol} (found : w.labels.find? label.name = some first) :
    Binds w label (w.report label.line (.redefinedLabel label.name first.line))

theorem bindLabel_binds (w : Walk) (label : PendingLabel) : w.Binds label (w.bindLabel label) := by
  unfold bindLabel
  split
  · next hnone =>
    refine .overflow (Nat.le_of_not_lt fun hlt => ?_)
    rw [Address.ofNat?, if_pos hlt] at hnone
    cases hnone
  · next address haddress =>
    split
    · next labels hdefine => exact .bound (Address.toNat_of_ofNat? haddress) hdefine
    · next first hdefine =>
      unfold SymbolTable.define at hdefine
      split at hdefine
      · next symbol hfound =>
        cases hdefine
        exact .redefined hfound
      · cases hdefine

/-- What holds of a walk that still has to bind `waiting`. -/
structure Faithful (lines : List Line) (w : Walk) (waiting : List (PendingLabel × Nat)) : Prop where
  labels : (w.labels.bound ++ waiting).Sublist (Line.bindings 0 lines)
  redefined : ∀ number name first, ⟨number, .redefinedLabel name first⟩ ∈ w.errors →
    [⟨name, first⟩, ⟨name, number⟩].Sublist (lines.flatMap Line.pending) ∧
      ∃ address, w.labels.find? name = some ⟨first, address⟩
  overflow : ∀ number cell, ⟨number, .addressOverflow cell⟩ ∈ w.errors →
    addressSpace ≤ cell ∧ Overflows lines number cell

namespace Faithful

/-- A report keeps the faith if it says what is the case. -/
theorem report {number : Nat} {error : AssemblyError} (h : Faithful lines w waiting)
    (hredefined : ∀ name first, error = .redefinedLabel name first →
      [⟨name, first⟩, ⟨name, number⟩].Sublist (lines.flatMap Line.pending) ∧
        ∃ address, w.labels.find? name = some ⟨first, address⟩)
    (hoverflow : ∀ cell, error = .addressOverflow cell →
      addressSpace ≤ cell ∧ Overflows lines number cell) :
    Faithful lines (w.report number error) waiting := by
  refine ⟨h.labels, fun number name first he => ?_, fun number cell he => ?_⟩
  · rcases Array.mem_push.mp he with he | he
    · exact h.redefined number name first he
    · cases he
      exact hredefined name first rfl
  · rcases Array.mem_push.mp he with he | he
    · exact h.overflow number cell he
    · cases he
      exact hoverflow cell rfl

/-- **Binding a label keeps the faith.** A label that the table has already is written behind the one that
the table has, since the table is filled in the order of the source. -/
theorem bindLabel (h : Faithful lines w ((label, w.cursor) :: waiting)) :
    Faithful lines (w.bindLabel label) waiting := by
  have hskip : Faithful lines w waiting :=
    ⟨((List.Sublist.refl _).append (List.sublist_cons_self _ _)).trans h.labels, h.redefined, h.overflow⟩
  have hbinds := w.bindLabel_binds label
  generalize w.bindLabel label = w' at hbinds ⊢
  cases hbinds with
  | @bound address labels cell defined =>
    obtain ⟨hname, hbound⟩ := SymbolTable.define_eq_ok defined
    refine ⟨?_, fun number name first he => ?_, h.overflow⟩
    · rw [hbound, cell, List.append_assoc]
      exact h.labels
    · obtain ⟨htwice, kept, hkept⟩ := h.redefined number name first he
      refine ⟨htwice, kept, ?_⟩
      have hne : name ≠ label.name := by
        rintro rfl
        exact absurd (hkept.symm.trans (SymbolTable.find?_eq_none_iff.mpr hname)) nofun
      rw [SymbolTable.find?_define defined, if_neg hne, hkept]
  | overflow past =>
    refine hskip.report (fun name first heq => by cases heq) fun cell heq => ?_
    cases heq
    exact ⟨past, .label (h.labels.subset (List.mem_append_right _ List.mem_cons_self))⟩
  | @redefined symbol found =>
    refine hskip.report (fun name first heq => ?_) fun cell heq => by cases heq
    cases heq
    have hfirst := SymbolTable.mem_bound_of_find? found
    have hpair := ((List.singleton_sublist.mpr hfirst).append
      (List.singleton_sublist.mpr (List.mem_cons_self (a := (label, w.cursor)) (l := waiting)))).trans
        h.labels
    rw [← Line.map_fst_bindings 0]
    exact ⟨hpair.map Prod.fst, symbol.address, found⟩

theorem foldl_bindLabel {pending : List PendingLabel}
    (h : Faithful lines w (pending.map (·, w.cursor) ++ waiting)) :
    Faithful lines (pending.foldl Walk.bindLabel w) waiting := by
  induction pending generalizing w with
  | nil => exact h
  | cons label pending ih =>
    obtain ⟨labels, errors, hframe⟩ := bindLabel_frame w label
    have hlabel := h.bindLabel
    have hcursor : (w.bindLabel label).cursor = w.cursor := by rw [hframe]
    rw [← hcursor] at hlabel
    exact ih hlabel

theorem bindPending (h : Faithful lines w (w.pending.map (·, w.cursor) ++ waiting)) :
    Faithful lines w.bindPending waiting :=
  foldl_bindLabel (w := { w with pending := [] }) ⟨h.labels, h.redefined, h.overflow⟩

theorem place (h : Faithful lines w (w.pending.map (·, w.cursor) ++ waiting))
    (hline : (w.cursor, line) ∈ Line.cursors 0 lines) (hoccupies : line.occupies = true) :
    Faithful lines (w.place line) waiting := by
  have hbound := h.bindPending
  have hlabels : (w.place line).labels = w.bindPending.labels := (place_eq w line).2.2.1
  refine ⟨hlabels ▸ hbound.labels, fun number name first he => ?_, fun number cell he => ?_⟩
  · rw [hlabels]
    rcases (mem_errors_place w line _).mp he with he | ⟨-, he⟩ | ⟨-, _, _, -, he⟩
    · exact hbound.redefined number name first he
    · cases he
    · cases he
  · rcases (mem_errors_place w line _).mp he with he | ⟨hpast, he⟩ | ⟨-, _, _, -, he⟩
    · exact hbound.overflow number cell he
    · cases he
      exact ⟨by omega, .line hline rfl hoccupies (by omega)⟩
    · cases he

end Faithful

/-- The labels that the walk waits with or has yet to meet in the lines, each with its cell. -/
def awaited (w : Walk) (rest : List Line) : List (PendingLabel × Nat) :=
  w.pending.map (·, Line.anchor w.cursor rest) ++ Line.bindings w.cursor rest

theorem awaited_step_of_not_occupies (hoccupies : line.occupies = false) :
    (w.step line).awaited rest = w.awaited (line :: rest) := by
  obtain ⟨hcursor, hpending, -, -, -⟩ := step_of_not_occupies (w := w) hoccupies
  simp only [awaited, hcursor, hpending, Line.anchor, Line.bindings, hoccupies, Bool.false_eq_true,
    if_false, List.map_append, List.append_assoc]

theorem awaited_of_occupies (hoccupies : line.occupies = true) :
    w.awaited (line :: rest) = (w.pending ++ line.pending).map (·, w.cursor) ++
      Line.bindings (line.next w.cursor) rest := by
  simp only [awaited, Line.anchor, Line.bindings, hoccupies, if_true, List.map_append,
    List.append_assoc]

/-- **A line keeps the faith.** -/
theorem Faithful.step (h : Faithful lines w (w.awaited (line :: rest)))
    (hline : (w.cursor, line) ∈ Line.cursors 0 lines) :
    Faithful lines (w.step line) ((w.step line).awaited rest) := by
  cases hoccupies : line.occupies with
  | false =>
    obtain ⟨-, -, hlabels, -, herrors⟩ := step_of_not_occupies (w := w) hoccupies
    rw [awaited_step_of_not_occupies hoccupies]
    exact ⟨hlabels ▸ h.labels, by rw [hlabels, herrors]; exact h.redefined,
      by rw [herrors]; exact h.overflow⟩
  | true =>
    rw [awaited_of_occupies hoccupies] at h
    have hpending : (w.step line).pending = [] := by
      rw [step_of_occupies hoccupies, (place_eq _ line).2.1]
    rw [awaited, hpending, List.map_nil, List.nil_append, cursor_step, step_of_occupies hoccupies]
    exact Faithful.place (w := { w with pending := w.pending ++ line.pending })
      ⟨h.labels, h.redefined, h.overflow⟩ hline hoccupies

theorem Faithful.foldl_step (h : Faithful lines w (w.awaited rest))
    (hrest : ∀ p ∈ Line.cursors w.cursor rest, p ∈ Line.cursors 0 lines) :
    Faithful lines (rest.foldl Walk.step w).bindPending [] := by
  induction rest generalizing w with
  | nil => exact h.bindPending
  | cons line rest ih =>
    rw [Line.cursors, List.forall_mem_cons] at hrest
    exact ih (h.step hrest.1) (by rw [cursor_step]; exact hrest.2)

theorem faithful_ofLines (lines : List Line) : Faithful lines (ofLines lines) [] := by
  have hempty : Faithful lines {} (({} : Walk).awaited lines) :=
    ⟨List.Sublist.refl _, by simp, by simp⟩
  exact hempty.foldl_step fun p hp => hp

end Walk

/-! ## Overlaps -/

namespace Walk

/-- A line and the walk in front of it, from where they stand in the source. -/
theorem exists_split_of_mem_along {w : Walk} {lines : List Line} {p : Walk × Line}
    (hp : p ∈ w.along lines) :
    ∃ before after, lines = before ++ p.2 :: after ∧ p.1 = before.foldl step w := by
  induction lines generalizing w with
  | nil => cases hp
  | cons line lines ih =>
    rcases List.mem_cons.mp hp with rfl | hp
    · exact ⟨[], lines, rfl, rfl⟩
    · obtain ⟨before, after, rfl, hwalk⟩ := ih hp
      exact ⟨line :: before, after, rfl, hwalk⟩

/-- **A line that meets an owner shares the cell with it**, and the owner is an earlier line. -/
theorem collides_of_meets {lines : List Line} (hnumbers : (lines.map (·.number)).Pairwise (· < ·))
    {p : Walk × Line} (hp : p ∈ ({} : Walk).along lines) {cell owner : Nat}
    (h : p.1.Meets p.2 cell owner) : Collides lines p.2.number cell owner := by
  obtain ⟨⟨hfits, hreaches⟩, howner⟩ := h
  have hcursors := map_cursor_along {} lines
  obtain ⟨before, after, hsplit, hwalk⟩ := exists_split_of_mem_along hp
  rw [hwalk] at howner
  obtain ⟨q, hq, ⟨hqfits, hqreaches⟩, rfl⟩ : ∃ q ∈ ({} : Walk).along before,
      q.1.Takes q.2 cell ∧ owner = q.2.number := by
    simpa using takes_of_owner howner
  have hqline : q.2 ∈ before := by
    rw [← map_snd_along {} before]
    exact List.mem_map_of_mem hq
  refine ⟨?_, Nat.lt_of_lt_of_le hreaches.1.2 hfits.2, ?_, ?_⟩
  · rw [hsplit, List.map_append, List.pairwise_append] at hnumbers
    exact hnumbers.2.2 _ (List.mem_map_of_mem hqline) _ List.mem_cons_self
  · have hmem : q ∈ ({} : Walk).along lines := by
      rw [hsplit, along_append]
      exact List.mem_append_left _ hq
    exact ⟨_, hcursors ▸ List.mem_map_of_mem hmem, rfl, hqfits, hqreaches.1⟩
  · exact ⟨_, hcursors ▸ List.mem_map_of_mem hp, rfl, hfits, hreaches.1⟩

end Walk

/-! ## The report -/

namespace Layout

variable {source : String} {lines : List Line} {errors : List LineError}

/-- **Every error that the layout reports has its cause in the source.** -/
theorem genuine_of_build (hread : Line.readAll source = .ok lines) (h : build lines = .error errors) :
    ∀ e ∈ errors, e.Genuine lines (Walk.ofLines lines).labels errors := by
  have hnumbers : (lines.map (·.number)).Pairwise (· < ·) := by
    rw [Line.number_readAll hread]
    exact List.pairwise_lt_range' _
  have hfaithful := Walk.faithful_ofLines lines
  rintro ⟨number, error⟩ he
  have hmem : ⟨number, error⟩ ∈ (Walk.ofLines lines).errors := by
    rwa [errors_eq_of_build h, Array.mem_toList_iff] at he
  have hplacement := (errors_of_build h).2.2 _ he
  cases error with
  | redefinedLabel name first =>
    obtain ⟨htwice, kept⟩ := hfaithful.redefined number name first hmem
    exact Redefined.of_twice hnumbers htwice kept
  | addressOverflow cell => exact hfaithful.overflow number cell hmem
  | overlap cell owner =>
    obtain ⟨p, hp, hmeets, rfl⟩ := (overlap_mem_iff h).mp he
    refine ⟨Walk.collides_of_meets hnumbers hp hmeets, fun lower other hlower => ?_⟩
    have hlower := (overlap_mem_iff_meets h (Line.nodup_number hread) hp).mp hlower
    exact (Walk.takes_iff.mp hmeets.1).2.2 lower other hlower
  | _ => cases hplacement

end Layout

namespace Faulty

/-- A label twice on one line and once more on another, a row in the place of the first line, a row across
the end of the address space, and a label behind it. -/
def source : String := "X: X: NOP\nORG 0\nX: WORD 1, 2\nORG 0xFFFF\nWORD 3, 4\nEND:\n"

def lines : List Line :=
  [⟨1, ["X", "X"], some (.instruction ⟨.nop, .none⟩)⟩, ⟨2, [], some (.origin 0)⟩,
    ⟨3, ["X"], some (.words [.literal 1, .literal 2])⟩, ⟨4, [], some (.origin 0xFFFF)⟩,
    ⟨5, [], some (.words [.literal 3, .literal 4])⟩, ⟨6, ["END"], none⟩]

def errors : List LineError :=
  [⟨1, .redefinedLabel "X" 1⟩, ⟨3, .redefinedLabel "X" 1⟩, ⟨3, .overlap 0 1⟩,
    ⟨5, .addressOverflow 0x10000⟩, ⟨6, .addressOverflow 0x10001⟩]

theorem build_lines : Layout.build lines = .error errors := by
  simp [Layout.build, Walk.ofLines, Walk.step, Walk.bindPending, Walk.bindLabel, Walk.place,
    Walk.occupy, Walk.report, Walk.moveTo, Line.size, Statement.size, addressSpace,
    Address.ofNat?, SymbolTable.define, SymbolTable.find?, lines, errors]

theorem genuine_of_faulty :
    Line.readAll source = .ok lines ∧ Layout.build lines = .error errors ∧
      Redefined lines (Walk.ofLines lines).labels 1 "X" 1 ∧
      Redefined lines (Walk.ofLines lines).labels 3 "X" 1 ∧ Collides lines 3 0 1 ∧
      Overflows lines 5 0x10000 ∧ Overflows lines 6 0x10001 := by
  have hread : Line.readAll source = .ok lines := rfl
  have hgenuine := Layout.genuine_of_build hread build_lines
  simp only [errors, List.forall_mem_cons] at hgenuine
  obtain ⟨hsame, hlater, ⟨hcollides, -⟩, ⟨-, hrow⟩, ⟨-, hend⟩, -⟩ := hgenuine
  exact ⟨hread, build_lines, hsame, hlater, hcollides, hrow, hend⟩

end Faulty

end Accumulator
