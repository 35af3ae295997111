import Accumulator.Proofs.Assembly.Acceptance

/-!
# Which overlaps are reported

A line takes its cells one after the other and stops at the first one that has an owner. It never becomes the
owner of those behind that one, so a later line may share them unnoticed.

* `Walk.Takes`, `Walk.Meets` — a line gets as far as a cell, and there finds an owner.
* `Walk.owners_step`, `Walk.overlap_mem_step` — what one line does to the owners and to the report.
* `Walk.along`, `Walk.overlap_mem_foldl` — the same of all lines, each with the walk in front of it.
* `Line.Holds`, `Layout.takes_iff_holds` — the cells that a line takes, read off the report.
* `Layout.overlap_reported_iff` — a line is reported exactly if an earlier one holds a cell of it.
* `Shadowed.overlap_unreported` — a line that is not, since the earlier one was reported for a lower cell.
-/

namespace Accumulator

/-- The line takes cells from the cursor beside it on, and it ends in the address space. -/
def Line.Fits (p : Nat × Line) : Prop := p.2.occupies = true ∧ p.1 + p.2.size ≤ addressSpace

instance (p : Nat × Line) : Decidable (Line.Fits p) := inferInstanceAs (Decidable (_ ∧ _))

instance (p : Nat × Line) (cell : Nat) : Decidable (Line.Covers p cell) :=
  inferInstanceAs (Decidable (_ ∧ _))

namespace Walk

variable {w : Walk} {line : Line} {lines : List Line}

/-! ## One line -/

/-- A row of `count` cells from `start` on gets as far as the cell: no lower cell of it has an owner. -/
def Reaches (owners : Std.HashMap Nat Nat) (start count cell : Nat) : Prop :=
  (start ≤ cell ∧ cell < start + count) ∧
    ∀ lower : Nat, start ≤ lower → lower < cell → owners[lower]? = none

section Occupy

variable {owners : Std.HashMap Nat Nat} {number start count cell owner : Nat}

theorem reaches_succ_iff : Reaches owners start (count + 1) cell ↔
    cell = start ∨ owners[start]? = none ∧ Reaches owners (start + 1) count cell := by
  constructor
  · rintro ⟨⟨hstart, hstop⟩, hfree⟩
    rcases Nat.eq_or_lt_of_le hstart with rfl | hlt
    · exact .inl rfl
    · exact .inr ⟨hfree start (Nat.le_refl start) hlt, ⟨hlt, by omega⟩,
        fun lower hlower => hfree lower (Nat.le_of_succ_le hlower)⟩
  · rintro (rfl | ⟨hfirst, ⟨hstart, hstop⟩, hfree⟩)
    · exact ⟨⟨Nat.le_refl _, by omega⟩, fun lower hle hlt => absurd hlt (Nat.not_lt.mpr hle)⟩
    · refine ⟨⟨by omega, by omega⟩, fun lower hle hlt => ?_⟩
      rcases Nat.eq_or_lt_of_le hle with rfl | hgt
      · exact hfirst
      · exact hfree lower hgt hlt

/-- An owner in front of a row makes no difference to it. -/
theorem reaches_insert_iff :
    Reaches (owners.insert start number) (start + 1) count cell ↔
      Reaches owners (start + 1) count cell := by
  refine and_congr_right fun _ => forall₂_congr fun lower hlower => ?_
  have hne : (start == lower) = false := beq_false_of_ne (by omega)
  rw [Std.HashMap.getElem?_insert, hne]
  rfl

/-- A line becomes the owner of the cells that it reaches, and of no other. -/
theorem getElem?_occupy_iff : (occupy owners number start count).1[cell]? = some owner ↔
    (Reaches owners start count cell ∧ owner = number) ∨
      (¬ Reaches owners start count cell ∧ owners[cell]? = some owner) := by
  induction count generalizing owners start with
  | zero =>
    have hnone : ¬ Reaches owners start 0 cell := fun h => by
      obtain ⟨⟨hstart, hstop⟩, -⟩ := h
      omega
    simp [occupy, hnone]
  | succ count ih =>
    have hinsert : (owners.insert start number)[cell]? =
        if cell = start then some number else owners[cell]? := by
      rw [Std.HashMap.getElem?_insert]
      exact if_congr (by rw [beq_iff_eq, eq_comm]) rfl rfl
    rw [reaches_succ_iff]
    unfold occupy
    split
    · next first hfirst =>
      rw [hinsert, hfirst]
      by_cases hcell : cell = start
      · simp [hcell, eq_comm]
      · simp [hcell]
    · next hfirst =>
      rw [ih, reaches_insert_iff, hinsert, hfirst]
      by_cases hcell : cell = start
      · have hbehind : ¬ Reaches owners (start + 1) count cell := fun h => by
          obtain ⟨⟨hstart, -⟩, -⟩ := h
          omega
        simp [hcell ▸ hbehind, hcell, eq_comm]
      · simp [hcell]

/-- A line meets the owner of the last cell that it reaches. -/
theorem occupy_eq_some_iff : (occupy owners number start count).2 = some (cell, owner) ↔
    Reaches owners start count cell ∧ owners[cell]? = some owner := by
  induction count generalizing owners start with
  | zero =>
    refine iff_of_false (by simp [occupy]) ?_
    rintro ⟨⟨⟨hstart, hstop⟩, -⟩, -⟩
    omega
  | succ count ih =>
    rw [reaches_succ_iff]
    unfold occupy
    split
    · next first hfirst =>
      rw [hfirst]
      by_cases hcell : cell = start
      · simp [hcell, hfirst, eq_comm]
      · simp [hcell, Ne.symm hcell]
    · next hfirst =>
      have hbehind (h : Reaches owners (start + 1) count cell) :
          (owners.insert start number)[cell]? = owners[cell]? := by
        obtain ⟨⟨hstart, -⟩, -⟩ := h
        rw [Std.HashMap.getElem?_insert, beq_false_of_ne (by omega)]
        rfl
      rw [ih, reaches_insert_iff]
      constructor
      · rintro ⟨hreaches, howner⟩
        exact ⟨.inr ⟨hfirst, hreaches⟩, hbehind hreaches ▸ howner⟩
      · rintro ⟨rfl | ⟨-, hreaches⟩, howner⟩
        · rw [hfirst] at howner
          cases howner
        · exact ⟨hreaches, (hbehind hreaches).trans howner⟩

end Occupy

/-- The line takes the cell: it fits, and no lower cell of it has an owner. -/
def Takes (w : Walk) (line : Line) (cell : Nat) : Prop :=
  Line.Fits (w.cursor, line) ∧ Reaches w.owners w.cursor line.size cell

/-- The line takes a cell that has an owner, and stops there. -/
def Meets (w : Walk) (line : Line) (cell owner : Nat) : Prop :=
  w.Takes line cell ∧ w.owners[cell]? = some owner

/-- A line that takes cells becomes the owner of those that it reaches, if it fits. -/
theorem getElem?_place_iff (w : Walk) (line : Line) (cell owner : Nat) :
    (w.place line).owners[cell]? = some owner ↔
      ((w.cursor + line.size ≤ addressSpace ∧ Reaches w.owners w.cursor line.size cell) ∧
          owner = line.number) ∨
        (¬ (w.cursor + line.size ≤ addressSpace ∧ Reaches w.owners w.cursor line.size cell) ∧
          w.owners[cell]? = some owner) := by
  obtain ⟨labels, errors, hbind⟩ := bindPending_frame w
  unfold place
  simp only [hbind]
  split
  · next hstop => simp [Nat.not_le.mpr hstop, report]
  · next hstop =>
    have howners : (occupy w.owners line.number w.cursor line.size).1[cell]? = some owner ↔
        (Reaches w.owners w.cursor line.size cell ∧ owner = line.number) ∨
          (¬ Reaches w.owners w.cursor line.size cell ∧ w.owners[cell]? = some owner) :=
      getElem?_occupy_iff
    simp only [Nat.le_of_not_lt hstop, true_and]
    split <;> exact howners

/-- A line that takes cells is reported for its labels, and then if it does not fit, or else for an owner
in the last cell that it reaches. -/
theorem mem_errors_place (w : Walk) (line : Line) (e : LineError) :
    e ∈ (w.place line).errors ↔ e ∈ w.bindPending.errors ∨
      (addressSpace < w.cursor + line.size ∧
        e = ⟨line.number, .addressOverflow (w.cursor + line.size - 1)⟩) ∨
      (w.cursor + line.size ≤ addressSpace ∧ ∃ cell owner,
        (Reaches w.owners w.cursor line.size cell ∧ w.owners[cell]? = some owner) ∧
          e = ⟨line.number, .overlap cell owner⟩) := by
  obtain ⟨labels, errors, hbind⟩ := bindPending_frame w
  unfold place
  simp only [hbind]
  split
  · next hstop => simp [hstop, Nat.not_le.mpr hstop, report, or_assoc]
  · next hstop =>
    have hmeets (cell owner : Nat) : Reaches w.owners w.cursor line.size cell ∧ w.owners[cell]? = some owner ↔
        (occupy w.owners line.number w.cursor line.size).2 = some (cell, owner) := occupy_eq_some_iff.symm
    simp only [hstop, Nat.le_of_not_lt hstop, hmeets]
    split
    · next hcollision => simp [hcollision]
    · next cell owner hcollision => simp [hcollision, report, or_assoc]

theorem cursor_step (w : Walk) (line : Line) : (w.step line).cursor = line.next w.cursor := by
  cases hoccupies : line.occupies with
  | false => exact (step_of_not_occupies hoccupies).1
  | true =>
    rw [step_of_occupies hoccupies, (place_eq _ line).1, Line.next_of_occupies hoccupies]

/-- **A line becomes the owner of the cells that it takes, and of no other.** -/
theorem owners_step (w : Walk) (line : Line) (cell owner : Nat) :
    (w.step line).owners[cell]? = some owner ↔
      (w.Takes line cell ∧ owner = line.number) ∨
        (¬ w.Takes line cell ∧ w.owners[cell]? = some owner) := by
  cases hoccupies : line.occupies with
  | false =>
    have hnone : ¬ w.Takes line cell := fun h => Bool.false_ne_true (hoccupies.symm.trans h.1.1)
    rw [(step_of_not_occupies hoccupies).2.2.2.1]
    simp [hnone]
  | true =>
    have htakes : w.Takes line cell ↔
        w.cursor + line.size ≤ addressSpace ∧ Reaches w.owners w.cursor line.size cell :=
      and_congr_left' (and_iff_right hoccupies)
    rw [step_of_occupies hoccupies, getElem?_place_iff, htakes]

theorem overlap_mem_bindLabel {w : Walk} {label : PendingLabel} {number cell owner : Nat} :
    ⟨number, .overlap cell owner⟩ ∈ (w.bindLabel label).errors ↔
      ⟨number, .overlap cell owner⟩ ∈ w.errors := by
  unfold bindLabel
  split
  · simp [report]
  · split
    · rfl
    · simp [report]

/-- No overlap is reported for a label. -/
theorem overlap_mem_bindPending {w : Walk} {number cell owner : Nat} :
    ⟨number, .overlap cell owner⟩ ∈ w.bindPending.errors ↔
      ⟨number, .overlap cell owner⟩ ∈ w.errors := by
  have hfold (pending : List PendingLabel) (w : Walk) :
      ⟨number, .overlap cell owner⟩ ∈ (pending.foldl bindLabel w).errors ↔
        ⟨number, .overlap cell owner⟩ ∈ w.errors := by
    induction pending generalizing w with
    | nil => rfl
    | cons label pending ih => rw [List.foldl_cons, ih, overlap_mem_bindLabel]
  exact hfold w.pending { w with pending := [] }

/-- **A line is reported for the owner that it meets, and for no other.** -/
theorem overlap_mem_step (w : Walk) (line : Line) (number cell owner : Nat) :
    ⟨number, .overlap cell owner⟩ ∈ (w.step line).errors ↔
      ⟨number, .overlap cell owner⟩ ∈ w.errors ∨ (w.Meets line cell owner ∧ number = line.number) := by
  cases hoccupies : line.occupies with
  | false =>
    have hnone : ¬ w.Meets line cell owner := fun h =>
      Bool.false_ne_true (hoccupies.symm.trans h.1.1.1)
    rw [(step_of_not_occupies hoccupies).2.2.2.2]
    simp [hnone]
  | true =>
    have hmeets : w.Meets line cell owner ↔ w.cursor + line.size ≤ addressSpace ∧
        Reaches w.owners w.cursor line.size cell ∧ w.owners[cell]? = some owner := by
      rw [← and_assoc]
      exact and_congr_left' (and_congr_left' (and_iff_right hoccupies))
    rw [step_of_occupies hoccupies, mem_errors_place, overlap_mem_bindPending, hmeets]
    simp [and_assoc]

/-- A line takes the cells that it covers up to the one with an owner that it meets. -/
theorem takes_iff {cell : Nat} : w.Takes line cell ↔ Line.Fits (w.cursor, line) ∧
    Line.Covers (w.cursor, line) cell ∧ ∀ lower owner, w.Meets line lower owner → cell ≤ lower := by
  refine and_congr_right fun hfits => and_congr_right fun hcovers => ?_
  constructor
  · intro hfree lower owner hmeets
    by_contra hlt
    have hnone := hfree lower hmeets.1.2.1.1 (Nat.lt_of_not_le hlt)
    cases hnone.symm.trans hmeets.2
  · intro hmeets lower hstart hlower
    -- The lowest cell with an owner is one that the line meets.
    induction lower using Nat.strongRecOn with
    | ind lower ih =>
      cases howner : w.owners[lower]? with
      | none => rfl
      | some owner =>
        have htakes : w.Takes line lower :=
          ⟨hfits, ⟨hstart, Nat.lt_trans hlower hcovers.2⟩, fun other hother hlt =>
            ih other hlt hother (Nat.lt_trans hlt hlower)⟩
        exact absurd hlower (Nat.not_lt.mpr (hmeets lower owner ⟨htakes, howner⟩))

/-- A line meets an owner exactly if some cell of it has one. -/
theorem exists_meets_iff (hfits : Line.Fits (w.cursor, line)) :
    (∃ cell owner, w.Meets line cell owner) ↔
      ∃ cell : Nat, Line.Covers (w.cursor, line) cell ∧ ∃ owner, w.owners[cell]? = some owner := by
  constructor
  · rintro ⟨cell, owner, hmeets⟩
    exact ⟨cell, hmeets.1.2.1, owner, hmeets.2⟩
  · rintro ⟨cell, hcovers, owner, howner⟩
    by_contra hnone
    push Not at hnone
    have htakes : w.Takes line cell :=
      takes_iff.mpr ⟨hfits, hcovers, fun lower other hmeets => absurd hmeets (hnone lower other)⟩
    exact hnone cell owner ⟨htakes, howner⟩

theorem exists_owner_step (w : Walk) (line : Line) (cell : Nat) :
    (∃ owner, (w.step line).owners[cell]? = some owner) ↔
      w.Takes line cell ∨ ∃ owner, w.owners[cell]? = some owner := by
  simp only [owners_step]
  by_cases htakes : w.Takes line cell
  · simp [htakes]
  · simp [htakes]

/-! ## All lines -/

/-- Each line with the walk in front of it. -/
def along : Walk → List Line → List (Walk × Line)
  | _, [] => []
  | w, line :: rest => (w, line) :: along (w.step line) rest

theorem map_cursor_along (w : Walk) (lines : List Line) :
    (w.along lines).map (fun p => (p.1.cursor, p.2)) = Line.cursors w.cursor lines := by
  induction lines generalizing w with
  | nil => rfl
  | cons line lines ih => rw [along, List.map_cons, ih, Line.cursors, cursor_step]

theorem map_snd_along (w : Walk) (lines : List Line) : (w.along lines).map Prod.snd = lines := by
  induction lines generalizing w with
  | nil => rfl
  | cons line lines ih => rw [along, List.map_cons, ih]

theorem along_append (w : Walk) (before after : List Line) :
    w.along (before ++ after) = w.along before ++ (before.foldl step w).along after := by
  induction before generalizing w with
  | nil => rfl
  | cons line before ih => rw [List.cons_append, along, along, ih, List.foldl_cons, List.cons_append]

theorem cursor_foldl (w : Walk) (lines : List Line) :
    (lines.foldl step w).cursor = Line.stop w.cursor lines := by
  induction lines generalizing w with
  | nil => rfl
  | cons line lines ih => rw [List.foldl_cons, ih, cursor_step]; rfl

/-- Every overlap that is reported is reported for an owner that a line meets. -/
theorem overlap_mem_foldl (w : Walk) (lines : List Line) (number cell owner : Nat) :
    ⟨number, .overlap cell owner⟩ ∈ (lines.foldl step w).errors ↔
      ⟨number, .overlap cell owner⟩ ∈ w.errors ∨
        ∃ p ∈ w.along lines, p.1.Meets p.2 cell owner ∧ number = p.2.number := by
  induction lines generalizing w with
  | nil => simp [along]
  | cons line lines ih =>
    rw [List.foldl_cons, ih, overlap_mem_step, or_assoc, along, List.exists_mem_cons_iff]

/-- The cells with an owner are those that lines have taken. -/
theorem exists_owner_foldl (w : Walk) (lines : List Line) (cell : Nat) :
    (∃ owner, (lines.foldl step w).owners[cell]? = some owner) ↔
      (∃ p ∈ w.along lines, p.1.Takes p.2 cell) ∨ ∃ owner, w.owners[cell]? = some owner := by
  induction lines generalizing w with
  | nil => simp [along]
  | cons line lines ih =>
    rw [List.foldl_cons, ih, exists_owner_step, along, List.exists_mem_cons_iff, or_assoc,
      or_left_comm]

/-- An owner has taken the cell. -/
theorem takes_of_owner {cell owner : Nat} (h : (lines.foldl step w).owners[cell]? = some owner) :
    (∃ p ∈ w.along lines, p.1.Takes p.2 cell ∧ owner = p.2.number) ∨ w.owners[cell]? = some owner := by
  induction lines generalizing w with
  | nil => exact .inr h
  | cons line lines ih =>
    rw [along, List.exists_mem_cons_iff, or_assoc]
    rcases ih h with hlater | hbefore
    · exact .inr (.inl hlater)
    · rcases (owners_step w line cell owner).mp hbefore with htakes | ⟨-, howner⟩
      · exact .inl htakes
      · exact .inr (.inr howner)

end Walk

/-! ## The report -/

/-- The line covers the cell, and it is not reported for a lower one. -/
def Line.Holds (errors : List LineError) (p : Nat × Line) (cell : Nat) : Prop :=
  Covers p cell ∧ ∀ lower owner, ⟨p.2.number, .overlap lower owner⟩ ∈ errors → cell ≤ lower

namespace Layout

variable {source : String} {lines before after : List Line} {line : Line} {errors : List LineError}

/-- The errors of the layout are those of the walk. -/
theorem errors_eq_of_build (h : build lines = .error errors) :
    errors = (Walk.ofLines lines).errors.toList := by
  simp only [build] at h
  split at h
  · cases h
  · cases h
    rfl

theorem overlap_mem_iff (h : build lines = .error errors) {number cell owner : Nat} :
    ⟨number, .overlap cell owner⟩ ∈ errors ↔
      ∃ p ∈ ({} : Walk).along lines, p.1.Meets p.2 cell owner ∧ number = p.2.number := by
  rw [errors_eq_of_build h, Array.mem_toList_iff, Walk.ofLines, Walk.overlap_mem_bindPending,
    Walk.overlap_mem_foldl]
  simp

section

variable (h : build lines = .error errors) (hnumbers : (lines.map (·.number)).Nodup)
  {p : Walk × Line} (hp : p ∈ ({} : Walk).along lines)

include h hnumbers hp

/-- The overlaps that are reported for a line are the owners that it meets. -/
theorem overlap_mem_iff_meets {cell owner : Nat} :
    ⟨p.2.number, .overlap cell owner⟩ ∈ errors ↔ p.1.Meets p.2 cell owner := by
  rw [overlap_mem_iff h]
  constructor
  · rintro ⟨q, hq, hmeets, hnumber⟩
    have hkeys : ((({} : Walk).along lines).map fun q => q.2.number).Nodup := by
      have hmap := congrArg (List.map (·.number)) (Walk.map_snd_along {} lines)
      rw [List.map_map] at hmap
      exact hmap ▸ hnumbers
    have heq : p = q := List.inj_on_of_nodup_map hkeys hp hq hnumber
    exact heq ▸ hmeets
  · exact fun hmeets => ⟨p, hp, hmeets, rfl⟩

/-- **The cells that a line takes, read off the report.** -/
theorem takes_iff_holds {cell : Nat} : p.1.Takes p.2 cell ↔
    Line.Fits (p.1.cursor, p.2) ∧ Line.Holds errors (p.1.cursor, p.2) cell := by
  rw [Walk.takes_iff]
  refine and_congr_right fun _ => and_congr_right fun _ => ?_
  exact forall₂_congr fun lower owner => imp_congr_left (overlap_mem_iff_meets h hnumbers hp).symm

end

/-- Lines that share a cell have no layout. -/
theorem exists_error_of_shared (hlines : ∀ line ∈ lines, line.WellFormed)
    (hsplit : lines = before ++ line :: after) (hoccupies : line.occupies = true) {q : Nat × Line}
    (hq : q ∈ Line.cursors 0 before) (hq' : q.2.occupies = true) {cell : Nat}
    (hcell : Line.Covers q cell) (hcell' : Line.Covers (Line.stop 0 before, line) cell) :
    ∃ errors, build lines = .error errors := by
  cases hbuild : build lines with
  | error errors => exact ⟨errors, rfl⟩
  | ok layout =>
    have hdisjoint := (wellPlaced_of_build hbuild hlines).disjoint
    rw [hsplit, Line.cursors_append, List.filter_append, List.pairwise_append] at hdisjoint
    have hearlier : q ∈ (Line.cursors 0 before).filter (·.2.occupies) := List.mem_filter.mpr ⟨hq, hq'⟩
    have hline : (Line.stop 0 before, line) ∈
        (Line.cursors (Line.stop 0 before) (line :: after)).filter (·.2.occupies) :=
      List.mem_filter.mpr ⟨List.mem_cons_self, hoccupies⟩
    exact absurd hcell' (hdisjoint.2.2 q hearlier _ hline cell hcell)

/-- A line is reported exactly if it shares a cell that an earlier line holds. -/
theorem overlap_reported_of_build (h : build lines = .error errors)
    (hnumbers : (lines.map (·.number)).Nodup) (hsplit : lines = before ++ line :: after)
    (hfits : Line.Fits (Line.stop 0 before, line)) :
    (∃ cell owner, ⟨line.number, .overlap cell owner⟩ ∈ errors) ↔
      ∃ q ∈ Line.cursors 0 before, Line.Fits q ∧
        ∃ cell, Line.Holds errors q cell ∧ Line.Covers (Line.stop 0 before, line) cell := by
  have halong : ({} : Walk).along lines = ({} : Walk).along before ++
      (before.foldl Walk.step {}, line) :: ((before ++ [line]).foldl Walk.step {}).along after := by
    rw [hsplit, Walk.along_append, Walk.along, List.foldl_append]
    rfl
  have hline : (before.foldl Walk.step {}, line) ∈ ({} : Walk).along lines := by
    rw [halong]
    exact List.mem_append_right _ List.mem_cons_self
  have hearlier : ∀ p ∈ ({} : Walk).along before, p ∈ ({} : Walk).along lines := fun p hp =>
    halong ▸ List.mem_append_left _ hp
  have hcursors := Walk.map_cursor_along {} before
  rw [← show (before.foldl Walk.step {}).cursor = Line.stop 0 before from Walk.cursor_foldl {} before]
    at hfits ⊢
  calc (∃ cell owner, ⟨line.number, .overlap cell owner⟩ ∈ errors)
      ↔ ∃ cell owner, (before.foldl Walk.step {}).Meets line cell owner :=
        exists₂_congr fun cell owner => overlap_mem_iff_meets h hnumbers hline
    _ ↔ ∃ cell : Nat, Line.Covers ((before.foldl Walk.step {}).cursor, line) cell ∧
          ∃ p ∈ ({} : Walk).along before, p.1.Takes p.2 cell := by
        rw [Walk.exists_meets_iff hfits]
        simp [Walk.exists_owner_foldl]
    _ ↔ _ := by
        constructor
        · rintro ⟨cell, hcell, p, hp, htakes⟩
          obtain ⟨hpfits, hholds⟩ := (takes_iff_holds h hnumbers (hearlier p hp)).mp htakes
          exact ⟨_, hcursors ▸ List.mem_map_of_mem hp, hpfits, cell, hholds, hcell⟩
        · rintro ⟨q, hq, hqfits, cell, hholds, hcell⟩
          obtain ⟨p, hp, rfl⟩ := List.mem_map.mp (hcursors.symm ▸ hq)
          exact ⟨cell, hcell, p, hp, (takes_iff_holds h hnumbers (hearlier p hp)).mpr ⟨hqfits, hholds⟩⟩

/-- **Which overlaps are reported.** A source in which a line that fits shares a cell with an earlier line
that fits has no layout. The later line is reported for an overlap exactly if it shares a cell that an
earlier line holds, one that is not behind the cell for which the earlier line is reported itself. -/
theorem overlap_reported_iff (hread : Line.readAll source = .ok lines)
    (hsplit : lines = before ++ line :: after) (hfits : Line.Fits (Line.stop 0 before, line))
    (hshared : ∃ q ∈ Line.cursors 0 before, Line.Fits q ∧
      ∃ cell, Line.Covers q cell ∧ Line.Covers (Line.stop 0 before, line) cell) :
    ∃ errors, build lines = .error errors ∧
      ((∃ cell owner, ⟨line.number, .overlap cell owner⟩ ∈ errors) ↔
        ∃ q ∈ Line.cursors 0 before, Line.Fits q ∧
          ∃ cell, Line.Holds errors q cell ∧ Line.Covers (Line.stop 0 before, line) cell) := by
  obtain ⟨q, hq, hqfits, cell, hcell, hcell'⟩ := hshared
  obtain ⟨errors, hbuild⟩ := exists_error_of_shared (Line.readAll_wellFormed hread) hsplit hfits.1 hq
    hqfits.1 hcell hcell'
  exact ⟨errors, hbuild, overlap_reported_of_build hbuild (Line.nodup_number hread) hsplit hfits⟩

end Layout

/-! ## An overlap behind an overlap -/

namespace Shadowed

/-- A row of words in the place of the first line, and a third line in the place of its second word. -/
def source : String := "NOP\nORG 0\nWORD 1, 2\nORG 1\nHALT\n"

/-- The first line of the program. -/
def front : Line := ⟨1, [], some (.instruction ⟨.nop, .none⟩)⟩

/-- The row is reported for its first cell. -/
def row : Line := ⟨3, [], some (.words [.literal 1, .literal 2])⟩

/-- The line that shares a cell with the row alone. -/
def last : Line := ⟨5, [], some (.instruction ⟨.halt, .none⟩)⟩

def lines : List Line :=
  [front, ⟨2, [], some (.origin 0)⟩, row, ⟨4, [], some (.origin 1)⟩, last]

theorem build_lines : Layout.build lines = .error [⟨3, .overlap 0 1⟩] := by
  simp [Layout.build, Walk.ofLines, Walk.step, Walk.bindPending, Walk.place, Walk.occupy, Walk.report,
    Walk.moveTo, Line.size, Statement.size, addressSpace, lines, front, row, last]

/-- The row is reported, since the first line holds the cell that it shares with it. -/
theorem overlap_reported_of_row :
    Line.Fits (0, row) ∧ Line.Fits (0, front) ∧ ∃ errors, Layout.build lines = .error errors ∧
      ∃ cell owner, ⟨3, .overlap cell owner⟩ ∈ errors := by
  have hread : Line.readAll source = .ok lines := rfl
  have hrow : Line.Fits (0, row) := by decide
  have hfront : Line.Fits (0, front) := by decide
  have hsplit : lines = lines.take 2 ++ row :: lines.drop 3 := rfl
  obtain ⟨errors, hbuild, hreported⟩ := Layout.overlap_reported_iff hread hsplit hrow
    ⟨(0, front), by decide, hfront, 0, by decide⟩
  cases build_lines.symm.trans hbuild
  have hholds : Line.Holds [⟨3, .overlap 0 1⟩] (0, front) 0 := ⟨by decide, by simp [front]⟩
  exact ⟨hrow, hfront, _, build_lines, hreported.mpr ⟨_, by decide, hfront, 0, hholds, by decide⟩⟩

/-- The last line is not reported, although it shares a cell with the row, and both fit: the row is reported
for a lower cell. -/
theorem overlap_unreported :
    Line.readAll source = .ok lines ∧ Line.cursors 0 lines =
        [(0, front), (1, ⟨2, [], some (.origin 0)⟩), (0, row), (2, ⟨4, [], some (.origin 1)⟩),
          (1, last)] ∧
      Line.Fits (0, row) ∧ Line.Fits (1, last) ∧ Line.Covers (0, row) 1 ∧ Line.Covers (1, last) 1 ∧
      ∃ errors, Layout.build lines = .error errors ∧
        ∀ cell owner, ⟨5, .overlap cell owner⟩ ∉ errors := by
  refine ⟨rfl, rfl, by decide, by decide, by decide, by decide, _, build_lines, ?_⟩
  simp

end Shadowed

end Accumulator
