import Accumulator.Proofs.Assembly.Placement

/-!
# Where the labels are bound

* `Line.anchor`, `Line.bindings` — the cell that a label in front of the lines is to be bound to, and
  every label of the lines with its cell. `Line.stop` — the end of the program.
* `Bindable` — what labels have to satisfy: no name comes twice, and every cell has an address.
* `bindPending_of_bindable`, `bindable_of_bindPending` — a walk binds the labels it waits with, without
  a report, exactly if they are bindable together with the ones bound before.
* `Walk.destined` — the labels that a walk has bound, waits with or has yet to meet, each with its cell.
  A line that is reported for nothing does not change it: `destined_step`.
* `labels_of_build` — the table of a layout holds the bindings of its lines, in order.
-/

namespace Accumulator

/-! ## Labels and their cells -/

namespace Line

/-- The labels of a line as a walk waits with them. -/
def pending (line : Line) : List PendingLabel := line.labels.map fun name => ⟨name, line.number⟩

/-- The cursor in front of the first line that takes cells, or behind the last line. -/
def anchor : Nat → List Line → Nat
  | cursor, [] => cursor
  | cursor, line :: rest => if line.occupies then cursor else anchor (line.next cursor) rest

/-- The cursor behind the lines. -/
def stop (cursor : Nat) (lines : List Line) : Nat := lines.foldl next cursor

/-- Every label, in the order of the source, with the cell it is to be bound to. -/
def bindings : Nat → List Line → List (PendingLabel × Nat)
  | _, [] => []
  | cursor, line :: rest =>
    line.pending.map (·, anchor cursor (line :: rest)) ++ bindings (line.next cursor) rest

theorem map_name_bindings (cursor : Nat) (lines : List Line) :
    (bindings cursor lines).map (·.1.name) = lines.flatMap (·.labels) := by
  induction lines generalizing cursor with
  | nil => rfl
  | cons line lines ih =>
    rw [bindings, List.map_append, ih, List.flatMap_cons, List.map_map, pending, List.map_map]
    simp [Function.comp_def]

theorem next_of_occupies {cursor : Nat} {line : Line} (h : line.occupies = true) :
    line.next cursor = cursor + line.size := by
  unfold occupies at h
  unfold next
  split at h
  · next hstatement => rw [hstatement]
  · next hstatement => rw [hstatement]
  · cases h

theorem stop_append (cursor : Nat) (before after : List Line) :
    stop cursor (before ++ after) = stop (stop cursor before) after := List.foldl_append

theorem cursors_append (cursor : Nat) (before after : List Line) :
    cursors cursor (before ++ after) = cursors cursor before ++ cursors (stop cursor before) after := by
  induction before generalizing cursor with
  | nil => rfl
  | cons line before ih => rw [List.cons_append, cursors, cursors, ih, List.cons_append]; rfl

theorem bindings_append (cursor : Nat) (before after : List Line) :
    ∃ others, bindings cursor (before ++ after) = others ++ bindings (stop cursor before) after := by
  induction before generalizing cursor with
  | nil => exact ⟨[], rfl⟩
  | cons line before ih =>
    obtain ⟨others, hothers⟩ := ih (line.next cursor)
    refine ⟨line.pending.map (·, anchor cursor (line :: (before ++ after))) ++ others, ?_⟩
    rw [List.cons_append, bindings, hothers, List.append_assoc]
    rfl

/-- A label of a line is bound to the anchor of the lines from there on. -/
theorem mem_bindings (cursor : Nat) (before after : List Line) {line : Line} {name : String}
    (hname : name ∈ line.labels) :
    (⟨name, line.number⟩, anchor (stop cursor before) (line :: after)) ∈
      bindings cursor (before ++ line :: after) := by
  obtain ⟨others, hothers⟩ := bindings_append cursor before (line :: after)
  rw [hothers, bindings]
  apply List.mem_append_right
  apply List.mem_append_left
  exact List.mem_map_of_mem (List.mem_map_of_mem hname)

/-- The anchor is the cursor of the first line that takes cells. -/
theorem anchor_of_find?_eq_some (cursor : Nat) {lines : List Line} {found : Line}
    (h : lines.find? (·.occupies) = some found) :
    (anchor cursor lines, found) ∈ cursors cursor lines := by
  induction lines generalizing cursor with
  | nil => cases h
  | cons line lines ih =>
    rw [anchor, cursors]
    cases hoccupies : line.occupies with
    | true =>
      rw [List.find?_cons_of_pos hoccupies] at h
      cases h
      exact List.mem_cons_self
    | false =>
      rw [List.find?_cons_of_neg (by simp [hoccupies])] at h
      exact List.mem_cons_of_mem _ (ih _ h)

/-- Without a line that takes cells, the anchor is the end. -/
theorem anchor_of_find?_eq_none {cursor : Nat} {lines : List Line}
    (h : lines.find? (·.occupies) = none) : anchor cursor lines = stop cursor lines := by
  induction lines generalizing cursor with
  | nil => rfl
  | cons line lines ih =>
    have hline : ¬ line.occupies = true := List.find?_eq_none.mp h line List.mem_cons_self
    rw [List.find?_cons_of_neg hline] at h
    rw [anchor, if_neg hline, ih h]
    rfl

end Line

/-- Labels that can all be bound. -/
structure Bindable (labels : List (PendingLabel × Nat)) : Prop where
  /-- No name comes twice. -/
  distinct : (labels.map (·.1.name)).Nodup
  /-- Every cell has an address. -/
  addressable : ∀ b ∈ labels, b.2 < addressSpace

namespace Bindable

variable {labels others : List (PendingLabel × Nat)} {label : PendingLabel} {cell : Nat}

theorem nil : Bindable [] := ⟨List.nodup_nil, nofun⟩

theorem of_append (h : Bindable (labels ++ others)) : Bindable labels where
  distinct := by
    have hnames := h.distinct
    rw [List.map_append] at hnames
    exact (List.nodup_append.mp hnames).1
  addressable b hb := h.addressable b (List.mem_append_left _ hb)

theorem concat_iff :
    Bindable (labels ++ [(label, cell)]) ↔
      Bindable labels ∧ label.name ∉ labels.map (·.1.name) ∧ cell < addressSpace := by
  constructor
  · intro h
    have hnames := h.distinct
    rw [List.map_append, List.map_singleton, List.nodup_append_comm, List.singleton_append,
      List.nodup_cons] at hnames
    exact ⟨h.of_append, hnames.1, h.addressable (label, cell) (by simp)⟩
  · rintro ⟨h, hname, hcell⟩
    refine ⟨?_, fun b hb => ?_⟩
    · rw [List.map_append, List.map_singleton, List.nodup_append_comm, List.singleton_append]
      exact List.nodup_cons.mpr ⟨hname, h.distinct⟩
    · rcases List.mem_append.mp hb with hb | hb
      · exact h.addressable b hb
      · rw [List.mem_singleton.mp hb]
        exact hcell

end Bindable

/-! ## The table -/

namespace SymbolTable

/-- The labels of a table in the order of their definition, each with the number of its cell. -/
def bound (table : SymbolTable) : List (PendingLabel × Nat) :=
  table.toList.map fun entry => (⟨entry.1, entry.2.line⟩, entry.2.address.toNat)

variable {table next : SymbolTable} {name : String} {symbol : Symbol}

theorem map_name_bound (table : SymbolTable) :
    table.bound.map (·.1.name) = table.toList.map Prod.fst := by
  rw [bound, List.map_map]
  rfl

theorem find?_eq_none_iff : table.find? name = none ↔ name ∉ table.bound.map (·.1.name) := by
  rw [map_name_bound, toList, List.map_reverse, List.mem_reverse, find?, List.lookup_eq_none_iff]
  simp only [bne_iff_ne, List.mem_map, not_exists, not_and]
  exact forall₂_congr fun entry _ => ne_comm

/-- A label that a table holds under a name of its own is found by that name. -/
theorem find?_of_mem_bound (hnames : (table.bound.map (·.1.name)).Nodup) {label : PendingLabel}
    {cell : Nat} (hmem : (label, cell) ∈ table.bound) :
    ∃ address : Address, table.find? label.name = some ⟨label.line, address⟩ ∧
      address.toNat = cell := by
  rw [map_name_bound] at hnames
  obtain ⟨⟨name, symbol⟩, hentry, heq⟩ := List.mem_map.mp hmem
  cases heq
  cases hfound : table.find? name with
  | none =>
    have hname := find?_eq_none_iff.mp hfound
    rw [map_name_bound] at hname
    exact absurd (List.mem_map_of_mem hentry) hname
  | some found =>
    obtain ⟨before, after, hentries, -⟩ := List.lookup_eq_some_iff.mp hfound
    have hother : (name, found) ∈ table.toList := by
      rw [toList, List.mem_reverse, hentries]
      simp
    cases List.inj_on_of_nodup_map hnames hother hentry rfl
    exact ⟨symbol.address, rfl, rfl⟩

theorem define_eq_ok (h : table.define name symbol = .ok next) :
    name ∉ table.bound.map (·.1.name) ∧
      next.bound = table.bound ++ [(⟨name, symbol.line⟩, symbol.address.toNat)] := by
  unfold define at h
  split at h
  · cases h
  · next hfree =>
    cases h
    refine ⟨find?_eq_none_iff.mp hfree, ?_⟩
    rw [bound, bound, toList, toList, List.reverse_cons, List.map_append, List.map_singleton]

theorem define_of_not_mem (symbol : Symbol) (h : name ∉ table.bound.map (·.1.name)) :
    ∃ next, table.define name symbol = .ok next := by
  rw [define, find?_eq_none_iff.mpr h]
  exact ⟨_, rfl⟩

end SymbolTable

/-! ## Binding -/

namespace Walk

variable {w : Walk} {label : PendingLabel} {line : Line} {rest lines : List Line}

theorem bindLabel_of_free (hcell : w.cursor < addressSpace)
    (hname : label.name ∉ w.labels.bound.map (·.1.name)) :
    ∃ labels, w.bindLabel label = { w with labels } ∧
      labels.bound = w.labels.bound ++ [(label, w.cursor)] := by
  have haddress : Address.ofNat? w.cursor = some (UInt16.ofNat w.cursor) := if_pos hcell
  obtain ⟨labels, hdefine⟩ :=
    SymbolTable.define_of_not_mem ⟨label.line, UInt16.ofNat w.cursor⟩ hname
  refine ⟨labels, ?_, ?_⟩
  · rw [bindLabel, haddress]
    simp only [hdefine]
  · rw [(SymbolTable.define_eq_ok hdefine).2, Address.toNat_of_ofNat? haddress]

theorem free_of_bindLabel (h : (w.bindLabel label).errors = #[]) :
    w.cursor < addressSpace ∧ label.name ∉ w.labels.bound.map (·.1.name) := by
  unfold bindLabel at h
  split at h
  · simp [report] at h
  · next address haddress =>
    split at h
    · next labels hdefine =>
      refine ⟨?_, (SymbolTable.define_eq_ok hdefine).1⟩
      rw [← Address.toNat_of_ofNat? haddress]
      exact address.toNat_lt
    · simp [report] at h

theorem foldl_bindLabel_of_bindable {pending : List PendingLabel} {w : Walk}
    (h : Bindable (w.labels.bound ++ pending.map (·, w.cursor))) :
    ∃ labels, pending.foldl bindLabel w = { w with labels } ∧
      labels.bound = w.labels.bound ++ pending.map (·, w.cursor) := by
  induction pending generalizing w with
  | nil => exact ⟨w.labels, rfl, (List.append_nil _).symm⟩
  | cons label pending ih =>
    rw [List.map_cons, List.append_cons] at h
    obtain ⟨-, hname, hcell⟩ := Bindable.concat_iff.mp h.of_append
    obtain ⟨labels, hlabel, hbound⟩ := bindLabel_of_free hcell hname
    rw [← hbound] at h
    obtain ⟨all, hpending, hall⟩ := ih (w := { w with labels }) h
    refine ⟨all, ?_, ?_⟩
    · rw [List.foldl_cons, hlabel, hpending]
    · rw [List.map_cons, List.append_cons, ← hbound]
      exact hall

theorem bindable_of_foldl_bindLabel {pending : List PendingLabel} {w : Walk}
    (hw : Bindable w.labels.bound) (h : (pending.foldl bindLabel w).errors = #[]) :
    Bindable (w.labels.bound ++ pending.map (·, w.cursor)) := by
  induction pending generalizing w with
  | nil => rwa [List.map_nil, List.append_nil]
  | cons label pending ih =>
    rw [List.foldl_cons] at h
    have hlabel : (w.bindLabel label).errors = #[] := by
      obtain ⟨labels, errors, hframe⟩ := foldl_bindLabel_frame pending (w.bindLabel label)
      rw [hframe] at h
      exact (Array.append_eq_empty_iff.mp h).1
    obtain ⟨hcell, hname⟩ := free_of_bindLabel hlabel
    obtain ⟨labels, hwalk, hbound⟩ := bindLabel_of_free hcell hname
    rw [hwalk] at h
    have hnext : Bindable labels.bound := by
      rw [hbound]
      exact Bindable.concat_iff.mpr ⟨hw, hname, hcell⟩
    have hrest := ih (w := { w with labels }) hnext h
    rwa [List.map_cons, List.append_cons, ← hbound]

/-- Labels that are bindable are bound in order, and nothing is reported. -/
theorem bindPending_of_bindable (h : Bindable (w.labels.bound ++ w.pending.map (·, w.cursor))) :
    ∃ labels, w.bindPending = { w with pending := [], labels } ∧
      labels.bound = w.labels.bound ++ w.pending.map (·, w.cursor) :=
  foldl_bindLabel_of_bindable (w := { w with pending := [] }) h

/-- Labels that are bound without a report are bindable. -/
theorem bindable_of_bindPending (hw : Bindable w.labels.bound) (h : w.bindPending.errors = #[]) :
    Bindable (w.labels.bound ++ w.pending.map (·, w.cursor)) :=
  bindable_of_foldl_bindLabel (w := { w with pending := [] }) hw h

/-! ## One line -/

theorem step_of_occupies (h : line.occupies = true) :
    w.step line = place { w with pending := w.pending ++ line.pending } line := by
  unfold Line.occupies at h
  unfold step
  split at h
  · next hstatement => rw [hstatement]; rfl
  · next hstatement => rw [hstatement]; rfl
  · cases h

/-- What a line that takes no cell leaves alone, and that its labels wait. -/
theorem step_of_not_occupies (h : line.occupies = false) :
    (w.step line).cursor = line.next w.cursor ∧
      (w.step line).pending = w.pending ++ line.pending ∧ (w.step line).labels = w.labels ∧
      (w.step line).owners = w.owners ∧ (w.step line).errors = w.errors := by
  unfold Line.occupies at h
  unfold step Line.next
  cases hstatement : line.statement with
  | none => exact ⟨by rw [Line.size_of_statement_eq_none hstatement]; rfl, rfl, rfl, rfl, rfl⟩
  | some statement =>
    cases statement with
    | origin address => exact ⟨rfl, rfl, rfl, rfl, rfl⟩
    | words items => simp [hstatement] at h
    | instruction code => simp [hstatement] at h

/-- A line that takes cells binds the labels that wait, at the cursor. -/
theorem place_eq (w : Walk) (line : Line) :
    (w.place line).cursor = w.cursor + line.size ∧ (w.place line).pending = [] ∧
      (w.place line).labels = w.bindPending.labels ∧
      ((w.place line).errors = #[] → w.bindPending.errors = #[]) := by
  obtain ⟨labels, errors, hbind⟩ := bindPending_frame w
  unfold place
  simp only [hbind]
  split
  · exact ⟨rfl, rfl, rfl, by simp [report]⟩
  · split
    · exact ⟨rfl, rfl, rfl, id⟩
    · exact ⟨rfl, rfl, rfl, by simp [report]⟩

/-- The labels that the walk has bound, waits with or has yet to meet in the lines, each with its
cell. -/
def destined (w : Walk) (lines : List Line) : List (PendingLabel × Nat) :=
  w.labels.bound ++ w.pending.map (·, Line.anchor w.cursor lines) ++ Line.bindings w.cursor lines

/-- **A line that is reported for nothing leaves every label its cell.** -/
theorem destined_step (rest : List Line) (hw : Bindable w.labels.bound) (h : (w.step line).errors = #[]) :
    (w.step line).destined rest = w.destined (line :: rest) ∧
      Bindable (w.step line).labels.bound := by
  cases hoccupies : line.occupies with
  | false =>
    obtain ⟨hcursor, hpending, hlabels, -, -⟩ := step_of_not_occupies (w := w) hoccupies
    refine ⟨?_, hlabels ▸ hw⟩
    simp only [destined, hcursor, hpending, hlabels, Line.anchor, Line.bindings, hoccupies,
      Bool.false_eq_true, if_false, List.map_append, List.append_assoc]
  | true =>
    rw [step_of_occupies hoccupies] at h ⊢
    obtain ⟨hcursor, hpending, hlabels, herrors⟩ :=
      place_eq { w with pending := w.pending ++ line.pending } line
    have hbindable := bindable_of_bindPending
      (w := { w with pending := w.pending ++ line.pending }) hw (herrors h)
    obtain ⟨labels, hbind, hbound⟩ := bindPending_of_bindable hbindable
    rw [hbind] at hlabels
    constructor
    · simp only [destined, hcursor, hpending, hlabels, hbound, Line.anchor, Line.bindings,
        hoccupies, if_true, List.map_append, List.map_nil, List.append_nil, List.append_assoc,
        Line.next_of_occupies hoccupies]
    · rw [hlabels, hbound]
      exact hbindable

/-! ## All lines -/

/-- A walk without reports ends with every label bound to its cell. -/
theorem bound_of_foldl (hw : Bindable w.labels.bound)
    (h : (lines.foldl step w).bindPending.errors = #[]) :
    (lines.foldl step w).bindPending.labels.bound = w.destined lines ∧
      Bindable (w.destined lines) := by
  induction lines generalizing w with
  | nil =>
    have hbindable := bindable_of_bindPending hw h
    obtain ⟨labels, hbind, hbound⟩ := bindPending_of_bindable hbindable
    rw [List.foldl_nil, hbind, destined, Line.bindings, List.append_nil]
    exact ⟨hbound, hbindable⟩
  | cons line lines ih =>
    have hfold : (lines.foldl step (w.step line)).errors = #[] := by
      obtain ⟨labels, errors, hbind⟩ := bindPending_frame ((line :: lines).foldl step w)
      rw [hbind] at h
      exact (Array.append_eq_empty_iff.mp h).1
    obtain ⟨hdestined, hnext⟩ := destined_step lines hw (errors_of_foldl hfold)
    rw [← hdestined]
    exact ih hnext h

end Walk

namespace Layout

variable {lines : List Line} {layout : Layout}

/-- **The table of a layout holds the bindings of its lines, in order.** -/
theorem labels_of_build (h : build lines = .ok layout) :
    layout.labels.bound = Line.bindings 0 lines ∧ Bindable (Line.bindings 0 lines) := by
  unfold build Walk.ofLines at h
  simp only at h
  split at h
  · next hempty =>
    cases h
    have hwalk := Walk.bound_of_foldl (w := {}) Bindable.nil (Array.isEmpty_iff.mp hempty)
    exact hwalk
  · cases h

/-- A label that is to be bound to a cell has its address in the table. -/
theorem address?_of_mem_bindings (h : build lines = .ok layout) {label : PendingLabel} {cell : Nat}
    (hmem : (label, cell) ∈ Line.bindings 0 lines) :
    ∃ address : Address, layout.labels.address? label.name = some address ∧
      address.toNat = cell := by
  obtain ⟨hbound, hbindable⟩ := labels_of_build h
  rw [← hbound] at hmem hbindable
  obtain ⟨address, hfound, hcell⟩ := SymbolTable.find?_of_mem_bound hbindable.distinct hmem
  exact ⟨address, by rw [SymbolTable.address?, hfound]; rfl, hcell⟩

end Layout

end Accumulator
